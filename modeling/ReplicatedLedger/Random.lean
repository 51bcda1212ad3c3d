import ReplicatedLedger.Word

/-!
Pseudo-random words that a seed fixes: the key stream of ChaCha with eight rounds, taken two 32-bit
words at a time.
-/

namespace ReplicatedLedger.Random

/-- Sixteen words, as four rows of four. -/
abbrev Block := Vector UInt32 16

abbrev Key := Vector UInt32 8

def rotateLeft (w n : UInt32) : UInt32 := (w <<< n) ||| (w >>> (32 - n))

/-- The mixing step on four words of a block, given by their positions. -/
def mix (s : Block) (i j k l : Fin 16) : Block :=
  let (a, b, c, d) := (s[i], s[j], s[k], s[l])
  let a := a + b
  let d := rotateLeft (d ^^^ a) 16
  let c := c + d
  let b := rotateLeft (b ^^^ c) 12
  let a := a + b
  let d := rotateLeft (d ^^^ a) 8
  let c := c + d
  let b := rotateLeft (b ^^^ c) 7
  (((s.set i a).set j b).set k c).set l d

def mixColumns (s : Block) : Block :=
  mix (mix (mix (mix s 0 4 8 12) 1 5 9 13) 2 6 10 14) 3 7 11 15

def mixDiagonals (s : Block) : Block :=
  mix (mix (mix (mix s 0 5 10 15) 1 6 11 12) 2 7 8 13) 3 4 9 14

def rounds : Nat → Block → Block
  | 0, s => s
  | n + 1, s => rounds n (mixDiagonals (mixColumns s))

/-- The words `expand 32-byte k`. -/
def constants : Vector UInt32 4 := #v[0x61707865, 0x3320646e, 0x79622d32, 0x6b206574]

def start (key : Key) (counter : Word) : Block :=
  constants ++ key ++ (#v[counter.toUInt32, (counter >>> 32).toUInt32, 0, 0] : Vector UInt32 4)

/-- The block of the key stream at a position. -/
def block (key : Key) (counter : Word) : Block :=
  let first := start key counter
  Vector.zipWith (· + ·) first (rounds 4 first)

/-- Joins words by twos, the lower one first. -/
def pairUp : List UInt32 → List Word
  | low :: high :: rest => ((high.toUInt64 <<< 32) ||| low.toUInt64) :: pairUp rest
  | _ => []

/-! A seed becomes a key by eight steps of a linear congruential generator. -/

def advance (seed : Word) : Word := seed * 6364136223846793005 + 11634580027462260723

/-- The word shown at a state of that generator. -/
def shown (state : Word) : UInt32 :=
  let w := (((state >>> 18) ^^^ state) >>> 27).toUInt32
  let n := (state >>> 59).toUInt32
  (w >>> n) ||| (w <<< (32 - n))

def keyWords : Nat → Word → List UInt32
  | 0, _ => []
  | n + 1, seed => shown (advance seed) :: keyWords n (advance seed)

theorem length_keyWords (n : Nat) (seed : Word) : (keyWords n seed).length = n := by
  induction n generalizing seed with
  | zero => rfl
  | succ n ih => simp [keyWords, ih]

def keyOf (seed : Word) : Key := ⟨(keyWords 8 seed).toArray, by simp [length_keyWords]⟩

/-- A key stream, with the words left of the block before `counter`. -/
structure Generator where
  key : Key
  counter : Word := 0
  left : List Word := []
  deriving DecidableEq

namespace Generator

def ofSeed (seed : Word) : Generator := { key := keyOf seed }

def draw (g : Generator) : Word × Generator :=
  match g.left with
  | w :: rest => (w, { g with left := rest })
  | [] =>
    match pairUp (block g.key g.counter).toList with
    | w :: rest => (w, { g with counter := g.counter + 1, left := rest })
    | [] => (0, g)

end Generator

end ReplicatedLedger.Random
