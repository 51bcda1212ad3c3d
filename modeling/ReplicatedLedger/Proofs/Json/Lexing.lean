import Mathlib.Data.List.Chain
import Mathlib.Data.List.TakeWhile
import ReplicatedLedger.Json.Token

/-!
Written tokens are read back.  The end of a literal or a number shows only in the character after
it, so no two of these may stand side by side; the end of any other token shows by itself.
-/

namespace ReplicatedLedger.Json

variable {done : List Token} {read : List Char} {units : List Nat} {cs rest : List Char}
  {c : Char} {t : Token} {ts : List Token} {n : Nat}

namespace Token

/-- A literal or a number. -/
def isWord : Token → Bool
  | null | boolean _ | natural _ | number _ => true
  | _ => false

/-- Whether two tokens may stand side by side. -/
def Apart (t t' : Token) : Prop := t.isWord = true → t'.isWord = false

end Token

/-- The characters of a list of tokens. -/
def spelling (ts : List Token) : List Char := ts.flatMap fun t => t.write.toList

/-- Whether a word that ends here is seen to end. -/
def Delimited (rest : List Char) : Prop := ∀ c ∈ rest.head?, isWordChar c = false

@[simp] theorem spelling_cons (t : Token) (ts : List Token) :
    spelling (t :: ts) = t.write.toList ++ spelling ts :=
  List.flatMap_cons

@[simp] theorem delimited_cons : Delimited (c :: rest) ↔ isWordChar c = false := by
  simp [Delimited]

/-! ### Numerals -/

theorem exists_toDigits_eq_cons (h : 0 < n) : ∃ c cs, Nat.toDigits 10 n = c :: cs ∧ c ≠ '0' := by
  induction n using Nat.base_induction 10 (by decide) with
  | single n hn =>
      refine ⟨n.digitChar, [], Nat.toDigits_of_lt_base hn, ?_⟩
      rw [ne_eq, Nat.digitChar_eq_zero]
      omega
  | digit m k hk hm ih =>
      obtain ⟨c, cs, hcs, hc⟩ := ih hm
      refine ⟨c, cs ++ Nat.toDigits 10 k, ?_, hc⟩
      rw [← Nat.toDigits_append_toDigits (by decide) hm hk, hcs]
      rfl

theorem isDigit_of_mem_toDigits (h : c ∈ Nat.toDigits 10 n) : c.isDigit = true :=
  Nat.isDigit_of_mem_toDigits (by decide) (by decide) h

theorem isIntegerPart_toDigits (n : Nat) : isIntegerPart (Nat.toDigits 10 n) = true := by
  rcases Nat.eq_zero_or_pos n with rfl | hpos
  · rfl
  · obtain ⟨c, cs, hcs, hc⟩ := exists_toDigits_eq_cons hpos
    have hall : ∀ d ∈ c :: cs, d.isDigit = true := fun d hd => by
      rw [← hcs] at hd
      exact isDigit_of_mem_toDigits hd
    rw [hcs]
    unfold isIntegerPart
    split
    · contradiction
    · rfl
    · next heq =>
      cases heq
      simp only [List.mem_cons, forall_eq_or_imp] at hall
      simp [hc, hall.1]
      exact hall.2

theorem digit?_of_isDigit (h : c.isDigit = true) : Numeral.digit? c = some (c.toNat - 48) := by
  unfold Numeral.digit?
  rw [if_pos h]

theorem value_toDigits (n : Nat) : Numeral.value 10 (Nat.toDigits 10 n) = n := by
  conv_rhs => rw [← Nat.ofDigitChars_ten_toDigits (n := n)]
  rw [Nat.ofDigitChars_eq_foldl]
  unfold Numeral.value
  refine List.foldl_ext _ _ 0 fun m c hc => ?_
  rw [digit?_of_isDigit (isDigit_of_mem_toDigits hc)]
  rfl

theorem numberToken?_of_isIntegerPart (hdigits : ∀ d ∈ cs, d.isDigit = true)
    (hpart : isIntegerPart cs = true) :
    numberToken? cs = some (.natural (Numeral.value 10 cs)) := by
  unfold numberToken?
  split
  · exact absurd (hdigits '-' List.mem_cons_self) (by decide)
  · simp [List.takeWhile_eq_self_iff.2 hdigits, List.dropWhile_eq_nil_iff.2 hdigits, hpart,
      isNumberTail]

/-- The digits of a number are a word of their own. -/
theorem wordToken?_toDigits (n : Nat) : wordToken? (Nat.toDigits 10 n) = some (.natural n) := by
  have hdigits : ∀ d ∈ Nat.toDigits 10 n, d.isDigit = true := fun _ => isDigit_of_mem_toDigits
  have hne : ∀ d ds, d.isDigit = false → Nat.toDigits 10 n ≠ d :: ds := by
    intro d ds hd heq
    rw [heq] at hdigits
    exact Bool.false_ne_true (hd.symm.trans (hdigits d List.mem_cons_self))
  unfold wordToken?
  rw [if_neg (hne 'n' _ (by decide)), if_neg (hne 't' _ (by decide)),
    if_neg (hne 'f' _ (by decide)),
    numberToken?_of_isIntegerPart hdigits (isIntegerPart_toDigits n), value_toDigits]

/-! ### Words -/

theorem isWordChar_of_isDigit (h : c.isDigit = true) : isWordChar c = true := by
  simp [isWordChar, Char.isAlphanum, h]

theorem stepBetween_of_isWordChar (h : isWordChar c = true) :
    stepBetween c = some ([], .word [c]) := by
  unfold stepBetween
  split
  · next hblank =>
    simp only [isBlank, Bool.or_eq_true, decide_eq_true_eq] at hblank
    obtain ((rfl | rfl) | rfl) | rfl := hblank <;> simp [isWordChar] at h
  · split
    case h_8 => rfl
    all_goals simp [isWordChar] at h

theorem lexFrom_word_append (h : ∀ c ∈ cs, isWordChar c = true) :
    lexFrom done (.word read) (cs ++ rest) = lexFrom done (.word (cs.reverse ++ read)) rest := by
  induction cs generalizing read with
  | nil => rfl
  | cons c cs ih =>
      obtain ⟨hc, hcs⟩ := List.forall_mem_cons.1 h
      rw [List.cons_append, lexFrom]
      simp only [step, hc, if_true]
      rw [List.reverse_nil, List.nil_append, ih hcs, List.reverse_cons, List.append_assoc]
      rfl

/-- A word is complete once something follows that cannot belong to it. -/
theorem lexFrom_word_end (h : wordToken? read.reverse = some t) (hrest : Delimited rest) :
    lexFrom done (.word read) rest = lexFrom (t :: done) .between rest := by
  cases rest with
  | nil => simp [lexFrom, h]
  | cons c rest =>
      rw [delimited_cons] at hrest
      rw [lexFrom, lexFrom]
      simp only [step, hrest, h]
      cases hstep : stepBetween c with
      | none => rfl
      | some next => simp

theorem lexFrom_word (hword : wordToken? (c :: cs) = some t)
    (hchars : ∀ d ∈ c :: cs, isWordChar d = true) (hrest : Delimited rest) :
    lexFrom done .between (c :: cs ++ rest) = lexFrom (t :: done) .between rest := by
  obtain ⟨hc, hcs⟩ := List.forall_mem_cons.1 hchars
  rw [List.cons_append, lexFrom]
  simp only [step, stepBetween_of_isWordChar hc]
  rw [List.reverse_nil, List.nil_append, lexFrom_word_append hcs]
  exact lexFrom_word_end (by simpa using hword) hrest

theorem lexFrom_natural (n : Nat) (hrest : Delimited rest) :
    lexFrom done .between ((toString n).toList ++ rest) =
      lexFrom (.natural n :: done) .between rest := by
  have hchars : ∀ c ∈ Nat.toDigits 10 n, isWordChar c = true := fun c hc =>
    isWordChar_of_isDigit (isDigit_of_mem_toDigits hc)
  have hword := wordToken?_toDigits n
  rw [Nat.toString_eq_ofList_toDigits, String.toList_ofList]
  cases hdigits : Nat.toDigits 10 n with
  | nil => exact absurd hdigits Nat.toDigits_ne_nil
  | cons c cs =>
      rw [hdigits] at hword hchars
      exact lexFrom_word hword hchars hrest

/-! ### Strings -/

/-- Characters are no halves of surrogate pairs. -/
theorem ofUnits_map_toNat (cs : List Char) : ofUnits (cs.map Char.toNat) = some cs := by
  induction cs with
  | nil => rfl
  | cons c cs ih =>
      have hvalid : isHighSurrogate c.toNat = false ∧ isLowSurrogate c.toNat = false := by
        have hc : c.toNat < 0xD800 ∨ 0xDFFF < c.toNat ∧ c.toNat < 0x110000 := c.valid
        simp only [isHighSurrogate, isLowSurrogate, Bool.and_eq_false_iff, decide_eq_false_iff_not]
        omega
      unfold ofUnits
      simp [hvalid.1, hvalid.2, ih]

theorem digit?_hexDigit : ∀ d < 16, Numeral.digit? (hexDigit d) = some d := by decide

/-- A numeric escape of a control character. -/
theorem lexFrom_unit (h : n < 256) :
    lexFrom done (.string units)
        ('\\' :: 'u' :: '0' :: '0' :: hexDigit (n / 16) :: hexDigit (n % 16) :: rest) =
      lexFrom done (.string (n :: units)) rest := by
  have hhigh := digit?_hexDigit (n / 16) (by omega)
  have hlow := digit?_hexDigit (n % 16) (by omega)
  have hzero : Numeral.digit? '0' = some 0 := by decide
  have hvalue : 16 * (n / 16) + n % 16 = n := Nat.div_add_mod n 16
  simp [lexFrom, step, hzero, hhigh, hlow, hvalue]

/-- Escaped or not, a character is read as itself. -/
theorem lexFrom_escape (c : Char) :
    lexFrom done (.string units) (escape c ++ rest) =
      lexFrom done (.string (c.toNat :: units)) rest := by
  unfold escape
  split
  · next h => subst h; rfl
  · next hquote =>
    split
    · next h => subst h; rfl
    · next hbackslash =>
      split
      · next hcontrol =>
        split
        · next h => rw [h]; rfl
        · next h => rw [h]; rfl
        · next h => rw [h]; rfl
        · next h => rw [h]; rfl
        · next h => rw [h]; rfl
        · exact lexFrom_unit (by omega)
      · next hcontrol => simp [lexFrom, step, hquote, hbackslash, hcontrol]

theorem lexFrom_escapes (cs : List Char) :
    lexFrom done (.string units) (cs.flatMap escape ++ rest) =
      lexFrom done (.string ((cs.map Char.toNat).reverse ++ units)) rest := by
  induction cs generalizing units with
  | nil => rfl
  | cons c cs ih =>
      rw [List.flatMap_cons, List.append_assoc, lexFrom_escape, ih]
      simp

theorem lexFrom_quoted (s : String) :
    lexFrom done .between ((quoted s).toList ++ rest) =
      lexFrom (.text (some s) :: done) .between rest := by
  have hopen : ∀ cs, lexFrom done .between ('"' :: cs) = lexFrom done (.string []) cs :=
    fun _ => rfl
  have hclose : lexFrom done (.string (s.toList.map Char.toNat).reverse) ('"' :: rest) =
      lexFrom (.text (some s) :: done) .between rest := by
    simp [lexFrom, step, ofUnits_map_toNat]
  unfold quoted
  rw [String.toList_ofList, List.cons_append, List.cons_append, List.append_assoc, hopen,
    lexFrom_escapes, List.append_nil]
  exact hclose

/-! ### Tokens -/

theorem delimited_write (h : t.isWord = false) : Delimited (t.write.toList ++ rest) := by
  cases t with
  | null | boolean b | natural n | number lexeme => cases h
  | text s =>
      cases s with
      | none => exact delimited_cons.2 (by decide)
      | some s =>
          show Delimited ((quoted s).toList ++ rest)
          unfold quoted
          rw [String.toList_ofList]
          exact delimited_cons.2 (by decide)
  | _ => exact delimited_cons.2 (by decide)

theorem lexFrom_literal (hwrite : t.write.toList = c :: cs) (hword : wordToken? (c :: cs) = some t)
    (hchars : (c :: cs).all isWordChar = true) (hrest : Delimited rest) :
    lexFrom done .between (t.write.toList ++ rest) = lexFrom (t :: done) .between rest := by
  rw [hwrite]
  exact lexFrom_word hword (List.all_eq_true.1 hchars) hrest

theorem lexFrom_mark (hwrite : t.write.toList = [c])
    (hstep : stepBetween c = some ([t], .between)) :
    lexFrom done .between (t.write.toList ++ rest) = lexFrom (t :: done) .between rest := by
  rw [hwrite, List.cons_append, List.nil_append, lexFrom]
  simp [step, hstep]

theorem lexFrom_write (hnumber : ∀ lexeme, t ≠ .number lexeme)
    (hrest : t.isWord = true → Delimited rest) :
    lexFrom done .between (t.write.toList ++ rest) = lexFrom (t :: done) .between rest := by
  cases t with
  | null =>
      have hwrite : Token.null.write.toList = ['n', 'u', 'l', 'l'] := by decide
      exact lexFrom_literal hwrite rfl rfl (hrest rfl)
  | boolean b =>
      cases b with
      | false =>
          have hwrite : (Token.boolean false).write.toList = ['f', 'a', 'l', 's', 'e'] := by decide
          exact lexFrom_literal hwrite rfl rfl (hrest rfl)
      | true =>
          have hwrite : (Token.boolean true).write.toList = ['t', 'r', 'u', 'e'] := by decide
          exact lexFrom_literal hwrite rfl rfl (hrest rfl)
  | natural n => exact lexFrom_natural n (hrest rfl)
  | number lexeme => exact absurd rfl (hnumber lexeme)
  | text s =>
      cases s with
      | none =>
          have hwrite : (Token.text none).write.toList =
              ['"', '\\', 'u', 'd', '8', '0', '0', '"'] := by decide
          rw [hwrite]
          rfl
      | some s => exact lexFrom_quoted s
  | openArray => exact lexFrom_mark (c := '[') (by decide) rfl
  | closeArray => exact lexFrom_mark (c := ']') (by decide) rfl
  | openObject => exact lexFrom_mark (c := '\x7b') (by decide) rfl
  | closeObject => exact lexFrom_mark (c := '\x7d') (by decide) rfl
  | comma => exact lexFrom_mark (c := ',') (by decide) rfl
  | colon => exact lexFrom_mark (c := ':') (by decide) rfl

theorem lexFrom_spelling (hnumber : ∀ lexeme, .number lexeme ∉ ts)
    (hapart : ts.IsChain Token.Apart) :
    lexFrom done .between (spelling ts) = some (done.reverse ++ ts) := by
  induction ts generalizing done with
  | nil => simp [spelling, lexFrom]
  | cons t ts ih =>
      rw [List.isChain_cons] at hapart
      rw [spelling_cons, lexFrom_write, ih, List.reverse_cons, List.append_assoc]
      · rfl
      · exact fun lexeme hmem => hnumber lexeme (List.mem_cons_of_mem _ hmem)
      · exact hapart.2
      · rintro lexeme rfl
        exact hnumber lexeme List.mem_cons_self
      · intro hword
        cases ts with
        | nil => simp [Delimited, spelling]
        | cons t' ts => exact delimited_write (hapart.1 t' rfl hword)

/-- Tokens written one after the other are read back, provided that words are kept apart. -/
theorem lex_spelling (hnumber : ∀ lexeme, .number lexeme ∉ ts) (hapart : ts.IsChain Token.Apart) :
    lex (spelling ts) = some ts :=
  lexFrom_spelling hnumber hapart

end ReplicatedLedger.Json
