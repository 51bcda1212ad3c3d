/-!
Finite maps kept as lists in ascending order of key.  The order is part of the type, so two maps
with the same look-ups are the same map (`ext_get?`), and what a map prints or folds over is fixed
by its contents alone.
-/

namespace ReplicatedLedger

open Std

/-- Values that an injective measure sends into a lawful order are themselves lawfully ordered. -/
theorem lawfulEqCmp_compareOn {α β : Type} [Ord β] [LawfulEqOrd β] {f : α → β}
    (hf : ∀ a b, f a = f b → a = b) : LawfulEqCmp (compareOn f) where
  compare_self {a} := show compare (f a) (f a) = .eq from ReflCmp.compare_self
  eq_of_compare := by intro a b h; exact hf a b (LawfulEqOrd.eq_of_compare h)

structure SortedMap (κ ν : Type) [Ord κ] where
  toList : List (κ × ν)
  ascending : toList.Pairwise fun a b => compare a.1 b.1 = .lt

/-- A set is a map that holds nothing beside its keys. -/
abbrev SortedSet (κ : Type) [Ord κ] := SortedMap κ Unit

namespace SortedMap

variable {κ ν : Type} [Ord κ]

theorem ext {m n : SortedMap κ ν} (h : m.toList = n.toList) : m = n := by
  cases m; cases n; congr

instance [DecidableEq κ] [DecidableEq ν] : DecidableEq (SortedMap κ ν) := fun m n =>
  if h : m.toList = n.toList then .isTrue (ext h)
  else .isFalse fun e => h (congrArg toList e)

instance : EmptyCollection (SortedMap κ ν) := ⟨⟨[], .nil⟩⟩

instance : Inhabited (SortedMap κ ν) := ⟨∅⟩

def keys (m : SortedMap κ ν) : List κ := m.toList.map (·.1)

def values (m : SortedMap κ ν) : List ν := m.toList.map (·.2)

def size (m : SortedMap κ ν) : Nat := m.toList.length

def isEmpty (m : SortedMap κ ν) : Bool := m.toList.isEmpty

/-- The pair with the smallest key. -/
def first? (m : SortedMap κ ν) : Option (κ × ν) := m.toList.head?

/-- The value at the first pair with the given key. -/
def lookup [DecidableEq κ] (k : κ) : List (κ × ν) → Option ν
  | [] => none
  | (k', v) :: rest => if k = k' then some v else lookup k rest

def get? [DecidableEq κ] (m : SortedMap κ ν) (k : κ) : Option ν := lookup k m.toList

def contains [DecidableEq κ] (m : SortedMap κ ν) (k : κ) : Bool := (m.get? k).isSome

/-- Places a pair before the first larger key, in the stead of an equal one. -/
def place (k : κ) (v : ν) : List (κ × ν) → List (κ × ν)
  | [] => [(k, v)]
  | (k', v') :: rest =>
    match compare k k' with
    | .lt => (k, v) :: (k', v') :: rest
    | .eq => (k, v) :: rest
    | .gt => (k', v') :: place k v rest

theorem mem_place {k : κ} {v : ν} {l : List (κ × ν)} {p : κ × ν} (h : p ∈ place k v l) :
    p = (k, v) ∨ p ∈ l := by
  induction l with
  | nil => simpa [place] using h
  | cons q l ih =>
    obtain ⟨k', v'⟩ := q
    unfold place at h
    split at h <;> simp only [List.mem_cons] at h ⊢
    · exact h
    · exact h.imp id .inr
    · rcases h with h | h
      · exact .inr (.inl h)
      · exact (ih h).imp id .inr

theorem pairwise_place [TransOrd κ] [LawfulEqOrd κ] {k : κ} {v : ν} {l : List (κ × ν)}
    (h : l.Pairwise fun a b => compare a.1 b.1 = .lt) :
    (place k v l).Pairwise fun a b => compare a.1 b.1 = .lt := by
  induction l with
  | nil => simp [place]
  | cons q l ih =>
    obtain ⟨k', v'⟩ := q
    have hq := (List.pairwise_cons.1 h).1
    have hl := (List.pairwise_cons.1 h).2
    unfold place
    split
    · next hlt =>
      refine List.pairwise_cons.2 ⟨fun a ha => ?_, h⟩
      rcases List.mem_cons.1 ha with rfl | ha
      · exact hlt
      · exact TransCmp.lt_trans hlt (hq a ha)
    · next heq =>
      cases LawfulEqOrd.eq_of_compare heq
      exact List.pairwise_cons.2 ⟨hq, hl⟩
    · next hgt =>
      refine List.pairwise_cons.2 ⟨fun a ha => ?_, ih hl⟩
      rcases mem_place ha with rfl | ha
      · exact OrientedCmp.gt_iff_lt.1 hgt
      · exact hq a ha

def insert [TransOrd κ] [LawfulEqOrd κ] (m : SortedMap κ ν) (k : κ) (v : ν) : SortedMap κ ν :=
  ⟨place k v m.toList, pairwise_place m.ascending⟩

def erase [DecidableEq κ] (m : SortedMap κ ν) (k : κ) : SortedMap κ ν :=
  ⟨m.toList.filter (·.1 ≠ k), m.ascending.filter _⟩

/-- The pairs with a key at or above `k`. -/
def atOrAbove (m : SortedMap κ ν) (k : κ) : List (κ × ν) :=
  m.toList.filter fun p => (compare p.1 k).isGE

/-- The pairs with a key below `k`. -/
def below (m : SortedMap κ ν) (k : κ) : List (κ × ν) :=
  m.toList.filter fun p => (compare p.1 k).isLT

/-- A map from pairs, of which a later one replaces an earlier one with its key. -/
def ofList [TransOrd κ] [LawfulEqOrd κ] (pairs : List (κ × ν)) : SortedMap κ ν :=
  pairs.foldl (fun m p => m.insert p.1 p.2) ∅

/-- The set of the elements of a list. -/
def setOf [TransOrd κ] [LawfulEqOrd κ] (keys : List κ) : SortedSet κ :=
  ofList (keys.map (·, ()))

/-! Each operation in terms of look-ups. -/

section Lookup

variable [DecidableEq κ]

@[simp] theorem get?_empty (k : κ) : (∅ : SortedMap κ ν).get? k = none := rfl

theorem lookup_place [TransOrd κ] [LawfulEqOrd κ] (k k' : κ) (v : ν) (l : List (κ × ν)) :
    lookup k' (place k v l) = if k' = k then some v else lookup k' l := by
  induction l with
  | nil => simp [place, lookup]
  | cons q l ih =>
    obtain ⟨k'', v''⟩ := q
    unfold place
    split
    · rfl
    · next heq =>
      cases LawfulEqOrd.eq_of_compare heq
      by_cases h : k' = k <;> simp [lookup, h]
    · next hgt =>
      have hne : k ≠ k'' := by
        rintro rfl
        simp [compare_self] at hgt
      by_cases h : k' = k''
      · subst h
        simp [lookup, Ne.symm hne]
      · simp [lookup, h, ih]

theorem get?_insert [TransOrd κ] [LawfulEqOrd κ] (m : SortedMap κ ν) (k k' : κ) (v : ν) :
    (m.insert k v).get? k' = if k' = k then some v else m.get? k' :=
  lookup_place k k' v m.toList

@[simp] theorem get?_insert_self [TransOrd κ] [LawfulEqOrd κ] (m : SortedMap κ ν) (k : κ) (v : ν) :
    (m.insert k v).get? k = some v := by
  simp [get?_insert]

omit [Ord κ] in
theorem lookup_filter_ne (k k' : κ) (l : List (κ × ν)) :
    lookup k' (l.filter (·.1 ≠ k)) = if k' = k then none else lookup k' l := by
  induction l with
  | nil => simp [lookup]
  | cons q l ih =>
    obtain ⟨k'', v''⟩ := q
    by_cases h : k'' = k
    · subst h
      rw [List.filter_cons_of_neg (by simp), ih]
      by_cases h' : k' = k'' <;> simp [lookup, h']
    · rw [List.filter_cons_of_pos (by simpa using h)]
      by_cases h' : k' = k''
      · subst h'
        simp [lookup, h]
      · simpa [lookup, h'] using ih

theorem get?_erase (m : SortedMap κ ν) (k k' : κ) :
    (m.erase k).get? k' = if k' = k then none else m.get? k' :=
  lookup_filter_ne k k' m.toList

@[simp] theorem get?_erase_self (m : SortedMap κ ν) (k : κ) : (m.erase k).get? k = none := by
  simp [get?_erase]

omit [Ord κ] in
theorem mem_of_lookup {k : κ} {v : ν} {l : List (κ × ν)} (h : lookup k l = some v) :
    (k, v) ∈ l := by
  induction l with
  | nil => cases h
  | cons q l ih =>
    obtain ⟨k', v'⟩ := q
    unfold lookup at h
    split at h
    · next hk => cases h; subst hk; exact List.mem_cons_self
    · exact List.mem_cons_of_mem _ (ih h)

theorem lookup_of_mem [TransOrd κ] {k : κ} {v : ν} {l : List (κ × ν)}
    (hl : l.Pairwise fun a b => compare a.1 b.1 = .lt) (h : (k, v) ∈ l) :
    lookup k l = some v := by
  induction l with
  | nil => cases h
  | cons q l ih =>
    obtain ⟨k', v'⟩ := q
    have hq := (List.pairwise_cons.1 hl).1
    rcases List.mem_cons.1 h with h | h
    · cases h; simp [lookup]
    · have hlt := hq (k, v) h
      have hne : k ≠ k' := by
        rintro rfl
        simp [compare_self] at hlt
      simpa [lookup, hne] using ih (List.pairwise_cons.1 hl).2 h

/-- A look-up finds exactly the pairs of the list. -/
theorem get?_eq_some_iff [TransOrd κ] {m : SortedMap κ ν} {k : κ} {v : ν} :
    m.get? k = some v ↔ (k, v) ∈ m.toList :=
  ⟨mem_of_lookup, lookup_of_mem m.ascending⟩

/-- Two maps with the same look-ups are equal. -/
theorem ext_get? [TransOrd κ] {m n : SortedMap κ ν} (h : ∀ k, m.get? k = n.get? k) : m = n := by
  have hmem : ∀ p : κ × ν, p ∈ m.toList ↔ p ∈ n.toList := by
    intro p
    rw [← get?_eq_some_iff, ← get?_eq_some_iff, h]
  have irrefl : ∀ k : κ, compare k k ≠ .lt := by simp [compare_self]
  have asymm : ∀ p q : κ × ν, compare p.1 q.1 = .lt → compare q.1 p.1 = .lt → p = q :=
    fun p q hpq hqp => absurd (TransCmp.lt_trans hpq hqp) (irrefl p.1)
  have distinct : ∀ l : List (κ × ν), (l.Pairwise fun a b => compare a.1 b.1 = .lt) → l.Nodup :=
    fun l hl => hl.imp fun hab => by rintro rfl; exact irrefl _ hab
  refine ext (List.Perm.eq_of_pairwise (fun p q _ _ => asymm p q) m.ascending n.ascending ?_)
  exact (List.perm_ext_iff_of_nodup (distinct _ m.ascending) (distinct _ n.ascending)).2 hmem

end Lookup

end SortedMap

end ReplicatedLedger
