import Mathlib.Data.List.Nodup
import ReplicatedLedger.SortedMap

/-!
Membership, sizes and the ends of sorted maps, in terms of look-ups.
-/

namespace ReplicatedLedger

namespace SortedMap

open Std

variable {κ ν : Type} [Ord κ]

theorem keys_ascending (m : SortedMap κ ν) : m.keys.Pairwise fun a b => compare a b = .lt := by
  unfold keys
  rw [List.pairwise_map]
  exact m.ascending

theorem length_keys (m : SortedMap κ ν) : m.keys.length = m.size := List.length_map _

section Lookup

variable [DecidableEq κ] {m : SortedMap κ ν} {k : κ}

theorem contains_eq_true_iff : m.contains k = true ↔ ∃ v, m.get? k = some v := by
  unfold contains
  exact Option.isSome_iff_exists

theorem contains_eq_false_iff : m.contains k = false ↔ m.get? k = none := by
  unfold contains
  exact Option.isSome_eq_false_iff.trans Option.isNone_iff_eq_none

theorem size_erase_le (m : SortedMap κ ν) (k : κ) : (m.erase k).size ≤ m.size :=
  List.length_filter_le _ _

/-- Erasing a key that is there makes the map smaller. -/
theorem size_erase_lt {v : ν} (h : m.get? k = some v) : (m.erase k).size < m.size := by
  refine List.length_filter_lt_length_iff_exists.2 ⟨(k, v), mem_of_lookup h, ?_⟩
  simp

omit [Ord κ] in
theorem lookup_append (k : κ) (l l' : List (κ × ν)) :
    lookup k (l ++ l') = (lookup k l).or (lookup k l') := by
  induction l with
  | nil => rfl
  | cons p l ih =>
      rw [List.cons_append, lookup, lookup, ih]
      split <;> rfl

omit [Ord κ] in
theorem lookup_filter (f : κ → Bool) (k : κ) (l : List (κ × ν)) :
    lookup k (l.filter fun p => f p.1) = if f k then lookup k l else none := by
  induction l with
  | nil => simp [lookup]
  | cons p l ih =>
      obtain ⟨k', v⟩ := p
      by_cases hk : k = k'
      · subst hk
        cases hf : f k <;> simp [lookup, hf, ih]
      · rw [List.filter_cons, lookup, if_neg hk]
        cases f k' <;> simp [lookup, hk, ih]

theorem lookup_atOrAbove (m : SortedMap κ ν) (k k' : κ) :
    lookup k' (m.atOrAbove k) = if (compare k' k).isGE then m.get? k' else none :=
  lookup_filter (fun k' => (compare k' k).isGE) k' m.toList

variable [TransOrd κ]

theorem mem_keys_iff : k ∈ m.keys ↔ ∃ v, m.get? k = some v := by
  unfold keys
  rw [List.mem_map]
  constructor
  · rintro ⟨⟨k', v⟩, hmem, rfl⟩
    exact ⟨v, get?_eq_some_iff.2 hmem⟩
  · rintro ⟨v, hv⟩
    exact ⟨(k, v), get?_eq_some_iff.1 hv, rfl⟩

theorem mem_values_iff {v : ν} : v ∈ m.values ↔ ∃ k, m.get? k = some v := by
  unfold values
  rw [List.mem_map]
  constructor
  · rintro ⟨⟨k, v'⟩, hmem, rfl⟩
    exact ⟨k, get?_eq_some_iff.2 hmem⟩
  · rintro ⟨k, hk⟩
    exact ⟨(k, v), get?_eq_some_iff.1 hk, rfl⟩

omit [DecidableEq κ] in
theorem keys_nodup (m : SortedMap κ ν) : m.keys.Nodup := by
  refine m.keys_ascending.imp fun {a b} h => ?_
  rintro rfl
  rw [compare_self] at h
  cases h

/-- What was inserted under a key is gone once the key is erased. -/
theorem erase_insert [LawfulEqOrd κ] (m : SortedMap κ ν) (k : κ) (v : ν) :
    (m.insert k v).erase k = m.erase k := by
  refine ext_get? fun k' => ?_
  rw [get?_erase, get?_erase, get?_insert]
  split <;> rfl

/-- The first pair is in the map, and all other keys come after its key. -/
theorem first?_eq_some {p : κ × ν} (h : m.first? = some p) :
    m.get? p.1 = some p.2 ∧ ∀ k v, m.get? k = some v → k = p.1 ∨ compare p.1 k = .lt := by
  obtain ⟨rest, hlist⟩ := List.head?_eq_some_iff.1 h
  refine ⟨get?_eq_some_iff.2 (List.mem_of_head? h), fun k v hk => ?_⟩
  have hmem : (k, v) ∈ p :: rest := hlist ▸ get?_eq_some_iff.1 hk
  have hascending := m.ascending
  rw [hlist] at hascending
  rcases List.mem_cons.1 hmem with rfl | hmem
  · exact .inl rfl
  · exact .inr ((List.pairwise_cons.1 hascending).1 (k, v) hmem)

/-- The first key at or above a bound is in the map and within the bound. -/
theorem head?_atOrAbove {p : κ × ν} (h : (m.atOrAbove k).head? = some p) :
    m.get? p.1 = some p.2 ∧ (compare p.1 k).isGE = true := by
  have hmem := List.mem_of_head? h
  obtain ⟨hm, hge⟩ := List.mem_filter.1 hmem
  exact ⟨get?_eq_some_iff.2 hm, hge⟩

theorem head?_atOrAbove_eq_none_iff :
    (m.atOrAbove k).head? = none ↔ ∀ k' v, m.get? k' = some v → (compare k' k).isGE = false := by
  rw [List.head?_eq_none_iff]
  unfold atOrAbove
  rw [List.filter_eq_nil_iff]
  constructor
  · intro h k' v hv
    simpa using h (k', v) (get?_eq_some_iff.1 hv)
  · rintro h ⟨k', v⟩ hmem
    simpa using h k' v (get?_eq_some_iff.2 hmem)

/-! ### The pairs of a changed map -/

omit [TransOrd κ] in
theorem toList_foldl_erase (pairs : List (κ × ν)) (m : SortedMap κ ν) :
    (pairs.foldl (fun m p => m.erase p.1) m).toList =
      m.toList.filter fun p => p.1 ∉ pairs.map (·.1) := by
  induction pairs generalizing m with
  | nil => simp
  | cons pair pairs ih =>
      rw [List.foldl_cons, ih]
      unfold erase
      rw [List.filter_filter]
      refine List.filter_congr fun p _ => ?_
      by_cases h : p.1 = pair.1 <;> simp [h]

omit [TransOrd κ] in
/-- Without all that is below a key, what is at or above it is left. -/
theorem toList_erase_below (m : SortedMap κ ν) (k : κ) :
    ((m.below k).foldl (fun m p => m.erase p.1) m).toList = m.atOrAbove k := by
  rw [toList_foldl_erase]
  refine List.filter_congr fun p hp => ?_
  have hmem : p.1 ∈ (m.below k).map (·.1) ↔ (compare p.1 k).isLT = true := by
    rw [List.mem_map]
    constructor
    · rintro ⟨q, hq, heq⟩
      rw [← heq]
      exact (List.mem_filter.1 hq).2
    · exact fun hlt => ⟨p, List.mem_filter.2 ⟨hp, hlt⟩, rfl⟩
  simp only [hmem]
  cases compare p.1 k <;> rfl

omit [DecidableEq κ] [TransOrd κ] in
theorem perm_below_atOrAbove (m : SortedMap κ ν) (k : κ) :
    m.toList.Perm (m.below k ++ m.atOrAbove k) := by
  have hsplit : m.atOrAbove k = m.toList.filter fun p => !(compare p.1 k).isLT :=
    List.filter_congr fun p _ => by cases compare p.1 k <;> rfl
  rw [hsplit]
  exact (List.filter_append_perm _ m.toList).symm

omit [DecidableEq κ] [TransOrd κ] in
theorem place_perm [LawfulEqOrd κ] {k : κ} {v : ν} {l : List (κ × ν)} (h : k ∉ l.map (·.1)) :
    (place k v l).Perm ((k, v) :: l) := by
  induction l with
  | nil => exact .refl _
  | cons q l ih =>
      obtain ⟨k', v'⟩ := q
      rw [List.map_cons, List.mem_cons, not_or] at h
      unfold place
      split
      · exact .refl _
      · next heq => exact absurd (LawfulEqOrd.eq_of_compare heq) h.1
      · exact ((ih h.2).cons _).trans (.swap _ _ _)

/-- A new pair comes in addition to those with other keys. -/
theorem toList_insert_perm [LawfulEqOrd κ] (m : SortedMap κ ν) (k : κ) (v : ν) :
    (m.insert k v).toList.Perm ((k, v) :: (m.erase k).toList) := by
  have hinsert : m.insert k v = (m.erase k).insert k v := by
    refine ext_get? fun k' => ?_
    rw [get?_insert, get?_insert, get?_erase]
    split <;> rfl
  rw [hinsert]
  refine place_perm fun hmem => ?_
  obtain ⟨p, hp, rfl⟩ := List.mem_map.1 hmem
  simpa using (List.mem_filter.1 hp).2

theorem toList_perm_erase [LawfulEqOrd κ] {v : ν} (h : m.get? k = some v) :
    m.toList.Perm ((k, v) :: (m.erase k).toList) := by
  have hinsert : m.insert k v = m := by
    refine ext_get? fun k' => ?_
    rw [get?_insert]
    split
    · next heq => rw [heq, h]
    · rfl
  have hperm := toList_insert_perm m k v
  rwa [hinsert] at hperm

theorem erase_of_get?_eq_none (h : m.get? k = none) : m.erase k = m := by
  refine ext_get? fun k' => ?_
  rw [get?_erase]
  split
  · next heq => rw [heq, h]
  · rfl

/-! ### Maps from pairs -/

theorem mem_of_get?_foldl_insert [LawfulEqOrd κ] {pairs : List (κ × ν)} {v : ν}
    (h : (pairs.foldl (fun m p => m.insert p.1 p.2) m).get? k = some v) :
    (k, v) ∈ pairs ∨ m.get? k = some v := by
  induction pairs generalizing m with
  | nil => exact .inr h
  | cons p pairs ih =>
      rcases ih h with hmem | hget
      · exact .inl (List.mem_cons_of_mem _ hmem)
      · rw [get?_insert] at hget
        split at hget
        · next hk =>
          cases hget
          rw [hk]
          exact .inl List.mem_cons_self
        · exact .inr hget

theorem mem_of_get?_ofList [LawfulEqOrd κ] {pairs : List (κ × ν)} {v : ν}
    (h : (ofList pairs).get? k = some v) : (k, v) ∈ pairs :=
  (mem_of_get?_foldl_insert h).resolve_right (by simp)

theorem exists_get?_foldl_insert [LawfulEqOrd κ] {pairs : List (κ × ν)}
    (h : k ∈ pairs.map (·.1) ∨ ∃ v, m.get? k = some v) :
    ∃ v, (pairs.foldl (fun m p => m.insert p.1 p.2) m).get? k = some v := by
  induction pairs generalizing m with
  | nil => exact h.resolve_left (by simp)
  | cons p pairs ih =>
      refine ih ?_
      by_cases hk : k = p.1
      · exact .inr ⟨p.2, by rw [hk]; exact get?_insert_self _ _ _⟩
      · rw [get?_insert, if_neg hk]
        refine h.imp_left fun hmem => ?_
        exact (List.mem_cons.1 hmem).resolve_left hk

theorem exists_get?_ofList [LawfulEqOrd κ] {pairs : List (κ × ν)} (h : k ∈ pairs.map (·.1)) :
    ∃ v, (ofList pairs).get? k = some v :=
  exists_get?_foldl_insert (.inl h)

end Lookup

end SortedMap

end ReplicatedLedger
