import Mathlib.Order.Defs.LinearOrder
import ReplicatedLedger.Ballot

/-!
Ballots are linearly ordered, and a new ballot lies above the one it was made from.  Slots are
compared through their positions, which are natural numbers.
-/

namespace ReplicatedLedger

namespace Ballot

theorem lt_iff_compare {a b : Ballot} : a < b ↔ compare a b = .lt := Iff.rfl

theorem le_iff_compare {a b : Ballot} : a ≤ b ↔ (compare a b).isLE = true := Iff.rfl

instance : LinearOrder Ballot where
  le_refl a := by rw [le_iff_compare, Std.compare_self]; rfl
  le_trans a b c hab hbc := Std.TransCmp.isLE_trans hab hbc
  le_antisymm a b hab hba :=
    Std.LawfulEqCmp.eq_of_compare (Std.OrientedCmp.isLE_antisymm hab hba)
  le_total a b := by
    have hswap : compare b a = (compare a b).swap := Std.OrientedCmp.eq_swap
    rw [le_iff_compare, le_iff_compare, hswap]
    cases compare a b <;> simp
  lt_iff_le_not_ge a b := by
    have hswap : compare b a = (compare a b).swap := Std.OrientedCmp.eq_swap
    rw [lt_iff_compare, le_iff_compare, le_iff_compare, hswap]
    cases compare a b <;> simp
  toDecidableLE := inferInstance
  compare_eq_compareOfLessAndEq a b := by
    have hlt : a < b ↔ compare a b = .lt := lt_iff_compare
    have heq : a = b ↔ compare a b = .eq := Std.compare_eq_iff_eq.symm
    unfold compareOfLessAndEq
    simp only [hlt, heq]
    cases compare a b <;> rfl

/-- A ballot of a higher round is higher, whoever owns it. -/
theorem lt_of_round_lt {a b : Ballot} (h : a.round.toNat < b.round.toNat) : a < b := by
  have hround : compareOn round a b = .lt := by
    show compare a.round b.round = .lt
    exact Std.compare_eq_lt.2 (UInt64.lt_iff_toNat_lt.2 h)
  show (compareOn round a b).then (compareOn replica a b) = .lt
  rw [hround]
  rfl

theorem nextFor_eq_ok {a b : Ballot} {r : ReplicaId} (h : a.nextFor r = .ok b) :
    a < b ∧ b.replica = r := by
  unfold nextFor at h
  cases hsum : Word.sum a.round 1 with
  | error e => rw [hsum] at h; cases h
  | ok round =>
    rw [hsum] at h
    cases h
    have hround := Word.sum_eq_ok_iff.1 hsum
    exact ⟨lt_of_round_lt (by simp [hround]), rfl⟩

end Ballot

namespace Slot

theorem le_iff_toNat {s t : Slot} : s ≤ t ↔ s.index.toNat ≤ t.index.toNat :=
  UInt64.le_iff_toNat_le

theorem lt_iff_toNat {s t : Slot} : s < t ↔ s.index.toNat < t.index.toNat :=
  UInt64.lt_iff_toNat_lt

protected theorem le_refl (s : Slot) : s ≤ s := le_iff_toNat.2 (Nat.le_refl _)

protected theorem le_trans {s t u : Slot} (hst : s ≤ t) (htu : t ≤ u) : s ≤ u := by
  rw [le_iff_toNat] at *
  omega

theorem toNat_inj {s t : Slot} : s.index.toNat = t.index.toNat ↔ s = t := by
  constructor
  · intro h
    cases s; cases t
    exact congrArg Slot.mk (UInt64.toNat_inj.1 h)
  · rintro rfl; rfl

theorem next_eq_ok_iff {s t : Slot} : s.next = .ok t ↔ t.index.toNat = s.index.toNat + 1 := by
  unfold next
  cases hsum : Word.sum s.index 1 with
  | error e =>
    constructor
    · intro h; cases h
    · intro h
      have hok : Word.sum s.index 1 = .ok t.index := Word.sum_eq_ok_iff.2 (by simpa using h)
      rw [hsum] at hok
      cases hok
  | ok i =>
    have hi := Word.sum_eq_ok_iff.1 hsum
    rw [show (Slot.mk <$> Except.ok i : Except Fault Slot) = .ok ⟨i⟩ from rfl, Except.ok.injEq,
      ← toNat_inj]
    simp at hi ⊢
    omega

theorem compare_lt_iff {s t : Slot} : compare s t = .lt ↔ s.index.toNat < t.index.toNat := by
  rw [← UInt64.lt_iff_toNat_lt]
  show compare s.index t.index = .lt ↔ _
  exact Std.compare_eq_lt

theorem isLT_compare_iff {s t : Slot} : (compare s t).isLT = true ↔ s < t := by
  rw [lt_iff_toNat, ← compare_lt_iff]
  cases compare s t <;> simp

theorem isGE_compare_iff {s t : Slot} : (compare s t).isGE = true ↔ t ≤ s := by
  have hge : (compare s t).isGE = true ↔ ¬ (compare s t).isLT = true := by
    cases compare s t <;> simp
  rw [hge, isLT_compare_iff, lt_iff_toNat, le_iff_toNat, Nat.not_lt]

end Slot

end ReplicatedLedger
