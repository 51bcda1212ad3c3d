import Mathlib.Algebra.BigOperators.Group.List.Basic
import Mathlib.Data.List.Nodup
import ReplicatedLedger.Books.Participant
import ReplicatedLedger.Proofs.Books.Ledger
import ReplicatedLedger.Proofs.Result

/-!
What the pending records of a shard add up to: the amounts held against an account, and the credits
that it is still to receive.
-/

namespace ReplicatedLedger

/-- A sum over some elements of a list is one over all, to which the others add nothing. -/
theorem sum_map_filter {α : Type} (l : List α) (keep : α → Prop) [DecidablePred keep]
    (f : α → Nat) :
    ((l.filter keep).map f).sum = (l.map fun x => if keep x then f x else 0).sum := by
  rw [List.sum_map_ite]
  simp

namespace Participants

variable {p : Participants} {t : Topology} {l : Ledger} {tid : Tid} {txn : Transaction}
  {r : ParticipantRecord} {a : AccountId}

/-- The ids of the records, in the order of their creation. -/
def tids (p : Participants) : List Tid := p.records.map (·.tid)

/-- A sum over the pending records. -/
def tally (p : Participants) (f : ParticipantRecord → Nat) : Nat := (p.pending.map f).sum

/-- What is held against an account. -/
def held (p : Participants) (a : AccountId) : Nat :=
  p.tally fun r => if r.txn.sender = a then r.reserved.toNat else 0

/-- The credits that other accounts still owe to an account. -/
def owed (p : Participants) (a : AccountId) : Nat :=
  p.tally fun r => if r.txn.receiver = a ∧ r.txn.sender ≠ a then r.txn.amount.toNat else 0

/-- All the credits that an account is to receive, those from itself included. -/
def expected (p : Participants) (a : AccountId) (excluding : Option Tid) : Nat :=
  ((p.pendingBut excluding).map fun r => if r.txn.receiver = a then r.txn.amount.toNat else 0).sum

/-! ### Records and their ids -/

theorem mem_of_find? (h : p.find? tid = some r) : r ∈ p.records ∧ r.tid = tid := by
  unfold find? at h
  have hfound := List.find?_some h
  exact ⟨List.mem_of_find?_eq_some h, by simpa using hfound⟩

theorem find?_eq_none_iff : p.find? tid = none ↔ tid ∉ p.tids := by
  unfold find? tids
  rw [List.find?_eq_none, List.mem_map]
  constructor
  · rintro h ⟨r, hr, rfl⟩
    exact h r hr (by simp)
  · intro h r hr heq
    exact h ⟨r, hr, by simpa using heq⟩

theorem tids_decide (p : Participants) (tid : Tid) (state : ParticipantState) :
    (p.decide tid state).tids = p.tids := by
  unfold tids decide
  rw [List.map_map]
  refine List.map_congr_left fun r _ => ?_
  show (if r.tid = tid then _ else r).tid = r.tid
  split <;> rfl

/-- Once a transaction is decided, the pending records are the others. -/
theorem pending_decide {state : ParticipantState} (hstate : state ≠ .prepared) :
    (p.decide tid state).pending = p.pendingBut (some tid) := by
  unfold decide pending pendingBut pending
  simp only
  induction p.records with
  | nil => rfl
  | cons r records ih =>
      rw [List.map_cons, List.filter_cons, ih]
      by_cases htid : r.tid = tid
      · by_cases hr : r.state = .prepared <;> simp [htid, hr, hstate]
      · by_cases hr : r.state = .prepared <;> simp [htid, hr]

/-- No record is left out for an id that has none. -/
theorem pendingBut_of_unused (h : p.find? tid = none) : p.pendingBut (some tid) = p.pending := by
  unfold pendingBut
  rw [List.filter_eq_self]
  intro r hr
  have hmem := (List.mem_filter.1 hr).1
  have hne : r.tid ≠ tid := by
    rintro rfl
    exact find?_eq_none_iff.1 h (List.mem_map_of_mem hmem)
  simpa using hne

/-- The sum over the pending records is that of one of them and that over the others. -/
theorem tally_eq_add (distinct : p.tids.Nodup) (found : p.find? tid = some r)
    (pending : r.state = .prepared) (f : ParticipantRecord → Nat) :
    p.tally f = f r + ((p.pendingBut (some tid)).map f).sum := by
  unfold tally pendingBut Participants.pending
  unfold find? at found
  unfold tids at distinct
  revert distinct found
  induction p.records with
  | nil => intro _ found; cases found
  | cons x records ih =>
      intro distinct found
      rw [List.map_cons, List.nodup_cons] at distinct
      by_cases hx : x.tid = tid
      · -- the record itself: its id does not occur again
        have hxr : x = r := by simpa [hx] using found
        subst hxr
        have hrest : (records.filter (·.state = .prepared)).filter
            (fun y => some y.tid ≠ some tid) = records.filter (·.state = .prepared) :=
          pendingBut_of_unused (p := ⟨records⟩) (find?_eq_none_iff.2 (hx ▸ distinct.1))
        rw [List.filter_cons_of_pos (by simpa using pending),
          List.filter_cons_of_neg (by simp [hx]), hrest, List.map_cons, List.sum_cons]
      · have hfound : records.find? (·.tid = tid) = some r := by simpa [hx] using found
        have hsum := ih distinct.2 hfound
        by_cases hstate : x.state = .prepared
        · rw [List.filter_cons_of_pos (by simpa using hstate),
            List.filter_cons_of_pos (by simpa using hx), List.map_cons, List.map_cons,
            List.sum_cons, List.sum_cons, hsum]
          omega
        · rw [List.filter_cons_of_neg (by simpa using hstate)]
          exact hsum

theorem tally_append (p : Participants) (r : ParticipantRecord) (pending : r.state = .prepared)
    (f : ParticipantRecord → Nat) :
    (Participants.mk (p.records ++ [r])).tally f = p.tally f + f r := by
  unfold tally Participants.pending
  rw [List.filter_append, List.map_append, List.sum_append]
  simp [pending]

theorem held_append (p : Participants) (r : ParticipantRecord) (pending : r.state = .prepared)
    (a : AccountId) : (Participants.mk (p.records ++ [r])).held a =
      p.held a + if r.txn.sender = a then r.reserved.toNat else 0 :=
  tally_append p r pending _

theorem owed_append (p : Participants) (r : ParticipantRecord) (pending : r.state = .prepared)
    (a : AccountId) : (Participants.mk (p.records ++ [r])).owed a =
      p.owed a + if r.txn.receiver = a ∧ r.txn.sender ≠ a then r.txn.amount.toNat else 0 :=
  tally_append p r pending _

section Decision

variable {state : ParticipantState} (distinct : p.tids.Nodup) (found : p.find? tid = some r)
  (pending : r.state = .prepared) (hstate : state ≠ .prepared)

include distinct found pending hstate

/-- A decision takes the share of its record off every sum. -/
theorem tally_decide (f : ParticipantRecord → Nat) :
    p.tally f = f r + (p.decide tid state).tally f := by
  rw [tally_eq_add distinct found pending]
  unfold tally
  rw [pending_decide hstate]

theorem held_decide (a : AccountId) : p.held a =
    (if r.txn.sender = a then r.reserved.toNat else 0) + (p.decide tid state).held a :=
  tally_decide distinct found pending hstate _

theorem owed_decide (a : AccountId) : p.owed a =
    (if r.txn.receiver = a ∧ r.txn.sender ≠ a then r.txn.amount.toNat else 0) +
      (p.decide tid state).owed a :=
  tally_decide distinct found pending hstate _

end Decision

/-! ### The sums that the checks use -/

theorem toNat_incomingTo (p : Participants) (a : AccountId) (excluding : Option Tid) :
    (p.incomingTo a excluding).toNat = min (UInt64.size - 1) (p.expected a excluding) := by
  unfold incomingTo expected
  rw [Word.toNat_foldl_saturatingSum, List.map_map]
  rw [← sum_map_filter (p.pendingBut excluding) (·.txn.receiver = a) (·.txn.amount.toNat)]
  simp [Function.comp_def]

theorem reservedAgainst_eq_ok_iff {amount : Amount} (h : p.find? tid = none) :
    p.reservedAgainst a (some tid) = .ok amount ↔ amount.toNat = p.held a := by
  unfold reservedAgainst held tally
  rw [pendingBut_of_unused h, Word.total_eq_ok_iff, List.map_map]
  rw [← sum_map_filter p.pending (·.txn.sender = a) (·.reserved.toNat)]
  rfl

/-- A transfer can be paid for if its amount is there beside what is held. -/
theorem le_of_fundingShortfall?_eq_none (unused : p.find? tid = none)
    (h : p.fundingShortfall? l tid txn = .ok none) :
    txn.amount.toNat + p.held txn.sender ≤ (l.balance txn.sender).toNat ∨ txn.amount.toNat = 0 := by
  obtain ⟨available, havailable, h⟩ := bind_eq_ok_iff.1 h
  obtain ⟨reserved, hreserved, havailable⟩ := bind_eq_ok_iff.1 havailable
  rw [pure_eq_ok_iff] at havailable h
  subst havailable
  rw [reservedAgainst_eq_ok_iff unused] at hreserved
  split at h
  · cases h
  · next hle =>
    have hle := UInt64.le_iff_toNat_le.1 (UInt64.not_lt.1 hle)
    rw [Word.toNat_saturatingSub] at hle
    omega

theorem creditOverflow?_eq_none_iff :
    p.creditOverflow? l tid txn = none ↔ txn.sender = txn.receiver ∨
      (l.balance txn.receiver).toNat + (p.incomingTo txn.receiver (some tid)).toNat +
        txn.amount.toNat < UInt64.size := by
  unfold creditOverflow?
  by_cases hself : txn.sender = txn.receiver
  · simp [hself]
  · rw [if_neg hself]
    simp only [hself, false_or]
    -- either of the two sums may leave the range of words
    split
    · next hsum =>
      have hle := Word.sum?_eq_none_iff.1 hsum
      simp only [reduceCtorEq, false_iff]
      omega
    · next due hdue =>
      have hdue := Word.sum?_eq_some_iff.1 hdue
      split
      · next hsum =>
        have hle := Word.sum?_eq_none_iff.1 hsum
        simp only [reduceCtorEq, false_iff]
        omega
      · next total hsum =>
        have htotal := Word.sum?_eq_some_iff.1 hsum
        have hlt := total.toNat_lt_size
        simp only [true_iff]
        omega

theorem creditOverflow?_eq_some {reason : Rejection}
    (h : p.creditOverflow? l tid txn = some reason) : reason = .balanceOverflow txn.receiver := by
  unfold creditOverflow? at h
  split at h
  · cases h
  · split at h
    · cases h; rfl
    · split at h
      · cases h; rfl
      · cases h

end Participants

end ReplicatedLedger
