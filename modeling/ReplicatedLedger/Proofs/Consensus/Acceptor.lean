import ReplicatedLedger.Consensus.Acceptor
import ReplicatedLedger.Proofs.Order
import ReplicatedLedger.Proofs.SortedMap

/-!
What an acceptor holds after a promise and after a vote, and what a refusal says.
-/

namespace ReplicatedLedger

namespace Acceptor

variable {a a' : Acceptor} {s t : Slot} {b promised : Ballot} {c : Command}
  {accepted : Option (Ballot × Command)}

/-- A promise is given for any ballot that is not below an earlier one, and leaves the vote of the
slot as it is. -/
theorem prepare_eq_ok_iff :
    a.prepare s b = (a', .ok accepted) ↔
      a.promised s ≤ b ∧ accepted = a.accepted s ∧
        a' = { a with slots := a.slots.insert s { a.vote s with promised := b } } := by
  unfold prepare
  split
  · next hlt => simp [not_le.2 hlt]
  · next hle =>
    simp only [Prod.mk.injEq, Except.ok.injEq, not_lt.1 hle, true_and]
    constructor
    · rintro ⟨rfl, rfl⟩; exact ⟨rfl, rfl⟩
    · rintro ⟨rfl, rfl⟩; exact ⟨rfl, rfl⟩

/-- A vote promises its ballot, too, and takes the place of an earlier vote. -/
theorem accept_eq_ok_iff :
    a.accept s b c = (a', .ok ()) ↔
      a.promised s ≤ b ∧ a' = ⟨a.slots.insert s ⟨b, some (b, c)⟩, ⟨s, b, c⟩ :: a.cast⟩ := by
  unfold accept
  split
  · next hlt => simp [not_le.2 hlt]
  · next hle =>
    simp only [Prod.mk.injEq, and_true, not_lt.1 hle, true_and]
    exact eq_comm

/-- A refusal changes nothing and names a greater ballot. -/
theorem prepare_eq_error (h : a.prepare s b = (a', .error promised)) : a' = a ∧ b < promised := by
  unfold prepare at h
  split at h
  · next hlt => cases h; exact ⟨rfl, hlt⟩
  · cases h

theorem accept_eq_error (h : a.accept s b c = (a', .error promised)) : a' = a ∧ b < promised := by
  unfold accept at h
  split at h
  · next hlt => cases h; exact ⟨rfl, hlt⟩
  · cases h

/-! ### The votes of each slot afterwards -/

theorem vote_insert (v : SlotVote) (cast : List LogEntry) :
    (Acceptor.mk (a.slots.insert s v) cast).vote t = if t = s then v else a.vote t := by
  unfold vote
  rw [SortedMap.get?_insert]
  split <;> rfl

/-- What is forgotten is as if nothing had ever been promised. -/
theorem vote_forget : (a.forget s).vote t = if t = s then {} else a.vote t := by
  unfold vote forget
  rw [SortedMap.get?_erase]
  split <;> rfl

theorem vote_prepare (h : a.prepare s b = (a', .ok accepted)) :
    a'.vote t = if t = s then { a.vote s with promised := b } else a.vote t := by
  obtain ⟨_, _, rfl⟩ := prepare_eq_ok_iff.1 h
  exact vote_insert _ _

theorem vote_accept (h : a.accept s b c = (a', .ok ())) :
    a'.vote t = if t = s then ⟨b, some (b, c)⟩ else a.vote t := by
  obtain ⟨_, rfl⟩ := accept_eq_ok_iff.1 h
  exact vote_insert _ _

theorem promised_forget : (a.forget s).promised t = if t = s then .zero else a.promised t := by
  unfold promised
  rw [vote_forget]
  split <;> rfl

theorem accepted_forget : (a.forget s).accepted t = if t = s then none else a.accepted t := by
  unfold Acceptor.accepted
  rw [vote_forget]
  split <;> rfl

theorem promised_prepare (h : a.prepare s b = (a', .ok accepted)) :
    a'.promised t = if t = s then b else a.promised t := by
  unfold promised
  rw [vote_prepare h]
  split <;> rfl

theorem accepted_prepare (h : a.prepare s b = (a', .ok accepted)) :
    a'.accepted t = a.accepted t := by
  unfold Acceptor.accepted
  rw [vote_prepare h]
  split
  · next ht => rw [ht]
  · rfl

theorem promised_accept (h : a.accept s b c = (a', .ok ())) :
    a'.promised t = if t = s then b else a.promised t := by
  unfold promised
  rw [vote_accept h]
  split <;> rfl

theorem accepted_accept (h : a.accept s b c = (a', .ok ())) :
    a'.accepted t = if t = s then some (b, c) else a.accepted t := by
  unfold Acceptor.accepted
  rw [vote_accept h]
  split <;> rfl

/-- The record of votes cast is only ever added to. -/
theorem cast_prepare (h : a.prepare s b = (a', .ok accepted)) : a'.cast = a.cast := by
  obtain ⟨_, _, rfl⟩ := prepare_eq_ok_iff.1 h
  rfl

theorem cast_accept (h : a.accept s b c = (a', .ok ())) : a'.cast = ⟨s, b, c⟩ :: a.cast := by
  obtain ⟨_, rfl⟩ := accept_eq_ok_iff.1 h
  rfl

end Acceptor

end ReplicatedLedger
