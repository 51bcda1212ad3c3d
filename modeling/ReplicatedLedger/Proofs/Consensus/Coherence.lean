import ReplicatedLedger.Proofs.Consensus.Move

/-!
What holds of a log by itself, after every single move: its tables fit together, and no proposal
looks for its command from beyond the applied prefix on.
-/

namespace ReplicatedLedger

namespace ReplicatedLog

structure Coherent (l : ReplicatedLog) : Prop where
  keyed : ∀ s e, l.chosen.get? s = some e → e.slot = s
  indexed : l.Indexed
  begun : ∀ p, l.active = some p → p.floor ≤ l.nextApply
  queued : ∀ s ∈ l.waiting, s.floor ≤ l.nextApply

variable {heard : ReplicaId → Message → Prop} {wanted : Command → Prop} {l l' : ReplicatedLog}
  {actions : List Action}
  {ready : List LogEntry}

theorem coherent_fresh (t : Topology) (policy : ConsensusPolicy) :
    Coherent { topology := t, policy := policy } where
  keyed _ _ h := by cases h
  indexed _ _ := by
    constructor
    · rintro ⟨slots, h, _⟩; cases h
    · rintro ⟨e, h, _⟩; cases h
  begun _ h := by cases h
  queued _ h := by cases h

namespace Coherent

/-- A log with the same entries, whose proposals start no later, is coherent with the first. -/
theorem of_frame (h : l.Coherent) (hchosen : l'.chosen = l.chosen)
    (hslots : l'.slotsOf = l.slotsOf) (hbegun : ∀ p, l'.active = some p → p.floor ≤ l'.nextApply)
    (hqueued : ∀ s ∈ l'.waiting, s.floor ≤ l'.nextApply) : l'.Coherent where
  keyed := by rw [hchosen]; exact h.keyed
  indexed := by unfold Indexed; rw [hchosen, hslots]; exact h.indexed
  begun := hbegun
  queued := hqueued

theorem withActive (h : l.Coherent) {p q : Proposal} (hp : l.active = some p)
    (hq : q.floor = p.floor) : (l.withActive q).Coherent := by
  refine h.of_frame rfl rfl ?_ h.queued
  intro q' hq'
  cases hq'
  rw [hq]
  exact h.begun p hp

theorem learn (h : l.Coherent) (e : LogEntry) : (l.learn e).Coherent where
  keyed s e' hs := by
    rw [get?_chosen_learn] at hs
    split at hs
    · next hnew => cases hs; exact hnew.2.symm
    · exact h.keyed s e' hs
  indexed := indexed_learn h.indexed
  begun := by simpa using h.begun
  queued := by simpa using h.queued

theorem move (h : l.Coherent) (hmove : Move heard wanted l ready l') : l'.Coherent := by
  cases hmove with
  | observe b => exact h.of_frame rfl rfl h.begun h.queued
  | promise opened kept => exact h.of_frame rfl rfl h.begun h.queued
  | vote opened asked kept => exact h.of_frame rfl rfl h.begun h.queued
  | hear | win => exact h.learn _
  | submit due =>
      refine h.of_frame rfl rfl h.begun ?_
      intro s hs
      rcases List.mem_append.1 hs with hs | hs
      · exact h.queued s hs
      · rw [List.mem_singleton.1 hs]
        exact Slot.le_refl _
  | @promote s rest idle first =>
      refine h.of_frame rfl rfl ?_ ?_
      · intro p hp
        cases hp
        exact h.queued s (by rw [first]; exact List.mem_cons_self)
      · intro t ht
        exact h.queued t (by rw [first]; exact List.mem_cons_of_mem _ ht)
  | finish current found => exact h.of_frame rfl rfl (by intro p hp; cases hp) h.queued
  | pause current => exact h.withActive current rfl
  | @reopen p s b attempts current target unseen unpromised own =>
      refine h.of_frame rfl rfl ?_ h.queued
      intro q hq
      cases hq
      exact h.begun p current
  | countPromise current phase told => exact h.withActive current rfl
  | ask current phase majority since => exact h.withActive current rfl
  | countVote current phase told => exact h.withActive current rfl
  | handOut drained =>
      have hle := le_of_drainFrom drained
      refine h.of_frame rfl rfl ?_ ?_
      · intro p hp
        exact Slot.le_trans (h.begun p hp) hle
      · intro s hs
        exact Slot.le_trans (h.queued s hs) hle
  | handOver => exact h.of_frame rfl rfl h.begun h.queued
  | repartition partition => exact h.of_frame rfl rfl h.begun h.queued

theorem moves (h : l.Coherent) (hmoves : Moves heard wanted l actions ready l') : l'.Coherent := by
  induction hmoves with
  | refl => exact h
  | move first _ ih => exact ih (h.move first)
  | say _ _ ih => exact ih h

end Coherent

end ReplicatedLog

end ReplicatedLedger
