import ReplicatedLedger.Proofs.Consensus.Agreement

/-!
The values that stand for a slot: what the members were asked to accept there, or are about to be.
A further value comes to stand only where a proposal is free to ask for its own command.
-/

namespace ReplicatedLedger

namespace ReplicatedLog

/-- A proposal whose command the log may ask for as it stands. -/
structure Offers (l : ReplicatedLog) (p : Proposal) : Prop where
  current : l.active = some p
  underway : p.phase ≠ .backoff
  since : l.chosenSince? p.command p.floor = none

variable {heard : ReplicaId → Message → Prop} {wanted : Command → Prop} {l l' : ReplicatedLog}
  {ready : List LogEntry} {s : Slot} {b : Ballot} {c : Command}

/-- A move after which votes are collected for a value: it went on before, or it starts now. -/
theorem Move.asks (h : Move heard wanted l ready l') (asks : l'.Asks s b c) :
    l.Asks s b c ∨ ∃ p promises, l.Offers p ∧ p.phase = .preparing promises ∧
      l.topology.quorum ≤ promises.size ∧ p.slot = s ∧ p.valueFor promises = c := by
  obtain ⟨p', votes', current', hslot, hballot, phase'⟩ := asks
  cases h with
  | hear | win =>
      rw [active_learn] at current'
      exact .inl ⟨p', votes', current', hslot, hballot, phase'⟩
  | finish => cases current'
  | promote | pause | reopen | countPromise =>
      cases current'
      cases phase'
  | @ask p promises current phase majority since =>
      cases current'
      cases phase'
      exact .inr ⟨p, promises, ⟨current, by simp [phase], since⟩, phase, majority, hslot, rfl⟩
  | @countVote p value votes sender current phase told =>
      cases current'
      cases phase'
      exact .inl ⟨p, votes, current, hslot, hballot, phase⟩
  | _ => exact .inl ⟨p', votes', current', hslot, hballot, phase'⟩

end ReplicatedLog

namespace Group

open ReplicatedLog (Move Moves)

/-- Whether a value stands for a slot. -/
def Stands (w : World ReplicatedLog) (s : Slot) (c : Command) : Prop :=
  ∃ b, Asked w s b c ∨ ∃ r, (w.machine r).Asks s b c

variable {g : Group} {w : World ReplicatedLog} {r : ReplicaId} {l' : ReplicatedLog}
  {said actions : List Action} {ready : List LogEntry} {heard : ReplicaId → Message → Prop}
  {wanted : Command → Prop} {p : Proposal} {s : Slot} {b : Ballot} {c : Command} {e : LogEntry}

theorem not_stands_start (g : Group) : ¬ Stands g.start s c := by
  rintro ⟨b, (⟨sender, receiver, h⟩ | ⟨r, h⟩) | ⟨r, p, votes, current, _⟩⟩
  · cases h
  · cases h
  · cases current

theorem Elected.stands (h : g.Elected w e) : Stands w e.slot e.command := by
  obtain ⟨r, _, hvote, _⟩ := h.meet h
  exact ⟨e.ballot, .inl (.inr ⟨r, hvote⟩)⟩

namespace Sound

theorem stands_of_accepted {vote : Ballot × Command} (h : g.Sound w)
    (hs : (w.machine r).acceptor.accepted s = some vote) : Stands w s vote.2 :=
  ⟨vote.1, .inl (.inr ⟨r, ((h.recorded r).cast s vote hs).1⟩)⟩

/-- The value that promises leave to ask for stands already, or it is the proposal's own. -/
theorem stands_valueFor {promises : SortedMap ReplicaId (Option (Ballot × Command))}
    (h : g.Sound w) (current : (w.machine r).active = some p)
    (phase : p.phase = .preparing promises) :
    Stands w p.slot (p.valueFor promises) ∨ p.valueFor promises = p.command := by
  unfold Proposal.valueFor
  split
  · next v hv =>
    obtain ⟨hsource, _⟩ := Proposal.foldl_higherAccepted_eq_some hv
    obtain ⟨q, hq⟩ := SortedMap.mem_values_iff.1 (hsource.resolve_left (by simp))
    obtain ⟨_, _, _, hpromises⟩ := (pursued_preparing_iff phase).1 (h.pursued r p current)
    exact .inl ⟨v.1, .inl (.inr ⟨q, (hpromises q _ hq).2.cast v rfl⟩)⟩
  · exact .inr rfl

/-- A move brings up no value but the own command of a proposal. -/
theorem stands_move (h : g.Sound w) (hheard : ∀ sender m, heard sender m → w.Heard r sender m)
    (hmove : Move heard wanted (w.machine r) ready l') (hs : Stands (w.update r l' []) s c) :
    Stands w s c ∨ ∃ p, (w.machine r).Offers p ∧ p.slot = s ∧ p.command = c := by
  have asking : ∀ b, l'.Asks s b c →
      Stands w s c ∨ ∃ p, (w.machine r).Offers p ∧ p.slot = s ∧ p.command = c := by
    intro b hasks
    rcases hmove.asks hasks with hold | ⟨p, promises, offers, phase, _, rfl, rfl⟩
    · exact .inl ⟨b, .inr ⟨r, hold⟩⟩
    · rcases h.stands_valueFor offers.current phase with hstands | hown
      · exact .inl hstands
      · exact .inr ⟨p, offers, rfl, hown.symm⟩
  obtain ⟨b, hasked | ⟨q, hasks⟩⟩ := hs
  · rcases asked_of_update hasked with hold | hcast | ⟨receiver, hsaid⟩
    · exact .inl ⟨b, .inl hold⟩
    · rcases hmove.asked_of_mem_cast hcast with hold | ⟨sender, htold⟩ | hasks
      · exact .inl ⟨b, .inl (.inr ⟨r, hold⟩)⟩
      · exact .inl ⟨b, .inl (.inl ⟨sender, r, hheard _ _ htold⟩)⟩
      · exact asking b hasks
    · cases hsaid
  · by_cases hq : q = r
    · subst hq
      rw [World.machine_update_self] at hasks
      exact asking b hasks
    · rw [World.machine_update_of_ne hq] at hasks
      exact .inl ⟨b, .inr ⟨q, hasks⟩⟩

/-- Nothing that is truthfully said brings up a value. -/
theorem stands_say
    (truthful : ∀ receiver m, Action.send receiver m ∈ said → (w.machine r).MaySay m)
    (hs : Stands (w.update r (w.machine r) said) s c) : Stands w s c := by
  obtain ⟨b, hasked | ⟨q, hasks⟩⟩ := hs
  · rcases asked_of_update hasked with hold | hcast | ⟨receiver, hsaid⟩
    · exact ⟨b, .inl hold⟩
    · exact ⟨b, .inl (.inr ⟨r, hcast⟩)⟩
    · exact ⟨b, .inr ⟨r, truthful receiver _ hsaid⟩⟩
  · have hsame : (w.update r (w.machine r) said).machine = w.machine :=
      Function.update_eq_self r w.machine
    rw [hsame] at hasks
    exact ⟨b, .inr ⟨q, hasks⟩⟩

/-- What single moves of a member keep in a sound group is kept by a whole step. -/
theorem moves_induction {I : World ReplicatedLog → Prop} (hr : r ∈ g.members)
    (move : ∀ w l' ready, g.Sound w → (w.machine r).Coherent → I w →
      (∀ sender m, heard sender m → w.Heard r sender m) →
      Move heard wanted (w.machine r) ready l' → I (w.update r l' []))
    (say : ∀ w said, I w →
      (∀ receiver m, Action.send receiver m ∈ said → (w.machine r).MaySay m) →
      I (w.update r (w.machine r) said))
    (h : g.Sound w) (hc : (w.machine r).Coherent) (hi : I w)
    (hheard : ∀ sender m, heard sender m → w.Heard r sender m)
    (hmoves : Moves heard wanted (w.machine r) actions ready l') : I (w.update r l' actions) := by
  have hkept : g.Sound (w.update r l' actions) ∧ ((w.update r l' actions).machine r).Coherent ∧
      I (w.update r l' actions) := by
    refine world_induction (I := fun w => g.Sound w ∧ (w.machine r).Coherent ∧ I w) ?_ ?_
      ⟨h, hc, hi⟩ hheard rfl hmoves
    · rintro w l' ready ⟨h, hc, hi⟩ hheard hmove
      refine ⟨h.move hr hheard hmove, ?_, move w l' ready h hc hi hheard hmove⟩
      rw [World.machine_update_self]
      exact hc.move hmove
    · rintro w said ⟨h, hc, hi⟩ truthful
      refine ⟨h.say hr truthful, ?_, say w said hi truthful⟩
      rw [World.machine_update_self]
      exact hc
  exact hkept.2.2

end Sound

end Group

end ReplicatedLedger
