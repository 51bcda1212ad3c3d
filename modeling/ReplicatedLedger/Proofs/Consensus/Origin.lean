import ReplicatedLedger.Proofs.Consensus.Agreement

/-!
Where chosen commands come from.  A log makes up no command of its own: what it knows, votes for or
proposes is something that it was asked to propose or that it was told of.
-/

namespace ReplicatedLedger

/-- The commands that a message carries. -/
def Message.commands : Message → List Command
  | .promise _ _ (some vote) => [vote.2]
  | .accept _ _ c => [c]
  | .chosen e => [e.command]
  | .catchUpResponse batch => batch.map (·.command)
  | _ => []

theorem Message.command_mem_commands {m : Message} {e : LogEntry} (h : e ∈ m.entries) :
    e.command ∈ m.commands := by
  cases m with
  | chosen e' =>
      rw [List.mem_singleton.1 h]
      exact List.mem_singleton.2 rfl
  | catchUpResponse batch => exact List.mem_map_of_mem h
  | _ => cases h

/-- A proposal whose commands all have a property. -/
structure Proposal.Within (P : Command → Prop) (p : Proposal) : Prop where
  own : P p.command
  promised : ∀ promises r vote, p.phase = .preparing promises →
    promises.get? r = some (some vote) → P vote.2
  asked : ∀ c votes, p.phase = .accepting c votes → P c

namespace Proposal

variable {P : Command → Prop} {p : Proposal}

theorem within_of_backoff (own : P p.command) (phase : p.phase = .backoff) : p.Within P where
  own := own
  promised _ _ _ h := by rw [phase] at h; cases h
  asked _ _ h := by rw [phase] at h; cases h

/-- The value asked for is the proposal's own, or one that a promise told of. -/
theorem Within.valueFor {promises : SortedMap ReplicaId (Option (Ballot × Command))}
    (h : p.Within P) (phase : p.phase = .preparing promises) : P (p.valueFor promises) := by
  unfold Proposal.valueFor highestAccepted
  split
  · next vote hvote =>
    obtain ⟨hsource, _⟩ := foldl_higherAccepted_eq_some hvote
    have hmem : some vote ∈ promises.values := hsource.resolve_left (by simp)
    obtain ⟨r, hr⟩ := SortedMap.mem_values_iff.1 hmem
    exact h.promised promises r vote phase hr
  · exact h.own

end Proposal

namespace ReplicatedLog

/-- A log in which every command has a property. -/
structure Within (P : Command → Prop) (l : ReplicatedLog) : Prop where
  chosen : ∀ s e, l.chosen.get? s = some e → P e.command
  accepted : ∀ s vote, l.acceptor.accepted s = some vote → P vote.2
  active : ∀ p, l.active = some p → p.Within P
  waiting : ∀ s ∈ l.waiting, P s.command

variable {heard : ReplicaId → Message → Prop} {wanted : Command → Prop} {l l' : ReplicatedLog}
  {actions : List Action} {ready : List LogEntry} {P Q : Command → Prop} {m : Message}
  {sender : ReplicaId}

theorem within_fresh (t : Topology) (policy : ConsensusPolicy) :
    Within P { topology := t, policy := policy } where
  chosen _ _ h := by cases h
  accepted _ _ h := by cases h
  active _ h := by cases h
  waiting _ h := by cases h

namespace Within

theorem imp (h : l.Within P) (himp : ∀ c, P c → Q c) : l.Within Q where
  chosen s e hs := himp _ (h.chosen s e hs)
  accepted s vote hs := himp _ (h.accepted s vote hs)
  active p hp := {
    own := himp _ (h.active p hp).own
    promised := fun _ r vote phase hr => himp _ ((h.active p hp).promised _ r vote phase hr)
    asked := fun c votes phase => himp _ ((h.active p hp).asked c votes phase) }
  waiting s hs := himp _ (h.waiting s hs)

/-- A log says nothing but what it knows. -/
theorem maySay (h : l.Within P) (hsay : l.MaySay m) : ∀ c ∈ m.commands, P c := by
  intro c hc
  cases m with
  | promise b s accepted =>
      cases accepted with
      | none => cases hc
      | some vote =>
          rw [List.mem_singleton.1 hc]
          exact h.accepted s vote hsay.2.2
  | accept b s c' =>
      rw [List.mem_singleton.1 hc]
      obtain ⟨p, votes, current, _, _, phase⟩ := hsay
      exact (h.active p current).asked c' votes phase
  | chosen e =>
      rw [List.mem_singleton.1 hc]
      exact h.chosen e.slot e hsay
  | catchUpResponse batch =>
      obtain ⟨e, he, rfl⟩ := List.mem_map.1 hc
      exact h.chosen e.slot e (hsay e he)
  | _ => cases hc

theorem told (h : l.Within P) (hheard : ∀ sender m, heard sender m → ∀ c ∈ m.commands, P c)
    (told : Told heard l sender m) : ∀ c ∈ m.commands, P c := by
  rcases told with hm | ⟨_, hsay⟩
  · exact hheard sender m hm
  · exact h.maySay hsay

theorem of_frame (h : l.Within P) (hchosen : l'.chosen = l.chosen)
    (hacceptor : l'.acceptor = l.acceptor) (hactive : ∀ p, l'.active = some p → p.Within P)
    (hwaiting : ∀ s ∈ l'.waiting, P s.command) : l'.Within P where
  chosen := by rw [hchosen]; exact h.chosen
  accepted := by rw [hacceptor]; exact h.accepted
  active := hactive
  waiting := hwaiting

theorem withActive {p : Proposal} (h : l.Within P) (hp : p.Within P) :
    (l.withActive p).Within P := by
  refine h.of_frame rfl rfl ?_ h.waiting
  intro q hq
  cases hq
  exact hp

theorem learn {e : LogEntry} (h : l.Within P) (he : P e.command) : (l.learn e).Within P where
  chosen s e' hs := by
    rw [get?_chosen_learn] at hs
    split at hs
    · cases hs
      exact he
    · exact h.chosen s e' hs
  accepted s vote hs := by
    by_cases hn : l.isNews e = true
    · rw [acceptor_learn hn, Acceptor.accepted_forget] at hs
      split at hs
      · cases hs
      · exact h.accepted s vote hs
    · rw [learn_of_known (by simpa using hn)] at hs
      exact h.accepted s vote hs
  active := by rw [active_learn]; exact h.active
  waiting := by rw [waiting_learn]; exact h.waiting

theorem move (h : l.Within P) (hheard : ∀ sender m, heard sender m → ∀ c ∈ m.commands, P c)
    (hwanted : ∀ c, wanted c → P c) (hmove : Move heard wanted l ready l') : l'.Within P := by
  cases hmove with
  | observe b => exact h.of_frame rfl rfl h.active h.waiting
  | @promise s b a accepted opened kept =>
      refine ⟨h.chosen, fun t vote ht => ?_, h.active, h.waiting⟩
      have ht : a.accepted t = some vote := ht
      rw [Acceptor.accepted_prepare kept] at ht
      exact h.accepted t vote ht
  | @vote s b c a sender opened asked kept =>
      refine ⟨h.chosen, fun t vote ht => ?_, h.active, h.waiting⟩
      have ht : a.accepted t = some vote := ht
      rw [Acceptor.accepted_accept kept] at ht
      split at ht
      · cases ht
        exact h.told hheard asked c List.mem_cons_self
      · exact h.accepted t vote ht
  | hear told carried =>
      exact h.learn (hheard _ _ told _ (Message.command_mem_commands carried))
  | win won =>
      obtain ⟨p, votes, current, _, _, phase, _⟩ := won
      exact h.learn ((h.active p current).asked _ votes phase)
  | submit due =>
      refine h.of_frame rfl rfl h.active ?_
      intro s hs
      rcases List.mem_append.1 hs with hs | hs
      · exact h.waiting s hs
      · rw [List.mem_singleton.1 hs]
        exact hwanted _ due
  | @promote s rest idle first =>
      refine h.of_frame rfl rfl ?_ ?_
      · intro p hp
        cases hp
        exact Proposal.within_of_backoff (h.waiting s (by rw [first]; exact List.mem_cons_self)) rfl
      · intro t ht
        exact h.waiting t (by rw [first]; exact List.mem_cons_of_mem _ ht)
  | finish current found => exact h.of_frame rfl rfl (fun p hp => by cases hp) h.waiting
  | pause current =>
      exact h.withActive (Proposal.within_of_backoff (h.active _ current).own rfl)
  | reopen attempts current target unseen unpromised own =>
      refine h.of_frame rfl rfl ?_ h.waiting
      intro q hq
      cases hq
      refine ⟨(h.active _ current).own, fun promises r vote phase hr => ?_, fun c votes phase => ?_⟩
      · cases phase
        cases hr
      · cases phase
  | @countPromise p promises sender accepted current phase told =>
      have hp := h.active p current
      refine h.withActive ⟨hp.own, fun promises' r vote hphase hr => ?_, fun c votes hphase => ?_⟩
      · cases hphase
        rw [SortedMap.get?_insert] at hr
        split at hr
        · cases hr
          exact h.told hheard told vote.2 List.mem_cons_self
        · exact hp.promised promises r vote phase hr
      · cases hphase
  | ask current phase majority since =>
      have hp := h.active _ current
      refine h.withActive ⟨hp.own, fun promises' r vote hphase hr => ?_, fun c votes hphase => ?_⟩
      · cases hphase
      · cases hphase
        exact hp.valueFor phase
  | countVote current phase told =>
      have hp := h.active _ current
      refine h.withActive ⟨hp.own, fun promises' r vote hphase hr => ?_, fun c votes hphase => ?_⟩
      · cases hphase
      · cases hphase
        exact hp.asked _ _ phase
  | handOut drained => exact h.of_frame rfl rfl h.active h.waiting
  | handOver => exact h.of_frame rfl rfl h.active h.waiting
  | repartition partition => exact h.of_frame rfl rfl h.active h.waiting

/-- After a step, neither the log nor what it has said has other commands than it was given. -/
theorem moves (h : l.Within P) (hheard : ∀ sender m, heard sender m → ∀ c ∈ m.commands, P c)
    (hwanted : ∀ c, wanted c → P c) (hmoves : Moves heard wanted l actions ready l') :
    l'.Within P ∧ ∀ receiver m, Action.send receiver m ∈ actions → ∀ c ∈ m.commands, P c := by
  induction hmoves with
  | refl => exact ⟨h, fun _ _ hm => by cases hm⟩
  | move first _ ih => exact ih (h.move hheard hwanted first)
  | say truthful _ ih =>
      obtain ⟨hafter, hsaid⟩ := ih h
      refine ⟨hafter, fun receiver m hm => ?_⟩
      rcases List.mem_append.1 hm with hm | hm
      · exact h.maySay (truthful receiver m hm)
      · exact hsaid receiver m hm

end Within

end ReplicatedLog

namespace Group

open ReplicatedLog (Moves)

/-- A group in which every command, on its way or at rest, has a property. -/
structure Within (P : Command → Prop) (w : World ReplicatedLog) : Prop where
  logs : ∀ r, (w.machine r).Within P
  sent : ∀ r sender m, w.Heard r sender m → ∀ c ∈ m.commands, P c

variable {g : Group} {w : World ReplicatedLog} {r : ReplicaId} {l' : ReplicatedLog}
  {wanted P Q : Command → Prop} {actions : List Action} {ready : List LogEntry}

theorem within_start (g : Group) : Within P g.start where
  logs _ := ReplicatedLog.within_fresh _ _
  sent _ _ _ h := by cases h

theorem Within.imp (h : Within P w) (himp : ∀ c, P c → Q c) : Within Q w where
  logs r := (h.logs r).imp himp
  sent r sender m hm c hc := himp c (h.sent r sender m hm c hc)

theorem Within.step (h : Within P w) (hwanted : ∀ c, wanted c → P c)
    (hmoves : Moves (w.Heard r) wanted (w.machine r) actions ready l') :
    Within P (w.update r l' actions) := by
  obtain ⟨hlog, hsaid⟩ := (h.logs r).moves (h.sent r) hwanted hmoves
  refine ⟨World.forall_machine_update (P := fun _ (l : ReplicatedLog) => l.Within P) h.logs hlog,
    fun r' sender m hm => ?_⟩
  rcases List.mem_append.1 hm with hm | hm
  · exact h.sent r' sender m hm
  · exact hsaid r' m (World.mem_envelopes.1 hm).2

end Group

end ReplicatedLedger
