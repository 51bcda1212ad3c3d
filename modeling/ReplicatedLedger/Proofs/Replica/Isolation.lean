import Mathlib.Data.List.Perm.Subperm
import ReplicatedLedger.Proofs.Replica.Career

/-!
A replica under a partition.  It exchanges nothing with the peers that it does not reach, and while
those that it does reach are no majority, none of its attempts has anything chosen.
-/

namespace ReplicatedLedger

namespace ReplicatedLog

/-- What a log that hears only `voices` makes of its start: no attempt collects other votes than
theirs, and no entry is known but for those `received`.  A vote that was going on at the start may
go on. -/
structure Starved (voices : List ReplicaId) (received : LogEntry → Prop)
    (start l : ReplicatedLog) : Prop where
  topology : l.topology = start.topology
  votes : ∀ p c votes, l.active = some p → p.phase = .accepting c votes →
    start.Asks p.slot p.ballot c ∨ ∀ q u, votes.get? q = some u → q ∈ voices
  chosen : ∀ s e, l.chosen.get? s = some e →
    start.chosen.get? s = some e ∨ received e ∨ start.Asks e.slot e.ballot e.command

variable {heard : ReplicaId → Message → Prop} {wanted : Command → Prop} {l l' start : ReplicatedLog}
  {actions : List Action} {ready : List LogEntry} {voices : List ReplicaId}
  {received : LogEntry → Prop} {p : Proposal}

theorem size_le_of_voices {votes : SortedSet ReplicaId}
    (h : ∀ q u, votes.get? q = some u → q ∈ voices) : votes.size ≤ voices.length := by
  have hsub : votes.keys ⊆ voices := fun q hq => by
    obtain ⟨u, hu⟩ := SortedMap.mem_keys_iff.1 hq
    exact h q u hu
  have hle := (votes.keys_nodup.subperm hsub).length_le
  rwa [votes.length_keys] at hle

theorem starved_start (l : ReplicatedLog) : Starved voices received l l where
  topology := rfl
  votes p _ votes current phase := .inl ⟨p, votes, current, rfl, rfl, phase⟩
  chosen _ _ he := .inl he

namespace Starved

theorem imp {received' : LogEntry → Prop} (h : Starved voices received start l)
    (himp : ∀ e, received e → received' e) : Starved voices received' start l where
  topology := h.topology
  votes := h.votes
  chosen s e he := (h.chosen s e he).imp_right (.imp_left (himp e))

theorem of_frame (h : Starved voices received start l) (htopology : l'.topology = l.topology)
    (hchosen : l'.chosen = l.chosen)
    (hvotes : ∀ p c votes, l'.active = some p → p.phase = .accepting c votes →
      start.Asks p.slot p.ballot c ∨ ∀ q u, votes.get? q = some u → q ∈ voices) :
    Starved voices received start l' where
  topology := htopology.trans h.topology
  votes := hvotes
  chosen := by rw [hchosen]; exact h.chosen

theorem learn {e : LogEntry} (h : Starved voices received start l)
    (he : received e ∨ start.Asks e.slot e.ballot e.command) :
    Starved voices received start (l.learn e) where
  topology := (topology_learn l e).trans h.topology
  votes := by rw [active_learn]; exact h.votes
  chosen s e' hs := by
    rw [get?_chosen_learn] at hs
    split at hs
    · cases hs
      exact .inr he
    · exact h.chosen s e' hs

/-- Fewer voices than a majority have nothing chosen. -/
theorem asks_of_wins {e : LogEntry} (h : Starved voices received start l)
    (few : voices.length < start.topology.quorum) (won : l.Wins e) :
    start.Asks e.slot e.ballot e.command := by
  obtain ⟨p, votes, current, hslot, hballot, phase, majority⟩ := won
  rw [← hslot, ← hballot]
  refine (h.votes p e.command votes current phase).resolve_right fun hvoices => ?_
  have hle := size_le_of_voices hvoices
  rw [h.topology] at majority
  omega

theorem move (h : Starved voices received start l) (few : voices.length < start.topology.quorum)
    (hheard : ∀ sender m, heard sender m → sender ∈ voices ∧ ∀ e ∈ m.entries, received e)
    (self : start.replica ∈ voices) (hmove : Move heard wanted l ready l') :
    Starved voices received start l' := by
  cases hmove with
  | hear told carried => exact h.learn (.inl ((hheard _ _ told).2 _ carried))
  | win won => exact h.learn (.inr (h.asks_of_wins few won))
  | finish => exact h.of_frame rfl rfl fun p c votes current phase => by cases current
  | promote | pause | reopen | countPromise =>
      -- the proposal is not collecting votes
      refine h.of_frame rfl rfl fun p c votes current phase => ?_
      cases current
      cases phase
  | ask current phase majority since =>
      refine h.of_frame rfl rfl fun p c votes current phase => ?_
      cases current
      cases phase
      exact .inr fun q u hq => by cases hq
  | @countVote p value votes sender current phase told =>
      refine h.of_frame rfl rfl fun p' c votes' current' phase' => ?_
      cases current'
      cases phase'
      refine (h.votes p value votes current phase).imp_right fun hvoices q u hq => ?_
      rw [SortedMap.get?_insert] at hq
      split at hq
      · next heq =>
        -- the vote is that of a voice, or the replica's own
        rw [heq]
        rcases told with htold | ⟨hself, _⟩
        · exact (hheard _ _ htold).1
        · rw [hself]
          unfold replica
          rw [h.topology]
          exact self
      · exact hvoices q u hq
  | _ => exact h.of_frame rfl rfl h.votes

theorem moves (h : Starved voices received start l) (few : voices.length < start.topology.quorum)
    (hheard : ∀ sender m, heard sender m → sender ∈ voices ∧ ∀ e ∈ m.entries, received e)
    (self : start.replica ∈ voices) (hmoves : Moves heard wanted l actions ready l') :
    Starved voices received start l' := by
  induction hmoves with
  | refl => exact h
  | move first _ ih => exact ih (h.move few hheard self first)
  | say _ _ ih => exact ih h

end Starved

end ReplicatedLog

namespace Replica

variable {asked : RequestId → Command → Slot → Prop} {balance : Amount} {r r' : Replica}
  {actions : List Action} {e : Event} {id : RequestId} {steps before during : List Step} {s : Step}
  {t : Topology} {policy : ReplicaPolicy} {sender receiver : ReplicaId} {m : Message}

/-! ### Messages of strangers -/

/-- A replica at rest has nothing to settle. -/
theorem AtRest.settle_eq (h : r.AtRest asked) : r.settle = .ok (r, []) := by
  have hready : r.ready = [] := by
    rw [List.eq_nil_iff_forall_not_mem]
    rintro ⟨slot, waiting⟩ hmem
    obtain ⟨hslot, hlt⟩ := mem_ready_iff.1 hmem
    have hle := h.behind slot waiting hslot
    rw [Slot.le_iff_toNat] at hle
    rw [Slot.lt_iff_toNat] at hlt
    omega
  have hgather : r.gather = .ok (r, []) := by
    have htaken : r.log.takeCompletions.1 = r.log := by
      unfold ReplicatedLog.takeCompletions
      rw [← h.completed]
    unfold gather
    rw [h.drained.drainApplicable_eq]
    show Except.ok (Replica.onCompletions { r with log := r.log.takeCompletions.1 }
      r.log.completions) = _
    rw [htaken, h.completed]
    rfl
  refine settle_eq_ok_iff.2 ⟨r, [], hgather, ?_, ?_⟩
  · unfold dismissReady
    rw [hready]
    rfl
  · unfold answers
    rw [hready]
    rfl

theorem AtRest.handle_of_onEvent (h : r.AtRest asked) (hevent : r.onEvent e = .ok (r, actions)) :
    Machine.handle r e = .ok (r, actions) := by
  show r.handle e = .ok (r, actions)
  unfold Replica.handle
  refine bind_eq_ok_iff.2 ⟨(r, actions), hevent, bind_eq_ok_iff.2 ⟨(r, []), h.settle_eq, ?_⟩⟩
  exact congrArg (fun more => Except.ok (r, more)) (List.append_nil actions)

theorem AtRest.handle_of_unheard (h : r.AtRest asked) (deaf : r.log.hears sender = false) :
    Machine.handle r (.message sender m) = .ok (r, []) := by
  refine h.handle_of_onEvent ?_
  show (fun p => ({ r with log := p.1 }, p.2)) <$> r.log.handle (.message sender m) = _
  rw [ReplicatedLog.handle_of_unheard deaf]
  rfl

/-! ### Whom a replica sends to -/

theorem onRequest_reachable {request : Request} (hl : r.log.Coherent) (hs : r.log.Settled)
    (h : r.onRequest id request = .ok (r', actions)) :
    ∀ receiver m, .send receiver m ∈ actions → r'.log.Reaches receiver := by
  intro receiver m hm
  cases request using Request.byCommand with
  | command c =>
      rw [onRequest_command] at h
      obtain ⟨admission, _, h⟩ := bind_eq_ok_iff.1 h
      unfold consider at h
      split at h
      · cases h
        exact absurd (List.mem_singleton.1 hm) (send_ne_fail _ _)
      · cases h
        exact absurd (List.mem_singleton.1 hm) (send_ne_settled _)
      · obtain ⟨⟨log, proposal, said⟩, hpropose, h⟩ := bind_eq_ok_iff.1 h
        cases h
        exact ReplicatedLog.propose_reachable hl hs hpropose receiver m hm
  | disconnect peers => cases h; simp at hm
  | reconnect peers =>
      -- the partition changes before anything is sent
      obtain ⟨requests, hrequests, h⟩ := bind_eq_ok_iff.1 h
      cases h
      have hm : .send receiver m ∈ requests := by simpa using hm
      exact (ReplicatedLog.requestCatchUp_tells hrequests).reachable receiver m hm
  | logs => cases h; simp at hm
  | balance account => cases h; simp at hm

theorem onEvent_reachable (hl : r.log.Coherent) (hs : r.log.Settled)
    (h : r.onEvent e = .ok (r', actions)) :
    ∀ receiver m, .send receiver m ∈ actions → r'.log.Reaches receiver := by
  cases e with
  | request id request => exact onRequest_reachable hl hs h
  | timer timer =>
      obtain ⟨⟨log, said⟩, hhandle, hr'⟩ := map_eq_ok_iff.1 h
      cases hr'
      exact ReplicatedLog.handle_reachable hl hs hhandle
  | message sender m =>
      obtain ⟨⟨log, said⟩, hhandle, hr'⟩ := map_eq_ok_iff.1 h
      cases hr'
      exact ReplicatedLog.handle_reachable hl hs hhandle

/-- Settling sends nothing and does not touch the partition. -/
theorem settle_samePlace (h : r.settle = .ok (r', actions)) :
    r.log.SamePlace r'.log ∧ ∀ receiver m, .send receiver m ∉ actions := by
  obtain ⟨r₁, failures, hgather, rfl, rfl⟩ := settle_eq_ok_iff.1 h
  obtain ⟨log, books, ready, hdrain, _, hcompletions, hlog, _⟩ := gather_eq_ok hgather
  obtain ⟨stop, _, rfl⟩ := ReplicatedLog.drainApplicable_eq_ok hdrain
  refine ⟨?_, fun receiver m hm => ?_⟩
  · show r.log.SamePlace r₁.log
    rw [hlog]
    exact ⟨rfl, rfl⟩
  · rcases List.mem_append.1 hm with hm | hm
    · rw [show failures = _ from (congrArg Prod.snd hcompletions).symm] at hm
      exact onCompletions_silent hm
    · obtain ⟨pair, _, hm⟩ := List.mem_flatMap.1 hm
      obtain ⟨request, _, hm⟩ := List.mem_map.1 hm
      exact send_ne_answerApplied _ _ _ hm.symm

theorem handle_reachable (hl : r.log.Coherent) (hs : r.log.Settled)
    (h : Machine.handle r e = .ok (r', actions)) :
    ∀ receiver m, .send receiver m ∈ actions → r'.log.Reaches receiver := by
  obtain ⟨⟨r₁, said⟩, hevent, h⟩ := bind_eq_ok_iff.1 h
  obtain ⟨⟨r₂, answers⟩, hsettle, h⟩ := bind_eq_ok_iff.1 h
  cases h
  intro receiver m hm
  obtain ⟨hplace, hsilent⟩ := settle_samePlace hsettle
  rcases List.mem_append.1 hm with hm | hm
  · exact hplace.reaches_iff.2 (onEvent_reachable hl hs hevent receiver m hm)
  · exact absurd hm (hsilent receiver m)

/-! ### Intervals -/

/-- Whether an entry came in during some steps, from a peer that the replica heard. -/
def ReceivedIn (steps : List Step) (e : LogEntry) : Prop :=
  ∃ s ∈ steps, ∃ sender, s.before.log.hears sender = true ∧
    (s.event = .message sender (.chosen e) ∨
      ∃ batch, s.event = .message sender (.catchUpResponse batch) ∧ e ∈ batch)

theorem ReceivedIn.mono {more : List Step} {e : LogEntry} (h : ReceivedIn steps e)
    (hsub : steps ⊆ more) : ReceivedIn more e := by
  obtain ⟨s, hs, hreceived⟩ := h
  exact ⟨s, hsub hs, hreceived⟩

theorem receivedIn_of_entries {e : LogEntry} (hs : s ∈ steps)
    (hears : s.before.log.hears sender = true) (hevent : s.event = .message sender m)
    (he : e ∈ m.entries) : ReceivedIn steps e := by
  refine ⟨s, hs, sender, hears, ?_⟩
  cases m with
  | chosen e' =>
      rw [List.mem_singleton.1 he]
      exact .inl hevent
  | catchUpResponse batch => exact .inr ⟨batch, hevent, he⟩
  | _ => cases he

/-- A completion that tells of a slot is right about it. -/
theorem AtRest.chosen_of_completed {x : Completion} {slot : Slot} (h : r.AtRest asked)
    (hl : r.log.Coherent) (hs : r.log.Settled) (hevent : r.onEvent e = .ok (r', actions))
    (hx : x ∈ r'.log.completions) (hslot : x.result = .ok slot) :
    ∃ e, r'.log.chosen.get? slot = some e ∧ e.command = x.command := by
  have hrest : r.AtRest fun _ _ _ => True := h.imp fun _ _ _ _ => trivial
  obtain ⟨docket, haccounts, _⟩ := hrest.onEvent hl hs (fun _ _ _ _ => trivial) hevent
  obtain ⟨submission, hended⟩ := haccounts.exists_endedBy hx
  obtain ⟨_, e, he, hcommand⟩ := hended.chosen slot hslot
  exact ⟨e, he, hcommand.trans hended.command.symm⟩

/-- Of what is known once an event has been taken in, nothing is lost when the replica settles. -/
theorem InOrder.grows_of_onEvent {r₁ : Replica} {said : List Action}
    (h : r.InOrder balance asked) (hevent : r.onEvent e = .ok (r₁, said))
    (handled : Machine.handle r e = .ok (r', actions)) : r₁.log.Grows r'.log := by
  obtain ⟨⟨r₂, said'⟩, hevent', hrest⟩ := bind_eq_ok_iff.1 handled
  obtain ⟨⟨r₃, answers⟩, hsettle, hrest⟩ := bind_eq_ok_iff.1 hrest
  cases hrest
  rw [hevent] at hevent'
  cases hevent'
  have hadvances : Advances (fun _ _ => True) (fun _ => True) r said [] r₁ :=
    onEvent_advances h.coherent h.settled (fun _ _ _ => trivial) (fun _ _ _ => trivial) hevent
  obtain ⟨ready, hsettled⟩ : ∃ ready,
      Advances (fun _ _ => True) (fun _ => True) r₁ answers ready r' :=
    settle_advances hadvances.settled hsettle
  exact hsettled.moves.grows

namespace Career

theorem append {r'' : Replica} {more : List Step} (h : Career r steps r')
    (h' : Career r' more r'') : Career r (steps ++ more) r'' := by
  induction h' with
  | rest =>
      rw [List.append_nil]
      exact h
  | step _ handled ih =>
      rw [← List.append_assoc]
      exact .step ih handled

/-- A career up to a step, and on from it. -/
theorem split (h : Career r steps r') (hs : s ∈ steps) : ∃ earlier later,
    steps = earlier ++ s :: later ∧ Career r earlier s.before ∧
      Machine.handle (Machine.setTime s.before s.time) s.event = .ok (s.after, s.actions) ∧
      Career s.after later r' := by
  induction h with
  | rest => cases hs
  | @step steps s' hearlier handled ih =>
      rcases List.mem_append.1 hs with hs | hs
      · obtain ⟨earlier, later, rfl, hbefore, hstep, hlater⟩ := ih hs
        exact ⟨earlier, later ++ [s'], by simp, hbefore, hstep, .step hlater handled⟩
      · rw [List.mem_singleton.1 hs]
        exact ⟨steps, [], rfl, hearlier, handled, .rest⟩

theorem end_eq (h : Career r steps r') : r' = r ∨ ∃ s ∈ steps, r' = s.after := by
  cases h with
  | rest => exact .inl rfl
  | step _ _ => exact .inr ⟨_, List.mem_append_right _ List.mem_cons_self, rfl⟩

/-- What is known lasts, and a replica stays at its place. -/
theorem grows (h : Career (start t policy) before r) (h' : Career r during r') :
    r.log.Grows r'.log := by
  induction h' with
  | rest => exact .refl _
  | @step steps s earlier handled ih =>
      have hr := (h.append earlier).inOrder
      obtain ⟨ready, hadvances⟩ : ∃ ready, Advances (fun _ _ => True) (fun _ => True)
          (Machine.setTime s.before s.time) s.actions ready s.after :=
        handle_advances hr.coherent hr.settled (fun _ _ _ => trivial) (fun _ _ _ => trivial) handled
      exact ih.trans hadvances.moves.grows

/-- While a replica hears only certain peers, fewer than a majority, its log is starved. -/
theorem starved {voices : List ReplicaId} (h : Career (start t policy) before r)
    (h' : Career r during r') (few : voices.length < r.log.topology.quorum)
    (self : r.id ∈ voices)
    (reached : ∀ s ∈ during, ∀ sender, s.before.log.hears sender = true → sender ∈ voices) :
    r.log.Starved voices (ReceivedIn during) r'.log := by
  induction h' with
  | rest => exact ReplicatedLog.starved_start _
  | @step steps s earlier handled ih =>
      have hr := (h.append earlier).inOrder
      have hlast : s ∈ steps ++ [s] := List.mem_append_right _ List.mem_cons_self
      have hbefore := (ih fun s' hs' => reached s' (List.mem_append_left _ hs')).imp
        fun e (he : ReceivedIn steps e) => he.mono (List.subset_append_left steps [s])
      by_cases deaf : ∃ sender m, s.event = .message sender m ∧ s.before.log.hears sender = false
      · obtain ⟨sender, m, hevent, hdeaf⟩ := deaf
        have hsame := (hr.setTime s.time).atRest.handle_of_unheard (m := m) hdeaf
        rw [← hevent, handled] at hsame
        have hafter : s.after = Machine.setTime s.before s.time :=
          congrArg Prod.fst (Except.ok.inj hsame)
        rw [hafter]
        exact hbefore
      · have told : ∀ sender m, s.event = .message sender m →
            sender ∈ voices ∧ ∀ e ∈ m.entries, ReceivedIn (steps ++ [s]) e := by
          intro sender m hevent
          have hears : s.before.log.hears sender = true := by
            by_contra hdeaf
            exact deaf ⟨sender, m, hevent, by simpa using hdeaf⟩
          exact ⟨reached s hlast sender hears, fun e he => receivedIn_of_entries hlast hears hevent he⟩
        obtain ⟨ready, hadvances⟩ : ∃ ready, Advances _ (fun _ => True)
            (Machine.setTime s.before s.time) s.actions ready s.after :=
          handle_advances hr.coherent hr.settled told (fun _ _ _ => trivial) handled
        exact hbefore.moves few (fun _ _ hm => hm) self hadvances.moves

/-- Whoever is not reached at the start, nor after any step, is not heard. -/
theorem heard_of_cut {away : List ReplicaId} (h : Career (start t policy) before r)
    (h' : Career r during r') (cut : ∀ q ∈ away, r.partition.reaches q = false)
    (cut' : ∀ s ∈ during, ∀ q ∈ away, s.after.partition.reaches q = false) (hs : s ∈ during)
    (hears : s.before.log.hears sender = true) :
    sender = r.id ∨ sender ∈ r.log.topology.group.filter (· ∉ away) := by
  obtain ⟨earlier, later, hduring, hearlier, _⟩ := h'.split hs
  have hcut : ∀ q ∈ away, s.before.log.partition.reaches q = false := by
    rcases hearlier.end_eq with hsame | ⟨s', hs', hsame⟩
    · rw [hsame]
      exact cut
    · rw [hsame]
      exact cut' s' (by rw [hduring]; exact List.mem_append_left _ hs')
  have htopology := (h.grows hearlier).topology
  rcases ReplicatedLog.hears_iff.1 hears with hself | ⟨hmember, hreach⟩
  · exact .inl (hself.trans (congrArg Topology.replica htopology))
  · rw [htopology] at hmember
    refine .inr (List.mem_filter.2 ⟨hmember, decide_eq_true fun haway => ?_⟩)
    rw [hcut sender haway] at hreach
    cases hreach

/-- What completes during an interval is known at its end. -/
theorem chosen_of_completed {r₁ : Replica} {said : List Action} {x : Completion} {slot : Slot}
    (h : Career (start t policy) before r) (h' : Career r during r') (hs : s ∈ during)
    (hevent : (Machine.setTime s.before s.time).onEvent s.event = .ok (r₁, said))
    (hx : x ∈ r₁.log.completions) (hslot : x.result = .ok slot) :
    ∃ e, r'.log.chosenAt? slot = some e ∧ e.command = x.command := by
  obtain ⟨earlier, later, _, hearlier, handled, hlater⟩ := h'.split hs
  have hr := ((h.append hearlier).inOrder).setTime s.time
  obtain ⟨e, he, hcommand⟩ := hr.atRest.chosen_of_completed hr.coherent hr.settled hevent hx hslot
  have hafter := (hr.grows_of_onEvent hevent handled).chosen slot e he
  exact ⟨e, ((h.append (.step hearlier handled)).grows hlater).chosen slot e hafter, hcommand⟩

end Career

/-- An entry that a replica has come to know between two moments: it came in from a peer, or the
votes for it were being collected already. -/
def Gained (r : Replica) (during : List Step) (e : LogEntry) : Prop :=
  ReceivedIn during e ∨ r.log.Asks e.slot e.ballot e.command

/-- While the members that a replica may reach are too few, no attempt that it begins has an entry
chosen: it collects fewer votes than a majority, and what the replica comes to know was received, or
goes back to an attempt begun before, as does all that its proposals complete with.  At any moment,
messages of others that it does not reach leave it as it is, and it sends nothing to those. -/
theorem minority_chooses_nothing (h : Career (start t policy) before r)
    (h' : Career r during r') :
    (∀ away : List ReplicaId, r.id ∈ r.log.topology.group → r.id ∉ away →
      (r.log.topology.group.filter (· ∉ away)).length < r.log.topology.quorum →
      (∀ q ∈ away, r.partition.reaches q = false) →
      (∀ s ∈ during, ∀ q ∈ away, s.after.partition.reaches q = false) →
      (∀ p c votes, r'.log.active = some p → p.phase = .accepting c votes →
        r.log.Asks p.slot p.ballot c ∨ votes.size < r.log.topology.quorum) ∧
      (∀ slot e, r'.log.chosenAt? slot = some e → r.log.chosenAt? slot = none →
        r.Gained during e) ∧
      ∀ s ∈ during, ∀ r₁ said x slot,
        (Machine.setTime s.before s.time).onEvent s.event = .ok (r₁, said) →
        x ∈ r₁.log.completions → x.result = .ok slot →
        ∃ e, r'.log.chosenAt? slot = some e ∧ e.command = x.command ∧
          (r.log.chosenAt? slot = some e ∨ r.Gained during e)) ∧
    (∀ sender m, sender ≠ r'.id →
      (sender ∉ r'.log.topology.group ∨ r'.partition.reaches sender = false) →
      Machine.handle r' (.message sender m) = .ok (r', [])) ∧
    ∀ s ∈ during, ∀ receiver m, .send receiver m ∈ s.actions → receiver ≠ s.after.id →
      s.after.partition.reaches receiver = true := by
  refine ⟨fun away member peers few cut cut' => ?_, fun sender m hne hstranger => ?_,
    fun s hs receiver m hm hne => ?_⟩
  · have self : r.id ∈ r.log.topology.group.filter (· ∉ away) :=
      List.mem_filter.2 ⟨member, by simpa using peers⟩
    have reached : ∀ s ∈ during, ∀ sender, s.before.log.hears sender = true →
        sender ∈ r.log.topology.group.filter (· ∉ away) := by
      intro s hs sender hears
      rcases h.heard_of_cut h' cut cut' hs hears with rfl | hvoice
      · exact self
      · exact hvoice
    have hstarved := h.starved h' few self reached
    have hgained : ∀ slot e, r'.log.chosenAt? slot = some e →
        r.log.chosenAt? slot = some e ∨ r.Gained during e := hstarved.chosen
    refine ⟨fun p c votes current phase => ?_, fun slot e he hnone => ?_, ?_⟩
    · exact (hstarved.votes p c votes current phase).imp_right fun hvoices =>
        Nat.lt_of_le_of_lt (ReplicatedLog.size_le_of_voices hvoices) few
    · refine (hgained slot e he).resolve_left fun hold => ?_
      rw [hnone] at hold
      cases hold
    · intro s hs r₁ said x slot hevent hx hslot
      obtain ⟨e, he, hcommand⟩ := h.chosen_of_completed h' hs hevent hx hslot
      exact ⟨e, he, hcommand, hgained slot e he⟩
  · exact (h.append h').inOrder.atRest.handle_of_unheard
      (ReplicatedLog.hears_eq_false_iff.2 ⟨hne, hstranger⟩)
  · obtain ⟨earlier, later, _, hearlier, handled, _⟩ := h'.split hs
    have hr := ((h.append hearlier).inOrder).setTime s.time
    exact (handle_reachable hr.coherent hr.settled handled receiver m hm).resolve_left hne

/-- One of two replicas, cut off from the other before it is asked for a transfer. -/
theorem minority_chooses_nothing_pair : ∃ before r during r',
    Career (start (Group.pair.topology ⟨1⟩) {}) before r ∧ Career r during r' ∧
      during.map (·.event) = [.request ⟨1⟩ (.transfer ⟨7⟩ ⟨⟨1⟩, ⟨2⟩, 3⟩)] ∧
      (∀ slot e, r'.log.chosenAt? slot = some e → r.log.chosenAt? slot = none →
        r.Gained during e) ∧
      ∀ m, Machine.handle r' (.message ⟨2⟩ m) = .ok (r', []) := by
  obtain ⟨r, answered, hdisconnect, r', said, htransfer, hcut, hcut'⟩ : ∃ r answered,
      Machine.handle (Machine.setTime (start (Group.pair.topology ⟨1⟩) {}) ⟨5⟩)
        (.request ⟨0⟩ (.disconnect [⟨2⟩])) = .ok (r, answered) ∧
      ∃ r' said, Machine.handle (Machine.setTime r ⟨6⟩)
          (.request ⟨1⟩ (.transfer ⟨7⟩ ⟨⟨1⟩, ⟨2⟩, 3⟩)) = .ok (r', said) ∧
        r.partition.reaches ⟨2⟩ = false ∧ r'.partition.reaches ⟨2⟩ = false :=
    ⟨_, _, rfl, _, _, rfl, rfl, rfl⟩
  let cutOff : Step :=
    ⟨start (Group.pair.topology ⟨1⟩) {}, ⟨5⟩, .request ⟨0⟩ (.disconnect [⟨2⟩]), r, answered⟩
  let asks : Step := ⟨r, ⟨6⟩, .request ⟨1⟩ (.transfer ⟨7⟩ ⟨⟨1⟩, ⟨2⟩, 3⟩), r', said⟩
  have hbefore : Career (start (Group.pair.topology ⟨1⟩) {}) ([] ++ [cutOff]) r :=
    .step (s := cutOff) .rest hdisconnect
  have hduring : Career r ([] ++ [asks]) r' := .step (s := asks) .rest htransfer
  have htopology : r.log.topology = Group.pair.topology ⟨1⟩ :=
    (Career.grows .rest hbefore).topology
  obtain ⟨hinterval, hstrangers, _⟩ := minority_chooses_nothing hbefore hduring
  have hid : r.id = ⟨1⟩ := congrArg Topology.replica htopology
  obtain ⟨_, hgained, _⟩ := hinterval [⟨2⟩] (by rw [hid, htopology]; decide)
    (by rw [hid]; decide) (by rw [htopology]; decide) (by simpa using hcut)
    (by simpa using hcut')
  have hid' : r'.id = ⟨1⟩ :=
    congrArg Topology.replica ((Career.grows hbefore hduring).topology.trans htopology)
  exact ⟨_, r, _, r', hbefore, hduring, rfl, hgained,
    fun m => hstrangers ⟨2⟩ m (by rw [hid']; decide) (.inr hcut')⟩

end Replica

end ReplicatedLedger
