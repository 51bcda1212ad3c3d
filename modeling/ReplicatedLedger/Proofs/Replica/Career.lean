import ReplicatedLedger.Proofs.Replica.Answers

/-!
The career of one replica: what becomes of it by any events at all, whoever sent the messages among
them, and what its answers are worth when it gives them.
-/

namespace ReplicatedLedger

namespace Replica

/-- An event at a replica, at some time, with the replica before and after it. -/
structure Step where
  before : Replica
  time : Duration
  event : Event
  after : Replica
  actions : List Action

/-- The steps that lead from one state of a replica to another. -/
inductive Career (r : Replica) : List Step → Replica → Prop
  | rest : Career r [] r
  | step {steps : List Step} {s : Step} (earlier : Career r steps s.before)
      (handled : Machine.handle (Machine.setTime s.before s.time) s.event =
        .ok (s.after, s.actions)) :
      Career r (steps ++ [s]) s.after

/-- What comes of an event at some time. -/
def step? (r : Replica) (event : Duration × Event) : Option (Step × Replica) :=
  match Machine.handle (Machine.setTime r event.1) event.2 with
  | .ok (after, actions) => some (⟨r, event.1, event.2, after, actions⟩, after)
  | .error _ => none

def handleAll (r : Replica) (events : List (Duration × Event)) : List Step × Replica :=
  play step? r events

/-- Whether a command was proposed for a request, by a replica that had applied all below a slot. -/
def Proposed (steps : List Step) (id : RequestId) (c : Command) (floor : Slot) : Prop :=
  ∃ s ∈ steps, s.event = .request id c.request ∧
    s.before.books.admission c = .ok (.ok .propose) ∧ s.before.log.nextApply = floor

/-- What holds of a replica between events. -/
structure InOrder (balance : Amount) (asked : RequestId → Command → Slot → Prop) (r : Replica) :
    Prop where
  coherent : r.log.Coherent
  settled : r.log.Settled
  replays : r.Replays balance
  atRest : r.AtRest asked

variable {asked asked' : RequestId → Command → Slot → Prop} {balance : Amount} {r r' : Replica}
  {steps earlier later more : List Step} {s : Step} {t : Topology} {policy : ReplicaPolicy}
  {id : RequestId} {c : Command} {floor : Slot} {response : Response} {tid : Tid}

theorem Proposed.mono (h : Proposed steps id c floor) (hsub : steps ⊆ more) :
    Proposed more id c floor := by
  obtain ⟨s, hs, hproposed⟩ := h
  exact ⟨s, hsub hs, hproposed⟩

theorem Replays.attested (h : r.Replays balance) : r.books.Attested :=
  (Books.attested_opening _ balance).applyAll h.books

theorem inOrder_start (t : Topology) (policy : ReplicaPolicy) :
    (start t policy).InOrder policy.initialBalance asked where
  coherent := ReplicatedLog.coherent_fresh _ _
  settled := ReplicatedLog.settled_of_idle rfl
  replays := replays_start t policy
  atRest := atRest_start t policy

namespace InOrder

theorem imp (h : r.InOrder balance asked) (himp : ∀ id c floor, asked id c floor → asked' id c floor) :
    r.InOrder balance asked' :=
  ⟨h.coherent, h.settled, h.replays, h.atRest.imp himp⟩

/-- Nothing depends on the time. -/
theorem setTime (h : r.InOrder balance asked) (now : Duration) :
    (Machine.setTime r now).InOrder balance asked :=
  ⟨h.coherent, h.settled, ⟨h.replays.books, h.replays.count, h.replays.known⟩,
    ⟨h.atRest.tracks.of_frame rfl rfl (Nat.le_refl _) fun _ _ he => he, h.atRest.completed,
      h.atRest.behind, h.atRest.drained⟩⟩

theorem handle {e : Event} {actions : List Action} (h : r.InOrder balance asked)
    (due : ∀ id c, e = .request id c.request → r.books.admission c = .ok (.ok .propose) →
      asked id c r.log.nextApply)
    (handled : Machine.handle r e = .ok (r', actions)) :
    (r'.InOrder balance asked ∧ r.books.applied <+: r'.books.applied) ∧
      ∀ id response, .respond id response ∈ actions →
        (AnswersFrom r.books e id response ∧ r'.books = r.books) ∨ Refused asked id response ∨
          r'.Applied asked id response := by
  obtain ⟨ready, hadvances⟩ : ∃ ready, Advances (fun _ _ => True) (fun _ => True) r actions ready r' :=
    handle_advances h.coherent h.settled (fun _ _ _ => trivial) (fun _ _ _ => trivial) handled
  obtain ⟨hrest, hanswers⟩ := h.atRest.handle h.coherent h.settled h.replays due handled
  have hafter : r'.InOrder balance asked := ⟨h.coherent.moves hadvances.moves, hadvances.settled,
    h.replays.advances h.coherent hadvances, hrest⟩
  refine ⟨⟨hafter, Books.applied_applyAll hadvances.books⟩, fun id response hm => ?_⟩
  exact (hanswers id response hm).imp_left fun hnow =>
    hnow.imp_left fun hat => hat.answersFrom h.coherent h.settled

end InOrder

theorem step?_eq_some_iff {event : Duration × Event} : r.step? event = some (s, r') ↔
    s.before = r ∧ (s.time, s.event) = event ∧
      Machine.handle (Machine.setTime s.before s.time) s.event = .ok (s.after, s.actions) ∧
      s.after = r' := by
  unfold step?
  constructor
  · intro h
    split at h
    · next handled =>
      cases h
      exact ⟨rfl, rfl, handled, rfl⟩
    · cases h
  · rintro ⟨rfl, rfl, handled, rfl⟩
    dsimp only
    rw [handled]

theorem career_handleAll (r : Replica) (events : List (Duration × Event)) :
    Career r (r.handleAll events).1 (r.handleAll events).2 := by
  refine play_induction .rest (fun done r₁ event s r₂ earlier hstep => ?_) events
  obtain ⟨rfl, _, handled, rfl⟩ := step?_eq_some_iff.1 hstep
  exact earlier.step handled

/-- The careers of a replica are those that can be carried out. -/
theorem career_iff : Career r steps r' ↔ ∃ events, r.handleAll events = (steps, r') := by
  constructor
  · intro h
    induction h with
    | rest => exact ⟨[], rfl⟩
    | step _ handled ih =>
        exact exists_play_concat ih (step?_eq_some_iff.2 ⟨rfl, rfl, handled, rfl⟩)
  · rintro ⟨events, hplay⟩
    have h := career_handleAll r events
    rw [hplay] at h
    exact h

namespace Career

theorem snoc_iff : Career r (steps ++ [s]) r' ↔ Career r steps s.before ∧
    Machine.handle (Machine.setTime s.before s.time) s.event = .ok (s.after, s.actions) ∧
      r' = s.after := by
  constructor
  · intro h
    generalize hsteps : steps ++ [s] = all at h
    cases h with
    | rest => simp at hsteps
    | step earlier handled =>
        obtain ⟨rfl, hs⟩ := List.append_inj' hsteps rfl
        cases hs
        exact ⟨earlier, handled, rfl⟩
  · rintro ⟨earlier, handled, rfl⟩
    exact .step earlier handled

/-- One more step of a career. -/
theorem advance (h : s.before.InOrder balance (Proposed steps))
    (handled : Machine.handle (Machine.setTime s.before s.time) s.event =
      .ok (s.after, s.actions)) :
    (s.after.InOrder balance (Proposed (steps ++ [s])) ∧
      s.before.books.applied <+: s.after.books.applied) ∧
      ∀ id response, .respond id response ∈ s.actions →
        (AnswersFrom s.before.books s.event id response ∧ s.after.books = s.before.books) ∨
        Refused (Proposed (steps ++ [s])) id response ∨
        s.after.Applied (Proposed (steps ++ [s])) id response := by
  have hmore : s.before.InOrder balance (Proposed (steps ++ [s])) :=
    h.imp fun _ _ _ hp => hp.mono (List.subset_append_left _ _)
  refine (hmore.setTime s.time).handle (fun id c he hadmission => ?_) handled
  exact ⟨s, List.mem_append_right _ List.mem_cons_self, he, hadmission, rfl⟩

theorem inOrder (h : Career (start t policy) steps r) :
    r.InOrder policy.initialBalance (Proposed steps) := by
  induction h with
  | rest => exact inOrder_start t policy
  | step _ handled ih => exact (advance ih handled).1.1

/-- The books have only gone on since any step. -/
theorem past (h : Career (start t policy) steps r) (hs : s ∈ steps) :
    s.before.Replays policy.initialBalance ∧ s.before.books.applied <+: r.books.applied := by
  induction h with
  | rest => cases hs
  | @step steps s' earlier handled ih =>
      obtain ⟨⟨_, hgrows⟩, _⟩ := advance earlier.inOrder handled
      rcases List.mem_append.1 hs with hs | hs
      · exact (ih hs).imp_right fun hbegins => hbegins.trans hgrows
      · rw [List.mem_singleton.1 hs]
        exact ⟨earlier.inOrder.replays, hgrows⟩

/-- A command was proposed where its floor was the number of entries applied. -/
theorem exists_arrival (h : Career (start t policy) steps r) (hp : Proposed steps id c floor) :
    ∃ arrival ∈ steps, arrival.event = .request id c.request ∧
      arrival.before.books.applied.length = floor.index.toNat := by
  obtain ⟨s, hs, hevent, _, rfl⟩ := hp
  exact ⟨s, hs, hevent, (h.past hs).1.count.symm⟩

/-- An abort is proposed only for a transaction that is recorded, and so was prepared. -/
theorem recorded (h : Career (start t policy) steps r) (hp : Proposed steps id (.abort tid) floor)
    {n : Nat} (hn : floor.index.toNat ≤ n) :
    Books.preparedIn (r.books.applied.take n) tid ≠ none := by
  obtain ⟨s, hs, _, hadmission, rfl⟩ := hp
  obtain ⟨hreplays, hbegins⟩ := h.past hs
  have hcheck : s.before.books.checkAbort tid = .ok .propose := Except.ok.inj hadmission
  obtain ⟨record, found⟩ : ∃ record, s.before.books.participants.find? tid = some record := by
    unfold Books.checkAbort at hcheck
    split at hcheck
    · next hstate =>
      obtain ⟨record, found, _⟩ := Option.map_eq_some_iff.1 hstate
      exact ⟨record, found⟩
    · cases hcheck
    · cases hcheck
    · cases hcheck
  have hopened := hreplays.attested.traced.opened tid
  rw [found, Option.map_some] at hopened
  have hle : s.before.books.applied.length ≤ n := by
    rw [← hreplays.count]
    exact hn
  rw [Books.preparedIn_of_begins hopened (List.prefix_take_iff.2 ⟨hbegins, hle⟩)]
  exact Option.some_ne_none _

end Career

/-- Answers are sound.  Each answers a request that arrived under its id, and the books back it when
it is given: an acknowledged transfer is in the table of transfers, an acknowledged commit or abort
is the state of the record, and a vote for a transfer is given on a record of just this transfer.  A
slot in an acknowledgement is the position in the trail of an entry with the command asked for,
which was not rejected and not applied before the request arrived. -/
theorem answers_hold (h : Career (start t policy) (steps ++ [s]) r)
    (hm : .respond id response ∈ s.actions) :
    ∃ arrival ∈ steps ++ [s], ∃ request, arrival.event = .request id request ∧
      r.books.Backs request response ∧
      ∀ slot, response = .ack (some slot) → ∃ a : AppliedEntry,
        r.books.applied[slot.index.toNat]? = some a ∧ request = a.entry.command.request ∧
          (∀ reason, a.outcome ≠ .rejected reason) ∧
          arrival.before.books.applied.length ≤ slot.index.toNat := by
  obtain ⟨earlier, handled, rfl⟩ := Career.snoc_iff.1 h
  rcases (Career.advance earlier.inOrder handled).2 id response hm with
    ⟨hnow, hbooks⟩ | hrefused | ⟨floor, slot, a, hproposed, hle, ha, hverdict⟩
  · -- answered at once, from books that this step leaves as they are
    obtain ⟨request, hevent, hbacks, hnone, _⟩ := hnow
    refine ⟨s, List.mem_append_right _ List.mem_cons_self, request, hevent, ?_, fun slot hslot => ?_⟩
    · rw [hbooks]
      exact hbacks
    · exact absurd hslot (hnone slot)
  · obtain ⟨c, floor, hproposed⟩ := hrefused.exists_asked
    obtain ⟨arrival, harrival, hevent, _⟩ := h.exists_arrival hproposed
    exact ⟨arrival, harrival, _, hevent, hrefused.backs _ _, fun slot hslot =>
      absurd hslot hrefused.ne_ack⟩
  · obtain ⟨arrival, harrival, hevent, hlength⟩ := h.exists_arrival hproposed
    have hattested := h.inOrder.replays.attested
    refine ⟨arrival, harrival, _, hevent, hverdict.backs fun accepted => ?_, fun slot' hslot => ?_⟩
    · refine (hattested.shows _ a ha accepted).resolve_right ?_
      rintro ⟨tid, habort, hnone⟩
      rw [habort] at hproposed
      exact h.recorded hproposed (Slot.le_iff_toNat.1 hle) hnone
    · cases hverdict with
      | acknowledged accepted kind =>
          cases hslot
          exact ⟨a, ha, rfl, accepted, by rw [hlength]; exact Slot.le_iff_toNat.1 hle⟩
      | _ => cases hslot

/-! ### An answer behind a gap -/

/-- A replica learns from another one that the transfer it is asked for is chosen, and not what
stands at the slot before. -/
def learning : List (Duration × Event) :=
  [(⟨5⟩, .request ⟨0⟩ (.transfer ⟨7⟩ ⟨⟨1⟩, ⟨2⟩, 3⟩)),
    (⟨6⟩, .message ⟨2⟩ (.chosen ⟨⟨1⟩, ⟨1, ⟨2⟩⟩, .transfer ⟨7⟩ ⟨⟨1⟩, ⟨2⟩, 3⟩⟩))]

/-- It is told of that, too. -/
def filling : Duration × Event :=
  (⟨7⟩, .message ⟨2⟩ (.chosen ⟨.first, ⟨1, ⟨2⟩⟩, .transfer ⟨8⟩ ⟨⟨2⟩, ⟨1⟩, 1⟩⟩))

def learnt : Replica := ((start (Group.pair.topology ⟨1⟩) {}).handleAll learning).2

theorem waits_learnt : learnt.books.applied = [] ∧
    learnt.awaiting.get? ⟨1⟩ = some [⟨⟨0⟩, ⟨7⟩, .ack⟩] := by
  decide +kernel

/-- The answer comes when the gap is filled. -/
theorem exists_filled : ∃ p ∈ learnt.step? filling,
    .respond ⟨0⟩ (.ack (some ⟨1⟩)) ∈ p.1.actions ∧
      p.1.after.books.applied.map (·.entry.command) =
        [.transfer ⟨8⟩ ⟨⟨2⟩, ⟨1⟩, 1⟩, .transfer ⟨7⟩ ⟨⟨1⟩, ⟨2⟩, 3⟩] := by
  decide +kernel

theorem answers_hold_gap : ∃ steps s r,
    Career (start (Group.pair.topology ⟨1⟩) {}) (steps ++ [s]) r ∧
      s.before.books.applied = [] ∧ s.before.awaiting.get? ⟨1⟩ = some [⟨⟨0⟩, ⟨7⟩, .ack⟩] ∧
      .respond ⟨0⟩ (.ack (some ⟨1⟩)) ∈ s.actions ∧
      r.books.transfers.get? ⟨7⟩ = some ⟨⟨1⟩, ⟨2⟩, 3⟩ ∧
      ∃ a, r.books.applied[1]? = some a ∧ a.entry.command = .transfer ⟨7⟩ ⟨⟨1⟩, ⟨2⟩, 3⟩ ∧
        ∀ reason, a.outcome ≠ .rejected reason := by
  obtain ⟨⟨s, r⟩, hstep, hm, hcommands⟩ := exists_filled
  obtain ⟨hbefore, _, handled, rfl⟩ := step?_eq_some_iff.1 hstep
  have hlearnt : Career (start (Group.pair.topology ⟨1⟩) {}) _ learnt := career_handleAll _ learning
  rw [← hbefore] at hlearnt
  have hcareer := hlearnt.step handled
  obtain ⟨hnone, hwaiting⟩ := waits_learnt
  rw [← hbefore] at hnone hwaiting
  obtain ⟨_, _, request, _, hbacks, hslot⟩ := answers_hold hcareer hm
  obtain ⟨a, happlied, rfl, accepted, _⟩ := hslot ⟨1⟩ rfl
  have ha : s.after.books.applied[1]? = some a := happlied
  have hcommand : a.entry.command = .transfer ⟨7⟩ ⟨⟨1⟩, ⟨2⟩, 3⟩ := by
    have hentry : (s.after.books.applied.map (·.entry.command))[1]? = _ :=
      congrArg (·[1]?) hcommands
    rw [List.getElem?_map, ha] at hentry
    exact Option.some.inj hentry
  rw [hcommand] at hbacks
  exact ⟨_, s, _, hcareer, hnone, hwaiting, hm, hbacks, a, ha, hcommand, accepted⟩

end Replica

end ReplicatedLedger
