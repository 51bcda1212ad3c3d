import ReplicatedLedger.Proofs.Replica.Career

/-!
The bookkeeping of requests.  A replica answers each request that it receives once, and until then
holds it in one place: with its proposal while that is under way, or at the slot of its command.
-/

namespace ReplicatedLedger

/-- The id of the request that arrives with an event. -/
def Event.requestId? : Event → Option RequestId
  | .request id _ => some id
  | .timer _ | .message .. => none

namespace Replica

def pendingIds (r : Replica) : List RequestId := r.pending.values.map (·.id)

def awaitingIds (r : Replica) : List RequestId := r.awaiting.values.flatten.map (·.id)

def unanswered (r : Replica) : List RequestId := r.pendingIds ++ r.awaitingIds

variable {asked : RequestId → Command → Slot → Prop} {balance : Amount} {r r' r₁ r₂ : Replica}
  {steps : List Step} {s : Step} {t : Topology} {policy : ReplicaPolicy} {e : Event}
  {actions said failures : List Action} {id : RequestId} {docket : List Submission} {slot : Slot}
  {waiting : List PendingRequest} {request : PendingRequest} {proposal : ProposalId}

/-! ### One step -/

/-- Pending requests are those under one key and those under the others. -/
theorem pendingIds_perm {pending rest : SortedMap ProposalId PendingRequest}
    (h : pending.toList.Perm ((proposal, request) :: rest.toList)) :
    (pending.values.map (·.id)).Perm (request.id :: rest.values.map (·.id)) :=
  (h.map Prod.snd).map (·.id)

/-- Awaiting requests are those for one slot and those for the others. -/
theorem awaitingIds_perm {awaiting rest : SortedMap Slot (List PendingRequest)}
    (h : awaiting.toList.Perm ((slot, waiting) :: rest.toList)) :
    (awaiting.values.flatten.map (·.id)).Perm
      (waiting.map (·.id) ++ rest.values.flatten.map (·.id)) := by
  have hflat := ((h.map Prod.snd).flatten).map (·.id)
  rwa [List.map_cons, List.flatten_cons, List.map_append] at hflat

theorem awaitingIds_perm_erase (r : Replica) (slot : Slot) :
    r.awaitingIds.Perm (((r.awaiting.get? slot).getD []).map (·.id) ++
      (r.awaiting.erase slot).values.flatten.map (·.id)) := by
  cases hslot : r.awaiting.get? slot with
  | some waiting => exact awaitingIds_perm (SortedMap.toList_perm_erase hslot)
  | none =>
      rw [SortedMap.erase_of_get?_eq_none hslot]
      exact .refl _

/-- A request is kept with its proposal, under a new key. -/
theorem unanswered_submit (r : Replica) (log : ReplicatedLog)
    (hfresh : r.pending.get? proposal = none) :
    Replica.unanswered { r with log := log, pending := r.pending.insert proposal request } |>.Perm
      (request.id :: r.unanswered) := by
  have hinsert := SortedMap.toList_insert_perm r.pending proposal request
  rw [SortedMap.erase_of_get?_eq_none hfresh] at hinsert
  exact (pendingIds_perm hinsert).append_right r.awaitingIds

/-- A completion answers its request or takes it on to its slot. -/
theorem onCompletion_perm (r : Replica) (x : Completion) :
    (answered (r.onCompletion x).2 ++ (r.onCompletion x).1.unanswered).Perm r.unanswered := by
  unfold onCompletion
  split
  · exact .refl _
  · next request hrequest =>
    have hpending := pendingIds_perm (SortedMap.toList_perm_erase hrequest)
    dsimp only
    split
    · next slot _ =>
      have hold := r.awaitingIds_perm_erase slot
      have hnew := awaitingIds_perm (SortedMap.toList_insert_perm r.awaiting slot
        ((r.awaiting.get? slot).getD [] ++ [request]))
      refine List.perm_iff_count.2 fun id => ?_
      have hpending := hpending.count_eq id
      have hold := hold.count_eq id
      have hnew := hnew.count_eq id
      simp only [unanswered, pendingIds, awaitingIds, answered, List.filterMap_nil, List.nil_append,
        List.count_append, List.map_append, List.map_cons, List.map_nil, List.count_cons,
        List.count_nil] at *
      omega
    · rw [show answered [request.fail _] = [request.id] by simp [answered]]
      exact (hpending.append_right r.awaitingIds).symm

theorem onCompletions_perm (r : Replica) (done : List Completion) :
    (answered (r.onCompletions done).2 ++ (r.onCompletions done).1.unanswered).Perm
      r.unanswered := by
  induction done generalizing r with
  | nil => exact .refl _
  | cons x done ih =>
      refine .trans ?_ (r.onCompletion_perm x)
      show (answered (_ ++ _) ++ _).Perm _
      rw [answered_append, List.append_assoc]
      exact (ih (r.onCompletion x).1).append_left _

theorem gather_perm (h : r.gather = .ok (r', actions)) :
    (answered actions ++ r'.unanswered).Perm r.unanswered := by
  obtain ⟨log, books, ready, _, _, hcompletions, _, _⟩ := gather_eq_ok h
  have hperm := onCompletions_perm ⟨log.takeCompletions.1, books, r.pending, r.awaiting, r.now⟩
    log.completions
  rw [hcompletions] at hperm
  exact hperm

theorem addressee?_answerApplied (b : Books) (slot : Slot) (request : PendingRequest) :
    addressee? (answerApplied b slot request) = some request.id := by
  unfold answerApplied
  split
  · exact addressee?_fail _ _
  · exact addressee?_fail _ _
  · split
    · rfl
    · split
      · rfl
      · rfl
      · exact addressee?_fail _ _
      · exact addressee?_fail _ _

theorem dismissReady_perm (r : Replica) :
    (answered r.answers ++ r.dismissReady.unanswered).Perm r.unanswered := by
  have hanswers : answered r.answers = (r.ready.map (·.2)).flatten.map (·.id) := by
    unfold answered answers
    rw [List.filterMap_flatMap, List.map_flatten, List.map_map, ← List.flatMap_def]
    refine List.flatMap_congr fun pair _ => ?_
    have hid : addressee? ∘ answerApplied r.books pair.1 = some ∘ fun request => request.id :=
      funext fun request => addressee?_answerApplied _ _ request
    rw [List.filterMap_map, hid, List.filterMap_eq_map]
    rfl
  have hawaiting : r.awaitingIds.Perm
      ((r.ready.map (·.2)).flatten.map (·.id) ++ r.dismissReady.awaitingIds) := by
    have hsplit := r.awaiting.perm_below_atOrAbove r.books.nextSlot
    rw [← r.awaiting_dismissReady] at hsplit
    have hflat := ((hsplit.map Prod.snd).flatten).map (·.id)
    rwa [List.map_append, List.flatten_append, List.map_append] at hflat
  rw [hanswers]
  refine List.perm_iff_count.2 fun id => ?_
  have hcount := hawaiting.count_eq id
  have hpending : r.dismissReady.pendingIds = r.pendingIds := rfl
  simp only [unanswered, hpending, List.count_append] at *
  omega

theorem settle_perm (h : r.settle = .ok (r', actions)) :
    (answered actions ++ r'.unanswered).Perm r.unanswered := by
  obtain ⟨r₁, failures, hgather, rfl, rfl⟩ := settle_eq_ok_iff.1 h
  rw [answered_append, List.append_assoc]
  exact (r₁.dismissReady_perm.append_left _).trans (gather_perm hgather)

/-- A request that arrives is answered at once or kept pending, and no other event adds to them. -/
theorem AtRest.onEvent_perm (h : r.AtRest asked) (hl : r.log.Coherent) (hs : r.log.Settled)
    (hevent : r.onEvent e = .ok (r', actions)) :
    (answered actions ++ r'.unanswered).Perm (e.requestId?.toList ++ r.unanswered) := by
  have onLog : ∀ {e log said}, r.log.handle e = .ok (log, said) →
      answered said ++ Replica.unanswered { r with log := log } = r.unanswered := by
    intro e log said hhandle
    rw [answered_eq_nil (ReplicatedLog.handle_wordless hl hs hhandle)]
    rfl
  cases e with
  | request id request =>
      rcases onRequest_cases hevent with
        ⟨c, log, proposal, rfl, _, hpropose, rfl⟩ | ⟨⟨partition, rfl⟩, hanswered⟩
      · obtain ⟨hid, _⟩ := ReplicatedLog.id_of_propose hl hs hpropose
        -- the id of the proposal is new, so that no pending request is displaced
        have hfresh : r.pending.get? proposal = none := by
          by_contra hsome
          obtain ⟨request, hrequest⟩ := Option.ne_none_iff_exists'.1 hsome
          obtain ⟨s, hs, rfl⟩ := h.tracks.submitted proposal request hrequest
          exact absurd hid (UInt64.ne_of_lt (h.tracks.numbered s hs))
        rw [answered_eq_nil (ReplicatedLog.propose_wordless hl hs hpropose)]
        exact r.unanswered_submit log hfresh
      · rw [hanswered]
        exact .refl _
  | timer t =>
      obtain ⟨⟨log, said⟩, hhandle, hr'⟩ := map_eq_ok_iff.1 hevent
      cases hr'
      exact .of_eq (onLog hhandle)
  | message sender m =>
      obtain ⟨⟨log, said⟩, hhandle, hr'⟩ := map_eq_ok_iff.1 hevent
      cases hr'
      exact .of_eq (onLog hhandle)

/-- Over one step, what is answered and what is left is what arrived and what there was. -/
theorem InOrder.handle_perm (h : r.InOrder balance asked)
    (handled : Machine.handle r e = .ok (r', actions)) :
    (answered actions ++ r'.unanswered).Perm (e.requestId?.toList ++ r.unanswered) := by
  obtain ⟨⟨r₁, said⟩, hevent, handled⟩ := bind_eq_ok_iff.1 handled
  obtain ⟨⟨r₂, answers⟩, hsettle, handled⟩ := bind_eq_ok_iff.1 handled
  cases handled
  rw [answered_append, List.append_assoc]
  exact ((settle_perm hsettle).append_left _).trans
    (h.atRest.onEvent_perm h.coherent h.settled hevent)

/-! ### Whole careers -/

def received (steps : List Step) : List RequestId := steps.filterMap (·.event.requestId?)

/-- The ids of the requests that were answered, once for each answer. -/
def answeredIds (steps : List Step) : List RequestId := steps.flatMap fun s => answered s.actions

/-- Every request that was received is answered or still held, and none is twice. -/
theorem Career.ids_perm (h : Career (start t policy) steps r) :
    (answeredIds steps ++ r.unanswered).Perm (received steps) := by
  induction h with
  | rest => exact .refl _
  | @step steps s earlier handled ih =>
      have hstep : (answered s.actions ++ s.after.unanswered).Perm
          (s.event.requestId?.toList ++ s.before.unanswered) :=
        (earlier.inOrder.setTime s.time).handle_perm handled
      have hanswered : answeredIds (steps ++ [s]) = answeredIds steps ++ answered s.actions := by
        simp [answeredIds]
      have hreceived : received (steps ++ [s]) = received steps ++ s.event.requestId?.toList := by
        cases hid : s.event.requestId? <;> simp [received, hid]
      rw [hanswered, hreceived]
      refine List.perm_iff_count.2 fun id => ?_
      have hstep := hstep.count_eq id
      have ih := ih.count_eq id
      simp only [List.count_append] at *
      omega

/-! ### Requests that become ready -/

/-- Whether an answer is found in the books for a request at a slot: the slot is applied, and the
transaction that a vote is asked for is recorded unless the entry was rejected. -/
def Answerable (b : Books) (slot : Slot) (request : PendingRequest) : Prop :=
  ∃ outcome, b.outcome? slot = some outcome ∧
    ((∀ reason, outcome ≠ .rejected reason) → request.reply = .vote →
      ∃ state, b.participants.state? request.tid = some state)

theorem Tracks.answerable (h : r.Tracks asked docket) (hr : r.Replays balance)
    (hready : (slot, waiting) ∈ r.ready) (hrequest : request ∈ waiting) :
    Answerable r.books slot request := by
  obtain ⟨s, a, seeks, _, ha, hcommand⟩ := h.applied hr hready hrequest
  refine ⟨a.outcome, ?_, fun accepted hvote => ?_⟩
  · unfold Books.outcome?
    rw [ha, Option.map_some]
  · rw [seeks.reply, ← hcommand] at hvote
    rw [seeks.tid, ← hcommand]
    have hshows := hr.attested.shows _ a ha accepted
    cases hprepare : a.entry.command with
    | prepare tid txn =>
        rw [hprepare] at hshows
        obtain ⟨record, found, _⟩ := hshows.resolve_right (by simp)
        exact ⟨record.state, Participants.state?_of_find? found⟩
    | _ =>
        rw [hprepare] at hvote
        cases hvote

/-- After any event, all requests that are ready once the log is drained can be answered. -/
theorem InOrder.answerable (h : r.InOrder balance asked)
    (hevent : r.onEvent e = .ok (r₁, said)) (hgather : r₁.gather = .ok (r₂, failures))
    (hready : (slot, waiting) ∈ r₂.ready) (hrequest : request ∈ waiting) :
    Answerable r₂.books slot request := by
  have hmoved : Advances (fun _ _ => True) (fun _ => True) r said [] r₁ :=
    onEvent_advances h.coherent h.settled (fun _ _ _ => trivial) (fun _ _ _ => trivial) hevent
  obtain ⟨ready, hgathered⟩ : ∃ ready, Advances (fun _ _ => True) (fun _ => True) r₁ failures ready r₂ :=
    gather_advances hmoved.settled hgather
  have hreplays : r₂.Replays balance := h.replays.advances h.coherent (hmoved.trans hgathered)
  have hopen : r.AtRest fun _ _ _ => True := h.atRest.imp fun _ _ _ _ => trivial
  obtain ⟨docket, haccounts, htracks⟩ :=
    hopen.onEvent h.coherent h.settled (fun _ _ _ _ => trivial) hevent
  exact (htracks.gather haccounts hgather).1.1.answerable hreplays hready hrequest

/-- Every request is answered at most once and none is lost.  As long as the ids of the requests are
distinct, each that was received is answered by one response, or held with its proposal, or held at
the slot of its command.  The proposals under way are those that the log has not decided, no
completion is left over, the slots are chosen and not yet applied, and whatever becomes ready by a
further event finds its answer in the books. -/
theorem requests_kept (h : Career (start t policy) steps r) (distinct : (received steps).Nodup) :
    (∀ id ∈ received steps,
      (answeredIds steps).count id + r.pendingIds.count id + r.awaitingIds.count id = 1) ∧
    (∀ id ∉ received steps, id ∉ answeredIds steps ∧ id ∉ r.unanswered) ∧
    (∀ s ∈ r.log.undecided, ∃ request, r.pending.get? s.id = some request ∧
      ∃ arrival ∈ steps, arrival.event = .request request.id s.command.request) ∧
    (∀ proposal request, r.pending.get? proposal = some request →
      ∃ s ∈ r.log.undecided, s.id = proposal) ∧
    r.log.completions = [] ∧
    (∀ slot waiting, r.awaiting.get? slot = some waiting →
      (∃ e, r.log.chosen.get? slot = some e) ∧ r.books.nextSlot ≤ slot) ∧
    ∀ now e r₁ said r₂ failures, (Machine.setTime r now).onEvent e = .ok (r₁, said) →
      r₁.gather = .ok (r₂, failures) → ∀ slot waiting, (slot, waiting) ∈ r₂.ready →
        ∀ request ∈ waiting, Answerable r₂.books slot request := by
  have horder := h.inOrder
  have hperm := h.ids_perm
  refine ⟨fun id hid => ?_, fun id hid => ?_, fun s hs => ?_, horder.atRest.tracks.submitted,
    horder.atRest.completed, fun slot waiting hslot => ?_, ?_⟩
  · have hcount := hperm.count_eq id
    rw [List.count_eq_one_of_mem distinct hid, List.count_append, unanswered,
      List.count_append] at hcount
    omega
  · rw [← hperm.mem_iff, List.mem_append, not_or] at hid
    exact hid
  · obtain ⟨request, hrequest, seeks⟩ := horder.atRest.tracks.pending s hs
    obtain ⟨arrival, harrival, hevent, _⟩ := h.exists_arrival seeks.asked
    exact ⟨request, hrequest, arrival, harrival, hevent⟩
  · obtain ⟨e, he, _⟩ := horder.atRest.tracks.awaiting slot waiting hslot
    exact ⟨⟨e, he⟩, horder.atRest.behind slot waiting hslot⟩
  · intro now e r₁ said r₂ failures hevent hgather slot waiting hready request hrequest
    exact (horder.setTime now).answerable hevent hgather hready hrequest

/-- One request waits for the other replica, and the next is answered at once. -/
theorem requests_kept_pair : ∃ steps r,
    Career (start (Group.pair.topology ⟨1⟩) {}) steps r ∧ received steps = [⟨0⟩, ⟨1⟩] ∧
      r.pendingIds = [⟨0⟩] ∧ answeredIds steps = [⟨1⟩] ∧ (∀ id ∈ received steps,
        (answeredIds steps).count id + r.pendingIds.count id + r.awaitingIds.count id = 1) := by
  obtain ⟨r, actions, hhandle, r', hhandle', hanswered, hpending⟩ : ∃ r actions,
      Machine.handle (Machine.setTime (start (Group.pair.topology ⟨1⟩) {}) ⟨5⟩)
          (.request ⟨0⟩ (.transfer ⟨7⟩ ⟨⟨1⟩, ⟨2⟩, 3⟩)) = .ok (r, actions) ∧
        ∃ r', Machine.handle (Machine.setTime r ⟨6⟩) (.request ⟨1⟩ .logs) =
          .ok (r', [.respond ⟨1⟩ (.logs [])]) ∧
        answered actions = [] ∧ r'.pendingIds = [⟨0⟩] :=
    ⟨_, _, rfl, _, rfl, rfl, rfl⟩
  let s : Step := ⟨start (Group.pair.topology ⟨1⟩) {}, ⟨5⟩,
    .request ⟨0⟩ (.transfer ⟨7⟩ ⟨⟨1⟩, ⟨2⟩, 3⟩), r, actions⟩
  let s' : Step := ⟨r, ⟨6⟩, .request ⟨1⟩ .logs, r', [.respond ⟨1⟩ (.logs [])]⟩
  have hcareer : Career (start (Group.pair.topology ⟨1⟩) {}) [s, s'] r' :=
    .step (s := s') (.step (s := s) .rest hhandle) hhandle'
  have hanswers : answeredIds [s, s'] = [⟨1⟩] := by
    show answered actions ++ _ = _
    rw [hanswered]
    rfl
  have hreceived : received [s, s'] = [⟨0⟩, ⟨1⟩] := rfl
  have distinct : (received [s, s']).Nodup := by
    rw [hreceived]
    decide
  exact ⟨_, r', hcareer, hreceived, hpending, hanswers, (requests_kept hcareer distinct).1⟩

end Replica

end ReplicatedLedger
