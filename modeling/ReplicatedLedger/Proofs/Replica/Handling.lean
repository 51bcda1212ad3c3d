import ReplicatedLedger.Proofs.Books.Replay
import ReplicatedLedger.Proofs.Consensus.Handling
import ReplicatedLedger.Replica

/-!
What an event does to the two halves of a replica: a chain of moves of its log, and the application
to its books of exactly the entries that the log handed out on the way.
-/

namespace ReplicatedLedger

/-- The command that a request asks the replicas to agree on. -/
def Request.command? : Request → Option Command
  | .transfer tid txn => some (.transfer tid txn)
  | .prepare tid txn => some (.prepare tid txn)
  | .commit tid => some (.commit tid)
  | .abort tid => some (.abort tid)
  | .disconnect _ | .reconnect _ | .logs | .balance _ => none

def Event.command? : Event → Option Command
  | .request _ asked => asked.command?
  | .timer _ | .message .. => none

def Event.message? : Event → Option (ReplicaId × Message)
  | .message sender m => some (sender, m)
  | .timer _ | .request .. => none

/-- The request that asks for a command. -/
def Command.request : Command → Request
  | .transfer tid txn => .transfer tid txn
  | .prepare tid txn => .prepare tid txn
  | .commit tid => .commit tid
  | .abort tid => .abort tid

/-- How a request for a command is answered. -/
def Command.reply : Command → ReplyKind
  | .prepare .. => .vote
  | .transfer .. | .commit _ | .abort _ => .ack

@[simp] theorem Command.command?_request (c : Command) : c.request.command? = some c := by
  cases c <;> rfl

theorem Request.command?_eq_some_iff {request : Request} {c : Command} :
    request.command? = some c ↔ request = c.request := by
  constructor
  · intro h
    cases request <;> cases h <;> rfl
  · rintro rfl
    exact c.command?_request

theorem Event.command?_eq_some_iff {e : Event} {c : Command} :
    e.command? = some c ↔ ∃ id, e = .request id c.request := by
  cases e with
  | request id request =>
      show request.command? = some c ↔ _
      rw [Request.command?_eq_some_iff]
      simp
  | timer t => simp [Event.command?]
  | message sender m => simp [Event.command?]

/-- A request asks for a command, or it concerns the replica alone. -/
theorem Request.byCommand {motive : Request → Prop}
    (command : ∀ c : Command, motive c.request)
    (disconnect : ∀ peers, motive (.disconnect peers))
    (reconnect : ∀ peers, motive (.reconnect peers)) (logs : motive .logs)
    (balance : ∀ account, motive (.balance account)) (request : Request) : motive request := by
  cases request with
  | transfer tid txn => exact command (.transfer tid txn)
  | prepare tid txn => exact command (.prepare tid txn)
  | commit tid => exact command (.commit tid)
  | abort tid => exact command (.abort tid)
  | disconnect peers => exact disconnect peers
  | reconnect peers => exact reconnect peers
  | logs => exact logs
  | balance account => exact balance account

/-- The check that the request for a command has to pass. -/
def Books.admission (b : Books) : Command → Except Fault (Except LedgerError Admission)
  | .transfer tid txn => b.checkTransfer tid txn
  | .prepare tid txn => b.checkPrepare tid txn
  | .commit tid => .ok (b.checkCommit tid)
  | .abort tid => .ok (b.checkAbort tid)

namespace Replica

/-- All commands are asked for in the same way. -/
theorem onRequest_command (r : Replica) (id : RequestId) (c : Command) :
    r.onRequest id c.request =
      r.books.admission c >>= fun admission => r.consider ⟨id, c.tid, c.reply⟩ c admission := by
  cases c <;> rfl

/-- What has become applicable is applied, and the requests of completed proposals move on. -/
def gather (r : Replica) : Except Fault (Replica × List Action) := do
  let (log, entries) ← r.log.drainApplicable
  let books ← r.books.applyAll entries
  return { r with log := log.takeCompletions.1, books := books }.onCompletions log.completions

/-- The requests whose slots have been applied. -/
def ready (r : Replica) : List (Slot × List PendingRequest) := r.awaiting.below r.books.nextSlot

/-- The answers to the requests whose slots have been applied. -/
def answers (r : Replica) : List Action :=
  r.ready.flatMap fun p => p.2.map (answerApplied r.books p.1)

/-- The replica once these answers are given. -/
def dismissReady (r : Replica) : Replica :=
  { r with awaiting := r.ready.foldl (fun m p => m.erase p.1) r.awaiting }

/-- Settling is gathering, and then answering what is ready. -/
theorem settle_eq_ok_iff {r r' : Replica} {actions : List Action} :
    r.settle = .ok (r', actions) ↔ ∃ r₁ failures, r.gather = .ok (r₁, failures) ∧
      r' = r₁.dismissReady ∧ actions = failures ++ r₁.answers := by
  unfold settle gather
  simp only [bind_eq_ok_iff, pure_eq_ok_iff]
  constructor
  · rintro ⟨drained, hdrain, books, hbooks, h⟩
    cases h
    exact ⟨_, _, ⟨drained, hdrain, books, hbooks, rfl⟩, rfl, rfl⟩
  · rintro ⟨r₁, failures, ⟨drained, hdrain, books, hbooks, h⟩, rfl, rfl⟩
    refine ⟨drained, hdrain, books, hbooks, ?_⟩
    simp only [ReplicatedLog.takeCompletions] at h ⊢
    rw [h]
    rfl

open ReplicatedLog (Moves Move)

/-- A stretch of a replica's step. -/
structure Advances (heard : ReplicaId → Message → Prop) (wanted : Command → Prop) (r : Replica)
    (actions : List Action) (ready : List LogEntry) (r' : Replica) : Prop where
  moves : Moves heard wanted r.log actions ready r'.log
  settled : r'.log.Settled
  books : r.books.applyAll ready = .ok r'.books

variable {heard : ReplicaId → Message → Prop} {wanted : Command → Prop} {r r' r'' : Replica}
  {actions more : List Action}
  {ready ready' : List LogEntry} {request : PendingRequest} {c : Command} {id : RequestId}

namespace Advances

theorem trans (h : Advances heard wanted r actions ready r')
    (h' : Advances heard wanted r' more ready' r'') :
    Advances heard wanted r (actions ++ more) (ready ++ ready') r'' where
  moves := h.moves.trans h'.moves
  settled := h'.settled
  books := Books.applyAll_append_eq_ok_iff.2 ⟨_, h.books, h'.books⟩

/-- Answers to clients concern neither the log nor the books. -/
theorem responding (h : r.log.Settled)
    (silent : ∀ receiver m, Action.send receiver m ∉ actions) :
    Advances heard wanted r actions [] r :=
  ⟨Moves.saying fun receiver m hm => absurd hm (silent receiver m), h, rfl⟩

end Advances

/-! ### Requests -/

theorem send_ne_fail {receiver : ReplicaId} {m : Message} (request : PendingRequest)
    (reason : LedgerError) : Action.send receiver m ≠ request.fail reason := by
  unfold PendingRequest.fail
  split <;> exact Action.noConfusion

theorem send_ne_settled {receiver : ReplicaId} {m : Message} (request : PendingRequest) :
    Action.send receiver m ≠ request.settled := by
  unfold PendingRequest.settled
  split <;> exact Action.noConfusion

theorem consider_advances {admission : Except LedgerError Books.Admission}
    (hl : r.log.Coherent) (hs : r.log.Settled) (due : admission = .ok .propose → wanted c)
    (h : r.consider request c admission = .ok (r', actions)) : Advances heard wanted r actions [] r' := by
  unfold consider at h
  split at h
  · cases h
    refine .responding hs fun receiver m hm => ?_
    exact send_ne_fail _ _ (List.mem_singleton.1 hm)
  · cases h
    refine .responding hs fun receiver m hm => ?_
    exact send_ne_settled _ (List.mem_singleton.1 hm)
  · obtain ⟨⟨log, proposal, said⟩, hpropose, h⟩ := bind_eq_ok_iff.1 h
    cases h
    obtain ⟨hmoves, hsettled⟩ := ReplicatedLog.propose_moves hl hs (due rfl) hpropose
    exact ⟨hmoves, hsettled, rfl⟩

theorem withPartition_advances (hs : r.log.Settled) (partition : Partition) :
    Advances heard wanted r [] [] (r.withPartition partition) :=
  ⟨(Move.repartition partition).single, hs, rfl⟩

theorem onRequest_advances {asked : Request} (hl : r.log.Coherent) (hs : r.log.Settled)
    (due : ∀ c, asked.command? = some c → r.books.admission c = .ok (.ok .propose) → wanted c)
    (h : r.onRequest id asked = .ok (r', actions)) : Advances heard wanted r actions [] r' := by
  cases asked using Request.byCommand with
  | command c =>
      rw [onRequest_command] at h
      obtain ⟨admission, hadmission, h⟩ := bind_eq_ok_iff.1 h
      refine consider_advances hl hs (fun hpropose => due c c.command?_request ?_) h
      rw [hadmission, hpropose]
  | disconnect peers =>
      cases h
      exact (withPartition_advances hs _).trans (.responding hs (by simp))
  | reconnect peers =>
      obtain ⟨requests, hrequests, h⟩ := bind_eq_ok_iff.1 h
      cases h
      have hrequest : Advances heard wanted (r.withPartition (r.partition.reconnect peers)) requests []
          (r.withPartition (r.partition.reconnect peers)) :=
        ⟨ReplicatedLog.requestCatchUp_moves hrequests, hs, rfl⟩
      exact ((withPartition_advances hs _).trans hrequest).trans (.responding hs (by simp))
  | logs =>
      cases h
      exact .responding hs (by simp)
  | balance account =>
      cases h
      exact .responding hs (by simp)

/-! ### Settling -/

theorem log_onCompletion (r : Replica) (done : Completion) :
    (r.onCompletion done).1.log = r.log ∧ (r.onCompletion done).1.books = r.books := by
  unfold onCompletion
  split
  · exact ⟨rfl, rfl⟩
  · split <;> exact ⟨rfl, rfl⟩

theorem onCompletion_silent {done : Completion} {receiver : ReplicaId} {m : Message} :
    Action.send receiver m ∉ (r.onCompletion done).2 := by
  unfold onCompletion
  split
  · exact List.not_mem_nil
  · split
    · exact List.not_mem_nil
    · exact fun hm => send_ne_fail _ _ (List.mem_singleton.1 hm)

theorem log_onCompletions (r : Replica) (done : List Completion) :
    (r.onCompletions done).1.log = r.log ∧ (r.onCompletions done).1.books = r.books := by
  induction done generalizing r with
  | nil => exact ⟨rfl, rfl⟩
  | cons first rest ih =>
      obtain ⟨hlog, hbooks⟩ := r.log_onCompletion first
      obtain ⟨hlog', hbooks'⟩ := ih (r.onCompletion first).1
      exact ⟨hlog'.trans hlog, hbooks'.trans hbooks⟩

theorem onCompletions_silent {done : List Completion} {receiver : ReplicaId} {m : Message} :
    Action.send receiver m ∉ (r.onCompletions done).2 := by
  induction done generalizing r with
  | nil => exact List.not_mem_nil
  | cons first rest ih =>
      intro hm
      rcases List.mem_append.1 hm with hm | hm
      · exact onCompletion_silent hm
      · exact ih hm

theorem send_ne_answerApplied {receiver : ReplicaId} {m : Message} (b : Books) (s : Slot)
    (request : PendingRequest) : Action.send receiver m ≠ answerApplied b s request := by
  unfold answerApplied
  split
  · exact send_ne_fail _ _
  · exact send_ne_fail _ _
  · split
    · exact Action.noConfusion
    · split
      · exact Action.noConfusion
      · exact Action.noConfusion
      · exact send_ne_fail _ _
      · exact send_ne_fail _ _

theorem gather_eq_ok (h : r.gather = .ok (r', actions)) :
    ∃ log books ready, r.log.drainApplicable = .ok (log, ready) ∧
      r.books.applyAll ready = .ok books ∧
      (⟨log.takeCompletions.1, books, r.pending, r.awaiting, r.now⟩ : Replica).onCompletions
        log.completions = (r', actions) ∧
      r'.log = log.takeCompletions.1 ∧ r'.books = books := by
  obtain ⟨⟨log, ready⟩, hdrain, h⟩ := bind_eq_ok_iff.1 h
  obtain ⟨books, hbooks, h⟩ := bind_eq_ok_iff.1 h
  rw [pure_eq_ok_iff] at h
  let applied : Replica := { r with log := log.takeCompletions.1, books := books }
  obtain ⟨hlog, hbooks'⟩ := applied.log_onCompletions log.completions
  have hr' : (applied.onCompletions log.completions).1 = r' := congrArg Prod.fst h
  rw [hr'] at hlog hbooks'
  exact ⟨log, books, ready, hdrain, hbooks, h, hlog, hbooks'⟩

theorem gather_advances (hs : r.log.Settled) (h : r.gather = .ok (r', actions)) :
    ∃ ready, Advances heard wanted r actions ready r' := by
  obtain ⟨log, books, ready, hdrain, hbooks, hcompletions, hlog, hbooks'⟩ := gather_eq_ok h
  obtain ⟨hmoves, hsettled⟩ : Moves heard wanted r.log [] ready log ∧ log.Settled :=
    ReplicatedLog.drainApplicable_moves hs hdrain
  have htaken : Moves heard wanted r.log [] ready r'.log := by
    have hmoves' := hmoves.trans Move.handOver.single
    rw [List.append_nil, List.append_nil] at hmoves'
    rw [hlog]
    exact hmoves'
  have hsettled' : r'.log.Settled := by
    rw [hlog]
    exact hsettled
  have happlied : Advances heard wanted r [] ready r' := ⟨htaken, hsettled', by rw [hbooks', hbooks]⟩
  have hanswered : Advances heard wanted r' actions [] r' := by
    refine .responding hsettled' fun receiver m hm => ?_
    rw [show actions = _ from (congrArg Prod.snd hcompletions).symm] at hm
    exact onCompletions_silent hm
  have h := happlied.trans hanswered
  rw [List.append_nil] at h
  exact ⟨ready, h⟩

theorem settle_advances (hs : r.log.Settled) (h : r.settle = .ok (r', actions)) :
    ∃ ready, Advances heard wanted r actions ready r' := by
  obtain ⟨r₁, failures, hgather, rfl, rfl⟩ := settle_eq_ok_iff.1 h
  obtain ⟨ready, hgathered⟩ : ∃ ready, Advances heard wanted r failures ready r₁ :=
    gather_advances hs hgather
  have hanswered : Advances heard wanted r₁ r₁.answers [] r₁ := by
    refine .responding hgathered.settled fun receiver m hm => ?_
    obtain ⟨pair, _, hm⟩ := List.mem_flatMap.1 hm
    obtain ⟨request, _, hm⟩ := List.mem_map.1 hm
    exact absurd hm.symm (send_ne_answerApplied _ _ _)
  have h := hgathered.trans hanswered
  rw [List.append_nil] at h
  exact ⟨ready, h.moves, h.settled, h.books⟩

/-- The event itself has nothing applied yet. -/
theorem onEvent_advances {e : Event} (hl : r.log.Coherent) (hs : r.log.Settled)
    (told : ∀ sender m, e = .message sender m → heard sender m)
    (due : ∀ c, e.command? = some c → r.books.admission c = .ok (.ok .propose) → wanted c)
    (h : r.onEvent e = .ok (r', actions)) : Advances heard wanted r actions [] r' := by
  cases e with
  | request id asked => exact onRequest_advances hl hs due h
  | timer t =>
      obtain ⟨⟨log, said⟩, hhandle, hr'⟩ := map_eq_ok_iff.1 h
      cases hr'
      obtain ⟨hmoves, hsettled⟩ := ReplicatedLog.handle_moves hl hs told hhandle
      exact ⟨hmoves, hsettled, rfl⟩
  | message sender m =>
      obtain ⟨⟨log, said⟩, hhandle, hr'⟩ := map_eq_ok_iff.1 h
      cases hr'
      obtain ⟨hmoves, hsettled⟩ := ReplicatedLog.handle_moves hl hs told hhandle
      exact ⟨hmoves, hsettled, rfl⟩

theorem handle_advances {e : Event} (hl : r.log.Coherent) (hs : r.log.Settled)
    (told : ∀ sender m, e = .message sender m → heard sender m)
    (due : ∀ c, e.command? = some c → r.books.admission c = .ok (.ok .propose) → wanted c)
    (h : r.handle e = .ok (r', actions)) : ∃ ready, Advances heard wanted r actions ready r' := by
  obtain ⟨⟨r₁, said⟩, hevent, h⟩ := bind_eq_ok_iff.1 h
  obtain ⟨⟨r₂, answers⟩, hsettle, h⟩ := bind_eq_ok_iff.1 h
  cases h
  have hmoved := onEvent_advances hl hs told due hevent
  obtain ⟨ready, hsettled⟩ := settle_advances hmoved.settled hsettle
  exact ⟨ready, hmoved.trans hsettled⟩

end Replica

end ReplicatedLedger
