import Mathlib.Logic.Relation
import ReplicatedLedger.Proofs.Simulation.Running

/-!
A transfer across shards among all else that goes on in a simulation.  The call is taken apart into
the submission of the prepare requests and, when the answers have been gathered, that of the
decision.  In between events happen and other requests are made, and the network does as it likes.
-/

namespace ReplicatedLedger

open Relation (ReflTransGen)

/-- The transaction that a request is about. -/
def Request.tid? : Request → Option Tid
  | .transfer tid _ | .prepare tid _ | .commit tid | .abort tid => some tid
  | .disconnect _ | .reconnect _ | .logs | .balance _ => none

namespace Simulation

/-! ### The course of a call -/

/-- How far the call has come. -/
inductive Stage where
  | before
  /-- The prepare requests have been submitted, under the ids given. -/
  | polled (submitted : List (ReplicaId × RequestId))
  /-- The decision has been submitted to all replicas concerned. -/
  | told (decision : Decision)

structure Moment where
  stage : Stage
  run : Simulation Replica

/-- The votes on a transfer, from the answers that have arrived by now. -/
def votesOn (s : Simulation Replica) (tid : Tid) (txn : Transaction)
    (submitted : List (ReplicaId × RequestId)) : VoteTally :=
  collectVotes s.routing (.start tid (s.routing.participants txn))
    (SortedMap.ofList (s.takeResponses submitted).1).toList

/-- Takes the answers that have arrived, and submits the decision that they lead to. -/
def tell (s : Simulation Replica) (tid : Tid) (txn : Transaction)
    (submitted : List (ReplicaId × RequestId)) : Except Fault (Simulation Replica) :=
  (·.2) <$> (s.takeResponses submitted).2.submitAll
    ((s.routing.members (s.routing.participants txn)).map
      (·, (s.votesOn tid txn submitted).verdict.request tid))

/-- What may happen next, if one call alone makes requests about `tid`.  Messages and requests that
are under way may be put off, lost, doubled or pass each other, and any timer may run out. -/
inductive Step (tid : Tid) (txn : Transaction) : Moment → Moment → Prop
  | event {stage : Stage} {s s' : Simulation Replica} (h : s.step? = .ok (some s')) :
      Step tid txn ⟨stage, s⟩ ⟨stage, s'⟩
  | submit {stage : Stage} {s s' : Simulation Replica} {site : ReplicaId} {request : Request}
      {id : RequestId} (other : request.tid? ≠ some tid)
      (h : s.submit site request = .ok (id, s')) : Step tid txn ⟨stage, s⟩ ⟨stage, s'⟩
  | takeResponse {stage : Stage} {s : Simulation Replica} {id : RequestId} :
      Step tid txn ⟨stage, s⟩ ⟨stage, (s.takeResponse id).2⟩
  | disturb {stage : Stage} {s : Simulation Replica} {agenda : Agenda} {network : Network}
      {random : Random.Generator} (h : Agenda.Within s.agenda agenda) :
      Step tid txn ⟨stage, s⟩
        ⟨stage, { s with agenda := agenda, network := network, random := random }⟩
  | poll {s s' : Simulation Replica} {representatives : List ReplicaId}
      {submitted : List (ReplicaId × RequestId)}
      (h : s.submitAll (representatives.map (·, .prepare tid txn)) = .ok (submitted, s')) :
      Step tid txn ⟨.before, s⟩ ⟨.polled submitted, s'⟩
  | tell {s s' : Simulation Replica} {submitted : List (ReplicaId × RequestId)}
      (h : s.tell tid txn submitted = .ok s') :
      Step tid txn ⟨.polled submitted, s⟩ ⟨.told (s.votesOn tid txn submitted).verdict, s'⟩

variable {tid : Tid} {txn : Transaction} {stage : Stage} {s s' : Simulation Replica}
  {condition : Simulation Replica → Bool} {n : Nat}

theorem steps_runWhile (h : runWhile condition n s = .ok s') :
    ReflTransGen (Step tid txn) ⟨stage, s⟩ ⟨stage, s'⟩ :=
  runWhile_induction (P := fun s₁ => ReflTransGen (Step tid txn) ⟨stage, s⟩ ⟨stage, s₁⟩) h .refl
    fun _ _ hs hstep => hs.tail (.event hstep)

theorem steps_takeResponses (submitted : List (ReplicaId × RequestId)) :
    ReflTransGen (Step tid txn) ⟨stage, s⟩ ⟨stage, (s.takeResponses submitted).2⟩ := by
  induction submitted generalizing s with
  | nil => exact .refl
  | cons first rest ih => exact .head .takeResponse ih

/-- A call of several replicas, in its parts. -/
theorem callAll_eq_ok {requests : List (ReplicaId × Request)}
    {responses : SortedMap ReplicaId (Option Response)}
    (h : s.callAll requests = .ok (responses, s')) :
    ∃ submitted s₁ condition s₂, s.submitAll requests = .ok (submitted, s₁) ∧
      runWhile condition eventLimit s₁ = .ok s₂ ∧
      responses = .ofList (s₂.takeResponses submitted).1 ∧ s' = (s₂.takeResponses submitted).2 := by
  obtain ⟨⟨submitted, s₁⟩, hsubmit, h⟩ := bind_eq_ok_iff.1 h
  obtain ⟨s₂, hrun, h⟩ := bind_eq_ok_iff.1 h
  cases h
  unfold runUntilAnswered at hrun
  exact ⟨submitted, s₁, _, s₂, hsubmit, hrun, rfl, rfl⟩

/-- A call to transfer across shards is made of steps. -/
theorem steps_transferAcrossVia {representatives : List ReplicaId}
    {report : TransferReport (Option Response)}
    (h : s.transferAcrossVia tid txn representatives = .ok (report, s')) :
    ReflTransGen (Step tid txn) ⟨.before, s⟩ ⟨.told report.decision, s'⟩ := by
  obtain ⟨⟨responses, s₃⟩, hpoll, h⟩ := bind_eq_ok_iff.1 h
  obtain ⟨⟨acks, s₆⟩, htell, h⟩ := bind_eq_ok_iff.1 h
  cases h
  obtain ⟨submitted, s₁, _, s₂, hpolled, hpolling, rfl, rfl⟩ := callAll_eq_ok hpoll
  obtain ⟨_, s₄, _, s₅, htold, htelling, rfl, rfl⟩ := callAll_eq_ok htell
  have hrouting : s₂.routing = s.routing :=
    (routing_runWhile hpolling).trans (routing_submitAll hpolled)
  have htaken : (s₂.takeResponses submitted).2.routing = s₂.routing := routing_takeResponses _ _
  have htell : s₂.tell tid txn submitted = .ok s₄ := by
    unfold Simulation.tell Simulation.votesOn
    rw [htaken, hrouting] at htold
    rw [hrouting]
    exact map_eq_ok_iff.2 ⟨_, htold, rfl⟩
  have hdecision : collectVotes (s₂.takeResponses submitted).2.routing
      (.start tid (s.routing.participants txn))
        (SortedMap.ofList (s₂.takeResponses submitted).1).toList = s₂.votesOn tid txn submitted := by
    unfold Simulation.votesOn
    rw [htaken, hrouting]
  dsimp only
  rw [hdecision]
  exact .head (.poll hpolled) ((steps_runWhile hpolling).trans
    (.head (.tell htell) ((steps_runWhile htelling).trans (steps_takeResponses _))))

end Simulation

end ReplicatedLedger
