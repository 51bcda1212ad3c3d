import ReplicatedLedger.Proofs.Agenda
import ReplicatedLedger.Proofs.Simulation.Transfer

/-!
The order of what happens in a simulation.  All that a simulation does to its agenda are the few
operations of an agenda, so in every state that it comes to the agenda is in order: time does not
run backwards, and a timer that is cancelled or set anew does not run out any more.
-/

namespace ReplicatedLedger

namespace Simulation

variable {σ : Type}

/-- What can be seen of a simulation: the events that reach their replicas, and the actions that are
carried out for these. -/
inductive Incident where
  | delivered (key : EventKey) (e : Event)
  | performed (actor : ReplicaId) (action : Action)

/-- The keys of the delivered events, the first one first. -/
def deliveries (log : List Incident) : List EventKey :=
  log.filterMap fun
    | .delivered key _ => some key
    | .performed .. => none

/-- A simulation passes from one state to another, step by step.  Actions need not be those that a
replica asks for, and the replicas, the links and what is drawn by chance may change at any time. -/
inductive Passes (s : Simulation σ) : List Incident → Simulation σ → Prop where
  | rest : Passes s [] s
  | submit {log : List Incident} {s' s'' : Simulation σ} {site : ReplicaId} {request : Request}
      {id : RequestId} (h : Passes s log s') (hsubmit : s'.submit site request = .ok (id, s'')) :
      Passes s log s''
  | takeResponse {log : List Incident} {s' : Simulation σ} (id : RequestId)
      (h : Passes s log s') : Passes s log (s'.takeResponse id).2
  | take {log : List Incident} {s' : Simulation σ} {key : EventKey} {e : Event} {agenda : Agenda}
      {stats : SimulationStats} (h : Passes s log s')
      (htake : s'.agenda.take? = some (key, e, agenda)) (hcount : s'.stats.count e = .ok stats) :
      Passes s (log ++ [.delivered key e]) { s' with agenda := agenda, stats := stats }
  | perform {log : List Incident} {s' s'' : Simulation σ} {actor : ReplicaId} {action : Action}
      (h : Passes s log s') (hperform : s'.perform actor action = .ok s'') :
      Passes s (log ++ [.performed actor action]) s''
  | wait {log : List Incident} {s' : Simulation σ} {time : Duration} (h : Passes s log s')
      (hdue : s'.agenda.isDue time = false) :
      Passes s log { s' with agenda := s'.agenda.advance time }
  | change {log : List Incident} {s' : Simulation σ} (machines : SortedMap ReplicaId σ)
      (network : Network) (random : Random.Generator) (h : Passes s log s') :
      Passes s log { s' with machines := machines, network := network, random := random }

variable {s s' s'' : Simulation σ} {log log' : List Incident}

namespace Passes

theorem trans (h : s.Passes log s') (h' : s'.Passes log' s'') : s.Passes (log ++ log') s'' := by
  induction h' with
  | rest =>
      rw [List.append_nil]
      exact h
  | submit _ hsubmit ih => exact ih.submit hsubmit
  | takeResponse id _ ih => exact ih.takeResponse id
  | take _ htake hcount ih =>
      rw [← List.append_assoc]
      exact ih.take htake hcount
  | perform _ hperform ih =>
      rw [← List.append_assoc]
      exact ih.perform hperform
  | wait _ hdue ih => exact ih.wait hdue
  | change machines network random _ ih => exact ih.change machines network random

theorem performAll {actor : ReplicaId} {actions : List Action} (h : s.Passes log s')
    (hperform : s'.performAll actor actions = .ok s'') : ∃ log', s.Passes log' s'' := by
  induction actions generalizing log s' with
  | nil =>
      cases hperform
      exact ⟨log, h⟩
  | cons action actions ih =>
      obtain ⟨s₁, hfirst, hrest⟩ := bind_eq_ok_iff.1 hperform
      exact ih (h.perform hfirst) hrest

theorem submitAll {requests : List (ReplicaId × Request)}
    {submitted : List (ReplicaId × RequestId)} (h : s.Passes log s')
    (hsubmit : s'.submitAll requests = .ok (submitted, s'')) : s.Passes log s'' := by
  induction requests generalizing s' submitted with
  | nil =>
      cases hsubmit
      exact h
  | cons first rest ih =>
      obtain ⟨_, s₁, others, hfirst, hothers, _⟩ := submitAll_cons_eq_ok hsubmit
      exact ih (h.submit hfirst) hothers

theorem takeResponses (h : s.Passes log s') (submitted : List (ReplicaId × RequestId)) :
    s.Passes log (s'.takeResponses submitted).2 := by
  induction submitted generalizing s' with
  | nil => exact h
  | cons first rest ih => exact ih (h.takeResponse first.2)

end Passes

/-! ### Calls -/

section Calls

variable [Machine σ]

/-- What a user of a simulation may ask of it. -/
inductive Directive where
  | submit (site : ReplicaId) (request : Request)
  | takeResponse (id : RequestId)
  | perform (actor : ReplicaId) (action : Action)
  | step
  | runUntil (deadline : Duration)
  | runUntilIdle
  | call (site : ReplicaId) (request : Request)
  | callAll (requests : List (ReplicaId × Request))
  | transfer (tid : Tid) (txn : Transaction) (representatives : List ReplicaId)

def carryOut (s : Simulation σ) : Directive → Except Fault (Simulation σ)
  | .submit site request => (·.2) <$> s.submit site request
  | .takeResponse id => .ok (s.takeResponse id).2
  | .perform actor action => s.perform actor action
  | .step => (·.getD s) <$> s.step?
  | .runUntil deadline => s.runUntil deadline
  | .runUntilIdle => s.runUntilIdle
  | .call site request => (·.2) <$> s.call site request
  | .callAll requests => (·.2) <$> s.callAll requests
  | .transfer tid txn representatives => (·.2) <$> s.transferAcrossVia tid txn representatives

def carryOutAll (s : Simulation σ) : List Directive → Except Fault (Simulation σ)
  | [] => .ok s
  | d :: rest => do (← s.carryOut d).carryOutAll rest

/-- A step takes the first event, and carries out what its replica asks for. -/
theorem Passes.step? (h : s.Passes log s') (hstep : s'.step? = .ok (some s'')) :
    ∃ log', s.Passes log' s'' := by
  obtain ⟨key, e, agenda, stats, htake, hcount, hdelivered⟩ := step?_eq_some hstep
  have htaken := h.take htake hcount
  rcases hdelivered with ⟨_, rfl⟩ | ⟨machine, moved, actions, _, _, hperform⟩
  · exact ⟨_, htaken⟩
  · exact (htaken.change _ _ _).performAll hperform

theorem Passes.runWhile {condition : Simulation σ → Bool} {n : Nat} (h : s.Passes log s')
    (hrun : runWhile condition n s' = .ok s'') : ∃ log', s.Passes log' s'' :=
  runWhile_induction (P := fun s₁ => ∃ log', s.Passes log' s₁) hrun ⟨log, h⟩
    fun _ _ ⟨_, h⟩ hstep => h.step? hstep

theorem Passes.callAll {requests : List (ReplicaId × Request)}
    {responses : SortedMap ReplicaId (Option Response)} (h : s.Passes log s')
    (hcall : s'.callAll requests = .ok (responses, s'')) : ∃ log', s.Passes log' s'' := by
  obtain ⟨⟨submitted, s₁⟩, hsubmit, hcall⟩ := bind_eq_ok_iff.1 hcall
  obtain ⟨s₂, hrun, hcall⟩ := bind_eq_ok_iff.1 hcall
  cases hcall
  obtain ⟨log', h'⟩ := (h.submitAll hsubmit).runWhile hrun
  exact ⟨log', h'.takeResponses _⟩

theorem Passes.carryOut {d : Directive} (h : s.Passes log s') (hcall : s'.carryOut d = .ok s'') :
    ∃ log', s.Passes log' s'' := by
  cases d with
  | submit site request =>
      obtain ⟨⟨id, s₁⟩, hsubmit, rfl⟩ := map_eq_ok_iff.1 hcall
      exact ⟨log, h.submit hsubmit⟩
  | takeResponse id =>
      cases hcall
      exact ⟨log, h.takeResponse id⟩
  | perform actor action => exact ⟨_, h.perform hcall⟩
  | step =>
      obtain ⟨next, hstep, rfl⟩ := map_eq_ok_iff.1 hcall
      cases next with
      | none => exact ⟨log, h⟩
      | some s₁ => exact h.step? hstep
  | runUntil deadline =>
      obtain ⟨s₁, hrun, hcall⟩ := bind_eq_ok_iff.1 hcall
      obtain ⟨log', h'⟩ := h.runWhile hrun
      rw [pure_eq_ok_iff] at hcall
      split at hcall
      · subst hcall
        exact ⟨log', h'⟩
      · next hdue =>
        subst hcall
        exact ⟨log', h'.wait (Bool.eq_false_iff.2 hdue)⟩
  | runUntilIdle => exact h.runWhile hcall
  | call site request =>
      obtain ⟨⟨response, s₁⟩, hanswer, rfl⟩ := map_eq_ok_iff.1 hcall
      obtain ⟨⟨id, s₂⟩, hsubmit, hanswer⟩ := bind_eq_ok_iff.1 hanswer
      obtain ⟨s₃, hrun, hanswer⟩ := bind_eq_ok_iff.1 hanswer
      cases hanswer
      obtain ⟨log', h'⟩ := (h.submit hsubmit).runWhile hrun
      exact ⟨log', h'.takeResponse _⟩
  | callAll requests =>
      obtain ⟨⟨responses, s₁⟩, hanswers, rfl⟩ := map_eq_ok_iff.1 hcall
      exact h.callAll hanswers
  | transfer tid txn representatives =>
      obtain ⟨⟨report, s₁⟩, htransfer, rfl⟩ := map_eq_ok_iff.1 hcall
      obtain ⟨⟨responses, s₂⟩, hpoll, htransfer⟩ := bind_eq_ok_iff.1 htransfer
      obtain ⟨⟨acks, s₃⟩, htell, htransfer⟩ := bind_eq_ok_iff.1 htransfer
      cases htransfer
      obtain ⟨_, h'⟩ := h.callAll hpoll
      exact h'.callAll htell

theorem Passes.carryOutAll {directives : List Directive} (h : s.Passes log s')
    (hcalls : s'.carryOutAll directives = .ok s'') : ∃ log', s.Passes log' s'' := by
  induction directives generalizing log s' with
  | nil =>
      cases hcalls
      exact ⟨log, h⟩
  | cons d rest ih =>
      obtain ⟨s₁, hcall, hcalls⟩ := bind_eq_ok_iff.1 hcalls
      obtain ⟨_, h'⟩ := h.carryOut hcall
      exact ih h' hcalls

end Calls

/-! ### The agenda on the way -/

/-- What happened between two states of an agenda that was in order: it is in order still, events
were delivered at times between the two, none before an earlier one, and nothing that was over. -/
structure Since (a : Agenda) (log : List Incident) (a' : Agenda) : Prop where
  orderly : a'.Orderly
  ascending : (deliveries log).Pairwise fun key key' => key.time ≤ key'.time
  past : ∀ key ∈ deliveries log, key.time ≤ a'.now
  spent : ∀ key, a.Spent key → a'.Spent key ∧ key ∉ deliveries log

namespace Since

variable {a a' a'' : Agenda} {key : EventKey} {e : Event} {actor : ReplicaId} {action : Action}

theorem operation (h : Since a log a') (hop : Agenda.Operation a' a'') : Since a log a'' where
  orderly := h.orderly.operation hop
  ascending := h.ascending
  past key hkey := Duration.le_trans (h.past key hkey) (h.orderly.now_le hop)
  spent key hspent := ⟨(h.spent key hspent).1.operation hop, (h.spent key hspent).2⟩

theorem performed (h : Since a log a') : Since a (log ++ [.performed actor action]) a' := by
  have hsame : deliveries (log ++ [.performed actor action]) = deliveries log := by
    unfold deliveries
    rw [List.filterMap_append]
    exact List.append_nil _
  refine ⟨h.orderly, ?_, ?_, ?_⟩ <;> rw [hsame]
  · exact h.ascending
  · exact h.past
  · exact h.spent

theorem delivered (h : Since a log a') (htake : a'.take? = some (key, e, a'')) :
    Since a (log ++ [.delivered key e]) a'' := by
  have hmore : deliveries (log ++ [.delivered key e]) = deliveries log ++ [key] :=
    List.filterMap_append
  obtain ⟨hkey, _, htaken⟩ := Agenda.take?_eq_some htake
  have hnow : a''.now = key.time := by rw [htaken]
  have hpast := (h.operation (.take htake)).past
  rw [hnow] at hpast
  refine ⟨h.orderly.take? htake, ?_, ?_, fun key' hspent => ?_⟩
  · rw [hmore, List.pairwise_append]
    refine ⟨h.ascending, List.pairwise_singleton _ _, fun earlier hearlier last hlast => ?_⟩
    rw [List.mem_singleton.1 hlast]
    exact hpast earlier hearlier
  · rw [hmore, hnow]
    intro key' hmem
    rcases List.mem_append.1 hmem with hmem | hmem
    · exact hpast key' hmem
    · rw [List.mem_singleton.1 hmem]
      exact Duration.le_refl _
  · obtain ⟨hstill, hnever⟩ := h.spent key' hspent
    refine ⟨hstill.operation (.take htake), ?_⟩
    rw [hmore]
    intro hmem
    rcases List.mem_append.1 hmem with hmem | hmem
    · exact hnever hmem
    · -- What is delivered was queued, and what is over was not.
      rw [← List.mem_singleton.1 hmem, hstill.gone] at hkey
      cases hkey

end Since

theorem since_perform {a : Agenda} {actor : ReplicaId} {action : Action}
    (h : Since a log s.agenda) (hperform : s.perform actor action = .ok s') :
    Since a (log ++ [.performed actor action]) s'.agenda := by
  refine Since.performed ?_
  cases action with
  | send receiver m =>
      obtain ⟨random, stats, rfl | ⟨delay, agenda, hschedule, rfl⟩⟩ := send_eq_ok hperform
      · exact h
      · exact h.operation (.schedule (fun t => by simp) hschedule)
  | setTimer t after =>
      obtain ⟨agenda, harm, hperform⟩ := bind_eq_ok_iff.1 hperform
      cases hperform
      exact h.operation (.arm harm)
  | cancelTimer t =>
      cases hperform
      exact h.operation (.disarm ⟨actor, t⟩)
  | respond id response =>
      obtain ⟨responses, _, hperform⟩ := bind_eq_ok_iff.1 hperform
      cases hperform
      exact h

theorem Passes.since (h : s.Passes log s') (orderly : s.agenda.Orderly) :
    Since s.agenda log s'.agenda := by
  induction h with
  | rest =>
      exact ⟨orderly, .nil, fun _ hkey => absurd hkey List.not_mem_nil,
        fun _ hspent => ⟨hspent, List.not_mem_nil⟩⟩
  | submit _ hsubmit ih =>
      obtain ⟨_, next, agenda, _, hschedule, rfl⟩ := submit_eq_ok hsubmit
      exact ih.operation (.schedule (fun t => by simp) hschedule)
  | takeResponse id _ ih => exact ih
  | take _ htake _ ih => exact ih.delivered htake
  | perform _ hperform ih => exact since_perform ih hperform
  | wait _ hdue ih => exact ih.operation (.advance hdue)
  | change _ _ _ _ ih => exact ih

/-- An action after which the current expiry of a timer no longer counts. -/
def Supersedes (action : Action) (t : Timer) : Prop :=
  action = .cancelTimer t ∨ ∃ after, action = .setTimer t after

theorem spent_perform {t : ReplicaTimer} {key : EventKey} {action : Action}
    (h : s.agenda.Orderly) (hkey : s.agenda.timers.get? t = some key)
    (supersedes : Supersedes action t.timer) (hperform : s.perform t.replica action = .ok s') :
    s'.agenda.Spent key := by
  rcases supersedes with rfl | ⟨after, rfl⟩
  · cases hperform
    exact h.spent_of_disarm hkey
  · obtain ⟨agenda, harm, hperform⟩ := bind_eq_ok_iff.1 hperform
    cases hperform
    exact h.spent_of_arm hkey harm

/-- In every state that a simulation comes to from an empty agenda, nothing that is queued lies in
the past, all queued events are told apart by sequence numbers below the next one, and the index of
the timers has exactly the queued expiries, at most one of each timer.  So the times of delivered
events do not decrease, and the expiry of a timer that is cancelled or set anew is not delivered any
more. -/
theorem scheduling_orderly [Machine σ] (fresh : s.agenda = {}) :
    (∀ directives s', s.carryOutAll directives = .ok s' → ∃ log, s.Passes log s') ∧
    ∀ log s', s.Passes log s' →
      s'.agenda.Orderly ∧
      (∀ (t : ReplicaTimer) key key',
        s'.agenda.queue.get? key = some (.timer t.timer) → key.site = t.replica →
        s'.agenda.queue.get? key' = some (.timer t.timer) → key'.site = t.replica → key = key') ∧
      (deliveries log).Pairwise (fun key key' => key.time ≤ key'.time) ∧
      ∀ (t : ReplicaTimer) key action s₁ log' s'', s'.agenda.timers.get? t = some key →
        Supersedes action t.timer → s'.perform t.replica action = .ok s₁ → s₁.Passes log' s'' →
          key ∉ deliveries log' := by
  refine ⟨fun directives s' hcalls => Passes.rest.carryOutAll hcalls, fun log s' h => ?_⟩
  have hsince := h.since (fresh ▸ Agenda.orderly_empty)
  refine ⟨hsince.orderly, fun t key key' hkey hsite hkey' hsite' => ?_, hsince.ascending, ?_⟩
  · exact hsince.orderly.unique hkey hsite hkey' hsite'
  · intro t key action s₁ log' s'' hkey supersedes hperform hlater
    have horderly := (h.perform hperform).since (fresh ▸ Agenda.orderly_empty)
    exact ((hlater.since horderly.orderly).spent key
      (spent_perform hsince.orderly hkey supersedes hperform)).2

/-- A timer that is set twice before the request of a client is served: only its second expiry is
left, and only that is delivered in the end. -/
theorem scheduling_orderly_set_anew : ∃ routing s s' s₁ s'' log log' first second,
    RoutingTable.uniform 1 1 2 = .ok routing ∧ start routing {} {} 7 = .ok s ∧ s.agenda = {} ∧
      s.carryOutAll [.submit ⟨1⟩ .logs,
        .perform ⟨1⟩ (.setTimer (.attempt 3) (.ofMilliseconds 5))] = .ok s' ∧
      s'.agenda.timers.get? ⟨⟨1⟩, .attempt 3⟩ = some first ∧
      s'.perform ⟨1⟩ (.setTimer (.attempt 3) (.ofMilliseconds 9)) = .ok s₁ ∧
      s₁.carryOutAll [.step, .runUntil (.ofMilliseconds 5)] = .ok s'' ∧
      s''.now = .ofMilliseconds 5 ∧ s.Passes log s' ∧ s₁.Passes log' s'' ∧
      s''.agenda.queue.toList = [(second, .timer (.attempt 3))] ∧
      s''.agenda.Orderly ∧ first ∉ deliveries log' := by
  obtain ⟨routing, s, s', s₁, s'', first, second, htable, hstart, hfresh, hcalls, hkey, hperform,
      hlater, hnow, hleft⟩ : ∃ routing s s' s₁ s'' first second,
    RoutingTable.uniform 1 1 2 = .ok routing ∧ start routing {} {} 7 = .ok s ∧ s.agenda = {} ∧
      s.carryOutAll [.submit ⟨1⟩ .logs,
        .perform ⟨1⟩ (.setTimer (.attempt 3) (.ofMilliseconds 5))] = .ok s' ∧
      s'.agenda.timers.get? ⟨⟨1⟩, .attempt 3⟩ = some first ∧
      s'.perform ⟨1⟩ (.setTimer (.attempt 3) (.ofMilliseconds 9)) = .ok s₁ ∧
      s₁.carryOutAll [.step, .runUntil (.ofMilliseconds 5)] = .ok s'' ∧
      s''.now = .ofMilliseconds 5 ∧
      s''.agenda.queue.toList = [(second, .timer (.attempt 3))] :=
    ⟨_, _, _, _, _, _, _, rfl, rfl, rfl, rfl, rfl, rfl, rfl, rfl, rfl⟩
  obtain ⟨hreaches, hsound⟩ := scheduling_orderly hfresh
  obtain ⟨log, h⟩ := hreaches _ s' hcalls
  obtain ⟨log', h'⟩ := Passes.rest.carryOutAll hlater
  obtain ⟨_, _, _, hsuperseded⟩ := hsound log s' h
  have hall := (h.perform hperform).trans h'
  exact ⟨routing, s, s', s₁, s'', log, log', first, second, htable, hstart, hfresh, hcalls, hkey,
    hperform, hlater, hnow, h, h', hleft, (hsound _ s'' hall).1,
    hsuperseded ⟨⟨1⟩, .attempt 3⟩ first _ s₁ log' s'' hkey (.inr ⟨_, rfl⟩) hperform h'⟩

end Simulation

end ReplicatedLedger
