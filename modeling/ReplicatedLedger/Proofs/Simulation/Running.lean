import ReplicatedLedger.Proofs.Agenda
import ReplicatedLedger.Simulation.Calls

/-!
What the parts of a simulated step change.  Whatever holds of all queued events and of all answers
goes on to hold if it holds of what the replica sends and answers; nothing else is touched.
-/

namespace ReplicatedLedger

namespace Agenda

/-- A property of all queued events, each with its site. -/
def All (P : ReplicaId → Event → Prop) (a : Agenda) : Prop :=
  ∀ key e, a.queue.get? key = some e → P key.site e

/-- Nothing is queued but what another agenda queues at the same site, and timers. -/
def Within (other a : Agenda) : Prop :=
  ∀ key e, a.queue.get? key = some e → (∃ t, e = .timer t) ∨
    ∃ key', key'.site = key.site ∧ other.queue.get? key' = some e

variable {P P' : ReplicaId → Event → Prop} {a a' : Agenda} {site : ReplicaId} {delay : Duration}
  {e : Event} {t : ReplicaTimer} {key : EventKey}

namespace All

theorem imp (h : a.All P) (himp : ∀ site e, P site e → P' site e) : a.All P' :=
  fun key e he => himp key.site e (h key e he)

theorem within (h : a.All P) (timers : ∀ site t, P site (.timer t)) (hwithin : Within a a') :
    a'.All P := by
  intro key e he
  rcases hwithin key e he with ⟨t, rfl⟩ | ⟨key', hsite, he'⟩
  · exact timers key.site t
  · rw [← hsite]
    exact h key' e he'

theorem schedule (h : a.All P) (he : P site e) (hschedule : a.schedule site delay e = .ok a') :
    a'.All P := by
  intro key e' hkey
  rw [get?_schedule hschedule] at hkey
  split at hkey
  · next hsame =>
    cases hkey
    rw [hsame]
    exact he
  · exact h key e' hkey

theorem erase (h : a.All P) (key : EventKey) (timers : SortedMap ReplicaTimer EventKey)
    (now : Duration) :
    Agenda.All P { a with queue := a.queue.erase key, timers := timers, now := now } := by
  intro key' e he
  rw [SortedMap.get?_erase] at he
  split at he
  · cases he
  · exact h key' e he

theorem disarm (h : a.All P) (t : ReplicaTimer) : (a.disarm t).All P := by
  unfold Agenda.disarm
  split
  · next key _ => exact h.erase key _ a.now
  · exact h

theorem arm {after : Duration} (h : a.All P) (timers : ∀ site t, P site (.timer t))
    (harm : a.arm t after = .ok a') : a'.All P := by
  obtain ⟨a₁, hschedule, rfl⟩ := arm_eq_ok harm
  exact fun key e he => (h.disarm t).schedule (timers t.replica t.timer) hschedule key e he

theorem take? (h : a.All P) (htake : a.take? = some (key, e, a')) : P key.site e ∧ a'.All P := by
  unfold Agenda.take? at htake
  split at htake
  · cases htake
  · next hfirst =>
    cases htake
    exact ⟨h _ _ (SortedMap.get?_eq_some_iff.2 (List.mem_of_head? hfirst)), h.erase _ _ _⟩

end All

end Agenda

namespace Simulation

section Frame

variable {σ : Type} {s s' : Simulation σ} {actor : ReplicaId} {action : Action}
  {actions : List Action}

/-- What a step may not change once the machine has moved. -/
structure SameBut (s s' : Simulation σ) : Prop where
  routing : s'.routing = s.routing
  machines : s'.machines = s.machines
  nextRequest : s'.nextRequest = s.nextRequest

/-- A message is sent to be delivered after a delay, or is lost. -/
theorem send_eq_ok {receiver : ReplicaId} {m : Message} (h : s.send actor receiver m = .ok s') :
    ∃ random stats, s' = { s with random := random, stats := stats } ∨
      ∃ delay agenda, s.agenda.schedule receiver delay (.message actor m) = .ok agenda ∧
        s' = { s with random := random, stats := stats, agenda := agenda } := by
  obtain ⟨sent, _, h⟩ := bind_eq_ok_iff.1 h
  dsimp only at h
  split at h
  · next delay random _ =>
    obtain ⟨agenda, hschedule, h⟩ := bind_eq_ok_iff.1 h
    cases h
    exact ⟨random, _, .inr ⟨delay, agenda, hschedule, rfl⟩⟩
  · next random _ =>
    obtain ⟨dropped, _, h⟩ := bind_eq_ok_iff.1 h
    cases h
    exact ⟨random, _, .inl rfl⟩

theorem perform_sameBut (h : s.perform actor action = .ok s') : s.SameBut s' := by
  cases action with
  | send receiver m =>
      obtain ⟨random, stats, rfl | ⟨delay, agenda, _, rfl⟩⟩ := send_eq_ok h <;> exact ⟨rfl, rfl, rfl⟩
  | setTimer t after =>
      obtain ⟨agenda, _, h⟩ := bind_eq_ok_iff.1 h
      cases h
      exact ⟨rfl, rfl, rfl⟩
  | cancelTimer t =>
      cases h
      exact ⟨rfl, rfl, rfl⟩
  | respond id response =>
      obtain ⟨responses, _, h⟩ := bind_eq_ok_iff.1 h
      cases h
      exact ⟨rfl, rfl, rfl⟩

theorem performAll_sameBut (h : s.performAll actor actions = .ok s') : s.SameBut s' := by
  induction actions generalizing s with
  | nil =>
      cases h
      exact ⟨rfl, rfl, rfl⟩
  | cons action actions ih =>
      obtain ⟨s₁, hperform, h⟩ := bind_eq_ok_iff.1 h
      have hfirst := perform_sameBut hperform
      have hrest := ih h
      exact ⟨hrest.routing.trans hfirst.routing, hrest.machines.trans hfirst.machines,
        hrest.nextRequest.trans hfirst.nextRequest⟩

/-- What holds of everything queued and answered. -/
structure Bears (P : ReplicaId → Event → Prop) (Q : RequestId → Response → Prop)
    (s : Simulation σ) : Prop where
  queued : s.agenda.All P
  answered : ∀ id response, s.responses.get? id = some response → Q id response

variable {P : ReplicaId → Event → Prop} {Q : RequestId → Response → Prop}

theorem Bears.perform (h : s.Bears P Q) (timers : ∀ site t, P site (.timer t))
    (sends : ∀ receiver m, action = .send receiver m → P receiver (.message actor m))
    (answers : ∀ id response, action = .respond id response → Q id response)
    (hperform : s.perform actor action = .ok s') : s'.Bears P Q := by
  cases action with
  | send receiver m =>
      obtain ⟨random, stats, rfl | ⟨delay, agenda, hschedule, rfl⟩⟩ := send_eq_ok hperform
      · exact ⟨h.queued, h.answered⟩
      · exact ⟨h.queued.schedule (sends receiver m rfl) hschedule, h.answered⟩
  | setTimer t after =>
      obtain ⟨agenda, harm, hperform⟩ := bind_eq_ok_iff.1 hperform
      cases hperform
      exact ⟨h.queued.arm timers harm, h.answered⟩
  | cancelTimer t =>
      cases hperform
      exact ⟨h.queued.disarm _, h.answered⟩
  | respond id response =>
      obtain ⟨responses, _, hperform⟩ := bind_eq_ok_iff.1 hperform
      cases hperform
      refine ⟨h.queued, fun id' response' hid => ?_⟩
      have hid : (s.responses.insert id response).get? id' = some response' := hid
      rw [SortedMap.get?_insert] at hid
      split at hid
      · next hsame =>
        cases hid
        rw [hsame]
        exact answers id response rfl
      · exact h.answered id' response' hid

theorem Bears.performAll (h : s.Bears P Q) (timers : ∀ site t, P site (.timer t))
    (sends : ∀ receiver m, .send receiver m ∈ actions → P receiver (.message actor m))
    (answers : ∀ id response, .respond id response ∈ actions → Q id response)
    (hperform : s.performAll actor actions = .ok s') : s'.Bears P Q := by
  induction actions generalizing s with
  | nil =>
      cases hperform
      exact h
  | cons action actions ih =>
      obtain ⟨s₁, hfirst, hrest⟩ := bind_eq_ok_iff.1 hperform
      have h₁ : s₁.Bears P Q := by
        refine h.perform timers (fun receiver m hm => ?_) (fun id response hr => ?_) hfirst
        · exact sends receiver m (hm ▸ List.mem_cons_self)
        · exact answers id response (hr ▸ List.mem_cons_self)
      exact ih h₁ (fun receiver m hm => sends receiver m (List.mem_cons_of_mem _ hm))
        (fun id response hr => answers id response (List.mem_cons_of_mem _ hr)) hrest

end Frame

section Runs

variable {σ : Type} [Machine σ] {s s' : Simulation σ} {condition : Simulation σ → Bool} {n : Nat}

/-- What every step keeps holds when a run is over. -/
theorem runWhile_induction {P : Simulation σ → Prop} (h : runWhile condition n s = .ok s')
    (hs : P s) (hstep : ∀ s s' : Simulation σ, P s → s.step? = .ok (some s') → P s') : P s' := by
  induction n generalizing s with
  | zero =>
      cases h
      exact hs
  | succ n ih =>
      unfold runWhile at h
      split at h
      · obtain ⟨next, hnext, h⟩ := bind_eq_ok_iff.1 h
        cases next with
        | none =>
            cases h
            exact hs
        | some s₁ => exact ih h (hstep s s₁ hs hnext)
      · cases h
        exact hs

/-- A step takes the first event; its replica, if there is one, handles it, and what it asks for is
carried out. -/
theorem step?_eq_some (h : s.step? = .ok (some s')) : ∃ key e agenda stats,
    s.agenda.take? = some (key, e, agenda) ∧ s.stats.count e = .ok stats ∧
    ((s.machines.get? key.site = none ∧ s' = { s with agenda := agenda, stats := stats }) ∨
      ∃ machine moved actions, s.machines.get? key.site = some machine ∧
        Machine.handle (Machine.setTime machine agenda.now) e = .ok (moved, actions) ∧
        performAll { s with
          agenda := agenda
          stats := stats
          machines := s.machines.insert key.site moved } key.site actions = .ok s') := by
  unfold step? at h
  split at h
  · cases h
  · next key e agenda htake =>
    obtain ⟨stats, hcount, h⟩ := bind_eq_ok_iff.1 h
    obtain ⟨s₁, hdeliver, h⟩ := bind_eq_ok_iff.1 h
    cases h
    refine ⟨key, e, agenda, stats, htake, hcount, ?_⟩
    unfold deliver at hdeliver
    split at hdeliver
    · next hnone =>
      cases hdeliver
      exact .inl ⟨hnone, rfl⟩
    · next machine hmachine =>
      obtain ⟨⟨moved, actions⟩, hhandle, hdeliver⟩ := bind_eq_ok_iff.1 hdeliver
      exact .inr ⟨machine, moved, actions, hmachine, hhandle, hdeliver⟩

theorem routing_step? (h : s.step? = .ok (some s')) : s'.routing = s.routing := by
  obtain ⟨key, e, agenda, stats, _, _, ⟨_, rfl⟩ | ⟨_, _, _, _, _, hperform⟩⟩ := step?_eq_some h
  · rfl
  · exact (performAll_sameBut hperform).routing

theorem routing_runWhile (h : runWhile condition n s = .ok s') : s'.routing = s.routing :=
  runWhile_induction (P := fun s₁ => s₁.routing = s.routing) h rfl fun _ _ hs hstep =>
    (routing_step? hstep).trans hs

/-- A request is queued under the next number. -/
theorem submit_eq_ok {σ : Type} {s s' : Simulation σ} {site : ReplicaId} {request : Request}
    {id : RequestId} (h : s.submit site request = .ok (id, s')) :
    id = ⟨s.nextRequest⟩ ∧ ∃ next agenda, Word.sum s.nextRequest 1 = .ok next ∧
      s.agenda.schedule site .zero (.request id request) = .ok agenda ∧
      s' = { s with nextRequest := next, agenda := agenda } := by
  obtain ⟨next, hnext, h⟩ := bind_eq_ok_iff.1 h
  obtain ⟨agenda, hagenda, h⟩ := bind_eq_ok_iff.1 h
  cases h
  exact ⟨rfl, next, agenda, hnext, hagenda, rfl⟩

/-- Of several requests, the first is submitted before the others. -/
theorem submitAll_cons_eq_ok {σ : Type} {s s' : Simulation σ} {site : ReplicaId}
    {request : Request} {rest : List (ReplicaId × Request)}
    {submitted : List (ReplicaId × RequestId)}
    (h : s.submitAll ((site, request) :: rest) = .ok (submitted, s')) :
    ∃ id s₁ others, s.submit site request = .ok (id, s₁) ∧ s₁.submitAll rest = .ok (others, s') ∧
      submitted = (site, id) :: others := by
  obtain ⟨⟨id, s₁⟩, hsubmit, h⟩ := bind_eq_ok_iff.1 h
  obtain ⟨⟨others, s₂⟩, hrest, h⟩ := bind_eq_ok_iff.1 h
  cases h
  exact ⟨id, s₁, others, hsubmit, hrest, rfl⟩

theorem routing_submitAll {σ : Type} {s s' : Simulation σ} {requests : List (ReplicaId × Request)}
    {submitted : List (ReplicaId × RequestId)} (h : s.submitAll requests = .ok (submitted, s')) :
    s'.routing = s.routing := by
  induction requests generalizing s submitted with
  | nil =>
      cases h
      rfl
  | cons first rest ih =>
      obtain ⟨id, s₁, others, hsubmit, hrest, _⟩ := submitAll_cons_eq_ok h
      have hrouting := ih hrest
      obtain ⟨_, next, agenda, _, _, rfl⟩ := submit_eq_ok hsubmit
      exact hrouting

theorem routing_takeResponses {σ : Type} (s : Simulation σ)
    (submitted : List (ReplicaId × RequestId)) :
    (s.takeResponses submitted).2.routing = s.routing := by
  induction submitted generalizing s with
  | nil => rfl
  | cons first rest ih => exact ih (s.takeResponse first.2).2

end Runs

end Simulation

end ReplicatedLedger
