import ReplicatedLedger.Proofs.Replica.History
import ReplicatedLedger.Proofs.Routing
import ReplicatedLedger.Proofs.Simulation.Running

/-!
A simulation as the histories of its shards.  A chronicle notes the requests submitted so far and
what happened in each shard; every step of the simulation is an event of one shard, or no event at
all.
-/

namespace ReplicatedLedger

/-- A timer of an attempt that is not under way leads to nothing. -/
theorem ReplicatedLog.exists_idle_timer (l : ReplicatedLog) :
    ∃ t, l.handle (.timer t) = .ok (l, []) := by
  have htimer : ∃ t, l.onTimer t = { log := l } := by
    unfold onTimer
    cases l.active with
    | none => exact ⟨.attempt 0, rfl⟩
    | some p => exact ⟨.attempt (p.attempt + 1), by simp⟩
  obtain ⟨t, ht⟩ := htimer
  refine ⟨t, ?_⟩
  show pursue (l.onTimer t) = _
  rw [ht]
  rfl

theorem Group.History.heard {g : Group} {w w' : World Replica} {events : List Group.Occurrence}
    {r sender : ReplicaId} {m : Message} (h : g.History w events w') (hm : w.Heard r sender m) :
    w'.Heard r sender m := by
  induction h with
  | rest => exact hm
  | event _ _ ih => exact World.heard_update ih

namespace Simulation

open ReplicatedLedger.Group (Occurrence)

/-- The replicas of a shard, all under one policy. -/
def shard (routing : RoutingTable) (policy : ReplicaPolicy) (k : ShardId) : Group :=
  ⟨routing, k, fun _ => policy.consensus⟩

/-- What happened in a simulation: the requests submitted so far, in the order of their ids, and the
events of each shard with the state that they led to. -/
structure Chronicle where
  asked : List (ReplicaId × Request)
  events : ShardId → List Occurrence
  worlds : ShardId → World Replica

namespace Chronicle

def start (routing : RoutingTable) (policy : ReplicaPolicy) : Chronicle where
  asked := []
  events _ := []
  worlds k := (shard routing policy k).replicas policy.initialBalance

/-- Notes requests. -/
def ask (c : Chronicle) (requests : List (ReplicaId × Request)) : Chronicle :=
  { c with asked := c.asked ++ requests }

/-- Notes an event of a shard. -/
def record (c : Chronicle) (k : ShardId) (o : Occurrence) : Chronicle where
  asked := c.asked
  events := Function.update c.events k (c.events k ++ [o])
  worlds := Function.update c.worlds k ((c.worlds k).update o.replica o.after o.actions)

def Submitted (c : Chronicle) (site : ReplicaId) (id : RequestId) (request : Request) : Prop :=
  c.asked[id.number.toNat]? = some (site, request)

def Answered (c : Chronicle) (id : RequestId) (response : Response) : Prop :=
  ∃ k, ∃ o ∈ c.events k, .respond id response ∈ o.actions

/-- Whether a replica answered a request in some way. -/
def Replied (c : Chronicle) (site : ReplicaId) (request : Request) (response : Response) : Prop :=
  ∃ id, c.Submitted site id request ∧ c.Answered id response

/-- Whether an event may be queued: a message of a member was sent, a request was submitted. -/
def Due (routing : RoutingTable) (c : Chronicle) (site : ReplicaId) : Event → Prop
  | .timer _ => True
  | .message sender m => ∀ k, sender ∈ routing.group k → (c.worlds k).Heard site sender m
  | .request id request => c.Submitted site id request

variable {routing : RoutingTable} {policy : ReplicaPolicy} {c c' c'' : Chronicle} {k : ShardId}
  {o : Occurrence} {site : ReplicaId} {id : RequestId} {request : Request} {response : Response}
  {e : Event}

/-- A chronicle that goes on from another. -/
structure Continues (routing : RoutingTable) (policy : ReplicaPolicy) (c c' : Chronicle) :
    Prop where
  asked : c.asked <+: c'.asked
  onwards : ∀ k, ∃ more, c'.events k = c.events k ++ more ∧
    (shard routing policy k).History (c.worlds k) more (c'.worlds k)

namespace Continues

theorem refl (c : Chronicle) : Continues routing policy c c where
  asked := List.prefix_refl _
  onwards _ := ⟨[], (List.append_nil _).symm, .rest⟩

theorem trans (h : Continues routing policy c c') (h' : Continues routing policy c' c'') :
    Continues routing policy c c'' where
  asked := h.asked.trans h'.asked
  onwards k := by
    obtain ⟨more, hmore, hhistory⟩ := h.onwards k
    obtain ⟨more', hmore', hhistory'⟩ := h'.onwards k
    refine ⟨more ++ more', ?_, hhistory.append hhistory'⟩
    rw [hmore', hmore, List.append_assoc]

theorem ask (c : Chronicle) (requests : List (ReplicaId × Request)) :
    Continues routing policy c (c.ask requests) where
  asked := List.prefix_append _ _
  onwards := (refl c).onwards

theorem record (met : (shard routing policy k).Meets (c.worlds k) o) :
    Continues routing policy c (c.record k o) where
  asked := List.prefix_refl _
  onwards k' := by
    unfold Chronicle.record
    dsimp only
    by_cases hk : k' = k
    · subst hk
      rw [Function.update_self, Function.update_self]
      exact ⟨[o], rfl, Group.History.rest.event met⟩
    · rw [Function.update_of_ne hk, Function.update_of_ne hk]
      exact ⟨[], (List.append_nil _).symm, .rest⟩

theorem submitted (h : Continues routing policy c c') (hc : c.Submitted site id request) :
    c'.Submitted site id request := by
  obtain ⟨hi, heq⟩ := List.getElem?_eq_some_iff.1 hc
  unfold Submitted
  rw [List.prefix_iff_getElem?.1 h.asked id.number.toNat hi, heq]

theorem answered (h : Continues routing policy c c') (hc : c.Answered id response) :
    c'.Answered id response := by
  obtain ⟨k, o, ho, hm⟩ := hc
  obtain ⟨more, hmore, _⟩ := h.onwards k
  exact ⟨k, o, by rw [hmore]; exact List.mem_append_left _ ho, hm⟩

theorem replied (h : Continues routing policy c c') (hc : c.Replied site request response) :
    c'.Replied site request response := by
  obtain ⟨id, hsubmitted, hanswered⟩ := hc
  exact ⟨id, h.submitted hsubmitted, h.answered hanswered⟩

theorem due (h : Continues routing policy c c') (hc : c.Due routing site e) :
    c'.Due routing site e := by
  cases e with
  | timer t => trivial
  | message sender m =>
      intro k hk
      obtain ⟨more, _, hhistory⟩ := h.onwards k
      exact hhistory.heard (hc k hk)
  | request id request => exact h.submitted hc

end Continues

end Chronicle

/-- A chronicle that tells of a simulation. -/
structure Records (routing : RoutingTable) (policy : ReplicaPolicy) (c : Chronicle)
    (s : Simulation Replica) : Prop where
  table : s.routing = routing
  numbered : s.nextRequest.toNat = c.asked.length
  machines : ∀ r machine, s.machines.get? r = some machine ↔
    ∃ k, r ∈ routing.group k ∧ (c.worlds k).machine r = machine
  history : ∀ k, (shard routing policy k).History
    ((shard routing policy k).replicas policy.initialBalance) (c.events k) (c.worlds k)
  sources : ∀ k, ∀ o ∈ c.events k, ∀ id request, o.event = .request id request →
    c.Submitted o.replica id request
  bears : s.Bears (c.Due routing) c.Answered

namespace Records

variable {routing : RoutingTable} {policy : ReplicaPolicy} {c : Chronicle} {k : ShardId}
  {o : Occurrence} {s s' : Simulation Replica} {site : ReplicaId} {e : Event} {r : Replica}
  {actions : List Action}

/-- An event that is due is an event of the shard, unless it is a message of a stranger, which is
nothing to the replica. -/
theorem exists_occurrence (h : Records routing policy c s)
    (hk : site ∈ routing.group k) (hdue : c.Due routing site e)
    (hhandle : Machine.handle (Machine.setTime ((c.worlds k).machine site) s.now) e =
      .ok (r, actions)) :
    ∃ e', (shard routing policy k).Meets (c.worlds k) ⟨site, s.now, e', r, actions⟩ ∧
      ∀ id request, e' = .request id request → c.Submitted site id request := by
  have hsteady := (h.history k).inOrder (Group.inOrder_replicas _ _)
  cases e with
  | timer t =>
      exact ⟨.timer t, ⟨hk, fun _ _ hm => (by cases hm), hhandle⟩, fun _ _ he => by cases he⟩
  | request id request =>
      refine ⟨.request id request, ⟨hk, fun _ _ hm => (by cases hm), hhandle⟩, ?_⟩
      intro id' request' he
      cases he
      exact hdue
  | message sender m =>
      by_cases hmember : sender ∈ routing.group k
      · refine ⟨.message sender m, ⟨hk, ?_, hhandle⟩, fun _ _ he => by cases he⟩
        intro sender' m' hm
        cases hm
        exact hdue k hmember
      · have hplaced : ((c.worlds k).machine site).log.topology = ⟨site, k, routing⟩ :=
          hsteady.steady.sound.placed site
        have hdeaf : ((c.worlds k).machine site).log.hears sender = false := by
          rw [ReplicatedLog.hears_eq_false_iff]
          unfold ReplicatedLog.replica Topology.group
          rw [hplaced]
          exact ⟨fun heq => hmember (heq ▸ hk), .inl hmember⟩
        -- an event that does as little as the message
        obtain ⟨t, ht⟩ := ((c.worlds k).machine site).log.exists_idle_timer
        refine ⟨.timer t, ⟨hk, fun _ _ hm => (by cases hm), ?_⟩, fun _ _ he => by cases he⟩
        let timed : Replica := { (c.worlds k).machine site with now := s.now }
        have hsame : timed.onEvent (.message sender m) = timed.onEvent (.timer t) :=
          congrArg (Functor.map _) ((ReplicatedLog.handle_of_unheard hdeaf).trans ht.symm)
        have hhandle : timed.handle (.message sender m) = .ok (r, actions) := hhandle
        show timed.handle (.timer t) = .ok (r, actions)
        unfold Replica.handle at hhandle ⊢
        rw [← hsame]
        exact hhandle

/-- What a replica did is noted in the chronicle. -/
theorem update (distinct : routing.replicas.Nodup) (h : Records routing policy c s)
    (met : (shard routing policy k).Meets (c.worlds k) o)
    (source : ∀ id request, o.event = .request id request → c.Submitted o.replica id request)
    (hperform : performAll { s with machines := s.machines.insert o.replica o.after } o.replica
      o.actions = .ok s') : Records routing policy (c.record k o) s' := by
  have honward : Chronicle.Continues routing policy c (c.record k o) := .record met
  have hsame := performAll_sameBut hperform
  have hworld : ((c.record k o).worlds k) = (c.worlds k).update o.replica o.after o.actions :=
    Function.update_self ..
  have hother : ∀ k', k' ≠ k → (c.record k o).worlds k' = c.worlds k' := fun k' hk' =>
    Function.update_of_ne hk' ..
  have hevents : (c.record k o).events k = c.events k ++ [o] := Function.update_self ..
  have hmember : o.replica ∈ routing.group k := met.member
  constructor
  case table => exact hsame.routing.trans h.table
  case numbered =>
    rw [hsame.nextRequest]
    exact h.numbered
  case machines =>
    intro r machine
    rw [hsame.machines, SortedMap.get?_insert]
    by_cases hr : r = o.replica
    · subst hr
      rw [if_pos rfl, Option.some.injEq]
      constructor
      · rintro rfl
        exact ⟨k, hmember, by rw [hworld, World.machine_update_self]⟩
      · rintro ⟨k', hk', rfl⟩
        rw [RoutingTable.group_unique distinct hk' hmember, hworld, World.machine_update_self]
    · rw [if_neg hr, h.machines]
      refine exists_congr fun k' => and_congr_right fun _ => ?_
      by_cases hk' : k' = k
      · rw [hk', hworld, World.machine_update_of_ne hr]
      · rw [hother k' hk']
  case history =>
    intro k'
    obtain ⟨more, hmore, hhistory⟩ := honward.onwards k'
    rw [hmore]
    exact (h.history k').append hhistory
  case sources =>
    intro k' o' ho' id request he
    refine honward.submitted ?_
    by_cases hk' : k' = k
    · rw [hk', hevents] at ho'
      rcases List.mem_append.1 ho' with ho' | ho'
      · exact h.sources k o' ho' id request he
      · cases List.mem_singleton.1 ho'
        exact source id request he
    · have heq : (c.record k o).events k' = c.events k' := Function.update_of_ne hk' ..
      rw [heq] at ho'
      exact h.sources k' o' ho' id request he
  case bears =>
    have hbears : Simulation.Bears ((c.record k o).Due routing) (c.record k o).Answered
        ({ s with machines := s.machines.insert o.replica o.after } : Simulation Replica) :=
      ⟨h.bears.queued.imp fun _ _ hdue => honward.due hdue,
        fun id response hid => honward.answered (h.bears.answered id response hid)⟩
    refine hbears.performAll (fun _ _ => trivial) (fun receiver m hm k' hk' => ?_)
      (fun id response hm => ⟨k, o, by rw [hevents]; simp, hm⟩) hperform
    rw [RoutingTable.group_unique distinct hk' hmember, hworld]
    exact World.heard_of_send hm

/-- A step of a simulation is an event of one shard, or none. -/
theorem step? (distinct : routing.replicas.Nodup) (h : Records routing policy c s)
    (hstep : s.step? = .ok (some s')) : ∃ c', Records routing policy c' s' ∧
      Chronicle.Continues routing policy c c' ∧ c'.asked = c.asked := by
  obtain ⟨key, e, agenda, stats, htake, _, hdelivered⟩ := step?_eq_some hstep
  obtain ⟨hdue, hqueued⟩ := h.bears.queued.take? htake
  have htaken : Records routing policy c { s with agenda := agenda, stats := stats } :=
    ⟨h.table, h.numbered, h.machines, h.history, h.sources, hqueued, h.bears.answered⟩
  rcases hdelivered with ⟨_, rfl⟩ | ⟨machine, r, actions, hmachine, hhandle, hperform⟩
  · exact ⟨c, htaken, .refl c, rfl⟩
  · obtain ⟨k, hk, rfl⟩ := (h.machines _ _).1 hmachine
    obtain ⟨e', met, source⟩ := htaken.exists_occurrence hk hdue hhandle
    exact ⟨c.record k _, htaken.update distinct met source hperform, .record met, rfl⟩

/-- What the network and the clock do is not in the chronicle. -/
theorem disturb {agenda : Agenda} {network : Network} {random : Random.Generator}
    (h : Records routing policy c s) (hwithin : Agenda.Within s.agenda agenda) :
    Records routing policy c { s with agenda := agenda, network := network, random := random } :=
  ⟨h.table, h.numbered, h.machines, h.history, h.sources,
    h.bears.queued.within (fun _ _ => trivial) hwithin, h.bears.answered⟩

theorem submit {request : Request} {id : RequestId} (h : Records routing policy c s)
    (hsubmit : s.submit site request = .ok (id, s')) :
    Records routing policy (c.ask [(site, request)]) s' ∧
      (c.ask [(site, request)]).Submitted site id request := by
  obtain ⟨rfl, next, agenda, hnext, hschedule, rfl⟩ := submit_eq_ok hsubmit
  have honward : Chronicle.Continues routing policy c (c.ask [(site, request)]) := .ask c _
  have hnew : (c.ask [(site, request)]).Submitted site ⟨s.nextRequest⟩ request := by
    unfold Chronicle.Submitted
    rw [h.numbered]
    exact List.getElem?_concat_length
  refine ⟨?_, hnew⟩
  constructor
  case table => exact h.table
  case numbered =>
    show next.toNat = (c.asked ++ [(site, request)]).length
    rw [Word.sum_one_eq_ok_iff.1 hnext, h.numbered, List.length_append, List.length_singleton]
  case machines => exact h.machines
  case history => exact h.history
  case sources =>
    exact fun k o ho id request he => honward.submitted (h.sources k o ho id request he)
  case bears =>
    have hqueued := h.bears.queued.imp fun _ _ hdue => honward.due hdue
    have hdue : (c.ask [(site, request)]).Due routing site (.request ⟨s.nextRequest⟩ request) := hnew
    exact ⟨hqueued.schedule hdue hschedule, h.bears.answered⟩

theorem takeResponse (h : Records routing policy c s) (id : RequestId) :
    Records routing policy c (s.takeResponse id).2 := by
  refine ⟨h.table, h.numbered, h.machines, h.history, h.sources, h.bears.queued, ?_⟩
  intro id' response hid
  have hid : (s.responses.erase id).get? id' = some response := hid
  rw [SortedMap.get?_erase] at hid
  split at hid
  · cases hid
  · exact h.bears.answered id' response hid

theorem submitAll {requests : List (ReplicaId × Request)}
    {submitted : List (ReplicaId × RequestId)} (h : Records routing policy c s)
    (hsubmit : s.submitAll requests = .ok (submitted, s')) :
    Records routing policy (c.ask requests) s' ∧
      ∀ p ∈ submitted, ∃ request, (p.1, request) ∈ requests ∧
        (c.ask requests).Submitted p.1 p.2 request := by
  induction requests generalizing c s submitted with
  | nil =>
      cases hsubmit
      have hsame : c.ask [] = c := by
        unfold Chronicle.ask
        rw [List.append_nil]
      rw [hsame]
      exact ⟨h, fun _ hp => by cases hp⟩
  | cons first rest ih =>
      obtain ⟨site, request⟩ := first
      obtain ⟨id, s₁, others, hfirst, hothers, rfl⟩ := submitAll_cons_eq_ok hsubmit
      obtain ⟨h₁, hnew⟩ := h.submit hfirst
      obtain ⟨hrest, hsubmitted⟩ := ih h₁ hothers
      have hsame : (c.ask [(site, request)]).ask rest = c.ask ((site, request) :: rest) := by
        unfold Chronicle.ask
        simp only [List.append_assoc, List.singleton_append]
      rw [hsame] at hrest hsubmitted
      refine ⟨hrest, fun p hp => ?_⟩
      rcases List.mem_cons.1 hp with rfl | hp
      · refine ⟨request, List.mem_cons_self, ?_⟩
        rw [← hsame]
        have hlater : Chronicle.Continues routing policy (c.ask [(site, request)])
          ((c.ask [(site, request)]).ask rest) := .ask _ rest
        exact hlater.submitted hnew
      · obtain ⟨request', hmem, hp⟩ := hsubmitted p hp
        exact ⟨request', List.mem_cons_of_mem _ hmem, hp⟩

theorem takeResponses (h : Records routing policy c s)
    (submitted : List (ReplicaId × RequestId)) :
    Records routing policy c (s.takeResponses submitted).2 ∧
      ∀ site response, (site, some response) ∈ (s.takeResponses submitted).1 →
        ∃ id, (site, id) ∈ submitted ∧ c.Answered id response := by
  induction submitted generalizing s with
  | nil => exact ⟨h, fun _ _ hmem => by cases hmem⟩
  | cons first rest ih =>
      obtain ⟨site, id⟩ := first
      obtain ⟨hrest, htaken⟩ := ih (h.takeResponse id)
      refine ⟨hrest, fun site' response hmem => ?_⟩
      rcases List.mem_cons.1 hmem with heq | hmem
      · obtain ⟨rfl, hresponse⟩ := Prod.mk.inj heq
        exact ⟨id, List.mem_cons_self, h.bears.answered id response hresponse.symm⟩
      · obtain ⟨id', hid', hanswered⟩ := htaken site' response hmem
        exact ⟨id', List.mem_cons_of_mem _ hid', hanswered⟩

end Records

/-- A simulation of fresh replicas, of which there is nothing to tell. -/
theorem records_start {routing : RoutingTable} {network : Network} {policy : ReplicaPolicy}
    {seed : Word} {s : Simulation Replica} (distinct : routing.replicas.Nodup)
    (h : start routing network policy seed = .ok s) :
    Records routing policy (.start routing policy) s := by
  obtain ⟨replicas, hreplicas, h⟩ := bind_eq_ok_iff.1 h
  cases h
  obtain ⟨hlength, hmade⟩ := List.forall₂_iff_get.1 (mapM_eq_ok_iff.1 hreplicas)
  -- each replica starts at the place that the table gives it
  have hplace : ∀ i (hi : i < routing.replicas.length) (hi' : i < replicas.length), ∃ k,
      routing.replicas[i] ∈ routing.group k ∧
        replicas[i] = (routing.replicas[i], .start ⟨routing.replicas[i], k, routing⟩ policy) := by
    intro i hi hi'
    obtain ⟨t, ht, heq⟩ := map_eq_ok_iff.1 (hmade i hi hi')
    unfold Topology.of at ht
    split at ht
    · next k hk =>
      cases ht
      exact ⟨k, (RoutingTable.shardOfReplica?_eq_some_iff distinct).1 hk, heq.symm⟩
    · cases ht
  have hfound : ∀ r machine, (SortedMap.ofList replicas).get? r = some machine →
      ∃ k, r ∈ routing.group k ∧ Replica.start ⟨r, k, routing⟩ policy = machine := by
    intro r machine hget
    obtain ⟨i, hi, heq⟩ := List.mem_iff_getElem.1 (SortedMap.mem_of_get?_ofList hget)
    obtain ⟨k, hk, hpair⟩ := hplace i (hlength ▸ hi) hi
    obtain ⟨hr, hmachine⟩ := Prod.mk.inj (heq.symm.trans hpair)
    rw [← hr] at hk hmachine
    exact ⟨k, hk, hmachine.symm⟩
  constructor
  case table => rfl
  case numbered => rfl
  case machines =>
    intro r machine
    refine ⟨hfound r machine, ?_⟩
    rintro ⟨k, hk, rfl⟩
    obtain ⟨i, hi, hr⟩ := List.mem_iff_getElem.1 (RoutingTable.mem_replicas_iff.2 ⟨k, hk⟩)
    obtain ⟨_, _, hpair⟩ := hplace i hi (hlength ▸ hi)
    obtain ⟨machine, hget⟩ : ∃ machine, (SortedMap.ofList replicas).get? r = some machine := by
      refine SortedMap.exists_get?_ofList (List.mem_map.2 ⟨_, List.getElem_mem (hlength ▸ hi), ?_⟩)
      rw [hpair]
      exact hr
    obtain ⟨k', hk', hmachine⟩ := hfound r machine hget
    rw [RoutingTable.group_unique distinct hk hk']
    exact hget.trans (congrArg some hmachine.symm)
  case history => exact fun _ => .rest
  case sources => exact fun _ _ ho => by cases ho
  case bears => exact ⟨fun _ _ he => (by cases he), fun _ _ hid => (by cases hid)⟩

end Simulation

end ReplicatedLedger
