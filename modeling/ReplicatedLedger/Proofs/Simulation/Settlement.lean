import ReplicatedLedger.Proofs.Simulation.Holdings

/-!
A transfer across shards keeps the sum of all balances, if both of its accounts have a shard and
both shards settle it.  An account that no shard has is left out of the call: nobody votes for that
side and nobody books it.
-/

namespace ReplicatedLedger

theorem RoutingTable.mem_participants_iff {t : RoutingTable} {txn : Transaction} {k : ShardId} :
    k ∈ t.participants txn ↔ t.shardOf? txn.sender = some k ∨ t.shardOf? txn.receiver = some k := by
  have hmem : ∀ keys : List ShardId, k ∈ (SortedMap.setOf keys).keys ↔ k ∈ keys := by
    intro keys
    rw [SortedMap.mem_keys_iff]
    constructor
    · rintro ⟨_, hget⟩
      obtain ⟨_, hk, heq⟩ := List.mem_map.1 (SortedMap.mem_of_get?_ofList hget)
      cases heq
      exact hk
    · intro hk
      exact SortedMap.exists_get?_ofList (List.mem_map.2 ⟨(k, ()), List.mem_map.2 ⟨k, hk, rfl⟩, rfl⟩)
  unfold participants
  rw [hmem, List.mem_filterMap]
  simp

/-- Whether a replica of the shard that has an account acknowledged what was decided. -/
def TransferReport.AcknowledgedFor (report : TransferReport (Option Response))
    (routing : RoutingTable) (a : AccountId) : Prop :=
  ∃ k, routing.shardOf? a = some k ∧
    ∃ r ∈ routing.group k, ∃ slot, report.acks.get? r = some (some (.ack slot))

namespace Simulation

variable {routing : RoutingTable} {policy : ReplicaPolicy} {c c' : Chronicle} {k : ShardId}
  {s s' s'' : Simulation Replica} {tid : Tid} {txn : Transaction} {a : AccountId}
  {asked : List (ReplicaId × Request)} {sites representatives : List ReplicaId}
  {request : Request} {responses : SortedMap ReplicaId (Option Response)}
  {report : TransferReport (Option Response)}

/-! ### What goes on around a call -/

/-- A run of a simulation, with the requests made during it.  The network and the clock do as they
like. -/
inductive Course (s : Simulation Replica) :
    List (ReplicaId × Request) → Simulation Replica → Prop
  | rest : Course s [] s
  | event {asked : List (ReplicaId × Request)} {s' s'' : Simulation Replica}
      (h : Course s asked s') (hstep : s'.step? = .ok (some s'')) : Course s asked s''
  | submit {asked : List (ReplicaId × Request)} {s' s'' : Simulation Replica} {site : ReplicaId}
      {request : Request} {id : RequestId} (h : Course s asked s')
      (hsubmit : s'.submit site request = .ok (id, s'')) :
      Course s (asked ++ [(site, request)]) s''
  | takeResponse {asked : List (ReplicaId × Request)} {s' : Simulation Replica}
      (h : Course s asked s') (id : RequestId) : Course s asked (s'.takeResponse id).2
  | disturb {asked : List (ReplicaId × Request)} {s' : Simulation Replica} {agenda : Agenda}
      {network : Network} {random : Random.Generator} (h : Course s asked s')
      (hwithin : Agenda.Within s'.agenda agenda) :
      Course s asked { s' with agenda := agenda, network := network, random := random }

theorem Course.runWhile {condition : Simulation Replica → Bool} {n : Nat} (h : Course s asked s')
    (hrun : runWhile condition n s' = .ok s'') : Course s asked s'' :=
  runWhile_induction hrun h fun _ _ => .event

namespace Records

theorem course (h : Records routing policy c s) (distinct : routing.replicas.Nodup)
    (hcourse : Course s asked s') : ∃ c', Records routing policy c' s' ∧
      Chronicle.Continues routing policy c c' ∧ c'.asked = c.asked ++ asked := by
  induction hcourse with
  | rest => exact ⟨c, h, .refl c, (List.append_nil _).symm⟩
  | event _ hstep ih =>
      obtain ⟨c₁, h₁, hcontinues, hasked⟩ := ih
      obtain ⟨c', h', hcontinues', hsame⟩ := h₁.step? distinct hstep
      exact ⟨c', h', hcontinues.trans hcontinues', hsame.trans hasked⟩
  | submit _ hsubmit ih =>
      obtain ⟨c₁, h₁, hcontinues, hasked⟩ := ih
      refine ⟨_, (h₁.submit hsubmit).1, hcontinues.trans (.ask c₁ _), ?_⟩
      rw [← List.append_assoc, ← hasked]
      rfl
  | takeResponse _ id ih =>
      obtain ⟨c₁, h₁, hrest⟩ := ih
      exact ⟨c₁, h₁.takeResponse id, hrest⟩
  | disturb _ hwithin ih =>
      obtain ⟨c₁, h₁, hrest⟩ := ih
      exact ⟨c₁, h₁.disturb hwithin, hrest⟩

theorem callEach (h : Records routing policy c s) (distinct : routing.replicas.Nodup)
    (hcall : s.callEach sites request = .ok (responses, s')) : ∃ c', Records routing policy c' s' ∧
      Chronicle.Continues routing policy c c' ∧ c'.asked = c.asked ++ sites.map (·, request) ∧
      ∀ site response, responses.get? site = some (some response) →
        c'.Replied site request response := by
  obtain ⟨submitted, s₁, condition, s₂, hsubmit, hrun, rfl, rfl⟩ := callAll_eq_ok hcall
  obtain ⟨h₁, hsubmitted⟩ := h.submitAll hsubmit
  obtain ⟨c', h', hcontinues, hasked⟩ := h₁.course distinct (Course.rest.runWhile hrun)
  obtain ⟨htaken, hanswered⟩ := h'.takeResponses submitted
  rw [List.append_nil] at hasked
  refine ⟨c', htaken, .trans (.ask c _) hcontinues, hasked, fun site response hget => ?_⟩
  obtain ⟨id, hid, hresponse⟩ := hanswered site response (SortedMap.mem_of_get?_ofList hget)
  obtain ⟨request', hmem, hrequest⟩ := hsubmitted _ hid
  obtain ⟨_, _, heq⟩ := List.mem_map.1 hmem
  cases heq
  exact ⟨id, hcontinues.submitted hrequest, hresponse⟩

/-- Once a shard has voted for a transfer and acknowledged its commit, it counts as committed
there. -/
theorem committedFor_of_replied (h : Records routing policy c s) (h' : Records routing policy c' s')
    (hcontinues : Chronicle.Continues routing policy c c') (distinct : routing.replicas.Nodup)
    (hk : routing.shardOf? a = some k) {r q : ReplicaId} {slot : Option Slot}
    (hr : r ∈ routing.group k) (hq : q ∈ routing.group k)
    (hyes : c.Replied r (.prepare tid txn) (.vote .yes))
    (hack : c.Replied q (.commit tid) (.ack slot)) : s'.CommittedFor a tid txn :=
  h.committedFor h' hcontinues hk hr hq (h.shows_of_yes distinct hr hyes)
    (h.shows_of_ack distinct hq hack)

end Records

/-! ### What a call returns -/

theorem routing_callEach (h : s.callEach sites request = .ok (responses, s')) :
    s'.routing = s.routing := by
  obtain ⟨_, _, _, _, hsubmit, hrun, _, rfl⟩ := callAll_eq_ok h
  exact (routing_takeResponses _ _).trans
    ((routing_runWhile hrun).trans (routing_submitAll hsubmit))

theorem transferAcrossVia_eq_ok
    (h : s.transferAcrossVia tid txn representatives = .ok (report, s')) : ∃ responses s₁,
      s.callEach representatives (.prepare tid txn) = .ok (responses, s₁) ∧
      report.decision = (collectVotes s.routing (.start tid (s.routing.participants txn))
        responses.toList).verdict ∧
      s₁.callEach (s.routing.members (s.routing.participants txn)) (report.decision.request tid) =
        .ok (report.acks, s') := by
  obtain ⟨⟨responses, s₁⟩, hpoll, h⟩ := bind_eq_ok_iff.1 h
  obtain ⟨⟨acks, s₂⟩, htell, h⟩ := bind_eq_ok_iff.1 h
  cases h
  have hrouting : s₁.routing = s.routing := routing_callEach hpoll
  rw [hrouting] at htell ⊢
  exact ⟨responses, s₁, hpoll, rfl, htell⟩

/-- Whether a replica of a shard answers yes when the representatives are asked to prepare. -/
def VotesYes (s : Simulation Replica) (k : ShardId) (representatives : List ReplicaId) (tid : Tid)
    (txn : Transaction) : Prop :=
  ∃ r ∈ s.routing.group k, ∃ responses s',
    s.callEach representatives (.prepare tid txn) = .ok (responses, s') ∧
      responses.get? r = some (some (.vote .yes))

/-- Whether a call settles a transfer on both sides.  After a decision to commit both shards have
acknowledged it, and neither had committed the transfer alone before; after one to abort nobody else
asks for a commit. -/
structure Settles (s : Simulation Replica) (tid : Tid) (txn : Transaction)
    (report : TransferReport (Option Response)) (asked : List (ReplicaId × Request)) : Prop where
  sender : report.decision = .commit → report.AcknowledgedFor s.routing txn.sender
  receiver : report.decision = .commit → report.AcknowledgedFor s.routing txn.receiver
  even : report.decision = .commit →
    (s.CommittedFor txn.sender tid txn ↔ s.CommittedFor txn.receiver tid txn)
  aborted : report.decision = .abort → ∀ p ∈ asked, p.2 ≠ .commit tid

/-- A decision to commit rests on an answer of yes from each shard that has one of the accounts. -/
theorem votesYes_of_commit (distinct : s.routing.replicas.Nodup)
    (hcall : s.transferAcrossVia tid txn representatives = .ok (report, s'))
    (hcommit : report.decision = .commit) (hk : k ∈ s.routing.participants txn) :
    s.VotesYes k representatives tid txn := by
  obtain ⟨responses, s₁, hpoll, hdecision, _⟩ := transferAcrossVia_eq_ok hcall
  obtain ⟨r, hr, hyes⟩ :=
    VoteTally.exists_yes_of_verdict distinct (hdecision.symm.trans hcommit) hk
  exact ⟨r, hr, responses, s₁, hpoll, hyes⟩

theorem Records.transferAcrossVia (h : Records routing policy c s)
    (distinct : routing.replicas.Nodup)
    (hcall : s.transferAcrossVia tid txn representatives = .ok (report, s')) :
    ∃ c', Records routing policy c' s' ∧ Chronicle.Continues routing policy c c' ∧
      (∀ p ∈ c'.asked,
        p ∈ c.asked ∨ p.2 = .prepare tid txn ∨ p.2 = report.decision.request tid) ∧
      (report.decision = .commit → ∀ k ∈ routing.participants txn,
        ∃ r ∈ routing.group k, c'.Replied r (.prepare tid txn) (.vote .yes)) ∧
      ∀ r response, report.acks.get? r = some (some response) →
        c'.Replied r (report.decision.request tid) response := by
  obtain ⟨responses, s₁, hpoll, hdecision, htell⟩ := transferAcrossVia_eq_ok hcall
  obtain ⟨c₁, h₁, hcontinues, hasked, hvotes⟩ := h.callEach distinct hpoll
  obtain ⟨c', h', hcontinues', hasked', hacks⟩ := h₁.callEach distinct htell
  refine ⟨c', h', hcontinues.trans hcontinues', fun p hp => ?_, fun hcommit k hk => ?_, hacks⟩
  · rw [hasked', hasked] at hp
    rcases List.mem_append.1 hp with hp | hp
    · refine (List.mem_append.1 hp).imp_right fun hp => .inl ?_
      obtain ⟨_, _, rfl⟩ := List.mem_map.1 hp
      rfl
    · obtain ⟨_, _, rfl⟩ := List.mem_map.1 hp
      exact .inr (.inr rfl)
  · rw [h.table] at hdecision
    obtain ⟨r, hr, hyes⟩ :=
      VoteTally.exists_yes_of_verdict distinct (hdecision.symm.trans hcommit) hk
    exact ⟨r, hr, hcontinues'.replied (hvotes r _ hyes)⟩

/-- A call that settles a transfer leaves it committed on both sides, or on neither. -/
theorem Records.even_of_settles (h : Records routing policy c s) (distinct : routing.replicas.Nodup)
    (hcall : s.transferAcrossVia tid txn representatives = .ok (report, s'))
    (hcourse : Course s' asked s'') (settles : s.Settles tid txn report (c.asked ++ asked)) :
    ∃ c'', Records routing policy c'' s'' ∧ Chronicle.Continues routing policy c c'' ∧
      s.Even s'' tid txn := by
  obtain ⟨c', h', hcontinues, hrequests, hvotes, hacks⟩ := h.transferAcrossVia distinct hcall
  obtain ⟨c'', h'', hcontinues', hasked⟩ := h'.course distinct hcourse
  refine ⟨c'', h'', hcontinues.trans hcontinues', ?_⟩
  cases hdecision : report.decision with
  | commit =>
      rw [hdecision] at hacks
      have hcommitted : ∀ a, report.AcknowledgedFor s.routing a →
          (∀ k, routing.shardOf? a = some k → k ∈ routing.participants txn) →
            s''.CommittedFor a tid txn := by
        rintro a ⟨k, hk, q, hq, slot, hack⟩ hparticipant
        rw [h.table] at hk hq
        obtain ⟨r, hr, hyes⟩ := hvotes hdecision k (hparticipant k hk)
        exact h'.committedFor_of_replied h'' hcontinues' distinct hk hr hq hyes (hacks q _ hack)
      have hsender := hcommitted _ (settles.sender hdecision) fun k hk =>
        RoutingTable.mem_participants_iff.2 (.inl hk)
      have hreceiver := hcommitted _ (settles.receiver hdecision) fun k hk =>
        RoutingTable.mem_participants_iff.2 (.inr hk)
      exact and_congr (iff_of_true hsender hreceiver) (not_congr (settles.even hdecision))
  | abort =>
      refine h''.even_of_unasked (.inr fun p hp hcommit => ?_)
      rw [hasked] at hp
      rcases List.mem_append.1 hp with hp | hp
      · rcases hrequests p hp with hp | hprepare | habort
        · exact settles.aborted hdecision p (List.mem_append_left _ hp) hcommit
        · rw [hcommit] at hprepare
          cases hprepare
        · rw [hcommit, hdecision] at habort
          cases habort
      · exact settles.aborted hdecision p (List.mem_append_right _ hp) hcommit

theorem Records.even_of_other (h : Records routing policy c s) (distinct : routing.replicas.Nodup)
    (hcall : s.transferAcrossVia tid txn representatives = .ok (report, s'))
    (hcourse : Course s' asked s'') {tid' : Tid} {txn' : Transaction}
    (other : (tid', txn') ≠ (tid, txn))
    (hnever : ∀ p ∈ c.asked ++ asked, p.2 ≠ .prepare tid' txn') : s.Even s'' tid' txn' := by
  obtain ⟨c', h', _, hrequests, _⟩ := h.transferAcrossVia distinct hcall
  obtain ⟨c'', h'', _, hasked⟩ := h'.course distinct hcourse
  refine h''.even_of_unasked (.inl fun p hp hprepare => ?_)
  rw [hasked] at hp
  rcases List.mem_append.1 hp with hp | hp
  · rcases hrequests p hp with hp | hsame | hdecision
    · exact hnever p (List.mem_append_left _ hp) hprepare
    · rw [hprepare] at hsame
      cases hsame
      exact other rfl
    · rw [hprepare] at hdecision
      cases hd : report.decision <;> rw [hd] at hdecision <;> cases hdecision
  · exact hnever p (List.mem_append_right _ hp) hprepare

theorem not_committedFor_start {network : Network} {seed : Word} (distinct : routing.replicas.Nodup)
    (hstart : start routing network policy seed = .ok s) : ¬ s.CommittedFor a tid txn := by
  intro hcommitted
  obtain ⟨_, _, hasked⟩ := (records_start distinct hstart).asked_of_committedFor hcommitted
  cases hasked

/-- A call to transfer commits only if each shard that has one of the accounts answers yes.  If it
settles the transfer, and no other is committed on one side only in the meantime, the sum of all
balances is afterwards what it was before. -/
theorem transfer_conserves (table : s.routing.Partitioned)
    (hcall : s.transferAcrossVia tid txn representatives = .ok (report, s')) :
    (report.decision = .commit → ∀ k,
      s.routing.shardOf? txn.sender = some k ∨ s.routing.shardOf? txn.receiver = some k →
        s.VotesYes k representatives tid txn) ∧
    ∀ {network : Network} {policy : ReplicaPolicy} {seed : Word} {s₀ s'' : Simulation Replica}
      {asked asked' : List (ReplicaId × Request)},
      start s.routing network policy seed = .ok s₀ → Course s₀ asked s → Course s' asked' s'' →
      s.Settles tid txn report (asked ++ asked') →
      (∀ tid' txn', (tid', txn') ≠ (tid, txn) → s.Even s'' tid' txn') →
        s''.totalBalance = s.totalBalance := by
  refine ⟨fun hcommit k hk => votesYes_of_commit table.distinct hcall hcommit
    (RoutingTable.mem_participants_iff.2 hk), ?_⟩
  intro network policy seed s₀ s'' asked asked' hstart hbefore hafter settles others
  obtain ⟨c, h, _, hasked⟩ := (records_start table.distinct hstart).course table.distinct hbefore
  have hsame : c.asked = asked := hasked
  rw [← hsame] at settles
  obtain ⟨c'', h'', hcontinues, heven⟩ :=
    h.even_of_settles table.distinct hcall hafter settles
  refine h.totalBalance_eq h'' hcontinues table fun tid' txn' => ?_
  by_cases heq : (tid', txn') = (tid, txn)
  · cases heq
    exact heven
  · exact others tid' txn' heq

/-- Two shards of one replica each have acknowledged the commit of a transfer between them. -/
theorem exists_settled : ∃ routing ∈ (RoutingTable.uniform 2 1 2).toOption,
    ∃ s ∈ (start routing {} {} 7).toOption,
    ∃ p ∈ (s.transferAcross ⟨1⟩ ⟨⟨1⟩, ⟨3⟩, 4⟩).toOption,
      p.2.runUntilIdle.toOption.isSome ∧
      (routing.participants ⟨⟨1⟩, ⟨3⟩, 4⟩).filterMap (fun k => (routing.group k).head?) =
        [⟨1⟩, ⟨2⟩] ∧
      routing.shardOf? ⟨1⟩ = some ⟨0⟩ ∧ routing.shardOf? ⟨3⟩ = some ⟨1⟩ ∧
      ⟨1⟩ ∈ routing.group ⟨0⟩ ∧ ⟨2⟩ ∈ routing.group ⟨1⟩ ∧ p.1.decision = .commit ∧
      p.1.acks.get? ⟨1⟩ = some (some (.ack (some ⟨1⟩))) ∧
      p.1.acks.get? ⟨2⟩ = some (some (.ack (some ⟨1⟩))) ∧ s.totalBalance = .ok 40 := by
  decide +kernel

theorem transfer_conserves_settled : ∃ routing s report s' s'',
    RoutingTable.uniform 2 1 2 = .ok routing ∧ start routing {} {} 7 = .ok s ∧
      s.transferAcross ⟨1⟩ ⟨⟨1⟩, ⟨3⟩, 4⟩ = .ok (report, s') ∧ s'.runUntilIdle = .ok s'' ∧
      report.decision = .commit ∧ s.Settles ⟨1⟩ ⟨⟨1⟩, ⟨3⟩, 4⟩ report [] ∧
      s.VotesYes ⟨0⟩ [⟨1⟩, ⟨2⟩] ⟨1⟩ ⟨⟨1⟩, ⟨3⟩, 4⟩ ∧ s.VotesYes ⟨1⟩ [⟨1⟩, ⟨2⟩] ⟨1⟩ ⟨⟨1⟩, ⟨3⟩, 4⟩ ∧
      s.totalBalance = .ok 40 ∧ s''.totalBalance = s.totalBalance := by
  obtain ⟨routing, htable, s, hstart, ⟨report, s'⟩, hfirst, hidle, hsites, hsender, hreceiver,
    hgroup, hgroup', hdecision, hack, hack', htotal⟩ := exists_settled
  obtain ⟨s'', hidle⟩ := Option.isSome_iff_exists.1 hidle
  have htable := toOption_eq_some_iff.1 htable
  have hstart := toOption_eq_some_iff.1 hstart
  have hfirst := toOption_eq_some_iff.1 hfirst
  have hidle := toOption_eq_some_iff.1 hidle
  have table : routing.Partitioned := RoutingTable.partitioned_of_uniform htable
  have h : Records routing {} (.start routing {}) s := records_start table.distinct hstart
  obtain rfl : s.routing = routing := h.table
  have hcall : s.transferAcrossVia ⟨1⟩ ⟨⟨1⟩, ⟨3⟩, 4⟩ [⟨1⟩, ⟨2⟩] = .ok (report, s') := by
    rw [← hsites]
    exact hfirst
  have hcourse : Course s' [] s'' := Course.rest.runWhile hidle
  have settles : s.Settles ⟨1⟩ ⟨⟨1⟩, ⟨3⟩, 4⟩ report [] := by
    have hnever : ∀ a, ¬ s.CommittedFor a ⟨1⟩ ⟨⟨1⟩, ⟨3⟩, 4⟩ :=
      fun _ => not_committedFor_start table.distinct hstart
    exact ⟨fun _ => ⟨⟨0⟩, hsender, ⟨1⟩, hgroup, _, hack⟩,
      fun _ => ⟨⟨1⟩, hreceiver, ⟨2⟩, hgroup', _, hack'⟩,
      fun _ => iff_of_false (hnever _) (hnever _), fun _ p hp => by cases hp⟩
  have others : ∀ tid txn, (tid, txn) ≠ (⟨1⟩, ⟨⟨1⟩, ⟨3⟩, 4⟩) → s.Even s'' tid txn :=
    fun tid txn other => h.even_of_other table.distinct hcall hcourse other
      fun p hp => by cases hp
  obtain ⟨hvotes, hconserves⟩ := transfer_conserves table hcall
  exact ⟨s.routing, s, report, s', s'', htable, hstart, hfirst, hidle, hdecision, settles,
    hvotes hdecision ⟨0⟩ (.inl hsender), hvotes hdecision ⟨1⟩ (.inr hreceiver), htotal,
    hconserves hstart .rest hcourse settles others⟩

/-- A transfer to an account that no shard has is committed, and its amount is lost. -/
theorem exists_lost_amount : ∃ routing s report s' s'',
    RoutingTable.uniform 2 1 2 = .ok routing ∧ start routing {} {} 7 = .ok s ∧
      routing.shardOf? ⟨9⟩ = none ∧
      s.transferAcross ⟨1⟩ ⟨⟨1⟩, ⟨9⟩, 4⟩ = .ok (report, s') ∧ s'.runUntilIdle = .ok s'' ∧
      report.decision = .commit ∧ s.totalBalance = .ok 40 ∧ s''.totalBalance = .ok 36 :=
  ⟨_, _, _, _, _, rfl, rfl, rfl, rfl, rfl, rfl, rfl, rfl⟩

end Simulation

end ReplicatedLedger
