import ReplicatedLedger.Proofs.Routing.Uniform
import ReplicatedLedger.Proofs.Simulation.Shards
import ReplicatedLedger.Proofs.Simulation.Transfer

/-!
Transfers across shards are atomic.  A caller decides to commit only when each shard concerned shows
the transfer as prepared, and at that time nobody has asked for a commit; so in every shard the
prepared entry comes first, and no shard is ever told the opposite.
-/

namespace ReplicatedLedger

open Relation (ReflTransGen)

def Decision.state : Decision → ParticipantState
  | .commit => .committed
  | .abort => .aborted

/-! ### Votes -/

namespace VoteTally

variable {t : VoteTally} {routing : RoutingTable} {k : ShardId} {vote : Vote}
  {responses : List (ReplicaId × Option Response)} {response : Option Response}

theorem eq_of_voteOf_eq_yes (h : voteOf response = .yes) : response = some (.vote .yes) := by
  unfold voteOf at h
  split at h
  · rw [h]
  · cases h
  · cases h

/-- The verdict is to commit only if all shards concerned have voted for it. -/
theorem yes_of_verdict (h : t.verdict = .commit) (hk : k ∈ t.participants) :
    t.votes.get? k = some .yes := by
  have hdecision : t.decision? = some .commit := by
    unfold verdict at h
    cases hd : t.decision? with
    | none =>
        rw [hd] at h
        cases h
    | some d =>
        rw [hd] at h
        exact congrArg some h
  unfold decision? at hdecision
  split at hdecision
  · cases hdecision
  · next hagainst =>
    split at hdecision
    · next hcomplete =>
      unfold isComplete at hcomplete
      obtain ⟨vote, hvote⟩ :=
        SortedMap.contains_eq_true_iff.1 (List.all_eq_true.1 hcomplete k hk)
      cases vote with
      | yes => exact hvote
      | no reason =>
          refine absurd (List.any_eq_true.2 ⟨.no reason, ?_, rfl⟩) hagainst
          exact SortedMap.mem_values_iff.2 ⟨k, hvote⟩
    · cases hdecision

theorem participants_collectVotes :
    (Simulation.collectVotes routing t responses).participants = t.participants := by
  unfold Simulation.collectVotes
  induction responses generalizing t with
  | nil => rfl
  | cons p responses ih =>
      rw [List.foldl_cons, ih]
      split <;> rfl

/-- A vote is that of a replica of the shard, unless it was there before. -/
theorem exists_of_collectVotes
    (h : (Simulation.collectVotes routing t responses).votes.get? k = some vote) :
    (∃ p ∈ responses, routing.shardOfReplica? p.1 = some k ∧ voteOf p.2 = vote) ∨
      t.votes.get? k = some vote := by
  unfold Simulation.collectVotes at h
  induction responses generalizing t with
  | nil => exact .inr h
  | cons p responses ih =>
      rw [List.foldl_cons] at h
      rcases ih h with ⟨q, hq, hvote⟩ | hvote
      · exact .inl ⟨q, List.mem_cons_of_mem _ hq, hvote⟩
      · split at hvote
        · next shard hshard =>
          unfold recordResponse record at hvote
          rw [SortedMap.get?_insert] at hvote
          split at hvote
          · next hk =>
            cases hvote
            rw [hk]
            exact .inl ⟨p, List.mem_cons_self, hshard, rfl⟩
          · exact .inr hvote
        · exact .inr hvote

/-- A decision to commit rests on an answer of yes from each shard concerned. -/
theorem exists_yes_of_verdict (distinct : routing.replicas.Nodup) {tid : Tid}
    {participants : List ShardId} {responses : SortedMap ReplicaId (Option Response)}
    (h : (Simulation.collectVotes routing (.start tid participants) responses.toList).verdict =
      .commit) (hk : k ∈ participants) :
    ∃ r ∈ routing.group k, responses.get? r = some (some (.vote .yes)) := by
  obtain ⟨⟨r, response⟩, hmem, hshard, hvote⟩ := (exists_of_collectVotes
    (yes_of_verdict h (by rw [participants_collectVotes]; exact hk))).resolve_right
      (by simp [VoteTally.start])
  obtain rfl := eq_of_voteOf_eq_yes hvote
  exact ⟨r, (RoutingTable.shardOfReplica?_eq_some_iff distinct).1 hshard,
    SortedMap.get?_eq_some_iff.2 hmem⟩

end VoteTally

namespace Simulation

open ReplicatedLedger.Group (Occurrence)

variable {routing : RoutingTable} {policy : ReplicaPolicy} {c c' : Chronicle} {k : ShardId}
  {s s' : Simulation Replica} {tid : Tid} {txn : Transaction} {r : ReplicaId} {m m' : Moment}

/-! ### What the trails of a shard show -/

theorem Records.asked_of_applied (h : Records routing policy c s) {i : Nat} {a : AppliedEntry}
    (ha : ((c.worlds k).machine r).books.applied[i]? = some a) :
    ∃ site, (site, a.entry.command.request) ∈ c.asked := by
  have hchosen := (h.history k).chosen_of_applied .rest ha
  obtain ⟨o, ho, hasked⟩ := (h.history k).requested hchosen
  obtain ⟨id, hevent⟩ := Event.command?_eq_some_iff.1 hasked
  exact ⟨o.replica, List.mem_of_getElem? (h.sources k o ho id _ hevent)⟩

section Answers

variable {site : ReplicaId} {slot : Option Slot} {o : Occurrence} {k' : ShardId} {id : RequestId}
  {request request' : Request}

/-- A request arrives nowhere but at the replica of which it was made. -/
theorem Records.eq_of_requested (h : Records routing policy c s) (distinct : routing.replicas.Nodup)
    (hsite : site ∈ routing.group k) (hsubmitted : c.Submitted site id request)
    (ho : o ∈ c.events k') (hevent : o.event = .request id request') :
    o.replica = site ∧ request' = request ∧ k' = k := by
  have hsame := hsubmitted.symm.trans (h.sources k' o ho id _ hevent)
  obtain ⟨rfl, rfl⟩ := Prod.mk.inj (Option.some.inj hsame)
  obtain ⟨_, _, _, _, _, met, _⟩ := (h.history k').split ho
  exact ⟨rfl, rfl, RoutingTable.group_unique distinct met.member hsite⟩

/-- A replica that voted for a transfer shows it as prepared. -/
theorem Records.shows_of_yes (h : Records routing policy c s) (distinct : routing.replicas.Nodup)
    (hsite : site ∈ routing.group k) (hreplied : c.Replied site (.prepare tid txn) (.vote .yes)) :
    ((c.worlds k).machine site).books.Shows (.prepare tid txn) := by
  obtain ⟨id, hsubmitted, k', o, ho, hm⟩ := hreplied
  obtain ⟨tid', txn', ⟨o', ho', hreplica, request, hevent, hcommand⟩, hshows⟩ :=
    (h.history k').shows_of_yes ho hm
  obtain rfl := Request.command?_eq_some_iff.1 hcommand
  obtain ⟨rfl, hrequest, rfl⟩ := h.eq_of_requested distinct hsite hsubmitted ho' hevent
  cases hrequest
  rw [hreplica]
  exact hshows

theorem Records.shows_of_ack (h : Records routing policy c s) (distinct : routing.replicas.Nodup)
    (hsite : site ∈ routing.group k) (hreplied : c.Replied site (.commit tid) (.ack slot)) :
    ((c.worlds k).machine site).books.Shows (.commit tid) := by
  obtain ⟨id, hsubmitted, k', o, ho, hm⟩ := hreplied
  obtain ⟨request, ⟨o', ho', hreplica, hevent⟩, hshows⟩ := (h.history k').shows_of_ack ho hm
  obtain ⟨rfl, hrequest, rfl⟩ := h.eq_of_requested distinct hsite hsubmitted ho' hevent
  rw [hreplica]
  exact hshows tid hrequest

end Answers

/-- Whether a member of a shard has prepared a transfer, with no commit of it before. -/
def PreparedFirst (routing : RoutingTable) (k : ShardId) (tid : Tid) (txn : Transaction)
    (w : World Replica) : Prop :=
  ∃ r ∈ routing.group k, ∃ (i : Nat) (a : AppliedEntry),
    (w.machine r).books.applied[i]? = some a ∧ a.entry.command = .prepare tid txn ∧
      a.outcome = .prepared ∧ ∀ (j : Nat) (b : AppliedEntry), j < i →
        (w.machine r).books.applied[j]? = some b → b.entry.command ≠ .commit tid

theorem PreparedFirst.continues (h : PreparedFirst routing k tid txn (c.worlds k))
    (hrecords : Records routing policy c s) (hcontinues : Chronicle.Continues routing policy c c') :
    PreparedFirst routing k tid txn (c'.worlds k) := by
  obtain ⟨r, hr, i, a, ha, hcommand, houtcome, hfirst⟩ := h
  obtain ⟨more, _, hhistory⟩ := hcontinues.onwards k
  have hinOrder := (hrecords.history k).inOrder (Group.inOrder_replicas _ _)
  have hgrows := List.prefix_iff_getElem?.1 (hhistory.applied_grows hinOrder r)
  have hi := (List.getElem?_eq_some_iff.1 ha).1
  refine ⟨r, hr, i, a, ?_, hcommand, houtcome, fun j b hj hb => hfirst j b hj ?_⟩
  · rw [hgrows i hi, ← List.getElem?_eq_getElem hi, ha]
  · rw [← hb, hgrows j (by omega), List.getElem?_eq_getElem]

/-! ### What is asked for about the transaction -/

/-- The requests about the transaction that the call has made by now. -/
def Stage.Allows (tid : Tid) (txn : Transaction) (request : Request) : Stage → Prop
  | .before => False
  | .polled _ => request = .prepare tid txn
  | .told decision => request = .prepare tid txn ∨ request = decision.request tid

/-- What the call has brought about by now. -/
structure Conducted (routing : RoutingTable) (policy : ReplicaPolicy) (tid : Tid)
    (txn : Transaction) (c : Chronicle) (m : Moment) : Prop where
  records : Records routing policy c m.run
  allowed : ∀ p ∈ c.asked, p.2.tid? = some tid → m.stage.Allows tid txn p.2
  polled : ∀ submitted, m.stage = .polled submitted → ∀ p ∈ submitted,
    c.Submitted p.1 p.2 (.prepare tid txn)
  prepared : m.stage = .told .commit → ∀ k ∈ routing.participants txn,
    PreparedFirst routing k tid txn (c.worlds k)

namespace Conducted

theorem start {s : Simulation Replica} (h : Records routing policy (.start routing policy) s) :
    Conducted routing policy tid txn (.start routing policy) ⟨.before, s⟩ where
  records := h
  allowed _ hp := by cases hp
  polled _ hstage := by cases hstage
  prepared hstage := by cases hstage

/-- The call goes on undisturbed while nothing more is asked about the transaction. -/
theorem continues {stage : Stage} (h : Conducted routing policy tid txn c ⟨stage, s⟩)
    (hrecords : Records routing policy c' s')
    (hcontinues : Chronicle.Continues routing policy c c')
    (silent : ∀ p ∈ c'.asked, p ∈ c.asked ∨ p.2.tid? ≠ some tid) :
    Conducted routing policy tid txn c' ⟨stage, s'⟩ where
  records := hrecords
  allowed p hp htid := h.allowed p ((silent p hp).resolve_right fun hne => hne htid) htid
  polled submitted hstage p hp := hcontinues.submitted (h.polled submitted hstage p hp)
  prepared hstage k hk := (h.prepared hstage k hk).continues h.records hcontinues

/-- Before the decision nothing else is asked about the transaction than to prepare it. -/
theorem eq_of_asked {submitted : List (ReplicaId × RequestId)} {command : Command}
    {site : ReplicaId} (h : Conducted routing policy tid txn c ⟨.polled submitted, s⟩)
    (hasked : (site, command.request) ∈ c.asked) (htid : command.tid = tid) :
    command = .prepare tid txn := by
  subst htid
  have hallowed : command.request = .prepare command.tid txn := by
    refine h.allowed _ hasked ?_
    cases command <;> rfl
  cases command with
  | prepare tid' txn' => cases hallowed; rfl
  | _ => cases hallowed

/-- A verdict to commit rests on a prepared entry in each shard concerned. -/
theorem preparedFirst (distinct : routing.replicas.Nodup)
    {submitted : List (ReplicaId × RequestId)}
    (h : Conducted routing policy tid txn c ⟨.polled submitted, s⟩)
    (hverdict : (s.votesOn tid txn submitted).verdict = .commit)
    (hk : k ∈ routing.participants txn) : PreparedFirst routing k tid txn (c.worlds k) := by
  unfold votesOn at hverdict
  rw [h.records.table] at hverdict
  obtain ⟨site, hsite, hget⟩ := VoteTally.exists_yes_of_verdict distinct hverdict hk
  -- the vote is an answer to one of the prepare requests
  obtain ⟨id, hsubmitted, hanswered⟩ :=
    (h.records.takeResponses _).2 site _ (SortedMap.mem_of_get?_ofList hget)
  have hshows := h.records.shows_of_yes distinct hsite
    ⟨id, h.polled submitted rfl _ hsubmitted, hanswered⟩
  obtain ⟨i, a, ha, hprepare, houtcome⟩ := Books.exists_of_preparedIn
    (((h.records.history k).traced _).shows_prepare_iff.1 hshows)
  refine ⟨site, hsite, i, a, ha, hprepare, houtcome, fun j b _ hb hcommit => ?_⟩
  obtain ⟨_, hasked⟩ := h.records.asked_of_applied hb
  have hprepared := h.eq_of_asked hasked (by rw [hcommit]; rfl)
  rw [hcommit] at hprepared
  cases hprepared

theorem step (distinct : routing.replicas.Nodup) (h : Conducted routing policy tid txn c m)
    (hstep : Step tid txn m m') : ∃ c', Conducted routing policy tid txn c' m' ∧
      Chronicle.Continues routing policy c c' := by
  cases hstep with
  | event hevent =>
      obtain ⟨c', hrecords, hcontinues, hasked⟩ := h.records.step? distinct hevent
      refine ⟨c', h.continues hrecords hcontinues fun p hp => .inl ?_, hcontinues⟩
      rw [← hasked]
      exact hp
  | @submit stage s s' site request id other hsubmit =>
      have hcontinues : Chronicle.Continues routing policy c (c.ask [(site, request)]) := .ask c _
      refine ⟨_, h.continues (h.records.submit hsubmit).1 hcontinues fun p hp => ?_, hcontinues⟩
      rcases List.mem_append.1 hp with hp | hp
      · exact .inl hp
      · rw [List.mem_singleton.1 hp]
        exact .inr other
  | takeResponse =>
      exact ⟨c, h.continues (h.records.takeResponse _) (.refl c) fun _ => .inl, .refl c⟩
  | disturb hwithin =>
      exact ⟨c, h.continues (h.records.disturb hwithin) (.refl c) fun _ => .inl, .refl c⟩
  | @poll s s' representatives submitted hpoll =>
      have hcontinues : Chronicle.Continues routing policy c
        (c.ask (representatives.map (·, .prepare tid txn))) := .ask c _
      obtain ⟨hrecords, hsubmitted⟩ := h.records.submitAll hpoll
      refine ⟨_, ⟨hrecords, fun p hp htid => ?_, ?_, fun hstage => (by cases hstage)⟩, hcontinues⟩
      · rcases List.mem_append.1 hp with hp | hp
        · exact (h.allowed p hp htid).elim
        · obtain ⟨_, _, rfl⟩ := List.mem_map.1 hp
          rfl
      · intro submitted hstage p hp
        cases hstage
        obtain ⟨request, hmem, hasked⟩ := hsubmitted p hp
        obtain ⟨_, _, heq⟩ := List.mem_map.1 hmem
        cases heq
        exact hasked
  | @tell s s' submitted htell =>
      obtain ⟨⟨ids, s₁⟩, hsubmit, rfl⟩ := map_eq_ok_iff.1 htell
      obtain ⟨hrecords, _⟩ := (h.records.takeResponses submitted).1.submitAll hsubmit
      have hcontinues : Chronicle.Continues routing policy c (c.ask _) := .ask c
        ((s.routing.members (s.routing.participants txn)).map
          (·, (s.votesOn tid txn submitted).verdict.request tid))
      refine ⟨_, ⟨hrecords, fun p hp htid => ?_, fun _ hstage => (by cases hstage), ?_⟩, hcontinues⟩
      · rcases List.mem_append.1 hp with hp | hp
        · exact .inl (h.allowed p hp htid)
        · obtain ⟨_, _, rfl⟩ := List.mem_map.1 hp
          exact .inr rfl
      · intro hstage k hk
        have hfirst : PreparedFirst routing k tid txn (c.worlds k) :=
          h.preparedFirst distinct (Stage.told.inj hstage) hk
        exact hfirst

theorem steps (distinct : routing.replicas.Nodup) (h : Conducted routing policy tid txn c m)
    (hsteps : ReflTransGen (Step tid txn) m m') : ∃ c', Conducted routing policy tid txn c' m' ∧
      Chronicle.Continues routing policy c c' := by
  induction hsteps with
  | refl => exact ⟨c, h, .refl c⟩
  | tail _ hstep ih =>
      obtain ⟨c₁, h₁, hcontinues⟩ := ih
      obtain ⟨c', h', hcontinues'⟩ := h₁.step distinct hstep
      exact ⟨c', h', hcontinues.trans hcontinues'⟩

end Conducted

/-! ### Atomicity -/

def Holds (s : Simulation Replica) (r : ReplicaId) (tid : Tid) (state : ParticipantState) : Prop :=
  ∃ machine, s.machines.get? r = some machine ∧
    machine.books.participants.state? tid = some state

/-- Whether the trail of a replica shows a transfer as prepared by the entry of a slot. -/
def PreparedAt (slot : Slot) (tid : Tid) (txn : Transaction) (r : Replica) : Prop :=
  ∃ a ∈ r.books.applied, a.entry.slot = slot ∧ a.entry.command = .prepare tid txn ∧
    a.outcome = .prepared

/-- Whether a shard has prepared a transfer, in the trails of its replicas, at a slot before that of
any entry that commits it. -/
def PreparesBeforeCommit (s : Simulation Replica) (k : ShardId) (tid : Tid) (txn : Transaction) :
    Prop :=
  ∃ slot, (∃ r ∈ s.routing.group k, ∃ machine, s.machines.get? r = some machine ∧
      PreparedAt slot tid txn machine) ∧
    ∀ r ∈ s.routing.group k, ∀ machine, s.machines.get? r = some machine →
      ∀ a ∈ machine.books.applied, a.entry.command = .commit tid →
        slot < a.entry.slot ∧ PreparedAt slot tid txn machine

variable {decision : Decision}

/-- A transaction is decided only as somebody asked for it. -/
theorem Records.asked_of_holds (h : Records routing policy c s)
    (hholds : s.Holds r tid decision.state) : ∃ site, (site, decision.request tid) ∈ c.asked := by
  obtain ⟨machine, hmachine, hstate⟩ := hholds
  obtain ⟨k, _, rfl⟩ := (h.machines r machine).1 hmachine
  have hdecision : decision.state ≠ .prepared := by cases decision <;> simp [Decision.state]
  obtain ⟨a, ha, hdecided⟩ :=
    (((h.history k).traced r).decided tid decision.state hdecision).1 hstate
  obtain ⟨i, hi⟩ := List.mem_iff_getElem?.1 ha
  obtain ⟨site, hasked⟩ := h.asked_of_applied hi
  refine ⟨site, ?_⟩
  cases decision with
  | commit =>
      rw [(AppliedEntry.decided?_eq_committed_iff.1 hdecided).1] at hasked
      exact hasked
  | abort =>
      rw [(AppliedEntry.decided?_eq_aborted_iff.1 hdecided).1] at hasked
      exact hasked

theorem Conducted.told_of_asked {site : ReplicaId} (h : Conducted routing policy tid txn c m)
    (hasked : (site, decision.request tid) ∈ c.asked) : m.stage = .told decision := by
  have hallowed := h.allowed _ hasked (by cases decision <;> rfl)
  unfold Stage.Allows at hallowed
  split at hallowed
  · exact hallowed.elim
  · cases decision <;> cases hallowed
  · next told _ =>
    rcases hallowed with hallowed | hallowed
    · cases decision <;> cases hallowed
    · cases decision <;> cases told <;> cases hallowed <;> assumption

/-- In a shard that has prepared a transfer before any commit of it, every replica has. -/
theorem PreparedFirst.preparesBeforeCommit (h : PreparedFirst routing k tid txn (c.worlds k))
    (hrecords : Records routing policy c s) : s.PreparesBeforeCommit k tid txn := by
  obtain ⟨r, hr, i, a, ha, hcommand, houtcome, hfirst⟩ := h
  have hinOrder := (hrecords.history k).inOrder (Group.inOrder_replicas _ _)
  have hmachine : ∀ q ∈ routing.group k, s.machines.get? q = some ((c.worlds k).machine q) :=
    fun q hq => (hrecords.machines q _).2 ⟨k, hq, rfl⟩
  unfold PreparesBeforeCommit
  rw [hrecords.table]
  refine ⟨a.entry.slot, ⟨r, hr, _, hmachine r hr, a, List.mem_of_getElem? ha, rfl, hcommand,
    houtcome⟩, fun q hq machine hget e he hcommit => ?_⟩
  obtain rfl := Option.some.inj ((hmachine q hq).symm.trans hget)
  obtain ⟨j, hj⟩ := List.mem_iff_getElem?.1 he
  have hj' := (List.getElem?_eq_some_iff.1 hj).1
  have hi := (List.getElem?_eq_some_iff.1 ha).1
  -- the commit stands where the first replica has nothing yet, or something later than its own
  have hlt : i < j := by
    by_contra hge
    have hb := List.getElem?_eq_getElem (Nat.lt_of_le_of_lt (Nat.not_lt.1 hge) hi)
    obtain ⟨_, hsame, _⟩ := hinOrder.deed_eq hb hj
    rcases Nat.lt_or_eq_of_le (Nat.not_lt.1 hge) with hlt | rfl
    · exact hfirst j _ hlt hb (hsame.trans hcommit)
    · rw [hb, Option.some.injEq] at ha
      rw [ha, hcommand, hcommit] at hsame
      cases hsame
  have ha' := List.getElem?_eq_getElem (Nat.lt_trans hlt hj')
  obtain ⟨hslot, hcommand', houtcome'⟩ := hinOrder.deed_eq ha ha'
  refine ⟨?_, _, List.mem_of_getElem? ha', hslot.symm, hcommand'.symm.trans hcommand,
    houtcome'.symm.trans houtcome⟩
  have hindex := ((hinOrder.replays r).known i a ha).1
  have hindex' := ((hinOrder.replays q).known j e hj).1
  rw [Slot.lt_iff_toNat]
  omega

/-- While one call alone makes requests about a transaction, no two replicas ever have it decided
differently.  If one has committed it, the decision of the call was to commit, and each shard
concerned has prepared it before any commit.  A call to transfer is a run of this kind.  No table
that passes `ofRanges` or is `uniform` lists a replica twice. -/
theorem transfer_atomic {network : Network} {seed : Word} {s₀ : Simulation Replica}
    (hstart : start routing network policy seed = .ok s₀) (distinct : routing.replicas.Nodup)
    (hsteps : ReflTransGen (Step tid txn) ⟨.before, s₀⟩ m)
    (hsteps' : ReflTransGen (Step tid txn) m m') :
    (∀ r r', ¬ (m.run.Holds r tid .committed ∧ m'.run.Holds r' tid .aborted) ∧
      ¬ (m.run.Holds r tid .aborted ∧ m'.run.Holds r' tid .committed)) ∧
    (∀ r, m'.run.Holds r tid .committed → m'.stage = .told .commit ∧
      ∀ k ∈ routing.participants txn, m'.run.PreparesBeforeCommit k tid txn) ∧
    ∀ representatives report s', m.stage = .before →
      m.run.transferAcrossVia tid txn representatives = .ok (report, s') →
        ReflTransGen (Step tid txn) m ⟨.told report.decision, s'⟩ := by
  obtain ⟨c, h, _⟩ := (Conducted.start (records_start distinct hstart)).steps distinct hsteps
  obtain ⟨c', h', hcontinues⟩ := h.steps distinct hsteps'
  -- what was decided by a moment was asked for, and the call asks for one decision only
  have htold : ∀ r decision, m'.run.Holds r tid (Decision.state decision) →
      m'.stage = .told decision := by
    intro r decision hholds
    obtain ⟨site, hasked⟩ := h'.records.asked_of_holds hholds
    exact h'.told_of_asked hasked
  have htold' : ∀ r decision, m.run.Holds r tid (Decision.state decision) →
      m'.stage = .told decision := by
    intro r decision hholds
    obtain ⟨site, hasked⟩ := h.records.asked_of_holds hholds
    exact h'.told_of_asked (hcontinues.asked.subset hasked)
  refine ⟨fun r r' => ⟨?_, ?_⟩, fun r hcommitted => ?_, ?_⟩
  · rintro ⟨hcommitted, haborted⟩
    cases (htold' r .commit hcommitted).symm.trans (htold r' .abort haborted)
  · rintro ⟨haborted, hcommitted⟩
    cases (htold' r .abort haborted).symm.trans (htold r' .commit hcommitted)
  · have hstage := htold r .commit hcommitted
    exact ⟨hstage, fun k hk => (h'.prepared hstage k hk).preparesBeforeCommit h'.records⟩
  · rintro representatives report s' hstage hcall
    obtain ⟨stage, s⟩ := m
    cases hstage
    exact steps_transferAcrossVia hcall

/-- Two shards of two replicas each commit a transfer between them. -/
theorem exists_committed : ∃ routing ∈ (RoutingTable.uniform 2 2 2).toOption,
    ∃ s₀ ∈ (start routing { jitter := ⟨0⟩ } {} 7).toOption,
    ∃ p ∈ (s₀.transferAcross ⟨1⟩ ⟨⟨1⟩, ⟨3⟩, 4⟩).toOption,
    ∃ machine ∈ p.2.machines.get? ⟨2⟩,
      machine.books.participants.state? ⟨1⟩ = some .committed ∧
      routing.participants ⟨⟨1⟩, ⟨3⟩, 4⟩ = [⟨0⟩, ⟨1⟩] ∧ routing.group ⟨0⟩ = [⟨1⟩, ⟨2⟩] := by
  decide +kernel

/-- A replica that was not asked for its vote commits the transfer with the others. -/
theorem transfer_atomic_committed : ∃ routing s₀ report s',
    RoutingTable.uniform 2 2 2 = .ok routing ∧ routing.group ⟨0⟩ = [⟨1⟩, ⟨2⟩] ∧
      start routing { jitter := ⟨0⟩ } {} 7 = .ok s₀ ∧
      s₀.transferAcross ⟨1⟩ ⟨⟨1⟩, ⟨3⟩, 4⟩ = .ok (report, s') ∧
      s'.Holds ⟨2⟩ ⟨1⟩ .committed ∧ (∀ r', ¬ s'.Holds r' ⟨1⟩ .aborted) ∧
      report.decision = .commit ∧ routing.participants ⟨⟨1⟩, ⟨3⟩, 4⟩ = [⟨0⟩, ⟨1⟩] ∧
      ∀ k ∈ routing.participants ⟨⟨1⟩, ⟨3⟩, 4⟩,
        s'.PreparesBeforeCommit k ⟨1⟩ ⟨⟨1⟩, ⟨3⟩, 4⟩ := by
  obtain ⟨routing, htable, s₀, hstart, ⟨report, s'⟩, hcall, machine, hmachine, hstate, hparticipants,
    hgroup⟩ := exists_committed
  have htable := toOption_eq_some_iff.1 htable
  have hstart := toOption_eq_some_iff.1 hstart
  have hcall := toOption_eq_some_iff.1 hcall
  have hcommitted : s'.Holds ⟨2⟩ ⟨1⟩ .committed := ⟨machine, hmachine, hstate⟩
  have hsteps : ReflTransGen (Step ⟨1⟩ ⟨⟨1⟩, ⟨3⟩, 4⟩) ⟨.before, s₀⟩ ⟨.told report.decision, s'⟩ :=
    steps_transferAcrossVia hcall
  obtain ⟨hagree, hcommit, _⟩ := transfer_atomic hstart
    (RoutingTable.nodup_replicas_of_uniform htable) hsteps .refl
  obtain ⟨hstage, hprepared⟩ := hcommit ⟨2⟩ hcommitted
  exact ⟨routing, s₀, report, s', htable, hgroup, hstart, hcall, hcommitted,
    fun r' haborted => (hagree ⟨2⟩ r').1 ⟨hcommitted, haborted⟩, Stage.told.inj hstage,
    hparticipants, hprepared⟩

end Simulation

end ReplicatedLedger
