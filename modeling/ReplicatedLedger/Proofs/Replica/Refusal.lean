import ReplicatedLedger.Proofs.Replica.History

/-!
What a vote for a transfer promises.  A commit that is submitted after the vote finds the record,
unless an earlier copy of it was chosen before the prepare and the replica that is asked has not
applied that copy yet: then it takes the copy for its own, and refuses the commit with it.
-/

namespace ReplicatedLedger

namespace Group

variable {g : Group} {balance : Amount} {w w' : World Replica}
  {events before after : List Occurrence} {o : Occurrence} {r v : ReplicaId} {id : RequestId}
  {tid : Tid}

/-- Whether a replica voted for a transfer, under an id that it was given for this request only. -/
def Voted (events : List Occurrence) (r : ReplicaId) (tid : Tid) : Prop :=
  ∃ id txn, (∃ o ∈ events, o.replica = r ∧ o.event = .request id (.prepare tid txn)) ∧
    (∀ o ∈ events, o.replica = r → ∀ request, o.event = .request id request →
      request = .prepare tid txn) ∧
    ∃ o ∈ events, o.replica = r ∧ .respond id (.vote .yes) ∈ o.actions

theorem Voted.prepared (hvote : Voted events r tid)
    (h : g.History (g.replicas balance) events w) :
    ∃ (p : Nat) (a : AppliedEntry) (txn : Transaction), (w.machine r).books.applied[p]? = some a ∧
      a.entry.command = .prepare tid txn ∧ a.outcome = .prepared := by
  obtain ⟨id, txn, _, hunique, o, ho, rfl, hm⟩ := hvote
  obtain ⟨tid', txn', ⟨o', ho', hreplica, request, hevent, hcommand⟩, hshows⟩ :=
    h.shows_of_yes ho hm
  obtain rfl := hunique o' ho' hreplica request hevent
  cases hcommand
  obtain ⟨p, a, ha⟩ := Books.exists_of_preparedIn ((h.traced _).shows_prepare_iff.1 hshows)
  exact ⟨p, a, txn, ha⟩

/-- Whether a command is asked for at a replica, under an id that it was not given before and is
given for no other request. -/
def AskedAfter (before after : List Occurrence) (r : ReplicaId) (id : RequestId) (c : Command) :
    Prop :=
  (∃ o ∈ after, o.replica = r ∧ o.event = .request id c.request) ∧
    (∀ o ∈ before, o.replica = r → ∀ request, o.event ≠ .request id request) ∧
    ∀ o ∈ after, o.replica = r → ∀ request, o.event = .request id request → request = c.request

/-- Where a refusal of a commit as unknown comes from. -/
theorem History.exists_unknown (h : g.History (g.replicas balance) events w) (ho : o ∈ events)
    (refused : .respond id (.error (.unknownTransaction tid)) ∈ o.actions) :
    ∃ (floor s : Slot) (a : AppliedEntry),
      g.ArrivedAt balance events o.replica id (.commit tid) floor ∧ floor ≤ s ∧
        (w.machine o.replica).books.applied[s.index.toNat]? = some a ∧
        a.entry.command = .commit tid ∧ a.outcome = .rejected .unknownTransaction := by
  obtain ⟨earlier, later, w₀, hevents, hearlier, hmet, hlater, hanswer⟩ := h.responds ho refused
  obtain ⟨_, hgrows⟩ := hlater.applied_met (hearlier.inOrder (g.inOrder_replicas balance)) hmet
  rcases hanswer with ⟨_, _, _, _, hknown⟩ | hrefused | happlied
  · exact absurd rfl (hknown tid)
  · exact absurd rfl hrefused.ne_unknown
  · have hattested :=
      (((hearlier.event hmet).inOrder (g.inOrder_replicas balance)).replays o.replica).attested
    rw [World.machine_update_self] at hattested
    obtain ⟨floor, s, a, harrived, hle, ha, hcommand, houtcome⟩ := happlied.of_unknown hattested
    exact ⟨floor, s, a, harrived, hle, Books.getElem?_of_begins ha hgrows, hcommand, houtcome⟩

/-- A commit was found unknown only before its transaction was prepared. -/
theorem lt_of_unknown (h : g.InOrder balance w) {i p : Nat} {a b : AppliedEntry} {txn : Transaction}
    (ha : (w.machine r).books.applied[i]? = some a) (hcommit : a.entry.command = .commit tid)
    (hunknown : a.outcome = .rejected .unknownTransaction)
    (hb : (w.machine v).books.applied[p]? = some b) (hprepare : b.entry.command = .prepare tid txn)
    (hprepared : b.outcome = .prepared) : i < p := by
  by_contra hle
  obtain ⟨hi, _⟩ := List.getElem?_eq_some_iff.1 ha
  -- the prepare would be in the trail that found the commit unknown, at the same position
  have hp : p < (w.machine r).books.applied.length := by omega
  obtain ⟨x, hx⟩ : ∃ x, (w.machine r).books.applied[p]? = some x :=
    ⟨_, List.getElem?_eq_getElem hp⟩
  obtain ⟨_, hcommand, houtcome⟩ := h.deed_eq hx hb
  have hne : p ≠ i := by
    rintro rfl
    rw [ha] at hx
    cases hx
    rw [hcommit, hprepare] at hcommand
    cases hcommand
  have hearlier : ((w.machine r).books.applied.take i)[p]? = some x := by
    rw [List.getElem?_take_of_lt (by omega)]
    exact hx
  obtain ⟨tid', hcommit', hnone⟩ := (h.replays r).attested.unknown i a ha hunknown
  rw [hcommit] at hcommit'
  cases hcommit'
  exact Books.preparedIn_ne_none hearlier (hcommand.trans hprepare) (houtcome.trans hprepared) hnone

/-- After a vote for a transfer its commit is refused as unknown only because of a stale copy: one
that was asked for before the vote, was found unknown at a slot below that of the prepare, and was
not yet applied where the commit was asked for. -/
theorem refused_by_stale_commit (h : g.History (g.replicas balance) before w)
    (h' : g.History w after w') (voted : Voted before v tid) (ho : o ∈ after)
    (refused : .respond id (.error (.unknownTransaction tid)) ∈ o.actions) :
    ∃ (i p : Nat) (a b : AppliedEntry) (txn : Transaction), i < p ∧
      (w.machine v).books.applied[i]? = some a ∧ a.entry.command = .commit tid ∧
      a.outcome = .rejected .unknownTransaction ∧
      (w.machine v).books.applied[p]? = some b ∧ b.entry.command = .prepare tid txn ∧
      b.outcome = .prepared ∧ Requested before (.commit tid) ∧
      ∃ floor, g.ArrivedAt balance (before ++ after) o.replica id (.commit tid) floor ∧
        floor.index.toNat ≤ i := by
  have hw := h.inOrder (g.inOrder_replicas balance)
  have hw' := h'.inOrder hw
  obtain ⟨p, b, txn, hb, hprepare, hprepared⟩ := voted.prepared h
  obtain ⟨floor, s, a, harrived, hle, ha, hcommit, hunknown⟩ :=
    (h.append h').exists_unknown (List.mem_append_right _ ho) refused
  have hgrows := h'.applied_grows hw v
  have hb' := Books.getElem?_of_begins hb hgrows
  have hlt := lt_of_unknown hw' ha hcommit hunknown hb' hprepare hprepared
  -- the replica that voted has an entry below its prepare, and it is the same
  obtain ⟨hp, _⟩ := List.getElem?_eq_some_iff.1 hb
  have hstale := List.getElem?_eq_getElem (Nat.lt_trans hlt hp)
  obtain ⟨_, hcommand, houtcome⟩ := hw'.deed_eq (Books.getElem?_of_begins hstale hgrows) ha
  refine ⟨_, p, _, _, txn, hlt, hstale, hcommand.trans hcommit, houtcome.trans hunknown, hb,
    hprepare, hprepared, ?_, floor, harrived, Slot.le_iff_toNat.1 hle⟩
  have hasked := h.requested (h.chosen_of_applied .rest hstale)
  rwa [hcommand, hcommit] at hasked

/-! ### A stale commit -/

/-- The first replica has a commit chosen, which it finds unknown.  The second one has voted for it
and does not hear that it is chosen. -/
def committingEarly : List Cue :=
  ⟨⟨1⟩, .zero, .request ⟨0⟩ (.commit ⟨1⟩)⟩ ::
    (balloting ⟨1⟩ ⟨2⟩ ⟨1, ⟨1⟩⟩ .first none (.commit ⟨1⟩)).map .delivered

/-- The first replica has the transfer of that commit prepared, and votes for it. -/
def preparingLate : List Cue :=
  ⟨⟨1⟩, .zero, .request ⟨1⟩ (.prepare ⟨1⟩ ⟨⟨1⟩, ⟨2⟩, 3⟩)⟩ ::
    (balloting ⟨1⟩ ⟨2⟩ ⟨2, ⟨1⟩⟩ ⟨1⟩ none (.prepare ⟨1⟩ ⟨⟨1⟩, ⟨2⟩, 3⟩)).map .delivered

/-- The second replica is asked for the commit, and is told of the one that was chosen before. -/
def committingAgain : List Cue :=
  [⟨⟨2⟩, .zero, .request ⟨2⟩ (.commit ⟨1⟩)⟩,
    .delivered ⟨⟨2⟩, ⟨1⟩, .prepare ⟨3, ⟨2⟩⟩ .first⟩,
    .delivered ⟨⟨1⟩, ⟨2⟩, .chosen ⟨.first, ⟨1, ⟨1⟩⟩, .commit ⟨1⟩⟩⟩]

def committedEarly : World Replica := (pair.meetAll (pair.replicas 10) committingEarly).2

def preparedLate : World Replica := (pair.meetAll committedEarly preparingLate).2

/-- What has happened when the first replica has voted for the transfer. -/
def untilVote : List Occurrence :=
  (pair.meetAll (pair.replicas 10) committingEarly).1 ++ (pair.meetAll committedEarly preparingLate).1

theorem history_untilVote : pair.History (pair.replicas 10) untilVote preparedLate :=
  (pair.history_meetAll _ committingEarly).append (pair.history_meetAll _ preparingLate)

theorem cue_of_mem_untilVote {o : Occurrence} (ho : o ∈ untilVote) :
    ⟨o.replica, o.time, o.event⟩ ∈ committingEarly ++ preparingLate :=
  List.mem_append.2 ((List.mem_append.1 ho).imp cue_of_mem_meetAll cue_of_mem_meetAll)

theorem voted_untilVote : Voted untilVote ⟨1⟩ ⟨1⟩ := by
  refine ⟨⟨1⟩, ⟨⟨1⟩, ⟨2⟩, 3⟩, by decide +kernel, fun o ho hr request hevent => ?_, by decide +kernel⟩
  have hcue := cue_of_mem_untilVote ho
  rw [hr, hevent] at hcue
  have honly : o.time = .zero ∧ request = .prepare ⟨1⟩ ⟨⟨1⟩, ⟨2⟩, 3⟩ := by
    simpa [committingEarly, preparingLate, balloting, Cue.delivered] using hcue
  exact honly.2

theorem exists_refused : ∃ o ∈ (pair.meetAll preparedLate committingAgain).1, o.replica = ⟨2⟩ ∧
    .respond ⟨2⟩ (.error (.unknownTransaction ⟨1⟩)) ∈ o.actions := by
  decide +kernel

/-- A commit that is refused after a vote for its transfer, and in spite of it. -/
theorem exists_refusal : ∃ before after w w' o,
    pair.History (pair.replicas 10) before w ∧ pair.History w after w' ∧
      Voted before ⟨1⟩ ⟨1⟩ ∧ (∀ o ∈ before ++ after, ∀ id, o.event ≠ .request id (.abort ⟨1⟩)) ∧
      AskedAfter before after ⟨2⟩ ⟨2⟩ (.commit ⟨1⟩) ∧ o ∈ after ∧ o.replica = ⟨2⟩ ∧
      .respond ⟨2⟩ (.error (.unknownTransaction ⟨1⟩)) ∈ o.actions := by
  obtain ⟨o, ho, hr, hrefused⟩ := exists_refused
  refine ⟨_, _, _, _, o, history_untilVote, pair.history_meetAll _ committingAgain, voted_untilVote,
    fun o' ho' id hevent => ?_, ⟨by decide +kernel, ?_, ?_⟩, ho, hr, hrefused⟩
  · rcases List.mem_append.1 ho' with ho' | ho'
    · have hcue := cue_of_mem_untilVote ho'
      rw [hevent] at hcue
      simp [committingEarly, preparingLate, balloting, Cue.delivered] at hcue
    · have hcue := cue_of_mem_meetAll ho'
      rw [hevent] at hcue
      simp [committingAgain, Cue.delivered] at hcue
  · intro o' ho' hr' request hevent
    have hcue := cue_of_mem_untilVote ho'
    rw [hr', hevent] at hcue
    simp [committingEarly, preparingLate, balloting, Cue.delivered] at hcue
  · intro o' ho' hr' request hevent
    have hcue := cue_of_mem_meetAll ho'
    rw [hr', hevent] at hcue
    have honly : o'.time = .zero ∧ request = .commit ⟨1⟩ := by
      simpa [committingAgain, Cue.delivered] using hcue
    exact honly.2

/-- A vote for a transfer alone does not protect its commit, even if no abort is ever asked for. -/
theorem commit_after_vote_refused : ¬ ∀ (g : Group) (balance : Amount)
    (before after : List Occurrence) (w w' : World Replica) (v r : ReplicaId) (id : RequestId)
    (tid : Tid), g.History (g.replicas balance) before w → g.History w after w' →
      Voted before v tid → (∀ o ∈ before ++ after, ∀ id, o.event ≠ .request id (.abort tid)) →
      AskedAfter before after r id (.commit tid) → ∀ o ∈ after, o.replica = r →
        .respond id (.error (.unknownTransaction tid)) ∉ o.actions := by
  intro hsafe
  obtain ⟨before, after, w, w', o, h, h', hvoted, hnone, hasked, ho, hr, hrefused⟩ := exists_refusal
  exact hsafe pair 10 before after w w' ⟨1⟩ ⟨2⟩ ⟨2⟩ ⟨1⟩ h h' hvoted hnone hasked o ho hr hrefused

theorem refused_by_stale_commit_pair : ∃ before after w w' o,
    pair.History (pair.replicas 10) before w ∧ pair.History w after w' ∧
      Voted before ⟨1⟩ ⟨1⟩ ∧ o ∈ after ∧
      .respond ⟨2⟩ (.error (.unknownTransaction ⟨1⟩)) ∈ o.actions ∧
      ∃ (i p : Nat) (a b : AppliedEntry), i < p ∧
        (w.machine ⟨1⟩).books.applied[i]? = some a ∧ a.entry.command = .commit ⟨1⟩ ∧
        (w.machine ⟨1⟩).books.applied[p]? = some b ∧ b.outcome = .prepared ∧
        Requested before (.commit ⟨1⟩) := by
  obtain ⟨before, after, w, w', o, h, h', hvoted, _, _, ho, _, hrefused⟩ := exists_refusal
  obtain ⟨i, p, a, b, _, hlt, ha, hcommit, _, hb, _, hprepared, hasked, _⟩ :=
    refused_by_stale_commit h h' hvoted ho hrefused
  exact ⟨before, after, w, w', o, h, h', hvoted, ho, hrefused, i, p, a, b, hlt, ha, hcommit, hb,
    hprepared, hasked⟩

end Group

end ReplicatedLedger
