import ReplicatedLedger.Proofs.Replica.History

/-!
What an acknowledged abort promises.  A replica without a record of a transaction acknowledges its
abort at once and enters nothing in the log, so that a prepare which is under way by then can still
be chosen.  An abort that rests on a record is final.
-/

namespace ReplicatedLedger

namespace Group

variable {g : Group} {balance : Amount} {w w' : World Replica}
  {events before after : List Occurrence} {r : ReplicaId} {tid : Tid} {slot : Option Slot}

/-- Whether a replica acknowledged an abort, under an id that it was given for this request only. -/
def Acknowledged (events : List Occurrence) (r : ReplicaId) (tid : Tid) (slot : Option Slot) :
    Prop :=
  ∃ id, (∃ o ∈ events, o.replica = r ∧ o.event = .request id (.abort tid)) ∧
    (∀ o ∈ events, o.replica = r → ∀ request, o.event = .request id request →
      request = .abort tid) ∧
    ∃ o ∈ events, o.replica = r ∧ .respond id (.ack slot) ∈ o.actions

variable (g) in
/-- Whether a replica acknowledged an abort while it had no record of the transaction and had
applied `n` entries. -/
def AcknowledgedBlind (balance : Amount) (events : List Occurrence) (r : ReplicaId) (tid : Tid)
    (n : Nat) : Prop :=
  ∃ earlier o later w₀ id, events = earlier ++ o :: later ∧
    g.History (g.replicas balance) earlier w₀ ∧ o.replica = r ∧
    o.event = .request id (.abort tid) ∧ .respond id (.ack none) ∈ o.actions ∧
    (w₀.machine r).books.participants.find? tid = none ∧
    (w₀.machine r).books.applied.length = n

variable (g) in
def AbortChosen (tid : Tid) (w : World Replica) : Prop :=
  ∃ s b, g.Elected (w.map Replica.log) ⟨s, b, .abort tid⟩

/-- An acknowledged abort is in the log, unless the replica knew nothing of the transaction: what it
had applied by then, and has applied ever after, did not prepare it. -/
theorem Acknowledged.chosen_or_blind (hack : Acknowledged events r tid slot)
    (h : g.History (g.replicas balance) events w) :
    (∃ s e, (w.machine r).log.chosen.get? s = some e ∧ e.command = .abort tid) ∨
      slot = none ∧ ∃ trail, trail <+: (w.machine r).books.applied ∧
        Books.preparedIn trail tid = none ∧
        g.AcknowledgedBlind balance events r tid trail.length := by
  obtain ⟨id, _, hunique, o, ho, rfl, hm⟩ := hack
  obtain ⟨earlier, later, w₀, hevents, hearlier, hmet, hlater, hanswer⟩ := h.responds ho hm
  have htraced := hearlier.traced o.replica
  rcases hanswer with ⟨request, hevent, hbacks, hnone, _⟩ | hrefused | ⟨_, _, a, harrived, _, ha, _⟩
  · obtain rfl := hunique o ho rfl request hevent
    cases slot with
    | some s => exact absurd rfl (hnone s)
    | none =>
        rcases hbacks with hunknown | haborted
        · obtain ⟨hbegins, _⟩ :=
            hlater.applied_met (hearlier.inOrder (g.inOrder_replicas balance)) hmet
          have hunprepared := htraced.opened tid
          rw [hunknown, Option.map_none] at hunprepared
          exact .inr ⟨rfl, _, hbegins, hunprepared, earlier, o, later, w₀, id, hevents, hearlier,
            rfl, hevent, hm, hunknown, rfl⟩
        · -- the record was aborted by an entry that is chosen
          obtain ⟨a, ha, hdecided⟩ := (htraced.decided tid .aborted (by simp)).1 haborted
          obtain ⟨i, hi⟩ := List.mem_iff_getElem?.1 ha
          have hon := (History.rest.event hmet).append hlater
          exact .inl ⟨_, _, hearlier.chosen_of_applied hon hi,
            (AppliedEntry.decided?_eq_aborted_iff.1 hdecided).1⟩
  · exact absurd rfl hrefused.ne_ack
  · obtain ⟨o', ho', hreplica, request, hevent, hcommand⟩ := harrived.askedAt
    obtain rfl := hunique o' ho' hreplica request hevent
    have hmachine : (w₀.update o.replica o.after o.actions).machine o.replica = o.after :=
      World.machine_update_self
    rw [← hmachine] at ha
    exact .inl ⟨_, _, (hearlier.event hmet).chosen_of_applied hlater ha,
      (Option.some.inj hcommand).symm⟩

/-- Where a transaction is prepared in some trail, no other trail of the shard leaves it out. -/
theorem InOrder.length_le_of_unprepared {trail : List AppliedEntry} {q : ReplicaId} {i : Nat}
    {txn : Transaction} (h : g.InOrder balance w)
    (hbegins : trail <+: (w.machine r).books.applied) (hnone : Books.preparedIn trail tid = none)
    (hpends : (w.machine q).books.Pends tid txn i) : trail.length ≤ i := by
  obtain ⟨a, ha, hcommand, houtcome⟩ := hpends.prepared
  refine Nat.le_of_not_lt fun hlt => ?_
  have hx := List.getElem?_eq_getElem hlt
  obtain ⟨_, hcommand', houtcome'⟩ := h.deed_eq (Books.getElem?_of_begins hx hbegins) ha
  exact Books.preparedIn_ne_none hx (hcommand'.trans hcommand) (houtcome'.trans houtcome) hnone

/-- Once every replica of a shard has acknowledged an abort, and the transaction is not asked for
again, no replica ever has it prepared, unless the abort is chosen, or its prepare was let through
before, and stands at a position that no replica had come to when it acknowledged the abort, without
a record as they all did. -/
theorem abort_final {slots : ReplicaId → Option Slot}
    (h : g.History (g.replicas balance) before w) (h' : g.History w after w')
    (acknowledged : ∀ r ∈ g.members, Acknowledged before r tid (slots r))
    (last : ∀ o ∈ after, ∀ id txn, o.event ≠ .request id (.prepare tid txn)) :
    ∀ q record, (w'.machine q).books.participants.find? tid = some record →
      record.state = .prepared → g.AbortChosen tid w' ∨
        g.Admitted balance before (.prepare tid record.txn) ∧
          ∃ i, (w'.machine q).books.Pends tid record.txn i ∧
            ∀ r ∈ g.members, slots r = none ∧
              ∃ n ≤ i, g.AcknowledgedBlind balance before r tid n := by
  intro q record found pending
  rw [or_iff_not_imp_left]
  intro hnone
  have hw := h.inOrder (g.inOrder_replicas balance)
  have hwhole := h.append h'
  obtain ⟨i, hpends⟩ := (hwhole.traced q).exists_pends found pending
  refine ⟨?_, i, hpends, fun r hr => ?_⟩
  · -- the prepare was let through somewhere, and not after the last acknowledgement
    obtain ⟨a, ha, hcommand, _⟩ := hpends.prepared
    have hadmitted := hwhole.admitted (hwhole.chosen_of_applied .rest ha)
    rw [hcommand] at hadmitted
    refine hadmitted.of_append fun o ho hasked => ?_
    obtain ⟨id, hevent⟩ := Event.command?_eq_some_iff.1 hasked
    exact last o ho id record.txn hevent
  · have hblind := ((acknowledged r hr).chosen_or_blind h).resolve_left ?_
    · obtain ⟨hslot, trail, hbegins, hunprepared, hblind⟩ := hblind
      have hle := (h'.inOrder hw).length_le_of_unprepared
        (hbegins.trans (h'.applied_grows hw r)) hunprepared hpends
      exact ⟨hslot, trail.length, hle, hblind⟩
    · rintro ⟨s, e, he, hcommand⟩
      have hknown := (h'.grows hw r).chosen s e he
      obtain ⟨_, helected⟩ := (h'.inOrder hw).steady.sound.chosen r s e hknown
      refine hnone ⟨e.slot, e.ballot, ?_⟩
      rw [← hcommand]
      exact helected

/-! ### A straggler -/

/-- The first replica begins to have a transfer prepared.  Then both are asked to abort it. -/
def acknowledging : List Cue :=
  [⟨⟨1⟩, .zero, .request ⟨0⟩ (.prepare ⟨1⟩ ⟨⟨1⟩, ⟨2⟩, 3⟩)⟩,
    ⟨⟨1⟩, .zero, .request ⟨1⟩ (.abort ⟨1⟩)⟩, ⟨⟨2⟩, .zero, .request ⟨2⟩ (.abort ⟨1⟩)⟩]

/-- Only now the transfer is voted for and chosen. -/
def straggling : List Cue :=
  (balloting ⟨1⟩ ⟨2⟩ ⟨1, ⟨1⟩⟩ .first none (.prepare ⟨1⟩ ⟨⟨1⟩, ⟨2⟩, 3⟩)).map .delivered

def forgotten : World Replica := (pair.meetAll (pair.replicas 10) acknowledging).2

def straggled : World Replica := (pair.meetAll forgotten straggling).2

theorem acknowledged_acknowledging {r : ReplicaId} (hr : r ∈ pair.members) :
    Acknowledged (pair.meetAll (pair.replicas 10) acknowledging).1 r ⟨1⟩ none := by
  have honly : ∀ id, id ≠ ⟨0⟩ → ∀ o ∈ (pair.meetAll (pair.replicas 10) acknowledging).1,
      o.replica = r → ∀ request, o.event = .request id request → request = .abort ⟨1⟩ := by
    intro id hid o ho _ request hevent
    have hcue := cue_of_mem_meetAll ho
    rw [hevent] at hcue
    have hasked : id = ⟨0⟩ ∨ request = .abort ⟨1⟩ := by
      simp only [acknowledging, List.mem_cons, List.not_mem_nil, or_false, Cue.mk.injEq,
        Event.request.injEq] at hcue
      rcases hcue with ⟨_, _, h, _⟩ | ⟨_, _, _, h⟩ | ⟨_, _, _, h⟩
      · exact .inl h
      · exact .inr h
      · exact .inr h
    exact hasked.resolve_left hid
  obtain rfl | rfl : r = ⟨1⟩ ∨ r = ⟨2⟩ := by
    have hmembers : pair.members = [⟨1⟩, ⟨2⟩] := rfl
    simpa [hmembers] using hr
  · exact ⟨⟨1⟩, by decide +kernel, honly ⟨1⟩ (by decide), by decide +kernel⟩
  · exact ⟨⟨2⟩, by decide +kernel, honly ⟨2⟩ (by decide), by decide +kernel⟩

theorem find?_straggled : (straggled.machine ⟨1⟩).books.participants.find? ⟨1⟩ =
    some ⟨⟨1⟩, ⟨⟨1⟩, ⟨2⟩, 3⟩, .prepared, 3⟩ := by
  decide +kernel

theorem not_abortChosen_straggled : ¬ pair.AbortChosen ⟨1⟩ straggled := by
  -- no vote was cast for anything but the transfer
  have hcast : ∀ r ∈ pair.members, ∀ vote ∈ (straggled.machine r).log.acceptor.cast,
      vote.command ≠ .abort ⟨1⟩ := by
    decide +kernel
  rintro ⟨s, b, voters, _, hvoters, hsize⟩
  obtain ⟨r, hr⟩ := List.exists_mem_of_length_pos (Nat.lt_of_lt_of_le (by decide) hsize)
  obtain ⟨hmember, hvote⟩ := hvoters r hr
  exact hcast r hmember _ hvote rfl

theorem exists_straggler : ∃ before after w w' record,
    pair.History (pair.replicas 10) before w ∧ pair.History w after w' ∧
      (∀ r ∈ pair.members, Acknowledged before r ⟨1⟩ none) ∧
      (∀ o ∈ after, ∀ id txn, o.event ≠ .request id (.prepare ⟨1⟩ txn)) ∧
      (w'.machine ⟨1⟩).books.participants.find? ⟨1⟩ = some record ∧ record.state = .prepared ∧
      ¬ pair.AbortChosen ⟨1⟩ w' := by
  have h : pair.History (pair.replicas 10) _ forgotten := pair.history_meetAll _ acknowledging
  have h' : pair.History forgotten _ straggled := pair.history_meetAll _ straggling
  refine ⟨_, _, _, _, _, h, h', fun r => acknowledged_acknowledging, fun o ho id txn hevent => ?_,
    find?_straggled, rfl, not_abortChosen_straggled⟩
  have hcue := cue_of_mem_meetAll ho
  rw [hevent] at hcue
  simp [straggling, balloting, Cue.delivered] at hcue

/-- An acknowledged abort alone is not final. -/
theorem acknowledged_abort_not_final : ¬ ∀ (g : Group) (balance : Amount)
    (before after : List Occurrence) (w w' : World Replica) (tid : Tid)
    (slots : ReplicaId → Option Slot), g.History (g.replicas balance) before w →
      g.History w after w' → (∀ r ∈ g.members, Acknowledged before r tid (slots r)) →
      (∀ o ∈ after, ∀ id txn, o.event ≠ .request id (.prepare tid txn)) →
      ∀ q record, (w'.machine q).books.participants.find? tid = some record →
        record.state = .prepared → g.AbortChosen tid w' := by
  intro hfinal
  obtain ⟨before, after, w, w', record, h, h', hacks, hlast, found, hstate, hnone⟩ :=
    exists_straggler
  exact hnone (hfinal pair 10 before after w w' ⟨1⟩ _ h h' hacks hlast ⟨1⟩ record found hstate)

theorem abort_final_straggler : ∃ before after w w' record i,
    pair.History (pair.replicas 10) before w ∧ pair.History w after w' ∧
      (w'.machine ⟨1⟩).books.participants.find? ⟨1⟩ = some record ∧ record.state = .prepared ∧
      pair.Admitted 10 before (.prepare ⟨1⟩ record.txn) ∧
      (w'.machine ⟨1⟩).books.Pends ⟨1⟩ record.txn i ∧
      ∀ r ∈ pair.members, ∃ n ≤ i, pair.AcknowledgedBlind 10 before r ⟨1⟩ n := by
  obtain ⟨before, after, w, w', record, h, h', hacks, hlast, found, hstate, hnone⟩ :=
    exists_straggler
  have hfinal := abort_final h h' hacks hlast ⟨1⟩ record found hstate
  obtain ⟨hadmitted, i, hpends, hblind⟩ := hfinal.resolve_left hnone
  exact ⟨before, after, w, w', record, i, h, h', found, hstate, hadmitted, hpends,
    fun r hr => (hblind r hr).2⟩

end Group

end ReplicatedLedger
