import ReplicatedLedger.Proofs.Consensus.Agreement
import ReplicatedLedger.Proofs.Replica.Handling

/-!
The replicas of a shard as one state machine: each applies the chosen entries slot by slot, so what
two of them have both applied they have applied alike.
-/

namespace ReplicatedLedger

/-- The books of a replica are those that its log leads to, up to the slot to be applied next. -/
structure Replica.Replays (balance : Amount) (r : Replica) : Prop where
  books : (Books.opening r.log.topology balance).applyAll (r.books.applied.map (·.entry)) =
    .ok r.books
  count : r.log.nextApply.index.toNat = r.books.applied.length
  known : ∀ (i : Nat) (a : AppliedEntry), r.books.applied[i]? = some a →
    a.entry.slot.index.toNat = i ∧ r.log.chosen.get? a.entry.slot = some a.entry

namespace Replica

variable {heard : ReplicaId → Message → Prop} {wanted : Command → Prop} {r r' : Replica}
  {actions : List Action}
  {ready : List LogEntry} {balance : Amount}

theorem replays_start (t : Topology) (policy : ReplicaPolicy) :
    Replays policy.initialBalance (start t policy) where
  books := rfl
  count := rfl
  known _ _ h := by cases h

theorem Replays.advances (h : Replays balance r) (hl : r.log.Coherent)
    (ha : Advances heard wanted r actions ready r') : Replays balance r' := by
  have hentries := Books.entries_applyAll ha.books
  have hgrows := ha.moves.grows
  obtain ⟨hcount, hready⟩ := ha.moves.handedOut
  have hlength : r'.books.applied.length = r.books.applied.length + ready.length := by
    have hsum := congrArg List.length hentries
    simpa using hsum
  constructor
  case books =>
    rw [hentries, hgrows.topology]
    exact Books.applyAll_append_eq_ok_iff.2 ⟨r.books, h.books, ha.books⟩
  case count =>
    rw [hcount, h.count, hlength]
  case known =>
    intro i a hi
    have hentry : (r.books.applied.map (·.entry) ++ ready)[i]? = some a.entry := by
      rw [← hentries, List.getElem?_map, hi]
      rfl
    rcases Nat.lt_or_ge i r.books.applied.length with hlt | hge
    · -- applied before this step
      have hold : r.books.applied[i]? = some a := by
        rw [List.getElem?_eq_getElem hlt, (Books.applied_applyAll ha.books).getElem hlt]
        exact (List.getElem?_eq_getElem _).symm.trans hi
      obtain ⟨hslot, hknown⟩ := h.known i a hold
      exact ⟨hslot, hgrows.chosen _ _ hknown⟩
    · rw [List.getElem?_append_right (by simpa using hge), List.length_map] at hentry
      obtain ⟨k, hk, hknown⟩ := hready _ _ hentry
      have hslot : a.entry.slot = k := (hl.moves ha.moves).keyed k a.entry hknown
      subst hslot
      have := h.count
      exact ⟨by omega, hknown⟩

end Replica

namespace Group

variable (g : Group)

/-- The replicas of the shard before their first event. -/
def replicas (balance : Amount) : World Replica where
  machine r := .start (g.topology r) { initialBalance := balance, consensus := g.policy r }

/-- An event at a replica, at some time, with what came of it. -/
structure Occurrence where
  replica : ReplicaId
  time : Duration
  event : Event
  after : Replica
  actions : List Action

/-- An event at a member.  No message arrives that was not sent to it. -/
structure Meets (w : World Replica) (o : Occurrence) : Prop where
  member : o.replica ∈ g.members
  told : ∀ sender m, o.event = .message sender m → w.Heard o.replica sender m
  handled : Machine.handle (Machine.setTime (w.machine o.replica) o.time) o.event =
    .ok (o.after, o.actions)

/-- The events that lead from one moment of the shard to another, in any order. -/
inductive History (w : World Replica) : List Occurrence → World Replica → Prop
  | rest : History w [] w
  | event {events : List Occurrence} {o : Occurrence} {w' : World Replica}
      (earlier : History w events w') (met : g.Meets w' o) :
      History w (events ++ [o]) (w'.update o.replica o.after o.actions)

/-- What is to happen at a replica, at some time. -/
structure Cue where
  replica : ReplicaId
  time : Duration
  event : Event

/-- The arrival of a message at its receiver. -/
def Cue.delivered (m : Envelope) : Cue := ⟨m.receiver, .zero, .message m.sender m.message⟩

/-- What comes of a cue, if it can be an event at a member. -/
def meet? (w : World Replica) (cue : Cue) : Option (Occurrence × World Replica) :=
  if cue.replica ∈ g.members ∧ ∀ p ∈ cue.event.message?, w.Heard cue.replica p.1 p.2 then
    match Machine.handle (Machine.setTime (w.machine cue.replica) cue.time) cue.event with
    | .ok (after, actions) =>
      some (⟨cue.replica, cue.time, cue.event, after, actions⟩, w.update cue.replica after actions)
    | .error _ => none
  else none

def meetAll (w : World Replica) (cues : List Cue) : List Occurrence × World Replica :=
  play g.meet? w cues

/-- What holds of a shard between events. -/
structure InOrder (balance : Amount) (w : World Replica) : Prop where
  steady : g.Steady (w.map Replica.log)
  replays : ∀ r, Replica.Replays balance (w.machine r)

variable {g} {balance : Amount} {w w' : World Replica} {events : List Occurrence} {o : Occurrence}

theorem inOrder_replicas (g : Group) (balance : Amount) :
    g.InOrder balance (g.replicas balance) where
  steady := g.steady_start
  replays r := Replica.replays_start (g.topology r) ⟨balance, g.policy r⟩

theorem Meets.advances (h : g.InOrder balance w) (hmeets : g.Meets w o) :
    ∃ ready, Replica.Advances (w.Heard o.replica)
      (fun c => o.event.command? = some c ∧
        (w.machine o.replica).books.admission c = .ok (.ok .propose))
      (w.machine o.replica) o.actions ready o.after := by
  have hl : (w.machine o.replica).log.Coherent := h.steady.coherent o.replica
  have hs : (w.machine o.replica).log.Settled := h.steady.settled o.replica
  -- the time is set and never read
  let timed : Replica := { w.machine o.replica with now := o.time }
  obtain ⟨ready, hadvances⟩ :=
    Replica.handle_advances (r := timed) hl hs hmeets.told (fun _ => And.intro) hmeets.handled
  exact ⟨ready, hadvances.moves, hadvances.settled, hadvances.books⟩

theorem InOrder.event (h : g.InOrder balance w) (hmeets : g.Meets w o) :
    g.InOrder balance (w.update o.replica o.after o.actions) := by
  obtain ⟨ready, hadvances⟩ := hmeets.advances h
  refine ⟨?_, World.forall_machine_update h.replays ?_⟩
  · rw [World.map_update]
    exact h.steady.step hmeets.member hadvances.moves hadvances.settled
  · exact (h.replays o.replica).advances (h.steady.coherent o.replica) hadvances

/-! ### Events carried out -/

theorem meet?_eq_some_iff {cue : Cue} : g.meet? w cue = some (o, w') ↔
    g.Meets w o ∧ cue = ⟨o.replica, o.time, o.event⟩ ∧
      w' = w.update o.replica o.after o.actions := by
  obtain ⟨r, time, event⟩ := cue
  have hsent : (∀ p ∈ event.message?, w.Heard r p.1 p.2) ↔
      ∀ sender m, event = .message sender m → w.Heard r sender m := by
    cases event <;> simp [Event.message?]
  unfold meet?
  constructor
  · intro h
    split at h
    · next hmay =>
      split at h
      · next after actions handled =>
        cases h
        exact ⟨⟨hmay.1, hsent.1 hmay.2, handled⟩, rfl, rfl⟩
      · cases h
    · cases h
  · rintro ⟨met, heq, rfl⟩
    cases heq
    rw [if_pos ⟨met.member, hsent.2 met.told⟩, met.handled]

variable (g) in
theorem history_meetAll (w : World Replica) (cues : List Cue) :
    g.History w (g.meetAll w cues).1 (g.meetAll w cues).2 := by
  refine play_induction .rest (fun done w₁ cue o w₂ earlier hmeet => ?_) cues
  obtain ⟨met, _, rfl⟩ := meet?_eq_some_iff.1 hmeet
  exact earlier.event met

/-- The histories of a shard are those that can be carried out. -/
theorem history_iff : g.History w events w' ↔ ∃ cues, g.meetAll w cues = (events, w') := by
  constructor
  · intro h
    induction h with
    | rest => exact ⟨[], rfl⟩
    | event _ met ih => exact exists_play_concat ih (meet?_eq_some_iff.2 ⟨met, rfl, rfl⟩)
  · rintro ⟨cues, hplay⟩
    have h := g.history_meetAll w cues
    rw [hplay] at h
    exact h

/-- Nothing happens but what is on the list. -/
theorem cue_of_mem_meetAll {cues : List Cue} (h : o ∈ (g.meetAll w cues).1) :
    ⟨o.replica, o.time, o.event⟩ ∈ cues := by
  obtain ⟨cue, hcue, w₁, w₂, hmeet⟩ := exists_cue_of_mem_play h
  obtain ⟨_, rfl, _⟩ := meet?_eq_some_iff.1 hmeet
  exact hcue

/-- What comes of one cue. -/
theorem meetAll_singleton {cue : Cue} (h : o ∈ (g.meetAll w [cue]).1) :
    g.Meets w o ∧ g.meetAll w [cue] = ([o], w.update o.replica o.after o.actions) := by
  unfold meetAll at h ⊢
  rw [play_singleton] at h ⊢
  split at h
  · next o' w' hmeet =>
    cases List.mem_singleton.1 h
    obtain ⟨met, _, rfl⟩ := meet?_eq_some_iff.1 hmeet
    exact ⟨met, rfl⟩
  · cases h

namespace History

theorem inOrder (h : g.InOrder balance w) (hhistory : g.History w events w') :
    g.InOrder balance w' := by
  induction hhistory with
  | rest => exact h
  | event _ met ih => exact ih.event met

theorem grows (h : g.InOrder balance w) (hhistory : g.History w events w') (q : ReplicaId) :
    (w.machine q).log.Grows (w'.machine q).log := by
  induction hhistory with
  | rest => exact .refl _
  | @event events o w' earlier met ih =>
      obtain ⟨ready, hadvances⟩ := met.advances (earlier.inOrder h)
      refine ih.trans ?_
      exact World.forall_machine_update (P := fun q (r : Replica) => (w'.machine q).log.Grows r.log)
        (fun q => .refl _) hadvances.moves.grows q

end History

/-- Replicas of a shard, at any two moments, have applied the entries of the same slots alike: each
position of the trail holds the entry chosen for that slot, commands and outcomes agree, and books
of the same length are the same. -/
theorem applied_agree {before after : List Occurrence}
    (h : g.History (g.replicas balance) before w) (h' : g.History w after w') (r r' : ReplicaId) :
    (∀ (i : Nat) (a : AppliedEntry), (w.machine r).books.applied[i]? = some a →
      a.entry.slot.index.toNat = i ∧ (w.machine r).log.chosenAt? a.entry.slot = some a.entry) ∧
    (∀ (i : Nat) (a a' : AppliedEntry), (w.machine r).books.applied[i]? = some a →
      (w'.machine r').books.applied[i]? = some a' →
        a.entry.command = a'.entry.command ∧ a.outcome = a'.outcome) ∧
    ((w.machine r).books.applied.length = (w'.machine r').books.applied.length →
      (w.machine r).books.ledger = (w'.machine r').books.ledger ∧
      (w.machine r).books.participants = (w'.machine r').books.participants ∧
      (w.machine r).books.transfers = (w'.machine r').books.transfers) := by
  have hw : g.InOrder balance w := h.inOrder (g.inOrder_replicas balance)
  have hw' : g.InOrder balance w' := h'.inOrder hw
  have hreplays := hw.replays r
  have hreplays' := hw'.replays r'
  have htopology : (w.machine r).log.topology = g.topology r := hw.steady.sound.placed r
  have htopology' : (w'.machine r').log.topology = g.topology r' := hw'.steady.sound.placed r'
  have hbooks := hreplays.books
  have hbooks' := hreplays'.books
  rw [htopology] at hbooks
  rw [htopology'] at hbooks'
  have hcommands : ∀ (i : Nat) (e e' : LogEntry),
      ((w.machine r).books.applied.map (·.entry))[i]? = some e →
      ((w'.machine r').books.applied.map (·.entry))[i]? = some e' → e.command = e'.command := by
    intro i e e' he he'
    rw [List.getElem?_map, Option.map_eq_some_iff] at he he'
    obtain ⟨a, ha, rfl⟩ := he
    obtain ⟨a', ha', rfl⟩ := he'
    obtain ⟨hslot, hknown⟩ := hreplays.known i a ha
    obtain ⟨hslot', hknown'⟩ := hreplays'.known i a' ha'
    have hsame : a'.entry.slot = a.entry.slot := Slot.toNat_inj.1 (hslot'.trans hslot.symm)
    rw [hsame] at hknown'
    exact hw'.steady.agree ((h'.grows hw r).chosen _ _ hknown) hknown'
  have hshard : (g.topology r').shard = (g.topology r).shard := rfl
  have hrouting : (g.topology r').routing = (g.topology r).routing := rfl
  refine ⟨hreplays.known, fun i a a' ha ha' => ?_, fun hlength => ?_⟩
  · have hdeed := Books.deed_eq_of_replay hshard hrouting hbooks hbooks' hcommands ha ha'
    exact ⟨congrArg Prod.fst hdeed, congrArg Prod.snd hdeed⟩
  · exact Books.books_eq_of_replay hshard hrouting hbooks hbooks' hcommands hlength

/-! ### Two replicas -/

/-- The first replica carries out a transfer. -/
def transferring : List Cue :=
  ⟨⟨1⟩, .zero, .request ⟨0⟩ (.transfer ⟨7⟩ ⟨⟨1⟩, ⟨2⟩, 3⟩)⟩ ::
    (balloting ⟨1⟩ ⟨2⟩ ⟨1, ⟨1⟩⟩ .first none (.transfer ⟨7⟩ ⟨⟨1⟩, ⟨2⟩, 3⟩)).map .delivered

/-- The second one is told of it. -/
def informing : List Cue :=
  [.delivered ⟨⟨1⟩, ⟨2⟩, .chosen ⟨.first, ⟨1, ⟨1⟩⟩, .transfer ⟨7⟩ ⟨⟨1⟩, ⟨2⟩, 3⟩⟩⟩]

/-- The replicas when one of them has applied the transfer. -/
def transferred : World Replica := (pair.meetAll (pair.replicas 10) transferring).2

/-- The replicas when both have. -/
def informed : World Replica := (pair.meetAll transferred informing).2

theorem applied_transferred : (transferred.machine ⟨1⟩).books.applied =
      [⟨⟨.first, ⟨1, ⟨1⟩⟩, .transfer ⟨7⟩ ⟨⟨1⟩, ⟨2⟩, 3⟩⟩, .transferred⟩] ∧
    (transferred.machine ⟨2⟩).books.applied = [] := by
  decide +kernel

theorem applied_informed : (informed.machine ⟨2⟩).books.applied =
    [⟨⟨.first, ⟨1, ⟨1⟩⟩, .transfer ⟨7⟩ ⟨⟨1⟩, ⟨2⟩, 3⟩⟩, .transferred⟩] := by
  decide +kernel

theorem applied_agree_pair : ∃ before after w w' a a',
    pair.History (pair.replicas 10) before w ∧ pair.History w after w' ∧
      (w.machine ⟨2⟩).books.applied = [] ∧ (w.machine ⟨1⟩).books.applied[0]? = some a ∧
      (w'.machine ⟨2⟩).books.applied[0]? = some a' ∧ a.entry.slot.index.toNat = 0 ∧
      a.entry.command = a'.entry.command ∧ a.outcome = a'.outcome ∧
      (w.machine ⟨1⟩).books.ledger = (w'.machine ⟨2⟩).books.ledger ∧
      (w'.machine ⟨2⟩).books.ledger.balance? ⟨1⟩ = some 7 := by
  have h : pair.History (pair.replicas 10) _ transferred := pair.history_meetAll _ transferring
  have h' : pair.History transferred _ informed := pair.history_meetAll _ informing
  obtain ⟨happlied, hnone⟩ := applied_transferred
  have ha := congrArg (·[0]?) happlied
  have ha' := congrArg (·[0]?) applied_informed
  obtain ⟨hslots, hsame, hbooks⟩ := applied_agree h h' ⟨1⟩ ⟨2⟩
  obtain ⟨hcommand, houtcome⟩ := hsame 0 _ _ ha ha'
  obtain ⟨hledger, _⟩ := hbooks (by rw [happlied, applied_informed])
  exact ⟨_, _, _, _, _, _, h, h', hnone, ha, ha', (hslots 0 _ ha).1, hcommand, houtcome, hledger,
    by decide +kernel⟩

end Group

end ReplicatedLedger
