import ReplicatedLedger.Proofs.Consensus.Origin
import ReplicatedLedger.Proofs.Replica.Career

/-!
What the replicas of a shard know of the requests that were made of them: no command is chosen that
nobody asked for, and every answer goes back to the request that it answers.
-/

namespace ReplicatedLedger

namespace Group

/-- Whether a command was asked for anywhere. -/
def Requested (events : List Occurrence) (c : Command) : Prop :=
  ∃ o ∈ events, o.event.command? = some c

variable (g : Group) in
/-- Whether a command was asked for at a replica whose books let it be proposed. -/
def Admitted (balance : Amount) (events : List Occurrence) (c : Command) : Prop :=
  ∃ earlier o later w₀, events = earlier ++ o :: later ∧
    g.History (g.replicas balance) earlier w₀ ∧ o.event.command? = some c ∧
    (w₀.machine o.replica).books.admission c = .ok (.ok .propose)

/-- Whether a command was asked for at a replica, under an id. -/
def AskedAt (events : List Occurrence) (r : ReplicaId) (id : RequestId) (c : Command) : Prop :=
  ∃ o ∈ events, o.replica = r ∧ ∃ request, o.event = .request id request ∧
    request.command? = some c

variable (g : Group) in
/-- Whether the request for a command arrived at a replica that had applied all below a slot. -/
def ArrivedAt (balance : Amount) (events : List Occurrence) (r : ReplicaId) (id : RequestId)
    (c : Command) (floor : Slot) : Prop :=
  ∃ earlier o later w₀, events = earlier ++ o :: later ∧
    g.History (g.replicas balance) earlier w₀ ∧ o.replica = r ∧
    o.event = .request id c.request ∧
    (w₀.machine r).books.applied.length = floor.index.toNat

variable {g : Group} {balance : Amount} {w w' w'' : World Replica}
  {events more earlier later : List Occurrence} {o : Occurrence} {c : Command} {r : ReplicaId}
  {id : RequestId} {response : Response} {tid : Tid} {slot : Option Slot} {s floor : Slot} {e : LogEntry}

theorem Admitted.append (h : g.Admitted balance events c) (more : List Occurrence) :
    g.Admitted balance (events ++ more) c := by
  obtain ⟨earlier, o, later, w₀, rfl, hadmitted⟩ := h
  exact ⟨earlier, o, later ++ more, w₀, by simp, hadmitted⟩

/-- What was let through was let through before anything that did not ask for it. -/
theorem Admitted.of_append (h : g.Admitted balance (events ++ more) c)
    (hmore : ∀ o ∈ more, o.event.command? ≠ some c) : g.Admitted balance events c := by
  obtain ⟨earlier, o, later, w₀, hsplit, hhistory, hasked, hadmitted⟩ := h
  rcases List.append_eq_append_iff.1 hsplit with ⟨between, rfl, rfl⟩ | ⟨between, rfl, hlater⟩
  · exact absurd hasked (hmore o (by simp))
  · cases between with
    | nil =>
        obtain rfl : o :: later = more := hlater
        exact absurd hasked (hmore o List.mem_cons_self)
    | cons o' rest =>
        rw [List.cons_append, List.cons.injEq] at hlater
        obtain ⟨rfl, rfl⟩ := hlater
        exact ⟨earlier, o, rest, w₀, rfl, hhistory, hasked, hadmitted⟩

theorem Admitted.requested (h : g.Admitted balance events c) : Requested events c := by
  obtain ⟨earlier, o, later, w₀, rfl, _, hasked, _⟩ := h
  exact ⟨o, by simp, hasked⟩

theorem ArrivedAt.askedAt (h : g.ArrivedAt balance events r id c floor) :
    AskedAt events r id c := by
  obtain ⟨earlier, o, later, w₀, rfl, _, hreplica, hevent, _⟩ := h
  exact ⟨o, by simp, hreplica, c.request, hevent, c.command?_request⟩

namespace History

theorem append (h : g.History w events w') (h' : g.History w' more w'') :
    g.History w (events ++ more) w'' := by
  induction h' with
  | rest =>
      rw [List.append_nil]
      exact h
  | event _ met ih =>
      rw [← List.append_assoc]
      exact .event ih met

/-- A history up to an occurrence, and on from it. -/
theorem split (h : g.History w events w') (ho : o ∈ events) : ∃ earlier later w₀,
    events = earlier ++ o :: later ∧ g.History w earlier w₀ ∧ g.Meets w₀ o ∧
      g.History (w₀.update o.replica o.after o.actions) later w' := by
  induction h with
  | rest => cases ho
  | @event events o' w₁ earlier met ih =>
      rcases List.mem_append.1 ho with ho | ho
      · obtain ⟨before, after, w₀, rfl, hbefore, hmet, hafter⟩ := ih ho
        exact ⟨before, after ++ [o'], w₀, by simp, hbefore, hmet, .event hafter met⟩
      · rw [List.mem_singleton.1 ho]
        exact ⟨events, [], w₁, rfl, earlier, met, .rest⟩

/-- The events of one replica are a career of it. -/
theorem career (h : g.History w events w') (r : ReplicaId) : ∃ steps,
    Replica.Career (w.machine r) steps (w'.machine r) ∧
      ∀ s ∈ steps, ∃ earlier o later w₀, events = earlier ++ o :: later ∧ g.History w earlier w₀ ∧
        o.replica = r ∧ s = ⟨w₀.machine r, o.time, o.event, o.after, o.actions⟩ := by
  induction h with
  | rest => exact ⟨[], .rest, by simp⟩
  | @event events o w' hearlier met ih =>
      obtain ⟨steps, hcareer, hsteps⟩ := ih
      have hold : ∀ s ∈ steps, ∃ earlier o' later w₀,
          events ++ [o] = earlier ++ o' :: later ∧ g.History w earlier w₀ ∧ o'.replica = r ∧
            s = ⟨w₀.machine r, o'.time, o'.event, o'.after, o'.actions⟩ := by
        intro s hs
        obtain ⟨earlier, o', later, w₀, rfl, hstep⟩ := hsteps s hs
        exact ⟨earlier, o', later ++ [o], w₀, by simp, hstep⟩
      by_cases hr : o.replica = r
      · subst hr
        let s : Replica.Step := ⟨w'.machine o.replica, o.time, o.event, o.after, o.actions⟩
        rw [World.machine_update_self]
        refine ⟨steps ++ [s], .step (s := s) hcareer met.handled, fun s' hs' => ?_⟩
        rcases List.mem_append.1 hs' with hs' | hs'
        · exact hold s' hs'
        · rw [List.mem_singleton.1 hs']
          exact ⟨events, o, [], w', rfl, hearlier, rfl, rfl⟩
      · rw [World.machine_update_of_ne (Ne.symm hr)]
        exact ⟨steps, hcareer, hold⟩

/-- The trail of a replica goes on from what it was. -/
theorem applied_grows (h : g.InOrder balance w) (hhistory : g.History w events w')
    (r : ReplicaId) : (w.machine r).books.applied <+: (w'.machine r).books.applied := by
  induction hhistory with
  | rest => exact List.prefix_refl _
  | @event events o w' earlier met ih =>
      obtain ⟨ready, hadvances⟩ := met.advances (earlier.inOrder h)
      refine ih.trans ?_
      exact World.forall_machine_update
        (P := fun r (machine : Replica) =>
          (w'.machine r).books.applied <+: machine.books.applied)
        (fun _ => List.prefix_refl _) (Books.applied_applyAll hadvances.books) r

/-- What a replica had applied when something happened to it, and had applied then, it has applied
ever after. -/
theorem applied_met (hw : g.InOrder balance w) (met : g.Meets w o)
    (later : g.History (w.update o.replica o.after o.actions) events w') :
    (w.machine o.replica).books.applied <+: (w'.machine o.replica).books.applied ∧
      o.after.books.applied <+: (w'.machine o.replica).books.applied := by
  have hafter := later.applied_grows (hw.event met) o.replica
  rw [World.machine_update_self] at hafter
  exact ⟨((History.rest.event met).append later).applied_grows hw o.replica, hafter⟩

end History

/-- What two replicas have both applied they have applied alike, each at its slot. -/
theorem InOrder.deed_eq {q : ReplicaId} {i : Nat} {a a' : AppliedEntry} (h : g.InOrder balance w)
    (ha : (w.machine r).books.applied[i]? = some a)
    (ha' : (w.machine q).books.applied[i]? = some a') :
    a.entry.slot = a'.entry.slot ∧ a.entry.command = a'.entry.command ∧ a.outcome = a'.outcome := by
  have hslots : ∀ (j : Nat) (x x' : AppliedEntry), (w.machine r).books.applied[j]? = some x →
      (w.machine q).books.applied[j]? = some x' →
        x.entry.slot = x'.entry.slot ∧ x.entry.command = x'.entry.command := by
    intro j x x' hx hx'
    obtain ⟨hslot, hknown⟩ := (h.replays r).known j x hx
    obtain ⟨hslot', hknown'⟩ := (h.replays q).known j x' hx'
    have hsame : x.entry.slot = x'.entry.slot := Slot.toNat_inj.1 (hslot.trans hslot'.symm)
    rw [← hsame] at hknown'
    exact ⟨hsame, h.steady.agree hknown hknown'⟩
  have hcommands : ∀ (j : Nat) (e e' : LogEntry),
      ((w.machine r).books.applied.map (·.entry))[j]? = some e →
      ((w.machine q).books.applied.map (·.entry))[j]? = some e' → e.command = e'.command := by
    intro j e e' he he'
    rw [List.getElem?_map, Option.map_eq_some_iff] at he he'
    obtain ⟨x, hx, rfl⟩ := he
    obtain ⟨x', hx', rfl⟩ := he'
    exact (hslots j x x' hx hx').2
  have hplaced : ∀ q, (w.machine q).log.topology = g.topology q := h.steady.sound.placed
  have hshard : (w.machine q).log.topology.shard = (w.machine r).log.topology.shard := by
    rw [hplaced, hplaced]
    rfl
  have hrouting : (w.machine q).log.topology.routing = (w.machine r).log.topology.routing := by
    rw [hplaced, hplaced]
    rfl
  have hdeed := Books.deed_eq_of_replay hshard hrouting (h.replays r).books (h.replays q).books
    hcommands ha ha'
  exact ⟨(hslots i a a' ha ha').1, congrArg Prod.fst hdeed, congrArg Prod.snd hdeed⟩

/-! ### Requests and their commands -/

namespace History

theorem within (h : g.History (g.replicas balance) events w) :
    Within (g.Admitted balance events) (w.map Replica.log) := by
  induction h with
  | rest => exact g.within_start
  | @event events o w' earlier met ih =>
      obtain ⟨ready, hadvances⟩ := met.advances (earlier.inOrder (g.inOrder_replicas balance))
      rw [World.map_update]
      refine (ih.imp fun c hc => hc.append [o]).step ?_ hadvances.moves
      exact fun c hc => ⟨events, o, [], w', rfl, earlier, hc⟩

/-- No command is chosen that was not let through somewhere. -/
theorem admitted (h : g.History (g.replicas balance) events w)
    (he : (w.machine r).log.chosen.get? s = some e) : g.Admitted balance events e.command :=
  (h.within.logs r).chosen s e he

/-- No command is chosen that nobody asked for. -/
theorem requested (h : g.History (g.replicas balance) events w)
    (he : (w.machine r).log.chosen.get? s = some e) : Requested events e.command :=
  (h.admitted he).requested

theorem attested (h : g.History (g.replicas balance) events w) (r : ReplicaId) :
    (w.machine r).books.Attested :=
  ((h.inOrder (g.inOrder_replicas balance)).replays r).attested

theorem traced (h : g.History (g.replicas balance) events w) (r : ReplicaId) :
    (w.machine r).books.Traced :=
  (h.attested r).traced

/-- The entry at a position of the trail is known to be chosen, then and ever after. -/
theorem chosen_of_applied {i : Nat} {a : AppliedEntry} (h : g.History (g.replicas balance) events w)
    (h' : g.History w more w') (ha : (w.machine r).books.applied[i]? = some a) :
    (w'.machine r).log.chosen.get? a.entry.slot = some a.entry := by
  have hw := h.inOrder (g.inOrder_replicas balance)
  exact (h'.grows hw r).chosen _ _ ((hw.replays r).known i a ha).2

/-- Where an answer comes from. -/
theorem responds (h : g.History (g.replicas balance) events w) (ho : o ∈ events)
    (hm : .respond id response ∈ o.actions) : ∃ earlier later w₀,
      events = earlier ++ o :: later ∧ g.History (g.replicas balance) earlier w₀ ∧
        g.Meets w₀ o ∧ g.History (w₀.update o.replica o.after o.actions) later w ∧
        (Replica.AnswersFrom (w₀.machine o.replica).books o.event id response ∨
          Replica.Refused (g.ArrivedAt balance events o.replica) id response ∨
            o.after.Applied (g.ArrivedAt balance events o.replica) id response) := by
  obtain ⟨earlier, later, w₀, hevents, hearlier, hmet, hlater⟩ := h.split ho
  refine ⟨earlier, later, w₀, hevents, hearlier, hmet, hlater, ?_⟩
  obtain ⟨steps, hcareer, hsteps⟩ := hearlier.career o.replica
  let s : Replica.Step := ⟨w₀.machine o.replica, o.time, o.event, o.after, o.actions⟩
  have hnext : Replica.Career ((g.replicas balance).machine o.replica) (steps ++ [s]) o.after :=
    .step (s := s) hcareer hmet.handled
  have harrived : ∀ id c floor, Replica.Proposed (steps ++ [s]) id c floor →
      g.ArrivedAt balance events o.replica id c floor := by
    intro id c floor hproposed
    obtain ⟨arrival, harrival, hevent, hlength⟩ := hnext.exists_arrival hproposed
    rcases List.mem_append.1 harrival with hold | hlast
    · obtain ⟨before, o', between, w₁, rfl, hbefore, hreplica, rfl⟩ := hsteps arrival hold
      exact ⟨before, o', between ++ o :: later, w₁, by simp [hevents], hbefore, hreplica, hevent,
        hlength⟩
    · rw [List.mem_singleton.1 hlast] at hevent hlength
      exact ⟨earlier, o, later, w₀, hevents, hearlier, rfl, hevent, hlength⟩
  rcases (Replica.Career.advance (s := s) hcareer.inOrder hmet.handled).2 id response hm with
    ⟨hnow, _⟩ | hrefused | happlied
  · exact .inl hnow
  · exact .inr (.inl (hrefused.imp harrived))
  · exact .inr (.inr (happlied.imp harrived))

/-- A replica that votes for a transfer was asked to prepare it, and shows it as prepared. -/
theorem shows_of_yes (h : g.History (g.replicas balance) events w) (ho : o ∈ events)
    (hm : .respond id (.vote .yes) ∈ o.actions) : ∃ tid txn,
      AskedAt events o.replica id (.prepare tid txn) ∧
        (w.machine o.replica).books.Shows (.prepare tid txn) := by
  obtain ⟨earlier, later, w₀, hevents, hearlier, hmet, hlater, hanswer⟩ := h.responds ho hm
  obtain ⟨hbefore, hafter⟩ :=
    hlater.applied_met (hearlier.inOrder (g.inOrder_replicas balance)) hmet
  have htraced := h.traced o.replica
  rcases hanswer with ⟨request, hevent, hbacks, _⟩ | hrefused | ⟨_, _, a, harrived, _, ha, hverdict⟩
  · obtain ⟨tid, txn, record, rfl, found, htxn⟩ := hbacks.prepare_of_yes
    exact ⟨tid, txn, ⟨o, ho, rfl, _, hevent, rfl⟩, (hearlier.traced _).shows_prepare_of_deeds htraced
      (hbefore.map _) ⟨record, found, htxn⟩⟩
  · exact absurd rfl hrefused.ne_yes
  · have hattested := (hearlier.event hmet).attested o.replica
    rw [World.machine_update_self] at hattested
    cases hverdict with
    | inFavour accepted kind found live =>
        cases hcommand : a.entry.command with
        | prepare tid txn =>
            have hshows := (hattested.shows _ a ha accepted).resolve_right (by simp [hcommand])
            rw [hcommand] at harrived hshows
            exact ⟨tid, txn, harrived.askedAt,
              hattested.traced.shows_prepare_of_deeds htraced (hafter.map _) hshows⟩
        | _ =>
            rw [hcommand] at kind
            cases kind

/-- A replica that acknowledges a commit shows it. -/
theorem shows_of_ack (h : g.History (g.replicas balance) events w) (ho : o ∈ events)
    (hm : .respond id (.ack slot) ∈ o.actions) : ∃ request,
      (∃ o' ∈ events, o'.replica = o.replica ∧ o'.event = .request id request) ∧
        ∀ tid, request = .commit tid → (w.machine o.replica).books.Shows (.commit tid) := by
  obtain ⟨earlier, later, w₀, hevents, hearlier, hmet, hlater, hanswer⟩ := h.responds ho hm
  obtain ⟨hbefore, hafter⟩ :=
    hlater.applied_met (hearlier.inOrder (g.inOrder_replicas balance)) hmet
  have htraced := h.traced o.replica
  rcases hanswer with ⟨request, hevent, hbacks, _⟩ | hrefused | ⟨_, _, a, harrived, _, ha, hverdict⟩
  · refine ⟨request, ⟨o, ho, rfl, hevent⟩, fun tid hcommit => ?_⟩
    rw [hcommit] at hbacks
    exact (hearlier.traced _).shows_commit_of_deeds htraced (hbefore.map _) hbacks
  · exact absurd rfl hrefused.ne_ack
  · obtain ⟨o', ho', hreplica, request, hevent, hcommand⟩ := harrived.askedAt
    obtain rfl := Request.command?_eq_some_iff.1 hcommand
    refine ⟨_, ⟨o', ho', hreplica, hevent⟩, fun tid hcommit => ?_⟩
    have hcommand : a.entry.command = .commit tid :=
      Option.some.inj ((Command.command?_request _).symm.trans (congrArg Request.command? hcommit))
    have hattested := (hearlier.event hmet).attested o.replica
    rw [World.machine_update_self] at hattested
    cases hverdict with
    | acknowledged accepted kind =>
        have hshows := (hattested.shows _ a ha accepted).resolve_right (by simp [hcommand])
        rw [hcommand] at hshows
        exact hattested.traced.shows_commit_of_deeds htraced (hafter.map _) hshows

end History

end Group

end ReplicatedLedger
