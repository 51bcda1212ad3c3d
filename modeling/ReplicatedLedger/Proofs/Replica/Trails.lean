import ReplicatedLedger.Proofs.Replica.History

/-!
The audit trails that the replicas of a shard show to clients.  Two of them agree on what was done
at each position, and each entry names a ballot under which its command was chosen.  This may be
another ballot at another replica: the command of a slot can be chosen under several ballots, by
replicas that have not heard of each other's success, and each notes the one that it learned of
first.
-/

namespace ReplicatedLedger

namespace Group

variable {g : Group} {balance : Amount} {w : World Replica} {events : List Occurrence}
  {o o' : Occurrence} {r : ReplicaId} {id id' : RequestId} {trail trail' : List AppliedEntry}
  {i : Nat} {a a' : AppliedEntry}

namespace History

theorem shown_begins (h : g.History (g.replicas balance) events w) (ho : o ∈ events)
    (hm : .respond id (.logs trail) ∈ o.actions) :
    trail <+: (w.machine o.replica).books.applied := by
  obtain ⟨earlier, later, w₀, hevents, hearlier, hmet, hlater, hanswer⟩ := h.responds ho hm
  rcases hanswer with ⟨_, _, hbacks, _⟩ | hrefused | ⟨_, _, _, _, _, _, hverdict⟩
  · rw [hbacks.eq_applied]
    exact (hlater.applied_met (hearlier.inOrder (g.inOrder_replicas balance)) hmet).1
  · exact absurd rfl hrefused.ne_logs
  · cases hverdict

theorem elected (h : g.History (g.replicas balance) events w)
    (ha : (w.machine r).books.applied[i]? = some a) :
    g.Elected (w.map Replica.log) a.entry := by
  have hw := h.inOrder (g.inOrder_replicas balance)
  obtain ⟨_, hknown⟩ := (hw.replays r).known i a ha
  exact (hw.steady.sound.chosen r _ _ hknown).2

end History

/-- Trails that replicas of a shard show, at any two moments, agree position by position in slot,
command and outcome.  Both entries name ballots under which a majority accepted the command, and
they are equal where there was only one, or where one replica shows both. -/
theorem trails_agree (h : g.History (g.replicas balance) events w) (ho : o ∈ events)
    (ho' : o' ∈ events) (hm : .respond id (.logs trail) ∈ o.actions)
    (hm' : .respond id' (.logs trail') ∈ o'.actions) (ha : trail[i]? = some a)
    (ha' : trail'[i]? = some a') :
    (a.entry.slot.index.toNat = i ∧ a'.entry.slot = a.entry.slot ∧
      a'.entry.command = a.entry.command ∧ a'.outcome = a.outcome) ∧
    (g.Elected (w.map Replica.log) a.entry ∧ g.Elected (w.map Replica.log) a'.entry) ∧
    (o'.replica = o.replica → a' = a) ∧
    ((∀ e e', g.Elected (w.map Replica.log) e → g.Elected (w.map Replica.log) e' →
      e.slot = a.entry.slot → e'.slot = a.entry.slot → e.ballot = e'.ballot) → a' = a) := by
  have hw := h.inOrder (g.inOrder_replicas balance)
  have ha := Books.getElem?_of_begins ha (h.shown_begins ho hm)
  have ha' := Books.getElem?_of_begins ha' (h.shown_begins ho' hm')
  obtain ⟨hslot, hcommand, houtcome⟩ := hw.deed_eq ha' ha
  have helected := h.elected ha
  have helected' := h.elected ha'
  refine ⟨⟨((hw.replays _).known i a ha).1, hslot, hcommand, houtcome⟩, ⟨helected, helected'⟩,
    fun hsame => ?_, fun honly => ?_⟩
  · rw [hsame, ha] at ha'
    exact (Option.some.inj ha').symm
  · have hballot := honly _ _ helected' helected hslot rfl
    obtain ⟨⟨slot, ballot, command⟩, outcome⟩ := a
    obtain ⟨⟨slot', ballot', command'⟩, outcome'⟩ := a'
    cases hslot
    cases hcommand
    cases houtcome
    cases hballot
    rfl

/-! ### Two ballots -/

/-- A transfer that two replicas complete, each under a ballot of its own. -/
def contested : Command := .transfer ⟨1⟩ ⟨⟨1⟩, ⟨2⟩, 3⟩

/-- The first replica has the transfer accepted, and does not hear of it yet. -/
def deferring : List Cue :=
  ⟨⟨1⟩, .zero, .request ⟨0⟩ contested.request⟩ ::
    ((balloting ⟨1⟩ ⟨2⟩ ⟨1, ⟨1⟩⟩ .first none contested).take 3).map .delivered

/-- The second one, with a transfer of its own, has to take up the first before, and has it accepted
under its own ballot. -/
def adopting : List Cue :=
  ⟨⟨2⟩, .zero, .request ⟨1⟩ (.transfer ⟨2⟩ ⟨⟨2⟩, ⟨1⟩, 1⟩)⟩ ::
    ((balloting ⟨2⟩ ⟨1⟩ ⟨2, ⟨2⟩⟩ .first (some (⟨1, ⟨1⟩⟩, contested)) contested).take 3).map
      .delivered

/-- Each replica hears of its own success, and shows its trail. -/
def showing : List Cue :=
  [.delivered ⟨⟨2⟩, ⟨1⟩, .accepted ⟨1, ⟨1⟩⟩ .first⟩,
    .delivered ⟨⟨1⟩, ⟨2⟩, .accepted ⟨2, ⟨2⟩⟩ .first⟩,
    ⟨⟨1⟩, .zero, .request ⟨2⟩ .logs⟩, ⟨⟨2⟩, .zero, .request ⟨3⟩ .logs⟩]

def deferred : World Replica := (pair.meetAll (pair.replicas 10) deferring).2

def adopted : World Replica := (pair.meetAll deferred adopting).2

theorem exists_differing : ∃ events w o o' a a',
    pair.History (pair.replicas 10) events w ∧ o ∈ events ∧ o' ∈ events ∧
      .respond ⟨2⟩ (.logs [a]) ∈ o.actions ∧ .respond ⟨3⟩ (.logs [a']) ∈ o'.actions ∧
      a.entry.ballot = ⟨1, ⟨1⟩⟩ ∧ a'.entry.ballot = ⟨2, ⟨2⟩⟩ := by
  have hdeferred : pair.History (pair.replicas 10) _ deferred := pair.history_meetAll _ deferring
  have hadopted : pair.History deferred _ adopted := pair.history_meetAll _ adopting
  have h := (hdeferred.append hadopted).append (pair.history_meetAll _ showing)
  obtain ⟨o, ho, hm⟩ : ∃ o ∈ (pair.meetAll adopted showing).1, .respond ⟨2⟩
      (.logs [⟨⟨.first, ⟨1, ⟨1⟩⟩, contested⟩, .transferred⟩]) ∈ o.actions := by decide +kernel
  obtain ⟨o', ho', hm'⟩ : ∃ o ∈ (pair.meetAll adopted showing).1, .respond ⟨3⟩
      (.logs [⟨⟨.first, ⟨2, ⟨2⟩⟩, contested⟩, .transferred⟩]) ∈ o.actions := by decide +kernel
  exact ⟨_, _, o, o', _, _, h, List.mem_append_right _ ho, List.mem_append_right _ ho', hm, hm', rfl,
    rfl⟩

/-- Trails are not equal as a whole: the ballots that they name may differ. -/
theorem trails_differ_in_ballot : ¬ ∀ (g : Group) (balance : Amount) (events : List Occurrence)
    (w : World Replica) (o o' : Occurrence) (id id' : RequestId) (trail trail' : List AppliedEntry)
    (i : Nat) (a a' : AppliedEntry), g.History (g.replicas balance) events w → o ∈ events →
      o' ∈ events → .respond id (.logs trail) ∈ o.actions →
      .respond id' (.logs trail') ∈ o'.actions → trail[i]? = some a → trail'[i]? = some a' →
      a' = a := by
  intro hequal
  obtain ⟨events, w, o, o', a, a', h, ho, ho', hm, hm', hballot, hballot'⟩ := exists_differing
  have hsame := hequal pair 10 events w o o' ⟨2⟩ ⟨3⟩ [a] [a'] 0 a a' h ho ho' hm hm' rfl rfl
  rw [hsame, hballot] at hballot'
  cases hballot'

theorem trails_agree_pair : ∃ events w o o' a a',
    pair.History (pair.replicas 10) events w ∧ o ∈ events ∧ o' ∈ events ∧
      .respond ⟨2⟩ (.logs [a]) ∈ o.actions ∧ .respond ⟨3⟩ (.logs [a']) ∈ o'.actions ∧
      a'.entry.command = a.entry.command ∧ a'.outcome = a.outcome ∧
      a.entry.ballot ≠ a'.entry.ballot ∧ pair.Elected (w.map Replica.log) a.entry ∧
      pair.Elected (w.map Replica.log) a'.entry := by
  obtain ⟨events, w, o, o', a, a', h, ho, ho', hm, hm', hballot, hballot'⟩ := exists_differing
  obtain ⟨⟨_, _, hcommand, houtcome⟩, ⟨helected, helected'⟩, _⟩ :=
    trails_agree (i := 0) h ho ho' hm hm' rfl rfl
  refine ⟨events, w, o, o', a, a', h, ho, ho', hm, hm', hcommand, houtcome, ?_, helected, helected'⟩
  rw [hballot, hballot']
  decide

end Group

end ReplicatedLedger
