import ReplicatedLedger.Proofs.Books.Evidence

/-!
The life of a transfer across shards on one of its shards.  It is prepared at most once and then
decided at most once.  Its record tells how far it has come, and lasts as it is once it is decided.
-/

namespace ReplicatedLedger

/-- Whether a command is a step of a transfer across shards. -/
def Command.isStage : Command → Bool
  | transfer .. => false
  | prepare .. | commit _ | abort _ => true

/-- The outcomes by which a record comes to a state. -/
def ParticipantState.stages : ParticipantState → List Outcome
  | prepared => [.prepared]
  | committed => [.prepared, .committed]
  | aborted => [.prepared, .aborted]

namespace Participants

/-- The outcomes that the record of an id tells of. -/
def stages (p : Participants) (tid : Tid) : List Outcome :=
  (p.state? tid).elim [] ParticipantState.stages

theorem stages_mem (p : Participants) (tid : Tid) :
    p.stages tid ∈ [[], [.prepared], [.prepared, .committed], [.prepared, .aborted]] := by
  unfold stages
  cases p.state? tid with
  | none => simp
  | some state => cases state <;> simp [ParticipantState.stages]

theorem stages_of_state? {p : Participants} {tid : Tid} {state : ParticipantState}
    (h : p.state? tid = some state) : p.stages tid = state.stages := by
  unfold stages
  rw [h, Option.elim_some]

variable {p : Participants} {tid tid' : Tid} {r r' : ParticipantRecord} {state : ParticipantState}

/-- A decision is the second stage of the transaction that it is about. -/
theorem stages_decide {decision : Outcome} (found : p.find? tid = some r)
    (pending : r.state = .prepared) (hstages : state.stages = [.prepared, decision]) (tid' : Tid) :
    (p.decide tid state).stages tid' =
      p.stages tid' ++ if tid = tid' then [decision] else [] := by
  by_cases htid : tid = tid'
  · subst htid
    have hbefore : p.state? tid = some .prepared :=
      (state?_of_find? found).trans (congrArg some pending)
    rw [stages_of_state? (state?_decide_self found), stages_of_state? hbefore, hstages, if_pos rfl]
    rfl
  · unfold stages
    rw [state?_decide_of_ne (Ne.symm htid), if_neg htid, List.append_nil]

theorem txn_find?_decide (p : Participants) (tid tid' : Tid) (state : ParticipantState) :
    ((p.decide tid state).find? tid').map (·.txn) = (p.find? tid').map (·.txn) := by
  rw [find?_decide, Option.map_map]
  refine Option.map_congr fun r _ => ?_
  show (if tid' = tid then _ else r).txn = r.txn
  split <;> rfl

/-- The decision on a pending transaction leaves alone what is decided. -/
theorem find?_decide_of_decided (found : p.find? tid = some r) (decided : r.state ≠ .prepared)
    (found' : p.find? tid' = some r') (pending : r'.state = .prepared) :
    (p.decide tid' state).find? tid = some r := by
  have hne : tid ≠ tid' := by
    rintro rfl
    rw [found] at found'
    cases found'
    exact decided pending
  rw [find?_decide, found, Option.map_some, if_neg hne]

end Participants

namespace Books

variable {b b' m : Books} {c : Command} {tid : Tid} {e : LogEntry} {outcome : Outcome}
  {entries more : List LogEntry} {t : Topology} {balance : Amount} {r : ParticipantRecord}

/-! ### What the trail tells of an id -/

/-- The steps of a transfer across shards that took effect, in the order of the trail. -/
def stages (b : Books) (tid : Tid) : List Outcome :=
  ((b.applied.filter fun a => a.entry.command.tid = tid ∧ a.entry.command.isStage).map
    (·.outcome)).filter (·.isEffective)

/-- The commands on an id that had a certain outcome, in the order of the trail. -/
def commandsWith (b : Books) (tid : Tid) (outcome : Outcome) : List Command :=
  (b.applied.filter fun a => a.entry.command.tid = tid ∧ a.outcome = outcome).map
    (·.entry.command)

theorem stages_append (happlied : b'.applied = b.applied ++ [⟨e, outcome⟩]) (tid : Tid) :
    b'.stages tid = b.stages tid ++
      if e.command.tid = tid ∧ e.command.isStage = true ∧ outcome.isEffective = true then [outcome]
      else [] := by
  unfold stages
  rw [happlied, List.filter_append, List.map_append, List.filter_append]
  by_cases hstage : e.command.tid = tid ∧ e.command.isStage = true
  · by_cases heffective : outcome.isEffective = true <;> simp [hstage, heffective]
  · have hnot : ¬ (e.command.tid = tid ∧ e.command.isStage = true ∧ outcome.isEffective = true) :=
      fun h => hstage ⟨h.1, h.2.1⟩
    rw [if_neg hnot, List.filter_cons_of_neg (by simpa using hstage)]
    rfl

theorem commandsWith_append (happlied : b'.applied = b.applied ++ [⟨e, outcome⟩]) (tid : Tid)
    (wanted : Outcome) : b'.commandsWith tid wanted = b.commandsWith tid wanted ++
      if e.command.tid = tid ∧ outcome = wanted then [e.command] else [] := by
  unfold commandsWith
  rw [happlied, List.filter_append, List.map_append]
  by_cases h : e.command.tid = tid ∧ outcome = wanted
  · rw [if_pos h, List.filter_cons_of_pos (by simpa using h)]
    rfl
  · rw [if_neg h, List.filter_cons_of_neg (by simpa using h)]
    rfl

/-! ### What the tables tell of it -/

/-- A record goes on by the stage that an entry adds. -/
theorem Effect.stages (h : b.Effect c m outcome) (tid : Tid) :
    m.participants.stages tid = b.participants.stages tid ++
      if c.tid = tid ∧ c.isStage = true ∧ outcome.isEffective = true then [outcome] else [] := by
  cases h with
  | none idle => simp [idle]
  | transferred unused unprepared sender receiver funded room debit => simp [Command.isStage]
  | @prepared tid' txn unused admitted =>
      unfold Participants.stages Participants.state?
      dsimp only
      rw [find?_append]
      by_cases htid : tid' = tid
      · subst htid
        simp [unused, Command.tid, Command.isStage, Outcome.isEffective, ParticipantState.stages]
      · simp [htid, Command.tid]
  | committed found pending room debit =>
      dsimp only
      rw [Participants.stages_decide found pending rfl]
      simp [Command.tid, Command.isStage, Outcome.isEffective]
  | aborted found pending =>
      dsimp only
      rw [Participants.stages_decide found pending rfl]
      simp [Command.tid, Command.isStage, Outcome.isEffective]

/-- The record of an id is that of the transaction that was prepared. -/
theorem Effect.prepares (h : b.Effect c m outcome) (tid : Tid) :
    ((m.participants.find? tid).map (·.txn)).toList.map (Command.prepare tid) =
      ((b.participants.find? tid).map (·.txn)).toList.map (Command.prepare tid) ++
        if c.tid = tid ∧ outcome = .prepared then [c] else [] := by
  cases h with
  | none idle =>
      have hne : outcome ≠ .prepared := by
        rintro rfl
        cases idle
      simp [hne]
  | transferred unused unprepared sender receiver funded room debit => simp
  | @prepared tid' txn unused admitted =>
      dsimp only
      rw [find?_append]
      by_cases htid : tid' = tid
      · subst htid
        simp [unused, Command.tid]
      · simp [htid, Command.tid]
  | committed found pending room debit => simp [Participants.txn_find?_decide]
  | aborted found pending => simp [Participants.txn_find?_decide]

/-- The table of transfers holds what was transferred. -/
theorem Effect.transfers (h : b.Effect c m outcome) (tid : Tid) :
    (m.transfers.get? tid).toList.map (Command.transfer tid) =
      (b.transfers.get? tid).toList.map (Command.transfer tid) ++
        if c.tid = tid ∧ outcome = .transferred then [c] else [] := by
  cases h with
  | none idle =>
      have hne : outcome ≠ .transferred := by
        rintro rfl
        cases idle
      simp [hne]
  | @transferred tid' txn debited unused unprepared sender receiver funded room debit =>
      dsimp only
      rw [SortedMap.get?_insert]
      by_cases htid : tid = tid'
      · subst htid
        simp [unused, Command.tid]
      · simp [htid, Ne.symm htid, Command.tid]
  | prepared unused admitted => simp
  | committed found pending room debit => simp
  | aborted found pending => simp

/-- The tables tell what the trail tells, entry by entry. -/
structure Chronicled (b : Books) : Prop where
  stages : ∀ tid, b.stages tid = b.participants.stages tid
  prepares : ∀ tid, b.commandsWith tid .prepared =
    ((b.participants.find? tid).map (·.txn)).toList.map (Command.prepare tid)
  transfers : ∀ tid, b.commandsWith tid .transferred =
    (b.transfers.get? tid).toList.map (Command.transfer tid)

theorem chronicled_opening (t : Topology) (balance : Amount) : (opening t balance).Chronicled where
  stages _ := rfl
  prepares _ := rfl
  transfers _ := rfl

theorem Chronicled.apply (h : b.Chronicled) (happly : b.apply e = .ok (b', outcome)) :
    b'.Chronicled := by
  obtain ⟨m, heffect, _, rfl⟩ := apply_eq_ok happly
  constructor
  · intro tid
    rw [stages_append rfl, h.stages]
    exact (heffect.stages tid).symm
  · intro tid
    rw [commandsWith_append rfl, h.prepares]
    exact (heffect.prepares tid).symm
  · intro tid
    rw [commandsWith_append rfl, h.transfers]
    exact (heffect.transfers tid).symm

theorem Chronicled.applyAll (h : b.Chronicled) (happly : b.applyAll entries = .ok b') :
    b'.Chronicled :=
  applyAll_induction happly h fun _ _ _ _ hm hstep => hm.apply hstep

/-! ### Decided records -/

/-- No command touches a record that is decided. -/
theorem Effect.find?_of_decided (h : b.Effect c m outcome)
    (found : b.participants.find? tid = some r) (decided : r.state ≠ .prepared) : m.participants.find? tid = some r := by
  cases h with
  | none idle => exact found
  | transferred unused unprepared sender receiver funded room debit => exact found
  | prepared unused admitted =>
      dsimp only
      rw [find?_append, found, Option.some_or]
  | committed found' pending room debit =>
      exact Participants.find?_decide_of_decided found decided found' pending
  | aborted found' pending =>
      exact Participants.find?_decide_of_decided found decided found' pending

theorem find?_applyAll_of_decided (happly : b.applyAll more = .ok b')
    (found : b.participants.find? tid = some r) (decided : r.state ≠ .prepared) :
    b'.participants.find? tid = some r := by
  refine applyAll_induction (P := fun b => b.participants.find? tid = some r) happly found ?_
  intro m e m' outcome hm hstep
  obtain ⟨m₁, heffect, _, rfl⟩ := apply_eq_ok hstep
  exact heffect.find?_of_decided hm decided

/-- Whatever entries are applied, a transfer across shards goes through at most two stages: it is
prepared, and then committed or aborted.  The state of its record tells which, and the transaction
in it is that of the one entry that was prepared.  Once it is decided, the record holds nothing back
and stays as it is under all further entries.  At most one entry of an id is a transfer within the
shard. -/
theorem participant_lifecycle (t : Topology) (balance : Amount) (entries : List LogEntry) :
    ∃ b, (opening t balance).applyAll entries = .ok b ∧ ∀ tid,
      b.stages tid ∈ [[], [.prepared], [.prepared, .committed], [.prepared, .aborted]] ∧
      b.stages tid = (b.participants.state? tid).elim [] ParticipantState.stages ∧
      b.commandsWith tid .prepared =
        ((b.participants.find? tid).map (·.txn)).toList.map (Command.prepare tid) ∧
      (∀ r, b.participants.find? tid = some r → r.state ≠ .prepared →
        r.reserved = 0 ∧ ∀ more, ∃ b', b.applyAll more = .ok b' ∧
          b'.participants.find? tid = some r) ∧
      (b.commandsWith tid .transferred).length ≤ 1 := by
  obtain ⟨b, happly⟩ := (covered_opening t balance).exists_applyAll entries
  have hcovered : b.Covered := (covered_opening t balance).applyAll happly
  have hchronicled : b.Chronicled := (chronicled_opening t balance).applyAll happly
  refine ⟨b, happly, fun tid => ⟨?_, hchronicled.stages tid, hchronicled.prepares tid, ?_, ?_⟩⟩
  · rw [hchronicled.stages]
    exact b.participants.stages_mem tid
  · intro r found decided
    refine ⟨?_, fun more => ?_⟩
    · rw [hcovered.reserved r (Participants.mem_of_find? found).1, if_neg fun h => decided h.1]
    · obtain ⟨b', hmore⟩ := hcovered.exists_applyAll more
      exact ⟨b', hmore, find?_applyAll_of_decided hmore found decided⟩
  · rw [hchronicled.transfers, List.length_map]
    cases b.transfers.get? tid <;> simp

end Books

end ReplicatedLedger
