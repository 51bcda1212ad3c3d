import ReplicatedLedger.Proofs.Consensus.CatchUp

/-!
An exchange of two members of a group: one asks the other for the entries from a slot on, until it
has them all.  The messages about catching up are delivered, each once, and no others.
-/

namespace ReplicatedLedger

open ReplicatedLog (catchUps)

structure Exchange where
  asker : ReplicatedLog
  server : ReplicatedLog
  /-- The messages on their way to the server. -/
  asked : List Message
  /-- The messages on their way to the asker. -/
  answered : List Message

namespace Exchange

/-- One member has asked for the entries from a slot on. -/
def start (a b : ReplicatedLog) (f : Slot) : Exchange := ⟨a, b, [.catchUpRequest f], []⟩

/-- The server handles the first message on its way to it. -/
inductive Serves (x : Exchange) : Exchange → Prop
  | handle {m : Message} {rest : List Message} {log : ReplicatedLog} {actions : List Action}
      (first : x.asked = m :: rest)
      (handled : x.server.handle (.message x.asker.replica m) = .ok (log, actions)) :
      Serves x { x with
        server := log
        asked := rest
        answered := x.answered ++ catchUps x.asker.replica actions }

/-- The asker handles the first message on its way to it. -/
inductive Learns (x : Exchange) : Exchange → Prop
  | handle {m : Message} {rest : List Message} {log : ReplicatedLog} {actions : List Action}
      (first : x.answered = m :: rest)
      (handled : x.asker.handle (.message x.server.replica m) = .ok (log, actions)) :
      Learns x { x with
        asker := log
        asked := x.asked ++ catchUps x.server.replica actions
        answered := rest }

/-- What becomes of an exchange, with the numbers of messages delivered to the server and to the
asker. -/
inductive Run (x : Exchange) : Nat → Nat → Exchange → Prop
  | rest : Run x 0 0 x
  | serve {i j : Nat} {x₁ x₂ : Exchange} (earlier : Run x i j x₁) (step : x₁.Serves x₂) :
      Run x (i + 1) j x₂
  | learn {i j : Nat} {x₁ x₂ : Exchange} (earlier : Run x i j x₁) (step : x₁.Learns x₂) :
      Run x i (j + 1) x₂

/-- No message is on its way. -/
def Finished (x : Exchange) : Prop := x.asked = [] ∧ x.answered = []

/-- The asker fails on the next answer.  It has a proposal of its own under way, for which no slot
or no ballot is left once the entries in the answer are known. -/
def Stuck (x : Exchange) : Prop :=
  ∃ m rest fault, x.answered = m :: rest ∧
    x.asker.handle (.message x.server.replica m) = .error fault ∧ x.asker.active ≠ none ∧
      ¬ (m.entries.foldl ReplicatedLog.learn x.asker).CanAttempt

/-- Two members of a group that reach each other and send batches of the same size. -/
structure Paired (g : Group) (a b : ReplicatedLog) : Prop where
  asker : a.topology = g.topology a.replica
  server : b.topology = g.topology b.replica
  asker_mem : a.replica ∈ g.members
  server_mem : b.replica ∈ g.members
  distinct : a.replica ≠ b.replica
  asker_reaches : a.partition.reaches b.replica = true
  server_reaches : b.partition.reaches a.replica = true
  batch : a.policy.catchUpBatch = b.policy.catchUpBatch

/-- The batch of the entries from a slot on that comes after `k` others. -/
def batch (b : ReplicatedLog) (f : Slot) (k : Nat) : List (Slot × LogEntry) :=
  ((b.chosen.atOrAbove f).drop (k * b.policy.catchUpBatch)).take b.policy.catchUpBatch

/-- After `k` batches the asker has taken over the entries in them. -/
structure After (a b : ReplicatedLog) (f : Slot) (k : Nat) (x : Exchange) : Prop where
  server : x.server = b
  place : a.SamePlace x.asker
  policy : x.asker.policy = a.policy
  idle : a.active = none → x.asker.active = none
  chosen : ∀ s, x.asker.chosen.get? s = (a.chosen.get? s).or
    (SortedMap.lookup s ((b.chosen.atOrAbove f).take (k * b.policy.catchUpBatch)))

/-- How far an exchange has come, with the numbers of messages delivered. -/
inductive Stage (a b : ReplicatedLog) (f : Slot) : Nat → Nat → Exchange → Prop
  | asking {k : Nat} {s : Slot} {x : Exchange} (after : After a b f k x)
      (full : k * b.policy.catchUpBatch ≤ (b.chosen.atOrAbove f).length)
      (rest : b.chosen.atOrAbove s = (b.chosen.atOrAbove f).drop (k * b.policy.catchUpBatch))
      (asked : x.asked = [.catchUpRequest s]) (answered : x.answered = []) : Stage a b f k k x
  | answering {k : Nat} {x : Exchange} (after : After a b f k x)
      (more : k * b.policy.catchUpBatch < (b.chosen.atOrAbove f).length) (asked : x.asked = [])
      (answered : x.answered = [.catchUpResponse ((batch b f k).map (·.2))]) :
      Stage a b f (k + 1) k x
  | done {i j k : Nat} {x : Exchange} (after : After a b f k x)
      (all : (b.chosen.atOrAbove f).length ≤ k * b.policy.catchUpBatch)
      (requests : i ≤ (b.chosen.atOrAbove f).length / b.policy.catchUpBatch + 1)
      (responses : j ≤ (b.chosen.atOrAbove f).length / b.policy.catchUpBatch + 1)
      (asked : x.asked = []) (answered : x.answered = []) : Stage a b f i j x

variable {g : Group} {a b : ReplicatedLog} {f s : Slot} {i j k : Nat} {x x' : Exchange}

namespace Paired

theorem server_hears (h : Paired g a b) : b.hears a.replica = true := by
  refine ReplicatedLog.hears_iff.2 (.inr ⟨?_, h.server_reaches⟩)
  rw [h.server]
  exact h.asker_mem

theorem asker_hears (h : Paired g a b) : a.hears b.replica = true := by
  refine ReplicatedLog.hears_iff.2 (.inr ⟨?_, h.asker_reaches⟩)
  rw [h.asker]
  exact h.server_mem

/-- In a group of two or more a majority takes two. -/
theorem company (h : Paired g a b) : 2 ≤ a.topology.quorum := by
  have hsub : [a.replica, b.replica] ⊆ g.members := by
    simp [h.asker_mem, h.server_mem]
  have hnodup : [a.replica, b.replica].Nodup := by simp [h.distinct]
  have hle := (hnodup.subperm hsub).length_le
  rw [h.asker]
  show 2 ≤ g.members.length / 2 + 1
  rw [List.length_cons, List.length_singleton] at hle
  omega

end Paired

theorem stage_start (a b : ReplicatedLog) (f : Slot) : Stage a b f 0 0 (start a b f) := by
  refine .asking (k := 0) ⟨rfl, ⟨rfl, rfl⟩, rfl, id, fun s => ?_⟩ ?_ ?_ rfl rfl
  · rw [Nat.zero_mul, List.take_zero]
    exact Option.or_none.symm
  · omega
  · rw [Nat.zero_mul, List.drop_zero]

/-! ### Batches -/

theorem length_batch : (batch b f k).length = min b.policy.catchUpBatch
    ((b.chosen.atOrAbove f).length - k * b.policy.catchUpBatch) := by
  unfold batch
  rw [List.length_take, List.length_drop]

theorem take_succ_eq : (b.chosen.atOrAbove f).take ((k + 1) * b.policy.catchUpBatch) =
    (b.chosen.atOrAbove f).take (k * b.policy.catchUpBatch) ++ batch b f k := by
  rw [Nat.succ_mul, List.take_add]
  rfl

theorem batch_eq_nil_iff (pos : 1 ≤ b.policy.catchUpBatch) :
    batch b f k = [] ↔ (b.chosen.atOrAbove f).length ≤ k * b.policy.catchUpBatch := by
  rw [← List.length_eq_zero_iff, length_batch]
  omega

theorem known_of_mem_batch {p : Slot × LogEntry} (hp : p ∈ batch b f k) :
    b.chosen.get? p.1 = some p.2 := by
  have hmem := List.mem_of_mem_drop (List.mem_of_mem_take hp)
  exact SortedMap.get?_eq_some_iff.2 (List.mem_filter.1 hmem).1

theorem slot_of_mem_batch (keyed : ∀ s e, b.chosen.get? s = some e → e.slot = s) :
    ∀ p ∈ batch b f k, p.2.slot = p.1 :=
  fun p hp => keyed p.1 p.2 (known_of_mem_batch hp)

/-- Behind the last entry of a batch begins what is left. -/
theorem exists_last (short : b.Extensible) (more : batch b f k ≠ []) :
    ∃ last t, (batch b f k).getLast? = some last ∧ last.1.next = .ok t ∧
      b.chosen.atOrAbove t = (b.chosen.atOrAbove f).drop ((k + 1) * b.policy.catchUpBatch) := by
  have hlast := List.getLast?_eq_some_getLast more
  obtain ⟨t, ht⟩ := short _ _ (known_of_mem_batch (List.getLast_mem more))
  refine ⟨_, t, hlast, ht, ?_⟩
  refine ReplicatedLog.atOrAbove_next (List.take_append_drop _ _).symm ?_ ht
  rw [take_succ_eq, List.getLast?_append, hlast]
  rfl

namespace After

theorem replica_eq (h : After a b f k x) : x.asker.replica = a.replica :=
  congrArg Topology.replica h.place.topology

theorem hears (h : After a b f k x) (paired : Paired g a b) : x.asker.hears b.replica = true :=
  (h.place.hears_eq _).trans paired.asker_hears

theorem company (h : After a b f k x) (paired : Paired g a b) : 2 ≤ x.asker.topology.quorum :=
  h.place.company paired.company

/-- What the asker asks for after a batch: the next one, if this one was full. -/
theorem exists_requests (h : After a b f k x) (paired : Paired g a b)
    (keyed : ∀ s e, b.chosen.get? s = some e → e.slot = s) (short : b.Extensible)
    (more : batch b f k ≠ []) :
    ∃ t requests,
      b.chosen.atOrAbove t = (b.chosen.atOrAbove f).drop ((k + 1) * b.policy.catchUpBatch) ∧
      (((batch b f k).map (·.2)).foldl ReplicatedLog.learn x.asker).requestNextBatch b.replica
        ((batch b f k).map (·.2)) = .ok requests ∧
      catchUps b.replica requests =
        if b.policy.catchUpBatch ≤ (batch b f k).length then [.catchUpRequest t] else [] := by
  obtain ⟨last, t, hlast, hnext, hrest⟩ := exists_last short more
  have hplace := h.place.trans
    (ReplicatedLog.samePlace_foldl_learn x.asker ((batch b f k).map (·.2)))
  have hreaches : (((batch b f k).map (·.2)).foldl ReplicatedLog.learn x.asker).partition.reaches
      b.replica = true := by
    rw [hplace.partition]
    exact paired.asker_reaches
  have hslot := slot_of_mem_batch keyed last (List.mem_of_getLast? hlast)
  obtain ⟨requests, hrequests, hsent⟩ :=
    ReplicatedLog.catchUps_requestNextBatch hreaches hlast hslot hnext
  rw [ReplicatedLog.policy_foldl_learn, h.policy, paired.batch] at hsent
  exact ⟨t, requests, hrest, hrequests, hsent⟩

/-- One more batch. -/
theorem learn (h : After a b f k x) (keyed : ∀ s e, b.chosen.get? s = some e → e.slot = s)
    {log : ReplicatedLog} {more : List Action} {asked answered : List Message}
    (idle : x.asker.active = none → log.active = none)
    (aside : ReplicatedLog.Progress.Aside
      (((batch b f k).map (·.2)).foldl ReplicatedLog.learn x.asker)
      { log := log, actions := more }) :
    After a b f (k + 1) ⟨log, b, asked, answered⟩ where
  server := rfl
  place := h.place.trans ((ReplicatedLog.samePlace_foldl_learn _ _).trans aside.place)
  policy := aside.policy.trans ((ReplicatedLog.policy_foldl_learn _ _).trans h.policy)
  idle hidle := idle (h.idle hidle)
  chosen s := by
    show log.chosen.get? s = _
    rw [aside.chosen, ReplicatedLog.get?_chosen_foldl_learn (slot_of_mem_batch keyed), h.chosen,
      take_succ_eq, SortedMap.lookup_append, Option.or_assoc]

/-- With all batches the asker has what the server has. -/
theorem chosen_of_all (h : After a b f k x)
    (all : (b.chosen.atOrAbove f).length ≤ k * b.policy.catchUpBatch) (s : Slot) :
    x.asker.chosen.get? s =
      (a.chosen.get? s).or (if f ≤ s then b.chosen.get? s else none) := by
  rw [h.chosen, List.take_of_length_le all, SortedMap.lookup_atOrAbove]
  simp only [Slot.isGE_compare_iff]

end After

/-! ### Steps -/

namespace Stage

/-- The server sends the next batch, or there is none. -/
theorem serve (h : Stage a b f i j x) (paired : Paired g a b) (pos : 1 ≤ b.policy.catchUpBatch)
    (step : x.Serves x') : Stage a b f (i + 1) j x' := by
  obtain ⟨first, handled⟩ := step
  cases h with
  | @asking k s x after full rest asked answered =>
      rw [asked] at first
      cases first
      rw [after.server, after.replica_eq] at handled
      obtain ⟨actions', hhandle, hsent⟩ :=
        ReplicatedLog.handle_catchUpRequest paired.server_hears paired.server_reaches (s := s)
      rw [hhandle] at handled
      cases handled
      have hafter : ∀ answered', After a b f _
          { x with server := b, asked := [], answered := answered' } := fun _ =>
        ⟨rfl, after.place, after.policy, after.idle, after.chosen⟩
      rw [rest] at hsent
      rw [after.replica_eq, hsent, answered, List.nil_append]
      split
      · next hnone =>
        have hcount := (Nat.le_div_iff_mul_le pos).2 full
        exact .done (hafter _) ((batch_eq_nil_iff pos).1 hnone) (by omega) (by omega) rfl rfl
      · next hsome =>
        have hmore := Nat.not_le.1 (mt (batch_eq_nil_iff pos).2 hsome)
        exact .answering (hafter _) hmore rfl rfl
  | answering after more asked answered =>
      rw [asked] at first
      cases first
  | done after all requests responses asked answered =>
      rw [asked] at first
      cases first

theorem bounds (h : Stage a b f i j x) (pos : 1 ≤ b.policy.catchUpBatch) :
    i + x.asked.length ≤ (b.chosen.atOrAbove f).length / b.policy.catchUpBatch + 1 ∧
      j + x.answered.length ≤ (b.chosen.atOrAbove f).length / b.policy.catchUpBatch + 1 := by
  cases h with
  | asking after full rest asked answered =>
      have hcount := (Nat.le_div_iff_mul_le pos).2 full
      rw [asked, answered, List.length_singleton, List.length_nil]
      omega
  | answering after more asked answered =>
      have hcount := (Nat.le_div_iff_mul_le pos).2 (Nat.le_of_lt more)
      rw [asked, answered, List.length_singleton, List.length_nil]
      omega
  | done after all requests responses asked answered =>
      rw [asked, answered, List.length_nil]
      omega

theorem exists_after (h : Stage a b f i j x) : ∃ k, After a b f k x := by
  cases h with
  | asking after => exact ⟨_, after⟩
  | answering after => exact ⟨_, after⟩
  | done after => exact ⟨_, after⟩

theorem chosen_of_finished (h : Stage a b f i j x) (finished : x.Finished) (s : Slot) :
    x.asker.chosen.get? s =
      (a.chosen.get? s).or (if f ≤ s then b.chosen.get? s else none) := by
  cases h with
  | asking after full rest asked answered =>
      rw [finished.1] at asked
      cases asked
  | answering after more asked answered =>
      rw [finished.2] at answered
      cases answered
  | done after all => exact after.chosen_of_all all s

end Stage

section

variable (paired : Paired g a b) (pos : 1 ≤ b.policy.catchUpBatch)
  (keyed : ∀ s e, b.chosen.get? s = some e → e.slot = s) (short : b.Extensible)

include paired pos keyed short

/-- The asker asks for more after a full batch.  After any other it has all entries. -/
theorem Stage.learn (h : Stage a b f i j x) (step : x.Learns x') : Stage a b f i (j + 1) x' := by
  obtain ⟨first, handled⟩ := step
  cases h with
  | asking after full rest asked answered =>
      rw [answered] at first
      cases first
  | answering after more asked answered =>
      rw [answered] at first
      cases first
      rw [after.server] at handled
      have hsome := mt (batch_eq_nil_iff pos).1 (Nat.not_le.2 more)
      obtain ⟨t, requests, hrest, hrequests, hsent⟩ :=
        after.exists_requests paired keyed short hsome
      obtain ⟨requests', more', hrequests', rfl, haside⟩ :=
        ReplicatedLog.handle_response_aside (after.hears paired) (after.company paired) handled
      rw [hrequests] at hrequests'
      cases hrequests'
      have hidle := ReplicatedLog.idle_of_handle_response handled
      have hcatch : catchUps b.replica (requests ++ more') =
          if b.policy.catchUpBatch ≤ (batch b f j).length then [.catchUpRequest t] else [] := by
        rw [ReplicatedLog.catchUps_append, hsent, haside.unrelated.catchUps_eq, List.append_nil]
      rw [after.server, hcatch, asked, List.nil_append]
      have hcount := (Nat.le_div_iff_mul_le pos).2 (Nat.le_of_lt more)
      rw [length_batch]
      -- a full batch may have been the last one, and then the next request finds nothing
      split
      · next hfull =>
        refine .asking (after.learn keyed hidle haside) ?_ hrest rfl rfl
        rw [Nat.succ_mul]
        omega
      · next hshort =>
        refine .done (after.learn keyed hidle haside) ?_ (by omega) (by omega) rfl rfl
        rw [Nat.succ_mul]
        omega
  | done after all requests responses asked answered =>
      rw [answered] at first
      cases first

/-- As long as a message is on its way, it can be handled, unless the asker is stuck. -/
theorem Stage.progress (h : Stage a b f i j x) :
    x.Finished ∨ x.Stuck ∨ (∃ x', x.Serves x') ∨ ∃ x', x.Learns x' := by
  cases h with
  | @asking k s x after full rest asked answered =>
      obtain ⟨actions, hhandle, _⟩ :=
        ReplicatedLog.handle_catchUpRequest paired.server_hears paired.server_reaches (s := s)
      rw [← after.server, ← after.replica_eq] at hhandle
      exact .inr (.inr (.inl ⟨_, .handle asked hhandle⟩))
  | answering after more asked answered =>
      have hsome := mt (batch_eq_nil_iff pos).1 (Nat.not_le.2 more)
      obtain ⟨_, requests, _, hrequests, _⟩ := after.exists_requests paired keyed short hsome
      cases hhandle : x.asker.handle
          (.message x.server.replica (.catchUpResponse ((batch b f j).map (·.2)))) with
      | ok r => exact .inr (.inr (.inr ⟨_, .handle answered hhandle⟩))
      | error fault =>
          refine .inr (.inl ⟨_, [], fault, answered, hhandle, not_or.1 fun can => ?_⟩)
          obtain ⟨r, hr⟩ := ReplicatedLog.exists_handle_response (after.hears paired)
            (after.company paired) hrequests can
          rw [after.server, hr] at hhandle
          cases hhandle
  | done after all requests responses asked answered => exact .inl ⟨asked, answered⟩

/-! ### Runs -/

theorem Run.stage (h : Run (start a b f) i j x) : Stage a b f i j x := by
  induction h with
  | rest => exact stage_start a b f
  | serve _ step ih => exact ih.serve paired pos step
  | learn _ step ih => exact ih.learn paired pos keyed short step

/-- Every exchange comes to an end: what is left of the messages it may take gets less. -/
theorem Run.exists_end (h : Run (start a b f) i j x) :
    ∃ i' j' x', Run (start a b f) i' j' x' ∧ (x'.Finished ∨ x'.Stuck) := by
  obtain ⟨left, hleft⟩ : ∃ left,
      2 * ((b.chosen.atOrAbove f).length / b.policy.catchUpBatch + 1) = i + j + left := by
    have hbounds := (h.stage paired pos keyed short).bounds pos
    exact Nat.exists_eq_add_of_le (by omega)
  -- the bounds allow no more than `left` further messages
  induction left generalizing i j x with
  | zero =>
      have hstage := h.stage paired pos keyed short
      have hbounds := hstage.bounds pos
      have finished : x.Finished :=
        ⟨List.length_eq_zero_iff.1 (by omega), List.length_eq_zero_iff.1 (by omega)⟩
      exact ⟨i, j, x, h, .inl finished⟩
  | succ left ih =>
      rcases (h.stage paired pos keyed short).progress paired pos keyed short with
        finished | stuck | ⟨x', step⟩ | ⟨x', step⟩
      · exact ⟨i, j, x, h, .inl finished⟩
      · exact ⟨i, j, x, h, .inr stuck⟩
      · exact ih (h.serve step) (by omega)
      · exact ih (h.learn step) (by omega)

end

/-- The exchange ends, after at most one message more in each direction than there are full batches.
The asker keeps what it knew, and unless it is stuck it then knows the entries that the server has
from the slot on.  An asker without a proposal of its own is never stuck. -/
theorem catch_up_completes (paired : Paired g a b) (pos : 1 ≤ b.policy.catchUpBatch)
    (keyed : ∀ s e, b.chosen.get? s = some e → e.slot = s) (short : b.Extensible) (f : Slot) :
    (∃ i j x, Run (start a b f) i j x ∧ (x.Finished ∨ x.Stuck)) ∧
    ∀ i j x, Run (start a b f) i j x →
      i + x.asked.length ≤ (b.chosen.atOrAbove f).length / b.policy.catchUpBatch + 1 ∧
      j + x.answered.length ≤ (b.chosen.atOrAbove f).length / b.policy.catchUpBatch + 1 ∧
      (∀ s e, a.chosen.get? s = some e → x.asker.chosen.get? s = some e) ∧
      (x.Finished ∨ x.Stuck ∨ (∃ x', x.Serves x') ∨ ∃ x', x.Learns x') ∧
      (x.Stuck → a.active ≠ none) ∧
      (x.Finished → ∀ s, x.asker.chosen.get? s =
        (a.chosen.get? s).or (if f ≤ s then b.chosen.get? s else none)) := by
  refine ⟨Run.exists_end paired pos keyed short .rest, fun i j x hrun => ?_⟩
  have hstage := hrun.stage paired pos keyed short
  obtain ⟨hasked, hanswered⟩ := hstage.bounds pos
  obtain ⟨k, hafter⟩ := hstage.exists_after
  refine ⟨hasked, hanswered, fun s e he => ?_, hstage.progress paired pos keyed short, ?_,
    hstage.chosen_of_finished⟩
  · rw [hafter.chosen, he, Option.some_or]
  · rintro ⟨_, _, _, _, _, hactive, _⟩ hidle
    exact hactive (hafter.idle hidle)

/-- A replica that knows the third slot learns the first and the sixth in batches of two. -/
theorem catch_up_completes_gaps :
    let l : ReplicaId → ReplicatedLog := fun r =>
      { topology := Group.pair.topology r, policy := { catchUpBatch := 2 } }
    let e₀ : LogEntry := ⟨⟨0⟩, ⟨1, ⟨2⟩⟩, .commit ⟨7⟩⟩
    let e₂ : LogEntry := ⟨⟨2⟩, ⟨1, ⟨2⟩⟩, .abort ⟨8⟩⟩
    let e₅ : LogEntry := ⟨⟨5⟩, ⟨1, ⟨2⟩⟩, .commit ⟨9⟩⟩
    let a := (l ⟨1⟩).learn e₂
    let b := (((l ⟨2⟩).learn e₀).learn e₂).learn e₅
    ∃ x, Run (start a b ⟨0⟩) 2 2 x ∧
      x.Finished ∧ x.asker.chosen.get? ⟨0⟩ = some e₀ ∧ x.asker.chosen.get? ⟨2⟩ = some e₂ ∧
      x.asker.chosen.get? ⟨5⟩ = some e₅ := by
  intro l e₀ e₂ e₅ a b
  have paired : Paired Group.pair a b :=
    ⟨rfl, rfl, by decide, by decide, by decide, rfl, rfl, rfl⟩
  have hcoherent := (((ReplicatedLog.coherent_fresh (Group.pair.topology ⟨2⟩)
    { catchUpBatch := 2 }).learn e₀).learn e₂).learn e₅
  have short : b.Extensible := by
    intro s e he
    have hmem : (s, e) ∈ [(e₀.slot, e₀), (e₂.slot, e₂), (e₅.slot, e₅)] :=
      SortedMap.get?_eq_some_iff.1 he
    simp only [List.mem_cons, List.not_mem_nil, or_false, Prod.mk.injEq] at hmem
    rcases hmem with ⟨rfl, rfl⟩ | ⟨rfl, rfl⟩ | ⟨rfl, rfl⟩ <;> exact ⟨_, rfl⟩
  have hasked : b.handle (.message ⟨1⟩ (.catchUpRequest ⟨0⟩)) =
      .ok (b, [.send ⟨1⟩ (.catchUpResponse [e₀, e₂])]) := rfl
  have hanswered : a.handle (.message ⟨2⟩ (.catchUpResponse [e₀, e₂])) =
      .ok (a.learn e₀, [.send ⟨2⟩ (.catchUpRequest ⟨3⟩)]) := rfl
  have hasked' : b.handle (.message ⟨1⟩ (.catchUpRequest ⟨3⟩)) =
      .ok (b, [.send ⟨1⟩ (.catchUpResponse [e₅])]) := rfl
  have hanswered' : (a.learn e₀).handle (.message ⟨2⟩ (.catchUpResponse [e₅])) =
      .ok ((a.learn e₀).learn e₅, []) := rfl
  have hrun : Run (start a b ⟨0⟩) 2 2 _ :=
    .learn (.serve (.learn (.serve .rest (.handle rfl hasked)) (.handle rfl hanswered))
      (.handle rfl hasked')) (.handle rfl hanswered')
  obtain ⟨_, hall⟩ := catch_up_completes paired (by decide) hcoherent.keyed short ⟨0⟩
  have hchosen := (hall _ _ _ hrun).2.2.2.2.2 ⟨rfl, rfl⟩
  exact ⟨_, hrun, ⟨rfl, rfl⟩, hchosen ⟨0⟩, hchosen ⟨2⟩, hchosen ⟨5⟩⟩

/-- An asker that fails on the first answer stays as it was. -/
theorem asker_eq_of_fault {actions : List Action} {m : Message} {fault : Fault}
    (served : b.handle (.message a.replica (.catchUpRequest f)) = .ok (b, actions))
    (sent : catchUps a.replica actions = [m])
    (fails : a.handle (.message b.replica m) = .error fault) (h : Run (start a b f) i j x) :
    x.asker = a := by
  have hsteps : x = start a b f ∨ x = ⟨a, b, [], [m]⟩ := by
    induction h with
    | rest => exact .inl rfl
    | serve _ step ih =>
        obtain ⟨first, handled⟩ := step
        rcases ih with rfl | rfl
        · cases first
          cases served.symm.trans handled
          rw [← sent]
          exact .inr rfl
        · cases first
    | learn _ step ih =>
        obtain ⟨first, handled⟩ := step
        rcases ih with rfl | rfl
        · cases first
        · cases first
          cases fails.symm.trans handled
  rcases hsteps with rfl | rfl <;> rfl

/-- Not every exchange completes.  The asker here has a proposal of its own, and is sent an entry
for the same slot.  That entry was chosen in the last round there is, so that no ballot is left for
the next attempt. -/
theorem catch_up_cut_short : ¬ ∀ (g : Group) (a b : ReplicatedLog) (f : Slot), Paired g a b →
    1 ≤ b.policy.catchUpBatch → (∀ s e, b.chosen.get? s = some e → e.slot = s) → b.Extensible →
    ∃ i j x, Run (start a b f) i j x ∧
      ∀ s e, f ≤ s → b.chosen.get? s = some e → x.asker.chosen.get? s ≠ none := by
  intro hcomplete
  let e₀ : LogEntry := ⟨⟨0⟩, ⟨18446744073709551615, ⟨2⟩⟩, .commit ⟨7⟩⟩
  let e₁ : LogEntry := ⟨⟨1⟩, ⟨1, ⟨2⟩⟩, .abort ⟨8⟩⟩
  let b := (ReplicatedLog.learn
    { topology := Group.pair.topology ⟨2⟩, policy := { catchUpBatch := 1 } } e₀).learn e₁
  obtain ⟨⟨a, _⟩, _, paired, hfails, hunknown⟩ : ∃ r,
      ReplicatedLog.propose
        { topology := Group.pair.topology ⟨1⟩, policy := { catchUpBatch := 1 } }
        (.commit ⟨9⟩) = .ok r ∧
      Paired Group.pair r.1 b ∧
      r.1.handle (.message ⟨2⟩ (.catchUpResponse [e₀])) = .error .sum ∧
      r.1.chosen.get? ⟨1⟩ = none := by
    refine ⟨_, rfl, ⟨rfl, rfl, ?_, ?_, ?_, rfl, rfl, rfl⟩, rfl, rfl⟩ <;> decide
  have hcoherent := ((ReplicatedLog.coherent_fresh (Group.pair.topology ⟨2⟩)
    { catchUpBatch := 1 }).learn e₀).learn e₁
  have short : b.Extensible := by
    intro s e he
    have hmem : (s, e) ∈ [(e₀.slot, e₀), (e₁.slot, e₁)] := SortedMap.get?_eq_some_iff.1 he
    simp only [List.mem_cons, List.not_mem_nil, or_false, Prod.mk.injEq] at hmem
    rcases hmem with ⟨rfl, rfl⟩ | ⟨rfl, rfl⟩ <;> exact ⟨_, rfl⟩
  obtain ⟨actions, hserved, hsent⟩ := ReplicatedLog.handle_catchUpRequest (s := ⟨0⟩)
    paired.server_hears paired.server_reaches
  obtain ⟨i, j, x, hrun, hknown⟩ :=
    hcomplete Group.pair a b ⟨0⟩ paired (by decide) hcoherent.keyed short
  refine hknown ⟨1⟩ e₁ (by decide) rfl ?_
  rw [asker_eq_of_fault hserved hsent hfails hrun]
  exact hunknown

end Exchange

end ReplicatedLedger
