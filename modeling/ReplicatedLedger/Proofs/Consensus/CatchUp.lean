import ReplicatedLedger.Proofs.Consensus.Company
import ReplicatedLedger.Proofs.Consensus.Learning

/-!
Catching up.  A member of a group asks another one for the chosen entries from a slot on, and goes
on asking from behind the last one it was sent as long as the batches are full.
-/

namespace ReplicatedLedger

namespace ReplicatedLog

/-- The messages about catching up that actions send to a replica. -/
def catchUps (receiver : ReplicaId) (actions : List Action) : List Message :=
  actions.filterMap fun
    | .send r m => if r = receiver ∧ m.isCatchUp = true then some m else none
    | _ => none

variable {l l' a b : ReplicatedLog} {entries batch : List LogEntry} {e : LogEntry}
  {said more actions requests : List Action} {sender receiver : ReplicaId} {m : Message}
  {s t f : Slot} {pairs : List (Slot × LogEntry)}

/-! ### Sending -/

theorem catchUps_append (receiver : ReplicaId) (said more : List Action) :
    catchUps receiver (said ++ more) = catchUps receiver said ++ catchUps receiver more :=
  List.filterMap_append

theorem Unrelated.catchUps_eq (h : Unrelated actions) (receiver : ReplicaId) :
    catchUps receiver actions = [] := by
  refine List.filterMap_eq_nil_iff.2 fun action haction => ?_
  cases action with
  | send r m => exact if_neg fun hcatch => by rw [h r m haction] at hcatch; cases hcatch.2
  | _ => rfl

theorem catchUps_sendTo (reached : l.partition.reaches receiver = true) (hm : m.isCatchUp = true) :
    catchUps receiver (l.sendTo receiver m) = [m] := by
  unfold sendTo catchUps
  simp [reached, hm]

/-! ### The server -/

/-- A request is answered with a batch, or not at all, and changes nothing. -/
theorem handle_catchUpRequest (heard : l.hears sender = true)
    (reached : l.partition.reaches sender = true) :
    ∃ actions, l.handle (.message sender (.catchUpRequest s)) = .ok (l, actions) ∧
      catchUps sender actions =
        if (l.chosen.atOrAbove s).take l.policy.catchUpBatch = [] then []
        else
          [.catchUpResponse (((l.chosen.atOrAbove s).take l.policy.catchUpBatch).map (·.2))] := by
  have hmessage : l.onMessage sender (.catchUpRequest s) = .ok (l.onCatchUpRequest sender s) := by
    unfold onMessage
    rw [if_pos heard]
  have hhandle : l.handle (.message sender (.catchUpRequest s)) =
      pursue (l.onCatchUpRequest sender s) :=
    congrArg (· >>= pursue) hmessage
  unfold onCatchUpRequest at hhandle
  simp only [List.isEmpty_map, List.isEmpty_iff] at hhandle
  split
  · next hnone =>
    rw [if_pos hnone] at hhandle
    exact ⟨[], hhandle.trans (pursue_of_done rfl), rfl⟩
  · next hsome =>
    rw [if_neg hsome] at hhandle
    exact ⟨_, hhandle.trans (pursue_of_done rfl), catchUps_sendTo reached rfl⟩

/-- Behind the last key of the first pairs the other pairs begin. -/
theorem atOrAbove_next {chosen : SortedMap Slot LogEntry} {first rest : List (Slot × LogEntry)}
    {last : Slot × LogEntry} (h : chosen.atOrAbove s = first ++ rest)
    (hlast : first.getLast? = some last) (next : last.1.next = .ok t) :
    chosen.atOrAbove t = rest := by
  have hnext := Slot.next_eq_ok_iff.1 next
  have hascending : (first ++ rest).Pairwise fun p q => p.1.index.toNat < q.1.index.toNat := by
    rw [← h]
    exact (chosen.ascending.filter _).imp Slot.compare_lt_iff.1
  obtain ⟨hfirst, _, hacross⟩ := List.pairwise_append.1 hascending
  have hmem := List.mem_of_getLast? hlast
  have hle : s.index.toNat ≤ last.1.index.toNat := by
    have hfiltered : last ∈ chosen.atOrAbove s := by
      rw [h]
      exact List.mem_append_left _ hmem
    exact Slot.le_iff_toNat.1 (Slot.isGE_compare_iff.1 (List.mem_filter.1 hfiltered).2)
  -- the pairs from the later slot on are some of those from the earlier slot on
  have hagain : chosen.atOrAbove t = (chosen.atOrAbove s).filter fun p => (compare p.1 t).isGE := by
    unfold SortedMap.atOrAbove
    rw [List.filter_filter]
    refine List.filter_congr fun p _ => ?_
    rw [Bool.eq_iff_iff, Bool.and_eq_true, Slot.isGE_compare_iff, Slot.isGE_compare_iff,
      Slot.le_iff_toNat, Slot.le_iff_toNat]
    omega
  have hbefore : first.filter (fun p => (compare p.1 t).isGE) = [] := by
    refine List.filter_eq_nil_iff.2 fun p hp => ?_
    rw [Slot.isGE_compare_iff, Slot.le_iff_toNat]
    obtain ⟨init, rfl⟩ := List.getLast?_eq_some_iff.1 hlast
    rcases List.mem_append.1 hp with hp | hp
    · have hlt := (List.pairwise_append.1 hfirst).2.2 p hp last (List.mem_singleton.2 rfl)
      omega
    · rw [List.mem_singleton.1 hp]
      omega
  have hbehind : rest.filter (fun p => (compare p.1 t).isGE) = rest := by
    refine List.filter_eq_self.2 fun p hp => ?_
    rw [Slot.isGE_compare_iff, Slot.le_iff_toNat]
    have hlt := hacross last hmem p hp
    omega
  rw [hagain, h, List.filter_append, hbefore, hbehind, List.nil_append]

/-! ### The asker -/

theorem samePlace_foldl_learn (l : ReplicatedLog) (entries : List LogEntry) :
    l.SamePlace (entries.foldl learn l) := by
  induction entries generalizing l with
  | nil => exact ⟨rfl, rfl⟩
  | cons e entries ih => exact (samePlace_learn l e).trans (ih _)

theorem policy_foldl_learn (l : ReplicatedLog) (entries : List LogEntry) :
    (entries.foldl learn l).policy = l.policy := by
  induction entries generalizing l with
  | nil => rfl
  | cons e entries ih => exact (ih _).trans (policy_learn l e)

/-- Of entries at their own slots, those at slots not known yet are taken over. -/
theorem get?_chosen_foldl_learn (keyed : ∀ p ∈ pairs, p.2.slot = p.1) (l : ReplicatedLog)
    (s : Slot) :
    ((pairs.map (·.2)).foldl learn l).chosen.get? s =
      (l.chosen.get? s).or (SortedMap.lookup s pairs) := by
  induction pairs generalizing l with
  | nil => exact (Option.or_none).symm
  | cons p pairs ih =>
      obtain ⟨k, e⟩ := p
      have hkey : e.slot = k := keyed (k, e) List.mem_cons_self
      rw [List.map_cons, List.foldl_cons, ih fun p hp => keyed p (List.mem_cons_of_mem _ hp),
        get?_chosen_learn, SortedMap.lookup]
      subst hkey
      by_cases hs : s = e.slot
      · subst hs
        cases hknown : l.chosen.get? e.slot <;> simp [isNews_iff, hknown]
      · simp [hs]

theorem handle_response_aside (heard : l.hears sender = true) (company : 2 ≤ l.topology.quorum)
    (h : l.handle (.message sender (.catchUpResponse batch)) = .ok (l', actions)) :
    ∃ requests more, (batch.foldl learn l).requestNextBatch sender batch = .ok requests ∧
      actions = requests ++ more ∧
      Progress.Aside (batch.foldl learn l) { log := l', actions := more } := by
  obtain ⟨q, hq, hpursue⟩ := bind_eq_ok_iff.1 h
  unfold onMessage at hq
  rw [if_pos heard] at hq
  obtain ⟨requests, hrequests, rfl⟩ := map_eq_ok_iff.1 hq
  have hlearned := afterLearning_aside (batch.foldl learn l)
  have hplace := (samePlace_foldl_learn l batch).trans hlearned.place
  obtain ⟨more, rfl, hmore⟩ :=
    pursueUpTo_aside (q := .after requests (batch.foldl learn l).afterLearning)
      (hplace.company company) hpursue
  exact ⟨requests, _, hrequests, List.append_assoc _ _ _, hlearned.trans hmore⟩

/-- A batch gives a replica without a proposal nothing to propose. -/
theorem idle_of_handle_response
    (h : l.handle (.message sender (.catchUpResponse batch)) = .ok (l', actions))
    (idle : l.active = none) : l'.active = none := by
  obtain ⟨q, hq, hpursue⟩ := bind_eq_ok_iff.1 h
  have hdone : q.due = none ∧ q.log.active = none := by
    unfold onMessage at hq
    split at hq
    · obtain ⟨requests, _, rfl⟩ := map_eq_ok_iff.1 hq
      have hlearned : (batch.foldl learn l).active = none := (active_foldl_learn l batch).trans idle
      unfold afterLearning
      rw [hlearned]
      exact ⟨rfl, hlearned⟩
    · cases hq
      exact ⟨rfl, idle⟩
  rw [pursue_of_done hdone.1] at hpursue
  cases hpursue
  exact hdone.2

theorem exists_handle_response (heard : l.hears sender = true) (company : 2 ≤ l.topology.quorum)
    (hrequests : (batch.foldl learn l).requestNextBatch sender batch = .ok requests)
    (can : l.active = none ∨ (batch.foldl learn l).CanAttempt) :
    ∃ r, l.handle (.message sender (.catchUpResponse batch)) = .ok r := by
  rw [← active_foldl_learn l batch] at can
  have hplace := (samePlace_foldl_learn l batch).trans (afterLearning_aside _).place
  obtain ⟨r, hr⟩ := exists_pursueUpTo _
    (q := .after requests (batch.foldl learn l).afterLearning) (hplace.company company)
    (afterLearning_poised can)
  refine ⟨r, bind_eq_ok_iff.2 ⟨_, ?_, hr⟩⟩
  unfold onMessage
  rw [if_pos heard]
  exact map_eq_ok_iff.2 ⟨requests, hrequests, rfl⟩

/-- A full batch is followed by a request from behind it, any other one by nothing. -/
theorem catchUps_requestNextBatch {last : Slot × LogEntry}
    (reached : l.partition.reaches sender = true) (hlast : pairs.getLast? = some last)
    (keyed : last.2.slot = last.1) (next : last.1.next = .ok t) :
    ∃ requests, l.requestNextBatch sender (pairs.map (·.2)) = .ok requests ∧
      catchUps sender requests =
        if l.policy.catchUpBatch ≤ pairs.length then [.catchUpRequest t] else [] := by
  have hslot : Message.lastSlot? (pairs.map (·.2)) = some last.1 := by
    unfold Message.lastSlot?
    rw [List.getLast?_map, hlast, ← keyed]
    rfl
  unfold requestNextBatch
  rw [hslot]
  dsimp only
  rw [List.length_map]
  split
  · exact ⟨_, map_eq_ok_iff.2 ⟨t, next, rfl⟩, catchUps_sendTo reached rfl⟩
  · exact ⟨[], rfl, rfl⟩

end ReplicatedLog

end ReplicatedLedger
