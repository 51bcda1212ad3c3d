import ReplicatedLedger.Consensus.ReplicatedLog.Basic
import ReplicatedLedger.Proofs.Order
import ReplicatedLedger.Proofs.Result
import ReplicatedLedger.Proofs.SortedMap

/-!
What a log knows to be chosen: its first open slot, the entries it hands out, and what learning an
entry changes.
-/

namespace ReplicatedLedger

namespace ReplicatedLog

/-! ### The first open slot -/

/-- The first missing slot of an ascending list is the one before which none is missing. -/
theorem firstMissing_eq_ok_iff {slots : List Slot} {s t : Slot}
    (h : slots.Pairwise fun a b => compare a b = .lt) :
    firstMissing s slots = .ok t ↔
      s ≤ t ∧ (∀ u, s ≤ u → u < t → u ∈ slots) ∧ t ∉ slots := by
  simp only [Slot.le_iff_toNat, Slot.lt_iff_toNat]
  induction slots generalizing s with
  | nil =>
      simp only [firstMissing, Except.ok.injEq, List.not_mem_nil, not_false_iff, and_true]
      constructor
      · rintro rfl
        exact ⟨Nat.le_refl _, fun u hsu hut => by omega⟩
      · rintro ⟨hst, hall⟩
        by_contra hne
        have hnat : s.index.toNat ≠ t.index.toNat := fun heq => hne (Slot.toNat_inj.1 heq)
        exact hall s (Nat.le_refl _) (by omega)
  | cons k rest ih =>
      have hk : ∀ u ∈ rest, k.index.toNat < u.index.toNat := fun u hu =>
        Slot.compare_lt_iff.1 ((List.pairwise_cons.1 h).1 u hu)
      have ih := fun n => @ih n (List.pairwise_cons.1 h).2
      simp only [List.mem_cons, not_or]
      unfold firstMissing
      split
      · next heq =>
        -- `s` is there, so the search goes on behind it
        subst heq
        rw [bind_eq_ok_iff]
        constructor
        · rintro ⟨n, hn, ht⟩
          rw [Slot.next_eq_ok_iff] at hn
          obtain ⟨hnt, hall, hmem⟩ := (ih n).1 ht
          refine ⟨by omega, fun u hsu hut => ?_, fun he => ?_, hmem⟩
          · by_cases hu : u = k
            · exact .inl hu
            · have := mt Slot.toNat_inj.1 hu
              exact .inr (hall u (by omega) hut)
          · subst he; omega
        · rintro ⟨hst, hall, hne, hmem⟩
          have hne' := mt Slot.toNat_inj.1 hne
          have hlt : k.index.toNat + 1 < UInt64.size := by
            have := t.index.toNat_lt_size
            omega
          have hn : k.next = .ok ⟨UInt64.ofNat (k.index.toNat + 1)⟩ := by
            rw [Slot.next_eq_ok_iff]
            exact UInt64.toNat_ofNat_of_lt' hlt
          refine ⟨_, hn, (ih _).2 ⟨?_, fun u hsu hut => ?_, hmem⟩⟩
          · rw [Slot.next_eq_ok_iff] at hn
            omega
          · rw [Slot.next_eq_ok_iff] at hn
            rcases hall u (by omega) hut with he | hu
            · subst he; omega
            · exact hu
      · next hne =>
        -- the list ascends, so a `k` above `s` cannot fill any slot below the answer
        have hks := mt Slot.toNat_inj.1 hne
        rw [ih s]
        constructor
        · rintro ⟨hst, hall, hmem⟩
          refine ⟨hst, fun u hsu hut => .inr (hall u hsu hut), fun he => ?_, hmem⟩
          subst he
          have := hk s (hall s (Nat.le_refl _) (by omega))
          omega
        · rintro ⟨hst, hall, hne', hmem⟩
          refine ⟨hst, fun u hsu hut => ?_, hmem⟩
          rcases hall u hsu hut with he | hu
          · subst he
            rcases hall s (Nat.le_refl _) (by omega) with he | hs
            · exact absurd he.symm hne
            · have := hk s hs
              omega
          · exact hu

variable {l : ReplicatedLog}

/-- The first open slot is the one from the applied prefix on before which every slot is known. -/
theorem firstOpenSlot_eq_ok_iff {s : Slot} :
    l.firstOpenSlot = .ok s ↔
      l.nextApply ≤ s ∧ (∀ t, l.nextApply ≤ t → t < s → ∃ e, l.chosen.get? t = some e) ∧
        l.chosen.get? s = none := by
  unfold firstOpenSlot
  rw [firstMissing_eq_ok_iff l.chosen.keys_ascending]
  simp only [SortedMap.mem_keys_iff, not_exists, ← Option.eq_none_iff_forall_ne_some]

/-! ### Handing out entries -/

/-- The entries taken off a list stand at consecutive slots, up to the one where it stops. -/
theorem drainFrom_spec {pairs : List (Slot × LogEntry)} {s stop : Slot} {ready : List LogEntry}
    (h : drainFrom s pairs = .ok (stop, ready)) :
    stop.index.toNat = s.index.toNat + ready.length ∧
      ∀ i e, ready[i]? = some e → ∃ k : Slot, k.index.toNat = s.index.toNat + i ∧ (k, e) ∈ pairs := by
  induction pairs generalizing s stop ready with
  | nil =>
      cases h
      simp
  | cons pair rest ih =>
      obtain ⟨k, e⟩ := pair
      unfold drainFrom at h
      split at h
      · next hk =>
        obtain ⟨n, hn, h⟩ := bind_eq_ok_iff.1 h
        obtain ⟨⟨stop', ready'⟩, hrest, h⟩ := bind_eq_ok_iff.1 h
        cases h
        rw [Slot.next_eq_ok_iff] at hn
        obtain ⟨hstop, hready⟩ := ih hrest
        refine ⟨by simp only [List.length_cons]; omega, ?_⟩
        intro i e' hi
        cases i with
        | zero =>
            cases hi
            exact ⟨k, by simp [hk], List.mem_cons_self⟩
        | succ i =>
            obtain ⟨k', hk', hmem⟩ := hready i e' hi
            exact ⟨k', by omega, List.mem_cons_of_mem _ hmem⟩
      · -- a pair that does not follow on is passed over
        obtain ⟨hstop, hready⟩ := ih h
        refine ⟨hstop, fun i e' hi => ?_⟩
        obtain ⟨k', hk', hmem⟩ := hready i e' hi
        exact ⟨k', hk', List.mem_cons_of_mem _ hmem⟩

theorem le_of_drainFrom {pairs : List (Slot × LogEntry)} {s stop : Slot} {ready : List LogEntry}
    (h : drainFrom s pairs = .ok (stop, ready)) : s ≤ stop := by
  rw [Slot.le_iff_toNat, (drainFrom_spec h).1]
  omega

/-- Entries are taken off up to the first slot that is missing. -/
theorem firstMissing_of_drainFrom {pairs : List (Slot × LogEntry)} {s stop : Slot}
    {ready : List LogEntry} (h : drainFrom s pairs = .ok (stop, ready)) :
    firstMissing s (pairs.map (·.1)) = .ok stop := by
  induction pairs generalizing s stop ready with
  | nil =>
      cases h
      rfl
  | cons pair rest ih =>
      obtain ⟨k, e⟩ := pair
      unfold drainFrom at h
      rw [List.map_cons]
      unfold firstMissing
      split at h
      · next hk =>
        obtain ⟨n, hn, h⟩ := bind_eq_ok_iff.1 h
        obtain ⟨⟨stop', ready'⟩, hrest, h⟩ := bind_eq_ok_iff.1 h
        cases h
        rw [if_pos hk]
        exact bind_eq_ok_iff.2 ⟨n, hn, ih hrest⟩
      · next hk =>
        rw [if_neg hk]
        exact ih h

/-- Nothing is left to hand out: the next slot to be applied is not known to be chosen. -/
def Drained (l : ReplicatedLog) : Prop := l.chosen.get? l.nextApply = none

theorem drained_of_drainFrom {stop : Slot} {ready : List LogEntry}
    (h : drainFrom l.nextApply l.chosen.toList = .ok (stop, ready)) :
    Drained { l with nextApply := stop } :=
  (firstOpenSlot_eq_ok_iff.1 (firstMissing_of_drainFrom h)).2.2

/-- Where no entry stands at the next slot, none is taken off. -/
theorem drainFrom_of_missing {pairs : List (Slot × LogEntry)} {s : Slot}
    (h : ∀ k e, (k, e) ∈ pairs → k ≠ s) : drainFrom s pairs = .ok (s, []) := by
  induction pairs with
  | nil => rfl
  | cons pair rest ih =>
      obtain ⟨k, e⟩ := pair
      unfold drainFrom
      rw [if_neg (h k e List.mem_cons_self)]
      exact ih fun k' e' hmem => h k' e' (List.mem_cons_of_mem _ hmem)

theorem Drained.drainApplicable_eq (hl : l.Drained) : l.drainApplicable = .ok (l, []) := by
  have hmissing : ∀ k e, (k, e) ∈ l.chosen.toList → k ≠ l.nextApply := by
    rintro k e hmem rfl
    rw [← SortedMap.get?_eq_some_iff, hl] at hmem
    cases hmem
  unfold drainApplicable
  rw [drainFrom_of_missing hmissing]
  rfl

theorem Drained.ready_eq_nil {stop : Slot} {ready : List LogEntry} (hl : l.Drained)
    (h : drainFrom l.nextApply l.chosen.toList = .ok (stop, ready)) : ready = [] := by
  cases ready with
  | nil => rfl
  | cons e ready =>
      -- the first entry would stand at the next slot
      obtain ⟨k, hk, hmem⟩ := (drainFrom_spec h).2 0 e rfl
      have hslot : k = l.nextApply := Slot.toNat_inj.1 (by omega)
      rw [hslot, ← SortedMap.get?_eq_some_iff, hl] at hmem
      cases hmem

/-! ### Where a command was chosen -/

/-- `slotsOf` lists each chosen command with exactly the slots at which it stands. -/
def Indexed (l : ReplicatedLog) : Prop :=
  ∀ c s, (∃ slots, l.slotsOf.get? c = some slots ∧ slots.contains s = true) ↔
    ∃ e, l.chosen.get? s = some e ∧ e.command = c

theorem mem_of_chosenSince? (hl : l.Indexed) {c : Command} {floor s : Slot}
    (h : l.chosenSince? c floor = some s) :
    floor ≤ s ∧ ∃ e, l.chosen.get? s = some e ∧ e.command = c := by
  unfold chosenSince? at h
  split at h
  · next slots hslots =>
    obtain ⟨⟨s', u⟩, hp, rfl⟩ := Option.map_eq_some_iff.1 h
    obtain ⟨hget, hge⟩ := SortedMap.head?_atOrAbove hp
    exact ⟨Slot.isGE_compare_iff.1 hge,
      (hl c s').1 ⟨slots, hslots, SortedMap.contains_eq_true_iff.2 ⟨u, hget⟩⟩⟩
  · cases h

theorem chosenSince?_eq_none_iff (hl : l.Indexed) {c : Command} {floor : Slot} :
    l.chosenSince? c floor = none ↔
      ∀ s e, l.chosen.get? s = some e → e.command = c → s < floor := by
  have hlt : ∀ s : Slot, (compare s floor).isGE = false ↔ s < floor := fun s => by
    rw [Slot.lt_iff_toNat, ← Slot.compare_lt_iff]
    cases compare s floor <;> simp
  constructor
  · intro h s e hs hc
    obtain ⟨slots, hslots, hmem⟩ := (hl c s).2 ⟨e, hs, hc⟩
    obtain ⟨u, hu⟩ := SortedMap.contains_eq_true_iff.1 hmem
    unfold chosenSince? at h
    rw [hslots] at h
    simp only [Option.map_eq_none_iff, SortedMap.head?_atOrAbove_eq_none_iff] at h
    exact (hlt s).1 (h s u hu)
  · intro h
    unfold chosenSince?
    split
    · next slots hslots =>
      rw [Option.map_eq_none_iff, SortedMap.head?_atOrAbove_eq_none_iff]
      intro s u hu
      obtain ⟨e, hs, hc⟩ := (hl c s).1 ⟨slots, hslots, SortedMap.contains_eq_true_iff.2 ⟨u, hu⟩⟩
      exact (hlt s).2 (h s e hs hc)
    · rfl

/-! ### Learning -/

theorem isNews_iff {e : LogEntry} : l.isNews e = true ↔ l.chosen.get? e.slot = none := by
  unfold isNews
  rw [Bool.not_eq_true', SortedMap.contains_eq_false_iff]

theorem learn_of_known {e : LogEntry} (h : l.isNews e = false) : l.learn e = l := by
  unfold learn
  rw [h]
  rfl

theorem get?_chosen_learn (l : ReplicatedLog) (e : LogEntry) (s : Slot) :
    (l.learn e).chosen.get? s =
      if l.isNews e = true ∧ s = e.slot then some e else l.chosen.get? s := by
  by_cases h : l.isNews e = true
  · simp [learn, h, SortedMap.get?_insert]
  · rw [learn_of_known (by simpa using h)]
    simp [h]

/-- What is known stays known, as the same entry. -/
theorem get?_chosen_learn_of_some {e e' : LogEntry} {s : Slot} (h : l.chosen.get? s = some e') :
    (l.learn e).chosen.get? s = some e' := by
  rw [get?_chosen_learn]
  split
  · next hn =>
    rw [isNews_iff] at hn
    obtain ⟨hn, rfl⟩ := hn
    rw [hn] at h
    cases h
  · exact h

@[simp] theorem active_learn (l : ReplicatedLog) (e : LogEntry) :
    (l.learn e).active = l.active := by
  unfold learn; split <;> rfl

@[simp] theorem waiting_learn (l : ReplicatedLog) (e : LogEntry) :
    (l.learn e).waiting = l.waiting := by
  unfold learn; split <;> rfl

@[simp] theorem nextApply_learn (l : ReplicatedLog) (e : LogEntry) :
    (l.learn e).nextApply = l.nextApply := by
  unfold learn; split <;> rfl

@[simp] theorem topology_learn (l : ReplicatedLog) (e : LogEntry) :
    (l.learn e).topology = l.topology := by
  unfold learn; split <;> rfl

@[simp] theorem policy_learn (l : ReplicatedLog) (e : LogEntry) :
    (l.learn e).policy = l.policy := by
  unfold learn; split <;> rfl

theorem acceptor_learn {e : LogEntry} (h : l.isNews e = true) :
    (l.learn e).acceptor = l.acceptor.forget e.slot := by
  simp [learn, h]

@[simp] theorem cast_learn (l : ReplicatedLog) (e : LogEntry) :
    (l.learn e).acceptor.cast = l.acceptor.cast := by
  unfold learn; split <;> rfl

theorem indexed_learn {e : LogEntry} (hl : l.Indexed) : (l.learn e).Indexed := by
  by_cases hn : l.isNews e = true
  · have hnone := isNews_iff.1 hn
    have hslots : (l.learn e).slotsOf =
        l.slotsOf.insert e.command (((l.slotsOf.get? e.command).getD ∅).insert e.slot ()) := by
      simp [learn, hn]
    intro c s
    rw [get?_chosen_learn, hslots, SortedMap.get?_insert]
    by_cases hs : s = e.slot
    · -- the slot of the new entry: listed for its command and for no other
      subst hs
      by_cases hc : c = e.command
      · simp [hn, hc, SortedMap.contains_eq_true_iff]
      · have hold := hl c e.slot
        simp only [hnone, reduceCtorEq, false_and, exists_false, iff_false] at hold
        simp [hn, hc, Ne.symm hc]
        simpa using hold
    · have hold := hl c s
      by_cases hc : c = e.command
      · subst hc
        rw [if_pos rfl, if_neg (by simp [hs]), ← hold]
        cases hget : l.slotsOf.get? e.command <;>
          simp [SortedMap.contains, SortedMap.get?_insert, hs]
      · simpa [hc, hs] using hold
  · rw [learn_of_known (by simpa using hn)]
    exact hl

end ReplicatedLog

end ReplicatedLedger
