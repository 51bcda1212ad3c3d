import ReplicatedLedger.Proofs.Books.Effect

/-!
Applying the entries of a log one after another.  What comes of it depends on the commands alone:
not on the replica that keeps the books, nor on the ballots under which the entries were chosen.
-/

namespace ReplicatedLedger

/-- A line of the audit trail without what differs between replicas. -/
def AppliedEntry.deed (a : AppliedEntry) : Command × Outcome := (a.entry.command, a.outcome)

namespace Books

variable {b b' b₁ b₂ : Books} {e e₁ e₂ : LogEntry} {entries entries₁ entries₂ : List LogEntry}
  {outcome : Outcome}

/-! ### One entry -/

/-- The same books in the hands of another replica of the shard, with another trail. -/
def keptBy (b : Books) (r : ReplicaId) (trail : List AppliedEntry) : Books :=
  { b with
    topology := { b.topology with replica := r }
    applied := trail }

/-- What a command does depends neither on the replica nor on the trail. -/
theorem perform_keptBy (b : Books) (r : ReplicaId) (trail : List AppliedEntry) (c : Command) :
    (b.keptBy r trail).perform c =
      (fun p => (p.1.keptBy r trail, p.2)) <$> b.perform c := by
  cases c with
  | transfer tid txn =>
      show (b.keptBy r trail).transfer tid txn = _ <$> b.transfer tid txn
      have hrejection : (b.keptBy r trail).transferRejection? tid txn =
          b.transferRejection? tid txn := rfl
      have htransfers : (b.keptBy r trail).transfers = b.transfers := rfl
      have hledger : (b.keptBy r trail).ledger = b.ledger := rfl
      unfold transfer
      rw [htransfers, hrejection, hledger]
      cases b.transfers.get? tid with
      | some known => rfl
      | none =>
          cases b.transferRejection? tid txn with
          | error fault => rfl
          | ok rejection =>
              cases rejection with
              | some reason => rfl
              | none =>
                  dsimp only [bind, Except.bind]
                  cases b.ledger.debit txn.sender txn.amount with
                  | error balance => rfl
                  | ok debited => rfl
  | prepare tid txn =>
      show (_ : Except Fault _) = _ <$> (b.participants.prepare b.topology b.ledger tid txn >>= _)
      have hprepare : (b.keptBy r trail).participants.prepare (b.keptBy r trail).topology
          (b.keptBy r trail).ledger tid txn =
            b.participants.prepare b.topology b.ledger tid txn := rfl
      unfold perform
      dsimp only
      rw [hprepare]
      cases b.participants.prepare b.topology b.ledger tid txn with
      | error fault => rfl
      | ok prepared => rfl
  | commit tid => rfl
  | abort tid => rfl

/-- Books that two replicas keep of the same commands. -/
structure Alike (b₁ b₂ : Books) : Prop where
  kept : ∃ r, b₂ = b₁.keptBy r b₂.applied
  deeds : b₂.applied.map (·.deed) = b₁.applied.map (·.deed)

theorem Alike.apply (h : b₁.Alike b₂) (hcommand : e₂.command = e₁.command)
    (happly : b₁.apply e₁ = .ok (b, outcome)) :
    ∃ b', b₂.apply e₂ = .ok (b', outcome) ∧ b.Alike b' := by
  obtain ⟨m, _, hperform, rfl⟩ := apply_eq_ok happly
  obtain ⟨r, hkept⟩ := h.kept
  have hperform₂ : b₂.perform e₂.command = .ok (m.keptBy r b₂.applied, outcome) := by
    rw [hcommand, hkept, perform_keptBy, hperform]
    rfl
  refine ⟨{ m with
    topology := { m.topology with replica := r }
    applied := b₂.applied ++ [⟨e₂, outcome⟩] }, apply_of_perform hperform₂, ⟨r, rfl⟩, ?_⟩
  · show (b₂.applied ++ [_]).map _ = (b₁.applied ++ [_]).map _
    rw [List.map_append, List.map_append, h.deeds]
    simp [AppliedEntry.deed, hcommand]

/-! ### Many entries -/

theorem applyAll_cons_eq_ok_iff :
    b.applyAll (e :: entries) = .ok b' ↔
      ∃ m outcome, b.apply e = .ok (m, outcome) ∧ m.applyAll entries = .ok b' := by
  show ((·.1) <$> b.apply e >>= fun m => m.applyAll entries) = .ok b' ↔ _
  rw [bind_eq_ok_iff]
  constructor
  · rintro ⟨m, hfirst, hrest⟩
    obtain ⟨⟨m', outcome⟩, happly, rfl⟩ := map_eq_ok_iff.1 hfirst
    exact ⟨m', outcome, happly, hrest⟩
  · rintro ⟨m, outcome, happly, hrest⟩
    exact ⟨m, map_eq_ok_iff.2 ⟨_, happly, rfl⟩, hrest⟩

theorem applyAll_append_eq_ok_iff {more : List LogEntry} :
    b.applyAll (entries ++ more) = .ok b' ↔
      ∃ m, b.applyAll entries = .ok m ∧ m.applyAll more = .ok b' := by
  unfold applyAll
  rw [List.foldlM_append]
  exact bind_eq_ok_iff

/-- What holds at first and is kept by every entry holds in the end. -/
theorem applyAll_induction {P : Books → Prop} (h : b.applyAll entries = .ok b') (start : P b)
    (step : ∀ m e m' outcome, P m → m.apply e = .ok (m', outcome) → P m') : P b' := by
  induction entries generalizing b with
  | nil =>
      cases h
      exact start
  | cons e entries ih =>
      obtain ⟨m, outcome, happly, hrest⟩ := applyAll_cons_eq_ok_iff.1 h
      exact ih hrest (step b e m outcome start happly)

theorem topology_applyAll (h : b.applyAll entries = .ok b') : b'.topology = b.topology := by
  refine applyAll_induction (P := fun m => m.topology = b.topology) h rfl ?_
  intro m e m' outcome hm happly
  obtain ⟨m₁, heffect, _, rfl⟩ := apply_eq_ok happly
  exact heffect.topology.trans hm

theorem entries_applyAll (h : b.applyAll entries = .ok b') :
    b'.applied.map (·.entry) = b.applied.map (·.entry) ++ entries := by
  induction entries generalizing b with
  | nil =>
      cases h
      exact (List.append_nil _).symm
  | cons e entries ih =>
      obtain ⟨m, outcome, happly, hrest⟩ := applyAll_cons_eq_ok_iff.1 h
      obtain ⟨m₁, _, _, rfl⟩ := apply_eq_ok happly
      rw [ih hrest]
      simp

/-- The trail only ever grows at its end. -/
theorem applied_applyAll (h : b.applyAll entries = .ok b') : b.applied <+: b'.applied := by
  refine applyAll_induction (P := fun m => b.applied <+: m.applied) h (List.prefix_refl _) ?_
  intro m e m' outcome hm happly
  obtain ⟨m₁, _, _, rfl⟩ := apply_eq_ok happly
  exact hm.trans (List.prefix_append _ _)

theorem Alike.applyAll (h : b₁.Alike b₂)
    (hcommands : entries₂.map (·.command) = entries₁.map (·.command))
    (happly : b₁.applyAll entries₁ = .ok b) :
    ∃ b', b₂.applyAll entries₂ = .ok b' ∧ b.Alike b' := by
  induction entries₁ generalizing b₁ b₂ entries₂ with
  | nil =>
      cases happly
      rw [List.map_nil, List.map_eq_nil_iff] at hcommands
      subst hcommands
      exact ⟨b₂, rfl, h⟩
  | cons e₁ entries₁ ih =>
      cases entries₂ with
      | nil => cases hcommands
      | cons e₂ entries₂ =>
          rw [List.map_cons, List.map_cons, List.cons.injEq] at hcommands
          obtain ⟨m, outcome, hfirst, hrest⟩ := applyAll_cons_eq_ok_iff.1 happly
          obtain ⟨m₂, hfirst₂, halike⟩ := h.apply hcommands.1 hfirst
          obtain ⟨b', hrest₂, hb'⟩ := ih halike hcommands.2 hrest
          exact ⟨b', applyAll_cons_eq_ok_iff.2 ⟨m₂, outcome, hfirst₂, hrest₂⟩, hb'⟩

/-- The books after the first `n` entries only. -/
theorem applyAll_take (h : b.applyAll entries = .ok b') (n : Nat) :
    ∃ m, b.applyAll (entries.take n) = .ok m ∧ m.applied <+: b'.applied := by
  rw [← List.take_append_drop n entries] at h
  obtain ⟨m, hm, hrest⟩ := applyAll_append_eq_ok_iff.1 h
  exact ⟨m, hm, applied_applyAll hrest⟩

theorem length_applyAll_opening {t : Topology} {balance : Amount}
    (h : (opening t balance).applyAll entries = .ok b) : b.applied.length = entries.length := by
  have hentries := congrArg List.length (entries_applyAll h)
  simpa [opening] using hentries

theorem alike_opening (balance : Amount) {t₁ t₂ : Topology} (hshard : t₂.shard = t₁.shard)
    (hrouting : t₂.routing = t₁.routing) : (opening t₁ balance).Alike (opening t₂ balance) := by
  cases t₁
  cases t₂
  cases hshard
  cases hrouting
  exact ⟨⟨_, rfl⟩, rfl⟩

section Replicas

variable {balance : Amount} {t₁ t₂ : Topology} (hshard : t₂.shard = t₁.shard)
  (hrouting : t₂.routing = t₁.routing)
  (h₁ : (opening t₁ balance).applyAll entries₁ = .ok b₁)
  (h₂ : (opening t₂ balance).applyAll entries₂ = .ok b₂)
  (hcommands : ∀ (i : Nat) (e₁ e₂ : LogEntry), entries₁[i]? = some e₁ → entries₂[i]? = some e₂ →
    e₁.command = e₂.command)

include hcommands in
/-- As far as two lists agree in their commands, their beginnings of one length agree. -/
theorem map_take_command {n : Nat} (hn₁ : n ≤ entries₁.length) (hn₂ : n ≤ entries₂.length) :
    (entries₂.take n).map (·.command) = (entries₁.take n).map (·.command) := by
  refine List.ext_getElem (by simp [hn₁, hn₂]) fun i hi₂ hi₁ => ?_
  simp only [List.length_map, List.length_take] at hi₁ hi₂
  simp only [List.getElem_map, List.getElem_take]
  exact (hcommands i _ _ (List.getElem?_eq_getElem (by omega))
    (List.getElem?_eq_getElem (by omega))).symm

include hshard hrouting h₁ h₂ hcommands

/-- Replicas that apply the same commands find the same outcomes. -/
theorem deed_eq_of_replay {i : Nat} {a₁ a₂ : AppliedEntry} (ha₁ : b₁.applied[i]? = some a₁)
    (ha₂ : b₂.applied[i]? = some a₂) : a₁.deed = a₂.deed := by
  obtain ⟨hi₁, rfl⟩ := List.getElem?_eq_some_iff.1 ha₁
  obtain ⟨hi₂, rfl⟩ := List.getElem?_eq_some_iff.1 ha₂
  have hlength₁ := length_applyAll_opening h₁
  have hlength₂ := length_applyAll_opening h₂
  -- both trails begin with what the first `i + 1` commands did
  obtain ⟨m₁, hm₁, hprefix₁⟩ := applyAll_take h₁ (i + 1)
  obtain ⟨m₂, hm₂, hprefix₂⟩ := applyAll_take h₂ (i + 1)
  have hsame := map_take_command hcommands (n := i + 1) (by omega) (by omega)
  obtain ⟨m, hm, halike⟩ := (alike_opening balance hshard hrouting).applyAll hsame hm₁
  rw [hm₂] at hm
  cases hm
  have hi₁' : i < m₁.applied.length := by
    rw [length_applyAll_opening hm₁, List.length_take]
    omega
  have hi₂' : i < m₂.applied.length := by
    rw [length_applyAll_opening hm₂, List.length_take]
    omega
  have hdeeds := congrArg (·[i]?) halike.deeds
  simp only [List.getElem?_map, List.getElem?_eq_getElem hi₁', List.getElem?_eq_getElem hi₂',
    Option.map_some, Option.some.injEq] at hdeeds
  rw [← hprefix₁.getElem hi₁', ← hprefix₂.getElem hi₂']
  exact hdeeds.symm

/-- Replicas that apply the same commands keep the same books. -/
theorem books_eq_of_replay (hlength : b₁.applied.length = b₂.applied.length) :
    b₁.ledger = b₂.ledger ∧ b₁.participants = b₂.participants ∧ b₁.transfers = b₂.transfers := by
  rw [length_applyAll_opening h₁, length_applyAll_opening h₂] at hlength
  have hsame := map_take_command hcommands (n := entries₁.length) (Nat.le_refl _) (by omega)
  rw [List.take_length, List.take_of_length_le (by omega)] at hsame
  obtain ⟨m, hm, halike⟩ := (alike_opening balance hshard hrouting).applyAll hsame h₁
  rw [h₂] at hm
  cases hm
  obtain ⟨r, hkept⟩ := halike.kept
  rw [hkept]
  exact ⟨rfl, rfl, rfl⟩

end Replicas

/-- A replica that alone serves a shard of four accounts. -/
def fourAccounts : Topology where
  replica := ⟨1⟩
  shard := ⟨0⟩
  routing := ⟨[⟨⟨0⟩, ⟨1⟩, ⟨4⟩⟩], SortedMap.ofList [(⟨0⟩, [⟨1⟩])]⟩

end Books

end ReplicatedLedger
