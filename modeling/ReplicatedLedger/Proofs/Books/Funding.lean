import ReplicatedLedger.Proofs.Books.Reservations

/-!
What pending transfers hold against the accounts of a shard never exceeds the balances, so the
checks made before a debit are all that a debit needs.
-/

namespace ReplicatedLedger

namespace Participants

variable {p : Participants} {a : AccountId} {amount : Amount} {excluding : Option Tid}

/-- What the records other than that of `excluding` hold against an account. -/
def heldBut (p : Participants) (a : AccountId) (excluding : Option Tid) : Nat :=
  ((p.pendingBut excluding).map fun r => if r.txn.sender = a then r.reserved.toNat else 0).sum

theorem heldBut_le_held (p : Participants) (a : AccountId) (excluding : Option Tid) :
    p.heldBut a excluding ≤ p.held a := by
  unfold heldBut held tally pendingBut
  exact (List.filter_sublist.map _).sum_le_sum fun _ _ => Nat.zero_le _

theorem reservedAgainst_eq_ok_iff_heldBut :
    p.reservedAgainst a excluding = .ok amount ↔ amount.toNat = p.heldBut a excluding := by
  unfold reservedAgainst heldBut
  rw [Word.total_eq_ok_iff, List.map_map]
  rw [← sum_map_filter (p.pendingBut excluding) (·.txn.sender = a) (·.reserved.toNat)]
  rfl

end Participants

namespace Books

variable {b b' : Books} {tid : Tid} {txn : Transaction} {r : ParticipantRecord} {e : LogEntry}
  {outcome : Outcome} {a : AccountId} {excluding : Option Tid}

/-- A debit that the checks of a transfer let pass goes through. -/
theorem exists_debit_of_admitted (admitted : b.transferRejection? tid txn = .ok none) :
    ∃ debited, b.ledger.debit txn.sender txn.amount = .ok debited := by
  obtain ⟨unprepared, _, _, funded, _⟩ := transferRejection?_eq_none admitted
  have hpaid := Participants.le_of_fundingShortfall?_eq_none unprepared funded
  exact Ledger.exists_debit (by omega)

namespace Covered

/-- Nothing is held against an account of another shard. -/
theorem held_eq_zero (h : b.Covered) (foreign : b.topology.owns a = false) :
    b.participants.held a = 0 := by
  unfold Participants.held Participants.tally
  refine List.sum_eq_zero fun n hn => ?_
  obtain ⟨r, hr, rfl⟩ := List.mem_map.1 hn
  have hreserved := h.reserved r (List.mem_filter.1 hr).1
  split
  · next hsender =>
    subst hsender
    rw [if_neg (fun hboth => by simp [foreign] at hboth)] at hreserved
    rw [hreserved]
    rfl
  · rfl

theorem held_le_balance (h : b.Covered) (a : AccountId) :
    b.participants.held a ≤ (b.ledger.balance a).toNat := by
  by_cases howns : b.topology.owns a = true
  · exact h.funds a howns
  · rw [h.held_eq_zero (by simpa using howns)]
    exact Nat.zero_le _

/-- What is held against an account is a word, and what is available is the rest of its balance. -/
theorem exists_reservedAgainst (h : b.Covered) (a : AccountId) (excluding : Option Tid) :
    ∃ reserved, b.participants.reservedAgainst a excluding = .ok reserved ∧
      reserved ≤ b.ledger.balance a ∧
      b.participants.available b.ledger a excluding = .ok (b.ledger.balance a - reserved) := by
  have hle : b.participants.heldBut a excluding ≤ (b.ledger.balance a).toNat :=
    le_trans (b.participants.heldBut_le_held a excluding) (h.held_le_balance a)
  let reserved : Amount := UInt64.ofNat (b.participants.heldBut a excluding)
  have hreserved : reserved.toNat = b.participants.heldBut a excluding :=
    UInt64.toNat_ofNat_of_lt' (lt_of_le_of_lt hle (b.ledger.balance a).toNat_lt_size)
  have hagainst : b.participants.reservedAgainst a excluding = .ok reserved :=
    Participants.reservedAgainst_eq_ok_iff_heldBut.2 hreserved
  have hfits : reserved ≤ b.ledger.balance a := by
    rw [UInt64.le_iff_toNat_le, hreserved]
    exact hle
  refine ⟨reserved, hagainst, hfits, ?_⟩
  unfold Participants.available
  rw [hagainst]
  show Except.ok (Word.saturatingSub _ _) = _
  unfold Word.saturatingSub
  rw [if_pos hfits]

/-- A pending transfer can be debited where its sender is kept. -/
theorem exists_debit_of_pending (h : b.Covered) (found : b.participants.find? tid = some r)
    (pending : r.state = .prepared) :
    ∃ debited, (if b.topology.owns r.txn.sender then
      b.ledger.debit r.txn.sender r.txn.amount else .ok b.ledger) = .ok debited := by
  by_cases howns : b.topology.owns r.txn.sender = true
  · rw [if_pos howns]
    exact Ledger.exists_debit (h.funds_of_pending found pending howns)
  · rw [if_neg howns]
    exact ⟨_, rfl⟩

/-- A commit fails for other reasons, but never for want of funds. -/
theorem exists_commit_outcome (h : b.Covered) (he : e.command = .commit tid) :
    ∃ b' outcome, b.apply e = .ok (b', outcome) ∧ ∀ account available requested,
      outcome ≠ .rejected (.insufficientFunds account available requested) := by
  have hperform : ∃ m outcome, b.perform e.command = .ok (m, outcome) ∧
      ∀ account available requested,
        outcome ≠ .rejected (.insufficientFunds account available requested) := by
    rw [he]
    unfold perform Participants.commit
    dsimp only
    split
    · exact ⟨_, _, rfl, by simp⟩
    · next r found =>
      split
      · exact ⟨_, _, rfl, by simp⟩
      · exact ⟨_, _, rfl, by simp⟩
      · next pending =>
        split
        · next reason hreason =>
          -- a credit that does not fit is the only reason
          obtain ⟨_, hcheck⟩ := Option.ite_none_right_eq_some.1 hreason
          rw [Participants.creditOverflow?_eq_some hcheck]
          exact ⟨_, _, rfl, by simp⟩
        · obtain ⟨debited, hdebit⟩ := h.exists_debit_of_pending found pending
          rw [hdebit]
          exact ⟨_, _, rfl, by simp⟩
  obtain ⟨m, outcome, hperform, hfunded⟩ := hperform
  exact ⟨_, outcome, apply_of_perform hperform, hfunded⟩

end Covered

/-- Whatever entries are applied, each record holds its amount while it is prepared and its sender
is kept here, and what is held against an account is there.  So no sum of reservations overflows,
what is available is the difference, and neither a transfer nor a commit comes to a debit that
fails. -/
theorem reservations_covered (t : Topology) (balance : Amount) (entries : List LogEntry) :
    ∃ b, (opening t balance).applyAll entries = .ok b ∧
      (∀ r ∈ b.participants.records, r.reserved =
        if r.state = .prepared ∧ t.owns r.txn.sender = true then r.txn.amount else 0) ∧
      (∀ a, t.owns a = true → b.participants.held a ≤ (b.ledger.balance a).toNat) ∧
      (∀ a excluding, ∃ reserved, b.participants.reservedAgainst a excluding = .ok reserved ∧
        reserved ≤ b.ledger.balance a ∧
        b.participants.available b.ledger a excluding = .ok (b.ledger.balance a - reserved)) ∧
      (∀ e tid, e.command = .commit tid → ∃ b' outcome, b.apply e = .ok (b', outcome) ∧
        ∀ account available requested,
          outcome ≠ .rejected (.insufficientFunds account available requested)) ∧
      (∀ tid txn, b.transferRejection? tid txn = .ok none →
        ∃ debited, b.ledger.debit txn.sender txn.amount = .ok debited) ∧
      ∀ tid r, b.participants.find? tid = some r → r.state = .prepared →
        ∃ debited, (if t.owns r.txn.sender then b.ledger.debit r.txn.sender r.txn.amount
          else .ok b.ledger) = .ok debited := by
  obtain ⟨b, happly⟩ := (covered_opening t balance).exists_applyAll entries
  have hcovered : b.Covered := (covered_opening t balance).applyAll happly
  have htopology : b.topology = t := topology_applyAll happly
  subst htopology
  exact ⟨b, happly, hcovered.reserved, hcovered.funds, hcovered.exists_reservedAgainst,
    fun _ _ he => hcovered.exists_commit_outcome he,
    fun _ _ admitted => exists_debit_of_admitted admitted,
    fun _ _ found pending => hcovered.exists_debit_of_pending found pending⟩

end Books

end ReplicatedLedger
