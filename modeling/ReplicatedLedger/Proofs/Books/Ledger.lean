import Mathlib.Algebra.Order.Ring.Nat
import ReplicatedLedger.Books.Ledger

/-!
Balances after a debit and after a credit, and sums of amounts, as natural numbers.
-/

namespace ReplicatedLedger

namespace Word

/-- A total is the sum, which then is a word. -/
theorem foldlM_sum_eq_ok_iff {words : List Word} {start total : Word} :
    words.foldlM sum start = .ok total ↔
      total.toNat = start.toNat + (words.map (·.toNat)).sum := by
  induction words generalizing start with
  | nil =>
      show Except.ok start = Except.ok total ↔ _
      rw [Except.ok.injEq, ← UInt64.toNat_inj]
      simp only [List.map_nil, List.sum_nil]
      omega
  | cons word words ih =>
      have hbound := total.toNat_lt_size
      simp only [List.map_cons, List.sum_cons]
      rw [List.foldlM_cons]
      cases hsum : sum start word with
      | error fault =>
          constructor
          · intro h; cases h
          · intro htotal
            have hword : sum start word = .ok (start + word) := by
              rw [sum_eq_ok_iff, UInt64.toNat_add]
              exact Nat.mod_eq_of_lt (by
                rw [show 2 ^ 64 = UInt64.size from rfl]
                omega)
            rw [hsum] at hword
            cases hword
      | ok next =>
          show words.foldlM sum next = .ok total ↔ _
          rw [ih, sum_eq_ok_iff.1 hsum]
          omega

theorem total_eq_ok_iff {words : List Word} {amount : Word} :
    total words = .ok amount ↔ amount.toNat = (words.map (·.toNat)).sum := by
  unfold total
  rw [foldlM_sum_eq_ok_iff]
  simp

theorem eq_of_foldlM_sum_eq_error {words : List Word} {start : Word} {fault : Fault}
    (h : words.foldlM sum start = .error fault) : fault = .sum := by
  induction words generalizing start with
  | nil => cases h
  | cons word words ih =>
      rw [List.foldlM_cons] at h
      cases hsum : sum start word with
      | error fault' =>
          rw [hsum] at h
          cases h
          unfold sum at hsum
          split at hsum <;> cases hsum
          rfl
      | ok next =>
          rw [hsum] at h
          exact ih h

/-- A total that is no word is reported as a sum out of range. -/
theorem eq_of_total_eq_error {words : List Word} {fault : Fault}
    (h : total words = .error fault) : fault = .sum :=
  eq_of_foldlM_sum_eq_error h

theorem toNat_saturatingSum (a b : Word) :
    (saturatingSum a b).toNat = min (UInt64.size - 1) (a.toNat + b.toNat) := by
  unfold saturatingSum
  cases hsum : sum? a b with
  | none =>
      have hle := sum?_eq_none_iff.1 hsum
      have hmax : (UInt64.ofNat (UInt64.size - 1)).toNat = UInt64.size - 1 := rfl
      rw [Option.getD_none, hmax]
      omega
  | some c =>
      have hc := sum?_eq_some_iff.1 hsum
      have hlt := c.toNat_lt_size
      rw [Option.getD_some]
      omega

theorem toNat_foldl_saturatingSum (words : List Word) (start : Word) :
    (words.foldl saturatingSum start).toNat =
      min (UInt64.size - 1) (start.toNat + (words.map (·.toNat)).sum) := by
  induction words generalizing start with
  | nil =>
      have hlt := start.toNat_lt_size
      simp only [List.foldl_nil, List.map_nil, List.sum_nil]
      omega
  | cons word words ih =>
      rw [List.foldl_cons, ih, toNat_saturatingSum, List.map_cons, List.sum_cons]
      omega

end Word

namespace Ledger

variable {l l' : Ledger} {a a' : AccountId} {amount : Amount}

theorem debit_eq_ok (h : l.debit a amount = .ok l') :
    amount.toNat ≤ (l.balance a).toNat ∧
      ∀ a', (l'.balance a').toNat =
        if a' = a then (l.balance a).toNat - amount.toNat else (l.balance a').toNat := by
  unfold debit at h
  dsimp only at h
  split at h
  · next hle =>
    cases h
    refine ⟨UInt64.le_iff_toNat_le.1 hle, fun a' => ?_⟩
    unfold balance balance?
    rw [SortedMap.get?_insert]
    split
    · exact UInt64.toNat_sub_of_le _ _ hle
    · rfl
  · cases h

theorem exists_debit (h : amount.toNat ≤ (l.balance a).toNat) :
    ∃ l', l.debit a amount = .ok l' := by
  unfold debit
  dsimp only
  rw [if_pos (UInt64.le_iff_toNat_le.2 h)]
  exact ⟨_, rfl⟩

/-- What is deposited arrives, as long as there is room for it. -/
theorem toNat_balance_deposit (room : (l.balance a).toNat + amount.toNat < UInt64.size)
    (a' : AccountId) :
    ((l.deposit a amount).balance a').toNat =
      if a' = a then (l.balance a).toNat + amount.toNat else (l.balance a').toNat := by
  cases hsum : Word.sum? (l.balance a) amount with
  | none =>
      have hle := Word.sum?_eq_none_iff.1 hsum
      omega
  | some sum =>
      have hdeposit : l.deposit a amount = ⟨l.balances.insert a sum⟩ := by
        unfold deposit credit
        dsimp only
        rw [hsum]
      rw [hdeposit]
      unfold balance balance?
      rw [SortedMap.get?_insert]
      split
      · exact Word.sum?_eq_some_iff.1 hsum
      · rfl

/-- The balance of an account that is kept here after an amount moved: it has lost what it sent and
gained what it received. -/
theorem toNat_balance_move {owns : AccountId → Bool} {sender receiver : AccountId}
    {debited : Ledger}
    (debit : (if owns sender then l.debit sender amount else .ok l) = .ok debited)
    (room : sender ≠ receiver → owns receiver = true →
      (l.balance receiver).toNat + amount.toNat < UInt64.size)
    (ha : owns a = true) :
    ((if owns receiver then debited.deposit receiver amount else debited).balance a).toNat +
        (if a = sender then amount.toNat else 0) =
      (l.balance a).toNat + (if a = receiver then amount.toNat else 0) := by
  -- the debit comes first, and frees the room that a transfer to oneself needs
  have hdebited : ∀ a, owns a = true → (debited.balance a).toNat +
      (if a = sender then amount.toNat else 0) = (l.balance a).toNat := by
    intro a ha
    by_cases hsender : owns sender = true
    · rw [if_pos hsender] at debit
      obtain ⟨hle, hbalance⟩ := debit_eq_ok debit
      rw [hbalance a]
      split
      · next heq =>
        rw [heq]
        omega
      · omega
    · rw [if_neg hsender, Except.ok.injEq] at debit
      have hne : a ≠ sender := fun heq => hsender (heq ▸ ha)
      rw [if_neg hne, debit, Nat.add_zero]
  have hown := hdebited a ha
  by_cases hreceiver : owns receiver = true
  · rw [if_pos hreceiver]
    have hroom : (debited.balance receiver).toNat + amount.toNat < UInt64.size := by
      have hbound := (l.balance receiver).toNat_lt_size
      have hbefore := hdebited receiver hreceiver
      by_cases hself : sender = receiver
      · rw [if_pos hself.symm] at hbefore
        omega
      · rw [if_neg (Ne.symm hself)] at hbefore
        have hfits := room hself hreceiver
        omega
    rw [toNat_balance_deposit hroom a]
    by_cases hself : a = receiver
    · subst hself
      simp only [if_true]
      omega
    · rw [if_neg hself, if_neg hself]
      omega
  · rw [if_neg hreceiver]
    have hne : a ≠ receiver := fun heq => hreceiver (heq ▸ ha)
    rw [if_neg hne]
    omega

end Ledger

end ReplicatedLedger
