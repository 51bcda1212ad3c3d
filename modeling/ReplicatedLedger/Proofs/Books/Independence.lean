import ReplicatedLedger.Proofs.Books.Reservations
import ReplicatedLedger.Proofs.Books.Trail

/-!
Commands that have nothing to do with each other.  What a command does is told by what the books
hold under its id and by the statements of its accounts, and it changes nothing else.  So two
commands with different ids, and without an account in common, may change places.
-/

namespace ReplicatedLedger

namespace Ledger

variable {l l' : Ledger} {a a' : AccountId} {amount : Amount} {accounts : List AccountId}

theorem balance?_debit (h : l.debit a amount = .ok l') (a' : AccountId) :
    l'.balance? a' = if a' = a then some (l.balance a - amount) else l.balance? a' := by
  unfold debit at h
  dsimp only at h
  split at h
  · cases h
    exact SortedMap.get?_insert _ _ _ _
  · cases h

theorem balance?_deposit (l : Ledger) (a : AccountId) (amount : Amount) (a' : AccountId) :
    (l.deposit a amount).balance? a' =
      if a' = a then (Word.sum? (l.balance a) amount).or (l.balance? a) else l.balance? a' := by
  unfold deposit credit
  dsimp only
  cases Word.sum? (l.balance a) amount with
  | some sum => exact SortedMap.get?_insert _ _ _ _
  | none =>
      dsimp only
      split
      · next heq => rw [heq, Option.none_or]
      · rfl

/-- Two ledgers in which some accounts hold the same. -/
def AgreeOn (l l' : Ledger) (accounts : List AccountId) : Prop :=
  ∀ a ∈ accounts, l'.balance? a = l.balance? a

namespace AgreeOn

theorem balance_eq (h : l.AgreeOn l' accounts) (ha : a ∈ accounts) : l'.balance a = l.balance a := by
  unfold balance
  rw [h a ha]

/-- A debit of one of the accounts is refused by both ledgers or by none. -/
theorem debit (h : l.AgreeOn l' accounts) (ha : a ∈ accounts) (amount : Amount) :
    (∃ balance, l.debit a amount = .error balance ∧ l'.debit a amount = .error balance) ∨
      ∃ d d', l.debit a amount = .ok d ∧ l'.debit a amount = .ok d' ∧ d.AgreeOn d' accounts := by
  have hsame := h.balance_eq ha
  by_cases hfunds : amount ≤ l.balance a
  · have hdebit : l.debit a amount = .ok _ := if_pos hfunds
    have hdebit' : l'.debit a amount = .ok _ := if_pos (hsame ▸ hfunds)
    refine .inr ⟨_, _, hdebit, hdebit', fun a' ha' => ?_⟩
    rw [balance?_debit hdebit, balance?_debit hdebit', hsame, h a' ha']
  · refine .inl ⟨l.balance a, if_neg hfunds, ?_⟩
    rw [← hsame] at hfunds ⊢
    exact if_neg hfunds

theorem debitIf (h : l.AgreeOn l' accounts) (owned : Bool) (ha : a ∈ accounts) (amount : Amount) :
    (∃ balance, (if owned then l.debit a amount else .ok l) = .error balance ∧
      (if owned then l'.debit a amount else .ok l') = .error balance) ∨
      ∃ d d', (if owned then l.debit a amount else .ok l) = .ok d ∧
        (if owned then l'.debit a amount else .ok l') = .ok d' ∧ d.AgreeOn d' accounts := by
  cases owned with
  | true => exact h.debit ha amount
  | false => exact .inr ⟨l, l', rfl, rfl, h⟩

theorem deposit (h : l.AgreeOn l' accounts) (ha : a ∈ accounts) (amount : Amount) :
    (l.deposit a amount).AgreeOn (l'.deposit a amount) accounts := by
  intro a' ha'
  rw [balance?_deposit, balance?_deposit, h.balance_eq ha, h a ha, h a' ha']

end AgreeOn

end Ledger

namespace Participants

variable {p p' : Participants} {a : AccountId} {tid : Tid} {r : ParticipantRecord}
  {state : ParticipantState}

/-- The pending records of transfers to or from an account. -/
def concerning (p : Participants) (a : AccountId) : List ParticipantRecord :=
  p.pending.filter fun r => r.txn.sender = a ∨ r.txn.receiver = a

/-- What a check looks at among the pending records concerns its account. -/
theorem filter_pendingBut (p : Participants) (a : AccountId) (excluding : Option Tid)
    {side : ParticipantRecord → Prop} [DecidablePred side]
    (hside : ∀ r, side r → r.txn.sender = a ∨ r.txn.receiver = a) :
    (p.pendingBut excluding).filter (fun r => side r) =
      ((p.concerning a).filter fun r => some r.tid ≠ excluding).filter fun r => side r := by
  unfold pendingBut concerning
  rw [List.filter_filter, List.filter_filter, List.filter_filter]
  refine List.filter_congr fun r _ => ?_
  by_cases hr : side r
  · simp [hr, hside r hr]
  · simp [hr]

theorem reservedAgainst_eq (h : p'.concerning a = p.concerning a) (excluding : Option Tid) :
    p'.reservedAgainst a excluding = p.reservedAgainst a excluding := by
  unfold reservedAgainst
  rw [filter_pendingBut p' a excluding fun _ => .inl, h,
    filter_pendingBut p a excluding fun _ => .inl]

theorem incomingTo_eq (h : p'.concerning a = p.concerning a) (excluding : Option Tid) :
    p'.incomingTo a excluding = p.incomingTo a excluding := by
  unfold incomingTo
  rw [filter_pendingBut p' a excluding fun _ => .inr, h,
    filter_pendingBut p a excluding fun _ => .inr]

theorem concerning_append (p : Participants) (r : ParticipantRecord) (a : AccountId) :
    (Participants.mk (p.records ++ [r])).concerning a =
      p.concerning a ++ (Participants.mk [r]).concerning a := by
  unfold concerning pending
  rw [List.filter_append, List.filter_append]

theorem concerning_decide (hstate : state ≠ .prepared) (a : AccountId) :
    (p.decide tid state).concerning a = (p.concerning a).filter fun r => r.tid ≠ tid := by
  unfold concerning
  rw [pending_decide hstate]
  unfold pendingBut
  rw [List.filter_filter, List.filter_filter]
  refine List.filter_congr fun r _ => ?_
  rw [Bool.and_comm]
  simp only [ne_eq, Option.some_inj]

theorem find?_decide_of_ne (p : Participants) (state : ParticipantState) {tid' : Tid}
    (other : tid' ≠ tid) : (p.decide tid state).find? tid' = p.find? tid' := by
  rw [find?_decide]
  simp only [if_neg other, Option.map_id']

/-- A decision on a transfer does not concern the accounts of others. -/
theorem concerning_decide_of_ne (distinct : p.tids.Nodup) (found : p.find? tid = some r)
    (hstate : state ≠ .prepared) (hsender : r.txn.sender ≠ a) (hreceiver : r.txn.receiver ≠ a) :
    (p.decide tid state).concerning a = p.concerning a := by
  rw [concerning_decide hstate, List.filter_eq_self]
  intro x hx
  obtain ⟨hpending, hconcerns⟩ := List.mem_filter.1 hx
  obtain ⟨hr, rfl⟩ := mem_of_find? found
  rw [decide_eq_true_eq]
  intro htid
  obtain rfl : x = r := List.inj_on_of_nodup_map distinct (List.mem_filter.1 hpending).1 hr htid
  rcases of_decide_eq_true hconcerns with hsame | hsame
  · exact hsender hsame
  · exact hreceiver hsame

/-! What a command does to the records is told by the record of its id and by the checks. -/

section Locality

variable {q : Participants} {t : Topology} {l l' l₁ : Ledger} {txn : Transaction} {outcome : Outcome}
  {accounts : List AccountId}

theorem prepare_eq_of_same (record : p'.find? tid = p.find? tid)
    (rejection : p'.prepareRejection? t l' tid txn = p.prepareRejection? t l tid txn)
    (h : p.prepare t l tid txn = .ok (q, outcome)) :
    (q = p ∧ p'.prepare t l' tid txn = .ok (p', outcome)) ∨
      ∃ r, q = ⟨p.records ++ [r]⟩ ∧ p'.prepare t l' tid txn = .ok (⟨p'.records ++ [r]⟩, outcome) := by
  unfold prepare at h ⊢
  rw [record, rejection]
  split at h
  · cases h
    exact .inl ⟨rfl, rfl⟩
  · obtain ⟨reason, hreason, h⟩ := bind_eq_ok_iff.1 h
    rw [hreason]
    cases reason with
    | some reason =>
        cases h
        exact .inl ⟨rfl, rfl⟩
    | none =>
        cases h
        exact .inr ⟨_, rfl, rfl⟩

theorem abort_eq_of_same (record : p'.find? tid = p.find? tid) (h : p.abort tid = (q, outcome)) :
    (q = p ∧ p'.abort tid = (p', outcome)) ∨
      (q = p.decide tid .aborted ∧ p'.abort tid = (p'.decide tid .aborted, outcome)) := by
  unfold abort at h ⊢
  rw [record]
  split at h
  · cases h
    exact .inl ⟨rfl, rfl⟩
  · split at h
    · cases h
      exact .inl ⟨rfl, rfl⟩
    · cases h
      exact .inl ⟨rfl, rfl⟩
    · cases h
      exact .inr ⟨rfl, rfl⟩

/-- A commit of an unknown id does nothing, and any other depends on the two accounts of its record.
-/
theorem commit_eq_of_same (record : p'.find? tid = p.find? tid)
    (same : ∀ r, p.find? tid = some r → r.txn.sender ∈ accounts ∧ r.txn.receiver ∈ accounts ∧
      p'.creditOverflow? l' tid r.txn = p.creditOverflow? l tid r.txn)
    (hledger : l.AgreeOn l' accounts) (h : p.commit t l tid = (q, l₁, outcome)) :
    (q = p ∧ l₁ = l ∧ p'.commit t l' tid = (p', l', outcome)) ∨
      ∃ l₁', q = p.decide tid .committed ∧ l₁.AgreeOn l₁' accounts ∧
        p'.commit t l' tid = (p'.decide tid .committed, l₁', outcome) := by
  unfold commit at h ⊢
  rw [record]
  cases found : p.find? tid with
  | none =>
      rw [found] at h
      cases h
      exact .inl ⟨rfl, rfl, rfl⟩
  | some r =>
      obtain ⟨hsender, hreceiver, hoverflow⟩ := same r found
      rw [found] at h
      dsimp only at h ⊢
      cases hstate : r.state with
      | committed | aborted =>
          rw [hstate] at h
          cases h
          exact .inl ⟨rfl, rfl, rfl⟩
      | prepared =>
          rw [hstate] at h
          rw [hoverflow]
          dsimp only at h ⊢
          split at h
          · cases h
            exact .inl ⟨rfl, rfl, rfl⟩
          · rcases hledger.debitIf (t.owns r.txn.sender) hsender r.txn.amount with
              ⟨balance, hdebit, hdebit'⟩ | ⟨d, d', hdebit, hdebit', hagree⟩
            · rw [hdebit] at h
              rw [hdebit']
              cases h
              exact .inl ⟨rfl, rfl, rfl⟩
            · rw [hdebit] at h
              rw [hdebit']
              cases h
              refine .inr ⟨_, rfl, ?_, rfl⟩
              split
              · exact hagree.deposit hreceiver r.txn.amount
              · exact hagree

end Locality

end Participants

namespace Books

variable {b b' m m₁ m₂ b₁₂ b₂₁ : Books} {c c₁ c₂ : Command} {outcome outcome₁ outcome₂ : Outcome}
  {tid : Tid} {txn : Transaction} {a : AccountId} {accounts : List AccountId}

/-- The accounts of a command; those of a decision are the accounts of the transfer that it decides.
-/
def accountsOf (b : Books) : Command → List AccountId
  | .transfer _ txn | .prepare _ txn => [txn.sender, txn.receiver]
  | .commit tid | .abort tid =>
    match b.participants.find? tid with
    | some r => [r.txn.sender, r.txn.receiver]
    | none => []

/-- What the books hold under an id. -/
def dossier (b : Books) (tid : Tid) : Option Transaction × Option ParticipantRecord :=
  (b.transfers.get? tid, b.participants.find? tid)

/-- What the books hold of an account: its balance, and what is to be taken from it or paid into it.
-/
def statement (b : Books) (a : AccountId) : Option Amount × List ParticipantRecord :=
  (b.ledger.balance? a, b.participants.concerning a)

/-! ### What a command leaves alone -/

theorem Effect.dossier_eq (h : b.Effect c m outcome) (other : c.tid ≠ tid) :
    m.dossier tid = b.dossier tid := by
  cases h with
  | none _ => rfl
  | @transferred tid' txn debited unused unprepared sender receiver funded room debit =>
      refine Prod.ext ?_ rfl
      show (b.transfers.insert tid' txn).get? tid = b.transfers.get? tid
      rw [SortedMap.get?_insert]
      exact if_neg (Ne.symm other)
  | @prepared tid' txn unused admitted =>
      refine Prod.ext rfl ?_
      show Participants.find? _ tid = b.participants.find? tid
      rw [find?_append]
      exact (congrArg _ (if_neg other)).trans Option.or_none
  | @committed tid' r debited found pending room debit =>
      exact Prod.ext rfl (Participants.find?_decide_of_ne _ _ (Ne.symm other))
  | @aborted tid' r found pending =>
      exact Prod.ext rfl (Participants.find?_decide_of_ne _ _ (Ne.symm other))

/-- Moving an amount between two accounts leaves the others alone. -/
theorem balance?_move {owns : AccountId → Bool} {l debited : Ledger}
    (hdebit : (if owns txn.sender then l.debit txn.sender txn.amount else .ok l) = .ok debited)
    (hsender : txn.sender ≠ a) (hreceiver : txn.receiver ≠ a) :
    (if owns txn.receiver then debited.deposit txn.receiver txn.amount else debited).balance? a =
      l.balance? a := by
  have hdebited : debited.balance? a = l.balance? a := by
    split at hdebit
    · rw [Ledger.balance?_debit hdebit, if_neg hsender.symm]
    · cases hdebit
      rfl
  split
  · rw [Ledger.balance?_deposit, if_neg hreceiver.symm, hdebited]
  · exact hdebited

theorem Effect.statement_eq (h : b.Effect c m outcome) (distinct : b.participants.tids.Nodup)
    (other : a ∉ b.accountsOf c) : m.statement a = b.statement a := by
  cases h with
  | none _ => rfl
  | @transferred tid txn debited unused unprepared sender receiver funded room debit =>
      obtain ⟨hsender, hreceiver⟩ : a ≠ txn.sender ∧ a ≠ txn.receiver := by
        simpa [accountsOf] using other
      refine Prod.ext ?_ rfl
      show (debited.deposit txn.receiver txn.amount).balance? a = b.ledger.balance? a
      rw [Ledger.balance?_deposit, if_neg hreceiver, Ledger.balance?_debit debit, if_neg hsender]
  | @prepared tid txn unused admitted =>
      obtain ⟨hsender, hreceiver⟩ : a ≠ txn.sender ∧ a ≠ txn.receiver := by
        simpa [accountsOf] using other
      refine Prod.ext rfl ?_
      show Participants.concerning _ a = b.participants.concerning a
      rw [Participants.concerning_append]
      refine (congrArg _ (List.filter_eq_nil_iff.2 fun r hr => ?_)).trans (List.append_nil _)
      rw [List.mem_singleton.1 (List.mem_filter.1 hr).1]
      simp [hsender.symm, hreceiver.symm]
  | @committed tid r debited found pending room debit =>
      obtain ⟨hsender, hreceiver⟩ : a ≠ r.txn.sender ∧ a ≠ r.txn.receiver := by
        simpa [accountsOf, found] using other
      exact Prod.ext (balance?_move debit hsender.symm hreceiver.symm)
        (Participants.concerning_decide_of_ne distinct found (by simp) hsender.symm hreceiver.symm)
  | @aborted tid r found pending =>
      obtain ⟨hsender, hreceiver⟩ : a ≠ r.txn.sender ∧ a ≠ r.txn.receiver := by
        simpa [accountsOf, found] using other
      exact Prod.ext rfl
        (Participants.concerning_decide_of_ne distinct found (by simp) hsender.symm hreceiver.symm)

/-! ### What a command looks at -/

/-- Books of one shard that hold the same under an id and of some accounts. -/
structure AgreeOn (b b' : Books) (tid : Tid) (accounts : List AccountId) : Prop where
  topology : b'.topology = b.topology
  dossier : b'.dossier tid = b.dossier tid
  statement : ∀ a ∈ accounts, b'.statement a = b.statement a

namespace AgreeOn

theorem transfers (h : b.AgreeOn b' tid accounts) : b'.transfers.get? tid = b.transfers.get? tid :=
  congrArg Prod.fst h.dossier

theorem record (h : b.AgreeOn b' tid accounts) :
    b'.participants.find? tid = b.participants.find? tid :=
  congrArg Prod.snd h.dossier

theorem ledger (h : b.AgreeOn b' tid accounts) : b.ledger.AgreeOn b'.ledger accounts :=
  fun a ha => congrArg Prod.fst (h.statement a ha)

theorem concerning (h : b.AgreeOn b' tid accounts) (ha : a ∈ accounts) :
    b'.participants.concerning a = b.participants.concerning a :=
  congrArg Prod.snd (h.statement a ha)

theorem accountsOf_eq (h : b.AgreeOn b' c.tid accounts) : b'.accountsOf c = b.accountsOf c := by
  have hrecord := h.record
  cases c with
  | transfer tid txn => rfl
  | prepare tid txn => rfl
  | commit tid | abort tid =>
      dsimp only [accountsOf]
      rw [show b'.participants.find? tid = b.participants.find? tid from hrecord]

theorem fundingShortfall?_eq (h : b.AgreeOn b' tid accounts) (hsender : txn.sender ∈ accounts)
    (tid' : Tid) : b'.participants.fundingShortfall? b'.ledger tid' txn =
      b.participants.fundingShortfall? b.ledger tid' txn := by
  unfold Participants.fundingShortfall? Participants.available
  rw [Participants.reservedAgainst_eq (h.concerning hsender), h.ledger.balance_eq hsender]

theorem creditOverflow?_eq (h : b.AgreeOn b' tid accounts) (hreceiver : txn.receiver ∈ accounts)
    (tid' : Tid) : b'.participants.creditOverflow? b'.ledger tid' txn =
      b.participants.creditOverflow? b.ledger tid' txn := by
  unfold Participants.creditOverflow?
  rw [Participants.incomingTo_eq (h.concerning hreceiver), h.ledger.balance_eq hreceiver]

theorem transfer (h : b.AgreeOn b' tid accounts) (hsender : txn.sender ∈ accounts)
    (hreceiver : txn.receiver ∈ accounts) (htransfer : b.transfer tid txn = .ok (m, outcome)) :
    ∃ m', b'.transfer tid txn = .ok (m', outcome) ∧ m.AgreeOn m' tid accounts := by
  have hrejection : b'.transferRejection? tid txn = b.transferRejection? tid txn := by
    unfold transferRejection?
    rw [h.record, h.topology, h.fundingShortfall?_eq hsender, h.creditOverflow?_eq hreceiver]
  unfold Books.transfer at htransfer ⊢
  rw [h.transfers, hrejection]
  split at htransfer
  · cases htransfer
    exact ⟨b', rfl, h⟩
  · obtain ⟨rejection, hrejected, htransfer⟩ := bind_eq_ok_iff.1 htransfer
    rw [hrejected]
    cases rejection with
    | some reason =>
        cases htransfer
        exact ⟨b', rfl, h⟩
    | none =>
        dsimp only [bind, Except.bind] at htransfer ⊢
        rcases h.ledger.debit hsender txn.amount with
          ⟨balance, hdebit, hdebit'⟩ | ⟨d, d', hdebit, hdebit', hagree⟩
        · rw [hdebit] at htransfer
          rw [hdebit']
          cases htransfer
          exact ⟨b', rfl, h⟩
        · rw [hdebit] at htransfer
          rw [hdebit']
          cases htransfer
          refine ⟨_, rfl, h.topology, Prod.ext ?_ h.record,
            fun a ha => Prod.ext (hagree.deposit hreceiver txn.amount a ha) (h.concerning ha)⟩
          exact (SortedMap.get?_insert_self _ _ _).trans (SortedMap.get?_insert_self _ _ _).symm

theorem prepare (h : b.AgreeOn b' tid accounts) (hsender : txn.sender ∈ accounts)
    (hreceiver : txn.receiver ∈ accounts)
    (hprepare : b.perform (.prepare tid txn) = .ok (m, outcome)) :
    ∃ m', b'.perform (.prepare tid txn) = .ok (m', outcome) ∧ m.AgreeOn m' tid accounts := by
  have hrejection : b'.participants.prepareRejection? b.topology b'.ledger tid txn =
      b.participants.prepareRejection? b.topology b.ledger tid txn := by
    unfold Participants.prepareRejection?
    rw [h.fundingShortfall?_eq hsender, h.creditOverflow?_eq hreceiver]
  obtain ⟨⟨participants, outcome'⟩, hprepare, hm⟩ := bind_eq_ok_iff.1 hprepare
  cases hm
  rcases Participants.prepare_eq_of_same h.record hrejection hprepare with
    ⟨rfl, hprepare'⟩ | ⟨r, rfl, hprepare'⟩ <;> rw [← h.topology] at hprepare'
  · exact ⟨_, bind_eq_ok_iff.2 ⟨_, hprepare', rfl⟩, h⟩
  · refine ⟨_, bind_eq_ok_iff.2 ⟨_, hprepare', rfl⟩, h.topology, Prod.ext h.transfers ?_,
      fun a ha => Prod.ext (h.ledger a ha) ?_⟩
    · show Participants.find? _ tid = Participants.find? _ tid
      rw [find?_append, find?_append, h.record]
    · show Participants.concerning _ a = Participants.concerning _ a
      rw [Participants.concerning_append, Participants.concerning_append, h.concerning ha]

/-- A decision leaves books in agreement that were so before. -/
theorem decide {state : ParticipantState} {l l' : Ledger} (h : b.AgreeOn b' tid accounts)
    (hstate : state ≠ .prepared) (hledger : l.AgreeOn l' accounts) :
    AgreeOn { b with participants := b.participants.decide tid state, ledger := l }
      { b' with participants := b'.participants.decide tid state, ledger := l' } tid accounts where
  topology := h.topology
  dossier := by
    refine Prod.ext h.transfers ?_
    show (b'.participants.decide tid state).find? tid = (b.participants.decide tid state).find? tid
    rw [Participants.find?_decide, Participants.find?_decide, h.record]
  statement a ha := by
    refine Prod.ext (hledger a ha) ?_
    show (b'.participants.decide tid state).concerning a =
      (b.participants.decide tid state).concerning a
    rw [Participants.concerning_decide hstate, Participants.concerning_decide hstate,
      h.concerning ha]

theorem commit (h : b.AgreeOn b' tid (b.accountsOf (.commit tid)))
    (hcommit : b.perform (.commit tid) = .ok (m, outcome)) :
    ∃ m', b'.perform (.commit tid) = .ok (m', outcome) ∧
      m.AgreeOn m' tid (b.accountsOf (.commit tid)) := by
  have hsame : ∀ r, b.participants.find? tid = some r →
      r.txn.sender ∈ b.accountsOf (.commit tid) ∧ r.txn.receiver ∈ b.accountsOf (.commit tid) ∧
        b'.participants.creditOverflow? b'.ledger tid r.txn =
          b.participants.creditOverflow? b.ledger tid r.txn := by
    intro r found
    have haccounts : b.accountsOf (.commit tid) = [r.txn.sender, r.txn.receiver] := by
      simp only [accountsOf, found]
    rw [haccounts] at h ⊢
    exact ⟨by simp, by simp, h.creditOverflow?_eq (by simp) tid⟩
  obtain ⟨participants, ledger, outcome', hresult⟩ : ∃ participants ledger outcome,
      b.participants.commit b.topology b.ledger tid = (participants, ledger, outcome) :=
    ⟨_, _, _, rfl⟩
  unfold perform at hcommit ⊢
  dsimp only at hcommit ⊢
  rw [hresult] at hcommit
  cases hcommit
  rcases Participants.commit_eq_of_same h.record hsame h.ledger hresult with
    ⟨rfl, rfl, hresult'⟩ | ⟨ledger', rfl, hagree, hresult'⟩ <;> rw [← h.topology] at hresult' <;>
    rw [hresult']
  · exact ⟨_, rfl, h⟩
  · exact ⟨_, rfl, h.decide (by simp) hagree⟩

theorem abort (h : b.AgreeOn b' tid accounts) (habort : b.perform (.abort tid) = .ok (m, outcome)) :
    ∃ m', b'.perform (.abort tid) = .ok (m', outcome) ∧ m.AgreeOn m' tid accounts := by
  obtain ⟨participants, outcome', hresult⟩ : ∃ participants outcome,
      b.participants.abort tid = (participants, outcome) := ⟨_, _, rfl⟩
  unfold perform at habort ⊢
  dsimp only at habort ⊢
  rw [hresult] at habort
  cases habort
  rcases Participants.abort_eq_of_same h.record hresult with ⟨rfl, hresult'⟩ | ⟨rfl, hresult'⟩ <;>
    rw [hresult']
  · exact ⟨_, rfl, h⟩
  · exact ⟨_, rfl, h.decide (by simp) h.ledger⟩

/-- Books that agree on the id and the accounts of a command agree on them after it, and it has the
same outcome for both. -/
theorem perform (h : b.AgreeOn b' c.tid (b.accountsOf c))
    (hperform : b.perform c = .ok (m, outcome)) :
    ∃ m', b'.perform c = .ok (m', outcome) ∧ m.AgreeOn m' c.tid (b.accountsOf c) := by
  cases c with
  | transfer tid txn => exact h.transfer (by simp [accountsOf]) (by simp [accountsOf]) hperform
  | prepare tid txn => exact h.prepare (by simp [accountsOf]) (by simp [accountsOf]) hperform
  | commit tid => exact h.commit hperform
  | abort tid => exact h.abort hperform

end AgreeOn

/-! ### Changing places -/

/-- A command leaves alone what another one looks at. -/
theorem Effect.agreeOn (h : b.Effect c₁ m₁ outcome₁) (distinct : b.participants.tids.Nodup)
    (htid : c₁.tid ≠ c₂.tid) (apart : ∀ a ∈ b.accountsOf c₂, a ∉ b.accountsOf c₁) :
    b.AgreeOn m₁ c₂.tid (b.accountsOf c₂) where
  topology := h.topology
  dossier := h.dossier_eq htid
  statement a ha := h.statement_eq distinct (apart a ha)

/-- Something that no two steps touch is the same whichever of them comes first. -/
theorem eq_of_apart {β : Type} (f : Books → β) (touched₁ touched₂ : Prop)
    (apart : touched₁ → ¬ touched₂)
    (kept₁ : ¬ touched₁ → f m₁ = f b ∧ f b₂₁ = f m₂)
    (kept₂ : ¬ touched₂ → f m₂ = f b ∧ f b₁₂ = f m₁)
    (same₁ : touched₁ → f b₂₁ = f m₁) (same₂ : touched₂ → f b₁₂ = f m₂) : f b₁₂ = f b₂₁ := by
  by_cases h₁ : touched₁
  · rw [(kept₂ (apart h₁)).2, same₁ h₁]
  · by_cases h₂ : touched₂
    · rw [same₂ h₂, (kept₁ h₁).2]
    · rw [(kept₂ h₂).2, (kept₁ h₁).1, (kept₁ h₁).2, (kept₂ h₂).1]

theorem perform_comm (h : b.Covered) (hperform₁ : b.perform c₁ = .ok (m₁, outcome₁))
    (hperform₂ : b.perform c₂ = .ok (m₂, outcome₂)) (htid : c₁.tid ≠ c₂.tid)
    (apart : ∀ a ∈ b.accountsOf c₁, a ∉ b.accountsOf c₂) :
    ∃ b₁₂ b₂₁, m₁.perform c₂ = .ok (b₁₂, outcome₂) ∧ m₂.perform c₁ = .ok (b₂₁, outcome₁) ∧
      (∀ tid, b₁₂.dossier tid = b₂₁.dossier tid) ∧ ∀ a, b₁₂.statement a = b₂₁.statement a := by
  have heffect₁ := perform_effect hperform₁
  have heffect₂ := perform_effect hperform₂
  have hagree₁ := heffect₂.agreeOn h.distinct (Ne.symm htid) apart
  have hagree₂ := heffect₁.agreeOn h.distinct htid fun a ha ha' => apart a ha' ha
  obtain ⟨b₁₂, hperform₁₂, hsame₂⟩ := hagree₂.perform hperform₂
  obtain ⟨b₂₁, hperform₂₁, hsame₁⟩ := hagree₁.perform hperform₁
  have heffect₁₂ := perform_effect hperform₁₂
  have heffect₂₁ := perform_effect hperform₂₁
  refine ⟨b₁₂, b₂₁, hperform₁₂, hperform₂₁, fun tid => ?_, fun a => ?_⟩
  · exact eq_of_apart (·.dossier tid) (c₁.tid = tid) (c₂.tid = tid)
      (fun h₁ h₂ => htid (h₁.trans h₂.symm))
      (fun h₁ => ⟨heffect₁.dossier_eq h₁, heffect₂₁.dossier_eq h₁⟩)
      (fun h₂ => ⟨heffect₂.dossier_eq h₂, heffect₁₂.dossier_eq h₂⟩)
      (by rintro rfl; exact hsame₁.dossier) (by rintro rfl; exact hsame₂.dossier)
  · exact eq_of_apart (·.statement a) (a ∈ b.accountsOf c₁) (a ∈ b.accountsOf c₂) (apart a)
      (fun h₁ => ⟨heffect₁.statement_eq h.distinct h₁,
        heffect₂₁.statement_eq (h.effect heffect₂).distinct (by rwa [hagree₁.accountsOf_eq])⟩)
      (fun h₂ => ⟨heffect₂.statement_eq h.distinct h₂,
        heffect₁₂.statement_eq (h.effect heffect₁).distinct (by rwa [hagree₂.accountsOf_eq])⟩)
      (hsame₁.statement a) (hsame₂.statement a)

/-- What a command does has nothing to do with the trail. -/
theorem perform_trail (h : b.perform c = .ok (m, outcome)) (trail : List AppliedEntry) :
    Books.perform { b with applied := trail } c = .ok ({ m with applied := trail }, outcome) := by
  have hkept := perform_keptBy b b.topology.replica trail c
  have hm : m.keptBy b.topology.replica trail = { m with applied := trail } := by
    rw [← (perform_effect h).topology]
    rfl
  rw [h] at hkept
  rw [← hm]
  exact hkept

/-- Two commands with different ids and no account in common may be applied in either order, under
whatever slots and ballots: each has the same outcome, and afterwards the balances, the transfers
within the shard and the records of transfers across shards are the same. -/
theorem independent_commute {t : Topology} {balance : Amount} {entries : List LogEntry}
    {e₁ e₂ e₁' e₂' : LogEntry} (reached : (opening t balance).applyAll entries = .ok b)
    (same₁ : e₁'.command = e₁.command) (same₂ : e₂'.command = e₂.command)
    (htid : e₁.command.tid ≠ e₂.command.tid)
    (apart : ∀ a ∈ b.accountsOf e₁.command, a ∉ b.accountsOf e₂.command) :
    ∃ m₁ m₂ b₁₂ b₂₁ outcome₁ outcome₂,
      b.apply e₁ = .ok (m₁, outcome₁) ∧ m₁.apply e₂ = .ok (b₁₂, outcome₂) ∧
      b.apply e₂' = .ok (m₂, outcome₂) ∧ m₂.apply e₁' = .ok (b₂₁, outcome₁) ∧
      b₁₂.ledger = b₂₁.ledger ∧ b₁₂.transfers = b₂₁.transfers ∧
      ∀ tid, b₁₂.participants.find? tid = b₂₁.participants.find? tid := by
  have h : b.Covered := (covered_opening t balance).applyAll reached
  obtain ⟨m₁, outcome₁, hperform₁⟩ := h.exists_perform e₁.command
  obtain ⟨m₂, outcome₂, hperform₂⟩ := h.exists_perform e₂.command
  obtain ⟨b₁₂, b₂₁, hperform₁₂, hperform₂₁, hdossier, hstatement⟩ :=
    perform_comm h hperform₁ hperform₂ htid apart
  rw [← same₂] at hperform₂
  rw [← same₁] at hperform₂₁
  have hledger : b₁₂.ledger.balances = b₂₁.ledger.balances :=
    SortedMap.ext_get? fun a => congrArg Prod.fst (hstatement a)
  have htransfers : b₁₂.transfers = b₂₁.transfers :=
    SortedMap.ext_get? fun tid => congrArg Prod.fst (hdossier tid)
  exact ⟨_, _, _, _, outcome₁, outcome₂, apply_of_perform hperform₁,
    apply_of_perform (perform_trail hperform₁₂ _), apply_of_perform hperform₂,
    apply_of_perform (perform_trail hperform₂₁ _), congrArg Ledger.mk hledger, htransfers,
    fun tid => congrArg Prod.snd (hdossier tid)⟩

/-- A prepared transfer that is committed before or after another transfer within the shard. -/
theorem independent_commute_commit : ∃ b m₁ m₂ b₁₂ b₂₁,
    (opening fourAccounts 10).applyAll [⟨⟨0⟩, .zero, .prepare ⟨1⟩ ⟨⟨1⟩, ⟨2⟩, 3⟩⟩] = .ok b ∧
      b.apply ⟨⟨1⟩, .zero, .commit ⟨1⟩⟩ = .ok (m₁, .committed) ∧
      m₁.apply ⟨⟨2⟩, .zero, .transfer ⟨2⟩ ⟨⟨3⟩, ⟨4⟩, 5⟩⟩ = .ok (b₁₂, .transferred) ∧
      b.apply ⟨⟨1⟩, .zero, .transfer ⟨2⟩ ⟨⟨3⟩, ⟨4⟩, 5⟩⟩ = .ok (m₂, .transferred) ∧
      m₂.apply ⟨⟨2⟩, .zero, .commit ⟨1⟩⟩ = .ok (b₂₁, .committed) ∧
      b₁₂.ledger = b₂₁.ledger ∧ b₁₂.transfers = b₂₁.transfers ∧
      ∀ tid, b₁₂.participants.find? tid = b₂₁.participants.find? tid := by
  obtain ⟨b, n₁, n₂, reached, hfirst, hsecond, apart⟩ : ∃ b n₁ n₂,
      (opening fourAccounts 10).applyAll [⟨⟨0⟩, .zero, .prepare ⟨1⟩ ⟨⟨1⟩, ⟨2⟩, 3⟩⟩] = .ok b ∧
        b.apply ⟨⟨1⟩, .zero, .commit ⟨1⟩⟩ = .ok (n₁, .committed) ∧
        b.apply ⟨⟨1⟩, .zero, .transfer ⟨2⟩ ⟨⟨3⟩, ⟨4⟩, 5⟩⟩ = .ok (n₂, .transferred) ∧
        ∀ a ∈ b.accountsOf (.commit ⟨1⟩), a ∉ b.accountsOf (.transfer ⟨2⟩ ⟨⟨3⟩, ⟨4⟩, 5⟩) :=
    ⟨_, _, _, rfl, rfl, rfl, by decide⟩
  let commit (s : Slot) : LogEntry := ⟨s, .zero, .commit ⟨1⟩⟩
  let transfer (s : Slot) : LogEntry := ⟨s, .zero, .transfer ⟨2⟩ ⟨⟨3⟩, ⟨4⟩, 5⟩⟩
  have htid : (commit ⟨1⟩).command.tid ≠ (transfer ⟨2⟩).command.tid := by decide
  have same₁ : (commit ⟨2⟩).command = (commit ⟨1⟩).command := rfl
  have same₂ : (transfer ⟨1⟩).command = (transfer ⟨2⟩).command := rfl
  obtain ⟨m₁, m₂, b₁₂, b₂₁, outcome₁, outcome₂, happly₁, happly₁₂, happly₂, happly₂₁, hsame⟩ :=
    independent_commute reached same₁ same₂ htid apart
  rw [show b.apply (commit ⟨1⟩) = .ok (n₁, .committed) from hfirst] at happly₁
  rw [show b.apply (transfer ⟨1⟩) = .ok (n₂, .transferred) from hsecond] at happly₂
  cases happly₁
  cases happly₂
  exact ⟨b, n₁, n₂, b₁₂, b₂₁, reached, hfirst, happly₁₂, hsecond, happly₂₁, hsame⟩

end Books

end ReplicatedLedger
