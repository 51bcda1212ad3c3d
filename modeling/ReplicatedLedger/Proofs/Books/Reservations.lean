import Mathlib.Algebra.Order.BigOperators.Group.List
import ReplicatedLedger.Proofs.Books.Replay
import ReplicatedLedger.Proofs.Books.Tally

/-!
Pending transfers are backed by the balances: what is held against an account is there, and there is
room for what others still owe it.  Hence nothing but a credit that an account owes to itself stands
in the way of a commit.
-/

namespace ReplicatedLedger

namespace Participants

variable {p : Participants} {tid : Tid} {r : ParticipantRecord} {a : AccountId}
  {state : ParticipantState}

theorem mem_decide (h : r ∈ (p.decide tid state).records) :
    (∃ r', r' ∈ p.records ∧ r'.tid = tid ∧ r = { r' with state := state, reserved := 0 }) ∨
      r ∈ p.records ∧ r.tid ≠ tid := by
  obtain ⟨r', hr', rfl⟩ := List.mem_map.1 h
  by_cases htid : r'.tid = tid
  · rw [if_pos htid]
    exact .inl ⟨r', hr', htid, rfl⟩
  · rw [if_neg htid]
    exact .inr ⟨hr', htid⟩

theorem owed_le_expected (unused : p.find? tid = none) (a : AccountId) :
    p.owed a ≤ p.expected a (some tid) := by
  unfold owed tally expected
  rw [pendingBut_of_unused unused]
  refine List.sum_le_sum fun r _ => ?_
  by_cases hreceiver : r.txn.receiver = a
  · by_cases hsender : r.txn.sender = a <;> simp [hreceiver, hsender]
  · simp [hreceiver]

end Participants

namespace Books

structure Covered (b : Books) : Prop where
  distinct : b.participants.tids.Nodup
  reserved : ∀ r ∈ b.participants.records,
    r.reserved = if r.state = .prepared ∧ b.topology.owns r.txn.sender then r.txn.amount else 0
  funds : ∀ a, b.topology.owns a = true → b.participants.held a ≤ (b.ledger.balance a).toNat
  room : ∀ a, b.topology.owns a = true →
    (b.ledger.balance a).toNat + b.participants.owed a < UInt64.size

variable {b b' : Books} {c : Command} {outcome : Outcome} {entries : List LogEntry} {tid : Tid}
  {txn : Transaction} {r : ParticipantRecord} {t : Topology} {balance : Amount}

theorem covered_opening (t : Topology) (balance : Amount) : (opening t balance).Covered where
  distinct := List.nodup_nil
  reserved _ h := by cases h
  funds _ _ := Nat.zero_le _
  room a _ := (Ledger.balance _ a).toNat_lt_size

namespace Covered

/-- The check of the receiving side leaves room beside everything that others owe. -/
theorem room_of_unused (h : b.Covered) (unused : b.participants.find? tid = none)
    (hne : txn.sender ≠ txn.receiver) (howns : b.topology.owns txn.receiver = true)
    (hcheck : b.participants.creditOverflow? b.ledger tid txn = none) :
    (b.ledger.balance txn.receiver).toNat + b.participants.owed txn.receiver + txn.amount.toNat <
      UInt64.size := by
  have hsum := (Participants.creditOverflow?_eq_none_iff.1 hcheck).resolve_left hne
  rw [Participants.toNat_incomingTo] at hsum
  have hle := Participants.owed_le_expected unused txn.receiver
  have hroom := h.room txn.receiver howns
  omega

theorem transfer (h : b.Covered) {debited : Ledger}
    (unprepared : b.participants.find? tid = none)
    (sender : b.topology.owns txn.sender = true) (receiver : b.topology.owns txn.receiver = true)
    (funded : b.participants.fundingShortfall? b.ledger tid txn = .ok none)
    (room : b.participants.creditOverflow? b.ledger tid txn = none)
    (debit : b.ledger.debit txn.sender txn.amount = .ok debited) :
    Covered { b with
      ledger := debited.deposit txn.receiver txn.amount
      transfers := b.transfers.insert tid txn } := by
  have hfits : txn.sender ≠ txn.receiver → b.topology.owns txn.receiver = true →
      (b.ledger.balance txn.receiver).toNat + txn.amount.toNat < UInt64.size := by
    intro hne howns
    have hroom := h.room_of_unused unprepared hne howns room
    omega
  have hmove : ∀ a, b.topology.owns a = true →
      ((debited.deposit txn.receiver txn.amount).balance a).toNat +
          (if a = txn.sender then txn.amount.toNat else 0) =
        (b.ledger.balance a).toNat + (if a = txn.receiver then txn.amount.toNat else 0) := by
    intro a ha
    have hdebit : (if b.topology.owns txn.sender then b.ledger.debit txn.sender txn.amount
        else .ok b.ledger) = .ok debited := by
      rw [if_pos sender]
      exact debit
    have hbalance := Ledger.toNat_balance_move hdebit hfits ha
    rw [if_pos receiver] at hbalance
    exact hbalance
  have hpaid := Participants.le_of_fundingShortfall?_eq_none unprepared funded
  refine ⟨h.distinct, h.reserved, fun a ha => ?_, fun a ha => ?_⟩
  · have hbefore := h.funds a ha
    have hafter := hmove a ha
    show b.participants.held a ≤ ((debited.deposit txn.receiver txn.amount).balance a).toNat
    split at hafter
    · next hsender =>
      subst hsender
      omega
    · omega
  · have hbefore := h.room a ha
    have hafter := hmove a ha
    show ((debited.deposit txn.receiver txn.amount).balance a).toNat + b.participants.owed a <
      UInt64.size
    by_cases hreceiver : a = txn.receiver
    · subst hreceiver
      -- a transfer to oneself is not checked, but changes no balance
      by_cases hself : txn.sender = txn.receiver
      · simp only [hself, if_true] at hafter
        omega
      · have hroom := h.room_of_unused unprepared hself receiver room
        simp only [if_true] at hafter
        omega
    · rw [if_neg hreceiver] at hafter
      omega

theorem prepare (h : b.Covered) (unused : b.participants.find? tid = none)
    (admitted : b.participants.prepareRejection? b.topology b.ledger tid txn = .ok none) :
    Covered { b with
      participants := ⟨b.participants.records ++
        [⟨tid, txn, .prepared, if b.topology.owns txn.sender then txn.amount else 0⟩]⟩ } := by
  obtain ⟨_, room, funded⟩ := Participants.prepareRejection?_eq_none_iff.1 admitted
  constructor
  case distinct =>
    show (List.map _ (_ ++ _)).Nodup
    rw [List.map_append, List.nodup_append_comm]
    exact List.nodup_cons.2 ⟨Participants.find?_eq_none_iff.1 unused, h.distinct⟩
  case reserved =>
    intro r hr
    rcases List.mem_append.1 hr with hr | hr
    · exact h.reserved r hr
    · rw [List.mem_singleton.1 hr]
      simp
  case funds =>
    intro a ha
    have hbefore := h.funds a ha
    show Participants.held _ a ≤ (b.ledger.balance a).toNat
    rw [Participants.held_append _ _ rfl]
    dsimp only
    by_cases hsender : txn.sender = a
    · subst hsender
      have hpaid := Participants.le_of_fundingShortfall?_eq_none unused (funded ha)
      rw [if_pos rfl, if_pos ha]
      omega
    · rw [if_neg hsender]
      omega
  case room =>
    intro a ha
    have hbefore := h.room a ha
    show (b.ledger.balance a).toNat + Participants.owed _ a < UInt64.size
    rw [Participants.owed_append _ _ rfl]
    dsimp only
    by_cases hcredit : txn.receiver = a ∧ txn.sender ≠ a
    · obtain ⟨rfl, hne⟩ := hcredit
      have hroom := h.room_of_unused unused hne ha (room ha)
      rw [if_pos ⟨rfl, hne⟩]
      omega
    · rw [if_neg hcredit]
      omega

/-- A decision leaves less held and less owed. -/
theorem decide {state : ParticipantState} {ledger : Ledger} (h : b.Covered)
    (found : b.participants.find? tid = some r) (pending : r.state = .prepared)
    (hstate : state ≠ .prepared)
    (hmove : ∀ a, b.topology.owns a = true →
      (ledger.balance a).toNat + (if r.txn.sender = a then r.reserved.toNat else 0) ≥
          (b.ledger.balance a).toNat ∧
        (ledger.balance a).toNat ≤ (b.ledger.balance a).toNat +
          (if r.txn.receiver = a ∧ r.txn.sender ≠ a then r.txn.amount.toNat else 0)) :
    Covered { b with
      participants := b.participants.decide tid state
      ledger := ledger } := by
  constructor
  case distinct =>
    show (b.participants.decide tid state).tids.Nodup
    rw [Participants.tids_decide]
    exact h.distinct
  case reserved =>
    intro r' hr'
    rcases Participants.mem_decide hr' with ⟨r'', _, _, rfl⟩ | ⟨hr', _⟩
    · rw [if_neg (fun hpending => hstate hpending.1)]
    · exact h.reserved r' hr'
  case funds =>
    intro a ha
    have hbefore := h.funds a ha
    have hafter := (hmove a ha).1
    show (b.participants.decide tid state).held a ≤ (ledger.balance a).toNat
    rw [Participants.held_decide h.distinct found pending hstate] at hbefore
    omega
  case room =>
    intro a ha
    have hbefore := h.room a ha
    have hafter := (hmove a ha).2
    show (ledger.balance a).toNat + (b.participants.decide tid state).owed a < UInt64.size
    rw [Participants.owed_decide h.distinct found pending hstate] at hbefore
    omega

/-- A pending credit from another account has room. -/
theorem room_of_pending (h : b.Covered) (found : b.participants.find? tid = some r)
    (pending : r.state = .prepared) (hne : r.txn.sender ≠ r.txn.receiver)
    (howns : b.topology.owns r.txn.receiver = true) :
    (b.ledger.balance r.txn.receiver).toNat + r.txn.amount.toNat < UInt64.size := by
  have hroom := h.room r.txn.receiver howns
  have hdecided : ParticipantState.committed ≠ .prepared := by decide
  rw [Participants.owed_decide h.distinct found pending hdecided, if_pos ⟨rfl, hne⟩] at hroom
  omega

/-- What a pending transfer takes from an account that is kept here is there. -/
theorem funds_of_pending (h : b.Covered) (found : b.participants.find? tid = some r)
    (pending : r.state = .prepared) (howns : b.topology.owns r.txn.sender = true) :
    r.txn.amount.toNat ≤ (b.ledger.balance r.txn.sender).toNat := by
  have hfunds := h.funds r.txn.sender howns
  have hreserved := h.reserved r (Participants.mem_of_find? found).1
  rw [if_pos ⟨pending, howns⟩] at hreserved
  have hdecided : ParticipantState.committed ≠ .prepared := by decide
  rw [Participants.held_decide h.distinct found pending hdecided, if_pos rfl, hreserved] at hfunds
  omega

theorem commit {debited : Ledger} (h : b.Covered) (found : b.participants.find? tid = some r)
    (pending : r.state = .prepared)
    (debit : (if b.topology.owns r.txn.sender then b.ledger.debit r.txn.sender r.txn.amount
      else .ok b.ledger) = .ok debited) :
    Covered { b with
      participants := b.participants.decide tid .committed
      ledger := if b.topology.owns r.txn.receiver then
        debited.deposit r.txn.receiver r.txn.amount else debited } := by
  refine h.decide found pending (by simp) fun a ha => ?_
  have hreserved := h.reserved r (Participants.mem_of_find? found).1
  have hbalance := Ledger.toNat_balance_move debit
    (fun hne howns => h.room_of_pending found pending hne howns) ha
  generalize (if b.topology.owns r.txn.receiver = true then
    debited.deposit r.txn.receiver r.txn.amount else debited) = moved at hbalance ⊢
  by_cases hsender : a = r.txn.sender
  · -- what is debited was held; a transfer to oneself gives it back
    subst hsender
    rw [if_pos ⟨pending, ha⟩] at hreserved
    rw [if_pos rfl] at hbalance
    rw [if_pos rfl, if_neg (fun hcredit => hcredit.2 rfl), hreserved]
    by_cases hself : r.txn.sender = r.txn.receiver
    · rw [if_pos hself] at hbalance
      omega
    · rw [if_neg hself] at hbalance
      omega
  · rw [if_neg hsender] at hbalance
    rw [if_neg (Ne.symm hsender)]
    by_cases hreceiver : a = r.txn.receiver
    · rw [if_pos hreceiver] at hbalance
      rw [if_pos ⟨hreceiver.symm, Ne.symm hsender⟩]
      omega
    · rw [if_neg hreceiver] at hbalance
      rw [if_neg (fun hcredit => hreceiver hcredit.1.symm)]
      omega

theorem effect (h : b.Covered) (heffect : b.Effect c b' outcome) : b'.Covered := by
  cases heffect with
  | none idle => exact h
  | transferred unused unprepared sender receiver funded room debit =>
      exact h.transfer unprepared sender receiver funded room debit
  | prepared unused admitted => exact h.prepare unused admitted
  | committed found pending room debit => exact h.commit found pending debit
  | aborted found pending =>
      exact h.decide found pending (by simp) fun a ha => ⟨by omega, by omega⟩

theorem apply {e : LogEntry} (h : b.Covered) (happly : b.apply e = .ok (b', outcome)) :
    b'.Covered := by
  obtain ⟨m, heffect, _, rfl⟩ := apply_eq_ok happly
  have hafter := h.effect heffect
  exact ⟨hafter.distinct, hafter.reserved, hafter.funds, hafter.room⟩

theorem applyAll (h : b.Covered) (happly : b.applyAll entries = .ok b') : b'.Covered :=
  applyAll_induction happly h fun _ _ _ _ hm hstep => hm.apply hstep

/-! ### No sum overflows -/

/-- What is held against an account of the shard is a word, since its balance is. -/
theorem exists_shortfall (h : b.Covered) (unused : b.participants.find? tid = none)
    (howns : b.topology.owns txn.sender = true) :
    ∃ shortfall, b.participants.fundingShortfall? b.ledger tid txn = .ok shortfall := by
  have hheld : b.participants.held txn.sender < UInt64.size :=
    Nat.lt_of_le_of_lt (h.funds _ howns) (b.ledger.balance txn.sender).toNat_lt_size
  have hreserved : b.participants.reservedAgainst txn.sender (some tid) =
      .ok (UInt64.ofNat (b.participants.held txn.sender)) := by
    rw [Participants.reservedAgainst_eq_ok_iff unused]
    exact UInt64.toNat_ofNat_of_lt' hheld
  unfold Participants.fundingShortfall? Participants.available
  rw [hreserved]
  exact ⟨_, rfl⟩

theorem exists_transferRejection (h : b.Covered) (tid : Tid) (txn : Transaction) :
    ∃ rejection, b.transferRejection? tid txn = .ok rejection := by
  unfold transferRejection?
  split
  · exact ⟨_, rfl⟩
  · next hfind =>
    split
    · exact ⟨_, rfl⟩
    · next hsender =>
      split
      · exact ⟨_, rfl⟩
      · obtain ⟨shortfall, hfunds⟩ :=
          h.exists_shortfall (by simpa using hfind) (by simpa using hsender)
        rw [hfunds]
        cases shortfall with
        | some reason => exact ⟨_, rfl⟩
        | none => exact ⟨_, rfl⟩

theorem exists_prepareRejection (h : b.Covered) (unused : b.participants.find? tid = none)
    (txn : Transaction) :
    ∃ rejection, b.participants.prepareRejection? b.topology b.ledger tid txn = .ok rejection := by
  unfold Participants.prepareRejection?
  split
  · exact ⟨_, rfl⟩
  · split
    · exact ⟨_, rfl⟩
    · split
      · next hsender => exact h.exists_shortfall unused hsender
      · exact ⟨_, rfl⟩

theorem exists_perform (h : b.Covered) (c : Command) :
    ∃ m outcome, b.perform c = .ok (m, outcome) := by
  cases c with
  | transfer tid txn =>
      unfold perform Books.transfer
      dsimp only
      obtain ⟨rejection, hrejection⟩ := h.exists_transferRejection tid txn
      rw [hrejection]
      split
      · exact ⟨_, _, rfl⟩
      · cases rejection with
        | some reason => exact ⟨_, _, rfl⟩
        | none =>
            cases hdebit : b.ledger.debit txn.sender txn.amount with
            | error balance => exact ⟨_, _, rfl⟩
            | ok debited => exact ⟨_, _, rfl⟩
  | prepare tid txn =>
      unfold perform Participants.prepare
      dsimp only
      split
      · exact ⟨_, _, rfl⟩
      · next unused =>
        obtain ⟨rejection, hrejection⟩ := h.exists_prepareRejection unused txn
        rw [hrejection]
        cases rejection with
        | some reason => exact ⟨_, _, rfl⟩
        | none => exact ⟨_, _, rfl⟩
  | commit tid => exact ⟨_, _, rfl⟩
  | abort tid => exact ⟨_, _, rfl⟩

theorem exists_apply (h : b.Covered) (e : LogEntry) :
    ∃ b' outcome, b.apply e = .ok (b', outcome) := by
  obtain ⟨m, outcome, hperform⟩ := h.exists_perform e.command
  exact ⟨_, outcome, apply_of_perform hperform⟩

theorem exists_applyAll (h : b.Covered) (entries : List LogEntry) :
    ∃ b', b.applyAll entries = .ok b' := by
  induction entries generalizing b with
  | nil => exact ⟨b, rfl⟩
  | cons e entries ih =>
      obtain ⟨m, outcome, happly⟩ := h.exists_apply e
      obtain ⟨b', hrest⟩ := ih (h.apply happly)
      exact ⟨b', applyAll_cons_eq_ok_iff.2 ⟨m, outcome, happly, hrest⟩⟩

end Covered

/-! ### Commits -/

/-- Whether a pending credit does not fit beside all the others, those of the receiver to itself
included. -/
def Overfull (b : Books) (tid : Tid) (txn : Transaction) : Prop :=
  b.topology.owns txn.receiver = true ∧ txn.sender ≠ txn.receiver ∧
    UInt64.size ≤ (b.ledger.balance txn.receiver).toNat +
      (b.participants.incomingTo txn.receiver (some tid)).toNat + txn.amount.toNat

instance (b : Books) (tid : Tid) (txn : Transaction) : Decidable (b.Overfull tid txn) :=
  inferInstanceAs (Decidable (_ ∧ _ ∧ _))

theorem overfull_iff :
    b.Overfull tid txn ↔ ∃ reason, (if b.topology.owns txn.receiver then
      b.participants.creditOverflow? b.ledger tid txn else none) = some reason := by
  rw [← Option.ne_none_iff_exists']
  unfold Overfull
  by_cases howns : b.topology.owns txn.receiver = true
  · rw [if_pos howns]
    refine Iff.trans ?_ (not_congr Participants.creditOverflow?_eq_none_iff).symm
    simp [howns]
  · rw [if_neg howns]
    simp [howns]

/-- Credits from others alone always fit. -/
theorem Covered.self_transfer_of_overfull (h : b.Covered)
    (found : b.participants.find? tid = some r) (pending : r.state = .prepared)
    (hover : b.Overfull tid r.txn) :
    ∃ r' ∈ b.participants.pendingBut (some tid),
      r'.txn.sender = r.txn.receiver ∧ r'.txn.receiver = r.txn.receiver := by
  obtain ⟨howns, hne, hsize⟩ := hover
  -- without such a transfer, all the credits to come are owed by others, and `room` covers them
  by_contra hnone
  have hroom := h.room r.txn.receiver howns
  unfold Participants.owed at hroom
  rw [Participants.tally_eq_add h.distinct found pending, if_pos ⟨rfl, hne⟩] at hroom
  have hexpected : b.participants.expected r.txn.receiver (some tid) =
      ((b.participants.pendingBut (some tid)).map fun r' =>
        if r'.txn.receiver = r.txn.receiver ∧ r'.txn.sender ≠ r.txn.receiver then
          r'.txn.amount.toNat else 0).sum := by
    unfold Participants.expected
    refine congrArg List.sum (List.map_congr_left fun r' hr' => ?_)
    have hother : r'.txn.receiver = r.txn.receiver → r'.txn.sender ≠ r.txn.receiver :=
      fun hreceiver hsender => hnone ⟨r', hr', hsender, hreceiver⟩
    by_cases hreceiver : r'.txn.receiver = r.txn.receiver
    · rw [if_pos hreceiver, if_pos ⟨hreceiver, hother hreceiver⟩]
    · rw [if_neg hreceiver, if_neg (fun hboth => hreceiver hboth.1)]
  rw [Participants.toNat_incomingTo, hexpected] at hsize
  omega

/-- The commit of a prepared transfer takes effect unless its credit is counted out by one that the
receiver owes to itself.  In that case it is refused although there is room for it. -/
theorem commit_of_prepared (h : (opening t balance).applyAll entries = .ok b)
    (found : b.participants.find? tid = some r) (pending : r.state = .prepared) {e : LogEntry}
    (he : e.command = .commit tid) :
    (¬ b.Overfull tid r.txn → ∃ b', b.apply e = .ok (b', .committed)) ∧
    (b.Overfull tid r.txn →
      b.apply e = .ok ({ b with
        applied := b.applied ++ [⟨e, .rejected (.balanceOverflow r.txn.receiver)⟩] },
          .rejected (.balanceOverflow r.txn.receiver)) ∧
      (b.ledger.balance r.txn.receiver).toNat + r.txn.amount.toNat < UInt64.size ∧
      ∃ r' ∈ b.participants.pendingBut (some tid),
        r'.txn.sender = r.txn.receiver ∧ r'.txn.receiver = r.txn.receiver) := by
  have hcovered : b.Covered := (covered_opening t balance).applyAll h
  refine ⟨fun hfits => ?_, fun hover => ⟨?_, ?_, ?_⟩⟩
  · have hroom : (if b.topology.owns r.txn.receiver then
        b.participants.creditOverflow? b.ledger tid r.txn else none) = none := by
      by_contra hsome
      exact hfits (overfull_iff.2 (Option.ne_none_iff_exists'.1 hsome))
    obtain ⟨debited, hdebit⟩ : ∃ debited, (if b.topology.owns r.txn.sender then
        b.ledger.debit r.txn.sender r.txn.amount else .ok b.ledger) = .ok debited := by
      by_cases howns : b.topology.owns r.txn.sender = true
      · rw [if_pos howns]
        exact Ledger.exists_debit (hcovered.funds_of_pending found pending howns)
      · rw [if_neg howns]
        exact ⟨_, rfl⟩
    have hcommit : ∃ m, b.perform e.command = .ok (m, .committed) := by
      rw [he]
      unfold perform Participants.commit
      simp only [found, pending, hroom, hdebit]
      exact ⟨_, rfl⟩
    obtain ⟨m, hperform⟩ := hcommit
    exact ⟨_, apply_of_perform hperform⟩
  · obtain ⟨reason, hreason⟩ := overfull_iff.1 hover
    have hoverflow := hreason
    rw [if_pos hover.1] at hoverflow
    rw [Participants.creditOverflow?_eq_some hoverflow] at hreason
    have hperform : b.perform e.command =
        .ok (b, .rejected (.balanceOverflow r.txn.receiver)) := by
      rw [he]
      unfold perform Participants.commit
      simp only [found, pending, hreason]
    exact apply_of_perform hperform
  · exact hcovered.room_of_pending found pending hover.2.1 hover.1
  · exact hcovered.self_transfer_of_overfull found pending hover

theorem commit_of_prepared_alone : ∃ b r b',
    (opening fourAccounts 10).applyAll [⟨⟨0⟩, .zero, .prepare ⟨1⟩ ⟨⟨1⟩, ⟨2⟩, 3⟩⟩] = .ok b ∧
      b.participants.find? ⟨1⟩ = some r ∧ r.state = .prepared ∧ ¬ b.Overfull ⟨1⟩ r.txn ∧
      b.apply ⟨⟨1⟩, .zero, .commit ⟨1⟩⟩ = .ok (b', .committed) := by
  obtain ⟨b, r, happly, found, pending, hfits⟩ : ∃ b r,
      (opening fourAccounts 10).applyAll [⟨⟨0⟩, .zero, .prepare ⟨1⟩ ⟨⟨1⟩, ⟨2⟩, 3⟩⟩] = .ok b ∧
        b.participants.find? ⟨1⟩ = some r ∧ r.state = .prepared ∧ ¬ b.Overfull ⟨1⟩ r.txn :=
    ⟨_, _, rfl, rfl, rfl, by decide⟩
  let e : LogEntry := ⟨⟨1⟩, .zero, .commit ⟨1⟩⟩
  have he : e.command = .commit ⟨1⟩ := rfl
  obtain ⟨b', hcommit⟩ := (commit_of_prepared happly found pending he).1 hfits
  exact ⟨b, r, b', happly, found, pending, hfits, hcommit⟩

/-- A credit of an account to itself, which is exempt from the check when it is prepared, is counted
when another one is committed. -/
theorem commit_refused : ∃ b r b',
    RoutingTable.ofRanges fourAccounts.routing.ranges fourAccounts.routing.groups =
        .ok fourAccounts.routing ∧
      (opening fourAccounts 18446744073709551605).applyAll
        [⟨⟨0⟩, .zero, .prepare ⟨1⟩ ⟨⟨2⟩, ⟨1⟩, 10⟩⟩, ⟨⟨1⟩, .zero, .prepare ⟨2⟩ ⟨⟨1⟩, ⟨1⟩, 5⟩⟩] =
          .ok b ∧
      b.participants.find? ⟨1⟩ = some r ∧ r.state = .prepared ∧
      b.apply ⟨⟨2⟩, .zero, .commit ⟨1⟩⟩ = .ok (b', .rejected (.balanceOverflow ⟨1⟩)) :=
  ⟨_, _, _, rfl, rfl, rfl, rfl, rfl⟩

end Books

end ReplicatedLedger
