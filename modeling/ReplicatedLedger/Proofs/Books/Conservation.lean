import Mathlib.Algebra.BigOperators.Group.List.Basic
import Mathlib.Data.List.Nodup
import ReplicatedLedger.Proofs.Books.Trail
import ReplicatedLedger.Proofs.Routing

/-!
Where the money is: each balance is the opening balance, with what the trail shows as received and
without what it shows as sent.  Whatever is added up of balances follows from that.
-/

namespace ReplicatedLedger

/-- The amounts that some of the transfers move. -/
def volume (txns : List Transaction) (p : Transaction → Prop) [DecidablePred p] : Nat :=
  (txns.map fun txn => if p txn then txn.amount.toNat else 0).sum

section Volume

variable {txns txns' : List Transaction} {p q : Transaction → Prop} [DecidablePred p]
  [DecidablePred q]

theorem volume_append (txns txns' : List Transaction) (p : Transaction → Prop) [DecidablePred p] :
    volume (txns ++ txns') p = volume txns p + volume txns' p := by
  unfold volume
  rw [List.map_append, List.sum_append]

theorem volume_singleton (txn : Transaction) (p : Transaction → Prop) [DecidablePred p] :
    volume [txn] p = if p txn then txn.amount.toNat else 0 := by
  simp [volume]

theorem volume_perm (h : txns.Perm txns') (p : Transaction → Prop) [DecidablePred p] :
    volume txns p = volume txns' p :=
  (h.map _).sum_eq

theorem volume_congr (h : ∀ txn ∈ txns, p txn ↔ q txn) : volume txns p = volume txns q := by
  unfold volume
  refine congrArg List.sum (List.map_congr_left fun txn htxn => ?_)
  simp only [h txn htxn]

/-- One account at a time, or all of them together. -/
theorem sum_volume {accounts : List AccountId} (distinct : accounts.Nodup)
    (side : Transaction → AccountId) (txns : List Transaction) :
    (accounts.map fun a => volume txns (side · = a)).sum = volume txns (side · ∈ accounts) := by
  induction accounts with
  | nil => simp [volume]
  | cons a accounts ih =>
      obtain ⟨hfresh, hrest⟩ := List.nodup_cons.1 distinct
      rw [List.map_cons, List.sum_cons, ih hrest]
      unfold volume
      rw [← List.sum_map_add]
      refine congrArg List.sum (List.map_congr_left fun txn _ => ?_)
      by_cases ha : side txn = a
      · subst ha
        simp [hfresh]
      · simp [ha]

end Volume

namespace Ledger

variable {l l' : Ledger} {a a' : AccountId} {amount : Amount}

/-- All the balances together. -/
def sum (l : Ledger) : Nat := (l.balances.values.map (·.toNat)).sum

theorem sum_eq (l : Ledger) :
    l.sum = (l.balances.keys.map fun a => (l.balance a).toNat).sum := by
  unfold sum SortedMap.values SortedMap.keys
  rw [List.map_map, List.map_map]
  refine congrArg List.sum (List.map_congr_left fun p hp => ?_)
  have hget : l.balances.get? p.1 = some p.2 := SortedMap.get?_eq_some_iff.2 hp
  show p.2.toNat = ((l.balances.get? p.1).getD 0).toNat
  rw [hget, Option.getD_some]

theorem isSome_balance?_iff : (l.balance? a).isSome = true ↔ a ∈ l.balances.keys := by
  unfold balance?
  rw [SortedMap.mem_keys_iff, Option.isSome_iff_exists]

theorem balance?_opening (accounts : List AccountId) (balance : Amount) (a : AccountId) :
    (opening accounts balance).balance? a = if a ∈ accounts then some balance else none := by
  unfold opening balance?
  dsimp only
  induction accounts with
  | nil => simp
  | cons a' accounts ih =>
      rw [List.foldr_cons, SortedMap.get?_insert, ih]
      by_cases ha : a = a' <;> simp [ha]

theorem isSome_insert {balance : Amount} (held : (l.balance? a).isSome = true) :
    ((Ledger.mk (l.balances.insert a balance)).balance? a').isSome = (l.balance? a').isSome := by
  unfold balance?
  dsimp only
  rw [SortedMap.get?_insert]
  split
  · next ha =>
    subst ha
    exact held.symm
  · rfl

/-- Neither a debit nor a deposit opens an account. -/
theorem isSome_debit (h : l.debit a amount = .ok l') (held : (l.balance? a).isSome = true) :
    (l'.balance? a').isSome = (l.balance? a').isSome := by
  unfold debit at h
  dsimp only at h
  split at h
  · cases h
    exact isSome_insert held
  · cases h

theorem isSome_deposit (held : (l.balance? a).isSome = true) :
    ((l.deposit a amount).balance? a').isSome = (l.balance? a').isSome := by
  unfold deposit credit
  dsimp only
  cases Word.sum? (l.balance a) amount with
  | none => rfl
  | some sum => exact isSome_insert held

theorem isSome_move {owns : AccountId → Bool} {sender receiver : AccountId} {debited : Ledger}
    (debit : (if owns sender then l.debit sender amount else .ok l) = .ok debited)
    (held : ∀ a, (l.balance? a).isSome = true ↔ owns a = true) :
    ((if owns receiver then debited.deposit receiver amount else debited).balance? a).isSome =
      (l.balance? a).isSome := by
  have hdebited : ∀ a, (debited.balance? a).isSome = (l.balance? a).isSome := by
    intro a
    split at debit
    · next hsender => exact isSome_debit debit ((held _).2 hsender)
    · cases debit
      rfl
  split
  · next hreceiver =>
    rw [isSome_deposit, hdebited]
    rw [hdebited]
    exact (held _).2 hreceiver
  · exact hdebited a

end Ledger

namespace Participants

variable {p : Participants} {tid : Tid} {r : ParticipantRecord} {state : ParticipantState}

/-- The records of transfers that were committed here. -/
def committed (p : Participants) : List ParticipantRecord :=
  p.records.filter (·.state = .committed)

theorem find?_of_mem (distinct : p.tids.Nodup) (h : r ∈ p.records) : p.find? r.tid = some r := by
  obtain ⟨r', hr'⟩ := Option.ne_none_iff_exists'.1 fun hnone =>
    find?_eq_none_iff.1 hnone (List.mem_map_of_mem h)
  obtain ⟨hmem, htid⟩ := mem_of_find? hr'
  rw [hr', List.inj_on_of_nodup_map distinct hmem h htid]

/-- A decision replaces one record. -/
theorem exists_records_decide (distinct : p.tids.Nodup) (found : p.find? tid = some r)
    (state : ParticipantState) : ∃ before after, p.records = before ++ r :: after ∧
      (p.decide tid state).records =
        before ++ { r with state := state, reserved := 0 } :: after := by
  obtain ⟨hmem, rfl⟩ := mem_of_find? found
  obtain ⟨before, after, hsplit⟩ := List.append_of_mem hmem
  have hother : ∀ x ∈ before ++ after, x.tid ≠ r.tid := by
    intro x hx heq
    unfold tids at distinct
    rw [hsplit, (List.perm_middle.map _).nodup_iff, List.map_cons, List.nodup_cons] at distinct
    exact distinct.1 (heq ▸ List.mem_map_of_mem hx)
  have hkept : ∀ l : List ParticipantRecord, (∀ x ∈ l, x.tid ≠ r.tid) →
      l.map (fun x => if x.tid = r.tid then { x with state := state, reserved := 0 } else x) =
        l :=
    fun l hl => (List.map_congr_left fun x hx => if_neg (hl x hx)).trans (List.map_id' l)
  refine ⟨before, after, hsplit, ?_⟩
  unfold decide
  rw [hsplit, List.map_append, List.map_cons, if_pos rfl,
    hkept before fun x hx => hother x (List.mem_append_left _ hx),
    hkept after fun x hx => hother x (List.mem_append_right _ hx)]

/-- A commit adds its transfer to those that were committed. -/
theorem committed_decide_committed (distinct : p.tids.Nodup) (found : p.find? tid = some r)
    (pending : r.state = .prepared) : ((p.decide tid .committed).committed.map (·.txn)).Perm
      (p.committed.map (·.txn) ++ [r.txn]) := by
  obtain ⟨before, after, hsplit, hdecide⟩ := exists_records_decide distinct found .committed
  unfold committed
  rw [hsplit, hdecide]
  simpa [List.filter_cons, pending] using
    List.perm_middle.trans (List.perm_append_singleton _ _).symm

theorem committed_decide_aborted (distinct : p.tids.Nodup) (found : p.find? tid = some r)
    (pending : r.state = .prepared) : (p.decide tid .aborted).committed = p.committed := by
  obtain ⟨before, after, hsplit, hdecide⟩ := exists_records_decide distinct found .aborted
  unfold committed
  rw [hsplit, hdecide]
  simp [pending]

end Participants

namespace Books

variable {b b' m : Books} {tid : Tid} {txn : Transaction} {e : LogEntry} {outcome : Outcome}
  {entries : List LogEntry} {t : Topology} {balance : Amount} {r : ParticipantRecord}
  {trail : List AppliedEntry} {x : AppliedEntry} {a : AccountId}

/-- The transfer that an entry of a trail carried out: its own, or the one prepared under the id
that it committed. -/
def carriedOut? (trail : List AppliedEntry) (x : AppliedEntry) : Option Transaction :=
  match x.entry.command, x.outcome with
  | .transfer _ txn, .transferred => some txn
  | .commit tid, .committed => preparedIn trail tid
  | _, _ => none

/-- All the transfers that a trail shows as carried out. -/
def carriedOut (trail : List AppliedEntry) : List Transaction :=
  trail.filterMap (carriedOut? trail)

theorem carriedOut?_of_idle (h : x.outcome.isEffective = false) : carriedOut? trail x = none := by
  unfold carriedOut?
  split
  · next houtcome => rw [houtcome] at h; cases h
  · next houtcome => rw [houtcome] at h; cases h
  · rfl

/-- What an entry carried out does not change when the trail goes on, since nothing is committed
before it is prepared. -/
theorem carriedOut_append (h : b.Traced) (x : AppliedEntry) :
    carriedOut (b.applied ++ [x]) =
      carriedOut b.applied ++ (carriedOut? (b.applied ++ [x]) x).toList := by
  have hbefore : ∀ y ∈ b.applied, carriedOut? (b.applied ++ [x]) y = carriedOut? b.applied y := by
    intro y hy
    unfold carriedOut?
    split
    · rfl
    · next tid hcommand houtcome =>
      have hdecided := (h.decided tid .committed (by simp)).2
        ⟨y, hy, AppliedEntry.decided?_eq_committed_iff.2 ⟨hcommand, houtcome⟩⟩
      obtain ⟨r, hr, _⟩ := Option.map_eq_some_iff.1 hdecided
      rw [preparedIn_append, h.opened, hr]
      rfl
    · rfl
  unfold carriedOut
  rw [List.filterMap_append, List.filterMap_congr hbefore]
  cases hx : carriedOut? (b.applied ++ [x]) x <;> simp [hx]

/-- The books are what their trail makes of an opening balance. -/
structure Explained (balance : Amount) (b : Books) : Prop where
  held : ∀ a, (b.ledger.balance? a).isSome = true ↔ b.topology.owns a = true
  balance_eq : ∀ a, b.topology.owns a = true →
    (b.ledger.balance a).toNat + volume (carriedOut b.applied) (·.sender = a) =
      balance.toNat + volume (carriedOut b.applied) (·.receiver = a)
  /-- What was carried out is, in some order, what was transferred within the shard and what the
  records show as committed. -/
  settled : ∃ inner, (carriedOut b.applied).Perm (inner ++ b.participants.committed.map (·.txn)) ∧
    ∀ txn ∈ inner, b.topology.owns txn.sender = true ∧ b.topology.owns txn.receiver = true

theorem explained_opening (table : t.routing.Partitioned) (balance : Amount) :
    (opening t balance).Explained balance := by
  have hbalance : ∀ a, (opening t balance).ledger.balance? a =
      if t.owns a = true then some balance else none := by
    intro a
    have howns : a ∈ t.routing.accounts t.shard ↔ t.owns a = true := by
      rw [table.mem_accounts_iff]
      exact decide_eq_true_iff.symm
    refine (Ledger.balance?_opening _ balance a).trans ?_
    simp only [howns]
  constructor
  · intro a
    rw [hbalance]
    show _ ↔ t.owns a = true
    by_cases ha : t.owns a = true <;> simp [ha]
  · intro a ha
    have ha : t.owns a = true := ha
    unfold Ledger.balance
    rw [hbalance, if_pos ha]
    rfl
  · exact ⟨[], .refl _, by simp⟩

namespace Explained

/-- An entry that moves no money. -/
theorem still (h : b.Explained balance) (htraced : b.Traced)
    (hx : carriedOut? (b.applied ++ [x]) x = none) (htopology : m.topology = b.topology)
    (hledger : m.ledger = b.ledger) (happlied : m.applied = b.applied ++ [x])
    (hcommitted : m.participants.committed = b.participants.committed) :
    m.Explained balance := by
  have hcarried : carriedOut m.applied = carriedOut b.applied := by
    rw [happlied, carriedOut_append htraced, hx]
    exact List.append_nil _
  constructor
  · rw [htopology, hledger]
    exact h.held
  · rw [htopology, hledger, hcarried]
    exact h.balance_eq
  · rw [htopology, hcarried, hcommitted]
    exact h.settled

/-- An entry that moves an amount from one account to another, as far as they are kept here. -/
theorem move {debited : Ledger} (h : b.Explained balance) (htraced : b.Traced)
    (hx : carriedOut? (b.applied ++ [x]) x = some txn)
    (debit : (if b.topology.owns txn.sender then b.ledger.debit txn.sender txn.amount
      else .ok b.ledger) = .ok debited)
    (room : txn.sender ≠ txn.receiver → b.topology.owns txn.receiver = true →
      (b.ledger.balance txn.receiver).toNat + txn.amount.toNat < UInt64.size)
    (htopology : m.topology = b.topology)
    (hledger : m.ledger = if b.topology.owns txn.receiver then
      debited.deposit txn.receiver txn.amount else debited)
    (happlied : m.applied = b.applied ++ [x])
    (hsettled : ∃ inner, (carriedOut b.applied ++ [txn]).Perm
      (inner ++ m.participants.committed.map (·.txn)) ∧
        ∀ txn ∈ inner, b.topology.owns txn.sender = true ∧ b.topology.owns txn.receiver = true) :
    m.Explained balance := by
  have hcarried : carriedOut m.applied = carriedOut b.applied ++ [txn] := by
    rw [happlied, carriedOut_append htraced, hx]
    rfl
  constructor
  · intro a
    rw [htopology, hledger, Ledger.isSome_move debit h.held]
    exact h.held a
  · intro a ha
    rw [htopology] at ha
    have hbefore := h.balance_eq a ha
    have hmove := Ledger.toNat_balance_move debit room ha
    rw [hcarried, volume_append, volume_append, volume_singleton, volume_singleton, hledger]
    simp only [eq_comm (a := a)] at hmove
    omega
  · rw [htopology, hcarried]
    exact hsettled

theorem transfer {debited : Ledger} (h : b.Explained balance) (hcovered : b.Covered)
    (htraced : b.Traced) (hcommand : e.command = .transfer tid txn)
    (unprepared : b.participants.find? tid = none)
    (sender : b.topology.owns txn.sender = true) (receiver : b.topology.owns txn.receiver = true)
    (room : b.participants.creditOverflow? b.ledger tid txn = none)
    (debit : b.ledger.debit txn.sender txn.amount = .ok debited) :
    Explained balance { b with
      ledger := debited.deposit txn.receiver txn.amount
      transfers := b.transfers.insert tid txn
      applied := b.applied ++ [⟨e, .transferred⟩] } := by
  let x : AppliedEntry := ⟨e, .transferred⟩
  have hcarried : carriedOut? (b.applied ++ [x]) x = some txn := by simp [x, carriedOut?, hcommand]
  have hdebit : (if b.topology.owns txn.sender then b.ledger.debit txn.sender txn.amount
      else .ok b.ledger) = .ok debited := by
    rw [if_pos sender]
    exact debit
  have hroom : txn.sender ≠ txn.receiver → b.topology.owns txn.receiver = true →
      (b.ledger.balance txn.receiver).toNat + txn.amount.toNat < UInt64.size := by
    intro hne howns
    have hfits := hcovered.room_of_unused unprepared hne howns room
    omega
  refine h.move htraced hcarried hdebit hroom rfl ?_ rfl ?_
  · rw [if_pos receiver]
  · obtain ⟨inner, hperm, howned⟩ := h.settled
    refine ⟨txn :: inner, (List.perm_append_singleton _ _).trans (hperm.cons _), ?_⟩
    intro txn' htxn'
    rcases List.mem_cons.1 htxn' with rfl | htxn'
    · exact ⟨sender, receiver⟩
    · exact howned _ htxn'

theorem commit {debited : Ledger} (h : b.Explained balance) (hcovered : b.Covered)
    (htraced : b.Traced) (hcommand : e.command = .commit tid)
    (found : b.participants.find? tid = some r) (pending : r.state = .prepared)
    (debit : (if b.topology.owns r.txn.sender then
      b.ledger.debit r.txn.sender r.txn.amount else .ok b.ledger) = .ok debited) :
    Explained balance { b with
      participants := b.participants.decide tid .committed
      ledger := if b.topology.owns r.txn.receiver then
        debited.deposit r.txn.receiver r.txn.amount else debited
      applied := b.applied ++ [⟨e, .committed⟩] } := by
  let x : AppliedEntry := ⟨e, .committed⟩
  have hprepared : preparedIn (b.applied ++ [x]) tid = some r.txn := by
    rw [preparedIn_append, htraced.opened, found]
    rfl
  have hcarried : carriedOut? (b.applied ++ [x]) x = some r.txn := by
    rw [← hprepared]
    simp [x, carriedOut?, hcommand]
  refine h.move htraced hcarried debit
    (fun hne howns => hcovered.room_of_pending found pending hne howns) rfl rfl rfl ?_
  obtain ⟨inner, hperm, howned⟩ := h.settled
  have hcommitted := Participants.committed_decide_committed hcovered.distinct found pending
  refine ⟨inner, ?_, howned⟩
  refine ((hperm.append_right [r.txn]).trans ?_).trans (hcommitted.symm.append_left inner)
  rw [List.append_assoc]

theorem effect (h : b.Explained balance) (hcovered : b.Covered) (htraced : b.Traced)
    (heffect : b.Effect e.command m outcome) :
    Explained balance { m with applied := b.applied ++ [⟨e, outcome⟩] } := by
  generalize hc : e.command = c at heffect
  cases heffect with
  | none idle => exact h.still htraced (carriedOut?_of_idle idle) rfl rfl rfl rfl
  | transferred unused unprepared sender receiver funded room debit =>
      exact h.transfer hcovered htraced hc unprepared sender receiver room debit
  | prepared unused admitted =>
      refine h.still htraced (x := ⟨e, .prepared⟩) ?_ rfl rfl rfl ?_
      · simp [carriedOut?, hc]
      · simp [Participants.committed]
  | committed found pending room debit =>
      exact h.commit hcovered htraced hc found pending debit
  | aborted found pending =>
      refine h.still htraced (x := ⟨e, .aborted⟩) ?_ rfl rfl rfl
        (Participants.committed_decide_aborted hcovered.distinct found pending)
      simp [carriedOut?, hc]

end Explained

theorem explained_applyAll (table : t.routing.Partitioned)
    (h : (opening t balance).applyAll entries = .ok b) :
    b.Covered ∧ b.Traced ∧ b.Explained balance := by
  refine applyAll_induction (P := fun b => b.Covered ∧ b.Traced ∧ b.Explained balance) h
    ⟨covered_opening t balance, traced_opening t balance, explained_opening table balance⟩ ?_
  rintro b e b' outcome ⟨hcovered, htraced, hexplained⟩ happly
  refine ⟨hcovered.apply happly, htraced.apply happly, ?_⟩
  obtain ⟨m, heffect, _, rfl⟩ := apply_eq_ok happly
  exact hexplained.effect hcovered htraced heffect

/-! ### Balances added up -/

/-- The sum of balances that explain themselves is as if each account held the opening balance,
except for what was sent out of the shard and received into it. -/
theorem Explained.sum_eq (h : b.Explained balance) :
    b.ledger.sum + volume (carriedOut b.applied) (b.topology.owns ·.sender = true) =
      b.ledger.balances.keys.length * balance.toNat +
        volume (carriedOut b.applied) (b.topology.owns ·.receiver = true) := by
  have howned : ∀ a, a ∈ b.ledger.balances.keys ↔ b.topology.owns a = true := fun a =>
    Ledger.isSome_balance?_iff.symm.trans (h.held a)
  have hside : ∀ side : Transaction → AccountId,
      volume (carriedOut b.applied) (fun txn => b.topology.owns (side txn) = true) =
        (b.ledger.balances.keys.map fun a => volume (carriedOut b.applied) (side · = a)).sum := by
    intro side
    rw [sum_volume b.ledger.balances.keys_nodup]
    exact volume_congr fun txn _ => (howned (side txn)).symm
  have hstart : b.ledger.balances.keys.length * balance.toNat =
      (b.ledger.balances.keys.map fun _ => balance.toNat).sum := by
    rw [List.map_const', List.sum_const_nat]
  rw [Ledger.sum_eq, hside (·.sender), hside (·.receiver), hstart, ← List.sum_map_add,
    ← List.sum_map_add]
  exact congrArg List.sum (List.map_congr_left fun a ha => h.balance_eq a ((howned a).1 ha))

/-- Money leaves and enters a shard by the transfers that its records show as committed. -/
theorem sum_ledger_applyAll (table : t.routing.Partitioned)
    (h : (opening t balance).applyAll entries = .ok b) :
    b.ledger.sum + volume (b.participants.committed.map (·.txn)) (t.owns ·.sender = true) =
      (opening t balance).ledger.sum +
        volume (b.participants.committed.map (·.txn)) (t.owns ·.receiver = true) := by
  obtain ⟨_, _, hexplained⟩ := explained_applyAll table h
  have hopening := explained_opening table balance
  have htopology : b.topology = t := topology_applyAll h
  have hkeys : b.ledger.balances.keys.length = (opening t balance).ledger.balances.keys.length := by
    refine ((List.perm_ext_iff_of_nodup (SortedMap.keys_nodup _) (SortedMap.keys_nodup _)).2
      fun a => ?_).length_eq
    rw [← Ledger.isSome_balance?_iff, ← Ledger.isSome_balance?_iff, hexplained.held,
      hopening.held, htopology]
    rfl
  have hsum := hexplained.sum_eq
  have hstart : (opening t balance).ledger.sum =
      (opening t balance).ledger.balances.keys.length * balance.toNat := hopening.sum_eq
  -- what is transferred within the shard counts on both sides
  obtain ⟨inner, hperm, howned⟩ := hexplained.settled
  have hinner : volume inner (b.topology.owns ·.sender = true) =
      volume inner (b.topology.owns ·.receiver = true) :=
    volume_congr fun txn htxn => iff_of_true (howned txn htxn).1 (howned txn htxn).2
  rw [volume_perm hperm, volume_perm hperm, volume_append, volume_append, hinner, htopology,
    hkeys] at hsum
  omega

/-- A transfer within the shard leaves the sum of its balances as it is. -/
theorem sum_ledger_transfer (table : t.routing.Partitioned)
    (h : (opening t balance).applyAll entries = .ok b) (he : e.command = .transfer tid txn) :
    ∃ b' outcome, b.apply e = .ok (b', outcome) ∧ b'.ledger.sum = b.ledger.sum := by
  obtain ⟨hcovered, _, _⟩ := explained_applyAll table h
  obtain ⟨b', outcome, happly⟩ := hcovered.exists_apply e
  refine ⟨b', outcome, happly, ?_⟩
  have hafter : (opening t balance).applyAll (entries ++ [e]) = .ok b' :=
    applyAll_append_eq_ok_iff.2 ⟨b, h, applyAll_cons_eq_ok_iff.2 ⟨b', outcome, happly, rfl⟩⟩
  have hsum := sum_ledger_applyAll table h
  have hsum' := sum_ledger_applyAll table hafter
  have hparticipants : b'.participants = b.participants := by
    obtain ⟨m, heffect, _, rfl⟩ := apply_eq_ok happly
    rw [he] at heffect
    cases heffect <;> rfl
  rw [hparticipants] at hsum'
  omega

end Books

end ReplicatedLedger
