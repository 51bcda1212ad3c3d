import ReplicatedLedger.Proofs.Consensus.Handling

/-!
A replica in company.  Its own promise is no majority, so that by itself it chooses nothing: it
completes the proposals of which it has learned that they are chosen, and asks for promises for the
next.  For that it needs a slot, a ballot and a number, and nothing else can fail.
-/

namespace ReplicatedLedger

/-- Whether a message asks for chosen entries, or answers with them. -/
def Message.isCatchUp : Message → Bool
  | .catchUpRequest _ | .catchUpResponse _ => true
  | _ => false

namespace ReplicatedLog

/-- Whether there is a slot, a ballot and a number left for another attempt. -/
def CanAttempt (l : ReplicatedLog) : Prop :=
  ∃ s b next, l.firstOpenSlot = .ok s ∧
    (max l.highestBallot (l.acceptor.promised s)).nextFor l.replica = .ok b ∧
    Word.sum l.nextAttempt 1 = .ok next

/-- Nothing in the actions concerns catching up. -/
def Unrelated (actions : List Action) : Prop :=
  ∀ receiver m, .send receiver m ∈ actions → m.isCatchUp = false

namespace Progress

/-- A stretch in which a replica learns nothing, and says nothing about catching up. -/
structure Aside (l : ReplicatedLog) (q : Progress) : Prop where
  chosen : q.log.chosen = l.chosen
  place : l.SamePlace q.log
  policy : q.log.policy = l.policy
  unrelated : Unrelated q.actions

/-- Whether the attempt that is due, if there is one, has all that it needs and can be charged. -/
def Poised (q : Progress) : Prop :=
  ∀ charge, q.due = some charge →
    q.log.CanAttempt ∧ ∀ p, q.log.active = some p → ∃ n, charge.count p.attempts = .ok n

end Progress

variable {l l' : ReplicatedLog} {q : Progress} {p : Proposal} {s : Slot} {b : Ballot}
  {attempts : UInt32} {charge : Charge} {said more : List Action} {sender : ReplicaId}

theorem Unrelated.append (h : Unrelated said) (h' : Unrelated more) : Unrelated (said ++ more) :=
  fun receiver m hm => (List.mem_append.1 hm).elim (h receiver m) (h' receiver m)

theorem unrelated_sendToPeers {m : Message} (h : m.isCatchUp = false) :
    Unrelated (l.sendToPeers m) := by
  intro receiver m' hm
  rw [eq_of_mem_sendToPeers hm]
  exact h

theorem SamePlace.company (h : l.SamePlace l') (company : 2 ≤ l.topology.quorum) :
    2 ≤ l'.topology.quorum := by
  rw [h.topology]
  exact company

namespace Progress

theorem Aside.refl (l : ReplicatedLog) : Aside l { log := l } :=
  ⟨rfl, ⟨rfl, rfl⟩, rfl, fun _ _ hm => by cases hm⟩

theorem Aside.trans {q' : Progress} (h : Aside l q) (h' : Aside q.log q') :
    Aside l (.after q.actions q') where
  chosen := h'.chosen.trans h.chosen
  place := h.place.trans h'.place
  policy := h'.policy.trans h.policy
  unrelated := h.unrelated.append h'.unrelated

theorem poised_of_done (h : q.due = none) : q.Poised := by
  intro charge hdue
  rw [h] at hdue
  cases hdue

end Progress

open Progress (Aside Poised)

/-! ### Completing -/

theorem promote_aside (l : ReplicatedLog) : Aside l l.promote := by
  unfold promote
  split
  · exact .refl l
  · exact ⟨rfl, ⟨rfl, rfl⟩, rfl, fun _ _ hm => by cases hm⟩

theorem complete_aside (l : ReplicatedLog) (p : Proposal) (result : Except LedgerError Slot) :
    Aside l (l.complete p result) := by
  have hpromote := promote_aside { l with
    active := none, completions := l.completions ++ [⟨p.id, p.command, result⟩] }
  have hcancelled : Unrelated
      [.cancelTimer (.attempt p.attempt), .cancelTimer (.retry p.attempt)] := by
    simp [Unrelated]
  exact ⟨hpromote.chosen, ⟨hpromote.place.topology, hpromote.place.partition⟩, hpromote.policy,
    hcancelled.append hpromote.unrelated⟩

/-- The next submission has had no attempt yet. -/
theorem complete_poised (can : l.CanAttempt) (p : Proposal) (result : Except LedgerError Slot) :
    (l.complete p result).Poised := by
  intro charge hdue
  unfold complete promote at hdue ⊢
  dsimp only [Progress.after] at hdue ⊢
  split at hdue
  · cases hdue
  · next s rest waiting =>
    cases hdue
    refine ⟨can, fun p' hp' => ?_⟩
    cases hp'
    exact ⟨1, rfl⟩

theorem afterLearning_aside (l : ReplicatedLog) : Aside l l.afterLearning := by
  unfold afterLearning
  split
  · exact .refl l
  · split
    · exact complete_aside l _ _
    · split
      · exact ⟨rfl, ⟨rfl, rfl⟩, rfl, fun _ _ hm => by cases hm⟩
      · exact .refl l

theorem afterLearning_poised (can : l.active = none ∨ l.CanAttempt) : l.afterLearning.Poised := by
  unfold afterLearning
  split
  · exact Progress.poised_of_done rfl
  · next p current =>
    have can : l.CanAttempt := can.resolve_left (by rw [current]; exact Option.some_ne_none p)
    split
    · exact complete_poised can p _
    · split
      · intro charge hdue
        cases hdue
        exact ⟨can, fun p' _ => ⟨p'.attempts, rfl⟩⟩
      · exact Progress.poised_of_done rfl

/-! ### Attempts -/

/-- The replica promises to itself, and then waits for the others. -/
theorem exists_requestPromises (company : 2 ≤ l.topology.quorum) (p : Proposal)
    (unpromised : l.acceptor.promised s ≤ b) (attempts : UInt32) (next : Word) :
    ∃ q, l.requestPromises p s b attempts next = .ok q ∧ q.due = none ∧ Aside l q := by
  obtain ⟨acceptor, accepted, kept⟩ : ∃ a accepted,
      (l.reopen p s b attempts next).acceptor.prepare s b = (a, .ok accepted) :=
    ⟨_, _, Acceptor.prepare_eq_ok_iff.2 ⟨unpromised, rfl, rfl⟩⟩
  let opened := (l.reopen p s b attempts next).withAcceptor acceptor
  let waiting := opened.withActive ((p.reopened s b attempts l.nextAttempt).inPhase
    (.preparing ((∅ : SortedMap _ _).insert l.replica accepted)))
  have hpromise : opened.onPromise l.replica s b accepted = .ok { log := waiting } := by
    have hcurrent : (p.reopened s b attempts l.nextAttempt).isCurrent s b = true :=
      Proposal.isCurrent_iff.2 ⟨rfl, rfl⟩
    have hfew : ¬ l.topology.quorum ≤ 1 := by omega
    show (if (p.reopened s b attempts l.nextAttempt).isCurrent s b = true then
      if l.topology.quorum ≤ 1 then _ else _ else _) = _
    rw [if_pos hcurrent, if_neg hfew]
  let said : List Action :=
    [.cancelTimer (.attempt p.attempt), .cancelTimer (.retry p.attempt),
      .setTimer (.attempt l.nextAttempt) l.policy.attemptTimeout] ++
      (l.reopen p s b attempts next).sendToPeers (.prepare b s)
  have hsaid : Unrelated (said ++ []) :=
    .append (.append (by simp [Unrelated]) (unrelated_sendToPeers rfl)) (by simp [Unrelated])
  refine ⟨.after said { log := waiting }, ?_, rfl, ⟨rfl, ⟨rfl, rfl⟩, rfl, hsaid⟩⟩
  unfold requestPromises
  dsimp only
  rw [kept]
  exact bind_eq_ok_iff.2 ⟨_, hpromise, rfl⟩

/-- An attempt succeeds unless there is no slot, no ballot or no number for it. -/
theorem exists_beginAttempt (company : 2 ≤ l.topology.quorum) (can : l.CanAttempt)
    (countable : ∀ p, l.active = some p → ∃ n, charge.count p.attempts = .ok n) :
    ∃ q, l.beginAttempt charge = .ok q ∧ q.Poised := by
  unfold beginAttempt
  split
  · exact ⟨_, rfl, Progress.poised_of_done rfl⟩
  · next p current =>
    split
    · exact ⟨_, rfl, complete_poised can p _⟩
    · obtain ⟨slot, ballot, next, hslot, hballot, hnext⟩ := can
      obtain ⟨attempts, hattempts⟩ := countable p current
      have unpromised : l.acceptor.promised slot ≤ ballot :=
        le_trans (le_max_right _ _) (le_of_lt (Ballot.nextFor_eq_ok hballot).1)
      obtain ⟨q, hq, hdone, _⟩ := exists_requestPromises company p unpromised attempts next
      refine ⟨q, ?_, Progress.poised_of_done hdone⟩
      rw [hslot, bind_eq_ok_iff]
      refine ⟨slot, rfl, bind_eq_ok_iff.2 ⟨ballot, hballot, bind_eq_ok_iff.2 ⟨next, hnext, ?_⟩⟩⟩
      exact bind_eq_ok_iff.2 ⟨attempts, hattempts, hq⟩

theorem beginAttempt_aside (company : 2 ≤ l.topology.quorum) (h : l.beginAttempt charge = .ok q) :
    Aside l q := by
  unfold beginAttempt at h
  split at h
  · cases h
    exact .refl l
  · next p current =>
    split at h
    · cases h
      exact complete_aside l p _
    · obtain ⟨slot, hslot, h⟩ := bind_eq_ok_iff.1 h
      obtain ⟨ballot, hballot, h⟩ := bind_eq_ok_iff.1 h
      obtain ⟨next, _, h⟩ := bind_eq_ok_iff.1 h
      obtain ⟨attempts, _, h⟩ := bind_eq_ok_iff.1 h
      have unpromised : l.acceptor.promised slot ≤ ballot :=
        le_trans (le_max_right _ _) (le_of_lt (Ballot.nextFor_eq_ok hballot).1)
      obtain ⟨q', hq', _, haside⟩ := exists_requestPromises company p unpromised attempts next
      rw [h] at hq'
      cases hq'
      exact haside

/-! ### Attempts that are due -/

theorem pursueUpTo_aside {limit : Nat} (company : 2 ≤ q.log.topology.quorum)
    (h : pursueUpTo limit q = .ok (l', said)) :
    ∃ more, said = q.actions ++ more ∧ Aside q.log { log := l', actions := more } := by
  induction limit generalizing q with
  | zero =>
      cases h
      exact ⟨[], (List.append_nil _).symm, .refl _⟩
  | succ limit ih =>
      unfold pursueUpTo at h
      split at h
      · cases h
        exact ⟨[], (List.append_nil _).symm, .refl _⟩
      · obtain ⟨q', hq', h⟩ := bind_eq_ok_iff.1 h
        have haside := beginAttempt_aside company hq'
        obtain ⟨more, rfl, hmore⟩ :=
          ih (q := .after q.actions q') (haside.place.company company) h
        exact ⟨q'.actions ++ more, List.append_assoc _ _ _, haside.trans hmore⟩

theorem exists_pursueUpTo (limit : Nat) (company : 2 ≤ q.log.topology.quorum) (poised : q.Poised) :
    ∃ r, pursueUpTo limit q = .ok r := by
  induction limit generalizing q with
  | zero => exact ⟨_, rfl⟩
  | succ limit ih =>
      unfold pursueUpTo
      split
      · exact ⟨_, rfl⟩
      · next charge hdue =>
        obtain ⟨can, countable⟩ := poised charge hdue
        obtain ⟨q', hq', hpoised⟩ := exists_beginAttempt company can countable
        have haside := beginAttempt_aside company hq'
        obtain ⟨r, hr⟩ :=
          ih (q := .after q.actions q') (haside.place.company company) hpoised
        exact ⟨r, bind_eq_ok_iff.2 ⟨q', hq', hr⟩⟩

end ReplicatedLog

end ReplicatedLedger
