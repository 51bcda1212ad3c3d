import ReplicatedLedger.Proofs.Consensus.Acceptor
import ReplicatedLedger.Proofs.Consensus.Docket

/-!
The proposer's part of a step, as a chain of moves.  Whenever no further attempt is due, the active
proposal aims at an open slot, so the replica never votes on a slot that it knows to be decided.
-/

namespace ReplicatedLedger

theorem Proposal.isCurrent_iff {p : Proposal} {s : Slot} {b : Ballot} :
    p.isCurrent s b = true ↔ p.slot = s ∧ p.ballot = b := by
  simp [isCurrent]

namespace ReplicatedLog

/-- The active proposal aims at an open slot, and its command has not been chosen elsewhere. -/
def Settled (l : ReplicatedLog) : Prop :=
  ∀ p, l.active = some p →
    l.chosen.get? p.slot = none ∧ l.chosenSince? p.command p.floor = none

variable {heard : ReplicaId → Message → Prop} {wanted : Command → Prop} {l l' l'' : ReplicatedLog}
  {q : Progress} {said : List Action} {p : Proposal} {s : Slot} {b : Ballot}
  {sender receiver : ReplicaId}

theorem settled_of_idle (h : l.active = none) : l.Settled := by
  intro p hp
  rw [h] at hp
  cases hp

theorem Settled.withActive (h : l.Settled) (current : l.active = some p) (phase : Phase) :
    (l.withActive (p.inPhase phase)).Settled := by
  intro p' hp'
  cases hp'
  exact h p current

/-! ### What is sent -/

theorem eq_of_mem_sendTo {receiver peer : ReplicaId} {m m' : Message}
    (h : Action.send receiver m' ∈ l.sendTo peer m) : m' = m := by
  unfold sendTo at h
  split at h
  · cases List.mem_singleton.1 h
    rfl
  · cases h

theorem eq_of_mem_sendToPeers {receiver : ReplicaId} {m m' : Message}
    (h : Action.send receiver m' ∈ l.sendToPeers m) : m' = m := by
  obtain ⟨peer, _, hpeer⟩ := List.mem_flatMap.1 h
  exact eq_of_mem_sendTo hpeer

/-- Whether messages of the replica get to another one.  To itself they always do. -/
def Reaches (l : ReplicatedLog) (receiver : ReplicaId) : Prop :=
  receiver = l.replica ∨ l.partition.reaches receiver = true

/-- Logs of one replica, under one partition. -/
structure SamePlace (l l' : ReplicatedLog) : Prop where
  topology : l'.topology = l.topology
  partition : l'.partition = l.partition

theorem SamePlace.trans (h : l.SamePlace l') (h' : l'.SamePlace l'') : l.SamePlace l'' :=
  ⟨h'.topology.trans h.topology, h'.partition.trans h.partition⟩

theorem SamePlace.reaches_iff (h : l.SamePlace l') : l'.Reaches receiver ↔ l.Reaches receiver := by
  unfold Reaches replica
  rw [h.topology, h.partition]

theorem samePlace_learn (l : ReplicatedLog) (e : LogEntry) : l.SamePlace (l.learn e) := by
  unfold learn
  split <;> exact ⟨rfl, rfl⟩

theorem reaches_of_mem_sendTo {peer : ReplicaId} {m m' : Message}
    (h : Action.send receiver m' ∈ l.sendTo peer m) : l.Reaches receiver := by
  unfold sendTo at h
  split at h
  · next hreach =>
    cases List.mem_singleton.1 h
    simpa [Reaches] using hreach
  · cases h

/-- Actions that a log may ask for as it stands: it sends what it may say to those that it reaches,
and answers no client. -/
structure Tells (l : ReplicatedLog) (said : List Action) : Prop where
  truthful : ∀ receiver m, Action.send receiver m ∈ said → l.MaySay m
  wordless : ∀ id response, Action.respond id response ∉ said
  reachable : ∀ receiver m, Action.send receiver m ∈ said → l.Reaches receiver

theorem Tells.append {more : List Action} (h : l.Tells said) (h' : l.Tells more) :
    l.Tells (said ++ more) where
  truthful receiver m hm := (List.mem_append.1 hm).elim (h.truthful receiver m)
    (h'.truthful receiver m)
  wordless id response hm := (List.mem_append.1 hm).elim (h.wordless id response)
    (h'.wordless id response)
  reachable receiver m hm := (List.mem_append.1 hm).elim (h.reachable receiver m)
    (h'.reachable receiver m)

theorem tells_sendTo {peer : ReplicaId} {m : Message} (h : l'.MaySay m) (same : l.SamePlace l') :
    l'.Tells (l.sendTo peer m) where
  truthful receiver m' hm := by
    rw [eq_of_mem_sendTo hm]
    exact h
  wordless id response := by
    unfold sendTo
    split <;> simp
  reachable receiver m' hm := same.reaches_iff.2 (reaches_of_mem_sendTo hm)

theorem tells_sendToPeers {m : Message} (h : l'.MaySay m) (same : l.SamePlace l') :
    l'.Tells (l.sendToPeers m) where
  truthful receiver m' hm := by
    rw [eq_of_mem_sendToPeers hm]
    exact h
  wordless id response hm := by
    obtain ⟨peer, _, hpeer⟩ := List.mem_flatMap.1 hm
    exact (tells_sendTo h same).wordless id response hpeer
  reachable receiver m' hm := by
    obtain ⟨peer, _, hpeer⟩ := List.mem_flatMap.1 hm
    exact same.reaches_iff.2 (reaches_of_mem_sendTo hpeer)

/-- An acceptor that has just promised may tell of it. -/
theorem maySay_promise {a : Acceptor} {accepted : Option (Ballot × Command)}
    (opened : l.chosen.get? s = none) (kept : l.acceptor.prepare s b = (a, .ok accepted)) :
    (l.withAcceptor a).MaySay (.promise b s accepted) := by
  refine ⟨opened, ?_, ?_⟩
  · show b ≤ a.promised s
    rw [Acceptor.promised_prepare kept, if_pos rfl]
  · show a.accepted s = accepted
    rw [Acceptor.accepted_prepare kept, (Acceptor.prepare_eq_ok_iff.1 kept).2.1]

theorem maySay_accepted {a : Acceptor} {c : Command}
    (kept : l.acceptor.accept s b c = (a, .ok ())) :
    (l.withAcceptor a).MaySay (.accepted b s) := by
  refine ⟨c, ?_⟩
  show _ ∈ a.cast
  rw [Acceptor.cast_accept kept]
  exact List.mem_cons_self

theorem Coherent.maySay_chosen {e : LogEntry} (h : l.Coherent) (known : l.chosen.get? s = some e) :
    l.MaySay (.chosen e) := by
  show l.chosen.get? e.slot = some e
  rw [h.keyed s e known]
  exact known

/-! ### Stretches of a step -/

namespace Progress

/-- A stretch that started at `l` and leaves a settled log unless it leaves an attempt due. -/
structure Follows (heard : ReplicaId → Message → Prop) (wanted : Command → Prop)
    (l : ReplicatedLog) (q : Progress) : Prop where
  moves : Moves heard wanted l q.actions [] q.log
  settled : q.due = none → q.log.Settled
  wordless : ∀ id response, Action.respond id response ∉ q.actions
  keeps : l.Keeps q.log
  place : l.SamePlace q.log
  reachable : ∀ receiver m, Action.send receiver m ∈ q.actions → l.Reaches receiver

namespace Follows

theorem refl (h : l.Settled) : Follows heard wanted l { log := l } :=
  ⟨.refl l, fun _ => h, by simp, .refl l, ⟨rfl, rfl⟩, by simp⟩

theorem trans {q' : Progress} (h : Follows heard wanted l q)
    (h' : Follows heard wanted q.log q') : Follows heard wanted l (.after q.actions q') where
  moves := h.moves.trans h'.moves
  settled := h'.settled
  wordless id response hm :=
    (List.mem_append.1 hm).elim (h.wordless id response) (h'.wordless id response)
  keeps hl docket ha := h'.keeps (hl.moves h.moves) docket (h.keeps hl docket ha)
  place := h.place.trans h'.place
  reachable receiver m hm :=
    (List.mem_append.1 hm).elim (h.reachable receiver m)
      fun hm' => h.place.reaches_iff.1 (h'.reachable receiver m hm')

/-- An attempt is all that is left to do. -/
theorem due (l : ReplicatedLog) (charge : Charge) :
    Follows heard wanted l { log := l, due := some charge } :=
  ⟨.refl l, fun hdue => (by cases hdue), by simp, .refl l, ⟨rfl, rfl⟩, by simp⟩

theorem move (first : Move heard wanted l [] l') (keeps : l.Keeps l') (same : l.SamePlace l')
    (h : Follows heard wanted l' q) : Follows heard wanted l q where
  moves := .move first h.moves
  settled := h.settled
  wordless := h.wordless
  keeps hl docket ha := h.keeps (hl.move first) docket (keeps hl docket ha)
  place := same.trans h.place
  reachable receiver m hm := same.reaches_iff.1 (h.reachable receiver m hm)

theorem after (h : Follows heard wanted l q) (tells : l.Tells said) :
    Follows heard wanted l (.after said q) where
  moves := .say tells.truthful h.moves
  settled := h.settled
  wordless id response hm :=
    (List.mem_append.1 hm).elim (tells.wordless id response) (h.wordless id response)
  keeps := h.keeps
  place := h.place
  reachable receiver m hm :=
    (List.mem_append.1 hm).elim (tells.reachable receiver m) (h.reachable receiver m)

theorem replying {m : Message} {peer : ReplicaId} (h : l.Settled) (hsay : l.MaySay m)
    (same : l'.SamePlace l) : Follows heard wanted l { log := l, actions := l'.sendTo peer m } where
  moves := Moves.saying (tells_sendTo hsay same).truthful
  settled _ := h
  wordless := (tells_sendTo hsay same).wordless
  keeps := .refl l
  place := ⟨rfl, rfl⟩
  reachable := (tells_sendTo hsay same).reachable

end Follows

end Progress

open Progress (Follows)

theorem promote_follows (idle : l.active = none) : Follows heard wanted l l.promote := by
  unfold promote
  split
  · exact .refl (settled_of_idle idle)
  · next first => exact (Follows.due _ _).move (.promote idle first) (keeps_promote idle first) ⟨rfl, rfl⟩

theorem complete_follows {result : Except LedgerError Slot} (current : l.active = some p)
    (found : ∀ s, result = .ok s → l.chosenSince? p.command p.floor = some s)
    (failed : ∀ reason, result = .error reason → reason.isRetryable = true) :
    Follows heard wanted l (l.complete p result) := by
  unfold complete
  refine Follows.after ?_ ⟨by simp, by simp, by simp⟩
  exact (promote_follows rfl).move (.finish current found) (keeps_finish current found failed) ⟨rfl, rfl⟩

/-- A proposal whose command is chosen is complete. -/
theorem complete_ok_follows (current : l.active = some p)
    (since : l.chosenSince? p.command p.floor = some s) :
    Follows heard wanted l (l.complete p (.ok s)) := by
  refine complete_follows current (fun t ht => ?_) (by simp)
  rw [since, Except.ok.inj ht]

/-- A proposal may be given up for want of a majority. -/
theorem complete_error_follows {reason : LedgerError} (current : l.active = some p)
    (retryable : reason.isRetryable = true) :
    Follows heard wanted l (l.complete p (.error reason)) := by
  refine complete_follows current (by simp) fun reason' hreason => ?_
  rw [← Except.error.inj hreason]
  exact retryable

theorem afterLearning_follows (l : ReplicatedLog) : Follows heard wanted l l.afterLearning := by
  unfold afterLearning
  split
  · next idle => exact .refl (settled_of_idle idle)
  · next p current =>
    split
    · next slot hslot => exact complete_ok_follows current hslot
    · next hsince =>
      split
      · exact .due l .free
      · next hopen =>
        refine .refl ?_
        intro p' hp'
        rw [current] at hp'
        cases hp'
        rw [Bool.not_eq_true, SortedMap.contains_eq_false_iff] at hopen
        exact ⟨hopen, hsince⟩

theorem onRefusal_follows {promised : Ballot} (hl : l.Settled)
    (h : l.onRefusal s b promised = .ok q) : Follows heard wanted l q := by
  unfold onRefusal at h
  refine Follows.move (.observe promised) (keeps_observe _ _) ⟨rfl, rfl⟩ ?_
  generalize hlog : l.observe promised = l' at h ⊢
  have hl' : l'.Settled := by rw [← hlog]; exact hl
  dsimp only at h
  split at h
  · cases h
    exact .refl hl'
  · next p current =>
    split at h
    · refine Follows.move (.pause current) (keeps_withActive current rfl) ⟨rfl, rfl⟩ ?_
      split at h
      · cases h
        exact (complete_error_follows rfl rfl).after ⟨by simp, by simp, by simp⟩
      · obtain ⟨pause, _, h⟩ := bind_eq_ok_iff.1 h
        cases h
        exact ⟨Moves.saying (by simp), fun _ => hl'.withActive current .backoff, by simp, .refl _,
          ⟨rfl, rfl⟩, by simp⟩
    · cases h
      exact .refl hl'

/-- The announcement of a majority follows on its last vote. -/
theorem onAcceptance_follows (hl : l.Settled) (told : Told heard l sender (.accepted b s)) :
    Follows heard wanted l (l.onAcceptance sender s b) := by
  unfold onAcceptance
  split
  · exact .refl hl
  · next p current =>
    split
    · next value votes phase =>
      split
      · next hcur =>
        obtain ⟨rfl, rfl⟩ := Proposal.isCurrent_iff.1 hcur
        have counted : Move heard wanted l [] _ := .countVote current phase told
        dsimp only
        split
        · next majority =>
          refine Follows.move counted (keeps_withActive current rfl) ⟨rfl, rfl⟩ ?_
          -- the entry is learned before it is announced, so the announcement is true
          have won : (l.withActive (p.inPhase (.accepting value (votes.insert sender ())))).Wins
              ⟨p.slot, p.ballot, value⟩ := ⟨_, _, rfl, rfl, rfl, rfl, majority⟩
          refine Follows.move (.win won) (keeps_learn _ _) (samePlace_learn _ _) ?_
          refine (afterLearning_follows _).after (tells_sendToPeers ?_ (samePlace_learn _ _))
          have hopen : l.chosen.get? p.slot = none := (hl p current).1
          show (ReplicatedLog.learn _ _).chosen.get? _ = _
          rw [get?_chosen_learn, if_pos ⟨isNews_iff.2 hopen, rfl⟩]
        · exact Follows.move counted (keeps_withActive current rfl) ⟨rfl, rfl⟩
            (.refl (hl.withActive current _))
      · exact .refl hl
    · exact .refl hl

theorem requestAcceptance_follows {promises : SortedMap ReplicaId (Option (Ballot × Command))}
    (hl : l.Settled) (current : l.active = some p) (phase : p.phase = .preparing promises)
    (majority : l.topology.quorum ≤ promises.size)
    (h : l.requestAcceptance p (p.valueFor promises) = .ok q) : Follows heard wanted l q := by
  unfold requestAcceptance at h
  refine Follows.move (.ask current phase majority (hl p current).2) (keeps_withActive current rfl) ⟨rfl, rfl⟩ ?_
  have hl' := hl.withActive current (.accepting (p.valueFor promises) ∅)
  have asks : (l.withActive (p.inPhase (.accepting (p.valueFor promises) ∅))).Asks p.slot p.ballot
      (p.valueFor promises) := ⟨_, _, rfl, rfl, rfl, rfl⟩
  generalize hlog : l.withActive (p.inPhase (.accepting (p.valueFor promises) ∅)) = l' at *
  -- the peers are asked first; then the replica votes for itself
  dsimp only at h
  split at h
  · next acceptor kept =>
    cases h
    refine Follows.after ?_ (tells_sendToPeers asks ⟨rfl, rfl⟩)
    have opened : l'.chosen.get? p.slot = none := by
      rw [← hlog]
      exact (hl p current).1
    refine Follows.move (.vote opened (.inr ⟨rfl, asks⟩) kept) (keeps_withAcceptor _ _) ⟨rfl, rfl⟩ ?_
    exact onAcceptance_follows hl' (.inr ⟨rfl, maySay_accepted kept⟩)
  · next acceptor promised refused =>
    obtain ⟨q', hq', h⟩ := bind_eq_ok_iff.1 h
    cases h
    obtain ⟨rfl, _⟩ := Acceptor.accept_eq_error refused
    exact (onRefusal_follows hl' hq').after (tells_sendToPeers asks ⟨rfl, rfl⟩)

theorem onPromise_follows {accepted : Option (Ballot × Command)} (hl : l.Settled)
    (told : Told heard l sender (.promise b s accepted))
    (h : l.onPromise sender s b accepted = .ok q) : Follows heard wanted l q := by
  unfold onPromise at h
  split at h
  · cases h
    exact .refl hl
  · next p current =>
    split at h
    · next promises phase =>
      split at h
      · next hcur =>
        obtain ⟨rfl, rfl⟩ := Proposal.isCurrent_iff.1 hcur
        refine Follows.move (.countPromise current phase told) (keeps_withActive current rfl) ⟨rfl, rfl⟩ ?_
        have hl' := hl.withActive current (.preparing (promises.insert sender accepted))
        dsimp only at h
        split at h
        · next majority => exact requestAcceptance_follows hl' rfl rfl majority h
        · cases h
          exact .refl hl'
      · cases h
        exact .refl hl
    · cases h
      exact .refl hl

/-- The attempt goes on from the log on which it is on its way. -/
theorem reopen_follows {attempts : UInt32} {next : Word}
    (since : l.chosenSince? p.command p.floor = none) (target : l.firstOpenSlot = .ok s)
    (h : l.requestPromises p s b attempts next = .ok q) :
    Follows heard wanted (l.reopen p s b attempts next) q := by
  unfold requestPromises at h
  have opened : (l.reopen p s b attempts next).chosen.get? s = none :=
    (firstOpenSlot_eq_ok_iff.1 target).2.2
  have hl' : (l.reopen p s b attempts next).Settled := by
    intro p' hp'
    cases hp'
    exact ⟨opened, since⟩
  -- from here on only the reopened log matters, not how it came about
  generalize l.reopen p s b attempts next = l' at *
  have harmless : l'.MaySay (.prepare b s) := trivial
  have tells : l'.Tells
      ([Action.cancelTimer (.attempt p.attempt), .cancelTimer (.retry p.attempt),
        .setTimer (.attempt l.nextAttempt) l.policy.attemptTimeout] ++
        l'.sendToPeers (.prepare b s)) :=
    .append ⟨by simp, by simp, by simp⟩ (tells_sendToPeers harmless ⟨rfl, rfl⟩)
  dsimp only at h
  split at h
  · next acceptor accepted kept =>
    obtain ⟨q', hq', h⟩ := bind_eq_ok_iff.1 h
    cases h
    refine Follows.after ?_ tells
    refine Follows.move (.promise opened kept) (keeps_withAcceptor _ _) ⟨rfl, rfl⟩ ?_
    exact onPromise_follows hl' (.inr ⟨rfl, maySay_promise opened kept⟩) hq'
  · next acceptor promised refused =>
    obtain ⟨q', hq', h⟩ := bind_eq_ok_iff.1 h
    cases h
    obtain ⟨rfl, _⟩ := Acceptor.prepare_eq_error refused
    exact (onRefusal_follows hl' hq').after tells

theorem requestPromises_follows {attempts : UInt32} {next : Word} (current : l.active = some p)
    (since : l.chosenSince? p.command p.floor = none) (target : l.firstOpenSlot = .ok s)
    (unseen : l.highestBallot < b) (unpromised : l.acceptor.promised s < b)
    (own : b.replica = l.replica) (counted : Word.sum l.nextAttempt 1 = .ok next)
    (h : l.requestPromises p s b attempts next = .ok q) : Follows heard wanted l q :=
  (reopen_follows since target h).move
    (.reopen attempts current target unseen unpromised own counted)
    (keeps_reopen current s b attempts next) ⟨rfl, rfl⟩

theorem beginAttempt_follows {charge : Charge} (h : l.beginAttempt charge = .ok q) :
    Follows heard wanted l q := by
  unfold beginAttempt at h
  split at h
  · next idle =>
    cases h
    exact .refl (settled_of_idle idle)
  · next p current =>
    split at h
    · next slot hslot =>
      cases h
      exact complete_ok_follows current hslot
    · next since =>
      obtain ⟨slot, target, h⟩ := bind_eq_ok_iff.1 h
      obtain ⟨ballot, hballot, h⟩ := bind_eq_ok_iff.1 h
      obtain ⟨next, counted, h⟩ := bind_eq_ok_iff.1 h
      obtain ⟨attempts, _, h⟩ := bind_eq_ok_iff.1 h
      obtain ⟨above, own⟩ := Ballot.nextFor_eq_ok hballot
      refine requestPromises_follows current since target ?_ ?_ own counted h
      · exact lt_of_le_of_lt (le_max_left _ _) above
      · exact lt_of_le_of_lt (le_max_right _ _) above

end ReplicatedLog

end ReplicatedLedger
