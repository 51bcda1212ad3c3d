import ReplicatedLedger.Proofs.Consensus.Agreement
import ReplicatedLedger.Proofs.Consensus.Pursuit

/-!
Ballots are never reused.  A replica begins every attempt under a ballot of its own, above all that
it has seen so far: in messages, in the entries that it has learned, and in the promise of its own
acceptor.
-/

namespace ReplicatedLedger

/-- Ballots that ascend, all of them above one ballot and none above another. -/
structure Ballot.Ascend (low : Ballot) (ballots : List Ballot) (high : Ballot) : Prop where
  le : low ≤ high
  pairwise : ballots.Pairwise (· < ·)
  above : ∀ b ∈ ballots, low < b
  within : ∀ b ∈ ballots, b ≤ high

namespace Ballot

variable {low mid high : Ballot} {ballots more : List Ballot}

theorem ascend_nil (h : low ≤ high) : Ascend low [] high :=
  ⟨h, .nil, by simp, by simp⟩

theorem ascend_singleton {b : Ballot} (above : low < b) (within : b ≤ high) :
    Ascend low [b] high :=
  ⟨le_of_lt (lt_of_lt_of_le above within), List.pairwise_singleton _ _, by simpa using above,
    by simpa using within⟩

theorem Ascend.append (h : Ascend low ballots mid) (h' : Ascend mid more high) :
    Ascend low (ballots ++ more) high where
  le := le_trans h.le h'.le
  pairwise := List.pairwise_append.2 ⟨h.pairwise, h'.pairwise,
    fun a ha b hb => lt_of_le_of_lt (h.within a ha) (h'.above b hb)⟩
  above b hb := (List.mem_append.1 hb).elim (h.above b)
    fun hb => lt_of_le_of_lt h.le (h'.above b hb)
  within b hb := (List.mem_append.1 hb).elim (fun hb => le_trans (h.within b hb) h'.le)
    (h'.within b)

end Ballot

namespace ReplicatedLog

/-- An attempt to have a slot decided under a ballot, with the log on which it is begun. -/
structure Attempt where
  log : ReplicatedLog
  slot : Slot
  ballot : Ballot

/-- The attempt that the active proposal would begin.  There is none if its command has been chosen
meanwhile. -/
def attempt? (l : ReplicatedLog) : Option Attempt := do
  let _ ← l.active.filter fun p => (l.chosenSince? p.command p.floor).isNone
  let slot ← l.firstOpenSlot.toOption
  let ballot ← ((max l.highestBallot (l.acceptor.promised slot)).nextFor l.replica).toOption
  return ⟨l, slot, ballot⟩

/-- The attempts begun by a call. -/
def attempts (l : ReplicatedLog) (call : Call) : List Attempt :=
  match l.opening call with
  | .ok q => q.starts.filterMap attempt?
  | .error _ => []

open Progress (Follows Pursuit)

variable {l : ReplicatedLog} {q q' : Progress} {p : Proposal} {call : Call} {reply : Reply}
  {starts : List ReplicatedLog} {a : Attempt} {charge : Charge} {sender : ReplicaId} {m : Message}
  {s : Slot} {b : Ballot} {e : LogEntry} {batch : List LogEntry}

theorem attempt?_eq_some_iff : l.attempt? = some a ↔
    ∃ p, l.active = some p ∧ l.chosenSince? p.command p.floor = none ∧
      l.firstOpenSlot = .ok a.slot ∧
      (max l.highestBallot (l.acceptor.promised a.slot)).nextFor l.replica = .ok a.ballot ∧
      a.log = l := by
  unfold attempt?
  simp only [Option.bind_eq_bind, Option.bind_eq_some_iff, Option.filter_eq_some_iff,
    Option.isNone_iff_eq_none, toOption_eq_some_iff]
  constructor
  · rintro ⟨p, ⟨current, since⟩, slot, target, ballot, hballot, h⟩
    cases h
    exact ⟨p, current, since, target, hballot, rfl⟩
  · rintro ⟨p, current, since, target, hballot, rfl⟩
    exact ⟨p, ⟨current, since⟩, a.slot, target, a.ballot, hballot, rfl⟩

/-- To begin an attempt is to ask for promises under its ballot.  Without one, the active proposal
is complete, or there is none. -/
theorem beginAttempt_cases (h : l.beginAttempt charge = .ok q) :
    (∃ a p attempts next, l.attempt? = some a ∧ l.active = some p ∧
      l.chosenSince? p.command p.floor = none ∧ Word.sum l.nextAttempt 1 = .ok next ∧
      l.requestPromises p a.slot a.ballot attempts next = .ok q) ∨
    l.attempt? = none ∧ (q = { log := l } ∨ ∃ p s, q = l.complete p (.ok s)) := by
  unfold beginAttempt at h
  split at h
  · next idle =>
    cases h
    refine .inr ⟨?_, .inl rfl⟩
    simp [attempt?, idle]
  · next p current =>
    split at h
    · next s since =>
      cases h
      refine .inr ⟨?_, .inr ⟨p, s, rfl⟩⟩
      simp [attempt?, current, since]
    · next since =>
      obtain ⟨slot, target, h⟩ := bind_eq_ok_iff.1 h
      obtain ⟨ballot, hballot, h⟩ := bind_eq_ok_iff.1 h
      obtain ⟨next, counted, h⟩ := bind_eq_ok_iff.1 h
      obtain ⟨attempts, _, h⟩ := bind_eq_ok_iff.1 h
      have hattempt : l.attempt? = some ⟨l, slot, ballot⟩ :=
        attempt?_eq_some_iff.2 ⟨p, current, since, target, hballot, rfl⟩
      exact .inl ⟨_, p, attempts, next, hattempt, current, since, counted, h⟩

/-! ### The numbers of attempts -/

@[simp] theorem nextAttempt_observe (l : ReplicatedLog) (b : Ballot) :
    (l.observe b).nextAttempt = l.nextAttempt := rfl

@[simp] theorem nextAttempt_withActive (l : ReplicatedLog) (p : Proposal) :
    (l.withActive p).nextAttempt = l.nextAttempt := rfl

@[simp] theorem nextAttempt_withAcceptor (l : ReplicatedLog) (acceptor : Acceptor) :
    (l.withAcceptor acceptor).nextAttempt = l.nextAttempt := rfl

@[simp] theorem nextAttempt_reopen (l : ReplicatedLog) (p : Proposal) (s : Slot) (b : Ballot)
    (attempts : UInt32) (next : Word) : (l.reopen p s b attempts next).nextAttempt = next := rfl

@[simp] theorem nextAttempt_learn (l : ReplicatedLog) (e : LogEntry) :
    (l.learn e).nextAttempt = l.nextAttempt := by
  unfold learn
  split <;> simp

@[simp] theorem nextAttempt_foldl_learn (l : ReplicatedLog) (batch : List LogEntry) :
    (batch.foldl learn l).nextAttempt = l.nextAttempt := by
  induction batch generalizing l with
  | nil => rfl
  | cons e batch ih => simp [ih]

@[simp] theorem log_after (said : List Action) (q : Progress) :
    (Progress.after said q).log = q.log := rfl

@[simp] theorem nextAttempt_promote (l : ReplicatedLog) :
    l.promote.log.nextAttempt = l.nextAttempt := by
  unfold promote
  split <;> simp

@[simp] theorem nextAttempt_complete (l : ReplicatedLog) (p : Proposal)
    (result : Except LedgerError Slot) : (l.complete p result).log.nextAttempt = l.nextAttempt := by
  simp [complete]

@[simp] theorem nextAttempt_afterLearning (l : ReplicatedLog) :
    l.afterLearning.log.nextAttempt = l.nextAttempt := by
  unfold afterLearning
  split
  · simp
  · split
    · simp
    · split <;> simp

theorem nextAttempt_onRefusal {promised : Ballot} (h : l.onRefusal s b promised = .ok q) :
    q.log.nextAttempt = l.nextAttempt := by
  simp only [onRefusal] at h
  split at h
  · cases h
    simp
  · split at h
    · split at h
      · cases h
        simp
      · obtain ⟨pause, _, h⟩ := bind_eq_ok_iff.1 h
        cases h
        simp
    · cases h
      simp

@[simp] theorem nextAttempt_onAcceptance (l : ReplicatedLog) (sender : ReplicaId) (s : Slot)
    (b : Ballot) : (l.onAcceptance sender s b).log.nextAttempt = l.nextAttempt := by
  simp only [onAcceptance]
  split
  · simp
  · split
    · split
      · split <;> simp
      · simp
    · simp

theorem nextAttempt_requestAcceptance {value : Command} (h : l.requestAcceptance p value = .ok q) :
    q.log.nextAttempt = l.nextAttempt := by
  simp only [requestAcceptance] at h
  split at h
  · cases h
    simp
  · obtain ⟨q', hq', h⟩ := bind_eq_ok_iff.1 h
    cases h
    simp [nextAttempt_onRefusal hq']

theorem nextAttempt_onPromise {accepted : Option (Ballot × Command)}
    (h : l.onPromise sender s b accepted = .ok q) : q.log.nextAttempt = l.nextAttempt := by
  simp only [onPromise] at h
  split at h
  · cases h
    simp
  · split at h
    · split at h
      · split at h
        · simp [nextAttempt_requestAcceptance h]
        · cases h
          simp
      · cases h
        simp
    · cases h
      simp

/-- An attempt on its way has taken up its number. -/
theorem nextAttempt_requestPromises {attempts : UInt32} {next : Word}
    (h : l.requestPromises p s b attempts next = .ok q) : q.log.nextAttempt = next := by
  simp only [requestPromises] at h
  split at h
  · obtain ⟨q', hq', h⟩ := bind_eq_ok_iff.1 h
    cases h
    simp [nextAttempt_onPromise hq']
  · obtain ⟨q', hq', h⟩ := bind_eq_ok_iff.1 h
    cases h
    simp [nextAttempt_onRefusal hq']

theorem nextAttempt_beginAttempt (h : l.beginAttempt charge = .ok q) :
    q.log.nextAttempt.toNat = l.nextAttempt.toNat + l.attempt?.toList.length := by
  rcases beginAttempt_cases h with
    ⟨a, p, attempts, next, hattempt, _, _, counted, hrequest⟩ | ⟨hnone, hdone⟩
  · rw [hattempt, nextAttempt_requestPromises hrequest]
    exact Word.sum_one_eq_ok_iff.1 counted
  · rcases hdone with rfl | ⟨p, s, rfl⟩ <;> simp [hnone]

theorem nextAttempt_onMessage (h : l.onMessage sender m = .ok q) :
    q.log.nextAttempt = l.nextAttempt := by
  simp only [onMessage] at h
  split at h
  · cases m with
    | prepare b s =>
        cases h
        simp only [answerPrepare]
        split <;> simp
    | promise b s accepted => cases accepted <;> simp [nextAttempt_onPromise h]
    | accept b s c =>
        cases h
        simp only [answerAccept]
        split <;> simp
    | accepted b s =>
        cases h
        simp
    | nack b s promised => exact nextAttempt_onRefusal h
    | chosen e =>
        obtain ⟨requests, _, rfl⟩ := map_eq_ok_iff.1 h
        simp
    | catchUpRequest start =>
        cases h
        simp only [onCatchUpRequest]
        split <;> simp
    | catchUpResponse batch =>
        obtain ⟨requests, _, rfl⟩ := map_eq_ok_iff.1 h
        simp
  · cases h
    simp

theorem nextAttempt_onTimer (l : ReplicatedLog) (t : Timer) :
    (l.onTimer t).log.nextAttempt = l.nextAttempt := by
  unfold onTimer
  split
  · simp
  · split
    · split
      · split <;> simp
      · simp
    · split <;> simp

/-- No attempt is begun in the opening of a call. -/
theorem nextAttempt_opening (h : l.opening call = .ok q) : q.log.nextAttempt = l.nextAttempt := by
  cases call with
  | propose c =>
      obtain ⟨next, _, rfl⟩ := map_eq_ok_iff.1 h
      unfold begun
      split <;> simp [submitted]
  | deliver sender m => exact nextAttempt_onMessage h
  | expire t =>
      cases h
      exact nextAttempt_onTimer l t
  | drainApplicable =>
      obtain ⟨reply, hanswer, rfl⟩ := map_eq_ok_iff.1 h
      obtain ⟨⟨log, ready⟩, hdrain, rfl⟩ := map_eq_ok_iff.1 hanswer
      obtain ⟨stop, _, rfl⟩ := drainApplicable_eq_ok hdrain
      rfl
  | requestCatchUp =>
      obtain ⟨reply, hanswer, rfl⟩ := map_eq_ok_iff.1 h
      obtain ⟨said, _, rfl⟩ := map_eq_ok_iff.1 hanswer
      rfl
  | takeCompletions | repartition =>
      cases h
      rfl

/-! ### The ballots of attempts -/

/-- The ballot of an attempt is above all that the replica has seen or promised. -/
theorem lt_ballot_of_attempt? (h : l.attempt? = some a) :
    l.highestBallot < a.ballot ∧ l.acceptor.promised a.slot < a.ballot ∧
      a.ballot.replica = l.replica := by
  obtain ⟨_, _, _, _, hballot, _⟩ := attempt?_eq_some_iff.1 h
  obtain ⟨above, own⟩ := Ballot.nextFor_eq_ok hballot
  exact ⟨lt_of_le_of_lt (le_max_left _ _) above, lt_of_le_of_lt (le_max_right _ _) above, own⟩

/-- A ballot counts as seen once its attempt is begun. -/
theorem beginAttempt_ascend (h : l.beginAttempt charge = .ok q) :
    Ballot.Ascend l.highestBallot (l.attempt?.toList.map (·.ballot)) q.log.highestBallot := by
  rcases beginAttempt_cases h with
    ⟨a, p, attempts, next, hattempt, _, since, _, hrequest⟩ | ⟨hnone, _⟩
  · obtain ⟨_, _, _, target, _, _⟩ := attempt?_eq_some_iff.1 hattempt
    have hfollows : Follows (fun _ _ => True) (fun _ => True)
        (l.reopen p a.slot a.ballot attempts next) q := reopen_follows since target hrequest
    rw [hattempt]
    refine Ballot.ascend_singleton (lt_ballot_of_attempt? hattempt).1 ?_
    exact le_trans (le_max_right l.highestBallot _) hfollows.moves.grows.highestBallot
  · have hfollows : Follows (fun _ _ => True) (fun _ => True) l q := beginAttempt_follows h
    rw [hnone]
    exact Ballot.ascend_nil hfollows.moves.grows.highestBallot

namespace Progress.Pursuit

theorem ascend (h : q.Pursuit starts q') :
    Ballot.Ascend q.log.highestBallot ((starts.filterMap attempt?).map (·.ballot))
      q'.log.highestBallot := by
  induction h with
  | rest => exact Ballot.ascend_nil (le_refl _)
  | attempt due begun later ih =>
      rw [List.filterMap_eq_flatMap_toList] at ih ⊢
      rw [List.flatMap_cons, List.map_append]
      exact (beginAttempt_ascend begun).append ih

theorem topology_eq (h : q.Pursuit starts q') : ∀ l ∈ starts, l.topology = q.log.topology := by
  induction h with
  | rest => simp
  | @attempt q q' _ _ _ due begun later ih =>
      have hfollows : Follows (fun _ _ => True) (fun _ => True) q.log q' :=
        beginAttempt_follows begun
      refine List.forall_mem_cons.2 ⟨rfl, fun l hl => ?_⟩
      exact (ih l hl).trans hfollows.place.topology

/-- Attempts are numbered one after another. -/
theorem numbers (h : q.Pursuit starts q') :
    (starts.filterMap attempt?).map (·.log.nextAttempt.toNat) =
        List.range' q.log.nextAttempt.toNat (starts.filterMap attempt?).length ∧
      q'.log.nextAttempt.toNat =
        q.log.nextAttempt.toNat + (starts.filterMap attempt?).length := by
  induction h with
  | rest => exact ⟨rfl, rfl⟩
  | @attempt q q' _ _ _ due begun later ih =>
      rw [log_after, nextAttempt_beginAttempt begun] at ih
      cases hattempt : q.log.attempt? with
      | none =>
          rw [hattempt] at ih
          rw [List.filterMap_cons_none hattempt]
          exact ih
      | some a =>
          rw [hattempt, Option.toList_some, List.length_singleton] at ih
          obtain ⟨_, _, _, _, _, hlog⟩ := attempt?_eq_some_iff.1 hattempt
          rw [List.filterMap_cons_some hattempt]
          refine ⟨?_, ?_⟩
          · rw [List.map_cons, hlog, ih.1, List.length_cons, List.range'_succ]
          · rw [ih.2, List.length_cons]
            omega

end Progress.Pursuit

/-! ### The ballots of messages -/

/-- The ballots that a message shows to a log.  Those of chosen entries count as far as the log
learns the entries. -/
inductive Shows (l : ReplicatedLog) : Message → Ballot → Prop
  | prepare (b : Ballot) (s : Slot) : Shows l (.prepare b s) b
  | promise (b : Ballot) (s : Slot) (vote : Ballot × Command) :
      Shows l (.promise b s (some vote)) vote.1
  | accept (b : Ballot) (s : Slot) (c : Command) : Shows l (.accept b s c) b
  | nack (b : Ballot) (s : Slot) (promised : Ballot) : Shows l (.nack b s promised) promised
  | entry {m : Message} {before later : List LogEntry} {e : LogEntry}
      (carried : m.entries = before ++ e :: later)
      (learned : (before.foldl learn l).isNews e = true) : Shows l m e.ballot

/-- The ballots that a log sees in a call: those in a message, if it hears the sender. -/
def Sees (l : ReplicatedLog) (call : Call) (b : Ballot) : Prop :=
  ∃ sender m, call = .deliver sender m ∧ l.hears sender = true ∧ l.Shows m b

theorem observe_observe (l : ReplicatedLog) (b : Ballot) :
    (l.observe b).observe b = l.observe b := by
  unfold observe
  rw [max_assoc, max_self]

theorem grows_foldl_learn (l : ReplicatedLog) (batch : List LogEntry) :
    l.Grows (batch.foldl learn l) := by
  induction batch generalizing l with
  | nil => exact .refl l
  | cons e batch ih => exact (Grows.learn l e).trans (ih _)

theorem le_highestBallot_learn (hnews : l.isNews e = true) :
    e.ballot ≤ (l.learn e).highestBallot := by
  unfold learn
  rw [if_pos hnews]
  exact le_max_right _ _

/-- The entries that are learned one after another leave no ballot above the highest. -/
theorem le_highestBallot_foldl_learn {before later : List LogEntry}
    (carried : batch = before ++ e :: later) (learned : (before.foldl learn l).isNews e = true) :
    e.ballot ≤ (batch.foldl learn l).afterLearning.log.highestBallot := by
  have hfollows : Follows (fun _ _ => True) (fun _ => True) _
      (batch.foldl learn l).afterLearning := afterLearning_follows _
  refine le_trans ?_ hfollows.moves.grows.highestBallot
  rw [carried, List.foldl_append, List.foldl_cons]
  exact le_trans (le_highestBallot_learn learned) (grows_foldl_learn _ later).highestBallot

theorem le_highestBallot_onMessage (hl : l.Settled) (hears : l.hears sender = true)
    (shows : l.Shows m b) (h : l.onMessage sender m = .ok q) : b ≤ q.log.highestBallot := by
  unfold onMessage at h
  rw [if_pos hears] at h
  cases shows with
  | prepare b s =>
      cases h
      unfold answerPrepare
      dsimp only
      split <;> exact le_max_right _ _
  | promise b s vote =>
      have hfollows : Follows (fun _ _ => True) (fun _ => True) (l.observe vote.1) q :=
        onPromise_follows hl (.inl trivial) h
      exact le_trans (le_max_right _ _) hfollows.moves.grows.highestBallot
  | accept b s c =>
      cases h
      unfold answerAccept
      dsimp only
      split <;> exact le_max_right _ _
  | nack refused s =>
      have hrefusal : (l.observe b).onRefusal s refused b = .ok q := by
        unfold onRefusal
        rw [observe_observe]
        exact h
      have hfollows : Follows (fun _ _ => True) (fun _ => True) (l.observe b) q :=
        onRefusal_follows hl hrefusal
      exact le_trans (le_max_right _ _) hfollows.moves.grows.highestBallot
  | @entry _ before later e' carried learned =>
      cases m with
      | chosen e =>
          obtain ⟨requests, _, rfl⟩ := map_eq_ok_iff.1 h
          have hle : e'.ballot ≤ ([e].foldl learn l).afterLearning.log.highestBallot :=
            le_highestBallot_foldl_learn carried learned
          exact hle
      | catchUpResponse batch =>
          obtain ⟨requests, _, rfl⟩ := map_eq_ok_iff.1 h
          exact le_highestBallot_foldl_learn carried learned
      | _ => simp [Message.entries] at carried

/-! ### Calls -/

/-- A call that returns has begun all of its attempts. -/
theorem exists_pursuit_of_answer (hl : l.Coherent) (hs : l.Settled)
    (h : l.answer call = .ok reply) :
    ∃ q q', l.opening call = .ok q ∧ q.Pursuit q.starts q' ∧ q'.log = reply.log := by
  have hanswer := l.answer_eq_pursue call
  rw [h] at hanswer
  obtain ⟨q, hopening, hpursue⟩ := bind_eq_ok_iff.1 hanswer.symm
  obtain ⟨q', hpursuit, hends⟩ := exists_pursuit (opening_coherent hl hs hopening)
  rw [hpursue] at hends
  generalize hreturned : Except.ok (reply.log, reply.actions) = returned at hends
  cases hends with
  | done =>
      obtain ⟨hlog, _⟩ := Prod.mk.inj (Except.ok.inj hreturned)
      exact ⟨q, q', hopening, hpursuit, hlog.symm⟩
  | fault => cases hreturned

/-- How a call uses ballots.  Its attempts go on from what the log has seen and numbered before. -/
structure Spends (l : ReplicatedLog) (call : Call) (l' : ReplicatedLog) : Prop where
  ascend : Ballot.Ascend l.highestBallot ((l.attempts call).map (·.ballot)) l'.highestBallot
  seen : ∀ b, l.Sees call b → b ≤ l'.highestBallot ∧ ∀ a ∈ l.attempts call, b < a.ballot
  placed : ∀ a ∈ l.attempts call, a.log.topology = l.topology
  numbered : (l.attempts call).map (·.log.nextAttempt.toNat) =
      List.range' l.nextAttempt.toNat (l.attempts call).length ∧
    l'.nextAttempt.toNat = l.nextAttempt.toNat + (l.attempts call).length

theorem attempts_of_opening (h : l.opening call = .ok q) :
    l.attempts call = q.starts.filterMap attempt? := by
  unfold attempts
  rw [h]

theorem opening_sees (hs : l.Settled) (h : l.opening call = .ok q) (hsees : l.Sees call b) :
    b ≤ q.log.highestBallot := by
  obtain ⟨sender, m, rfl, hears, shows⟩ := hsees
  exact le_highestBallot_onMessage hs hears shows h

theorem answer_spends (hl : l.Coherent) (hs : l.Settled) (h : l.answer call = .ok reply) :
    l.Spends call reply.log := by
  obtain ⟨q, q', hopening, hpursuit, hlog⟩ := exists_pursuit_of_answer hl hs h
  obtain ⟨_, hmoves⟩ := opening_moves hl hs hopening
  have hascend := hpursuit.ascend
  have hnumbers := hpursuit.numbers
  rw [← attempts_of_opening hopening, hlog] at hascend hnumbers
  refine ⟨(Ballot.ascend_nil hmoves.grows.highestBallot).append hascend, fun b hsees => ?_,
    fun a ha => ?_, ?_⟩
  · have hle : b ≤ q.log.highestBallot := opening_sees hs hopening hsees
    exact ⟨le_trans hle hascend.le,
      fun a ha => lt_of_le_of_lt hle (hascend.above _ (List.mem_map_of_mem ha))⟩
  · rw [attempts_of_opening hopening] at ha
    obtain ⟨start, hstart, ha⟩ := List.mem_filterMap.1 ha
    obtain ⟨_, _, _, _, _, hlog⟩ := attempt?_eq_some_iff.1 ha
    rw [hlog, hpursuit.topology_eq start hstart, hmoves.grows.topology]
  · rw [nextAttempt_opening hopening] at hnumbers
    exact hnumbers

theorem attempt?_of_mem (h : a ∈ l.attempts call) : a.log.attempt? = some a := by
  unfold attempts at h
  split at h
  · obtain ⟨start, _, ha⟩ := List.mem_filterMap.1 h
    obtain ⟨_, _, _, _, _, rfl⟩ := attempt?_eq_some_iff.1 ha
    exact ha
  · cases h

end ReplicatedLog

namespace Group

open ReplicatedLog (Attempt)

/-- What becomes of the group in a turn. -/
def Turn.carriedOut (w : World ReplicatedLog) (t : Turn) : World ReplicatedLog :=
  w.update t.replica t.reply.log t.reply.actions

/-- The attempts begun in some turns, one after another. -/
def attemptsFrom (w : World ReplicatedLog) : List Turn → List Attempt
  | [] => []
  | t :: later => (w.machine t.replica).attempts t.call ++ attemptsFrom (t.carriedOut w) later

variable (g : Group)

/-- The group after some turns. -/
def after (turns : List Turn) : World ReplicatedLog := turns.foldl Turn.carriedOut g.start

def attempts (turns : List Turn) : List Attempt := attemptsFrom g.start turns

/-- The attempts that a replica has begun. -/
def attemptsOf (turns : List Turn) (r : ReplicaId) : List Attempt :=
  (g.attempts turns).filter (·.log.replica = r)

/-- Whether a replica has seen a ballot in one of the turns. -/
def SeenIn (turns : List Turn) (r : ReplicaId) (b : Ballot) : Prop :=
  ∃ earlier t later, turns = earlier ++ t :: later ∧ t.replica = r ∧
    ((g.after earlier).machine r).Sees t.call b

variable {g} {turns : List Turn} {t : Turn} {w : World ReplicatedLog} {r : ReplicaId} {b : Ballot}
  {a : Attempt}

theorem attemptsFrom_concat : attemptsFrom w (turns ++ [t]) =
    attemptsFrom w turns ++
      ((turns.foldl Turn.carriedOut w).machine t.replica).attempts t.call := by
  induction turns generalizing w with
  | nil => simp [attemptsFrom]
  | cons first turns ih =>
      rw [List.cons_append, attemptsFrom, ih, attemptsFrom, List.append_assoc, List.foldl_cons]

theorem Run.after_eq (hrun : g.Run g.start turns w) : g.after turns = w := by
  induction hrun with
  | rest => rfl
  | turn before taken ih =>
      unfold after at ih ⊢
      rw [List.foldl_append, ih]
      rfl

theorem Run.attempts_concat (hrun : g.Run g.start turns w) :
    g.attempts (turns ++ [t]) = g.attempts turns ++ (w.machine t.replica).attempts t.call := by
  unfold attempts
  rw [attemptsFrom_concat, show turns.foldl Turn.carriedOut g.start = w from hrun.after_eq]

theorem Takes.spends (h : g.Steady w) (ht : g.Takes w t) :
    (w.machine t.replica).Spends t.call t.reply.log :=
  ReplicatedLog.answer_spends (h.coherent _) (h.settled _) ht.answered

theorem Steady.replica_eq (h : g.Steady w) (r : ReplicaId) : (w.machine r).replica = r := by
  unfold ReplicatedLog.replica
  rw [h.sound.placed r]
  rfl

/-- Every replica begins its own attempts. -/
theorem Takes.replica_eq (h : g.Steady w) (ht : g.Takes w t)
    (ha : a ∈ (w.machine t.replica).attempts t.call) : a.log.replica = t.replica := by
  rw [← h.replica_eq t.replica]
  exact congrArg Topology.replica ((ht.spends h).placed a ha)

theorem Run.attemptsOf_concat (hrun : g.Run g.start turns w) (ht : g.Takes w t) (r : ReplicaId) :
    g.attemptsOf (turns ++ [t]) r = g.attemptsOf turns r ++
      if t.replica = r then (w.machine t.replica).attempts t.call else [] := by
  have hown : ∀ a ∈ (w.machine t.replica).attempts t.call, a.log.replica = t.replica :=
    fun a ha => ht.replica_eq (hrun.steady g.steady_start) ha
  unfold attemptsOf
  rw [hrun.attempts_concat, List.filter_append]
  congr 1
  split
  · next hr => exact List.filter_eq_self.2 fun a ha => by simp [hown a ha, hr]
  · next hr => exact List.filter_eq_nil_iff.2 fun a ha => by simp [hown a ha, hr]

namespace Run

/-- The ballots of a replica ascend, and its attempts are numbered from zero on. -/
theorem spends (hrun : g.Run g.start turns w) (r : ReplicaId) :
    Ballot.Ascend .zero ((g.attemptsOf turns r).map (·.ballot)) (w.machine r).highestBallot ∧
      (g.attemptsOf turns r).map (·.log.nextAttempt.toNat) =
        List.range (w.machine r).nextAttempt.toNat := by
  induction hrun with
  | rest => exact ⟨Ballot.ascend_nil (le_refl _), rfl⟩
  | @turn turns t w' before taken ih =>
      obtain ⟨hascend, hnumbers⟩ := ih
      rw [before.attemptsOf_concat taken]
      split
      · next hr =>
        subst hr
        have hspends := taken.spends (before.steady g.steady_start)
        obtain ⟨hmore, hnext⟩ := hspends.numbered
        rw [World.machine_update_self]
        refine ⟨?_, ?_⟩
        · rw [List.map_append]
          exact hascend.append hspends.ascend
        · rw [List.map_append, hnumbers, hmore, hnext, List.range_eq_range', List.range_eq_range',
            ← List.range'_append_1, Nat.zero_add]
      · next hr =>
        rw [List.append_nil, World.machine_update_of_ne (Ne.symm hr)]
        exact ⟨hascend, hnumbers⟩

theorem le_highestBallot_of_seenIn (hrun : g.Run g.start turns w) (hseen : g.SeenIn turns r b) :
    b ≤ (w.machine r).highestBallot := by
  obtain ⟨earlier, t, later, hturns, rfl, hsees⟩ := hseen
  obtain ⟨w₀, before, taken, after⟩ := hrun.interrupt hturns
  have hsteady := before.steady g.steady_start
  rw [before.after_eq] at hsees
  have hle := ((taken.spends hsteady).seen b hsees).1
  have hgrows := after.grows ((Run.turn before taken).steady g.steady_start) t.replica
  rw [World.machine_update_self] at hgrows
  exact le_trans hle hgrows.highestBallot

theorem attempt?_of_mem (hrun : g.Run g.start turns w) (ha : a ∈ g.attempts turns) :
    a.log.attempt? = some a := by
  induction hrun with
  | rest => cases ha
  | turn before taken ih =>
      rw [before.attempts_concat] at ha
      exact (List.mem_append.1 ha).elim ih ReplicatedLog.attempt?_of_mem

theorem replica_ballot (hrun : g.Run g.start turns w) (ha : a ∈ g.attempts turns) :
    a.ballot.replica = a.log.replica :=
  (ReplicatedLog.lt_ballot_of_attempt? (hrun.attempt?_of_mem ha)).2.2

end Run

variable (g) in
/-- How the members of a group use their ballots. -/
structure SpendsBallots (turns : List Turn) (w : World ReplicatedLog) : Prop where
  /-- No ballot is that of two attempts. -/
  distinct : ((g.attempts turns).map (·.ballot)).Nodup
  /-- The ballots of one replica ascend. -/
  ascending : ∀ r, ((g.attemptsOf turns r).map (·.ballot)).Pairwise (· < ·)
  /-- All attempts are there: those that a replica has numbered, in order. -/
  numbered : ∀ r, (g.attemptsOf turns r).map (·.log.nextAttempt.toNat) =
    List.range (w.machine r).nextAttempt.toNat
  /-- The ballot of an attempt is above all that its replica saw in earlier turns, and in the
  message on which it begins the attempt. -/
  fresh : ∀ earlier t later, turns = earlier ++ t :: later →
    ∀ a ∈ ((g.after earlier).machine t.replica).attempts t.call, ∀ b,
      g.SeenIn earlier t.replica b ∨ ((g.after earlier).machine t.replica).Sees t.call b →
        b < a.ballot
  /-- It is above the promise of the own acceptor, which therefore promises it. -/
  promised : ∀ a ∈ g.attempts turns, a.log.acceptor.promised a.slot < a.ballot ∧
    ∃ acceptor accepted, a.log.acceptor.prepare a.slot a.ballot = (acceptor, .ok accepted)
  /-- All who are asked to accept a value on a slot under a ballot are asked to accept the same. -/
  single : ∀ s b c c', Asked w s b c → Asked w s b c' → c = c'

/-- No attempt is begun under a ballot that was used before, or seen. -/
theorem ballots_never_reused (hrun : g.Run g.start turns w) : g.SpendsBallots turns w where
  distinct := by
    rw [List.Nodup, List.pairwise_map, List.pairwise_iff_forall_sublist]
    intro a a' hpair heq
    -- attempts under one ballot are of one replica, the owner of the ballot
    have hreplica : a'.log.replica = a.log.replica := by
      rw [← hrun.replica_ballot (hpair.subset (List.mem_cons_of_mem _ List.mem_cons_self)), ← heq,
        hrun.replica_ballot (hpair.subset List.mem_cons_self)]
    have hascend := (hrun.spends a.log.replica).1.pairwise
    unfold attemptsOf at hascend
    rw [List.pairwise_map, List.pairwise_filter, List.pairwise_iff_forall_sublist] at hascend
    exact absurd heq (ne_of_lt (hascend hpair (by simp) (by simpa using hreplica)))
  ascending r := (hrun.spends r).1.pairwise
  numbered r := (hrun.spends r).2
  fresh earlier t later hturns a ha b hseen := by
    obtain ⟨w₀, before, taken, _⟩ := hrun.interrupt hturns
    rw [before.after_eq] at ha hseen
    have hspends := taken.spends (before.steady g.steady_start)
    rcases hseen with hseen | hsees
    · exact lt_of_le_of_lt (before.le_highestBallot_of_seenIn hseen)
        (hspends.ascend.above _ (List.mem_map_of_mem ha))
    · exact (hspends.seen b hsees).2 a ha
  promised a ha := by
    obtain ⟨_, hpromised, _⟩ := ReplicatedLog.lt_ballot_of_attempt? (hrun.attempt?_of_mem ha)
    exact ⟨hpromised, _, _, Acceptor.prepare_eq_ok_iff.2 ⟨le_of_lt hpromised, rfl, rfl⟩⟩
  single := (hrun.steady g.steady_start).sound.unique

/-- The second replica makes its own attempt after it has promised the first one's, which in the
meantime goes on to another. -/
def overtaking : List (ReplicaId × ReplicatedLog.Call) :=
  [(⟨1⟩, .propose (.commit ⟨7⟩)), (⟨2⟩, .deliver ⟨1⟩ (.prepare ⟨1, ⟨1⟩⟩ .first)),
    (⟨2⟩, .propose (.abort ⟨7⟩)), (⟨1⟩, .expire (.attempt 0))]

/-- Two replicas that do not hear of each other's last attempt begin attempts of the same round,
still under different ballots. -/
theorem ballots_never_reused_pair : ∃ turns w, pair.Run pair.start turns w ∧
    (pair.attempts turns).map (·.ballot) = [⟨1, ⟨1⟩⟩, ⟨2, ⟨2⟩⟩, ⟨2, ⟨1⟩⟩] ∧
      pair.SpendsBallots turns w := by
  have hrun := pair.run_callAll pair.start overtaking
  exact ⟨_, _, hrun, by decide +kernel, ballots_never_reused hrun⟩

end Group

end ReplicatedLedger
