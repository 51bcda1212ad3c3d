import ReplicatedLedger.Proofs.Consensus.Agreement

/-!
Entries come in any order, one by one or in batches, and more than once.  What a log hands out in
the end depends only on which entries they are.
-/

namespace ReplicatedLedger

/-- Whether the slot is not the last one that there is. -/
def Slot.HasNext (s : Slot) : Prop := ∃ n, s.next = .ok n

namespace ReplicatedLog

/-- Makes calls one after another, and puts together what they hand out. -/
def answerAll (l : ReplicatedLog) : List Call → Except Fault (ReplicatedLog × List LogEntry)
  | [] => .ok (l, [])
  | call :: rest => do
    let reply ← l.answer call
    let (log, more) ← reply.log.answerAll rest
    return (log, reply.ready ++ more)

/-- The entries that a call brings. -/
def Call.entries : Call → List LogEntry
  | .deliver _ m => m.entries
  | _ => []

/-- A call that brings entries from a peer, or hands out what has become applicable. -/
inductive Informs (l : ReplicatedLog) : Call → Prop
  | chosen {sender : ReplicaId} {e : LogEntry} (heard : l.hears sender = true) :
      Informs l (.deliver sender (.chosen e))
  | batch {sender : ReplicaId} {entries : List LogEntry} (heard : l.hears sender = true) :
      Informs l (.deliver sender (.catchUpResponse entries))
  | drain : Informs l .drainApplicable

/-- Whether no slot is told of with two entries. -/
def Unambiguous (entries : List LogEntry) : Prop :=
  ∀ e ∈ entries, ∀ e' ∈ entries, e.slot = e'.slot → e = e'

variable {l l' l'' l₁ l₂ : ReplicatedLog} {call : Call} {calls more : List Call} {reply : Reply}
  {entries told told' given given' given₁ given₂ : List LogEntry} {sender : ReplicaId} {e : LogEntry}

theorem Unambiguous.of_append (h : Unambiguous (told ++ told')) :
    Unambiguous told ∧ Unambiguous told' :=
  ⟨fun e he e' he' => h e (List.mem_append_left _ he) e' (List.mem_append_left _ he'),
    fun e he e' he' => h e (List.mem_append_right _ he) e' (List.mem_append_right _ he')⟩

/-! ### Many calls -/

theorem answerAll_cons_eq_ok_iff : l.answerAll (call :: calls) = .ok (l', given) ↔
    ∃ reply later, l.answer call = .ok reply ∧ reply.log.answerAll calls = .ok (l', later) ∧
      given = reply.ready ++ later := by
  show (l.answer call >>= _) = _ ↔ _
  simp only [bind_eq_ok_iff, pure_eq_ok_iff]
  constructor
  · rintro ⟨reply, hreply, ⟨log, later⟩, hrest, h⟩
    cases h
    exact ⟨reply, later, hreply, hrest, rfl⟩
  · rintro ⟨reply, later, hreply, hrest, rfl⟩
    exact ⟨reply, hreply, (l', later), hrest, rfl⟩

theorem answerAll_append_eq_ok_iff : l.answerAll (calls ++ more) = .ok (l', given) ↔
    ∃ m first later, l.answerAll calls = .ok (m, first) ∧ m.answerAll more = .ok (l', later) ∧
      given = first ++ later := by
  induction calls generalizing l given with
  | nil =>
      constructor
      · intro h
        exact ⟨l, [], given, rfl, h, rfl⟩
      · rintro ⟨m, first, later, hfirst, hlater, rfl⟩
        cases hfirst
        exact hlater
  | cons call calls ih =>
      simp only [List.cons_append, answerAll_cons_eq_ok_iff, ih]
      constructor
      · rintro ⟨reply, _, hreply, ⟨m, first, later, hfirst, hlater, rfl⟩, rfl⟩
        exact ⟨m, reply.ready ++ first, later, ⟨reply, first, hreply, hfirst, rfl⟩, hlater,
          (List.append_assoc _ _ _).symm⟩
      · rintro ⟨m, _, later, ⟨reply, first, hreply, hfirst, rfl⟩, hlater, rfl⟩
        exact ⟨reply, first ++ later, hreply, ⟨m, first, later, hfirst, hlater, rfl⟩,
          List.append_assoc _ _ _⟩

theorem answerAll_moves (hl : l.Coherent) (hs : l.Settled) (h : l.answerAll calls = .ok (l', given)) :
    l'.Coherent ∧ l'.Settled ∧
      ∃ actions, Moves (fun _ _ => True) (fun _ => True) l actions given l' := by
  induction calls generalizing l given with
  | nil =>
      cases h
      exact ⟨hl, hs, [], .refl _⟩
  | cons call calls ih =>
      obtain ⟨reply, later, hreply, hrest, rfl⟩ := answerAll_cons_eq_ok_iff.1 h
      have hanswered : Moves (fun _ _ => True) (fun _ => True) l reply.actions reply.ready reply.log ∧
          reply.log.Settled :=
        answer_moves hl hs (fun _ _ _ => trivial) (fun _ _ => trivial) hreply
      obtain ⟨hmoves, hs'⟩ := hanswered
      obtain ⟨hcoherent, hsettled, actions, hlater⟩ := ih (hl.moves hmoves) hs' hrest
      exact ⟨hcoherent, hsettled, reply.actions ++ actions, hmoves.trans hlater⟩

/-- A log that started empty has handed out the chosen entries of the slots below the next one, in
the order of the slots. -/
theorem handedOut_of_fresh {topology : Topology} {policy : ConsensusPolicy}
    (h : answerAll { topology := topology, policy := policy } calls = .ok (l, given)) :
    given.map (·.slot.index.toNat) = List.range l.nextApply.index.toNat ∧
      ∀ e ∈ given, l.chosen.get? e.slot = some e := by
  obtain ⟨hcoherent, _, actions, hmoves⟩ :=
    answerAll_moves (coherent_fresh _ _) (settled_of_idle rfl) h
  obtain ⟨hcount, hgiven⟩ := hmoves.handedOut
  have hfirst : Slot.first.index.toNat = 0 := rfl
  have hplaced : ∀ i e, given[i]? = some e →
      e.slot.index.toNat = i ∧ l.chosen.get? e.slot = some e := by
    intro i e hi
    obtain ⟨k, hk, he⟩ := hgiven i e hi
    have hslot := hcoherent.keyed k e he
    subst hslot
    refine ⟨?_, he⟩
    show e.slot.index.toNat = i
    dsimp only at hk
    omega
  constructor
  · refine List.ext_getElem (by simp only [List.length_map, List.length_range]; dsimp only at hcount; omega)
      fun i hi _ => ?_
    rw [List.length_map] at hi
    rw [List.getElem_map, List.getElem_range]
    exact (hplaced i _ (List.getElem?_eq_getElem hi)).1
  · intro e he
    obtain ⟨i, hi⟩ := List.getElem?_of_mem he
    exact (hplaced i e hi).2

/-! ### Logs without proposals -/

theorem afterLearning_of_idle (idle : l.active = none) : l.afterLearning = { log := l } := by
  unfold afterLearning
  rw [idle]

theorem pursue_of_done {q : Progress} (done : q.due = none) : pursue q = .ok (q.log, q.actions) := by
  unfold pursue attemptBound pursueUpTo
  rw [done]

theorem active_foldl_learn (l : ReplicatedLog) (entries : List LogEntry) :
    (entries.foldl learn l).active = l.active := by
  induction entries generalizing l with
  | nil => rfl
  | cons e entries ih => exact (ih _).trans (active_learn l e)

/-- Without a proposal, nothing follows from what was learned but requests for more. -/
theorem pursue_afterLearning {requests : Except Fault (List Action)} (idle : l.active = none) :
    (do pursue (← (Progress.after · l.afterLearning) <$> requests)) =
      (fun actions => (l, actions)) <$> requests := by
  rw [afterLearning_of_idle idle]
  cases requests with
  | error fault => rfl
  | ok actions =>
      have hdone : pursue (.after actions { log := l }) = .ok (l, actions ++ []) := pursue_of_done rfl
      rw [List.append_nil] at hdone
      exact hdone

theorem handle_chosen (heard : l.hears sender = true) (idle : l.active = none) :
    l.handle (.message sender (.chosen e)) = (fun actions => (l.learn e, actions)) <$>
      if l.isNews e then (l.learn e).requestGap sender e.slot else .ok [] := by
  rw [← pursue_afterLearning ((active_learn l e).trans idle)]
  unfold handle onMessage
  dsimp only
  rw [if_pos heard]
  rfl

theorem handle_catchUpResponse (heard : l.hears sender = true) (idle : l.active = none) :
    l.handle (.message sender (.catchUpResponse entries)) =
      (fun actions => (entries.foldl learn l, actions)) <$>
        (entries.foldl learn l).requestNextBatch sender entries := by
  rw [← pursue_afterLearning ((active_foldl_learn l entries).trans idle)]
  unfold handle onMessage
  dsimp only
  rw [if_pos heard]
  rfl

/-- What a log without proposals makes of the entries that it is told of.  For a slot that it did
not know it takes the entry told of. -/
structure Informed (l : ReplicatedLog) (told given : List LogEntry) (l' : ReplicatedLog) : Prop where
  moves : Moves (fun _ _ => True) (fun _ => False) l [] given l'
  place : l.SamePlace l'
  idle : l'.active = none
  chosen : ∀ s e, l'.chosen.get? s = some e ↔
    l.chosen.get? s = some e ∨ l.chosen.get? s = none ∧ e ∈ told ∧ e.slot = s

theorem SamePlace.hears_eq (h : l.SamePlace l') (sender : ReplicaId) :
    l'.hears sender = l.hears sender := by
  unfold hears replica
  rw [h.topology, h.partition]

theorem Informs.congr (h : l.Informs call) (same : l.SamePlace l') : l'.Informs call := by
  cases h with
  | chosen heard => exact .chosen ((same.hears_eq _).trans heard)
  | batch heard => exact .batch ((same.hears_eq _).trans heard)
  | drain => exact .drain

namespace Informed

theorem refl (idle : l.active = none) : Informed l [] [] l where
  moves := .refl l
  place := ⟨rfl, rfl⟩
  idle := idle
  chosen s e := by simp

theorem trans (h : Informed l told given l') (h' : Informed l' told' given' l'')
    (unambiguous : Unambiguous (told ++ told')) :
    Informed l (told ++ told') (given ++ given') l'' where
  moves := h.moves.trans h'.moves
  place := h.place.trans h'.place
  idle := h'.idle
  chosen s e := by
    rw [h'.chosen]
    constructor
    · rintro (hknown | ⟨hnew, he, hslot⟩)
      · refine ((h.chosen s e).1 hknown).imp_right fun ⟨hnone, he, hslot⟩ => ?_
        exact ⟨hnone, List.mem_append_left _ he, hslot⟩
      · have hnone : l.chosen.get? s = none := by
          rw [Option.eq_none_iff_forall_ne_some]
          intro e' hold
          rw [(h.chosen s e').2 (.inl hold)] at hnew
          cases hnew
        exact .inr ⟨hnone, List.mem_append_right _ he, hslot⟩
    · rintro (hold | ⟨hnone, he, hslot⟩)
      · exact .inl ((h.chosen s e).2 (.inl hold))
      · cases hknown : l'.chosen.get? s with
        | none =>
            -- the entry is not among the first ones, of which the slot would be known
            refine .inr ⟨rfl, (List.mem_append.1 he).resolve_left fun hfirst => ?_, hslot⟩
            rw [(h.chosen s e).2 (.inr ⟨hnone, hfirst, hslot⟩)] at hknown
            cases hknown
        | some e' =>
            -- the entry known is one of the first ones, and there is no other for the slot
            rcases (h.chosen s e').1 hknown with hold | ⟨_, he', hslot'⟩
            · rw [hnone] at hold
              cases hold
            · have hsame := unambiguous e he e' (List.mem_append_left _ he') (hslot.trans hslot'.symm)
              exact .inl (congrArg some hsame.symm)

theorem learn (idle : l.active = none) (e : LogEntry) : Informed l [e] [] (l.learn e) where
  moves := (@Move.hear _ _ l e l.replica (.chosen e) trivial List.mem_cons_self).single
  place := samePlace_learn l e
  idle := (active_learn l e).trans idle
  chosen s e' := by
    rw [get?_chosen_learn, List.mem_singleton]
    by_cases hnew : l.isNews e = true ∧ s = e.slot
    · obtain ⟨hnews, rfl⟩ := hnew
      rw [if_pos ⟨hnews, rfl⟩, isNews_iff.1 hnews, Option.some.injEq]
      constructor
      · rintro rfl
        exact .inr ⟨rfl, rfl, rfl⟩
      · rintro (hsome | ⟨_, rfl, _⟩)
        · cases hsome
        · rfl
    · rw [if_neg hnew, isNews_iff] at *
      refine ⟨.inl, ?_⟩
      rintro (hold | ⟨hnone, rfl, rfl⟩)
      · exact hold
      · exact absurd ⟨hnone, rfl⟩ hnew

theorem learnAll (idle : l.active = none) (unambiguous : Unambiguous entries) :
    Informed l entries [] (entries.foldl ReplicatedLog.learn l) := by
  induction entries generalizing l with
  | nil => exact .refl idle
  | cons e entries ih =>
      have hfirst := learn idle e
      have hrest : Unambiguous entries := (@Unambiguous.of_append [e] entries unambiguous).2
      exact hfirst.trans (ih hfirst.idle hrest) unambiguous

theorem drain (idle : l.active = none) (h : l.drainApplicable = .ok (l', given)) :
    Informed l [] given l' := by
  obtain ⟨stop, hdrain, rfl⟩ := drainApplicable_eq_ok h
  exact ⟨(Move.handOut hdrain).single, ⟨rfl, rfl⟩, idle, fun s e => by simp⟩

/-- One more call. -/
theorem answer (idle : l.active = none) (hcall : l.Informs call) (unambiguous : Unambiguous call.entries)
    (answered : l.answer call = .ok reply) : Informed l call.entries reply.ready reply.log := by
  cases hcall with
  | @chosen sender e heard =>
      obtain ⟨⟨log, actions⟩, hhandle, rfl⟩ := map_eq_ok_iff.1 answered
      rw [handle_chosen heard idle] at hhandle
      obtain ⟨_, _, heq⟩ := map_eq_ok_iff.1 hhandle
      cases heq
      exact learn idle e
  | @batch sender entries heard =>
      obtain ⟨⟨log, actions⟩, hhandle, rfl⟩ := map_eq_ok_iff.1 answered
      rw [handle_catchUpResponse heard idle] at hhandle
      obtain ⟨_, _, heq⟩ := map_eq_ok_iff.1 hhandle
      cases heq
      exact learnAll idle unambiguous
  | drain =>
      obtain ⟨⟨log, ready⟩, hdrain, rfl⟩ := map_eq_ok_iff.1 answered
      exact drain idle hdrain

theorem answerAll (idle : l.active = none) (hcalls : ∀ call ∈ calls, l.Informs call)
    (unambiguous : Unambiguous (calls.flatMap Call.entries))
    (answered : l.answerAll calls = .ok (l', given)) :
    Informed l (calls.flatMap Call.entries) given l' := by
  induction calls generalizing l given with
  | nil =>
      cases answered
      exact .refl idle
  | cons call calls ih =>
      obtain ⟨reply, later, hreply, hrest, rfl⟩ := answerAll_cons_eq_ok_iff.1 answered
      rw [List.flatMap_cons] at unambiguous ⊢
      have hfirst := answer idle (hcalls call List.mem_cons_self) unambiguous.of_append.1 hreply
      have hlater := ih hfirst.idle
        (fun c hc => (hcalls c (List.mem_cons_of_mem _ hc)).congr hfirst.place)
        unambiguous.of_append.2 hrest
      exact hfirst.trans hlater unambiguous

/-- Of what a log was told, the entries alone count. -/
theorem chosen_eq (h₁ : Informed l told given₁ l₁) (h₂ : Informed l told' given₂ l₂)
    (same : ∀ e, e ∈ told ↔ e ∈ told') : l₁.chosen = l₂.chosen := by
  refine SortedMap.ext_get? fun s => Option.ext fun e => ?_
  rw [h₁.chosen, h₂.chosen, same]

/-- The one that has nothing left to hand out has handed out no less. -/
theorem length_le (h₁ : Informed l told given₁ l₁) (h₂ : Informed l told' given₂ l₂)
    (same : ∀ e, e ∈ told ↔ e ∈ told') (drained : l₁.Drained) : given₂.length ≤ given₁.length := by
  by_contra hless
  have hi : given₁.length < given₂.length := by omega
  obtain ⟨k, hk, hknown⟩ := h₂.moves.handedOut.2 _ _ (List.getElem?_eq_getElem hi)
  have hnext : k = l₁.nextApply := by
    rw [← Slot.toNat_inj, h₁.moves.handedOut.1]
    exact hk
  rw [← chosen_eq h₁ h₂ same, hnext, drained] at hknown
  cases hknown

/-- What is handed out altogether is the same once nothing is left. -/
theorem given_eq (h₁ : Informed l told given₁ l₁) (h₂ : Informed l told' given₂ l₂)
    (same : ∀ e, e ∈ told ↔ e ∈ told') (drained₁ : l₁.Drained) (drained₂ : l₂.Drained) :
    given₁ = given₂ ∧ l₁.nextApply = l₂.nextApply := by
  have hlength : given₁.length = given₂.length :=
    Nat.le_antisymm (length_le h₂ h₁ (fun e => (same e).symm) drained₂)
      (length_le h₁ h₂ same drained₁)
  obtain ⟨hnext₁, hplaced₁⟩ := h₁.moves.handedOut
  obtain ⟨hnext₂, hplaced₂⟩ := h₂.moves.handedOut
  refine ⟨List.ext_getElem hlength fun i hi₁ hi₂ => ?_, Slot.toNat_inj.1 (by omega)⟩
  obtain ⟨k₁, hk₁, hknown₁⟩ := hplaced₁ i _ (List.getElem?_eq_getElem hi₁)
  obtain ⟨k₂, hk₂, hknown₂⟩ := hplaced₂ i _ (List.getElem?_eq_getElem hi₂)
  have hslot : k₁ = k₂ := Slot.toNat_inj.1 (by omega)
  rw [chosen_eq h₁ h₂ same, hslot, hknown₂] at hknown₁
  exact (Option.some.inj hknown₁).symm

end Informed

/-- Calls after which everything applicable is handed out. -/
theorem informed_of_drained (idle : l.active = none) (hcalls : ∀ call ∈ calls, l.Informs call)
    (unambiguous : Unambiguous (calls.flatMap Call.entries))
    (h : l.answerAll (calls ++ [.drainApplicable]) = .ok (l', given)) :
    Informed l (calls.flatMap Call.entries) given l' ∧ l'.Drained := by
  have hentries : (calls ++ [Call.drainApplicable]).flatMap Call.entries =
      calls.flatMap Call.entries := by
    simp [Call.entries]
  constructor
  · rw [← hentries] at unambiguous ⊢
    refine .answerAll idle (fun call hc => ?_) unambiguous h
    rcases List.mem_append.1 hc with hc | hc
    · exact hcalls call hc
    · rw [List.mem_singleton.1 hc]
      exact .drain
  obtain ⟨m, _, _, _, hlast, _⟩ := answerAll_append_eq_ok_iff.1 h
  obtain ⟨reply, _, hreply, hrest, _⟩ := answerAll_cons_eq_ok_iff.1 hlast
  cases hrest
  obtain ⟨⟨log, ready⟩, hdrain, rfl⟩ := map_eq_ok_iff.1 hreply
  obtain ⟨stop, hstop, rfl⟩ := drainApplicable_eq_ok hdrain
  exact drained_of_drainFrom hstop

/-! ### Short of the last slot -/

theorem exists_firstMissing {slots : List Slot} (h : ∀ k ∈ slots, k.HasNext) (s : Slot) :
    ∃ t, firstMissing s slots = .ok t := by
  induction slots generalizing s with
  | nil => exact ⟨s, rfl⟩
  | cons k slots ih =>
      have hrest := ih fun k' hk' => h k' (List.mem_cons_of_mem _ hk')
      unfold firstMissing
      split
      · next hk =>
        obtain ⟨n, hn⟩ := h k List.mem_cons_self
        rw [hk] at hn
        obtain ⟨t, ht⟩ := hrest n
        exact ⟨t, bind_eq_ok_iff.2 ⟨n, hn, ht⟩⟩
      · exact hrest s

theorem exists_drainFrom {pairs : List (Slot × LogEntry)} (h : ∀ p ∈ pairs, p.1.HasNext)
    (s : Slot) : ∃ r, drainFrom s pairs = .ok r := by
  induction pairs generalizing s with
  | nil => exact ⟨(s, []), rfl⟩
  | cons p pairs ih =>
      obtain ⟨k, e⟩ := p
      have hrest := ih fun p' hp' => h p' (List.mem_cons_of_mem _ hp')
      unfold drainFrom
      split
      · next hk =>
        obtain ⟨n, hn⟩ := h (k, e) List.mem_cons_self
        dsimp only at hn
        rw [hk] at hn
        obtain ⟨⟨stop, ready⟩, hr⟩ := hrest n
        exact ⟨_, bind_eq_ok_iff.2 ⟨n, hn, bind_eq_ok_iff.2 ⟨_, hr, rfl⟩⟩⟩
      · exact hrest s

/-- Whether no entry is known at the last slot. -/
def Extensible (l : ReplicatedLog) : Prop := ∀ s e, l.chosen.get? s = some e → s.HasNext

theorem Extensible.exists_firstOpenSlot (h : l.Extensible) : ∃ s, l.firstOpenSlot = .ok s := by
  refine exists_firstMissing (fun k hk => ?_) l.nextApply
  obtain ⟨e, he⟩ := SortedMap.mem_keys_iff.1 hk
  exact h k e he

theorem Extensible.exists_drainApplicable (h : l.Extensible) :
    ∃ l' ready, l.drainApplicable = .ok (l', ready) := by
  obtain ⟨⟨stop, ready⟩, hdrain⟩ :=
    exists_drainFrom (fun p hp => h p.1 p.2 (SortedMap.get?_eq_some_iff.2 hp)) l.nextApply
  exact ⟨_, _, bind_eq_ok_iff.2 ⟨_, hdrain, rfl⟩⟩

theorem Informed.extensible (h : Informed l told given l') (hl : l.Extensible)
    (hold : ∀ e ∈ told, e.slot.HasNext) : l'.Extensible := by
  intro s e he
  rcases (h.chosen s e).1 he with hknown | ⟨_, htold, rfl⟩
  · exact hl s e hknown
  · exact hold e htold

theorem exists_requestNextBatch (h : ∀ e ∈ entries, e.slot.HasNext) (l : ReplicatedLog)
    (sender : ReplicaId) : ∃ actions, l.requestNextBatch sender entries = .ok actions := by
  unfold requestNextBatch
  split
  · next last hlast =>
    obtain ⟨e, he, rfl⟩ := Option.map_eq_some_iff.1 hlast
    split
    · obtain ⟨n, hn⟩ := h e (List.mem_of_getLast? he)
      exact ⟨_, map_eq_ok_iff.2 ⟨n, hn, rfl⟩⟩
    · exact ⟨_, rfl⟩
  · exact ⟨_, rfl⟩

theorem Informs.exists_answer (hcall : l.Informs call) (idle : l.active = none) (hl : l.Extensible)
    (hcarried : ∀ e ∈ call.entries, e.slot.HasNext) : ∃ reply, l.answer call = .ok reply := by
  cases hcall with
  | @chosen sender e heard =>
      have hknown := (Informed.learn idle e).extensible hl hcarried
      obtain ⟨actions, hactions⟩ : ∃ actions, (if l.isNews e then
          (l.learn e).requestGap sender e.slot else .ok []) = .ok actions := by
        split
        · obtain ⟨start, hstart⟩ := hknown.exists_firstOpenSlot
          exact ⟨_, bind_eq_ok_iff.2 ⟨start, hstart, rfl⟩⟩
        · exact ⟨_, rfl⟩
      refine ⟨_, map_eq_ok_iff.2 ⟨(l.learn e, actions), ?_, rfl⟩⟩
      rw [handle_chosen heard idle, hactions]
      rfl
  | @batch sender entries heard =>
      have hcarried : ∀ e ∈ entries, e.slot.HasNext := hcarried
      obtain ⟨actions, hactions⟩ :=
        exists_requestNextBatch hcarried (entries.foldl learn l) sender
      refine ⟨_, map_eq_ok_iff.2 ⟨(entries.foldl learn l, actions), ?_, rfl⟩⟩
      rw [handle_catchUpResponse heard idle, hactions]
      rfl
  | drain =>
      obtain ⟨log, ready, hdrain⟩ := hl.exists_drainApplicable
      exact ⟨_, map_eq_ok_iff.2 ⟨(log, ready), hdrain, rfl⟩⟩

theorem exists_answerAll (idle : l.active = none) (hl : l.Extensible)
    (hcalls : ∀ call ∈ calls, l.Informs call)
    (unambiguous : Unambiguous (calls.flatMap Call.entries))
    (hcarried : ∀ e ∈ calls.flatMap Call.entries, e.slot.HasNext) :
    ∃ l' given, l.answerAll calls = .ok (l', given) := by
  induction calls generalizing l with
  | nil => exact ⟨l, [], rfl⟩
  | cons call calls ih =>
      rw [List.flatMap_cons] at unambiguous hcarried
      have hfirst : ∀ e ∈ call.entries, e.slot.HasNext := fun e he =>
        hcarried e (List.mem_append_left _ he)
      obtain ⟨reply, hreply⟩ := (hcalls call List.mem_cons_self).exists_answer idle hl hfirst
      have hinformed := Informed.answer idle (hcalls call List.mem_cons_self)
        unambiguous.of_append.1 hreply
      obtain ⟨l', later, hrest⟩ := ih hinformed.idle (hinformed.extensible hl hfirst)
        (fun c hc => (hcalls c (List.mem_cons_of_mem _ hc)).congr hinformed.place)
        unambiguous.of_append.2 (fun e he => hcarried e (List.mem_append_right _ he))
      exact ⟨l', _, answerAll_cons_eq_ok_iff.2 ⟨reply, later, hreply, hrest, rfl⟩⟩

/-! ### Order -/

/-- What a log hands out, call by call, is the chosen entries from the first slot on, each once and
in order, and an entry that is known stays known.  If no proposal is pending, and calls bring
entries, one for each slot, then nothing counts but which entries they are: other calls with the
same entries, in another order, in other batches and with other drains between them, have the same
entries handed out, and leave the same ones known and kept back.  All such calls succeed short of
the last slot. -/
theorem learning_order_irrelevant :
    (∀ (topology : Topology) (policy : ConsensusPolicy) (calls : List Call) (l : ReplicatedLog)
        (given : List LogEntry),
      answerAll { topology := topology, policy := policy } calls = .ok (l, given) →
        given.map (·.slot.index.toNat) = List.range l.nextApply.index.toNat ∧
        (∀ e ∈ given, l.chosen.get? e.slot = some e) ∧
        ∀ more l' given', l.answerAll more = .ok (l', given') →
          ∀ s e, l.chosen.get? s = some e → l'.chosen.get? s = some e) ∧
    ∀ (l : ReplicatedLog) (calls₁ calls₂ : List Call), l.pendingProposals = 0 →
      (∀ call ∈ calls₁ ++ calls₂, l.Informs call) →
      Unambiguous (calls₁.flatMap Call.entries) →
      (∀ e, e ∈ calls₁.flatMap Call.entries ↔ e ∈ calls₂.flatMap Call.entries) →
        (∀ l₁ given₁ l₂ given₂,
          l.answerAll (calls₁ ++ [.drainApplicable]) = .ok (l₁, given₁) →
          l.answerAll (calls₂ ++ [.drainApplicable]) = .ok (l₂, given₂) →
            given₁ = given₂ ∧ l₁.nextApply = l₂.nextApply ∧ l₁.chosen = l₂.chosen) ∧
        (l.Extensible → (∀ e ∈ calls₁.flatMap Call.entries, e.slot.HasNext) →
          ∃ l₁ given, l.answerAll (calls₁ ++ [.drainApplicable]) = .ok (l₁, given)) := by
  refine ⟨fun topology policy calls l given h => ?_, fun l calls₁ calls₂ idle hcalls hone hsame => ?_⟩
  · obtain ⟨hordered, hknown⟩ := handedOut_of_fresh h
    obtain ⟨hcoherent, hsettled, _⟩ := answerAll_moves (coherent_fresh _ _) (settled_of_idle rfl) h
    refine ⟨hordered, hknown, fun more l' given' hmore => ?_⟩
    obtain ⟨_, _, actions, hmoves⟩ := answerAll_moves hcoherent hsettled hmore
    exact hmoves.grows.chosen
  have idle : l.active = none := by
    cases hactive : l.active with
    | none => rfl
    | some p => simp [pendingProposals, hactive] at idle
  have hcalls₁ : ∀ call ∈ calls₁, l.Informs call := fun call hc =>
    hcalls call (List.mem_append_left _ hc)
  have hcalls₂ : ∀ call ∈ calls₂, l.Informs call := fun call hc =>
    hcalls call (List.mem_append_right _ hc)
  constructor
  · intro l₁ given₁ l₂ given₂ h₁ h₂
    have hone₂ : Unambiguous (calls₂.flatMap Call.entries) := fun e he e' he' =>
      hone e ((hsame e).2 he) e' ((hsame e').2 he')
    obtain ⟨hinformed₁, hdrained₁⟩ := informed_of_drained idle hcalls₁ hone h₁
    obtain ⟨hinformed₂, hdrained₂⟩ := informed_of_drained idle hcalls₂ hone₂ h₂
    obtain ⟨hgiven, hnext⟩ := hinformed₁.given_eq hinformed₂ hsame hdrained₁ hdrained₂
    exact ⟨hgiven, hnext, hinformed₁.chosen_eq hinformed₂ hsame⟩
  · intro hextensible hcarried
    obtain ⟨m, given, hm⟩ := exists_answerAll idle hextensible hcalls₁ hone hcarried
    have hinformed := Informed.answerAll idle hcalls₁ hone hm
    obtain ⟨l', ready, hdrain⟩ := (hinformed.extensible hextensible hcarried).exists_drainApplicable
    refine ⟨l', given ++ (ready ++ []), answerAll_append_eq_ok_iff.2 ⟨m, given, _, hm, ?_, rfl⟩⟩
    exact answerAll_cons_eq_ok_iff.2 ⟨_, [], map_eq_ok_iff.2 ⟨_, hdrain, rfl⟩, rfl, rfl⟩

/-- A replica that is told of two entries one by one, the later slot first, hands out what it would
have handed out after one batch. -/
theorem learning_order_irrelevant_pair :
    let l : ReplicatedLog := { topology := Group.pair.topology ⟨1⟩, policy := {} }
    let e₀ : LogEntry := ⟨⟨0⟩, ⟨1, ⟨2⟩⟩, .commit ⟨7⟩⟩
    let e₁ : LogEntry := ⟨⟨1⟩, ⟨1, ⟨2⟩⟩, .abort ⟨8⟩⟩
    ∃ l₁ l₂,
      l.answerAll ([.deliver ⟨2⟩ (.chosen e₁), .drainApplicable, .deliver ⟨2⟩ (.chosen e₀)] ++
        [.drainApplicable]) = .ok (l₁, [e₀, e₁]) ∧
      l.answerAll ([.deliver ⟨2⟩ (.catchUpResponse [e₀, e₁])] ++ [.drainApplicable]) =
        .ok (l₂, [e₀, e₁]) ∧
      l₁.chosen = l₂.chosen := by
  intro l e₀ e₁
  obtain ⟨l₁, h₁⟩ : ∃ l₁, l.answerAll ([.deliver ⟨2⟩ (.chosen e₁), .drainApplicable,
      .deliver ⟨2⟩ (.chosen e₀)] ++ [.drainApplicable]) = .ok (l₁, [e₀, e₁]) := ⟨_, rfl⟩
  obtain ⟨l₂, h₂⟩ : ∃ l₂, l.answerAll ([.deliver ⟨2⟩ (.catchUpResponse [e₀, e₁])] ++
      [.drainApplicable]) = .ok (l₂, [e₀, e₁]) := ⟨_, rfl⟩
  have hcalls : ∀ call ∈ [Call.deliver ⟨2⟩ (.chosen e₁), .drainApplicable,
      .deliver ⟨2⟩ (.chosen e₀)] ++ [.deliver ⟨2⟩ (.catchUpResponse [e₀, e₁])], l.Informs call := by
    simp only [List.mem_append, List.mem_cons, List.not_mem_nil, or_false]
    rintro call ((rfl | rfl | rfl) | rfl)
    · exact .chosen (by decide)
    · exact .drain
    · exact .chosen (by decide)
    · exact .batch (by decide)
  have hone : Unambiguous [e₁, e₀] := by
    unfold Unambiguous
    decide
  obtain ⟨_, hany⟩ := learning_order_irrelevant
  obtain ⟨hequal, _⟩ := hany l _ _ rfl hcalls hone fun e => by simp [Call.entries, Message.entries, or_comm]
  exact ⟨l₁, l₂, h₁, h₂, (hequal _ _ _ _ h₁ h₂).2.2⟩

end ReplicatedLog

end ReplicatedLedger
