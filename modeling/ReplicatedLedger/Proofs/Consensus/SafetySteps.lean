import ReplicatedLedger.Proofs.Consensus.Safety

/-!
The safety of a group is kept by every move of a member and by everything that it truthfully says.
-/

namespace ReplicatedLedger

/-- Only the value of the active proposal is asked for. -/
theorem ReplicatedLog.Asks.phase {l : ReplicatedLog} {s : Slot} {b : Ballot} {c : Command}
    {p : Proposal} (h : l.Asks s b c) (current : l.active = some p) :
    ∃ votes, p.phase = .accepting c votes := by
  obtain ⟨p', votes, current', _, _, phase⟩ := h
  rw [current] at current'
  cases current'
  exact ⟨votes, phase⟩

namespace Group

open ReplicatedLog (Move Moves)

variable {g : Group} {w w' : World ReplicatedLog} {r sender : ReplicaId} {l' : ReplicatedLog}
  {said actions : List Action} {ready : List LogEntry} {heard : ReplicaId → Message → Prop}
  {wanted : Command → Prop}
  {p : Proposal} {s : Slot} {b : Ballot} {c : Command} {e : LogEntry} {m : Message}

theorem pursued_of_backoff (h : p.phase = .backoff) : g.Pursued w r p := by
  unfold Pursued
  rw [h]
  trivial

theorem Pursued.owner (h : g.Pursued w r p) : p.ballot.replica = r ∨ p.phase = .backoff := by
  unfold Pursued at h
  split at h
  · exact .inl h.1
  · exact .inl h.1
  · next hphase => exact .inr hphase

theorem pursued_preparing_iff {promises : SortedMap ReplicaId (Option (Ballot × Command))}
    (phase : p.phase = .preparing promises) :
    g.Pursued w r p ↔ p.ballot.replica = r ∧ p.ballot ≤ (w.machine r).highestBallot ∧
      (∀ s c, ¬ Asked w s p.ballot c) ∧
      ∀ q accepted, promises.get? q = some accepted →
        q ∈ g.members ∧ (w.machine q).Promised p.slot p.ballot accepted := by
  unfold Pursued
  rw [phase]

theorem pursued_accepting_iff {value : Command} {votes : SortedSet ReplicaId}
    (phase : p.phase = .accepting value votes) :
    g.Pursued w r p ↔ p.ballot.replica = r ∧ p.ballot ≤ (w.machine r).highestBallot ∧
      (g.SafeAt w p.slot p.ballot value ∧ ∀ c, Asked w p.slot p.ballot c → c = value) ∧
      ∀ q u, votes.get? q = some u →
        q ∈ g.members ∧ ∃ c, ⟨p.slot, p.ballot, c⟩ ∈ (w.machine q).acceptor.cast := by
  unfold Pursued
  rw [phase]

/-- A log has not shrunk by its own step, nor have the others meanwhile. -/
theorem grows_update (grows : (w.machine r).Grows l') (q : ReplicaId) :
    (w.machine q).Grows ((w.update r l' said).machine q) :=
  World.forall_machine_update (P := fun q l => (w.machine q).Grows l) (fun _ => .refl _) grows q

/-- What single moves of a member keep, and all that it truthfully says, is kept by a whole step. -/
theorem world_induction {I : World ReplicatedLog → Prop} {l : ReplicatedLog}
    (move : ∀ w l' ready, I w → (∀ sender m, heard sender m → w.Heard r sender m) →
      Move heard wanted (w.machine r) ready l' → I (w.update r l' []))
    (say : ∀ w said, I w →
      (∀ receiver m, Action.send receiver m ∈ said → (w.machine r).MaySay m) →
      I (w.update r (w.machine r) said))
    (hi : I w) (hheard : ∀ sender m, heard sender m → w.Heard r sender m) (hl : w.machine r = l)
    (hmoves : Moves heard wanted l actions ready l') : I (w.update r l' actions) := by
  induction hmoves generalizing w with
  | refl l =>
      rw [← hl, World.update_refl]
      exact hi
  | @move l l₁ l₂ actions handed ready first rest ih =>
      subst hl
      have hstep := ih (move w l₁ handed hi hheard first)
        (fun sender m hm => World.heard_update (hheard sender m hm)) World.machine_update_self
      rw [World.update_update, List.nil_append] at hstep
      exact hstep
  | @say l l' said actions ready truthful rest ih =>
      -- what is said goes out at once, so the rest of the step counts as later
      subst hl
      have hstep := ih (say w said hi truthful)
        (fun sender m hm => World.heard_update (hheard sender m hm)) World.machine_update_self
      rw [World.update_update] at hstep
      exact hstep

/-! ### Facts that last as long as every log grows -/

section Grows

variable (hg : ∀ q, (w.machine q).Grows (w'.machine q))

include hg

theorem Elected.grows (h : g.Elected w e) : g.Elected w' e :=
  Majority.imp h fun q _ hvote => (hg q).cast e hvote

theorem SafeAt.grows (h : g.SafeAt w s b c) : g.SafeAt w' s b c :=
  fun b' hb' => (h b' hb').imp fun q _ havoids => havoids.grows (hg q)

theorem Backed.grows (h : g.Backed w sender m) : g.Backed w' sender m := by
  cases m with
  | promise b s accepted => exact ReplicatedLog.Promised.grows h (hg sender)
  | accepted b s =>
      obtain ⟨c, hc⟩ := h
      exact ⟨c, (hg sender).cast _ hc⟩
  | chosen e => exact Elected.grows hg h
  | catchUpResponse batch => exact fun e he => Elected.grows hg (h e he)
  | _ => trivial

/-- An attempt keeps what it has reached while nobody else asks anything under its ballot. -/
theorem Pursued.grows (h : g.Pursued w r p)
    (hasked : ∀ s c, Asked w' s p.ballot c →
      Asked w s p.ballot c ∨ ∃ votes, p.phase = .accepting c votes) : g.Pursued w' r p := by
  cases phase : p.phase with
  | preparing promises =>
      rw [pursued_preparing_iff phase] at h ⊢
      obtain ⟨hown, hle, hnone, hpromises⟩ := h
      refine ⟨hown, le_trans hle (hg r).highestBallot, fun s c hc => ?_, fun q accepted hq => ?_⟩
      · rcases hasked s c hc with hold | ⟨votes, hphase⟩
        · exact hnone s c hold
        · rw [phase] at hphase
          cases hphase
      · obtain ⟨hmember, hpromised⟩ := hpromises q accepted hq
        exact ⟨hmember, hpromised.grows (hg q)⟩
  | accepting value votes =>
      rw [pursued_accepting_iff phase] at h ⊢
      obtain ⟨hown, hle, ⟨hsafe, honly⟩, hvotes⟩ := h
      refine ⟨hown, le_trans hle (hg r).highestBallot, ⟨SafeAt.grows hg hsafe, fun c hc => ?_⟩,
        fun q u hq => ?_⟩
      · rcases hasked p.slot c hc with hold | ⟨votes', hphase⟩
        · exact honly c hold
        · rw [phase] at hphase
          cases hphase
          rfl
      · obtain ⟨hmember, c, hc⟩ := hvotes q u hq
        exact ⟨hmember, c, (hg q).cast _ hc⟩
  | backoff => exact pursued_of_backoff phase

/-- One more promise, while still nothing is asked for. -/
theorem Pursued.countPromise {promises : SortedMap ReplicaId (Option (Ballot × Command))}
    {accepted : Option (Ballot × Command)} {q : ReplicaId} (h : g.Pursued w r p)
    (phase : p.phase = .preparing promises)
    (hasked : ∀ s c, Asked w' s p.ballot c → Asked w s p.ballot c) (hq : q ∈ g.members)
    (hpromised : (w.machine q).Promised p.slot p.ballot accepted) :
    g.Pursued w' r (p.inPhase (.preparing (promises.insert q accepted))) := by
  rw [pursued_preparing_iff phase] at h
  obtain ⟨hown, hle, hnone, hpromises⟩ := h
  refine ⟨hown, le_trans hle (hg r).highestBallot, fun s c hc => hnone s c (hasked s c hc),
    fun q' accepted' hq' => ?_⟩
  rw [SortedMap.get?_insert] at hq'
  split at hq'
  · next heq =>
    cases hq'
    subst heq
    exact ⟨hq, hpromised.grows (hg q')⟩
  · obtain ⟨hmember, hpromised'⟩ := hpromises q' accepted' hq'
    exact ⟨hmember, hpromised'.grows (hg q')⟩

/-- One more vote, while nothing but the value is asked for. -/
theorem Pursued.countVote {value : Command} {votes : SortedSet ReplicaId} {q : ReplicaId}
    (h : g.Pursued w r p) (phase : p.phase = .accepting value votes)
    (hasked : ∀ c, Asked w' p.slot p.ballot c → Asked w p.slot p.ballot c ∨ c = value)
    (hq : q ∈ g.members) (hvote : ∃ c, ⟨p.slot, p.ballot, c⟩ ∈ (w.machine q).acceptor.cast) :
    g.Pursued w' r (p.inPhase (.accepting value (votes.insert q ()))) := by
  rw [pursued_accepting_iff phase] at h
  obtain ⟨hown, hle, ⟨hsafe, honly⟩, hvotes⟩ := h
  refine ⟨hown, le_trans hle (hg r).highestBallot,
    ⟨SafeAt.grows hg hsafe, fun c hc => (hasked c hc).elim (honly c) id⟩, fun q' u hq' => ?_⟩
  rw [SortedMap.get?_insert] at hq'
  have hvote' : q' ∈ g.members ∧ ∃ c, ⟨p.slot, p.ballot, c⟩ ∈ (w.machine q').acceptor.cast := by
    split at hq'
    · next heq =>
      subst heq
      exact ⟨hq, hvote⟩
    · exact hvotes q' u hq'
  obtain ⟨hmember, c, hc⟩ := hvote'
  exact ⟨hmember, c, (hg q').cast _ hc⟩

/-- The first request for a value. -/
theorem Pursued.ask {promises : SortedMap ReplicaId (Option (Ballot × Command))} {value : Command}
    (h : g.Pursued w r p) (phase : p.phase = .preparing promises)
    (hsafe : g.SafeAt w p.slot p.ballot value)
    (hasked : ∀ c, Asked w' p.slot p.ballot c → Asked w p.slot p.ballot c ∨ c = value) :
    g.Pursued w' r (p.inPhase (.accepting value ∅)) := by
  rw [pursued_preparing_iff phase] at h
  obtain ⟨hown, hle, hnone, _⟩ := h
  refine ⟨hown, le_trans hle (hg r).highestBallot, ⟨SafeAt.grows hg hsafe, fun c hc => ?_⟩,
    fun q u hq => ?_⟩
  · exact (hasked c hc).resolve_left (hnone p.slot c)
  · cases hq

end Grows

/-! ### What is behind a message, and behind a majority -/

theorem Backed.elected (h : g.Backed w sender m) (he : e ∈ m.entries) : g.Elected w e := by
  cases m with
  | chosen e' =>
      cases List.mem_singleton.1 he
      exact h
  | catchUpResponse batch => exact h e he
  | _ => cases he

namespace Sound

theorem elected_of_wins (h : g.Sound w) (won : (w.machine r).Wins e) : g.Elected w e := by
  obtain ⟨p, votes, current, hslot, hballot, phase, hsize⟩ := won
  obtain ⟨_, _, ⟨_, honly⟩, hvotes⟩ := (pursued_accepting_iff phase).1 (h.pursued r p current)
  rw [h.placed r] at hsize
  refine majority_of_keys hsize fun q u hq => ?_
  obtain ⟨hmember, c, hc⟩ := hvotes q u hq
  refine ⟨hmember, ?_⟩
  have hvalue : c = e.command := honly c (.inr ⟨q, hc⟩)
  rw [hslot, hballot, hvalue] at hc
  exact hc

theorem backed_of_maySay (h : g.Sound w) (hsay : (w.machine r).MaySay m) : g.Backed w r m := by
  cases m with
  | promise b s accepted => exact (h.recorded r).promised hsay
  | accepted b s => exact hsay
  | chosen e => exact (h.chosen r e.slot e hsay).2
  | catchUpResponse batch => exact fun e he => (h.chosen r e.slot e (hsay e he)).2
  | _ => trivial

/-- Being told is as good as the message: it was sent, or it holds of the log itself. -/
theorem backed_of_told (h : g.Sound w) (hr : r ∈ g.members)
    (hheard : ∀ sender m, heard sender m → w.Heard r sender m)
    (told : ReplicatedLog.Told heard (w.machine r) sender m) :
    sender ∈ g.members ∧ g.Backed w sender m := by
  rcases told with htold | ⟨rfl, hsay⟩
  · exact h.sent r sender m (hheard sender m htold)
  · have hself : (w.machine r).replica = r := by
      show (w.machine r).topology.replica = r
      rw [h.placed r]
      rfl
    rw [hself]
    exact ⟨hr, h.backed_of_maySay hsay⟩

/-! ### One step of a member -/

/-- A member that only asks for what it pursues keeps the group sound. -/
theorem advance (h : g.Sound w) (hr : r ∈ g.members) (grows : (w.machine r).Grows l')
    (recorded : l'.Recorded)
    (fresh : ∀ s b c, Asked (w.update r l' said) s b c → Asked w s b c ∨ l'.Asks s b c)
    (sent : ∀ receiver m, Action.send receiver m ∈ said → g.Backed (w.update r l' said) r m)
    (pursued : ∀ p, l'.active = some p → g.Pursued (w.update r l' said) r p)
    (chosen : ∀ s e, l'.chosen.get? s = some e →
      (w.machine r).chosen.get? s = some e ∨ e.slot = s ∧ g.Elected w e) :
    g.Sound (w.update r l' said) := by
  have hg : ∀ q, (w.machine q).Grows ((w.update r l' said).machine q) := grows_update grows
  -- what is newly asked for is asked under a ballot of `r` that collects votes for nothing else
  have hnew : ∀ s b c, l'.Asks s b c → b.replica = r ∧ b ≤ l'.highestBallot ∧
      g.SafeAt (w.update r l' said) s b c ∧ ∀ c', Asked (w.update r l' said) s b c' → c' = c := by
    rintro s b c ⟨p, votes, current, rfl, rfl, phase⟩
    obtain ⟨hown, hle, ⟨hsafe, honly⟩, _⟩ := (pursued_accepting_iff phase).1 (pursued p current)
    rw [World.machine_update_self] at hle
    exact ⟨hown, hle, hsafe, honly⟩
  constructor
  case placed =>
    intro q
    rw [(hg q).topology]
    exact h.placed q
  case recorded =>
    exact World.forall_machine_update (P := fun _ (l : ReplicatedLog) => l.Recorded)
      h.recorded recorded
  case owned =>
    intro s b c hc
    rcases fresh s b c hc with hold | hasks
    · exact le_trans (h.owned s b c hold) (hg _).highestBallot
    · obtain ⟨hown, hle, _⟩ := hnew s b c hasks
      rw [hown, World.machine_update_self]
      exact hle
  case unique =>
    intro s b c c' hc hc'
    rcases fresh s b c hc with hold | hasks
    · rcases fresh s b c' hc' with hold' | hasks'
      · exact h.unique s b c c' hold hold'
      · exact (hnew s b c' hasks').2.2.2 c hc
    · exact ((hnew s b c hasks).2.2.2 c' hc').symm
  case safe =>
    intro s b c hc
    rcases fresh s b c hc with hold | hasks
    · exact SafeAt.grows hg (h.safe s b c hold)
    · exact (hnew s b c hasks).2.2.1
  case sent =>
    intro receiver sender m hm
    rcases List.mem_append.1 hm with hold | hsaid
    · obtain ⟨hmember, hbacked⟩ := h.sent receiver sender m hold
      exact ⟨hmember, Backed.grows hg hbacked⟩
    · obtain ⟨rfl, haction⟩ := World.mem_envelopes.1 hsaid
      exact ⟨hr, sent receiver m haction⟩
  case pursued =>
    intro q p hp
    by_cases hq : q = r
    · subst hq
      rw [World.machine_update_self] at hp
      exact pursued p hp
    · rw [World.machine_update_of_ne hq] at hp
      have hpursued := h.pursued q p hp
      -- ballots carry their owner, so nobody else asks anything under this one
      rcases hpursued.owner with hown | hphase
      · refine Pursued.grows hg hpursued fun s c hc => .inl ?_
        refine (fresh s p.ballot c hc).resolve_right fun hasks => hq ?_
        exact hown.symm.trans (hnew s p.ballot c hasks).1
      · exact pursued_of_backoff hphase
  case chosen =>
    refine World.forall_machine_update
      (P := fun _ (l : ReplicatedLog) => ∀ s e, l.chosen.get? s = some e →
        e.slot = s ∧ g.Elected (w.update r l' said) e) ?_ ?_
    · intro q s e he
      obtain ⟨hslot, helected⟩ := h.chosen q s e he
      exact ⟨hslot, Elected.grows hg helected⟩
    · intro s e he
      rcases chosen s e he with hold | ⟨hslot, helected⟩
      · obtain ⟨hslot, helected⟩ := h.chosen r s e hold
        exact ⟨hslot, Elected.grows hg helected⟩
      · exact ⟨hslot, Elected.grows hg helected⟩

theorem asked_of_update (hc : Asked (w.update r l' said) s b c) :
    Asked w s b c ∨ ⟨s, b, c⟩ ∈ l'.acceptor.cast ∨
      ∃ receiver, Action.send receiver (.accept b s c) ∈ said := by
  rcases hc with ⟨sender, receiver, hsent⟩ | ⟨q, hcast⟩
  · rcases List.mem_append.1 hsent with hold | hsaid
    · exact .inl (.inl ⟨sender, receiver, hold⟩)
    · exact .inr (.inr ⟨receiver, (World.mem_envelopes.1 hsaid).2⟩)
  · by_cases hq : q = r
    · subst hq
      rw [World.machine_update_self] at hcast
      exact .inr (.inl hcast)
    · rw [World.machine_update_of_ne hq] at hcast
      exact .inl (.inr ⟨q, hcast⟩)

theorem say (h : g.Sound w) (hr : r ∈ g.members)
    (truthful : ∀ receiver m, Action.send receiver m ∈ said → (w.machine r).MaySay m) :
    g.Sound (w.update r (w.machine r) said) := by
  have hg : ∀ q, (w.machine q).Grows ((w.update r (w.machine r) said).machine q) :=
    grows_update (.refl _)
  have fresh : ∀ s b c, Asked (w.update r (w.machine r) said) s b c →
      Asked w s b c ∨ (w.machine r).Asks s b c := by
    intro s b c hc
    rcases asked_of_update hc with hold | hcast | ⟨receiver, hsaid⟩
    · exact .inl hold
    · exact .inl (.inr ⟨r, hcast⟩)
    · exact .inr (truthful receiver _ hsaid)
  refine h.advance hr (.refl _) (h.recorded r) fresh ?_ ?_ (fun s e he => .inl he)
  · intro receiver m hm
    exact Backed.grows hg (h.backed_of_maySay (truthful receiver m hm))
  · intro p current
    refine Pursued.grows hg (h.pursued r p current) fun s c hc => ?_
    exact (fresh s p.ballot c hc).imp_right fun hasks => hasks.phase current

/-- What the attempts of a member have reached after one of its moves. -/
theorem pursued_move (h : g.Sound w) (hr : r ∈ g.members)
    (hheard : ∀ sender m, heard sender m → w.Heard r sender m)
    (hmove : Move heard wanted (w.machine r) ready l')
    (hg : ∀ q, (w.machine q).Grows ((w.update r l' []).machine q))
    (fresh : ∀ s b c, Asked (w.update r l' []) s b c → Asked w s b c ∨ l'.Asks s b c)
    (p : Proposal) (hp : l'.active = some p) : g.Pursued (w.update r l' []) r p := by
  have keep : (w.machine r).active = some p → g.Pursued (w.update r l' []) r p := by
    intro current
    refine Pursued.grows hg (h.pursued r p current) fun s c hc => ?_
    exact (fresh s p.ballot c hc).imp_right fun hasks => hasks.phase hp
  have quiet : (∀ c votes, p.phase ≠ .accepting c votes) → ∀ s b c,
      Asked (w.update r l' []) s b c → Asked w s b c := by
    intro hphase s b c hc
    refine (fresh s b c hc).resolve_right fun hasks => ?_
    obtain ⟨votes, phase⟩ := hasks.phase hp
    exact hphase c votes phase
  have only : ∀ value votes, p.phase = .accepting value votes → ∀ s b c,
      Asked (w.update r l' []) s b c → Asked w s b c ∨ c = value := by
    intro value votes hphase s b c hc
    refine (fresh s b c hc).imp_right fun hasks => ?_
    obtain ⟨votes', phase⟩ := hasks.phase hp
    rw [hphase] at phase
    cases phase
    rfl
  cases hmove with
  | promote idle first =>
      cases hp
      exact pursued_of_backoff rfl
  | finish current found => cases hp
  | pause current =>
      cases hp
      exact pursued_of_backoff rfl
  | @reopen p s b attempts current target unseen unpromised own =>
      cases hp
      have hown : b.replica = r := by
        refine own.trans ?_
        show (w.machine r).topology.replica = r
        rw [h.placed r]
        rfl
      refine ⟨hown, ?_, fun s' c hc => ?_, fun q accepted hq => ?_⟩
      · rw [World.machine_update_self]
        exact le_max_right _ _
      · -- the ballot is above all that were seen, and one's own ballots are seen
        have hle := h.owned s' b c (quiet (by simp [Proposal.reopened]) s' b c hc)
        rw [hown] at hle
        exact absurd unseen (not_lt.2 hle)
      · cases hq
  | @countPromise p promises sender accepted current phase told =>
      cases hp
      obtain ⟨hmember, hpromised⟩ := h.backed_of_told hr hheard told
      exact Pursued.countPromise hg (h.pursued r p current) phase
        (fun s c => quiet (by simp [Proposal.inPhase]) s p.ballot c) hmember hpromised
  | @ask p promises current phase majority since =>
      cases hp
      have hpursued := h.pursued r p current
      obtain ⟨_, _, _, hpromises⟩ := (pursued_preparing_iff phase).1 hpursued
      rw [h.placed r] at majority
      exact Pursued.ask hg hpursued phase (h.safeAt_valueFor majority hpromises)
        (only _ _ rfl p.slot p.ballot)
  | @countVote p value votes sender current phase told =>
      cases hp
      obtain ⟨hmember, hvote⟩ := h.backed_of_told hr hheard told
      exact Pursued.countVote hg (h.pursued r p current) phase (only _ _ rfl p.slot p.ballot)
        hmember hvote
  | hear | win => exact keep (by rwa [ReplicatedLog.active_learn] at hp)
  | _ => exact keep hp

theorem move (h : g.Sound w) (hr : r ∈ g.members)
    (hheard : ∀ sender m, heard sender m → w.Heard r sender m)
    (hmove : Move heard wanted (w.machine r) ready l') : g.Sound (w.update r l' []) := by
  have hg : ∀ q, (w.machine q).Grows ((w.update r l' []).machine q) := grows_update hmove.grows
  have fresh : ∀ s b c, Asked (w.update r l' []) s b c → Asked w s b c ∨ l'.Asks s b c := by
    intro s b c hc
    rcases asked_of_update hc with hold | hcast | ⟨receiver, hsaid⟩
    · exact .inl hold
    · -- a vote follows on a request: from another member, or of the log to itself
      rcases hmove.asked_of_mem_cast hcast with hold | ⟨sender, htold⟩ | hasks
      · exact .inl (.inr ⟨r, hold⟩)
      · exact .inl (.inl ⟨sender, r, hheard _ _ htold⟩)
      · exact .inr hasks
    · cases hsaid
  refine h.advance hr hmove.grows ((h.recorded r).move hmove) fresh (by simp)
    (h.pursued_move hr hheard hmove hg fresh) ?_
  intro s e he
  refine (hmove.source_of_chosen he).imp_right ?_
  rintro ⟨hslot, ⟨sender, m, htold, hentry⟩ | won⟩
  · exact ⟨hslot, (h.sent r sender m (hheard sender m htold)).2.elected hentry⟩
  · exact ⟨hslot, h.elected_of_wins won⟩

/-- A step of a member keeps the group sound, whatever moves it is made up of. -/
theorem moves (h : g.Sound w) (hr : r ∈ g.members)
    (hheard : ∀ sender m, heard sender m → w.Heard r sender m)
    (hmoves : Moves heard wanted (w.machine r) actions ready l') :
    g.Sound (w.update r l' actions) :=
  world_induction (I := g.Sound) (fun _ _ _ h hheard hmove => h.move hr hheard hmove)
    (fun _ _ h truthful => h.say hr truthful) h hheard rfl hmoves

end Sound

end Group

end ReplicatedLedger
