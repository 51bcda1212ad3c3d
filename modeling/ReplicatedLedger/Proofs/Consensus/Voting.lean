import ReplicatedLedger.Proofs.Consensus.Acceptor
import ReplicatedLedger.Proofs.Consensus.Coherence

/-!
What can be said for good about the votes of a replica.  It votes on open slots only and never below
a promise, so a ballot once closed for a slot stays closed.
-/

namespace ReplicatedLedger

namespace ReplicatedLog

/-- Whether the replica will cast no more votes for `s` under `b`. -/
def Closed (l : ReplicatedLog) (s : Slot) (b : Ballot) : Prop :=
  (∃ e, l.chosen.get? s = some e) ∨ b < l.acceptor.promised s

/-- On open slots the acceptor holds its highest vote, which is not above its promise. -/
structure Recorded (l : ReplicatedLog) : Prop where
  highest : ∀ s b c, ⟨s, b, c⟩ ∈ l.acceptor.cast → l.chosen.get? s = none →
    ∃ a, l.acceptor.accepted s = some a ∧ b ≤ a.1
  cast : ∀ s a, l.acceptor.accepted s = some a →
    ⟨s, a.1, a.2⟩ ∈ l.acceptor.cast ∧ a.1 ≤ l.acceptor.promised s

/-- What a promise for `b` amounts to: nothing more below `b`, and no votes there above the one
reported. -/
structure Promised (l : ReplicatedLog) (s : Slot) (b : Ballot)
    (accepted : Option (Ballot × Command)) : Prop where
  closed : ∀ b' < b, l.Closed s b'
  highest : ∀ b' < b, ∀ c, ⟨s, b', c⟩ ∈ l.acceptor.cast → ∃ a, accepted = some a ∧ b' ≤ a.1
  cast : ∀ a, accepted = some a → ⟨s, a.1, a.2⟩ ∈ l.acceptor.cast

/-- Whether `c` is the only command that the replica can ever have voted for on `s` under `b`. -/
structure Avoids (l : ReplicatedLog) (s : Slot) (b : Ballot) (c : Command) : Prop where
  closed : l.Closed s b
  only : ∀ c', ⟨s, b, c'⟩ ∈ l.acceptor.cast → c' = c

/-- How a log changes over time. -/
structure Grows (l l' : ReplicatedLog) : Prop where
  topology : l'.topology = l.topology
  chosen : ∀ s e, l.chosen.get? s = some e → l'.chosen.get? s = some e
  cast : ∀ e ∈ l.acceptor.cast, e ∈ l'.acceptor.cast
  closed : ∀ s b, l.Closed s b → l'.Closed s b
  fresh : ∀ s b c, ⟨s, b, c⟩ ∈ l'.acceptor.cast →
    ⟨s, b, c⟩ ∈ l.acceptor.cast ∨ ¬ l.Closed s b
  highestBallot : l.highestBallot ≤ l'.highestBallot

variable {heard : ReplicaId → Message → Prop} {wanted : Command → Prop} {l l' l'' : ReplicatedLog}
  {actions : List Action}
  {ready : List LogEntry}
  {s : Slot} {b : Ballot} {c : Command} {accepted : Option (Ballot × Command)}

/-! ### Facts that last -/

theorem Avoids.grows (h : l.Avoids s b c) (hg : l.Grows l') : l'.Avoids s b c where
  closed := hg.closed s b h.closed
  only c' hc' := by
    rcases hg.fresh s b c' hc' with hold | hopen
    · exact h.only c' hold
    · exact absurd h.closed hopen

theorem Promised.grows (h : l.Promised s b accepted) (hg : l.Grows l') :
    l'.Promised s b accepted where
  closed b' hb' := hg.closed s b' (h.closed b' hb')
  highest b' hb' c hc := by
    rcases hg.fresh s b' c hc with hold | hopen
    · exact h.highest b' hb' c hold
    · exact absurd (h.closed b' hb') hopen
  cast a ha := hg.cast _ (h.cast a ha)

/-- What the acceptor of a coherent log promises holds. -/
theorem Recorded.promised (h : l.Recorded) (said : l.MaySay (.promise b s accepted)) :
    l.Promised s b accepted := by
  obtain ⟨opened, hle, rfl⟩ := said
  exact {
    closed := fun b' hb' => .inr (lt_of_lt_of_le hb' hle)
    highest := fun b' _ c hc => h.highest s b' c hc opened
    cast := fun a ha => (h.cast s a ha).1 }

namespace Grows

theorem refl (l : ReplicatedLog) : l.Grows l where
  topology := rfl
  chosen _ _ h := h
  cast _ h := h
  closed _ _ h := h
  fresh _ _ _ h := .inl h
  highestBallot := le_refl _

theorem trans (h : l.Grows l') (h' : l'.Grows l'') : l.Grows l'' where
  topology := h'.topology.trans h.topology
  chosen s e he := h'.chosen s e (h.chosen s e he)
  cast e he := h'.cast e (h.cast e he)
  closed s b hb := h'.closed s b (h.closed s b hb)
  fresh s b c hc := by
    rcases h'.fresh s b c hc with hold | hopen
    · exact h.fresh s b c hold
    · exact .inr fun hclosed => hopen (h.closed s b hclosed)
  highestBallot := le_trans h.highestBallot h'.highestBallot

theorem of_frame (htopology : l'.topology = l.topology) (hchosen : l'.chosen = l.chosen)
    (hacceptor : l'.acceptor = l.acceptor) (hhighest : l.highestBallot ≤ l'.highestBallot) :
    l.Grows l' where
  topology := htopology
  chosen := by rw [hchosen]; exact fun _ _ h => h
  cast := by rw [hacceptor]; exact fun _ h => h
  closed := by unfold Closed; rw [hchosen, hacceptor]; exact fun _ _ h => h
  fresh := by rw [hacceptor]; exact fun _ _ _ h => .inl h
  highestBallot := hhighest

/-- On an open slot a promise may rise, and votes be cast that it allows. -/
theorem of_vote {a : Acceptor} (opened : l.chosen.get? s = none)
    (hpromised : l.acceptor.promised s ≤ a.promised s)
    (hother : ∀ t, t ≠ s → a.promised t = l.acceptor.promised t)
    (hcast : ∀ e ∈ l.acceptor.cast, e ∈ a.cast)
    (hfresh : ∀ e ∈ a.cast, e ∈ l.acceptor.cast ∨
      e.slot = s ∧ l.acceptor.promised s ≤ e.ballot) : l.Grows (l.withAcceptor a) where
  topology := rfl
  chosen _ _ h := h
  cast := hcast
  closed t b h := by
    refine h.imp_right fun hlt => ?_
    by_cases ht : t = s
    · subst ht
      exact lt_of_lt_of_le hlt hpromised
    · exact lt_of_lt_of_eq hlt (hother t ht).symm
  fresh t b c hc := by
    refine (hfresh _ hc).imp_right ?_
    rintro ⟨rfl, hle⟩ (⟨e, he⟩ | hlt)
    · rw [opened] at he
      cases he
    · exact absurd hle (not_le.2 hlt)
  highestBallot := le_refl _

theorem learn (l : ReplicatedLog) (e : LogEntry) : l.Grows (l.learn e) := by
  by_cases hn : l.isNews e = true
  · have hacceptor : (l.learn e).acceptor = l.acceptor.forget e.slot := acceptor_learn hn
    have hhighest : (l.learn e).highestBallot = max l.highestBallot e.ballot := by
      simp [ReplicatedLog.learn, hn, observe]
    exact {
      topology := topology_learn l e
      chosen := fun s e' he' => get?_chosen_learn_of_some he'
      cast := by rw [hacceptor]; exact fun _ h => h
      closed := by
        rintro s b (⟨e', he'⟩ | hlt)
        · exact .inl ⟨e', get?_chosen_learn_of_some he'⟩
        · by_cases hs : s = e.slot
          · exact .inl ⟨e, by rw [get?_chosen_learn, if_pos ⟨hn, hs⟩]⟩
          · refine .inr ?_
            rw [hacceptor, Acceptor.promised_forget, if_neg hs]
            exact hlt
      fresh := by rw [hacceptor]; exact fun _ _ _ h => .inl h
      highestBallot := by rw [hhighest]; exact le_max_left _ _ }
  · rw [learn_of_known (by simpa using hn)]
    exact refl l

end Grows

theorem Move.grows (h : Move heard wanted l ready l') : l.Grows l' := by
  cases h with
  | observe b => exact .of_frame rfl rfl rfl (le_max_left _ _)
  | promise opened kept =>
      -- the promise rises, and no vote is cast
      obtain ⟨hle, _, _⟩ := Acceptor.prepare_eq_ok_iff.1 kept
      refine .of_vote opened ?_ ?_ ?_ ?_
      · rw [Acceptor.promised_prepare kept, if_pos rfl]
        exact hle
      · intro t ht
        rw [Acceptor.promised_prepare kept, if_neg ht]
      · rw [Acceptor.cast_prepare kept]
        exact fun e he => he
      · rw [Acceptor.cast_prepare kept]
        exact fun e he => .inl he
  | vote opened asked kept =>
      obtain ⟨hle, _⟩ := Acceptor.accept_eq_ok_iff.1 kept
      refine .of_vote opened ?_ ?_ ?_ ?_
      · rw [Acceptor.promised_accept kept, if_pos rfl]
        exact hle
      · intro t ht
        rw [Acceptor.promised_accept kept, if_neg ht]
      · rw [Acceptor.cast_accept kept]
        exact fun e he => List.mem_cons_of_mem _ he
      · rw [Acceptor.cast_accept kept]
        intro e he
        rcases List.mem_cons.1 he with rfl | he
        · exact .inr ⟨rfl, hle⟩
        · exact .inl he
  | hear | win => exact .learn l _
  | submit due => exact .of_frame rfl rfl rfl (le_refl _)
  | promote idle first => exact .of_frame rfl rfl rfl (le_refl _)
  | finish current found => exact .of_frame rfl rfl rfl (le_refl _)
  | pause current => exact .of_frame rfl rfl rfl (le_refl _)
  | reopen attempts current target unseen unpromised own =>
      exact .of_frame rfl rfl rfl (le_max_left _ _)
  | countPromise current phase told => exact .of_frame rfl rfl rfl (le_refl _)
  | ask current phase majority since => exact .of_frame rfl rfl rfl (le_refl _)
  | countVote current phase told => exact .of_frame rfl rfl rfl (le_refl _)
  | handOut drained => exact .of_frame rfl rfl rfl (le_refl _)
  | handOver => exact .of_frame rfl rfl rfl (le_refl _)
  | repartition partition => exact .of_frame rfl rfl rfl (le_refl _)

theorem Moves.grows (h : Moves heard wanted l actions ready l') : l.Grows l' := by
  induction h with
  | refl l => exact .refl l
  | move first _ ih => exact first.grows.trans ih
  | say _ _ ih => exact ih

/-! ### The record of votes -/

namespace Recorded

theorem of_frame (h : l.Recorded) (hchosen : l'.chosen = l.chosen)
    (hacceptor : l'.acceptor = l.acceptor) : l'.Recorded where
  highest := by rw [hchosen, hacceptor]; exact h.highest
  cast := by rw [hacceptor]; exact h.cast

theorem learn (h : l.Recorded) (e : LogEntry) : (l.learn e).Recorded := by
  by_cases hn : l.isNews e = true
  · have hacceptor : (l.learn e).acceptor = l.acceptor.forget e.slot := acceptor_learn hn
    constructor
    · intro s b c hc opened
      rw [get?_chosen_learn] at opened
      -- the acceptor has dropped the slot of `e` only, and that is no longer open
      have hs : s ≠ e.slot := by
        rintro rfl
        rw [if_pos ⟨hn, rfl⟩] at opened
        cases opened
      rw [if_neg (fun hnew => hs hnew.2)] at opened
      rw [hacceptor, Acceptor.accepted_forget, if_neg hs]
      rw [hacceptor] at hc
      exact h.highest s b c hc opened
    · intro s a ha
      rw [hacceptor, Acceptor.accepted_forget] at ha
      split at ha
      · cases ha
      · next hs =>
        obtain ⟨hcast, hle⟩ := h.cast s a ha
        rw [hacceptor, Acceptor.promised_forget, if_neg hs]
        exact ⟨hcast, hle⟩
  · rw [learn_of_known (by simpa using hn)]
    exact h

theorem promise {a : Acceptor} (h : l.Recorded)
    (kept : l.acceptor.prepare s b = (a, .ok accepted)) : (l.withAcceptor a).Recorded where
  highest t b' c hc opened := by
    show ∃ v, a.accepted t = some v ∧ b' ≤ v.1
    rw [Acceptor.accepted_prepare kept]
    have hc : ⟨t, b', c⟩ ∈ a.cast := hc
    rw [Acceptor.cast_prepare kept] at hc
    exact h.highest t b' c hc opened
  cast t v hv := by
    have hv : a.accepted t = some v := hv
    rw [Acceptor.accepted_prepare kept] at hv
    obtain ⟨hcast, hle⟩ := h.cast t v hv
    show _ ∈ a.cast ∧ v.1 ≤ a.promised t
    rw [Acceptor.cast_prepare kept, Acceptor.promised_prepare kept]
    refine ⟨hcast, ?_⟩
    split
    · next ht =>
      subst ht
      exact le_trans hle (Acceptor.prepare_eq_ok_iff.1 kept).1
    · exact hle

theorem vote {a : Acceptor} (h : l.Recorded) (kept : l.acceptor.accept s b c = (a, .ok ())) :
    (l.withAcceptor a).Recorded where
  highest t b' c' hc opened := by
    show ∃ v, a.accepted t = some v ∧ b' ≤ v.1
    have hc : ⟨t, b', c'⟩ ∈ a.cast := hc
    rw [Acceptor.cast_accept kept] at hc
    rw [Acceptor.accepted_accept kept]
    rcases List.mem_cons.1 hc with hnew | hold
    · cases hnew
      exact ⟨(b, c), if_pos rfl, le_refl b⟩
    · obtain ⟨v, hv, hle⟩ := h.highest t b' c' hold opened
      split
      · next ht =>
        -- earlier votes are not above the promise that let this one pass
        subst ht
        have hpromised := (Acceptor.accept_eq_ok_iff.1 kept).1
        exact ⟨(b, c), rfl, le_trans hle (le_trans (h.cast t v hv).2 hpromised)⟩
      · exact ⟨v, hv, hle⟩
  cast t v hv := by
    have hv : a.accepted t = some v := hv
    rw [Acceptor.accepted_accept kept] at hv
    show _ ∈ a.cast ∧ v.1 ≤ a.promised t
    rw [Acceptor.cast_accept kept, Acceptor.promised_accept kept]
    split at hv
    · next ht =>
      cases hv
      rw [if_pos ht, ht]
      exact ⟨List.mem_cons_self, le_refl b⟩
    · next ht =>
      obtain ⟨hcast, hle⟩ := h.cast t v hv
      rw [if_neg ht]
      exact ⟨List.mem_cons_of_mem _ hcast, hle⟩

theorem move (h : l.Recorded) (hmove : Move heard wanted l ready l') : l'.Recorded := by
  cases hmove with
  | promise opened kept => exact h.promise kept
  | vote opened asked kept => exact h.vote kept
  | hear | win => exact h.learn _
  | _ => exact h.of_frame rfl rfl

end Recorded

/-! ### Where votes and chosen entries come from -/

theorem Move.asked_of_mem_cast (h : Move heard wanted l ready l') (hcast : ⟨s, b, c⟩ ∈ l'.acceptor.cast) :
    ⟨s, b, c⟩ ∈ l.acceptor.cast ∨ (∃ sender, heard sender (.accept b s c)) ∨ l'.Asks s b c := by
  cases h with
  | @promise _ _ a _ opened kept =>
      have hcast : ⟨s, b, c⟩ ∈ a.cast := hcast
      rw [Acceptor.cast_prepare kept] at hcast
      exact .inl hcast
  | @vote _ _ _ a sender opened asked kept =>
      have hcast : ⟨s, b, c⟩ ∈ a.cast := hcast
      rw [Acceptor.cast_accept kept] at hcast
      rcases List.mem_cons.1 hcast with hnew | hold
      · cases hnew
        exact .inr (asked.imp (fun htold => ⟨sender, htold⟩) (fun hself => hself.2))
      · exact .inl hold
  | hear | win => exact .inl (by rwa [cast_learn] at hcast)
  | _ => exact .inl hcast

theorem Move.source_of_chosen {e : LogEntry} (h : Move heard wanted l ready l')
    (hs : l'.chosen.get? s = some e) :
    l.chosen.get? s = some e ∨
      e.slot = s ∧ ((∃ sender m, heard sender m ∧ e ∈ m.entries) ∨ l.Wins e) := by
  have learned : ∀ e', (l.learn e').chosen.get? s = some e →
      l.chosen.get? s = some e ∨ e' = e ∧ e.slot = s := by
    intro e' hs
    rw [get?_chosen_learn] at hs
    split at hs
    · next hnew =>
      cases hs
      exact .inr ⟨rfl, hnew.2.symm⟩
    · exact .inl hs
  cases h with
  | @hear e' sender m told carried =>
      refine (learned e' hs).imp_right ?_
      rintro ⟨rfl, hslot⟩
      exact ⟨hslot, .inl ⟨sender, m, told, carried⟩⟩
  | @win e' won =>
      refine (learned e' hs).imp_right ?_
      rintro ⟨rfl, hslot⟩
      exact ⟨hslot, .inr won⟩
  | _ => exact .inl hs

/-! ### Entries handed out -/

theorem Move.handedOut (h : Move heard wanted l ready l') :
    l'.nextApply.index.toNat = l.nextApply.index.toNat + ready.length ∧
      ∀ i e, ready[i]? = some e →
        ∃ k : Slot, k.index.toNat = l.nextApply.index.toNat + i ∧ l.chosen.get? k = some e := by
  cases h with
  | handOut drained =>
      obtain ⟨hstop, hready⟩ := drainFrom_spec drained
      refine ⟨hstop, fun i e hi => ?_⟩
      obtain ⟨k, hk, hmem⟩ := hready i e hi
      exact ⟨k, hk, SortedMap.get?_eq_some_iff.2 hmem⟩
  | hear | win => exact ⟨by rw [nextApply_learn]; rfl, fun i e hi => by cases hi⟩
  | _ => exact ⟨rfl, fun i e hi => by cases hi⟩

/-- A step hands out the known entries of the slots that follow on, one after another. -/
theorem Moves.handedOut (h : Moves heard wanted l actions ready l') :
    l'.nextApply.index.toNat = l.nextApply.index.toNat + ready.length ∧
      ∀ i e, ready[i]? = some e →
        ∃ k : Slot, k.index.toNat = l.nextApply.index.toNat + i ∧ l'.chosen.get? k = some e := by
  induction h with
  | refl => exact ⟨rfl, fun i e hi => by cases hi⟩
  | @move l l₁ l₂ actions handed ready first rest ih =>
      obtain ⟨hfirst, hhanded⟩ := first.handedOut
      obtain ⟨hrest, hready⟩ := ih
      refine ⟨by rw [List.length_append]; omega, fun i e hi => ?_⟩
      rcases Nat.lt_or_ge i handed.length with hlt | hge
      · rw [List.getElem?_append_left hlt] at hi
        obtain ⟨k, hk, hknown⟩ := hhanded i e hi
        exact ⟨k, hk, rest.grows.chosen k e (first.grows.chosen k e hknown)⟩
      · rw [List.getElem?_append_right hge] at hi
        obtain ⟨k, hk, hknown⟩ := hready (i - handed.length) e hi
        exact ⟨k, by omega, hknown⟩
  | say _ _ ih => exact ih

end ReplicatedLog

end ReplicatedLedger
