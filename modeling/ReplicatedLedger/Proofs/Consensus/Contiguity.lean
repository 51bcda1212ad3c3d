import Mathlib.Data.Nat.Find
import ReplicatedLedger.Proofs.Consensus.Standing

/-!
The chosen log has no gaps.  An attempt aims at the first slot that its replica does not know to be
chosen, so by the time that a value stands for a slot, every earlier slot is known to some member.
-/

namespace ReplicatedLedger

namespace ReplicatedLog

/-- Whether every slot before `s` is known to be chosen. -/
def KnowsBelow (l : ReplicatedLog) (s : Slot) : Prop := ∀ t < s, ∃ e, l.chosenAt? t = some e

/-- The applied prefix is known, and so is everything before the slot of an attempt.  The attempt
lies in the part of the log in which its command is looked for. -/
structure Rooted (l : ReplicatedLog) : Prop where
  applied : l.KnowsBelow l.nextApply
  aimed : ∀ p, l.active = some p → p.phase ≠ .backoff → p.floor ≤ p.slot ∧ l.KnowsBelow p.slot

variable {heard : ReplicaId → Message → Prop} {wanted : Command → Prop} {l l' : ReplicatedLog}
  {ready : List LogEntry} {p : Proposal} {s : Slot}

theorem KnowsBelow.grows (h : l.KnowsBelow s) (hg : l.Grows l') : l'.KnowsBelow s := by
  intro t ht
  obtain ⟨e, he⟩ := h t ht
  exact ⟨e, hg.chosen t e he⟩

/-- The first open slot has none but known slots before it. -/
theorem knowsBelow_of_firstOpenSlot (h : l.KnowsBelow l.nextApply)
    (target : l.firstOpenSlot = .ok s) : l.KnowsBelow s := by
  intro t ht
  obtain ⟨_, hknown, _⟩ := firstOpenSlot_eq_ok_iff.1 target
  by_cases hlt : t < l.nextApply
  · exact h t hlt
  · refine hknown t ?_ ht
    rw [Slot.lt_iff_toNat] at hlt
    rw [Slot.le_iff_toNat]
    omega

theorem rooted_fresh (t : Topology) (policy : ConsensusPolicy) :
    Rooted { topology := t, policy := policy } where
  applied t ht := absurd (Slot.lt_iff_toNat.1 ht) (Nat.not_lt_zero _)
  aimed _ h := by cases h

namespace Rooted

/-- A log that knows as much, and whose attempt has not moved, is rooted as the first was. -/
theorem of_frame (h : l.Rooted) (hg : l.Grows l') (hnext : l'.nextApply = l.nextApply)
    (haimed : ∀ p', l'.active = some p' → p'.phase ≠ .backoff →
      ∃ p, l.active = some p ∧ p.phase ≠ .backoff ∧ p.floor = p'.floor ∧ p.slot = p'.slot) :
    l'.Rooted where
  applied := by
    rw [hnext]
    exact h.applied.grows hg
  aimed p' hp' hphase' := by
    obtain ⟨p, hp, hphase, hfloor, hslot⟩ := haimed p' hp' hphase'
    obtain ⟨hle, hbelow⟩ := h.aimed p hp hphase
    rw [← hfloor, ← hslot]
    exact ⟨hle, hbelow.grows hg⟩

theorem withActive (h : l.Rooted) {phase : Phase} (current : l.active = some p)
    (underway : p.phase ≠ .backoff) : (l.withActive (p.inPhase phase)).Rooted := by
  refine h.of_frame (.of_frame rfl rfl rfl (le_refl _)) rfl fun p' hp' _ => ?_
  cases hp'
  exact ⟨p, current, underway, rfl, rfl⟩

theorem learn (h : l.Rooted) (e : LogEntry) : (l.learn e).Rooted :=
  h.of_frame (.learn l e) (nextApply_learn l e) fun p' hp' hphase' =>
    ⟨p', by rwa [active_learn] at hp', hphase', rfl, rfl⟩

theorem move (h : l.Rooted) (hl : l.Coherent) (hmove : Move heard wanted l ready l') :
    l'.Rooted := by
  have hg := hmove.grows
  cases hmove with
  | hear | win => exact h.learn _
  | finish => exact h.of_frame hg rfl fun p' hp' _ => by cases hp'
  | promote | pause =>
      refine h.of_frame hg rfl fun p' hp' hphase' => ?_
      cases hp'
      exact absurd rfl hphase'
  | @reopen p s b attempts current target unseen unpromised own =>
      refine ⟨h.applied.grows hg, fun p' hp' _ => ?_⟩
      cases hp'
      have hle : l.nextApply ≤ s := (firstOpenSlot_eq_ok_iff.1 target).1
      exact ⟨Slot.le_trans (hl.begun p current) hle,
        (knowsBelow_of_firstOpenSlot h.applied target).grows hg⟩
  | countPromise current phase | ask current phase | countVote current phase =>
      exact h.withActive current (by simp [phase])
  | handOut drained =>
      -- entries are handed out up to the first open slot
      have target : l.firstOpenSlot = .ok _ := firstMissing_of_drainFrom drained
      have hbelow : l.KnowsBelow _ := knowsBelow_of_firstOpenSlot h.applied target
      exact ⟨hbelow, h.aimed⟩
  | _ => exact h.of_frame hg rfl fun p' hp' hphase' => ⟨p', hp', hphase', rfl, rfl⟩

end Rooted

theorem Rooted.knowsBelow (h : l.Rooted) (offers : l.Offers p) : l.KnowsBelow p.slot :=
  (h.aimed p offers.current offers.underway).2

end ReplicatedLog

namespace Group

open ReplicatedLog (Move Moves)

variable {g : Group} {w w' : World ReplicatedLog} {r : ReplicaId} {l' : ReplicatedLog}
  {said : List Action} {ready : List LogEntry} {heard : ReplicaId → Message → Prop}
  {wanted : Command → Prop} {turns : List Turn} {s : Slot} {c : Command}

/-- Whether some member knows a slot as chosen. -/
def Known (g : Group) (w : World ReplicatedLog) (s : Slot) : Prop :=
  ∃ q ∈ g.members, ∃ e, (w.machine q).chosenAt? s = some e

/-- Slots that include all earlier ones are those before a certain position. -/
theorem exists_length_of_prefix {P : Slot → Prop} (h : ∀ s, P s → ∀ t < s, P t) :
    ∃ n : Nat, ∀ s, P s ↔ s.index.toNat < n := by
  classical
  have hbounded : ∃ n : Nat, ∀ s, P s → s.index.toNat < n :=
    ⟨UInt64.size, fun s _ => s.index.toNat_lt_size⟩
  refine ⟨Nat.find hbounded, fun s => ⟨Nat.find_spec hbounded s, fun hlt => ?_⟩⟩
  -- the position of `s` is below the least bound, so it is no bound itself
  obtain ⟨u, hu, hle⟩ : ∃ u, P u ∧ s.index.toNat ≤ u.index.toNat := by
    have hnot := Nat.find_min hbounded hlt
    push Not at hnot
    exact hnot
  rcases Nat.lt_or_eq_of_le hle with hlt | heq
  · exact h u hu s (Slot.lt_iff_toNat.2 hlt)
  · rw [Slot.toNat_inj.1 heq]
    exact hu

/-- A group in which values stand only for slots up to the first one that nobody knows. -/
structure Contiguous (g : Group) (w : World ReplicatedLog) : Prop where
  rooted : ∀ r, (w.machine r).Rooted
  below : ∀ s c, Stands w s c → ∀ t < s, g.Known w t

theorem Known.grows (hg : ∀ q, (w.machine q).Grows (w'.machine q)) (h : g.Known w s) :
    g.Known w' s := by
  obtain ⟨q, hq, e, he⟩ := h
  exact ⟨q, hq, e, (hg q).chosen s e he⟩

theorem contiguous_start (g : Group) : g.Contiguous g.start where
  rooted _ := ReplicatedLog.rooted_fresh _ _
  below _ _ h := absurd h (not_stands_start g)

namespace Contiguous

theorem move (h : g.Contiguous w) (hw : g.Sound w) (hr : r ∈ g.members)
    (hl : (w.machine r).Coherent) (hheard : ∀ sender m, heard sender m → w.Heard r sender m)
    (hmove : Move heard wanted (w.machine r) ready l') : g.Contiguous (w.update r l' []) where
  rooted := World.forall_machine_update (P := fun _ (l : ReplicatedLog) => l.Rooted)
    h.rooted ((h.rooted r).move hl hmove)
  below s c hs t ht := by
    refine Known.grows (grows_update hmove.grows) ?_
    rcases hw.stands_move hheard hmove hs with hold | ⟨p, offers, rfl, _⟩
    · exact h.below s c hold t ht
    · -- an offer is made for the first open slot of the member itself
      exact ⟨r, hr, (h.rooted r).knowsBelow offers t ht⟩

theorem say (h : g.Contiguous w)
    (truthful : ∀ receiver m, Action.send receiver m ∈ said → (w.machine r).MaySay m) :
    g.Contiguous (w.update r (w.machine r) said) where
  rooted := World.forall_machine_update (P := fun _ (l : ReplicatedLog) => l.Rooted)
    h.rooted (h.rooted r)
  below s c hs t ht :=
    Known.grows (grows_update (.refl _)) (h.below s c (Sound.stands_say truthful hs) t ht)

end Contiguous

theorem Run.contiguous (hrun : g.Run g.start turns w) : g.Contiguous w := by
  induction hrun with
  | rest => exact g.contiguous_start
  | @turn turns t w earlier taken ih =>
      have hsteady : g.Steady w := earlier.steady g.steady_start
      obtain ⟨hmoves, _⟩ := taken.moves hsteady
      exact Sound.moves_induction taken.member
        (fun _ _ _ hw hl hi hheard hmove => hi.move hw taken.member hl hheard hmove)
        (fun _ _ hi truthful => hi.say truthful)
        hsteady.sound (hsteady.coherent _) ih (fun _ _ hm => hm) hmoves

/-- Before a slot that a replica knows as chosen, or has accepted a value for, there are none but
slots that some member knows as chosen.  So the slots known to the members are a prefix of the log,
and no value is accepted beyond the first slot after it. -/
theorem chosen_prefix (hrun : g.Run g.start turns w) :
    (∀ r s, ((∃ e, (w.machine r).chosenAt? s = some e) ∨
        ∃ vote, (w.machine r).acceptor.accepted s = some vote) →
      ∀ t < s, ∃ q ∈ g.members, ∃ e, (w.machine q).chosenAt? t = some e) ∧
    ∃ n : Nat,
      (∀ s : Slot, (∃ q ∈ g.members, ∃ e, (w.machine q).chosenAt? s = some e) ↔
        s.index.toNat < n) ∧
      ∀ r s vote, (w.machine r).acceptor.accepted s = some vote → s.index.toNat ≤ n := by
  have hsound : g.Sound w := (hrun.steady g.steady_start).sound
  have hbelow : ∀ r s, ((∃ e, (w.machine r).chosenAt? s = some e) ∨
      ∃ vote, (w.machine r).acceptor.accepted s = some vote) → ∀ t < s, g.Known w t := by
    rintro r s (⟨e, he⟩ | ⟨vote, hvote⟩)
    · obtain ⟨rfl, helected⟩ := hsound.chosen r s e he
      exact hrun.contiguous.below _ _ helected.stands
    · exact hrun.contiguous.below _ _ (hsound.stands_of_accepted hvote)
  obtain ⟨n, hn⟩ := exists_length_of_prefix (P := g.Known w) fun s ⟨q, _, hknown⟩ =>
    hbelow q s (.inl hknown)
  refine ⟨hbelow, n, hn, fun r s vote hvote => ?_⟩
  by_contra hbeyond
  -- the slot at position `n` would be known, as it comes before `s`
  have hindex : (Slot.mk (UInt64.ofNat n)).index.toNat = n :=
    UInt64.toNat_ofNat_of_lt' (by have := s.index.toNat_lt_size; omega)
  have hknown : g.Known w ⟨UInt64.ofNat n⟩ :=
    hbelow r s (.inr ⟨vote, hvote⟩) _ (Slot.lt_iff_toNat.2 (by omega))
  have hlt := (hn _).1 hknown
  omega

theorem chosen_prefix_pair : ∃ turns w, pair.Run pair.start turns w ∧
    (w.machine ⟨2⟩).chosenAt? ⟨1⟩ = some ⟨⟨1⟩, ⟨2, ⟨2⟩⟩, .abort ⟨7⟩⟩ ∧
    (∀ r s, ((∃ e, (w.machine r).chosenAt? s = some e) ∨
        ∃ vote, (w.machine r).acceptor.accepted s = some vote) →
      ∀ t < s, ∃ q ∈ pair.members, ∃ e, (w.machine q).chosenAt? t = some e) ∧
    ∃ n : Nat,
      (∀ s : Slot, (∃ q ∈ pair.members, ∃ e, (w.machine q).chosenAt? s = some e) ↔
        s.index.toNat < n) ∧
      ∀ r s vote, (w.machine r).acceptor.accepted s = some vote → s.index.toNat ≤ n := by
  have hrun : pair.Run pair.start _ followed :=
    (pair.run_callAll _ ordering).append (pair.run_callAll _ following)
  exact ⟨_, _, hrun, chosenAt?_followed.2, chosen_prefix hrun⟩

end Group

end ReplicatedLedger
