import ReplicatedLedger.Proofs.Consensus.Group
import ReplicatedLedger.Proofs.Consensus.Voting

/-!
What holds of a whole group at every moment of every run.  A value is asked for only when no other
can have a majority under a lower ballot, and this lasts.
-/

namespace ReplicatedLedger

/-! ### The value that promises leave to ask for -/

namespace Proposal

variable {promises : List (Option (Ballot × Command))} {a : Ballot × Command}

theorem higherAccepted_eq_none_iff {best promise : Option (Ballot × Command)} :
    higherAccepted best promise = none ↔ best = none ∧ promise = none := by
  unfold higherAccepted
  split
  · simp
  · simp
  · split <;> simp

theorem higherAccepted_eq_some {best promise : Option (Ballot × Command)}
    (h : higherAccepted best promise = some a) :
    (best = some a ∨ promise = some a) ∧ (∀ x, best = some x → x.1 ≤ a.1) ∧
      ∀ x, promise = some x → x.1 ≤ a.1 := by
  unfold higherAccepted at h
  split at h
  · subst h
    simp
  · cases h
    simp
  · next b p =>
    split at h
    · next hlt =>
      cases h
      simpa using le_of_lt hlt
    · next hle =>
      cases h
      simpa using hle

theorem foldl_higherAccepted_eq_none {best : Option (Ballot × Command)}
    (h : promises.foldl higherAccepted best = none) :
    best = none ∧ ∀ promise ∈ promises, promise = none := by
  induction promises generalizing best with
  | nil => exact ⟨h, by simp⟩
  | cons promise promises ih =>
      obtain ⟨hfirst, hrest⟩ := ih h
      obtain ⟨hbest, hpromise⟩ := higherAccepted_eq_none_iff.1 hfirst
      exact ⟨hbest, List.forall_mem_cons.2 ⟨hpromise, hrest⟩⟩

theorem foldl_higherAccepted_eq_some {best : Option (Ballot × Command)}
    (h : promises.foldl higherAccepted best = some a) :
    (best = some a ∨ some a ∈ promises) ∧ (∀ x, best = some x → x.1 ≤ a.1) ∧
      ∀ x, some x ∈ promises → x.1 ≤ a.1 := by
  induction promises generalizing best with
  | nil =>
      have h : best = some a := h
      subst h
      simp
  | cons promise promises ih =>
      obtain ⟨hsource, hfirst, hrest⟩ := ih h
      have hle : ∀ x, best = some x ∨ promise = some x → x.1 ≤ a.1 := by
        intro x hx
        cases hhigher : higherAccepted best promise with
        | none =>
            rw [higherAccepted_eq_none_iff] at hhigher
            rcases hx with hx | hx
            · rw [hhigher.1] at hx; cases hx
            · rw [hhigher.2] at hx; cases hx
        | some y =>
            obtain ⟨_, hbest, hpromise⟩ := higherAccepted_eq_some hhigher
            exact le_trans (hx.elim (hbest x) (hpromise x)) (hfirst y hhigher)
      refine ⟨?_, fun x hx => hle x (.inl hx), fun x hx => ?_⟩
      · rcases hsource with hsource | hsource
        · rcases (higherAccepted_eq_some hsource).1 with hbest | hpromise
          · exact .inl hbest
          · exact .inr (hpromise ▸ List.mem_cons_self)
        · exact .inr (List.mem_cons_of_mem _ hsource)
      · rcases List.mem_cons.1 hx with hx | hx
        · exact hle x (.inr hx.symm)
        · exact hrest x hx

end Proposal

namespace Group

variable (g : Group)

/-! ### Facts about votes that last -/

/-- A majority has voted for the entry. -/
def Elected (w : World ReplicatedLog) (e : LogEntry) : Prop :=
  g.Majority fun r => e ∈ (w.machine r).acceptor.cast

/-- No other command than `c` can have a majority on `s` under a ballot below `b`. -/
def SafeAt (w : World ReplicatedLog) (s : Slot) (b : Ballot) (c : Command) : Prop :=
  ∀ b' < b, g.Majority fun r => (w.machine r).Avoids s b' c

/-- Whether anyone was asked to accept a value. -/
def Asked (w : World ReplicatedLog) (s : Slot) (b : Ballot) (c : Command) : Prop :=
  (∃ sender receiver, w.Heard receiver sender (.accept b s c)) ∨
    ∃ r, ⟨s, b, c⟩ ∈ (w.machine r).acceptor.cast

/-- What a message that was sent means at any later moment. -/
def Backed (w : World ReplicatedLog) (sender : ReplicaId) : Message → Prop
  | .promise b s accepted => (w.machine sender).Promised s b accepted
  | .accepted b s => ∃ c, ⟨s, b, c⟩ ∈ (w.machine sender).acceptor.cast
  | .chosen e => g.Elected w e
  | .catchUpResponse batch => ∀ e ∈ batch, g.Elected w e
  | _ => True

/-- What an attempt has reached.  Nobody has been asked anything under a ballot that still collects
promises, and nothing but the value under one that collects votes. -/
def Pursued (w : World ReplicatedLog) (r : ReplicaId) (p : Proposal) : Prop :=
  match p.phase with
  | .preparing promises =>
    p.ballot.replica = r ∧ p.ballot ≤ (w.machine r).highestBallot ∧
      (∀ s c, ¬ Asked w s p.ballot c) ∧
      ∀ q accepted, promises.get? q = some accepted →
        q ∈ g.members ∧ (w.machine q).Promised p.slot p.ballot accepted
  | .accepting value votes =>
    p.ballot.replica = r ∧ p.ballot ≤ (w.machine r).highestBallot ∧
      (g.SafeAt w p.slot p.ballot value ∧ ∀ c, Asked w p.slot p.ballot c → c = value) ∧
      ∀ q u, votes.get? q = some u →
        q ∈ g.members ∧ ∃ c, ⟨p.slot, p.ballot, c⟩ ∈ (w.machine q).acceptor.cast
  | .backoff => True

structure Sound (w : World ReplicatedLog) : Prop where
  placed : ∀ r, (w.machine r).topology = g.topology r
  recorded : ∀ r, (w.machine r).Recorded
  owned : ∀ s b c, Asked w s b c → b ≤ (w.machine b.replica).highestBallot
  unique : ∀ s b c c', Asked w s b c → Asked w s b c' → c = c'
  safe : ∀ s b c, Asked w s b c → g.SafeAt w s b c
  sent : ∀ r sender m, w.Heard r sender m → sender ∈ g.members ∧ g.Backed w sender m
  pursued : ∀ r p, (w.machine r).active = some p → g.Pursued w r p
  chosen : ∀ r s e, (w.machine r).chosen.get? s = some e → e.slot = s ∧ g.Elected w e

variable {g} {w w' : World ReplicatedLog} {r sender : ReplicaId} {s : Slot} {b : Ballot}
  {c c' : Command}

theorem sound_start (g : Group) : g.Sound g.start where
  placed _ := rfl
  recorded _ := by
    constructor
    · intro s b c hc
      cases hc
    · intro s a ha
      cases ha
  owned := by
    rintro s b c (⟨sender, receiver, h⟩ | ⟨r, h⟩) <;> cases h
  unique := by
    rintro s b c c' (⟨sender, receiver, h⟩ | ⟨r, h⟩) <;> cases h
  safe := by
    rintro s b c (⟨sender, receiver, h⟩ | ⟨r, h⟩) <;> cases h
  sent _ _ _ h := by cases h
  pursued _ _ h := by cases h
  chosen _ _ _ h := by cases h

/-! ### Agreement -/

namespace Sound

/-- Two commands that have a majority each are one and the same. -/
theorem agree {b' : Ballot} (h : g.Sound w) (he : g.Elected w ⟨s, b, c⟩)
    (he' : g.Elected w ⟨s, b', c'⟩) : c = c' := by
  wlog hle : b ≤ b' generalizing b b' c c'
  · exact (this he' he (le_of_not_ge hle)).symm
  obtain ⟨r, _, _, hvote'⟩ := he'.meet he'
  have hasked' : Asked w s b' c' := .inr ⟨r, hvote'⟩
  rcases lt_or_eq_of_le hle with hlt | rfl
  · -- when `c'` was asked for, a majority was past `b` without votes for anything else
    obtain ⟨r', _, hvote, havoids⟩ := he.meet (h.safe s b' c' hasked' b hlt)
    exact havoids.only c hvote
  · obtain ⟨r', _, hvote, _⟩ := he.meet he
    exact h.unique s b c c' (.inr ⟨r', hvote⟩) hasked'

/-- The value that a majority of promises leaves to ask for is safe. -/
theorem safeAt_valueFor {p : Proposal} {promises : SortedMap ReplicaId (Option (Ballot × Command))}
    (h : g.Sound w) (hsize : g.quorum ≤ promises.size)
    (hpromises : ∀ q accepted, promises.get? q = some accepted →
      q ∈ g.members ∧ (w.machine q).Promised p.slot p.ballot accepted) :
    g.SafeAt w p.slot p.ballot (p.valueFor promises) := by
  intro b hb
  unfold Proposal.valueFor
  split
  · next v hv =>
    obtain ⟨hsource, _, hhighest⟩ := Proposal.foldl_higherAccepted_eq_some hv
    obtain ⟨q, hq⟩ := SortedMap.mem_values_iff.1 (hsource.resolve_left (by simp))
    have hasked : Asked w p.slot v.1 v.2 := .inr ⟨q, (hpromises q _ hq).2.cast v rfl⟩
    rcases lt_or_ge b v.1 with hlt | hge
    · -- below the highest vote reported, the value was safe when that vote was asked for
      exact h.safe _ _ _ hasked b hlt
    · -- from there on, those who promised have voted for it at most
      refine majority_of_keys hsize fun r accepted hr => ?_
      obtain ⟨hmember, hpromised⟩ := hpromises r accepted hr
      refine ⟨hmember, hpromised.closed b hb, fun c hc => ?_⟩
      obtain ⟨a, ha, hle⟩ := hpromised.highest b hb c hc
      have hav : a.1 ≤ v.1 := hhighest a (SortedMap.mem_values_iff.2 ⟨r, by rw [hr, ha]⟩)
      have heq : b = v.1 := le_antisymm (le_trans hle hav) hge
      subst heq
      exact h.unique _ _ _ _ (.inr ⟨r, hc⟩) hasked
  · next hnone =>
    -- nobody who promised has voted below the ballot at all
    have hall := (Proposal.foldl_higherAccepted_eq_none hnone).2
    refine majority_of_keys hsize fun r accepted hr => ?_
    obtain ⟨hmember, hpromised⟩ := hpromises r accepted hr
    refine ⟨hmember, hpromised.closed b hb, fun c hc => ?_⟩
    obtain ⟨a, ha, _⟩ := hpromised.highest b hb c hc
    have hempty := hall accepted (SortedMap.mem_values_iff.2 ⟨r, hr⟩)
    rw [ha] at hempty
    cases hempty

end Sound

end Group

end ReplicatedLedger
