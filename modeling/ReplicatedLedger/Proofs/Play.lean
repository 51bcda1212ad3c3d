import Mathlib.Data.List.Induction

/-!
Runs that are carried out.  Cues are followed one after the other, and what comes of each is noted.
Where the runs of a system are a relation, the relation can so be shown to hold of a run that is
computed.
-/

namespace ReplicatedLedger

variable {σ κ ω : Type} {next? : σ → κ → Option (ω × σ)} {s s' : σ} {cue : κ} {cues : List κ} {o : ω}

/-- What comes of a list of cues.  A cue of which nothing comes is passed over. -/
def play (next? : σ → κ → Option (ω × σ)) (s : σ) (cues : List κ) : List ω × σ :=
  cues.foldl (fun p cue =>
    match next? p.2 cue with
    | some (o, s') => (p.1 ++ [o], s')
    | none => p) ([], s)

theorem play_concat : play next? s (cues ++ [cue]) =
    match next? (play next? s cues).2 cue with
    | some (o, s') => ((play next? s cues).1 ++ [o], s')
    | none => play next? s cues := by
  unfold play
  rw [List.foldl_append]
  rfl

theorem play_singleton : play next? s [cue] =
    match next? s cue with
    | some (o, s') => ([o], s')
    | none => ([], s) := rfl

/-- A run that is carried out goes on by what comes of one more cue. -/
theorem exists_play_concat {done : List ω} (h : ∃ cues, play next? s cues = (done, s'))
    {s'' : σ} (hnext : next? s' cue = some (o, s'')) :
    ∃ cues, play next? s cues = (done ++ [o], s'') := by
  obtain ⟨cues, hplay⟩ := h
  refine ⟨cues ++ [cue], ?_⟩
  rw [play_concat, hplay, hnext]

/-- Whatever is noted has come of one of the cues. -/
theorem exists_cue_of_mem_play (h : o ∈ (play next? s cues).1) :
    ∃ cue ∈ cues, ∃ s₁ s₂, next? s₁ cue = some (o, s₂) := by
  induction cues using List.reverseRecOn with
  | nil => cases h
  | append_singleton cues cue ih =>
      have hearlier : o ∈ (play next? s cues).1 →
          ∃ cue' ∈ cues ++ [cue], ∃ s₁ s₂, next? s₁ cue' = some (o, s₂) := fun ho => by
        obtain ⟨cue', hcue, hnext⟩ := ih ho
        exact ⟨cue', List.mem_append_left _ hcue, hnext⟩
      rw [play_concat] at h
      split at h
      · next o' s₁ hnext =>
        rcases List.mem_append.1 h with h | h
        · exact hearlier h
        · rw [List.mem_singleton.1 h]
          exact ⟨cue, List.mem_append_right _ List.mem_cons_self, _, s₁, hnext⟩
      · exact hearlier h

/-- What every step keeps holds of a run that is carried out. -/
theorem play_induction {P : List ω → σ → Prop} (rest : P [] s)
    (step : ∀ done s₁ cue o s₂, P done s₁ → next? s₁ cue = some (o, s₂) → P (done ++ [o]) s₂)
    (cues : List κ) : P (play next? s cues).1 (play next? s cues).2 := by
  induction cues using List.reverseRecOn with
  | nil => exact rest
  | append_singleton cues cue ih =>
      rw [play_concat]
      split
      · next o s' hnext => exact step _ _ cue o s' ih hnext
      · exact ih

end ReplicatedLedger
