import Mathlib.Logic.Function.Basic
import ReplicatedLedger.MessagePool

/-!
Machines joined by a network on which nothing can be relied: whatever was once sent may arrive at
any later time, any number of times, or never.
-/

namespace ReplicatedLedger

structure World (σ : Type) where
  machine : ReplicaId → σ
  /-- All that was ever sent. -/
  sent : List Envelope := []

namespace World

variable {σ : Type}

/-- The messages among the actions of a machine. -/
def envelopes (sender : ReplicaId) (actions : List Action) : List Envelope :=
  actions.filterMap fun
    | .send receiver m => some ⟨sender, receiver, m⟩
    | _ => none

/-- The world after a step of machine `r`. -/
def update (w : World σ) (r : ReplicaId) (machine : σ) (actions : List Action) : World σ where
  machine := Function.update w.machine r machine
  sent := w.sent ++ envelopes r actions

/-- The same world with only a part of each machine in view. -/
def map {τ : Type} (f : σ → τ) (w : World σ) : World τ where
  machine r := f (w.machine r)
  sent := w.sent

/-- Whether a message was sent to `r`. -/
def Heard (w : World σ) (r sender : ReplicaId) (m : Message) : Prop := ⟨sender, r, m⟩ ∈ w.sent

instance {w : World σ} {r sender : ReplicaId} {m : Message} : Decidable (w.Heard r sender m) :=
  inferInstanceAs (Decidable (_ ∈ w.sent))

variable {w : World σ} {r r' sender receiver : ReplicaId} {machine machine' : σ}
  {actions more : List Action} {m : Message}

theorem mem_envelopes : ⟨sender, receiver, m⟩ ∈ envelopes r actions ↔
    sender = r ∧ Action.send receiver m ∈ actions := by
  unfold envelopes
  rw [List.mem_filterMap]
  constructor
  · rintro ⟨action, hmem, haction⟩
    cases action with
    | send receiver' m' => cases haction; exact ⟨rfl, hmem⟩
    | setTimer t after => cases haction
    | cancelTimer t => cases haction
    | respond id response => cases haction
  · rintro ⟨rfl, hmem⟩
    exact ⟨.send receiver m, hmem, rfl⟩

@[simp] theorem machine_update_self : (w.update r machine actions).machine r = machine :=
  Function.update_self ..

theorem machine_update_of_ne (h : r' ≠ r) :
    (w.update r machine actions).machine r' = w.machine r' :=
  Function.update_of_ne h ..

/-- A property of all machines survives a step if the machine that moved keeps it. -/
theorem forall_machine_update {P : ReplicaId → σ → Prop} (h : ∀ r, P r (w.machine r))
    (hr : P r machine) (r' : ReplicaId) : P r' ((w.update r machine actions).machine r') := by
  by_cases hne : r' = r
  · subst hne
    rw [machine_update_self]
    exact hr
  · rw [machine_update_of_ne hne]
    exact h r'

theorem heard_update (h : w.Heard r' sender m) :
    (w.update r machine actions).Heard r' sender m :=
  List.mem_append_left _ h

theorem heard_of_send (h : Action.send r' m ∈ actions) :
    (w.update r machine actions).Heard r' r m :=
  List.mem_append_right _ (mem_envelopes.2 ⟨rfl, h⟩)

theorem update_update : (w.update r machine actions).update r machine' more =
    w.update r machine' (actions ++ more) := by
  unfold update
  simp only [Function.update_idem, List.append_assoc, mk.injEq, true_and]
  unfold envelopes
  rw [List.filterMap_append]

theorem map_update {τ : Type} (f : σ → τ) :
    (w.update r machine actions).map f = (w.map f).update r (f machine) actions := by
  unfold update map
  simp only [mk.injEq, and_true]
  exact Function.comp_update f w.machine r machine

theorem update_refl : w.update r (w.machine r) [] = w := by
  unfold update
  rw [Function.update_eq_self]
  cases w
  simp [envelopes]

end World

end ReplicatedLedger
