import ReplicatedLedger.Event

/-!
Positions of scheduled events.  Events are taken by time; of those due together, timers come before
messages and messages before clients, then the replicas go by number, and what is left goes in the
order of scheduling.
-/

namespace ReplicatedLedger

open Std

structure EventKey where
  time : Duration
  priority : Event.Priority
  site : ReplicaId
  sequence : Word
  deriving DecidableEq, Repr

namespace EventKey

instance : Ord EventKey :=
  ⟨compareLex (compareOn time) (compareLex (compareOn priority)
    (compareLex (compareOn site) (compareOn sequence)))⟩

instance : TransOrd EventKey := inferInstanceAs (TransCmp
  (compareLex (compareOn time) (compareLex (compareOn priority)
    (compareLex (compareOn site) (compareOn sequence)))))

instance : LawfulEqOrd EventKey where
  compare_self {a} := show compareLex (compareOn time) (compareLex (compareOn priority)
    (compareLex (compareOn site) (compareOn sequence))) a a = .eq from ReflCmp.compare_self
  eq_of_compare {a b} h := by
    have h : (compareOn time a b).then ((compareOn priority a b).then
      ((compareOn site a b).then (compareOn sequence a b))) = .eq := h
    simp only [Ordering.then_eq_eq, compareOn, Std.compare_eq_iff_eq] at h
    cases a; cases b; simp_all

/-- Keys in the order in which their events are taken. -/
def sort (keys : List EventKey) : List EventKey :=
  keys.mergeSort fun a b => (compare a b).isLE

end EventKey

end ReplicatedLedger
