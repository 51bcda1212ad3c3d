import ReplicatedLedger.Agenda.Basic
import ReplicatedLedger.Proofs.Result
import ReplicatedLedger.Proofs.SortedMap

/-!
Order in an agenda.  The queue, the index of the timers and the clock are kept by different
operations, and each of them keeps the three in step: nothing that is queued lies in the past,
sequence numbers are not used twice, and the index has exactly the expiries that are queued.
-/

namespace ReplicatedLedger

namespace Duration

variable {a b c : Duration}

protected theorem le_refl (a : Duration) : a ≤ a := Nat.le_refl a.nanoseconds

protected theorem le_trans (hab : a ≤ b) (hbc : b ≤ c) : a ≤ c := Nat.le_trans hab hbc

protected theorem le_of_not_le (h : ¬ a ≤ b) : b ≤ a := Nat.le_of_not_le h

theorem le_add (a b : Duration) : a ≤ a + b := Nat.le_add_right a.nanoseconds b.nanoseconds

theorem le_max_left (a b : Duration) : a ≤ max a b := by
  show a ≤ if a ≤ b then b else a
  split
  · assumption
  · exact Duration.le_refl a

theorem max_le (hac : a ≤ c) (hbc : b ≤ c) : max a b ≤ c := by
  show (if a ≤ b then b else a) ≤ c
  split <;> assumption

end Duration

/-- Of two events, the one that is taken first is not due later. -/
theorem EventKey.time_le_of_compare {key key' : EventKey} (h : compare key key' = .lt) :
    key.time ≤ key'.time := by
  have h : (compare key.time.nanoseconds key'.time.nanoseconds).then
      (compareLex (compareOn priority) (compareLex (compareOn site) (compareOn sequence)) key key')
        = .lt := h
  rcases Ordering.then_eq_lt.1 h with hlt | ⟨heq, _⟩
  · exact Nat.le_of_lt (Nat.compare_eq_lt.1 hlt)
  · exact Nat.le_of_eq (Nat.compare_eq_eq.1 heq)

theorem eq_of_replica_of_timer {t t' : ReplicaTimer} (hreplica : t.replica = t'.replica)
    (htimer : t.timer = t'.timer) : t = t' := by
  cases t; cases t'
  cases hreplica
  cases htimer
  rfl

namespace Agenda

variable {a a' : Agenda} {site : ReplicaId} {delay time : Duration} {e : Event} {t : ReplicaTimer}
  {key : EventKey}

/-- Nothing that is queued lies in the past, and no sequence number is used twice. -/
structure Keyed (a : Agenda) : Prop where
  ahead : ∀ key e, a.queue.get? key = some e → a.now ≤ key.time
  numbered : ∀ key e, a.queue.get? key = some e → key.sequence < a.nextSequence
  distinct : ∀ key key' e e', a.queue.get? key = some e → a.queue.get? key' = some e' →
    key.sequence = key'.sequence → key = key'

/-- The index leads from each timer to its expiry, and has no other timer. -/
structure Orderly (a : Agenda) : Prop extends Keyed a where
  indexed : ∀ t key, a.timers.get? t = some key ↔
    key.site = t.replica ∧ a.queue.get? key = some (.timer t.timer)

/-- What the world may do with an agenda: a new event, a timer set or cancelled, the first event
taken, or time that passes with nothing due. -/
inductive Operation (a : Agenda) : Agenda → Prop where
  | schedule {site : ReplicaId} {delay : Duration} {e : Event} {a' : Agenda}
      (other : ∀ t, e ≠ .timer t) (h : a.schedule site delay e = .ok a') : Operation a a'
  | arm {t : ReplicaTimer} {after : Duration} {a' : Agenda} (h : a.arm t after = .ok a') :
      Operation a a'
  | disarm (t : ReplicaTimer) : Operation a (a.disarm t)
  | take {key : EventKey} {e : Event} {a' : Agenda} (h : a.take? = some (key, e, a')) :
      Operation a a'
  | advance {time : Duration} (h : a.isDue time = false) : Operation a (a.advance time)

theorem orderly_empty : Orderly {} where
  ahead _ _ h := by cases h
  numbered _ _ h := by cases h
  distinct _ _ _ _ h := by cases h
  indexed _ _ := by
    constructor
    · intro h
      cases h
    · rintro ⟨_, h⟩
      cases h

/-! ### The queue -/

theorem schedule_eq_ok (h : a.schedule site delay e = .ok a') :
    a.nextSequence < a'.nextSequence ∧
    a' = { a with
      queue := a.queue.insert (a.keyFor site delay e) e
      nextSequence := a'.nextSequence } := by
  obtain ⟨next, hnext, h⟩ := bind_eq_ok_iff.1 h
  cases h
  exact ⟨Word.lt_of_sum_one hnext, rfl⟩

theorem get?_schedule (h : a.schedule site delay e = .ok a') (key : EventKey) :
    a'.queue.get? key = if key = a.keyFor site delay e then some e else a.queue.get? key := by
  rw [(schedule_eq_ok h).2]
  exact SortedMap.get?_insert _ _ _ _

/-- To arm a timer is to cancel it and to schedule its expiry. -/
theorem arm_eq_ok {after : Duration} (h : a.arm t after = .ok a') :
    ∃ a₁, (a.disarm t).schedule t.replica after (.timer t.timer) = .ok a₁ ∧
      a' = { a₁ with
        timers := (a.disarm t).timers.insert t
          ((a.disarm t).keyFor t.replica after (.timer t.timer)) } := by
  obtain ⟨a₁, hschedule, h⟩ := bind_eq_ok_iff.1 h
  cases h
  exact ⟨a₁, hschedule, rfl⟩

namespace Keyed

/-- The key for a new event is not in the queue. -/
theorem get?_keyFor (h : a.Keyed) (site : ReplicaId) (delay : Duration) (e : Event) :
    a.queue.get? (a.keyFor site delay e) = none := by
  refine Option.eq_none_iff_forall_ne_some.2 fun e' he' => ?_
  exact absurd (h.numbered _ e' he') (UInt64.lt_irrefl _)

/-- With fewer events queued, and none that is due before the new time, all is still in order. -/
theorem fewer (h : a.Keyed) (queue : SortedMap EventKey Event)
    (timers : SortedMap ReplicaTimer EventKey) (now : Duration)
    (fewer : ∀ key e, queue.get? key = some e → a.queue.get? key = some e ∧ now ≤ key.time) :
    Keyed { a with queue := queue, timers := timers, now := now } where
  ahead key e he := (fewer key e he).2
  numbered key e he := h.numbered key e (fewer key e he).1
  distinct key key' e e' he he' := h.distinct key key' e e' (fewer key e he).1 (fewer key' e' he').1

theorem schedule (h : a.Keyed) (hschedule : a.schedule site delay e = .ok a') : a'.Keyed := by
  obtain ⟨hnext, ha'⟩ := schedule_eq_ok hschedule
  refine ⟨fun key e' he' => ?_, fun key e' he' => ?_, fun key key' e' e'' he' he'' hsame => ?_⟩
  · rw [get?_schedule hschedule] at he'
    rw [ha']
    split at he'
    · next hkey =>
      rw [hkey]
      exact Duration.le_add a.now delay
    · exact h.ahead key e' he'
  · rw [get?_schedule hschedule] at he'
    split at he'
    · next hkey =>
      rw [hkey]
      exact hnext
    · exact UInt64.lt_trans (h.numbered key e' he') hnext
  · rw [get?_schedule hschedule] at he' he''
    -- The new event has a number of its own.
    split at he' <;> split at he''
    · next hkey hkey' => rw [hkey, hkey']
    · next hkey _ =>
      rw [hkey] at hsame
      exact absurd (h.numbered key' e'' he'') (by rw [← hsame]; exact UInt64.lt_irrefl _)
    · next _ hkey' =>
      rw [hkey'] at hsame
      exact absurd (h.numbered key e' he') (by rw [hsame]; exact UInt64.lt_irrefl _)
    · exact h.distinct key key' e' e'' he' he'' hsame

end Keyed

theorem timers_disarm (a : Agenda) (t : ReplicaTimer) :
    (a.disarm t).timers = a.timers.erase t := by
  unfold disarm
  split
  · rfl
  · next hnone => exact (SortedMap.erase_of_get?_eq_none hnone).symm

theorem now_disarm (a : Agenda) (t : ReplicaTimer) : (a.disarm t).now = a.now := by
  unfold disarm
  split <;> rfl

theorem nextSequence_disarm (a : Agenda) (t : ReplicaTimer) :
    (a.disarm t).nextSequence = a.nextSequence := by
  unfold disarm
  split <;> rfl

theorem get?_queue_of_disarm (h : (a.disarm t).queue.get? key = some e) :
    a.queue.get? key = some e := by
  unfold disarm at h
  split at h
  · rw [SortedMap.get?_erase] at h
    split at h
    · cases h
    · exact h
  · exact h

/-- The first event, with what is left when it is taken. -/
theorem take?_eq_some (h : a.take? = some (key, e, a')) : a.queue.get? key = some e ∧
    (∀ key' e', a.queue.get? key' = some e' → key.time ≤ key'.time) ∧
    a' = { a with
      queue := a.queue.erase key
      timers := timersAfter a.timers key.site e
      now := key.time } := by
  unfold take? at h
  split at h
  · cases h
  · next hfirst =>
    cases h
    obtain ⟨hget, hleast⟩ := SortedMap.first?_eq_some hfirst
    refine ⟨hget, fun key' e' he' => ?_, rfl⟩
    rcases hleast key' e' he' with rfl | hlt
    · exact Duration.le_refl _
    · exact EventKey.time_le_of_compare hlt

theorem le_of_isDue_eq_false (h : a.isDue time = false) (hkey : a.queue.get? key = some e) :
    time ≤ key.time := by
  unfold isDue firstTime? at h
  cases hfirst : a.queue.first? with
  | none =>
      have hempty : a.queue.toList = [] := List.head?_eq_none_iff.1 hfirst
      have hmem := SortedMap.get?_eq_some_iff.1 hkey
      rw [hempty] at hmem
      cases hmem
  | some first =>
      rw [hfirst] at h
      have hlater : time ≤ first.1.time := Duration.le_of_not_le (of_decide_eq_false h)
      rcases (SortedMap.first?_eq_some hfirst).2 key e hkey with rfl | hlt
      · exact hlater
      · exact Duration.le_trans hlater (EventKey.time_le_of_compare hlt)

/-! ### The index of the timers -/

namespace Orderly

/-- Of each timer at most one expiry is queued. -/
theorem unique (h : a.Orderly) {key' : EventKey} (hkey : a.queue.get? key = some (.timer t.timer))
    (hsite : key.site = t.replica) (hkey' : a.queue.get? key' = some (.timer t.timer))
    (hsite' : key'.site = t.replica) : key = key' := by
  have hindexed := (h.indexed t key).2 ⟨hsite, hkey⟩
  rw [(h.indexed t key').2 ⟨hsite', hkey'⟩] at hindexed
  cases hindexed
  rfl

theorem schedule (h : a.Orderly) (other : ∀ t, e ≠ .timer t)
    (hschedule : a.schedule site delay e = .ok a') : a'.Orderly where
  toKeyed := h.toKeyed.schedule hschedule
  indexed t key := by
    have htimers : a'.timers = a.timers := by rw [(schedule_eq_ok hschedule).2]
    rw [htimers, h.indexed, get?_schedule hschedule]
    split
    · next hkey =>
      rw [hkey, h.toKeyed.get?_keyFor, Option.some_inj]
      simp [other]
    · rfl

/-- Of a timer that is cancelled no expiry is left; the other events stay. -/
theorem get?_disarm_iff (h : a.Orderly) : (a.disarm t).queue.get? key = some e ↔
    a.queue.get? key = some e ∧ ¬ (key.site = t.replica ∧ e = .timer t.timer) := by
  unfold disarm
  split
  · next old hold =>
    obtain ⟨hsite, hget⟩ := (h.indexed t old).1 hold
    rw [SortedMap.get?_erase]
    split
    · next heq =>
      subst heq
      rw [hget]
      constructor
      · intro h
        cases h
      · rintro ⟨h, hother⟩
        cases h
        exact absurd ⟨hsite, rfl⟩ hother
    · next hne =>
      refine ⟨fun hkey => ⟨hkey, ?_⟩, And.left⟩
      rintro ⟨hsite', rfl⟩
      exact hne (h.unique hkey hsite' hget hsite)
  · next hnone =>
    refine ⟨fun hkey => ⟨hkey, ?_⟩, And.left⟩
    rintro ⟨hsite, rfl⟩
    rw [(h.indexed t key).2 ⟨hsite, hkey⟩] at hnone
    cases hnone

theorem disarm (h : a.Orderly) (t : ReplicaTimer) : (a.disarm t).Orderly where
  toKeyed := by
    have hkept := h.toKeyed.fewer (a.disarm t).queue (a.disarm t).timers a.now fun key e he =>
      ⟨get?_queue_of_disarm he, h.ahead key e (get?_queue_of_disarm he)⟩
    rwa [← now_disarm a t, ← nextSequence_disarm a t] at hkept
  indexed t' key := by
    rw [h.get?_disarm_iff, timers_disarm, SortedMap.get?_erase]
    split
    · next heq =>
      rw [heq]
      refine iff_of_false (by simp) ?_
      rintro ⟨hsite, _, hother⟩
      exact hother ⟨hsite, rfl⟩
    · next hne =>
      rw [h.indexed]
      refine and_congr_right fun hsite => (and_iff_left ?_).symm
      rintro ⟨hsite', htimer⟩
      exact hne (eq_of_replica_of_timer (hsite.symm.trans hsite') (Event.timer.inj htimer))

theorem arm {after : Duration} (h : a.Orderly) (harm : a.arm t after = .ok a') : a'.Orderly := by
  obtain ⟨a₁, hschedule, rfl⟩ := arm_eq_ok harm
  have hdisarmed := h.disarm t
  constructor
  case toKeyed =>
    have hkept := hdisarmed.toKeyed.schedule hschedule
    exact ⟨hkept.ahead, hkept.numbered, hkept.distinct⟩
  case indexed =>
    intro t' key
    rw [SortedMap.get?_insert, get?_schedule hschedule]
    split
    · next htimer =>
      subst htimer
      rw [Option.some_inj]
      constructor
      · rintro rfl
        exact ⟨rfl, if_pos rfl⟩
      · rintro ⟨hsite, hkey⟩
        split at hkey
        · next heq => exact heq.symm
        · exact absurd ⟨hsite, rfl⟩ (h.get?_disarm_iff.1 hkey).2
    · next htimer =>
      rw [hdisarmed.indexed]
      refine and_congr_right fun hsite => ?_
      split
      · next hkey =>
        rw [hkey, hdisarmed.toKeyed.get?_keyFor]
        refine iff_of_false (by simp) fun hsame => htimer ?_
        rw [Option.some_inj] at hsame
        rw [hkey] at hsite
        exact eq_of_replica_of_timer hsite.symm (Event.timer.inj hsame).symm
      · rfl

theorem take? (h : a.Orderly) (htake : a.take? = some (key, e, a')) : a'.Orderly := by
  obtain ⟨hkey, hfirst, rfl⟩ := take?_eq_some htake
  refine ⟨h.toKeyed.fewer _ _ _ fun key' e' he' => ?_, fun t key' => ?_⟩
  · rw [SortedMap.get?_erase] at he'
    split at he'
    · cases he'
    · exact ⟨he', hfirst key' e' he'⟩
  · -- The timer that runs out leaves the index together with its expiry.
    have hremaining : (timersAfter a.timers key.site e).get? t =
        if e = .timer t.timer ∧ key.site = t.replica then none else a.timers.get? t := by
      cases e with
      | timer timer =>
          show (a.timers.erase ⟨key.site, timer⟩).get? t = _
          rw [SortedMap.get?_erase]
          refine if_congr ?_ rfl rfl
          obtain ⟨r, timer'⟩ := t
          simp only [ReplicaTimer.mk.injEq, Event.timer.injEq, eq_comm, and_comm]
      | message sender m => simp [timersAfter]
      | request id request => simp [timersAfter]
    show (timersAfter a.timers key.site e).get? t = some key' ↔
      _ ∧ (a.queue.erase key).get? key' = _
    rw [hremaining, SortedMap.get?_erase]
    by_cases hsame : key' = key
    · subst hsame
      rw [if_pos rfl]
      refine iff_of_false ?_ (by simp)
      split
      · simp
      · next hother =>
        intro hindexed
        obtain ⟨hsite, hget⟩ := (h.indexed t key').1 hindexed
        rw [hkey] at hget
        cases hget
        exact hother ⟨rfl, hsite⟩
    · rw [if_neg hsame, ← h.indexed]
      split
      · next hexpired =>
        obtain ⟨rfl, hsite⟩ := hexpired
        refine iff_of_false (by simp) fun hindexed => ?_
        obtain ⟨hsite', hget⟩ := (h.indexed t key').1 hindexed
        exact hsame (h.unique hget hsite' hkey hsite)
      · rfl

theorem advance (h : a.Orderly) (hdue : a.isDue time = false) : (a.advance time).Orderly where
  toKeyed := h.toKeyed.fewer a.queue a.timers _ fun key e he =>
    ⟨he, Duration.max_le (h.ahead key e he) (le_of_isDue_eq_false hdue he)⟩
  indexed := h.indexed

theorem operation (h : a.Orderly) (hop : Operation a a') : a'.Orderly := by
  cases hop with
  | schedule other hschedule => exact h.schedule other hschedule
  | arm harm => exact h.arm harm
  | disarm t => exact h.disarm t
  | take htake => exact h.take? htake
  | advance hdue => exact h.advance hdue

end Orderly

/-! ### What is over -/

/-- An event was queued under the key and is so no longer. -/
structure Spent (a : Agenda) (key : EventKey) : Prop where
  numbered : key.sequence < a.nextSequence
  gone : a.queue.get? key = none

namespace Spent

theorem schedule (h : a.Spent key) (hschedule : a.schedule site delay e = .ok a') :
    a'.Spent key := by
  refine ⟨UInt64.lt_trans h.numbered (schedule_eq_ok hschedule).1, ?_⟩
  rw [get?_schedule hschedule, if_neg]
  · exact h.gone
  · rintro rfl
    exact absurd h.numbered (UInt64.lt_irrefl _)

theorem disarm (h : a.Spent key) (t : ReplicaTimer) : (a.disarm t).Spent key := by
  refine ⟨by rw [nextSequence_disarm]; exact h.numbered, ?_⟩
  refine Option.eq_none_iff_forall_ne_some.2 fun e he => ?_
  have hgone := h.gone
  rw [get?_queue_of_disarm he] at hgone
  cases hgone

theorem erase (h : a.Spent key) (key' : EventKey) (timers : SortedMap ReplicaTimer EventKey)
    (now : Duration) :
    Spent { a with queue := a.queue.erase key', timers := timers, now := now } key := by
  refine ⟨h.numbered, ?_⟩
  show (a.queue.erase key').get? key = none
  rw [SortedMap.get?_erase, h.gone, ite_self]

/-- What is over does not come back: keys are not used again. -/
theorem operation (h : a.Spent key) (hop : Operation a a') : a'.Spent key := by
  cases hop with
  | schedule _ hschedule => exact h.schedule hschedule
  | @arm t _ _ harm =>
      obtain ⟨a₁, hschedule, rfl⟩ := arm_eq_ok harm
      have hkept := (h.disarm t).schedule hschedule
      exact ⟨hkept.numbered, hkept.gone⟩
  | disarm t => exact h.disarm t
  | take htake =>
      obtain ⟨_, _, rfl⟩ := take?_eq_some htake
      exact h.erase _ _ _
  | advance _ => exact ⟨h.numbered, h.gone⟩

end Spent

/-- The expiry of a timer that is cancelled is over. -/
theorem Orderly.spent_of_disarm (h : a.Orderly) (hkey : a.timers.get? t = some key) :
    (a.disarm t).Spent key := by
  obtain ⟨hsite, hget⟩ := (h.indexed t key).1 hkey
  refine ⟨by rw [nextSequence_disarm]; exact h.numbered key _ hget, ?_⟩
  refine Option.eq_none_iff_forall_ne_some.2 fun e he => ?_
  obtain ⟨hget', hother⟩ := h.get?_disarm_iff.1 he
  rw [hget] at hget'
  cases hget'
  exact hother ⟨hsite, rfl⟩

/-- The expiry of a timer that is set anew is over. -/
theorem Orderly.spent_of_arm {after : Duration} (h : a.Orderly)
    (hkey : a.timers.get? t = some key) (harm : a.arm t after = .ok a') : a'.Spent key := by
  obtain ⟨a₁, hschedule, rfl⟩ := arm_eq_ok harm
  have hspent := (h.spent_of_disarm hkey).schedule hschedule
  exact ⟨hspent.numbered, hspent.gone⟩

/-- The clock is not put back. -/
theorem Orderly.now_le (h : a.Orderly) (hop : Operation a a') : a.now ≤ a'.now := by
  cases hop with
  | schedule _ hschedule =>
      rw [(schedule_eq_ok hschedule).2]
      exact Duration.le_refl _
  | @arm t _ _ harm =>
      obtain ⟨a₁, hschedule, rfl⟩ := arm_eq_ok harm
      have hnow : a₁.now = (a.disarm t).now := by rw [(schedule_eq_ok hschedule).2]
      show a.now ≤ a₁.now
      rw [hnow, now_disarm]
      exact Duration.le_refl _
  | disarm t =>
      rw [now_disarm]
      exact Duration.le_refl _
  | take htake =>
      obtain ⟨hkey, _, rfl⟩ := take?_eq_some htake
      exact h.ahead _ _ hkey
  | advance _ => exact Duration.le_max_left _ _

end Agenda

end ReplicatedLedger
