import Mathlib.Data.List.Perm.Basic
import Shbk2.Lib.Tally
import Shbk2.PoolCalls

/-! Callers that wait for a connection. What they hold is what is alive in `PoolUse`, and
as long as the counter holds that number they wait like a `Monitor` for what is left of
the pool: no wake-up is lost, every call comes to its handler once enough are released,
and nobody ever waits exactly where there are no more callers than connections. -/
namespace Shbk2
open Transition

namespace PoolCalls
variable {kMinCount kMaxCount : UInt32} {connected : Nat → Bool} {s t : PoolCalls}

/-- The handlers out of the pool. -/
def held (s : PoolCalls) : List ConnHandler := Slots.held (s.callers.map Caller.handler)

section Held
variable {i : Nat} {c : Caller} {pool : ConnPool}

theorem handler_get (get : s.callers[i]? = some c) :
    (s.callers.map Caller.handler)[i]? = some c.handler := by
  rw [List.getElem?_map, get, Option.map_some]

theorem held_same (get : s.callers[i]? = some c) (d : Caller) (same : d.handler = c.handler) :
    held s = held ⟨pool, s.callers.set i d⟩ := by
  rw [held, held, Tally.map_set_same Caller.handler get d same]

theorem held_returned (pool : ConnPool) (get : s.callers[i]? = some c) (none : c.handler = none)
    (handler : ConnHandler) :
    (held ⟨pool, s.callers.set i (.holding handler)⟩).Perm (handler :: held s) := by
  have empty := handler_get get
  rw [none] at empty
  rw [held, List.map_set]
  exact Slots.held_fill empty handler

theorem held_released (pool : ConnPool) {handler : ConnHandler}
    (get : s.callers[i]? = some (.holding handler)) :
    (held s).Perm (handler :: held ⟨pool, s.callers.set i .away⟩) := by
  rw [held, held, List.map_set]
  exact Slots.held_get (handler_get get)

theorem notifyOne_cases {callers after : List Caller} {woken : Option Nat}
    (woke : Monitor.notifyOne Caller.phase .notified callers woken = some after) :
    after = callers ∨ ∃ i, callers[i]? = some .asleep ∧ after = callers.set i .notified := by
  rcases Monitor.notifyOne_cases woke with ⟨_, same, _⟩ | ⟨i, c, _, get, asleep, same⟩
  · exact .inl same
  · cases c with
    | asleep => exact .inr ⟨i, get, same⟩
    | _ => contradiction

theorem handlers_notifyOne {callers after : List Caller} {woken : Option Nat}
    (woke : Monitor.notifyOne Caller.phase .notified callers woken = some after) :
    after.map Caller.handler = callers.map Caller.handler := by
  rcases notifyOne_cases woke with rfl | ⟨i, get, rfl⟩
  · rfl
  · exact Tally.map_set_same Caller.handler get .notified rfl

theorem held_notifyOne {callers : List Caller} {woken : Option Nat}
    (woke : Monitor.notifyOne Caller.phase .notified s.callers woken = some callers) (d : Caller) :
    held ⟨pool, callers.set i d⟩ = held ⟨pool, s.callers.set i d⟩ := by
  simp only [held, List.map_set, handlers_notifyOne woke]

/-- A notification does not reach the caller that sends it. -/
theorem get_notifyOne {callers after : List Caller} {woken : Option Nat} {handler : ConnHandler}
    (woke : Monitor.notifyOne Caller.phase .notified callers woken = some after)
    (get : callers[i]? = some (.holding handler)) : after[i]? = some (.holding handler) := by
  rcases notifyOne_cases woke with rfl | ⟨j, asleep, rfl⟩
  · exact get
  · have other : j ≠ i := by
      rintro rfl
      exact absurd (get.symm.trans asleep) nofun
    rw [List.getElem?_set_ne other]
    exact get

theorem empty_handed (waited : c = .entering ∨ c.phase = .notified) : c.handler = none := by
  rcases waited with rfl | woken
  · rfl
  · cases c <;> first | rfl | contradiction

end Held

/-- The callers use the pool as `PoolUse` has it. -/
theorem simulates_poolUse : Simulates step (fun _ _ => ([] : List Unit)) PoolUse.step (fun _ _ => [])
    fun s u => u.pool = s.pool ∧ u.alive.Perm (held s) := by
  rintro s ⟨pool, alive⟩ a t ⟨rfl, perm⟩ enabled
  cases stepped_of_step enabled with
  | call i get => exact answered_silently ⟨rfl, perm.trans (.of_eq (held_same get _ rfl))⟩
  | sleeps i connected c get waited =>
    have none : Caller.asleep.handler = c.handler := by rcases waited with rfl | rfl <;> rfl
    exact answered_silently ⟨rfl, perm.trans (.of_eq (held_same get _ none))⟩
  | fails i connected c get waited =>
    have none : Caller.away.handler = c.handler := (empty_handed waited).symm
    exact answered_silently ⟨rfl, perm.trans (.of_eq (held_same get _ none))⟩
  | wakeUp i get => exact answered_silently ⟨rfl, perm.trans (.of_eq (held_same get _ rfl))⟩
  | expire i c get waited =>
    have none : Caller.timedOut.handler = c.handler := by rcases waited with rfl | rfl <;> rfl
    exact answered_silently ⟨rfl, perm.trans (.of_eq (held_same get _ none))⟩
  | returns i connected c handler pool get waited requested =>
    refine answered_by (.request connected) rfl rfl ⟨?_, ?_⟩
    · simp only [requested]
    · simp only [requested, Option.toList_some]
      refine (List.perm_append_singleton handler alive).trans ?_
      exact (perm.cons handler).trans (held_returned pool get (empty_handed waited) handler).symm
  | release i woken handler pool callers get released woke =>
    have inside : handler ∈ alive :=
      perm.mem_iff.mpr ((held_released pool get).mem_iff.mpr List.mem_cons_self)
    obtain ⟨k, found⟩ := List.getElem?_of_mem inside
    have destroyed : PoolUse.step ⟨s.pool, alive⟩ (.destroy k) = some ⟨pool, alive.eraseIdx k⟩ := by
      simp only [PoolUse.step, found, Option.bind_some, released, Option.map_some]
    refine answered_by (.destroy k) destroyed rfl ⟨rfl, ?_⟩
    obtain ⟨bound, here⟩ := List.getElem?_eq_some_iff.mp found
    have split : (handler :: alive.eraseIdx k).Perm alive :=
      here ▸ List.getElem_cons_eraseIdx_perm bound
    rw [held_notifyOne woke .away]
    exact (split.trans (perm.trans (held_released pool get))).cons_inv

/-- The most connections there can be. -/
def capacity (kMinCount kMaxCount : UInt32) : Nat := max kMinCount.toNat kMaxCount.toNat

/-- The pool and the handlers out of it, as `PoolUse` reaches them. -/
def Uses (kMinCount kMaxCount : UInt32) (connected : Nat → Bool) (s : PoolCalls) : Prop :=
  ∃ u, Reachable PoolUse.step (PoolUse.init kMinCount kMaxCount connected) u ∧
    u.pool = s.pool ∧ u.alive.Perm (held s)

theorem uses_init (kMinCount kMaxCount : UInt32) (connected : Nat → Bool) (callers : Nat) :
    Uses kMinCount kMaxCount connected (init kMinCount kMaxCount connected callers) := by
  refine ⟨_, .refl _, rfl, ?_⟩
  have none : held (init kMinCount kMaxCount connected callers) = [] := by
    simp [held, init, Caller.handler]
  rw [none]
  exact .refl _

theorem uses_step {a : Action} (uses : Uses kMinCount kMaxCount connected s)
    (enabled : step s a = some t) : Uses kMinCount kMaxCount connected t := by
  obtain ⟨u, reached, related⟩ := uses
  obtain ⟨actions, v, answered, _, final⟩ := simulates_poolUse s u a t related enabled
  obtain ⟨before, ran⟩ := reached
  exact ⟨v, ⟨before ++ actions, by rw [run_append, ran]; exact answered⟩, final⟩

section Uses
variable (uses : Uses kMinCount kMaxCount connected s)
include uses

theorem Uses.held_le : (held s).length ≤ capacity kMinCount kMaxCount := by
  obtain ⟨u, reached, _, perm⟩ := uses
  have consistent := PoolUse.consistent_reachable reached
  have used := consistent.inUse
  have bound := u.pool.inUse_le
  have upper := consistent.upper
  rw [← perm.length_eq, capacity]
  omega

theorem Uses.satisfied_iff (small : capacity kMinCount kMaxCount < 2 ^ 31) :
    s.pool.isCondSatisfied = true ↔ (held s).length < capacity kMinCount kMaxCount := by
  obtain ⟨u, reached, same, perm⟩ := uses
  have consistent := PoolUse.consistent_reachable reached
  have used := consistent.inUse
  have bound := u.pool.inUse_le
  have upper := consistent.upper
  have lower := consistent.lower
  rw [← same, PoolUse.isCondSatisfied_iff consistent, consistent.config.2, ← perm.length_eq, capacity]
  rw [capacity] at small
  omega

/-- A request fails on an exhausted pool only. -/
theorem Uses.exhausted {connects : Bool} (failed : (s.pool.requestHandler connects).1 = none) :
    capacity kMinCount kMaxCount ≤ (held s).length := by
  obtain ⟨u, reached, same, perm⟩ := uses
  have consistent := PoolUse.consistent_reachable reached
  refine Nat.le_of_not_lt fun room => ?_
  rw [← perm.length_eq] at room
  obtain ⟨h, succeeded⟩ := PoolUse.request_succeeds consistent room connects
  rw [same, failed] at succeeded
  contradiction

/-- A handler that is out of the pool can be released. -/
theorem Uses.released {i : Nat} {handler : ConnHandler} (get : s.callers[i]? = some (.holding handler)) :
    ∃ pool, s.pool.releaseConnHandler handler.index = some pool := by
  obtain ⟨u, reached, same, perm⟩ := uses
  have consistent := PoolUse.consistent_reachable reached
  have inside : handler ∈ u.alive :=
    perm.mem_iff.mpr ((held_released s.pool get).mem_iff.mpr List.mem_cons_self)
  have wrapper := consistent.holds handler inside
  rw [same] at wrapper
  rw [ConnPool.releaseConnHandler, wrapper]
  exact ⟨_, rfl⟩

end Uses

/-! Waiting. -/

/-- A connection that is not out, or not made yet, is one share of what is available. -/
def monitor (capacity : Nat) (s : PoolCalls) : Monitor.Waiting :=
  ⟨capacity - (held s).length, s.callers.map Caller.phase⟩

section Phases
variable {capacity i : Nat} {c : Caller} {pool : ConnPool}

theorem phase_get (get : s.callers[i]? = some c) :
    (s.callers.map Caller.phase)[i]? = some c.phase := by
  rw [List.getElem?_map, get, Option.map_some]

theorem monitor_same (get : s.callers[i]? = some c) (d : Caller) (handler : d.handler = c.handler)
    (phase : d.phase = c.phase) : monitor capacity s = monitor capacity ⟨pool, s.callers.set i d⟩ := by
  rw [monitor, monitor, ← held_same get d handler, Tally.map_set_same Caller.phase get d phase]

/-- A caller that may look at the predicate, with its answer. -/
theorem monitor_acquire (get : s.callers[i]? = some c) (waited : c.phase ≠ .asleep) :
    Monitor.step (monitor capacity s) (.acquire i) =
      if capacity - (held s).length = 0 then
        some ⟨capacity - (held s).length, (s.callers.map Caller.phase).set i .asleep⟩
      else some ⟨capacity - (held s).length - 1, (s.callers.map Caller.phase).set i .outside⟩ := by
  have found := phase_get get
  cases phase : c.phase with
  | asleep => exact absurd phase waited
  | outside | notified =>
    rw [phase] at found
    simp only [Monitor.step, monitor, found]
    rfl

end Phases

/-- No caller sleeps while more connections are available than callers are woken. -/
def Covered (kMinCount kMaxCount : UInt32) (s : PoolCalls) : Prop :=
  Monitor.Covered (monitor (capacity kMinCount kMaxCount) s)

theorem covered_wakes {i : Nat} (get : s.callers[i]? = some .asleep) (d : Caller)
    (none : d.handler = none) (woken : d.phase = .notified) (covered : Covered kMinCount kMaxCount s) :
    Covered kMinCount kMaxCount ⟨s.pool, s.callers.set i d⟩ := by
  have stepped : Monitor.step (monitor (capacity kMinCount kMaxCount) s) (.wakeUp i) =
      some ⟨_, (s.callers.map Caller.phase).set i .notified⟩ := if_pos (phase_get get)
  have next := Monitor.covered_step _ _ _ covered stepped
  rw [Covered, monitor, ← held_same get d none, List.map_set, woken]
  exact next

theorem covered_step {a : Action} (small : capacity kMinCount kMaxCount < 2 ^ 31)
    (uses : Uses kMinCount kMaxCount connected s) (covered : Covered kMinCount kMaxCount s)
    (enabled : step s a = some t) : Covered kMinCount kMaxCount t := by
  have after := uses_step uses enabled
  cases stepped_of_step enabled with
  | call i get =>
    rw [Covered, ← monitor_same get .entering rfl rfl]
    exact covered
  | returns i connects c handler pool get waited requested =>
    have awake : c.phase ≠ .asleep := by
      rcases waited with rfl | woken
      · nofun
      · rw [woken]
        nofun
    have one := (held_returned pool get (empty_handed waited) handler).length_eq
    have bound := after.held_le
    rw [one, List.length_cons] at bound
    have some_left : ¬ capacity kMinCount kMaxCount - (held s).length = 0 := by omega
    have stepped := (monitor_acquire get awake).trans (if_neg some_left)
    have next := Monitor.covered_step _ _ _ covered stepped
    rw [Covered, monitor, one, List.length_cons, List.map_set]
    exact next
  | sleeps i connects c get waited unsatisfied =>
    have awake : c.phase ≠ .asleep := by rcases waited with rfl | rfl <;> nofun
    have none : Caller.asleep.handler = c.handler := by rcases waited with rfl | rfl <;> rfl
    have nothing : capacity kMinCount kMaxCount - (held s).length = 0 := by
      have exhausted := (uses.satisfied_iff small).not.mp (Bool.eq_false_iff.mp unsatisfied)
      omega
    have stepped := (monitor_acquire get awake).trans (if_pos nothing)
    have next := Monitor.covered_step _ _ _ covered stepped
    rw [Covered, monitor, ← held_same get .asleep none, List.map_set]
    exact next
  | fails i connects c get waited ended failed =>
    have exhausted := uses.exhausted failed
    have woken : c.phase = .notified := by
      rcases waited with rfl | woken
      · rcases ended with satisfied | expired
        · have room := (uses.satisfied_iff small).mp satisfied
          omega
        · contradiction
      · exact woken
    have found := phase_get get
    rw [woken] at found
    have nothing : capacity kMinCount kMaxCount - (held s).length = 0 := by omega
    have stepped : Monitor.step (monitor (capacity kMinCount kMaxCount) s) (.giveUp i) =
        some ⟨_, (s.callers.map Caller.phase).set i .outside⟩ := if_pos ⟨found, nothing⟩
    have next := Monitor.covered_step _ _ _ covered stepped
    rw [Covered, monitor, ← held_same get .away (empty_handed (.inr woken)).symm, List.map_set]
    exact next
  | wakeUp i get => exact covered_wakes get .notified rfl rfl covered
  | expire i c get waited =>
    rcases waited with rfl | rfl
    · exact covered_wakes get .timedOut rfl rfl covered
    · rw [Covered, ← monitor_same get .timedOut rfl rfl]
      exact covered
  | release i woken handler pool callers get released woke =>
    have next := Monitor.covered_step _ _ _ covered
      (Monitor.supply_notifyOne rfl woke (capacity kMinCount kMaxCount - (held s).length))
    have one := (held_released pool get).length_eq
    have bound := uses.held_le
    rw [List.length_cons] at one
    have more : capacity kMinCount kMaxCount - (held s).length + 1 =
        capacity kMinCount kMaxCount - (held ⟨pool, s.callers.set i .away⟩).length := by omega
    rw [Covered, monitor, held_notifyOne woke .away, ← more,
      Tally.map_set_same Caller.phase (get_notifyOne woke get) .away rfl]
    exact next

end PoolCalls
end Shbk2
