import Shbk2.Shutdown
import Shbk2.Wakeups

/-! The pool comes to rest by itself. Every step of a thread or of the destructor, the
wake-ups without a notification apart, uses up a measure; where none can be taken, no
task is left behind, and the destructor has returned unless its first quit task met a
full queue. -/
namespace Shbk2
open Transition

namespace Cycle
variable {Task Result : Type}

/-- The steps a thread takes, at most, before it sleeps or leaves. -/
def effort : Cycle Task Result → Nat
  | executing _ => 4
  | executed _ _ | exiting => 3
  | processed => 2
  | entering | notified => 1
  | asleep | exited => 0

end Cycle

/-- The steps the destructor causes, at most, for `n` threads. -/
def Destructor.effort (n : Nat) : Destructor → Nat
  | dropping i => 7 * (n - i) + 7
  | spinning i => 7 * (n - i) + 1
  | uncalled | returned => 0

namespace ThreadPool
variable {Task Result : Type} {kMaxQueueSize kNumThreads : Nat} {p q : ThreadPool Task Result}

/-- The steps of the pool itself: the caller does nothing, no thread wakes up unasked. -/
def Action.Own : Action Task Result → Prop
  | .lock _ | .execute _ _ | .process _ | .markIdle _ | .dropQuit _ | .spin => True
  | .drop _ _ | .grabAllResults | .wakeUp _ | .destroy => False

def effort (p : ThreadPool Task Result) : Nat :=
  4 * p.waitingQueue.length + Tally.total Cycle.effort p.threads + p.destructor.effort p.threads.length

section Effort
variable {threads : List (Cycle Task Result)}

/-- A thread moves on, and a thread that is woken has one more step to take. -/
theorem effort_notifyOne {after : List (Cycle Task Result)} {woken : Option Nat}
    (woke : notifyOne threads woken = some after) : after.length = threads.length ∧
      Tally.total Cycle.effort after ≤ Tally.total Cycle.effort threads + 1 := by
  rcases notifyOne_cases woke with rfl | ⟨i, get, rfl⟩
  · exact ⟨rfl, Nat.le_succ _⟩
  · have moved := Tally.total_set Cycle.effort get .notified
    exact ⟨List.length_set, Nat.le_of_eq moved⟩

theorem effort_next (n i : Nat) :
    Destructor.effort n (if i + 1 < n then .dropping (i + 1) else .returned) <
      Destructor.effort n (.spinning i) := by
  split
  · simp only [Destructor.effort]
    omega
  · simp only [Destructor.effort]
    omega

end Effort

theorem decreases :
    Decreases (step kMaxQueueSize) Action.Own (effort : ThreadPool Task Result → Nat) := by
  intro p a q own enabled
  cases stepped_of_step enabled with
  | drop | refuse | grabAllResults | wakeUp | destroy => exact own.elim
  | sleep i before get awake empty =>
    have moved := Tally.total_set Cycle.effort get .asleep
    have one : before.effort = 1 := by rcases awake with rfl | rfl <;> rfl
    rw [one] at moved
    simp only [effort, List.length_set, Cycle.effort] at moved ⊢
    omega
  | take i before task rest get awake first =>
    have moved := Tally.total_set Cycle.effort get (.executing task)
    have one : before.effort = 1 := by rcases awake with rfl | rfl <;> rfl
    rw [one] at moved
    simp only [effort, List.length_set, first, List.length_cons, Cycle.effort] at moved ⊢
    omega
  | execute i task result get =>
    have moved := Tally.total_set Cycle.effort get (execute task result)
    have three : (execute task result).effort = 3 := by cases task <;> rfl
    rw [three] at moved
    simp only [effort, List.length_set, Cycle.effort] at moved ⊢
    omega
  | process i task result get =>
    have moved := Tally.total_set Cycle.effort get .processed
    simp only [effort, List.length_set, Cycle.effort] at moved ⊢
    omega
  | exit i get =>
    have moved := Tally.total_set Cycle.effort get .exited
    simp only [effort, List.length_set, Cycle.effort] at moved ⊢
    omega
  | markIdle i get =>
    have moved := Tally.total_set Cycle.effort get .entering
    simp only [effort, List.length_set, Cycle.effort] at moved ⊢
    omega
  | dropQuit woken i threads dropping room woke =>
    obtain ⟨size, moved⟩ := effort_notifyOne woke
    simp only [effort, size, dropping, List.length_append, List.length_singleton, Destructor.effort]
    omega
  | refuseQuit woken i dropping full =>
    simp only [effort, dropping, Destructor.effort]
    omega
  | spin i spinning marked =>
    have fewer := effort_next p.threads.length i
    simp only [effort, next, spinning]
    omega

/-! Where nothing moves. -/

section Rest

theorem exhausted_thread (rest : Exhausted (step kMaxQueueSize) Action.Own p) {i : Nat}
    {t : Cycle Task Result} (get : p.threads[i]? = some t) : t = .asleep ∨ t = .exited := by
  have lock := rest (.lock i) trivial
  have run := rest (.execute i none) trivial
  have process := rest (.process i) trivial
  have mark := rest (.markIdle i) trivial
  simp only [step, get] at lock run process mark
  cases t <;> first | exact .inl rfl | exact .inr rfl | contradiction

/-- Where every thread sleeps or has left and there is nothing to destroy, nothing moves. -/
theorem exhausted_of_asleep (threads : ∀ t ∈ p.threads, t = .asleep ∨ t = .exited)
    (destructor : p.destructor = .uncalled ∨ p.destructor = .returned) :
    Exhausted (step kMaxQueueSize) Action.Own p := by
  intro a own
  cases a with
  | drop | grabAllResults | wakeUp | destroy => exact own.elim
  | dropQuit woken => rcases destructor with same | same <;> simp only [step, same]
  | spin => rcases destructor with same | same <;> simp only [step, same]
  | lock i | execute i result | process i | markIdle i =>
    cases get : p.threads[i]? with
    | none => simp only [step, get]
    | some t => rcases threads t (List.mem_of_getElem? get) with rfl | rfl <;> simp only [step, get]

theorem exhausted_destructor (rest : Exhausted (step kMaxQueueSize) Action.Own p) :
    (∀ i, p.destructor ≠ .dropping i) ∧
      ∀ i, p.destructor = .spinning i → p.exitMark ≠ i + 1 := by
  constructor
  · intro i dropping
    obtain ⟨woken, threads, woke⟩ := Monitor.notifyOne_enabled Cycle.phase .notified p.threads
    have refused := rest (.dropQuit woken) trivial
    simp only [step, dropping, drop, notifyOne, woke] at refused
    split at refused <;> contradiction
  · intro i spinning marked
    have refused := rest .spin trivial
    simp only [step, spinning, if_pos marked] at refused
    contradiction

/-- Where every thread sleeps or has left, no task waits. -/
theorem empty_of_asleep (some_thread : 0 < kNumThreads)
    (reached : Reachable (step kMaxQueueSize) (init kNumThreads) p)
    (at_rest : ∀ t ∈ p.threads, t = .asleep ∨ t = .exited) : p.waitingQueue = [] := by
  have inv : Inv kNumThreads p := inv_of_reachable reached
  by_cases asleep : .asleep ∈ p.threads.map Cycle.phase
  · -- Nobody was woken, so by `Covered` there is nothing to come for.
    have covered : p.waitingQueue.length ≤ (p.threads.map Cycle.phase).countP Monitor.Phase.isNotified :=
      covered_of_reachable reached asleep
    have nobody : (p.threads.map Cycle.phase).countP Monitor.Phase.isNotified = 0 := by
      apply List.countP_eq_zero.mpr
      intro phase member
      obtain ⟨t, inside, rfl⟩ := List.mem_map.mp member
      rcases at_rest t inside with rfl | rfl <;> exact Bool.false_ne_true
    rw [nobody] at covered
    exact List.length_eq_zero_iff.mp (Nat.le_zero.mp covered)
  · -- All threads have left, so the last quit task was taken.
    have all : p.threads.countP Cycle.isExited = p.threads.length := by
      apply List.countP_eq_length.mpr
      intro t member
      rcases at_rest t member with rfl | rfl
      · exact absurd (List.mem_map_of_mem member) asleep
      · rfl
    have marked : p.exitMark = kNumThreads := inv.exits.symm.trans (all.trans inv.size)
    have stage := inv.stage
    generalize p.destructor = d, p.exitMark = mark, p.waitingQueue = queue,
      p.threads.countP Cycle.holdsQuit = held at stage marked ⊢
    cases stage with
    | uncalled => exact absurd marked (Nat.ne_of_lt some_thread)
    | dropping _ _ more | refused _ _ more | queued _ _ more =>
      exact absurd marked (Nat.ne_of_lt more)
    | taken | left => rfl
    | returned _ none empty => exact empty some_thread

/-- Nothing is left in a pool at rest: no task waits and none is held. -/
theorem empty_at_rest (some_thread : 0 < kNumThreads)
    (reached : Reachable (step kMaxQueueSize) (init kNumThreads) p)
    (rest : Exhausted (step kMaxQueueSize) Action.Own p) :
    p.waitingQueue = [] ∧ ∀ t ∈ p.threads, t.job = none := by
  have at_rest : ∀ t ∈ p.threads, t = .asleep ∨ t = .exited := by
    intro t member
    obtain ⟨i, get⟩ := List.getElem?_of_mem member
    exact exhausted_thread rest get
  refine ⟨empty_of_asleep some_thread reached at_rest, fun t member => ?_⟩
  rcases at_rest t member with rfl | rfl <;> rfl

/-- From any state of any run the pool takes a bounded number of steps by itself, and
where it can take no more, each task that `Drop` accepted was executed once. -/
theorem finishes_dropped (some_thread : 0 < kNumThreads) {actions more : List (Action Task Result)}
    (ran : run (step kMaxQueueSize) (init kNumThreads) actions = some p)
    (own : ∀ a ∈ more, a.Own) (after : run (step kMaxQueueSize) p more = some q) :
    more.length ≤ p.effort ∧
      (Exhausted (step kMaxQueueSize) Action.Own q →
        (WorkQueue.accepted (trace (step kMaxQueueSize) (emits kMaxQueueSize) (init kNumThreads)
          (actions ++ more))).Perm
        ((WorkQueue.finished (trace (step kMaxQueueSize) (emits kMaxQueueSize) (init kNumThreads)
          (actions ++ more))).map Prod.fst)) := by
  constructor
  · have bound := decreases.run own after
    omega
  · intro rest
    have whole : run (step kMaxQueueSize) (init kNumThreads) (actions ++ more) = some q := by
      rw [run_append, ran]
      exact after
    obtain ⟨empty, none⟩ := empty_at_rest some_thread ⟨actions ++ more, whole⟩ rest
    exact (accounts kNumThreads whole).complete empty (held_nil none)

end Rest

/-- Two tasks are dropped, the only thread sleeps already when the first one comes. -/
def droppedTwo : List (Action Nat Nat) := [.lock 0, .drop 7 (some 0), .drop 8 none]

/-- It executes one after the other and sleeps again. -/
def executedTwo : List (Action Nat Nat) :=
  [.lock 0, .execute 0 (some 9), .process 0, .markIdle 0, .lock 0, .execute 0 none, .process 0,
    .markIdle 0, .lock 0]

theorem finishes_dropped_two : ∃ p q : ThreadPool Nat Nat,
    run (step 2) (init 1) droppedTwo = some p ∧ run (step 2) p executedTwo = some q ∧
      executedTwo.length ≤ p.effort ∧ Exhausted (step 2) Action.Own q ∧
      (WorkQueue.accepted (trace (step 2) (emits 2) (init 1) (droppedTwo ++ executedTwo))).Perm
        ((WorkQueue.finished (trace (step 2) (emits 2) (init 1)
          (droppedTwo ++ executedTwo))).map Prod.fst) := by
  obtain ⟨p, q, dropped, executed, threads, destructor⟩ : ∃ p q : ThreadPool Nat Nat,
      run (step 2) (init 1) droppedTwo = some p ∧ run (step 2) p executedTwo = some q ∧
        q.threads = [.asleep] ∧ q.destructor = .uncalled := ⟨_, _, rfl, rfl, rfl, rfl⟩
  have rest : Exhausted (step 2) Action.Own q :=
    exhausted_of_asleep (by simp [threads]) (.inl destructor)
  obtain ⟨bound, all⟩ :=
    finishes_dropped Nat.one_pos dropped (by simp [executedTwo, Action.Own]) executed
  exact ⟨p, q, dropped, executed, bound, rest, all rest⟩

end ThreadPool
end Shbk2
