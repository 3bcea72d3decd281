import Shbk2.ThreadPool

/-! The threads of the pool and its condition variable. The idle marks and the exit mark
tell where the threads stand, the quit tasks of the destructor come one at a time and
last, and the pool waits like a `Monitor`: no wake-up is lost. -/
namespace Shbk2.ThreadPool
open Transition
variable {Task Result : Type} {kMaxQueueSize kNumThreads : Nat} {p q : ThreadPool Task Result}

/-! Waiting at the condition variable. -/

/-- One task in the queue is one share of what is available. -/
def monitor (p : ThreadPool Task Result) : Monitor.Waiting :=
  ⟨p.waitingQueue.length, p.threads.map Cycle.phase⟩

/-- No thread sleeps while the queue holds more tasks than threads are woken for. -/
def Covered (p : ThreadPool Task Result) : Prop := Monitor.Covered p.monitor

theorem phase_get {threads : List (Cycle Task Result)} {i : Nat} {t : Cycle Task Result}
    (get : threads[i]? = some t) : (threads.map Cycle.phase)[i]? = some t.phase := by
  rw [List.getElem?_map, get]
  rfl

/-- A task is queued and a thread notified, if one sleeps. -/
theorem monitor_supply {threads : List (Cycle Task Result)} {woken : Option Nat}
    (woke : notifyOne p.threads woken = some threads) (task : QueuedTask Task) :
    Monitor.step p.monitor (.supply woken) =
      some ⟨(p.waitingQueue ++ [task]).length, threads.map Cycle.phase⟩ := by
  rw [List.length_append]
  exact Monitor.supply_notifyOne rfl woke p.waitingQueue.length

/-- A thread that moves on is not seen, if it is awake before and after. -/
theorem monitor_set {i : Nat} {old : Cycle Task Result} (get : p.threads[i]? = some old)
    (new : Cycle Task Result) (same : new.phase = old.phase) : (⟨p.waitingQueue.length, (p.threads.set i new).map Cycle.phase⟩ :
      Monitor.Waiting) = p.monitor :=
  congrArg (Monitor.Waiting.mk _) (Tally.map_set_same Cycle.phase get new same)

/-- In front of the queue or notified, a thread may evaluate the predicate. -/
theorem monitor_acquire {i : Nat} {before : Cycle Task Result} (get : p.threads[i]? = some before)
    (awake : before = .entering ∨ before = .notified) : Monitor.step p.monitor (.acquire i) =
      if p.waitingQueue.length = 0 then
        some ⟨p.waitingQueue.length, (p.threads.map Cycle.phase).set i .asleep⟩
      else some ⟨p.waitingQueue.length - 1, (p.threads.map Cycle.phase).set i .outside⟩ := by
  have found : (p.threads.map Cycle.phase)[i]? = some before.phase := phase_get get
  rcases awake with rfl | rfl <;> simp only [Monitor.step, monitor, found, Cycle.phase] <;> rfl

theorem simulates_monitor : Simulates (step kMaxQueueSize) (fun _ _ => ([] : List Unit))
    Monitor.step (fun _ _ => []) fun (p : ThreadPool Task Result) m => m = p.monitor := by
  rintro p m a q rfl enabled
  cases stepped_of_step enabled with
  | drop task woken threads uncalled room woke =>
    exact answered_by (.supply woken) (monitor_supply woke (.task task)) rfl rfl
  | dropQuit woken i threads dropping room woke =>
    exact answered_by (.supply woken) (monitor_supply woke .quit) rfl rfl
  | refuse | grabAllResults | destroy | refuseQuit | spin => exact answered_silently rfl
  | sleep i before get awake empty =>
    refine answered_by (.acquire i) ((monitor_acquire get awake).trans ?_) rfl rfl
    rw [if_pos (List.length_eq_zero_iff.mpr empty), monitor, List.map_set]
    rfl
  | take i before task rest get awake first =>
    refine answered_by (.acquire i) ((monitor_acquire get awake).trans ?_) rfl rfl
    rw [first, if_neg (show ¬ (task :: rest).length = 0 from Nat.succ_ne_zero _), monitor, List.map_set]
    rfl
  | wakeUp i get =>
    have found : p.monitor.threads[i]? = some .asleep := phase_get get
    refine answered_by (.wakeUp i) (if_pos found) rfl ?_
    simp only [monitor, List.map_set]
    rfl
  | execute i task result get =>
    refine answered_silently (monitor_set get _ ?_).symm
    cases task <;> rfl
  | process i task result get => exact answered_silently (monitor_set get .processed rfl).symm
  | exit i get => exact answered_silently (monitor_set get .exited rfl).symm
  | markIdle i get => exact answered_silently (monitor_set get .entering rfl).symm

theorem covered_of_reachable (reached : Reachable (step kMaxQueueSize) (init kNumThreads) p) :
    Covered p := by
  have start : (⟨0, List.replicate kNumThreads .outside⟩ : Monitor.Waiting) =
      (init kNumThreads : ThreadPool Task Result).monitor := by
    simp [monitor, init, Cycle.phase]
  obtain ⟨m, answered, rfl⟩ := simulates_monitor.reachable start reached
  have covered : Monitor.Covered p.monitor :=
    answered.invariant Monitor.covered_step (Monitor.covered_init 0 kNumThreads)
  exact covered

end Shbk2.ThreadPool
