import Shbk2.Lib.Monitor
import Shbk2.Lib.WorkQueue

/-! `tiny_tp::ThreadPool`. A step is one critical section, the execution of a task, or
one turn of the destructor. A task is what `Execute` is called on; what it returns is
the choice of the environment, and so is the thread that a notification wakes. The pool
is a `WorkQueue` of its tasks, the quit tasks of the destructor among them. -/
namespace Shbk2
open Transition

/-- An `ITask` in the queue. -/
inductive QueuedTask (Task : Type) where
  | task (task : Task)
  | quit

/-- Where a thread stands in `Cycle`. `asleep` and `notified` are in the wait, before
and after a wake-up; `executed` is with the result of a task, which may be a null
pointer, and `exiting` with the exit mark; `processed` is before the idle mark. -/
inductive Cycle (Task Result : Type) where
  | entering
  | asleep
  | notified
  | executing (task : QueuedTask Task)
  | executed (task : Task) (result : Option Result)
  | exiting
  | processed
  | exited

/-- Where the destructor stands. -/
inductive Destructor where
  | uncalled
  | dropping (i : Nat)
  | spinning (i : Nat)
  | returned

/-- The threads are numbered; `threads_idle_` maps the number of a thread to its mark. -/
structure ThreadPool (Task Result : Type) where
  waitingQueue : List (QueuedTask Task)
  resultsQueue : List Result
  threads : List (Cycle Task Result)
  threadsIdle : List Bool
  exitMark : Nat
  destructor : Destructor

namespace Cycle
variable {Task Result : Type}

/-- What the condition variable sees of a thread. -/
def phase : Cycle Task Result → Monitor.Phase
  | asleep => .asleep
  | notified => .notified
  | _ => .outside

/-- The task taken and not done with. -/
def job : Cycle Task Result → Option (QueuedTask Task)
  | executing task => some task
  | executed task _ => some (.task task)
  | exiting => some .quit
  | _ => none

def isExited : Cycle Task Result → Bool
  | exited => true
  | _ => false

/-- In front of the waiting queue, or waiting at it. -/
def isIdle : Cycle Task Result → Bool
  | entering | asleep | notified => true
  | _ => false

end Cycle

namespace ThreadPool
variable {Task Result : Type}

inductive Action (Task Result : Type) where
  | drop (task : Task) (woken : Option Nat)
  | grabAllResults
  | lock (i : Nat)
  | wakeUp (i : Nat)
  | execute (i : Nat) (result : Option Result)
  | process (i : Nat)
  | markIdle (i : Nat)
  | destroy
  | dropQuit (woken : Option Nat)
  | spin

/-- The constructor. It holds the mutex of the idle marks until all are set. -/
def init (kNumThreads : Nat) : ThreadPool Task Result where
  waitingQueue := []
  resultsQueue := []
  threads := List.replicate kNumThreads .entering
  threadsIdle := List.replicate kNumThreads true
  exitMark := 0
  destructor := .uncalled

/-- `waiting_queue_cond_.notify_one()`. -/
def notifyOne (threads : List (Cycle Task Result)) (woken : Option Nat) :
    Option (List (Cycle Task Result)) :=
  Monitor.notifyOne Cycle.phase .notified threads woken

/-- `Drop`. -/
def drop (kMaxQueueSize : Nat) (p : ThreadPool Task Result) (task : QueuedTask Task)
    (woken : Option Nat) : Option (Bool × ThreadPool Task Result) :=
  if p.waitingQueue.length ≥ kMaxQueueSize then some (false, p)
  else (notifyOne p.threads woken).map fun threads =>
    (true, { p with waitingQueue := p.waitingQueue ++ [task], threads := threads })

/-- `GrabAllResults`. -/
def grabAllResults (p : ThreadPool Task Result) : List Result × ThreadPool Task Result :=
  (p.resultsQueue, { p with resultsQueue := [] })

/-- `Cycle` with the mutex of the queue: the predicate of the wait, then the front task. -/
def acquire (p : ThreadPool Task Result) (i : Nat) : ThreadPool Task Result :=
  match p.waitingQueue with
  | [] => { p with threads := p.threads.set i .asleep }
  | task :: rest => { p with
      threadsIdle := p.threadsIdle.set i false
      waitingQueue := rest
      threads := p.threads.set i (.executing task) }

/-- `task->Execute()`: the quit task returns the exit mark, the others anything else. -/
def execute (task : QueuedTask Task) (result : Option Result) : Cycle Task Result :=
  match task with
  | .task task => .executed task result
  | .quit => .exiting

/-- The loop of the destructor goes on, or ends. -/
def next (p : ThreadPool Task Result) (i : Nat) : Destructor :=
  if i < p.threads.length then .dropping i else .returned

/-- `Drop` and `GrabAllResults` are called on a pool that is not being destroyed. The
turns of the destructor that only yield are left out. -/
def step (kMaxQueueSize : Nat) (p : ThreadPool Task Result) :
    Action Task Result → Option (ThreadPool Task Result)
  | .drop task woken =>
    match p.destructor with
    | .uncalled => (p.drop kMaxQueueSize (.task task) woken).map Prod.snd
    | _ => none
  | .grabAllResults =>
    match p.destructor with
    | .uncalled => some p.grabAllResults.2
    | _ => none
  | .lock i =>
    match p.threads[i]? with
    | some .entering | some .notified => some (p.acquire i)
    | _ => none
  | .wakeUp i =>
    match p.threads[i]? with
    | some .asleep => some { p with threads := p.threads.set i .notified }
    | _ => none
  | .execute i result =>
    match p.threads[i]? with
    | some (.executing task) => some { p with threads := p.threads.set i (execute task result) }
    | _ => none
  | .process i =>
    match p.threads[i]? with
    | some (.executed _ result) => some { p with
        resultsQueue := p.resultsQueue ++ result.toList
        threads := p.threads.set i .processed }
    | some .exiting => some { p with
        exitMark := p.exitMark + 1
        threads := p.threads.set i .exited }
    | _ => none
  | .markIdle i =>
    match p.threads[i]? with
    | some .processed => some { p with
        threadsIdle := p.threadsIdle.set i true
        threads := p.threads.set i .entering }
    | _ => none
  | .destroy =>
    match p.destructor with
    | .uncalled => some { p with destructor := p.next 0 }
    | _ => none
  | .dropQuit woken =>
    match p.destructor with
    | .dropping i => (p.drop kMaxQueueSize .quit woken).map fun (_, q) =>
        { q with destructor := .spinning i }
    | _ => none
  | .spin =>
    match p.destructor with
    | .spinning i =>
      if p.exitMark = i + 1 then some { p with destructor := p.next (i + 1) } else none
    | _ => none

/-- `QueryIdleThreadsCount`. -/
def queryIdleThreadsCount (p : ThreadPool Task Result) : Nat := p.threadsIdle.countP id

/-- What each enabled action does. -/
inductive Stepped (kMaxQueueSize : Nat) (p : ThreadPool Task Result) :
    Action Task Result → ThreadPool Task Result → Prop where
  | drop (task : Task) (woken : Option Nat) (threads : List (Cycle Task Result)) :
      p.destructor = .uncalled → p.waitingQueue.length < kMaxQueueSize →
      notifyOne p.threads woken = some threads →
      Stepped kMaxQueueSize p (.drop task woken)
        { p with waitingQueue := p.waitingQueue ++ [.task task], threads := threads }
  | refuse (task : Task) (woken : Option Nat) : p.destructor = .uncalled →
      p.waitingQueue.length ≥ kMaxQueueSize → Stepped kMaxQueueSize p (.drop task woken) p
  | grabAllResults : p.destructor = .uncalled →
      Stepped kMaxQueueSize p .grabAllResults { p with resultsQueue := [] }
  | sleep (i : Nat) (before : Cycle Task Result) : p.threads[i]? = some before →
      before = .entering ∨ before = .notified → p.waitingQueue = [] →
      Stepped kMaxQueueSize p (.lock i) { p with threads := p.threads.set i .asleep }
  | take (i : Nat) (before : Cycle Task Result) (task : QueuedTask Task)
      (rest : List (QueuedTask Task)) : p.threads[i]? = some before →
      before = .entering ∨ before = .notified → p.waitingQueue = task :: rest →
      Stepped kMaxQueueSize p (.lock i) { p with
        threadsIdle := p.threadsIdle.set i false
        waitingQueue := rest
        threads := p.threads.set i (.executing task) }
  | wakeUp (i : Nat) : p.threads[i]? = some .asleep →
      Stepped kMaxQueueSize p (.wakeUp i) { p with threads := p.threads.set i .notified }
  | execute (i : Nat) (task : QueuedTask Task) (result : Option Result) :
      p.threads[i]? = some (.executing task) →
      Stepped kMaxQueueSize p (.execute i result)
        { p with threads := p.threads.set i (execute task result) }
  | process (i : Nat) (task : Task) (result : Option Result) :
      p.threads[i]? = some (.executed task result) →
      Stepped kMaxQueueSize p (.process i) { p with
        resultsQueue := p.resultsQueue ++ result.toList
        threads := p.threads.set i .processed }
  | exit (i : Nat) : p.threads[i]? = some .exiting →
      Stepped kMaxQueueSize p (.process i) { p with
        exitMark := p.exitMark + 1
        threads := p.threads.set i .exited }
  | markIdle (i : Nat) : p.threads[i]? = some .processed →
      Stepped kMaxQueueSize p (.markIdle i) { p with
        threadsIdle := p.threadsIdle.set i true
        threads := p.threads.set i .entering }
  | destroy : p.destructor = .uncalled →
      Stepped kMaxQueueSize p .destroy { p with destructor := p.next 0 }
  | dropQuit (woken : Option Nat) (i : Nat) (threads : List (Cycle Task Result)) :
      p.destructor = .dropping i → p.waitingQueue.length < kMaxQueueSize →
      notifyOne p.threads woken = some threads →
      Stepped kMaxQueueSize p (.dropQuit woken) { p with
        waitingQueue := p.waitingQueue ++ [.quit]
        threads := threads
        destructor := .spinning i }
  | refuseQuit (woken : Option Nat) (i : Nat) : p.destructor = .dropping i →
      p.waitingQueue.length ≥ kMaxQueueSize →
      Stepped kMaxQueueSize p (.dropQuit woken) { p with destructor := .spinning i }
  | spin (i : Nat) : p.destructor = .spinning i → p.exitMark = i + 1 →
      Stepped kMaxQueueSize p .spin { p with destructor := p.next (i + 1) }

section Steps
variable {kMaxQueueSize : Nat} {p q : ThreadPool Task Result}

theorem stepped_lock {i : Nat} {before : Cycle Task Result} (get : p.threads[i]? = some before)
    (awake : before = .entering ∨ before = .notified) :
    Stepped kMaxQueueSize p (.lock i) (p.acquire i) := by
  unfold acquire
  split
  · exact .sleep i before get awake ‹_›
  · exact .take i before _ _ get awake ‹_›

theorem stepped_of_step {a : Action Task Result} (enabled : step kMaxQueueSize p a = some q) :
    Stepped kMaxQueueSize p a q := by
  cases a with
  | drop task woken =>
    simp only [step] at enabled
    split at enabled
    · unfold drop at enabled
      split at enabled
      · obtain rfl := Option.some.inj enabled
        exact .refuse task woken ‹_› ‹_›
      · obtain ⟨result, dropped, rfl⟩ := Option.map_eq_some_iff.mp enabled
        obtain ⟨threads, woke, rfl⟩ := Option.map_eq_some_iff.mp dropped
        exact .drop task woken threads ‹_› (Nat.lt_of_not_le ‹_›) woke
    · contradiction
  | grabAllResults =>
    simp only [step] at enabled
    split at enabled
    · obtain rfl := Option.some.inj enabled
      exact .grabAllResults ‹_›
    · contradiction
  | lock i =>
    simp only [step] at enabled
    split at enabled
    · obtain rfl := Option.some.inj enabled
      exact stepped_lock ‹_› (.inl rfl)
    · obtain rfl := Option.some.inj enabled
      exact stepped_lock ‹_› (.inr rfl)
    · contradiction
  | wakeUp i =>
    simp only [step] at enabled
    split at enabled
    · obtain rfl := Option.some.inj enabled
      exact .wakeUp i ‹_›
    · contradiction
  | execute i result =>
    simp only [step] at enabled
    split at enabled
    · obtain rfl := Option.some.inj enabled
      exact .execute i _ result ‹_›
    · contradiction
  | process i =>
    simp only [step] at enabled
    split at enabled
    · obtain rfl := Option.some.inj enabled
      exact .process i _ _ ‹_›
    · obtain rfl := Option.some.inj enabled
      exact .exit i ‹_›
    · contradiction
  | markIdle i =>
    simp only [step] at enabled
    split at enabled
    · obtain rfl := Option.some.inj enabled
      exact .markIdle i ‹_›
    · contradiction
  | destroy =>
    simp only [step] at enabled
    split at enabled
    · obtain rfl := Option.some.inj enabled
      exact .destroy ‹_›
    · contradiction
  | dropQuit woken =>
    simp only [step] at enabled
    split at enabled
    · unfold drop at enabled
      split at enabled
      · obtain rfl := Option.some.inj enabled
        exact .refuseQuit woken _ ‹_› ‹_›
      · obtain ⟨result, dropped, rfl⟩ := Option.map_eq_some_iff.mp enabled
        obtain ⟨threads, woke, rfl⟩ := Option.map_eq_some_iff.mp dropped
        exact .dropQuit woken _ threads ‹_› (Nat.lt_of_not_le ‹_›) woke
    · contradiction
  | spin =>
    simp only [step] at enabled
    split at enabled
    · obtain ⟨marked, enabled⟩ := Option.ite_none_right_eq_some.mp enabled
      obtain rfl := Option.some.inj enabled
      exact .spin _ ‹_› marked
    · contradiction

/-- A notification wakes a thread that slept, or there is none. -/
theorem notifyOne_cases {threads after : List (Cycle Task Result)} {woken : Option Nat}
    (woke : notifyOne threads woken = some after) :
    after = threads ∨
      ∃ i, threads[i]? = some .asleep ∧ after = threads.set i .notified := by
  rcases Monitor.notifyOne_cases woke with ⟨_, same, _⟩ | ⟨i, t, _, get, asleep, same⟩
  · exact .inl same
  · cases t with
    | asleep => exact .inr ⟨i, get, same⟩
    | _ => contradiction

end Steps

/-! The pool as a queue of jobs. -/

def queue (p : ThreadPool Task Result) : WorkQueue.Queue (QueuedTask Task) Result :=
  ⟨p.waitingQueue, p.threads.map Cycle.job, p.resultsQueue⟩

/-- What a step shows: a task accepted or refused by `Drop`, taken by a thread, done
with, and the results that `GrabAllResults` returns. -/
def emits (kMaxQueueSize : Nat) (p : ThreadPool Task Result) :
    Action Task Result → List (WorkQueue.Event (QueuedTask Task) Result)
  | .drop task _ =>
    if p.waitingQueue.length ≥ kMaxQueueSize then [.refused (.task task)] else [.accepted (.task task)]
  | .dropQuit _ =>
    if p.waitingQueue.length ≥ kMaxQueueSize then [.refused .quit] else [.accepted .quit]
  | .lock _ => (p.waitingQueue.head?.map .started).toList
  | .process i =>
    match p.threads[i]? with
    | some (.executed task result) => [.finished (.task task) result]
    | some .exiting => [.finished .quit none]
    | _ => []
  | .grabAllResults => [.grabbed p.resultsQueue]
  | _ => []

section Queue
variable {kMaxQueueSize : Nat} {p q : ThreadPool Task Result}

theorem queue_init (kNumThreads : Nat) :
    (init kNumThreads : ThreadPool Task Result).queue = WorkQueue.init kNumThreads := by
  simp [queue, init, WorkQueue.init, Cycle.job]

theorem job_set (threads : List (Cycle Task Result)) (i : Nat) (t : Cycle Task Result) :
    (threads.set i t).map Cycle.job = (threads.map Cycle.job).set i t.job := List.map_set

theorem job_get {threads : List (Cycle Task Result)} {i : Nat} {t : Cycle Task Result}
    (get : threads[i]? = some t) : (threads.map Cycle.job)[i]? = some t.job := by
  rw [List.getElem?_map, get]
  rfl

theorem job_notifyOne {threads after : List (Cycle Task Result)} {woken : Option Nat}
    (woke : notifyOne threads woken = some after) :
    after.map Cycle.job = threads.map Cycle.job := by
  rcases notifyOne_cases woke with rfl | ⟨i, get, rfl⟩
  · rfl
  · exact Tally.map_set_same Cycle.job get .notified rfl

theorem job_execute (task : QueuedTask Task) (result : Option Result) :
    (execute task result).job = some task := by
  cases task <;> rfl

theorem simulates_queue : Simulates (step kMaxQueueSize) (emits kMaxQueueSize)
    (WorkQueue.step kMaxQueueSize) (WorkQueue.emits kMaxQueueSize)
    fun (p : ThreadPool Task Result) u => u = p.queue := by
  rintro p u a q rfl enabled
  cases stepped_of_step enabled with
  | drop task woken threads uncalled room woke =>
    have full : ¬ p.waitingQueue.length ≥ kMaxQueueSize := Nat.not_le_of_lt room
    refine answered_by (.offer (.task task)) (if_neg full) ?_ ?_
    · exact (if_neg full).trans (if_neg full).symm
    · simp only [queue, job_notifyOne woke]
  | refuse task woken uncalled full =>
    refine answered_by (.offer (.task task)) (if_pos full) ?_ rfl
    exact (if_pos full).trans (if_pos full).symm
  | grabAllResults => exact answered_by .grab rfl rfl rfl
  | sleep i before get awake none =>
    have shown : emits kMaxQueueSize p (.lock i) = [] := by simp only [emits, none]; rfl
    rw [shown]
    refine answered_silently ?_
    rcases awake with rfl | rfl <;> simp only [queue, Tally.map_set_same Cycle.job get .asleep rfl]
  | take i before task rest get awake first =>
    have idle : (p.threads.map Cycle.job)[i]? = some none := by
      rcases awake with rfl | rfl <;> exact job_get get
    refine answered_by (.take i) ?_ rfl rfl
    simp only [WorkQueue.step, queue, first, idle, job_set]
    rfl
  | wakeUp i get =>
    refine answered_silently ?_
    simp only [queue, Tally.map_set_same Cycle.job get .notified rfl]
  | execute i task result get =>
    refine answered_silently ?_
    simp only [queue, Tally.map_set_same Cycle.job get _ (job_execute task result)]
  | process i task result get =>
    have busy : (p.threads.map Cycle.job)[i]? = some (some (.task task)) := job_get get
    refine answered_by (.finish i result) ?_ ?_ rfl
    · simp only [WorkQueue.step, queue, busy, job_set]
      rfl
    · simp only [WorkQueue.emits, queue, busy, emits, get]
      rfl
  | exit i get =>
    have busy : (p.threads.map Cycle.job)[i]? = some (some .quit) := job_get get
    refine answered_by (.finish i none) ?_ ?_ rfl
    · simp only [WorkQueue.step, queue, busy, job_set, Option.toList_none, List.append_nil]
      rfl
    · simp only [WorkQueue.emits, queue, busy, emits, get]
      rfl
  | markIdle i get =>
    refine answered_silently ?_
    simp only [queue, Tally.map_set_same Cycle.job get .entering rfl]
  | destroy => exact answered_silently rfl
  | dropQuit woken i threads dropping room woke =>
    have full : ¬ p.waitingQueue.length ≥ kMaxQueueSize := Nat.not_le_of_lt room
    refine answered_by (.offer .quit) (if_neg full) ?_ ?_
    · exact (if_neg full).trans (if_neg full).symm
    · simp only [queue, job_notifyOne woke]
  | refuseQuit woken i dropping full =>
    refine answered_by (.offer .quit) (if_pos full) ?_ rfl
    exact (if_pos full).trans (if_pos full).symm
  | spin => exact answered_silently rfl

/-- What the steps of any run showed accounts for what the pool holds. -/
theorem accounts (kNumThreads : Nat) {actions : List (Action Task Result)}
    (ran : run (step kMaxQueueSize) (init kNumThreads) actions = some p) :
    WorkQueue.Accounts kMaxQueueSize
      (trace (step kMaxQueueSize) (emits kMaxQueueSize) (init kNumThreads) actions) p.queue := by
  obtain ⟨answers, q, answered, shown, rfl⟩ := simulates_queue.run (queue_init kNumThreads).symm ran
  rw [← shown]
  exact WorkQueue.accounts_run answered

/-- Over every run of the pool, whatever the order of its steps: `Drop` accepted what
was taken, in that order, and what waits; what was taken is done with once, or is held by
one thread; the results are grabbed once, or lie in their queue, in the order in which
the tasks were done with; and the queue never holds more than its bound. -/
theorem conserves (kNumThreads : Nat) {actions : List (Action Task Result)}
    {shown : List (WorkQueue.Event (QueuedTask Task) Result)}
    (ran : run (step kMaxQueueSize) (init kNumThreads) actions = some p)
    (shows : trace (step kMaxQueueSize) (emits kMaxQueueSize) (init kNumThreads) actions = shown) :
    WorkQueue.accepted shown = WorkQueue.started shown ++ p.waitingQueue ∧
      (WorkQueue.started shown).Perm
        ((WorkQueue.finished shown).map Prod.fst ++ p.threads.filterMap Cycle.job) ∧
      (WorkQueue.finished shown).filterMap Prod.snd = WorkQueue.grabbed shown ++ p.resultsQueue ∧
      p.waitingQueue.length ≤ kMaxQueueSize := by
  obtain ⟨order, once, results, bounded⟩ := shows ▸ accounts kNumThreads ran
  have held : Slots.held p.queue.running = p.threads.filterMap Cycle.job := List.filterMap_map
  exact ⟨order, held ▸ once, results, bounded⟩

/-- Three tasks for a queue of two: the first one is running when its result is asked
for, the third is dropped after that. -/
def sharedRun : List (Action Nat Nat) :=
  [.drop 7 none, .lock 0, .drop 8 none, .grabAllResults, .execute 0 (some 70), .process 0,
    .grabAllResults, .drop 9 none, .markIdle 0, .lock 0, .execute 0 none]

theorem conserves_three : ∃ p, run (step 2) (init 2) sharedRun = some p ∧
    WorkQueue.accepted (trace (step 2) (emits 2) (init 2) sharedRun) =
      WorkQueue.started (trace (step 2) (emits 2) (init 2) sharedRun) ++ p.waitingQueue ∧
    (WorkQueue.started (trace (step 2) (emits 2) (init 2) sharedRun)).Perm
      ((WorkQueue.finished (trace (step 2) (emits 2) (init 2) sharedRun)).map Prod.fst ++
        p.threads.filterMap Cycle.job) ∧
    (WorkQueue.finished (trace (step 2) (emits 2) (init 2) sharedRun)).filterMap Prod.snd =
      WorkQueue.grabbed (trace (step 2) (emits 2) (init 2) sharedRun) ++ p.resultsQueue ∧
    p.waitingQueue.length ≤ 2 :=
  ⟨_, rfl, conserves 2 rfl rfl⟩

end Queue
end ThreadPool
end Shbk2
