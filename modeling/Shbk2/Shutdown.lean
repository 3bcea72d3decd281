import Shbk2.ThreadPool

/-! What the marks of the pool tell, and how far its destructor has come. The destructor
sends one quit task at a time and waits for the exit mark, so a quit task is the last in
the queue, and the thread that holds it has left the queue empty. -/
namespace Shbk2
open Transition

/-- The thread took a quit task and has not left yet. -/
def Cycle.holdsQuit {Task Result : Type} : Cycle Task Result → Bool
  | .executing .quit | .exiting => true
  | _ => false

namespace ThreadPool
variable {Task Result : Type} {kMaxQueueSize kNumThreads : Nat} {p q : ThreadPool Task Result}

/-- For `n` threads: the destructor with the exit mark, the queue, and the number of
threads that hold a quit task. -/
inductive Stage (n : Nat) : Destructor → Nat → List (QueuedTask Task) → Nat → Prop where
  | uncalled (queue : List (QueuedTask Task)) : .quit ∉ queue → Stage n .uncalled 0 queue 0
  | dropping (i : Nat) (queue : List (QueuedTask Task)) : i < n → .quit ∉ queue →
      (0 < i → queue = []) → Stage n (.dropping i) i queue 0
  | refused (i : Nat) (queue : List (QueuedTask Task)) : i < n → .quit ∉ queue →
      Stage n (.spinning i) i queue 0
  | queued (i : Nat) (tasks : List (QueuedTask Task)) : i < n → .quit ∉ tasks →
      Stage n (.spinning i) i (tasks ++ [.quit]) 0
  | taken (i : Nat) : i < n → Stage n (.spinning i) i [] 1
  | left (i : Nat) : i < n → Stage n (.spinning i) (i + 1) [] 0
  | returned (queue : List (QueuedTask Task)) : .quit ∉ queue → (0 < n → queue = []) →
      Stage n .returned n queue 0

section Stages
variable {n mark quitting : Nat} {d : Destructor} {queue rest : List (QueuedTask Task)}

theorem Stage.push {task : Task} (stage : Stage n .uncalled mark queue quitting) :
    Stage n .uncalled mark (queue ++ [.task task]) quitting := by
  cases stage with
  | uncalled _ none =>
    apply Stage.uncalled
    simpa using none

theorem Stage.takeTask {task : Task} (stage : Stage n d mark (.task task :: rest) quitting) :
    Stage n d mark rest quitting := by
  generalize full : QueuedTask.task task :: rest = queue at stage
  cases stage with
  | uncalled _ none =>
    subst full
    exact .uncalled rest fun member => none (List.mem_cons_of_mem _ member)
  | dropping i _ more none first =>
    subst full
    refine .dropping _ rest more (fun member => none (List.mem_cons_of_mem _ member)) ?_
    exact fun positive => absurd (first positive) (List.cons_ne_nil _ _)
  | refused i _ more none =>
    subst full
    exact .refused _ rest more fun member => none (List.mem_cons_of_mem _ member)
  | queued i tasks more none =>
    cases tasks with
    | nil => cases full
    | cons first tasks =>
      obtain ⟨_, rfl⟩ := List.cons.inj full
      exact .queued _ tasks more fun member => none (List.mem_cons_of_mem _ member)
  | taken i more => cases full
  | left i more => cases full
  | returned _ none empty =>
    subst full
    refine .returned rest (fun member => none (List.mem_cons_of_mem _ member)) ?_
    exact fun positive => absurd (empty positive) (List.cons_ne_nil _ _)

/-- The quit task was the only one left. -/
theorem Stage.takeQuit (stage : Stage n d mark (.quit :: rest) quitting) :
    Stage n d mark rest (quitting + 1) := by
  generalize full : QueuedTask.quit :: rest = queue at stage
  cases stage with
  | uncalled _ none | dropping _ _ _ none | refused _ _ _ none | returned _ none =>
    subst full
    exact absurd List.mem_cons_self none
  | queued i tasks more none =>
    cases tasks with
    | nil =>
      obtain ⟨_, rfl⟩ := List.cons.inj full
      exact .taken _ more
    | cons first tasks =>
      obtain ⟨rfl, _⟩ := List.cons.inj full
      exact absurd List.mem_cons_self none
  | taken i more => cases full
  | left i more => cases full

theorem Stage.exit (stage : Stage n d mark queue (quitting + 1)) :
    Stage n d (mark + 1) queue quitting := by
  generalize held : quitting + 1 = count at stage
  cases stage with
  | taken i more =>
    obtain rfl := Nat.succ.inj held
    exact .left _ more
  | _ => cases held

theorem Stage.destroy (stage : Stage n .uncalled mark queue quitting) :
    Stage n (if 0 < n then .dropping 0 else .returned) mark queue quitting := by
  cases stage with
  | uncalled _ none =>
    split
    · exact .dropping 0 queue ‹_› none (absurd · (Nat.lt_irrefl 0))
    · obtain rfl := Nat.eq_zero_of_not_pos ‹_›
      exact .returned queue none (absurd · (Nat.lt_irrefl 0))

theorem Stage.dropQuit {i : Nat} (stage : Stage n (.dropping i) mark queue quitting) :
    Stage n (.spinning i) mark (queue ++ [.quit]) quitting := by
  cases stage with
  | dropping _ _ more none => exact .queued _ queue more none

theorem Stage.refuseQuit {i : Nat} (stage : Stage n (.dropping i) mark queue quitting) :
    Stage n (.spinning i) mark queue quitting := by
  cases stage with
  | dropping _ _ more none => exact .refused _ queue more none

theorem Stage.spin {i : Nat} (stage : Stage n (.spinning i) (i + 1) queue quitting) :
    Stage n (if i + 1 < n then .dropping (i + 1) else .returned) (i + 1) queue quitting := by
  generalize marked : i + 1 = mark at stage
  cases stage with
  | refused | queued | taken => exact absurd marked (Nat.succ_ne_self i)
  | left _ more =>
    split
    · exact .dropping (i + 1) [] ‹_› List.not_mem_nil fun _ => rfl
    · have last : i + 1 = n := by omega
      rw [last]
      exact .returned [] List.not_mem_nil fun _ => rfl

end Stages

/-- What holds between the steps of a pool with `kNumThreads` threads. -/
structure Inv (kNumThreads : Nat) (p : ThreadPool Task Result) : Prop where
  size : p.threads.length = kNumThreads
  stage : Stage kNumThreads p.destructor p.exitMark p.waitingQueue (p.threads.countP Cycle.holdsQuit)
  exits : p.threads.countP Cycle.isExited = p.exitMark
  idle : p.threadsIdle = p.threads.map Cycle.isIdle

theorem inv_init : Inv kNumThreads (init kNumThreads : ThreadPool Task Result) where
  size := List.length_replicate
  stage := by
    have none : (List.replicate kNumThreads (.entering : Cycle Task Result)).countP Cycle.holdsQuit = 0 := by
      simp [Cycle.holdsQuit]
    rw [init, none]
    exact .uncalled [] List.not_mem_nil
  exits := by simp [init, Cycle.isExited]
  idle := by simp [init, Cycle.isIdle]

/-- A thread moves on, and nothing that the marks or the destructor see changes. -/
theorem Inv.move {i : Nat} {old : Cycle Task Result} (inv : Inv kNumThreads p)
    (get : p.threads[i]? = some old) (new : Cycle Task Result) (quits : new.holdsQuit = old.holdsQuit)
    (exits : new.isExited = old.isExited) (idle : new.isIdle = old.isIdle) :
    Inv kNumThreads { p with threads := p.threads.set i new } where
  size := List.length_set.trans inv.size
  stage := by
    simp only [Tally.countP_set_same Cycle.holdsQuit get new quits]
    exact inv.stage
  exits := by
    simp only [Tally.countP_set_same Cycle.isExited get new exits]
    exact inv.exits
  idle := by
    simp only [Tally.map_set_same Cycle.isIdle get new idle]
    exact inv.idle

theorem Inv.notifyOne {threads : List (Cycle Task Result)} {woken : Option Nat}
    (inv : Inv kNumThreads p) (woke : notifyOne p.threads woken = some threads) :
    Inv kNumThreads { p with threads := threads } := by
  rcases notifyOne_cases woke with rfl | ⟨i, get, rfl⟩
  · exact inv
  · exact inv.move get .notified rfl rfl rfl

theorem inv_step (p : ThreadPool Task Result) (a : Action Task Result) (q : ThreadPool Task Result)
    (inv : Inv kNumThreads p) (enabled : step kMaxQueueSize p a = some q) : Inv kNumThreads q := by
  cases stepped_of_step enabled with
  | drop task woken threads uncalled room woke =>
    obtain ⟨size, stage, exits, idle⟩ := inv.notifyOne woke
    refine ⟨size, ?_, exits, idle⟩
    simp only [uncalled] at stage ⊢
    exact stage.push
  | refuse => exact inv
  | grabAllResults => exact ⟨inv.size, inv.stage, inv.exits, inv.idle⟩
  | sleep i before get awake empty =>
    rcases awake with rfl | rfl <;> exact inv.move get .asleep rfl rfl rfl
  | take i before task rest get awake first =>
    have left : before.holdsQuit = false ∧ before.isExited = false ∧ before.isIdle = true := by
      rcases awake with rfl | rfl <;> exact ⟨rfl, rfl, rfl⟩
    refine ⟨List.length_set.trans inv.size, ?_, ?_, ?_⟩
    · have stage := inv.stage
      have quits := Tally.countP_set Cycle.holdsQuit get (.executing task)
      rw [first] at stage
      rw [left.1] at quits
      cases task with
      | task task =>
        rw [Nat.add_right_cancel quits]
        exact stage.takeTask
      | quit =>
        have more : (p.threads.set i (.executing .quit)).countP Cycle.holdsQuit =
            p.threads.countP Cycle.holdsQuit + 1 := quits
        simp only [more]
        exact stage.takeQuit
    · exact (Tally.countP_set_same Cycle.isExited get (.executing task) left.2.1.symm).trans inv.exits
    · rw [inv.idle, List.map_set]
      rfl
  | wakeUp i get => exact inv.move get .notified rfl rfl rfl
  | execute i task result get =>
    cases task <;> exact inv.move get _ rfl rfl rfl
  | process i task result get =>
    obtain ⟨size, stage, exits, idle⟩ := inv.move get .processed rfl rfl rfl
    exact ⟨size, stage, exits, idle⟩
  | exit i get =>
    refine ⟨List.length_set.trans inv.size, ?_, ?_, ?_⟩
    · have stage := inv.stage
      have fewer : (p.threads.set i .exited).countP Cycle.holdsQuit + 1 =
          p.threads.countP Cycle.holdsQuit := Tally.countP_set Cycle.holdsQuit get .exited
      rw [← fewer] at stage
      exact stage.exit
    · exact (Tally.countP_set Cycle.isExited get .exited).trans (congrArg (· + 1) inv.exits)
    · exact inv.idle.trans (Tally.map_set_same Cycle.isIdle get .exited rfl).symm
  | markIdle i get =>
    refine ⟨List.length_set.trans inv.size, ?_, ?_, ?_⟩
    · have stage := inv.stage
      rw [← Tally.countP_set_same Cycle.holdsQuit get .entering rfl] at stage
      exact stage
    · exact (Tally.countP_set_same Cycle.isExited get .entering rfl).trans inv.exits
    · rw [inv.idle, List.map_set]
      rfl
  | destroy uncalled =>
    refine ⟨inv.size, ?_, inv.exits, inv.idle⟩
    have stage := inv.stage
    rw [uncalled] at stage
    rw [next, inv.size]
    exact stage.destroy
  | dropQuit woken i threads dropping room woke =>
    obtain ⟨size, stage, exits, idle⟩ := inv.notifyOne woke
    refine ⟨size, ?_, exits, idle⟩
    simp only [dropping] at stage
    exact stage.dropQuit
  | refuseQuit woken i dropping full =>
    refine ⟨inv.size, ?_, inv.exits, inv.idle⟩
    have stage := inv.stage
    rw [dropping] at stage
    exact stage.refuseQuit
  | spin i spinning marked =>
    refine ⟨inv.size, ?_, inv.exits, inv.idle⟩
    have stage := inv.stage
    rw [spinning, marked] at stage
    rw [next, inv.size, marked]
    exact stage.spin

theorem inv_of_reachable (reached : Reachable (step kMaxQueueSize) (init kNumThreads) p) :
    Inv kNumThreads p :=
  reached.invariant inv_step inv_init

theorem held_nil {threads : List (Cycle Task Result)} (none : ∀ t ∈ threads, t.job = none) :
    Slots.held (threads.map Cycle.job) = [] := by
  apply List.filterMap_eq_nil_iff.mpr
  intro job member
  obtain ⟨t, inside, rfl⟩ := List.mem_map.mp member
  exact none t inside

/-- With the exit mark at the number of threads, all of them have left. -/
theorem Inv.all_exited (inv : Inv kNumThreads p) (marked : p.exitMark = kNumThreads) :
    ∀ t ∈ p.threads, t = .exited := by
  have all : p.threads.countP Cycle.isExited = p.threads.length :=
    inv.exits.trans (marked.trans inv.size.symm)
  intro t member
  have exited := List.countP_eq_length.mp all t member
  cases t <;> first | rfl | contradiction

/-- A pool with threads that has been destroyed: every thread has left its loop, and each
task that `Drop` ever accepted was executed, its result pushed, exactly once. -/
theorem destroyed_after_all (some_thread : 0 < kNumThreads) {actions : List (Action Task Result)}
    (ran : run (step kMaxQueueSize) (init kNumThreads) actions = some p)
    (returned : p.destructor = .returned) :
    (∀ t ∈ p.threads, t = .exited) ∧ p.waitingQueue = [] ∧
      (WorkQueue.accepted
          (trace (step kMaxQueueSize) (emits kMaxQueueSize) (init kNumThreads) actions)).Perm
        ((WorkQueue.finished
          (trace (step kMaxQueueSize) (emits kMaxQueueSize) (init kNumThreads) actions)).map
            Prod.fst) := by
  have inv : Inv kNumThreads p := inv_of_reachable ⟨actions, ran⟩
  obtain ⟨marked, empty⟩ : p.exitMark = kNumThreads ∧ p.waitingQueue = [] := by
    have stage := inv.stage
    rw [returned] at stage
    generalize p.exitMark = mark, p.waitingQueue = queue, p.threads.countP Cycle.holdsQuit = held
      at stage ⊢
    cases stage with
    | returned _ none empty => exact ⟨rfl, empty some_thread⟩
  have exited := inv.all_exited marked
  refine ⟨exited, empty, (accounts kNumThreads ran).complete empty (held_nil ?_)⟩
  intro t member
  rw [exited t member]
  rfl

/-- One task is run by the only thread before the pool is destroyed. -/
def destroyedRun : List (Action Nat Nat) :=
  [.drop 7 none, .lock 0, .execute 0 (some 8), .process 0, .markIdle 0, .destroy, .dropQuit none,
    .lock 0, .execute 0 none, .process 0, .spin]

theorem destroyed_after_one : ∃ p, run (step 2) (init 1) destroyedRun = some p ∧
    (∀ t ∈ p.threads, t = .exited) ∧ p.waitingQueue = [] ∧
      (WorkQueue.accepted (trace (step 2) (emits 2) (init 1) destroyedRun)).Perm
        ((WorkQueue.finished (trace (step 2) (emits 2) (init 1) destroyedRun)).map Prod.fst) :=
  ⟨_, rfl, destroyed_after_all Nat.one_pos rfl rfl⟩

/-- A step that queues nothing. -/
def Action.QueuesNothing : Action Task Result → Prop
  | .drop _ _ | .dropQuit _ => False
  | _ => True

theorem waiting_nil_step {a : Action Task Result} (empty : p.waitingQueue = [])
    (nothing : a.QueuesNothing) (enabled : step kMaxQueueSize p a = some q) :
    q.waitingQueue = [] := by
  cases stepped_of_step enabled with
  | drop | dropQuit | refuseQuit => exact nothing.elim
  | take i before task rest get awake first => exact absurd (empty.symm.trans first) nofun
  | _ => exact empty

theorem waiting_nil_run {more : List (Action Task Result)} (empty : p.waitingQueue = [])
    (nothing : ∀ a ∈ more, a.QueuesNothing) (ran : run (step kMaxQueueSize) p more = some q) :
    q.waitingQueue = [] := by
  induction more generalizing p with
  | nil => exact Option.some.inj ran ▸ empty
  | cons a more ih =>
    obtain ⟨now, later⟩ := List.forall_mem_cons.mp nothing
    obtain ⟨middle, first, rest⟩ := run_cons_some ran
    exact ih (waiting_nil_step empty now first) later rest

/-- As many marks as there are threads: none of them holds a task. -/
theorem Inv.none_held (inv : Inv kNumThreads p) (idle : p.queryIdleThreadsCount = kNumThreads) :
    ∀ t ∈ p.threads, t.job = none := by
  have all : p.threads.countP Cycle.isIdle = p.threads.length := by
    have counted : p.threadsIdle.countP id = p.threads.length := idle.trans inv.size.symm
    rw [inv.idle, List.countP_map] at counted
    exact counted
  intro t member
  have at_queue : t.isIdle = true := List.countP_eq_length.mp all t member
  cases t <;> first | rfl | contradiction

/-- A caller who finds the queue empty and later, with nothing dropped meanwhile, finds
every thread idle knows that each task accepted so far has been executed and its result
pushed. -/
theorem queries_complete {actions more : List (Action Task Result)}
    (ran : run (step kMaxQueueSize) (init kNumThreads) actions = some p)
    (empty : p.waitingQueue = []) (nothing : ∀ a ∈ more, a.QueuesNothing)
    (after : run (step kMaxQueueSize) p more = some q)
    (idle : q.queryIdleThreadsCount = kNumThreads) :
    (WorkQueue.accepted (trace (step kMaxQueueSize) (emits kMaxQueueSize) (init kNumThreads)
        (actions ++ more))).Perm
      ((WorkQueue.finished (trace (step kMaxQueueSize) (emits kMaxQueueSize) (init kNumThreads)
        (actions ++ more))).map Prod.fst) := by
  have whole : run (step kMaxQueueSize) (init kNumThreads) (actions ++ more) = some q := by
    rw [run_append, ran]
    exact after
  have inv : Inv kNumThreads q := inv_of_reachable ⟨actions ++ more, whole⟩
  exact (accounts kNumThreads whole).complete (waiting_nil_run empty nothing after)
    (held_nil (inv.none_held idle))

/-- The queue is found empty while its task runs, the thread idle after that. -/
theorem queries_complete_one : ∃ p q : ThreadPool Nat Nat,
    run (step 2) (init 1) [.drop 7 none, .lock 0] = some p ∧
      run (step 2) p [.execute 0 (some 8), .process 0, .markIdle 0] = some q ∧
        (WorkQueue.accepted (trace (step 2) (emits 2) (init 1) ([.drop 7 none, .lock 0] ++
          [.execute 0 (some 8), .process 0, .markIdle 0] : List (Action Nat Nat)))).Perm
        ((WorkQueue.finished (trace (step 2) (emits 2) (init 1) ([.drop 7 none, .lock 0] ++
          [.execute 0 (some 8), .process 0, .markIdle 0] : List (Action Nat Nat)))).map Prod.fst) :=
  ⟨_, _, rfl, rfl, queries_complete rfl rfl (by simp [Action.QueuesNothing]) rfl rfl⟩

end ThreadPool
end Shbk2
