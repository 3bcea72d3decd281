import Shbk2.Draining

/-! When the destructor of the pool returns. It does not look at what `Drop` returned for
a quit task: once that was refused, no thread will leave and it waits forever. Only the
first quit task can meet a full queue, since each later one follows a thread that left
the queue empty. -/
namespace Shbk2
open Transition

def QueuedTask.isQuit {Task : Type} : QueuedTask Task → Bool
  | .quit => true
  | .task _ => false

namespace ThreadPool
variable {Task Result : Type} {kMaxQueueSize kNumThreads : Nat} {p q : ThreadPool Task Result}

/-- The quit tasks in the queue and with the threads. -/
def quits (p : ThreadPool Task Result) : Nat :=
  p.waitingQueue.countP QueuedTask.isQuit + p.threads.countP Cycle.holdsQuit

/-- The destructor waits for a thread to leave, and no quit task is on its way. -/
def Stuck (p : ThreadPool Task Result) : Prop :=
  ∃ i, p.destructor = .spinning i ∧ p.exitMark = i ∧ p.quits = 0

theorem quits_set {i : Nat} {old : Cycle Task Result} (get : p.threads[i]? = some old)
    (new : Cycle Task Result) (same : new.holdsQuit = old.holdsQuit) :
    p.waitingQueue.countP QueuedTask.isQuit + (p.threads.set i new).countP Cycle.holdsQuit =
      p.quits := by
  rw [Tally.countP_set_same Cycle.holdsQuit get new same, quits]

/-- A quit task that is taken is one that the thread holds. -/
theorem quits_take {i : Nat} {before : Cycle Task Result} {task : QueuedTask Task}
    {rest : List (QueuedTask Task)} (get : p.threads[i]? = some before)
    (awake : before = .entering ∨ before = .notified) (first : p.waitingQueue = task :: rest) :
    rest.countP QueuedTask.isQuit + (p.threads.set i (.executing task)).countP Cycle.holdsQuit =
      p.quits := by
  have held := Tally.countP_set Cycle.holdsQuit get (.executing task)
  have none : before.holdsQuit = false := by rcases awake with rfl | rfl <;> rfl
  rw [none] at held
  cases task with
  | task task =>
    have held : _ + 0 = _ + 0 := held
    rw [quits, first, List.countP_cons_of_neg (by exact Bool.false_ne_true)]
    omega
  | quit =>
    have held : _ + 0 = _ + 1 := held
    rw [quits, first, List.countP_cons_of_pos rfl]
    omega

theorem next_ne_spinning (p : ThreadPool Task Result) (i j : Nat) : p.next i ≠ .spinning j := by
  unfold next
  split <;> nofun

/-- Between two turns of its loop the destructor has no quit task on its way. -/
theorem Stage.dropping_quits {n i mark held : Nat} {queue : List (QueuedTask Task)}
    (stage : Stage n (.dropping i) mark queue held) :
    mark = i ∧ queue.countP QueuedTask.isQuit + held = 0 := by
  cases stage with
  | dropping _ _ more none =>
    refine ⟨rfl, List.countP_eq_zero.mpr ?_⟩
    intro task member quits
    cases task with
    | task task => exact Bool.false_ne_true quits
    | quit => exact none member

/-- A step that leaves the destructor, the exit mark and the quit tasks alone. -/
theorem stuck_same {a : Action Task Result} (other : ∀ woken, a ≠ .dropQuit woken)
    (destructor : q.destructor = p.destructor) (marks : q.exitMark = p.exitMark)
    (same : q.quits = p.quits) :
    Stuck q ↔ Stuck p ∨ ∃ woken, a = .dropQuit woken ∧ kMaxQueueSize ≤ p.waitingQueue.length := by
  have none : ¬ ∃ woken, a = .dropQuit woken ∧ kMaxQueueSize ≤ p.waitingQueue.length :=
    fun ⟨woken, dropped, _⟩ => other woken dropped
  rw [or_iff_left none, Stuck, Stuck, destructor, marks, same]

/-- The destructor gets stuck where the queue refuses its quit task, and then stays so. -/
theorem stuck_step {a : Action Task Result} (inv : Inv kNumThreads p)
    (enabled : step kMaxQueueSize p a = some q) :
    Stuck q ↔ Stuck p ∨ ∃ woken, a = .dropQuit woken ∧ kMaxQueueSize ≤ p.waitingQueue.length := by
  cases stepped_of_step enabled with
  | drop task woken threads uncalled => simp [Stuck, uncalled]
  | refuse task woken uncalled => simp [Stuck, uncalled]
  | grabAllResults uncalled => simp [Stuck, uncalled]
  | sleep i before get awake empty =>
    have same : (Cycle.asleep : Cycle Task Result).holdsQuit = before.holdsQuit := by
      rcases awake with rfl | rfl <;> rfl
    exact stuck_same nofun rfl rfl (quits_set get .asleep same)
  | take i before task rest get awake first =>
    exact stuck_same nofun rfl rfl (quits_take get awake first)
  | wakeUp i get => exact stuck_same nofun rfl rfl (quits_set get .notified rfl)
  | execute i task result get =>
    have same : (execute task result).holdsQuit = (Cycle.executing task : Cycle Task Result).holdsQuit := by
      cases task <;> rfl
    exact stuck_same nofun rfl rfl (quits_set get (execute task result) same)
  | process i task result get =>
    exact stuck_same nofun rfl rfl (quits_set get .processed rfl)
  | exit i get =>
    -- One quit task is on its way: the destructor is stuck neither before nor after.
    have some_held := Tally.countP_pos Cycle.holdsQuit get rfl
    refine iff_of_false ?_ ?_
    · rintro ⟨j, spinning, marked, _⟩
      have stage := inv.stage
      generalize p.destructor = d, p.exitMark = mark, p.waitingQueue = queue,
        p.threads.countP Cycle.holdsQuit = held at stage spinning marked some_held
      cases stage with
      | taken =>
        obtain rfl := Destructor.spinning.inj spinning
        exact Nat.succ_ne_self _ marked
      | _ => exact absurd some_held (Nat.lt_irrefl 0)
    · rintro (⟨j, _, _, none⟩ | ⟨woken, other, _⟩)
      · rw [quits] at none
        omega
      · contradiction
  | markIdle i get => exact stuck_same nofun rfl rfl (quits_set get .entering rfl)
  | destroy uncalled =>
    refine iff_of_false ?_ ?_
    · rintro ⟨j, spinning, _⟩
      exact next_ne_spinning p 0 j spinning
    · rintro (⟨j, spinning, _⟩ | ⟨woken, other, _⟩)
      · exact absurd (uncalled.symm.trans spinning) nofun
      · contradiction
  | dropQuit woken i threads dropping room woke =>
    refine iff_of_false ?_ ?_
    · rintro ⟨j, _, _, none⟩
      simp [quits, QueuedTask.isQuit] at none
    · rintro (⟨j, spinning, _, _⟩ | ⟨woken, _, full⟩)
      · exact absurd (dropping.symm.trans spinning) nofun
      · exact absurd full (Nat.not_le_of_lt room)
  | refuseQuit woken i dropping full =>
    refine iff_of_true ?_ (.inr ⟨woken, rfl, full⟩)
    have stage := inv.stage
    rw [dropping] at stage
    obtain ⟨marked, none⟩ := stage.dropping_quits
    exact ⟨i, rfl, marked, none⟩
  | spin i spinning marked =>
    refine iff_of_false ?_ ?_
    · rintro ⟨j, again, _⟩
      exact next_ne_spinning p (i + 1) j again
    · rintro (⟨j, same, before, _⟩ | ⟨woken, other, _⟩)
      · obtain rfl := Destructor.spinning.inj (spinning.symm.trans same)
        exact Nat.succ_ne_self _ (marked.symm.trans before)
      · contradiction

/-- The destructor has sent a quit task, and is not stuck. -/
structure Proceeding (kNumThreads : Nat) (p : ThreadPool Task Result) : Prop where
  inv : Inv kNumThreads p
  called : p.destructor ≠ .uncalled
  first : p.destructor ≠ .dropping 0
  free : ¬ Stuck p

theorem destructor_step {a : Action Task Result} (called : p.destructor ≠ .uncalled)
    (first : p.destructor ≠ .dropping 0) (enabled : step kMaxQueueSize p a = some q) :
    q.destructor ≠ .uncalled ∧ q.destructor ≠ .dropping 0 := by
  cases stepped_of_step enabled with
  | destroy uncalled => exact absurd uncalled called
  | dropQuit | refuseQuit => exact ⟨nofun, nofun⟩
  | spin i spinning marked =>
    unfold next
    split <;> exact ⟨nofun, nofun⟩
  | _ => exact ⟨called, first⟩

/-- After the first quit task each one finds an empty queue. -/
theorem proceeding_step (room : 0 < kMaxQueueSize) (p : ThreadPool Task Result)
    (a : Action Task Result) (q : ThreadPool Task Result) (before : Proceeding kNumThreads p)
    (enabled : step kMaxQueueSize p a = some q) : Proceeding kNumThreads q := by
  obtain ⟨called, first⟩ := destructor_step before.called before.first enabled
  refine ⟨inv_step p a q before.inv enabled, called, first, fun stuck => ?_⟩
  rcases (stuck_step before.inv enabled).mp stuck with earlier | ⟨woken, rfl, full⟩
  · exact before.free earlier
  · have later : ∃ i, p.destructor = .dropping i := by
      cases stepped_of_step enabled with
      | dropQuit _ i _ dropping | refuseQuit _ i dropping => exact ⟨i, dropping⟩
    obtain ⟨i, dropping⟩ := later
    have stage := before.inv.stage
    have positive : 0 < i := by
      refine Nat.pos_of_ne_zero fun zero => before.first ?_
      rw [dropping, zero]
    rw [dropping] at stage
    generalize p.exitMark = mark, p.waitingQueue = queue, p.threads.countP Cycle.holdsQuit = held
      at stage full
    cases stage with
    | dropping _ _ more none empty =>
      rw [empty positive] at full
      exact absurd room (Nat.not_lt_of_le full)

/-- At rest, a destructor that is not stuck has returned. -/
theorem Proceeding.returned (proceeding : Proceeding kNumThreads p) (some_thread : 0 < kNumThreads)
    (reached : Reachable (step kMaxQueueSize) (init kNumThreads) p)
    (rest : Exhausted (step kMaxQueueSize) Action.Own p) : p.destructor = .returned := by
  obtain ⟨empty, none⟩ := empty_at_rest some_thread reached rest
  obtain ⟨dropped, spun⟩ := exhausted_destructor rest
  have nobody : p.threads.countP Cycle.holdsQuit = 0 := by
    apply List.countP_eq_zero.mpr
    intro t member holds
    have free := none t member
    cases t <;> contradiction
  cases at_last : p.destructor with
  | uncalled => exact absurd at_last proceeding.called
  | dropping i => exact absurd at_last (dropped i)
  | returned => rfl
  | spinning i =>
    have stuck : p.exitMark = i → Stuck p :=
      fun marked => ⟨i, at_last, marked, by rw [quits, empty, nobody]; rfl⟩
    have stage := proceeding.inv.stage
    have waits := spun i at_last
    rw [at_last, nobody] at stage
    generalize p.exitMark = mark, p.waitingQueue = queue at stage stuck waits
    cases stage with
    | refused | queued => exact absurd (stuck rfl) proceeding.free
    | left => exact absurd rfl waits

/-- The destructor can return, and by itself does return once every task was executed, if
and only if the queue is not full when it drops its first quit task. -/
theorem destructor_returns_iff (kNumThreads : Nat) (woken : Option Nat)
    (reached : Reachable (step kMaxQueueSize) (init kNumThreads) p)
    (begun : p.destructor = .dropping 0) (dropped : step kMaxQueueSize p (.dropQuit woken) = some q) :
    ((∃ r, Reachable (step kMaxQueueSize) q r ∧ r.destructor = .returned) ↔
        p.waitingQueue.length < kMaxQueueSize) ∧
      (p.waitingQueue.length < kMaxQueueSize → ∀ more r, (∀ a ∈ more, a.Own) →
        run (step kMaxQueueSize) q more = some r → Exhausted (step kMaxQueueSize) Action.Own r →
        r.destructor = .returned) := by
  have inv : Inv kNumThreads p := inv_of_reachable reached
  have some_thread : 0 < kNumThreads := by
    have stage := inv.stage
    rw [begun] at stage
    generalize p.exitMark = mark, p.waitingQueue = queue, p.threads.countP Cycle.holdsQuit = held
      at stage
    cases stage with
    | dropping _ _ more => exact more
  have exact_step := stuck_step inv dropped
  have returns (room : p.waitingQueue.length < kMaxQueueSize) (more : List (Action Task Result))
      (r : ThreadPool Task Result) (ran : run (step kMaxQueueSize) q more = some r)
      (rest : Exhausted (step kMaxQueueSize) Action.Own r) : r.destructor = .returned := by
    have start : Proceeding kNumThreads q := by
      refine ⟨inv_step p _ q inv dropped, ?_, ?_, fun stuck => ?_⟩
      · cases stepped_of_step dropped <;> nofun
      · cases stepped_of_step dropped <;> nofun
      · rcases exact_step.mp stuck with ⟨i, spinning, _⟩ | ⟨_, _, full⟩
        · exact absurd (begun.symm.trans spinning) nofun
        · exact absurd room (Nat.not_lt_of_le full)
    have proceeding : Proceeding kNumThreads r :=
      run_invariant (proceeding_step (Nat.zero_lt_of_lt room)) start ran
    obtain ⟨actions, before⟩ := reached.next dropped
    exact proceeding.returned some_thread
      ⟨actions ++ more, by rw [run_append, before]; exact ran⟩ rest
  refine ⟨⟨?_, ?_⟩, fun room more r _ => returns room more r⟩
  · rintro ⟨r, continued, done⟩
    refine Nat.lt_of_not_le fun full => ?_
    have stuck : Stuck q := exact_step.mpr (.inr ⟨woken, rfl, full⟩)
    have kept : Inv kNumThreads r ∧ Stuck r :=
      continued.invariant (P := fun r => Inv kNumThreads r ∧ Stuck r)
        (fun s a t both stepped => ⟨inv_step s a t both.1 stepped,
          (stuck_step both.1 stepped).mpr (.inl both.2)⟩)
        ⟨inv_step p _ q inv dropped, stuck⟩
    obtain ⟨i, spinning, _⟩ := kept.2
    exact absurd (done.symm.trans spinning) nofun
  · intro room
    obtain ⟨more, r, _, ran, rest⟩ := decreases.exhausts q
    exact ⟨r, ⟨more, ran⟩, returns room more r ran rest⟩

/-- With one place in the queue taken and the only thread not there yet, the destructor
waits forever. -/
theorem destructor_returns_iff_full : ∃ p q : ThreadPool Nat Nat,
    run (step 1) (init 1) [.drop 7 none, .destroy] = some p ∧
      step 1 p (.dropQuit none) = some q ∧ p.waitingQueue.length = 1 ∧
      ((∃ r, Reachable (step 1) q r ∧ r.destructor = .returned) ↔ p.waitingQueue.length < 1) :=
  ⟨_, _, rfl, rfl, rfl,
    (destructor_returns_iff 1 none ⟨[.drop 7 none, .destroy], rfl⟩ rfl rfl).1⟩

end ThreadPool
end Shbk2
