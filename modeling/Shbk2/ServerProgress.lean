import Shbk2.Correspondence
import Shbk2.Draining
import Shbk2.ServerRefinement

/-! Every accepted request is answered. The threads and `handle_results` go on by
themselves for a bounded number of steps, whatever the network does not do; where they
can take none, nothing is in the pool, so no session is left in the handling state. -/
namespace Shbk2
open Transition

/-- The steps a thread takes, at most, before it sleeps again, and the result it leaves. -/
def Cycle.upcoming (t : Cycle EventHandleTask ResEvent) (position : Position) : Nat :=
  match t with
  | .executing _ => 5 + Conn.remaining position
  | .executed _ _ | .exiting => 4
  | .processed => 2
  | .entering | .notified => 1
  | .asleep | .exited => 0

namespace Server
variable {pb : Protobuf} {db : Database} {s t : Server}

/-- The steps of the threads and of `handle_results`, the wake-ups without a notification
apart. -/
def Action.Own : Action → Prop
  | .lock _ | .work _ _ _ _ | .execute _ | .process _ | .markIdle _ | .handleResults => True
  | .accept _ _ | .arrive _ _ | .reqCallback _ _ | .errCallback _ _ | .wakeUp _ => False

def upcoming (threads : List (Cycle EventHandleTask ResEvent)) (handling : Nat → Position) :
    List Nat :=
  threads.mapIdx fun i t => t.upcoming (handling i)

def effort (s : Server) : Nat :=
  9 * s.des.tp.waitingQueue.length + Tally.total id (upcoming s.des.tp.threads s.handling) +
    s.des.tp.resultsQueue.length

section Effort
variable {threads : List (Cycle EventHandleTask ResEvent)} (handling : Nat → Position) {i : Nat}
  {old : Cycle EventHandleTask ResEvent}

theorem remaining_le (position : Position) : Conn.remaining position ≤ 4 := by
  cases position <;> simp [Conn.remaining]

/-- A thread moves on to a position, or its handler does. -/
theorem upcoming_set (get : threads[i]? = some old) (new : Cycle EventHandleTask ResEvent)
    (position : Position) :
    Tally.total id (upcoming (threads.set i new) (Function.update handling i position)) +
        old.upcoming (handling i) =
      Tally.total id (upcoming threads handling) + new.upcoming position := by
  have placed : (upcoming threads handling)[i]? = some (old.upcoming (handling i)) := by
    rw [upcoming, List.getElem?_mapIdx, get, Option.map_some]
  have moved : upcoming (threads.set i new) (Function.update handling i position) =
      (upcoming threads handling).set i (new.upcoming position) := by
    apply Slots.mapIdx_set
    · rw [Function.update_self]
    · intro j other
      rw [Function.update_of_ne other]
  rw [moved]
  exact Tally.total_set id placed (new.upcoming position)

theorem upcoming_set_thread (get : threads[i]? = some old) (new : Cycle EventHandleTask ResEvent) :
    Tally.total id (upcoming (threads.set i new) handling) + old.upcoming (handling i) =
      Tally.total id (upcoming threads handling) + new.upcoming (handling i) := by
  have moved := upcoming_set handling get new (handling i)
  rwa [Function.update_eq_self] at moved

theorem upcoming_set_position (get : threads[i]? = some old) (position : Position) :
    Tally.total id (upcoming threads (Function.update handling i position)) +
        old.upcoming (handling i) =
      Tally.total id (upcoming threads handling) + old.upcoming position := by
  have moved := upcoming_set handling get old position
  rwa [Slots.set_same get] at moved

end Effort

theorem decreases_lock {i : Nat} (enabled : step pb db s (.lock i) = some t) : t.effort < s.effort := by
  simp only [step] at enabled
  split at enabled
  · rename_i empty
    obtain ⟨des, moved, rfl⟩ := Option.map_eq_some_iff.mp enabled
    obtain ⟨tp, stepped, rfl⟩ := thread_some moved
    cases stepped with
    | take _ before queued rest get awake first => cases empty.symm.trans first
    | sleep _ before get awake =>
      have fewer := upcoming_set_thread s.handling get .asleep
      have one : before.upcoming (s.handling i) = 1 := by rcases awake with rfl | rfl <;> rfl
      have none : (Cycle.asleep : Cycle EventHandleTask ResEvent).upcoming (s.handling i) = 0 := rfl
      rw [one, none] at fewer
      simp only [effort]
      omega
  · rename_i queued rest first
    obtain ⟨position, entered, enabled⟩ := Option.bind_eq_some_iff.mp enabled
    obtain ⟨des, moved, rfl⟩ := Option.map_eq_some_iff.mp enabled
    obtain ⟨tp, stepped, rfl⟩ := thread_some moved
    cases stepped with
    | sleep _ before get awake empty => cases empty.symm.trans first
    | take _ before other rest' get awake again =>
      have more := upcoming_set s.handling get (.executing other) position
      have one : before.upcoming (s.handling i) = 1 := by rcases awake with rfl | rfl <;> rfl
      have handles : (Cycle.executing other : Cycle EventHandleTask ResEvent).upcoming position =
          5 + Conn.remaining position := rfl
      have bound := remaining_le position
      rw [one, handles] at more
      simp only [effort, again, List.length_cons]
      omega

theorem decreases : Decreases (step pb db) Action.Own effort := by
  intro s a t own enabled
  cases a with
  | accept | arrive | reqCallback | errCallback | wakeUp => exact own.elim
  | lock i => exact decreases_lock enabled
  | work i rand garbage outcome =>
    simp only [step] at enabled
    split at enabled
    · contradiction
    · rename_i _ position task get unreturned
      obtain rfl := Option.some.inj enabled
      have some_left : Conn.remaining (s.handling i) ≠ 0 := by
        intro none
        obtain ⟨response, returned⟩ := Conn.returned_of_remaining none
        exact unreturned response returned
      have accessed := Conn.remaining_step (s.handling i)
        (((s.heap task.event.session.addr).map (·.session.stored)).getD garbage) rand
        (db.call s.table (s.handling i).statement outcome).2
      have fewer := upcoming_set_position s.handling get ((s.handling i).step
        (((s.heap task.event.session.addr).map (·.session.stored)).getD garbage) rand
        (db.call s.table (s.handling i).statement outcome).2).2
      simp only [Cycle.upcoming] at fewer
      simp only [effort]
      omega
    · contradiction
  | execute i =>
    simp only [step] at enabled
    split at enabled
    · rename_i _ _ task response get returned
      obtain ⟨des, moved, rfl⟩ := Option.map_eq_some_iff.mp enabled
      obtain ⟨tp, stepped, rfl⟩ := thread_some moved
      cases stepped with
      | execute _ queued _ again =>
        obtain rfl := Cycle.executing.inj (Option.some.inj (get.symm.trans again))
        have fewer := upcoming_set_thread s.handling get
          (.executed task (some ⟨task.event.session, response⟩))
        simp only [returned, Cycle.upcoming, Conn.remaining] at fewer
        simp only [effort, ThreadPool.execute]
        omega
    · contradiction
  | process i =>
    simp only [step] at enabled
    split at enabled
    · rename_i task result get
      obtain ⟨des, moved, rfl⟩ := Option.map_eq_some_iff.mp enabled
      obtain ⟨tp, stepped, rfl⟩ := thread_some moved
      cases stepped with
      | exit _ exiting => cases get.symm.trans exiting
      | process _ other result' again =>
        obtain ⟨rfl, rfl⟩ := Cycle.executed.inj (Option.some.inj (get.symm.trans again))
        have fewer := upcoming_set_thread s.handling get .processed
        simp only [Cycle.upcoming] at fewer
        simp only [effort, List.length_append, Option.toList_some, List.length_singleton]
        omega
    · contradiction
  | markIdle i =>
    obtain ⟨des, moved, rfl⟩ := Option.map_eq_some_iff.mp enabled
    obtain ⟨tp, stepped, rfl⟩ := thread_some moved
    cases stepped with
    | markIdle _ get =>
      have fewer := upcoming_set_thread s.handling get .entering
      simp only [Cycle.upcoming] at fewer
      simp only [effort]
      omega
  | handleResults =>
    simp only [step] at enabled
    obtain ⟨some, enabled⟩ := Option.ite_none_left_eq_some.mp enabled
    obtain rfl := Option.some.inj enabled
    have results : 0 < s.des.tp.resultsQueue.length := List.length_pos_of_ne_nil some
    simp only [effort, DispatchEventsService.drag, ThreadPool.grabAllResults, List.length_nil]
    omega

/-! The pool of the server is a pool. -/

theorem thread_step {d e : DispatchEventsService} {b : ThreadPool.Action EventHandleTask ResEvent}
    (moved : d.thread b = some e) : ∃ b, ThreadPool.step kDefaultMaxQueueSize d.tp b = some e.tp := by
  obtain ⟨tp, stepped, rfl⟩ := Option.map_eq_some_iff.mp moved
  exact ⟨b, stepped⟩

/-- While the pool is not being destroyed, `Push` is a `Drop` or nothing. -/
theorem push_step {d e : DispatchEventsService} {event : ReqEvent} {woken : Option Nat}
    {accepted : Bool} (uncalled : d.tp.destructor = .uncalled)
    (pushed : d.push event woken = some (accepted, e)) :
    e.tp = d.tp ∨ ∃ b, ThreadPool.step kDefaultMaxQueueSize d.tp b = some e.tp := by
  unfold DispatchEventsService.push at pushed
  split at pushed
  · obtain ⟨_, rfl⟩ := Prod.mk.inj (Option.some.inj pushed)
    exact .inl rfl
  · rename_i handler found
    obtain ⟨⟨_, tp⟩, dropped, same⟩ := Option.map_eq_some_iff.mp pushed
    obtain ⟨_, rfl⟩ := Prod.mk.inj same
    refine .inr ⟨.drop ⟨event, handler⟩ woken, ?_⟩
    simp only [ThreadPool.step, uncalled, dropped, Option.map_some]

theorem pool_step (inv : Inv s) {a : Action} (enabled : step pb db s a = some t) :
    t.des.tp = s.des.tp ∨
      ∃ b, ThreadPool.step kDefaultMaxQueueSize s.des.tp b = some t.des.tp := by
  cases a with
  | accept | arrive | errCallback =>
    simp only [step] at enabled
    repeat' split at enabled
    all_goals first
      | contradiction
      | (obtain rfl := Option.some.inj enabled; exact .inl rfl)
  | reqCallback addr woken =>
    simp only [step] at enabled
    split at enabled
    · obtain ⟨unread, enabled⟩ := Option.ite_none_right_eq_some.mp enabled
      split at enabled
      · obtain rfl := Option.some.inj enabled
        exact .inl rfl
      · obtain ⟨⟨accepted, des⟩, pushed, rfl⟩ := Option.map_eq_some_iff.mp enabled
        exact push_step inv.uncalled pushed
    · contradiction
  | lock i =>
    simp only [step] at enabled
    split at enabled
    · obtain ⟨des, moved, rfl⟩ := Option.map_eq_some_iff.mp enabled
      exact .inr (thread_step moved)
    · obtain ⟨position, entered, enabled⟩ := Option.bind_eq_some_iff.mp enabled
      obtain ⟨des, moved, rfl⟩ := Option.map_eq_some_iff.mp enabled
      exact .inr (thread_step moved)
  | work i rand garbage outcome =>
    simp only [step] at enabled
    split at enabled
    · contradiction
    · obtain rfl := Option.some.inj enabled
      exact .inl rfl
    · contradiction
  | execute i | process i =>
    simp only [step] at enabled
    split at enabled
    · obtain ⟨des, moved, rfl⟩ := Option.map_eq_some_iff.mp enabled
      exact .inr (thread_step moved)
    · contradiction
  | wakeUp i | markIdle i =>
    obtain ⟨des, moved, rfl⟩ := Option.map_eq_some_iff.mp enabled
    exact .inr (thread_step moved)
  | handleResults =>
    obtain ⟨some, enabled⟩ := Option.ite_none_left_eq_some.mp enabled
    obtain rfl := Option.some.inj enabled
    refine .inr ⟨.grabAllResults, ?_⟩
    simp only [ThreadPool.step, inv.uncalled]
    rfl

theorem pool_reachable {hardwareConcurrency : Nat} {handling : Nat → Position} {table : List Bytes}
    (reached : Reachable (step pb db) (init hardwareConcurrency handling table) s) :
    Inv s ∧ Reachable (ThreadPool.step kDefaultMaxQueueSize) (.init hardwareConcurrency) s.des.tp := by
  refine reached.invariant (P := fun s => Inv s ∧
    Reachable (ThreadPool.step kDefaultMaxQueueSize) (.init hardwareConcurrency) s.des.tp) ?_ ?_
  · rintro s a t ⟨inv, pool⟩ enabled
    refine ⟨(answers inv enabled).2, ?_⟩
    rcases pool_step inv enabled with same | ⟨b, stepped⟩
    · rw [same]
      exact pool
    · exact pool.next stepped
  · exact ⟨(world_init hardwareConcurrency handling table).2, .refl _⟩

/-! Where nothing moves. -/

theorem lock_enabled (inv : Inv s) {i : Nat} {u : Cycle EventHandleTask ResEvent}
    (get : s.des.tp.threads[i]? = some u) (awake : u = .entering ∨ u = .notified) :
    step pb db s (.lock i) ≠ none := by
  have acquires : s.des.thread (.lock i) ≠ none := by
    rcases awake with rfl | rfl <;>
      simp [DispatchEventsService.thread, ThreadPool.step, get]
  obtain ⟨des, moved⟩ := Option.ne_none_iff_exists'.mp acquires
  simp only [step, moved]
  split
  · exact Option.some_ne_none _
  · rename_i queued rest first
    obtain ⟨task, rfl, handles⟩ := inv.queued queued (by rw [first]; exact List.mem_cons_self)
    simp only [Server.entered, first, handles, Option.bind_some]
    exact Option.some_ne_none _

theorem at_rest_thread (inv : Inv s) (rest : Exhausted (step pb db) Action.Own s) {i : Nat}
    {u : Cycle EventHandleTask ResEvent} (get : s.des.tp.threads[i]? = some u) :
    u = .asleep ∨ u = .exited := by
  have stand := inv.threads i u get
  cases u with
  | entering => exact absurd (rest (.lock i) trivial) (lock_enabled inv get (.inl rfl))
  | notified => exact absurd (rest (.lock i) trivial) (lock_enabled inv get (.inr rfl))
  | asleep => exact .inl rfl
  | exited => exact .inr rfl
  | exiting => exact stand.elim
  | executing queued =>
    obtain ⟨task, rfl⟩ := stand
    cases position : s.handling i with
    | returned response =>
      have stuck := rest (.execute i) trivial
      simp [step, get, position, DispatchEventsService.thread, ThreadPool.step] at stuck
    | _ =>
      have stuck := rest (.work i 0 ⟨[], 0⟩ .noHandler) trivial
      simp [step, get, position] at stuck
  | executed task result =>
    obtain ⟨response, _, rfl⟩ := stand
    have stuck := rest (.process i) trivial
    simp [step, get, DispatchEventsService.thread, ThreadPool.step] at stuck
  | processed =>
    have stuck := rest (.markIdle i) trivial
    simp [step, get, DispatchEventsService.thread, ThreadPool.step] at stuck

theorem no_results (rest : Exhausted (step pb db) Action.Own s) : s.des.tp.resultsQueue = [] := by
  have stuck := rest .handleResults trivial
  by_contra some
  have dragged : s.des.drag.1 ≠ [] := some
  simp only [step] at stuck
  rw [if_neg dragged] at stuck
  contradiction

/-- Nothing is left in the pool of a server that has threads. -/
theorem items_nil (inv : Inv s) {hardwareConcurrency : Nat} (some_thread : 0 < hardwareConcurrency)
    (reached : Reachable (ThreadPool.step kDefaultMaxQueueSize) (.init hardwareConcurrency) s.des.tp)
    (rest : Exhausted (step pb db) Action.Own s) : s.world.items = [] := by
  have threads : ∀ u ∈ s.des.tp.threads, u = .asleep ∨ u = .exited := by
    intro u member
    obtain ⟨i, get⟩ := List.getElem?_of_mem member
    exact at_rest_thread inv rest get
  have waiting : s.world.waiting = [] := by
    rw [world, ThreadPool.empty_of_asleep some_thread reached threads]
    rfl
  have held : Slots.held s.world.workers = [] := by
    apply List.filterMap_eq_nil_iff.mpr
    intro worker member
    obtain ⟨i, get⟩ := List.getElem?_of_mem member
    rw [world, workers, List.getElem?_mapIdx] at get
    obtain ⟨u, found, rfl⟩ := Option.map_eq_some_iff.mp get
    rcases threads u (List.mem_of_getElem? found) with rfl | rfl <;> rfl
  have results : s.world.results = [] := no_results rest
  rw [World.items, waiting, held, results]
  rfl

theorem own_spares {a : Action} (own : a.Own) : Answered World.Spares s a := by
  apply answered_spares <;> rintro _ _ rfl <;> exact own

/-- Where every thread sleeps and no result is left, nothing moves. -/
theorem exhausted_of_asleep (threads : ∀ u ∈ s.des.tp.threads, u = .asleep)
    (uncalled : s.des.tp.destructor = .uncalled) (results : s.des.tp.resultsQueue = []) :
    Exhausted (step pb db) Action.Own s := by
  have pool : Exhausted (ThreadPool.step kDefaultMaxQueueSize) ThreadPool.Action.Own s.des.tp :=
    ThreadPool.exhausted_of_asleep (fun u member => .inl (threads u member)) (.inl uncalled)
  have stuck {b : ThreadPool.Action EventHandleTask ResEvent} (own : b.Own) :
      s.des.thread b = none := by
    rw [DispatchEventsService.thread, pool b own, Option.map_none]
  intro a own
  cases a with
  | accept | arrive | reqCallback | errCallback | wakeUp => exact own.elim
  | handleResults => exact if_pos results
  | markIdle i =>
    have none : s.des.thread (.markIdle i) = none := stuck trivial
    simp only [step, none, Option.map_none]
  | lock i =>
    have none : s.des.thread (.lock i) = none := stuck trivial
    simp only [step, none, Option.map_none, Option.bind_fun_none]
    split <;> rfl
  | work i rand garbage outcome | execute i | process i =>
    cases get : s.des.tp.threads[i]? with
    | none => simp only [step, get]
    | some u =>
      obtain rfl := threads u (List.mem_of_getElem? get)
      simp only [step, get]

/-- From any state that a run reaches, the server goes on by itself for a bounded number
of steps. Where it can go no further, nothing is in its pool, and if no session was deleted
while its request was handled, every session has been sent the answer to each of its
requests, in order, and waits for the next one. -/
theorem responds {hardwareConcurrency : Nat} {handling : Nat → Position} {table : List Bytes}
    (some_thread : 0 < hardwareConcurrency) {actions more : List Action}
    (ran : run (step pb db) (init hardwareConcurrency handling table) actions = some s)
    (spares : Along (step pb db) (Answered World.Spares) (init hardwareConcurrency handling table)
      actions)
    (own : ∀ a ∈ more, a.Own) (after : run (step pb db) s more = some t) :
    more.length ≤ s.effort ∧ (Exhausted (step pb db) Action.Own t →
      t.world.items = [] ∧ ∀ addr o, t.heap addr = some o → o.session.stat ≠ .handling ∧
        o.session.bufev.output.length = o.history.pushed.length ∧ o.Answers) := by
  have bound := decreases.run own after
  refine ⟨by omega, fun rest => ?_⟩
  have whole : run (guarded (step pb db) (Answered World.Spares))
      (init hardwareConcurrency handling table) (actions ++ more) = some t := by
    rw [run_append, run_guarded.mpr ⟨ran, spares⟩]
    exact run_guarded.mpr ⟨after, along_of_forall (fun a member _ => own_spares (own a member)) s⟩
  obtain ⟨reached, guards⟩ := run_guarded.mp whole
  obtain ⟨inv, pool⟩ := pool_reachable ⟨actions ++ more, reached⟩
  have empty := items_nil inv some_thread pool rest
  refine ⟨empty, fun addr o lives => ?_⟩
  obtain ⟨projects, _, _⟩ := safe_run reached guards
  have corresponds := (projects.inv lives).corresponds
  have none : (t.world.itemsAt addr).length = 0 := by
    rw [World.itemsAt, empty]
    rfl
  have settled := corresponds.inPool
  rw [none] at settled
  refine ⟨fun stat => ?_, ?_, corresponds.answers⟩
  · have outstanding := corresponds.outstanding
    rw [if_pos stat] at outstanding
    omega
  · have written := corresponds.written
    omega

/-- The only thread handles the request, its answer is written, and the thread sleeps. -/
def answerRun : List Action :=
  [.lock 0, .work 0 0 ⟨[], 0⟩ .noHandler, .work 0 0 ⟨[], 0⟩ .noHandler,
    .work 0 0 ⟨[], 0⟩ .noHandler, .execute 0, .process 0, .markIdle 0, .lock 0, .handleResults]

theorem responds_phone : ∃ s t, run (step WireFormat.protobuf ⟨fun _ _ => none⟩)
      (init 1 (fun _ => .returned (evLoginRes .kSuccess)) []) phoneRun = some s ∧
    run (step WireFormat.protobuf ⟨fun _ _ => none⟩) s answerRun = some t ∧
    t.world.items = [] ∧ ∀ addr o, t.heap addr = some o → o.session.stat ≠ .handling ∧
      o.session.bufev.output.length = o.history.pushed.length ∧ o.Answers := by
  obtain ⟨s, t, ran, after, threads, uncalled, results⟩ : ∃ s t,
      run (step WireFormat.protobuf ⟨fun _ _ => none⟩)
          (init 1 (fun _ => .returned (evLoginRes .kSuccess)) []) phoneRun = some s ∧
        run (step WireFormat.protobuf ⟨fun _ _ => none⟩) s answerRun = some t ∧
        t.des.tp.threads = [.asleep] ∧ t.des.tp.destructor = .uncalled ∧
        t.des.tp.resultsQueue = [] := ⟨_, _, rfl, rfl, rfl, rfl, rfl⟩
  have own : ∀ a ∈ answerRun, a.Own := by simp [answerRun, Action.Own]
  have rest : Exhausted (step WireFormat.protobuf ⟨fun _ _ => none⟩) Action.Own t :=
    exhausted_of_asleep (by simp [threads]) uncalled results
  exact ⟨s, t, ran, after, (responds Nat.one_pos ran phoneRun_spares own after).2 rest⟩

end Server
end Shbk2
