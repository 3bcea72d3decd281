import Shbk2.Dangling
import Shbk2.Server
import Shbk2.Withholding

/-! The server with its thread pool does what the abstract server does whose workers
take events off a queue: a step of a thread that sleeps, wakes up, returns from `Handle`
or marks itself idle is not seen, the others are one step each. -/
namespace Shbk2
open Transition

def QueuedTask.event : QueuedTask EventHandleTask → Option ReqEvent
  | .task queued => some queued.event
  | .quit => none

namespace Server

/-- A thread as a worker: the event it has taken, and where it stands with it. -/
def worker (t : Cycle EventHandleTask ResEvent) (position : Position) : Option Task :=
  (t.job.bind QueuedTask.event).map fun event => ⟨event, position⟩

def workers (threads : List (Cycle EventHandleTask ResEvent)) (handling : Nat → Position) :
    List (Option Task) :=
  threads.mapIdx fun i t => worker t (handling i)

/-- The server as the abstract one sees it. -/
def world (s : Server) : World where
  heap := s.heap
  allocations := s.allocations
  waiting := s.des.tp.waitingQueue.filterMap QueuedTask.event
  workers := workers s.des.tp.threads s.handling
  results := s.des.tp.resultsQueue
  table := s.table

section Workers
variable {threads : List (Cycle EventHandleTask ResEvent)} {handling : Nat → Position} {i : Nat}
  {old : Cycle EventHandleTask ResEvent} (t : Cycle EventHandleTask ResEvent)

theorem workers_get (get : threads[i]? = some old) :
    (workers threads handling)[i]? = some (worker old (handling i)) := by
  rw [workers, List.getElem?_mapIdx, get, Option.map_some]

theorem workers_set (position : Position) :
    workers (threads.set i t) (Function.update handling i position) =
      (workers threads handling).set i (worker t position) := by
  apply Slots.mapIdx_set
  · rw [Function.update_self]
  · intro j other
    rw [Function.update_of_ne other]

/-- A thread moves on at its position. -/
theorem workers_set_thread : workers (threads.set i t) handling =
    (workers threads handling).set i (worker t (handling i)) := by
  rw [← workers_set t (handling i), Function.update_eq_self]

/-- The handler of a thread moves on. -/
theorem workers_set_position (get : threads[i]? = some old) (position : Position) :
    workers threads (Function.update handling i position) =
      (workers threads handling).set i (worker old position) := by
  rw [← workers_set old position, Slots.set_same get]

/-- A thread that goes on as the same worker. -/
theorem workers_set_same (get : threads[i]? = some old) (same : t.job = old.job) :
    workers (threads.set i t) handling = workers threads handling := by
  obtain ⟨before, after, split, changed⟩ :=
    Slots.set_split (workers_get get) (worker t (handling i))
  rw [workers_set_thread, changed, split]
  simp only [worker, same]

theorem workers_notifyOne {after : List (Cycle EventHandleTask ResEvent)} {woken : Option Nat}
    (woke : ThreadPool.notifyOne threads woken = some after) :
    workers after handling = workers threads handling := by
  rcases ThreadPool.notifyOne_cases woke with rfl | ⟨i, get, rfl⟩
  · rfl
  · exact workers_set_same .notified get rfl

end Workers

/-- A queued task carries the handler for its event. -/
def Dispatched (queued : QueuedTask EventHandleTask) : Prop :=
  ∃ task, queued = .task task ∧
    task.handler.handle task.event.message = some (.start task.event.message)

/-- A thread in `Handle`, or past it with the result that `Handle` returned. -/
def Stands (position : Position) : Cycle EventHandleTask ResEvent → Prop
  | .executing queued => ∃ task, queued = .task task
  | .executed task result => ∃ response, position = .returned response ∧
      result = some ⟨task.event.session, response⟩
  | .exiting => False
  | _ => True

/-- What holds between the steps of the server. -/
structure Inv (s : Server) : Prop where
  handlers : s.des.handlerMap = ((DispatchEventsService.new 0).registerHandler .kPhoneReq
    .phoneReqEventHandler |>.registerHandler .kLoginReq .loginReqEventHandler).handlerMap
  uncalled : s.des.tp.destructor = .uncalled
  queued : ∀ queued ∈ s.des.tp.waitingQueue, Dispatched queued
  threads : ∀ i t, s.des.tp.threads[i]? = some t → Stands (s.handling i) t

section Inv
variable {s : Server}

/-- `main` registered a handler for each type that `pack` makes events of. -/
theorem Inv.handler (inv : Inv s) (request : Request) : ∃ handler,
    s.des.handlerMap request.type = some handler ∧ handler.handle request = some (.start request) := by
  rw [inv.handlers]
  cases request with
  | phoneReq message => exact ⟨.phoneReqEventHandler, rfl, rfl⟩
  | loginReq message => exact ⟨.loginReqEventHandler, rfl, rfl⟩

theorem filterMap_length {queue : List (QueuedTask EventHandleTask)}
    (dispatched : ∀ queued ∈ queue, Dispatched queued) :
    (queue.filterMap QueuedTask.event).length = queue.length := by
  induction queue with
  | nil => rfl
  | cons first rest ih =>
    obtain ⟨now, later⟩ := List.forall_mem_cons.mp dispatched
    obtain ⟨task, rfl, _⟩ := now
    exact congrArg (· + 1) (ih later)

theorem Inv.size (inv : Inv s) : s.world.waiting.length = s.des.tp.waitingQueue.length :=
  filterMap_length inv.queued

theorem Inv.accepts (inv : Inv s) :
    s.des.accepts = push s.world.waiting.length := by
  funext event
  obtain ⟨handler, found, _⟩ := inv.handler event.message
  rw [Bool.eq_iff_iff, push_iff, inv.size, DispatchEventsService.accepts, found, decide_eq_true_iff]

end Inv

/-- The steps of the abstract server that a step stands for. -/
def answer (s : Server) : Action → List World.Action
  | .accept addr eventType => [.accept addr eventType]
  | .arrive addr bytes => [.arrive addr bytes]
  | .reqCallback addr _ => [.reqCallback addr]
  | .errCallback addr events => [.errCallback addr events]
  | .lock i => if s.des.tp.waitingQueue = [] then [] else [.take i]
  | .work i rand garbage outcome => [.work i rand garbage outcome]
  | .process i => [.finish i]
  | .handleResults => [.handleResults]
  | .wakeUp _ | .execute _ | .markIdle _ => []

section Steps
variable {pb : Protobuf} {db : Database} {s t : Server} {i : Nat}

theorem thread_some {d e : DispatchEventsService} {a : ThreadPool.Action EventHandleTask ResEvent}
    (moved : d.thread a = some e) :
    ∃ tp, ThreadPool.Stepped kDefaultMaxQueueSize d.tp a tp ∧ e = { d with tp := tp } := by
  obtain ⟨tp, stepped, rfl⟩ := Option.map_eq_some_iff.mp moved
  exact ⟨tp, ThreadPool.stepped_of_step stepped, rfl⟩

/-- One thread moves on, the others stand where they stood. -/
theorem stands_set {threads : List (Cycle EventHandleTask ResEvent)} {handling : Nat → Position}
    (stands : ∀ j u, threads[j]? = some u → Stands (handling j) u)
    (new : Cycle EventHandleTask ResEvent) (position : Position) (stand : Stands position new) (j : Nat)
    (u : Cycle EventHandleTask ResEvent) (get : (threads.set i new)[j]? = some u) :
    Stands (Function.update handling i position j) u := by
  rcases Slots.getElem?_set_cases get with ⟨rfl, rfl⟩ | ⟨other, before⟩
  · rw [Function.update_self]
    exact stand
  · rw [Function.update_of_ne other]
    exact stands j u before

theorem stands_set_same {threads : List (Cycle EventHandleTask ResEvent)} {handling : Nat → Position}
    (stands : ∀ j u, threads[j]? = some u → Stands (handling j) u)
    (new : Cycle EventHandleTask ResEvent) (stand : Stands (handling i) new) (j : Nat)
    (u : Cycle EventHandleTask ResEvent) (get : (threads.set i new)[j]? = some u) :
    Stands (handling j) u := by
  have kept := stands_set stands new (handling i) stand j u get
  rwa [Function.update_eq_self] at kept

theorem stands_position {threads : List (Cycle EventHandleTask ResEvent)} {handling : Nat → Position}
    {old : Cycle EventHandleTask ResEvent}
    (stands : ∀ j u, threads[j]? = some u → Stands (handling j) u) (get : threads[i]? = some old)
    (position : Position) (stand : Stands position old) (j : Nat)
    (u : Cycle EventHandleTask ResEvent) (found : threads[j]? = some u) :
    Stands (Function.update handling i position j) u := by
  rw [← Slots.set_same get] at found
  exact stands_set stands old position stand j u found

theorem stands_notifyOne {threads after : List (Cycle EventHandleTask ResEvent)}
    {handling : Nat → Position} {woken : Option Nat}
    (woke : ThreadPool.notifyOne threads woken = some after)
    (stands : ∀ j u, threads[j]? = some u → Stands (handling j) u) :
    ∀ j u, after[j]? = some u → Stands (handling j) u := by
  rcases ThreadPool.notifyOne_cases woke with rfl | ⟨i, get, rfl⟩
  · exact stands
  · exact stands_set_same stands .notified trivial

theorem answers_lock (inv : Inv s) (enabled : step pb db s (.lock i) = some t) :
    run (World.step pb db) s.world (s.answer (.lock i)) = some t.world ∧ Inv t := by
  simp only [step] at enabled
  split at enabled
  · rename_i empty
    obtain ⟨des, moved, rfl⟩ := Option.map_eq_some_iff.mp enabled
    obtain ⟨tp, stepped, rfl⟩ := thread_some moved
    cases stepped with
    | take _ before queued rest get awake first => exact absurd (empty.symm.trans first) nofun
    | sleep _ before get awake =>
      have same : (Cycle.asleep : Cycle EventHandleTask ResEvent).job = before.job := by
        rcases awake with rfl | rfl <;> rfl
      rw [answer, if_pos empty]
      refine ⟨?_, inv.handlers, inv.uncalled, inv.queued, stands_set_same inv.threads .asleep trivial⟩
      simp only [run_nil, world, workers_set_same .asleep get same]
  · rename_i queued rest first
    obtain ⟨position, entered, enabled⟩ := Option.bind_eq_some_iff.mp enabled
    obtain ⟨des, moved, rfl⟩ := Option.map_eq_some_iff.mp enabled
    obtain ⟨tp, stepped, rfl⟩ := thread_some moved
    cases stepped with
    | sleep _ before get awake empty => exact absurd (empty.symm.trans first) nofun
    | take _ before other rest' get awake again =>
      obtain ⟨rfl, rfl⟩ := List.cons.inj (first.symm.trans again)
      have dispatched := inv.queued
      rw [first] at dispatched
      obtain ⟨⟨task, rfl, handles⟩, later⟩ := List.forall_mem_cons.mp dispatched
      have started : position = .start task.event.message := by
        simp only [Server.entered, first, handles, Option.some.injEq] at entered
        exact entered.symm
      subst started
      have idle : (workers s.des.tp.threads s.handling)[i]? = some none := by
        rw [workers_get get]
        rcases awake with rfl | rfl <;> rfl
      have nonempty : s.des.tp.waitingQueue ≠ [] := by
        rw [first]
        exact List.cons_ne_nil _ _
      rw [answer, if_neg nonempty, run_singleton]
      refine ⟨?_, inv.handlers, inv.uncalled, later,
        stands_set inv.threads _ _ ⟨task, rfl⟩⟩
      have head : s.des.tp.waitingQueue.filterMap QueuedTask.event =
          task.event :: rest.filterMap QueuedTask.event := by
        rw [first]
        rfl
      simp only [World.step, world, head, idle, workers_set]
      rfl

theorem answers_work {rand : Nat} {garbage : Stored} {outcome : Outcome} (inv : Inv s)
    (enabled : step pb db s (.work i rand garbage outcome) = some t) :
    run (World.step pb db) s.world (s.answer (.work i rand garbage outcome)) = some t.world ∧
      Inv t := by
  simp only [step] at enabled
  split at enabled
  · contradiction
  · rename_i _ position task get unreturned
    obtain rfl := Option.some.inj enabled
    have busy : (workers s.des.tp.threads s.handling)[i]? =
        some (some ⟨task.event, s.handling i⟩) := workers_get get
    rw [answer, run_singleton]
    refine ⟨?_, inv.handlers, inv.uncalled, inv.queued, ?_⟩
    · simp only [World.step, world, busy, workers_set_position get]
      rfl
    · exact stands_position inv.threads get _ ⟨task, rfl⟩
  · contradiction

theorem answers_process (inv : Inv s) (enabled : step pb db s (.process i) = some t) :
    run (World.step pb db) s.world (s.answer (.process i)) = some t.world ∧ Inv t := by
  simp only [step] at enabled
  split at enabled
  · rename_i task result get
    obtain ⟨des, moved, rfl⟩ := Option.map_eq_some_iff.mp enabled
    obtain ⟨tp, stepped, rfl⟩ := thread_some moved
    cases stepped with
    | exit _ exiting => exact absurd (get.symm.trans exiting) nofun
    | process _ other result' again =>
      obtain ⟨rfl, rfl⟩ := Cycle.executed.inj (Option.some.inj (get.symm.trans again))
      obtain ⟨response, returned, same⟩ := inv.threads i _ get
      obtain rfl := Option.some.inj same
      have busy : (workers s.des.tp.threads s.handling)[i]? =
          some (some ⟨task.event, .returned response⟩) := by
        rw [workers_get get, returned]
        rfl
      rw [answer, run_singleton]
      refine ⟨?_, inv.handlers, inv.uncalled, inv.queued,
        stands_set_same inv.threads .processed trivial⟩
      simp only [World.step, world, busy, workers_set_thread]
      rfl
  · contradiction

/-- Only what `Push` accepted is in the queue after the callback. -/
theorem reqCallback_pushed {push : ReqEvent → Bool} {o : Object} {event : ReqEvent}
    (pushed : (NetGate.reqCallback pb push o).pushed = some event) : push event = true := by
  unfold NetGate.reqCallback at pushed
  split at pushed
  · contradiction
  · contradiction
  · split at pushed
    · obtain rfl := Option.some.inj pushed
      assumption
    · contradiction

theorem push_accepted {d e : DispatchEventsService} {event : ReqEvent} {woken : Option Nat}
    {accepted : Bool} {handler : EventHandler} (found : d.handlerMap event.message.type = some handler)
    (room : d.tp.waitingQueue.length < kDefaultMaxQueueSize)
    (pushed : d.push event woken = some (accepted, e)) :
    ∃ threads, ThreadPool.notifyOne d.tp.threads woken = some threads ∧ e = { d with tp := { d.tp with
      waitingQueue := d.tp.waitingQueue ++ [.task ⟨event, handler⟩], threads := threads } } := by
  simp only [DispatchEventsService.push, found] at pushed
  obtain ⟨⟨_, tp⟩, dropped, same⟩ := Option.map_eq_some_iff.mp pushed
  obtain ⟨rfl, rfl⟩ := Prod.mk.inj same
  rw [ThreadPool.drop, if_neg (Nat.not_le_of_lt room)] at dropped
  obtain ⟨threads, woke, same⟩ := Option.map_eq_some_iff.mp dropped
  obtain ⟨_, rfl⟩ := Prod.mk.inj same
  exact ⟨threads, woke, rfl⟩

theorem answers_reqCallback {addr : Nat} {woken : Option Nat} (inv : Inv s)
    (enabled : step pb db s (.reqCallback addr woken) = some t) :
    run (World.step pb db) s.world (s.answer (.reqCallback addr woken)) = some t.world ∧ Inv t := by
  simp only [step] at enabled
  split at enabled
  · rename_i o lived
    obtain ⟨unread, enabled⟩ := Option.ite_none_right_eq_some.mp enabled
    rw [inv.accepts] at enabled
    have stepped : World.step pb db s.world (.reqCallback addr) =
        some (s.world.callback addr (NetGate.reqCallback pb (push s.world.waiting.length) o)) := by
      have found : s.world.heap addr = some o := lived
      simp only [World.step, found]
      exact if_pos unread
    rw [answer, run_singleton, stepped]
    split at enabled
    · rename_i unpushed
      obtain rfl := Option.some.inj enabled
      refine ⟨congrArg some ?_, inv.handlers, inv.uncalled, inv.queued, inv.threads⟩
      rw [World.callback, unpushed, Option.toList_none, List.append_nil]
      rfl
    · rename_i event pushed
      obtain ⟨⟨accepted, des⟩, dropped, rfl⟩ := Option.map_eq_some_iff.mp enabled
      obtain ⟨handler, found, handles⟩ := inv.handler event.message
      have room := push_iff.mp (reqCallback_pushed pushed)
      obtain ⟨threads, woke, rfl⟩ := push_accepted found (inv.size ▸ room) dropped
      refine ⟨congrArg some ?_, inv.handlers, inv.uncalled, ?_, stands_notifyOne woke inv.threads⟩
      · rw [World.callback, pushed]
        simp only [world, workers_notifyOne woke, List.filterMap_append]
        rfl
      · intro queued member
        rcases List.mem_append.mp member with old | new
        · exact inv.queued queued old
        · obtain rfl := List.mem_singleton.mp new
          exact ⟨⟨event, handler⟩, rfl, handles⟩
  · contradiction

theorem answers (inv : Inv s) {a : Action} (enabled : step pb db s a = some t) :
    run (World.step pb db) s.world (s.answer a) = some t.world ∧ Inv t := by
  cases a with
  | accept addr eventType =>
    simp only [step] at enabled
    split at enabled
    · contradiction
    · rename_i free
      obtain rfl := Option.some.inj enabled
      have found : s.world.heap addr = none := free
      rw [answer, run_singleton]
      refine ⟨?_, inv.handlers, inv.uncalled, inv.queued, inv.threads⟩
      simp only [World.step, found]
      rfl
  | arrive addr bytes =>
    simp only [step] at enabled
    split at enabled
    · rename_i o lived
      obtain ⟨some, enabled⟩ := Option.ite_none_left_eq_some.mp enabled
      obtain rfl := Option.some.inj enabled
      have found : s.world.heap addr = .some o := lived
      rw [answer, run_singleton]
      refine ⟨?_, inv.handlers, inv.uncalled, inv.queued, inv.threads⟩
      simp only [World.step, found, if_neg some]
      rfl
    · contradiction
  | reqCallback addr woken => exact answers_reqCallback inv enabled
  | errCallback addr events =>
    simp only [step] at enabled
    split at enabled
    · rename_i o lived
      obtain rfl := Option.some.inj enabled
      have found : s.world.heap addr = some o := lived
      rw [answer, run_singleton]
      refine ⟨?_, inv.handlers, inv.uncalled, inv.queued, inv.threads⟩
      simp only [World.step, found, World.callback, (World.errCallback_none events).2,
        Option.toList_none, List.append_nil]
      rfl
    · contradiction
  | lock i => exact answers_lock inv enabled
  | wakeUp i =>
    obtain ⟨des, moved, rfl⟩ := Option.map_eq_some_iff.mp enabled
    obtain ⟨tp, stepped, rfl⟩ := thread_some moved
    cases stepped with
    | wakeUp _ get =>
      refine ⟨?_, inv.handlers, inv.uncalled, inv.queued,
        stands_set_same inv.threads .notified trivial⟩
      simp only [answer, run_nil, world, workers_set_same .notified get rfl]
  | work i rand garbage outcome => exact answers_work inv enabled
  | execute i =>
    simp only [step] at enabled
    split at enabled
    · rename_i _ _ task response get returned
      obtain ⟨des, moved, rfl⟩ := Option.map_eq_some_iff.mp enabled
      obtain ⟨tp, stepped, rfl⟩ := thread_some moved
      cases stepped with
      | execute _ queued _ again =>
        obtain rfl := Cycle.executing.inj (Option.some.inj (get.symm.trans again))
        refine ⟨?_, inv.handlers, inv.uncalled, inv.queued,
          stands_set_same inv.threads (.executed task _) ⟨response, returned, rfl⟩⟩
        simp only [answer, run_nil, world, ThreadPool.execute, workers_set_same (.executed task _) get rfl]
    · contradiction
  | process i => exact answers_process inv enabled
  | markIdle i =>
    obtain ⟨des, moved, rfl⟩ := Option.map_eq_some_iff.mp enabled
    obtain ⟨tp, stepped, rfl⟩ := thread_some moved
    cases stepped with
    | markIdle _ get =>
      refine ⟨?_, inv.handlers, inv.uncalled, inv.queued,
        stands_set_same inv.threads .entering trivial⟩
      simp only [answer, run_nil, world, workers_set_same .entering get rfl]
  | handleResults =>
    simp only [step] at enabled
    obtain ⟨some, enabled⟩ := Option.ite_none_left_eq_some.mp enabled
    obtain rfl := Option.some.inj enabled
    exact ⟨rfl, inv.handlers, inv.uncalled, inv.queued, inv.threads⟩

end Steps
end Server

/-- What the outside sees: what the network does, and the results written to it. -/
inductive Observed where
  | accepted (addr : Nat)
  | received (addr : Nat) (bytes : Bytes)
  | readable (addr : Nat)
  | failed (addr : Nat) (events : UInt16)
  | written (results : List ResEvent)

def World.observed (w : World) : World.Action → List Observed
  | .accept addr _ => [.accepted addr]
  | .arrive addr bytes => [.received addr bytes]
  | .reqCallback addr => [.readable addr]
  | .errCallback addr events => [.failed addr events]
  | .handleResults => [.written w.results]
  | .take _ | .work _ _ _ _ | .finish _ => []

namespace Server
variable {pb : Protobuf} {db : Database}

def observed (s : Server) : Action → List Observed
  | .accept addr _ => [.accepted addr]
  | .arrive addr bytes => [.received addr bytes]
  | .reqCallback addr _ => [.readable addr]
  | .errCallback addr events => [.failed addr events]
  | .handleResults => [.written s.des.drag.1]
  | .lock _ | .wakeUp _ | .work _ _ _ _ | .execute _ | .process _ | .markIdle _ => []

/-- A guard on the steps of the abstract server, on the steps that stand for them. -/
def Answered (G : World → World.Action → Prop) (s : Server) (a : Action) : Prop :=
  ∀ b ∈ s.answer a, G s.world b

theorem observed_answer (s : Server) (a : Action) (t : World)
    (ran : run (World.step pb db) s.world (s.answer a) = some t) :
    trace (World.step pb db) World.observed s.world (s.answer a) = s.observed a := by
  cases a with
  | lock i =>
    simp only [answer]
    split
    · rfl
    · exact trace_singleton
  | wakeUp | execute | markIdle => rfl
  | _ => exact trace_singleton

theorem along_answer {G : World → World.Action → Prop} {s : Server} {a : Action}
    (answered : Answered G s a) : Along (World.step pb db) G s.world (s.answer a) := by
  cases a with
  | lock i =>
    simp only [Answered, answer] at answered ⊢
    split
    · exact along_nil
    · rename_i waits
      rw [if_neg waits] at answered
      exact along_singleton (answered _ List.mem_cons_self)
  | wakeUp | execute | markIdle => exact along_nil
  | _ => exact along_singleton (answered _ List.mem_cons_self)

instance (s : Server) (a : Action) : Decidable (Answered World.Spares s a) :=
  inferInstanceAs (Decidable (∀ b ∈ s.answer a, s.world.Spares b))

/-- Only the callbacks of a session can delete it. -/
theorem answered_spares {a : Action} (reads : ∀ addr woken, a ≠ .reqCallback addr woken)
    (ends : ∀ addr events, a ≠ .errCallback addr events) {s : Server} :
    Answered World.Spares s a := by
  intro b member
  cases a with
  | reqCallback addr woken => exact absurd rfl (reads addr woken)
  | errCallback addr events => exact absurd rfl (ends addr events)
  | lock i =>
    simp only [answer] at member
    split at member
    · contradiction
    · obtain rfl := List.mem_singleton.mp member
      trivial
  | wakeUp | execute | markIdle => contradiction
  | accept | arrive | work | process | handleResults =>
    obtain rfl := List.mem_singleton.mp member
    trivial

theorem simulates_world (G : World → World.Action → Prop) :
    Simulates (guarded (step pb db) (Answered G)) observed (guarded (World.step pb db) G)
      World.observed fun s w => w = s.world ∧ s.Inv := by
  rintro s w a t ⟨rfl, inv⟩ stepped
  obtain ⟨answered, enabled⟩ := guarded_eq_some.mp stepped
  obtain ⟨ran, kept⟩ := answers inv enabled
  have along : run (guarded (World.step pb db) G) s.world (s.answer a) = some t.world :=
    run_guarded.mpr ⟨ran, along_answer answered⟩
  exact ⟨s.answer a, t.world, along, (trace_guarded along).trans (observed_answer s a _ ran), rfl, kept⟩

theorem world_init (hardwareConcurrency : Nat) (handling : Nat → Position) (table : List Bytes) :
    (init hardwareConcurrency handling table).world = World.init hardwareConcurrency table ∧
      (init hardwareConcurrency handling table).Inv := by
  constructor
  · have idle : workers (List.replicate hardwareConcurrency .entering) handling =
        List.replicate hardwareConcurrency none := by
      apply List.ext_getElem?
      intro i
      rw [workers, List.getElem?_mapIdx, List.getElem?_replicate, List.getElem?_replicate]
      split <;> rfl
    have same := congrArg (World.mk (fun _ => none) 0 [] · [] table) idle
    exact same
  · refine ⟨rfl, rfl, fun queued member => absurd member List.not_mem_nil, fun i t get => ?_⟩
    obtain ⟨_, rfl⟩ := List.mem_replicate.mp (List.mem_of_getElem? get)
    trivial

/-- A run whose steps meet a guard where they are answered is answered by a guarded run. -/
theorem answered_run (G : World → World.Action → Prop) (hardwareConcurrency : Nat)
    (handling : Nat → Position) (table : List Bytes) {actions : List Action} {s : Server}
    (ran : run (step pb db) (init hardwareConcurrency handling table) actions = some s)
    (guards : Along (step pb db) (Answered G) (init hardwareConcurrency handling table) actions) :
    ∃ answers, run (World.step pb db) (World.init hardwareConcurrency table) answers = some s.world ∧
      Along (World.step pb db) G (World.init hardwareConcurrency table) answers ∧
      trace (World.step pb db) World.observed (World.init hardwareConcurrency table) answers =
        trace (step pb db) observed (init hardwareConcurrency handling table) actions ∧ s.Inv := by
  obtain ⟨start, inv⟩ := world_init hardwareConcurrency handling table
  obtain ⟨answers, w, answered, shown, rfl, kept⟩ :=
    (simulates_world G).run ⟨start.symm, inv⟩ (run_guarded.mpr ⟨ran, guards⟩)
  obtain ⟨reached, along⟩ := run_guarded.mp answered
  refine ⟨answers, reached, along, ?_, kept⟩
  rw [← trace_guarded answered, shown, trace_guarded (run_guarded.mpr ⟨ran, guards⟩)]

/-- What a run that deletes no session while its request is handled leads to. -/
theorem safe_run {hardwareConcurrency : Nat} {handling : Nat → Position} {table : List Bytes}
    {actions : List Action} {s : Server}
    (ran : run (step pb db) (init hardwareConcurrency handling table) actions = some s)
    (spares : Along (step pb db) (Answered World.Spares) (init hardwareConcurrency handling table)
      actions) :
    World.Projects pb s.world ∧ World.NoDangling s.world ∧ s.Inv := by
  obtain ⟨answers, reached, along, _, kept⟩ :=
    answered_run World.Spares hardwareConcurrency handling table ran spares
  obtain ⟨projects, safe⟩ := (World.safe_run along).final reached
  exact ⟨projects, safe, kept⟩

/-- Every run of the server with its thread pool is, seen from the network and in the
sessions and the table it leads to, a run of the abstract server. -/
theorem refines_world (hardwareConcurrency : Nat) (handling : Nat → Position) (table : List Bytes)
    {actions : List Action} {s : Server}
    (ran : run (step pb db) (init hardwareConcurrency handling table) actions = some s) :
    ∃ answers, run (World.step pb db) (World.init hardwareConcurrency table) answers = some s.world ∧
      trace (World.step pb db) World.observed (World.init hardwareConcurrency table) answers =
        trace (step pb db) observed (init hardwareConcurrency handling table) actions := by
  have anything : Along (step pb db) (Answered fun _ _ => True)
      (init hardwareConcurrency handling table) actions :=
    along_of_forall (fun _ _ _ _ _ => trivial) _
  obtain ⟨answers, reached, _, shown, _⟩ :=
    answered_run (fun _ _ => True) hardwareConcurrency handling table ran anything
  exact ⟨answers, reached, shown⟩

/-- A client connects and asks for an identifier. -/
def phoneRun : List Action :=
  [.accept 4096 .kUnknown, .arrive 4096 (ascii "SHBK" ++ [1, 0, 2, 0, 0, 0, 10, 0]),
    .reqCallback 4096 none]

theorem phoneRun_spares :
    Along (step WireFormat.protobuf ⟨fun _ _ => none⟩) (Answered World.Spares)
      (init 1 (fun _ => .returned (evLoginRes .kSuccess)) []) phoneRun :=
  along_of_decide (by decide +kernel)

theorem refines_world_phone : ∃ s answers,
    run (step WireFormat.protobuf ⟨fun _ _ => none⟩)
        (init 1 (fun _ => .returned (evLoginRes .kSuccess)) []) phoneRun = some s ∧
      run (World.step WireFormat.protobuf ⟨fun _ _ => none⟩) (World.init 1 []) answers =
        some s.world := by
  obtain ⟨s, ran⟩ : ∃ s, run (step WireFormat.protobuf ⟨fun _ _ => none⟩)
      (init 1 (fun _ => .returned (evLoginRes .kSuccess)) []) phoneRun = some s := ⟨_, rfl⟩
  obtain ⟨answers, answered, _⟩ := refines_world 1 _ [] ran
  exact ⟨s, answers, ran, answered⟩

end Server
end Shbk2
