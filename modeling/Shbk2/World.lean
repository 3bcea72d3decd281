import Mathlib.Logic.Function.Basic
import Shbk2.Lib.Slots
import Shbk2.Connection

/-! The whole server: the sessions by address, the thread pool with its queue,
its workers and its results, and the user table. Every step runs the functions of
one callback, one access of a worker, or one round of `handle_results`. Events
carry raw pointers: a step through a pointer meets whatever object lives at that
address now. Where none lives the program's behaviour is undefined; such a step
changes no session here, and what holds of the sessions is stated for the runs in
which no pointer dangles. -/
namespace Shbk2

/-- The database server: the table and the affected rows after a statement, none
when it reports an error. The table is the column of the phone numbers. -/
structure Database where
  execute : List Bytes → Bytes → Option (List Bytes × UInt64)

/-- How a call goes: no connection in time; an error, which may come after the
statement was applied; or the answer of the server. -/
inductive Outcome where
  | noHandler
  | threw (applied : Bool)
  | executed
  deriving DecidableEq

/-- A call of `IsExist` or `Insert`, for the statement of the access if there is one. -/
def Database.call (db : Database) (table : List Bytes) :
    Option Bytes → Outcome → List Bytes × UserDAO.Execution
  | none, _ | some _, .noHandler => (table, .noHandler)
  | some sql, .threw applied =>
    match db.execute table sql with
    | some (after, _) => (if applied then after else table, .threw)
    | none => (table, .threw)
  | some sql, .executed =>
    match db.execute table sql with
    | some (after, rows) => (after, .affected rows)
    | none => (table, .threw)

structure Task where
  event : ReqEvent
  position : Position
  deriving DecidableEq

structure World where
  heap : Nat → Option Object
  allocations : Nat
  waiting : List ReqEvent
  workers : List (Option Task)
  results : List ResEvent
  table : List Bytes

namespace World

/-- `garbage` is what a worker finds in a session that is no more. -/
inductive Action where
  | accept (addr : Nat) (eventType : EventType)
  | arrive (addr : Nat) (bytes : Bytes)
  | reqCallback (addr : Nat)
  | errCallback (addr : Nat) (events : UInt16)
  | take (worker : Nat)
  | work (worker rand : Nat) (garbage : Stored) (outcome : Outcome)
  | finish (worker : Nat)
  | handleResults

def init (workers : Nat) (table : List Bytes) : World where
  heap _ := none
  allocations := 0
  waiting := []
  workers := List.replicate workers none
  results := []
  table := table

/-- A write to the session at an address. Where there is none the source writes to freed
memory, of which nothing is said: the sessions stay as they are. -/
def modify (heap : Nat → Option Object) (addr : Nat) (f : Object → Object) : Nat → Option Object :=
  Function.update heap addr ((heap addr).map f)

def callback (w : World) (addr : Nat) (callback : NetGate.Callback) : World :=
  { w with
    heap := Function.update w.heap addr callback.object
    waiting := w.waiting ++ callback.pushed.toList }

/-- One iteration of the loop in `handle_results`, for a result whose session lives. -/
def writeResult (heap : Nat → Option Object) (event : ResEvent) : Nat → Option Object :=
  modify heap event.session.addr (NetGate.handleResult event)

/-- The allocator may hand out any address at which no session lives. -/
def step (pb : Protobuf) (db : Database) (w : World) : Action → Option World
  | .accept addr eventType =>
    match w.heap addr with
    | some _ => none
    | none => some { w with
        heap := Function.update w.heap addr
          (some (NetGate.listenerCallback ⟨addr, w.allocations⟩ eventType))
        allocations := w.allocations + 1 }
  | .arrive addr bytes =>
    match w.heap addr with
    | some _ =>
      if bytes = [] then none
      else some { w with
        heap := modify w.heap addr fun o => { o with session := o.session.arrive bytes } }
    | none => none
  | .reqCallback addr =>
    match w.heap addr with
    | some o =>
      if o.session.bufev.unread then
        some (w.callback addr (NetGate.reqCallback pb (push w.waiting.length) o))
      else none
    | none => none
  | .errCallback addr events =>
    match w.heap addr with
    | some _ => some (w.callback addr (NetGate.errCallback events))
    | none => none
  | .take worker =>
    match w.waiting, w.workers[worker]? with
    | event :: rest, some none => some { w with
        waiting := rest
        workers := w.workers.set worker (some ⟨event, .start event.message⟩) }
    | _, _ => none
  | .work worker rand garbage outcome =>
    match w.workers[worker]? with
    | some (some ⟨event, position⟩) =>
      let call := db.call w.table position.statement outcome
      let session := ((w.heap event.session.addr).map (·.session.stored)).getD garbage
      some { w with
        heap := modify w.heap event.session.addr (Object.work rand call.2 position)
        workers := w.workers.set worker (some ⟨event, (position.step session rand call.2).2⟩)
        table := call.1 }
    | _ => none
  | .finish worker =>
    match w.workers[worker]? with
    | some (some ⟨event, .returned response⟩) => some { w with
        heap := modify w.heap event.session.addr (Object.finish event.message response)
        workers := w.workers.set worker none
        results := w.results ++ [⟨event.session, response⟩] }
    | _ => none
  | .handleResults => some { w with
      heap := w.results.foldl writeResult w.heap
      results := [] }

/-- What each enabled action does. -/
inductive Stepped (pb : Protobuf) (db : Database) (w : World) : Action → World → Prop where
  | accept (addr : Nat) (eventType : EventType) : w.heap addr = none →
      Stepped pb db w (.accept addr eventType) { w with
        heap := Function.update w.heap addr
          (some (NetGate.listenerCallback ⟨addr, w.allocations⟩ eventType))
        allocations := w.allocations + 1 }
  | arrive (addr : Nat) (bytes : Bytes) (o : Object) : w.heap addr = some o → bytes ≠ [] →
      Stepped pb db w (.arrive addr bytes) { w with
        heap := modify w.heap addr fun o => { o with session := o.session.arrive bytes } }
  | reqCallback (addr : Nat) (o : Object) : w.heap addr = some o → o.session.bufev.unread →
      Stepped pb db w (.reqCallback addr)
        (w.callback addr (NetGate.reqCallback pb (push w.waiting.length) o))
  | errCallback (addr : Nat) (events : UInt16) (o : Object) : w.heap addr = some o →
      Stepped pb db w (.errCallback addr events) (w.callback addr (NetGate.errCallback events))
  | take (worker : Nat) (event : ReqEvent) (rest : List ReqEvent) : w.waiting = event :: rest →
      w.workers[worker]? = some none →
      Stepped pb db w (.take worker) { w with
        waiting := rest
        workers := w.workers.set worker (some ⟨event, .start event.message⟩) }
  | work (worker rand : Nat) (garbage : Stored) (outcome : Outcome) (event : ReqEvent)
      (position : Position) : w.workers[worker]? = some (some ⟨event, position⟩) →
      Stepped pb db w (.work worker rand garbage outcome) { w with
        heap := modify w.heap event.session.addr
          (Object.work rand (db.call w.table position.statement outcome).2 position)
        workers := w.workers.set worker (some ⟨event, (position.step
          (((w.heap event.session.addr).map (·.session.stored)).getD garbage) rand
          (db.call w.table position.statement outcome).2).2⟩)
        table := (db.call w.table position.statement outcome).1 }
  | finish (worker : Nat) (event : ReqEvent) (response : Response) :
      w.workers[worker]? = some (some ⟨event, .returned response⟩) →
      Stepped pb db w (.finish worker) { w with
        heap := modify w.heap event.session.addr (Object.finish event.message response)
        workers := w.workers.set worker none
        results := w.results ++ [⟨event.session, response⟩] }
  | handleResults : Stepped pb db w .handleResults { w with
      heap := w.results.foldl writeResult w.heap
      results := [] }

theorem stepped_of_step {pb : Protobuf} {db : Database} {w v : World} {a : Action}
    (enabled : step pb db w a = some v) : Stepped pb db w a v := by
  cases a with
  | accept addr eventType =>
    simp only [step] at enabled
    split at enabled
    · contradiction
    · obtain rfl := Option.some.inj enabled
      exact .accept addr eventType ‹_›
  | arrive addr bytes =>
    simp only [step] at enabled
    split at enabled
    · obtain ⟨some, enabled⟩ := Option.ite_none_left_eq_some.mp enabled
      obtain rfl := Option.some.inj enabled
      exact .arrive addr bytes _ ‹_› some
    · contradiction
  | reqCallback addr =>
    simp only [step] at enabled
    split at enabled
    · obtain ⟨unread, enabled⟩ := Option.ite_none_right_eq_some.mp enabled
      obtain rfl := Option.some.inj enabled
      exact .reqCallback addr _ ‹_› unread
    · contradiction
  | errCallback addr events =>
    simp only [step] at enabled
    split at enabled
    · obtain rfl := Option.some.inj enabled
      exact .errCallback addr events _ ‹_›
    · contradiction
  | take worker =>
    simp only [step] at enabled
    split at enabled
    · obtain rfl := Option.some.inj enabled
      exact .take worker _ _ ‹_› ‹_›
    · contradiction
  | work worker rand garbage outcome =>
    simp only [step] at enabled
    split at enabled
    · obtain rfl := Option.some.inj enabled
      exact .work worker rand garbage outcome _ _ ‹_›
    · contradiction
  | finish worker =>
    simp only [step] at enabled
    split at enabled
    · obtain rfl := Option.some.inj enabled
      exact .finish worker _ _ ‹_›
    · contradiction
  | handleResults =>
    obtain rfl := Option.some.inj enabled
    exact .handleResults

def pool (waiting : List ReqEvent) (tasks : List Task) (results : List ResEvent) : List Item :=
  waiting.map .waiting ++ tasks.map (fun task => .running task.event task.position) ++
    results.map .done

/-- Everything in the pool: waiting, in a worker, or done. -/
def items (w : World) : List Item := pool w.waiting (Slots.held w.workers) w.results

/-- The items whose pointer is an address. -/
def itemsAt (w : World) (addr : Nat) : List Item :=
  w.items.filter fun item => item.session.addr = addr

end World
end Shbk2
