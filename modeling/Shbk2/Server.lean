import Shbk2.ThreadPool
import Shbk2.World

/-! The server with the thread pool as it is: `DispatchEventsService` with its registry
over the pool, the sessions by address, and where each thread stands in `Handle`. The
rounds of `handle_results` that find no result are left out: they change nothing. -/
namespace Shbk2
open Transition

/-- The two classes of handlers. -/
inductive EventHandler where
  | phoneReqEventHandler
  | loginReqEventHandler
  deriving DecidableEq

/-- `Handle` is entered: the event is cast to the class the handler expects, which is
defined for an event of that class only. -/
def EventHandler.handle : EventHandler → Request → Option Position
  | phoneReqEventHandler, .phoneReq message => some (.phoneReq message)
  | loginReqEventHandler, .loginReq message => some (.loginReq message)
  | _, _ => none

structure EventHandleTask where
  event : ReqEvent
  handler : EventHandler
  deriving DecidableEq

structure DispatchEventsService where
  tp : ThreadPool EventHandleTask ResEvent
  handlerMap : EventType → Option EventHandler

namespace DispatchEventsService

/-- The default constructor of the pool takes the number of threads from the machine. -/
def new (hardwareConcurrency : Nat) : DispatchEventsService :=
  ⟨.init hardwareConcurrency, fun _ => none⟩

def registerHandler (d : DispatchEventsService) (type : EventType) (handler : EventHandler) :
    DispatchEventsService :=
  { d with handlerMap := Function.update d.handlerMap type (some handler) }

def push (d : DispatchEventsService) (event : ReqEvent) (woken : Option Nat) :
    Option (Bool × DispatchEventsService) :=
  match d.handlerMap event.message.type with
  | none => some (false, d)
  | some handler => (d.tp.drop kDefaultMaxQueueSize (.task ⟨event, handler⟩) woken).map
      fun (accepted, tp) => (accepted, { d with tp := tp })

/-- What `push` returns. -/
def accepts (d : DispatchEventsService) (event : ReqEvent) : Bool :=
  match d.handlerMap event.message.type with
  | none => false
  | some _ => d.tp.waitingQueue.length < kDefaultMaxQueueSize

def drag (d : DispatchEventsService) : List ResEvent × DispatchEventsService :=
  (d.tp.grabAllResults.1, { d with tp := d.tp.grabAllResults.2 })

/-- A step of a thread of the pool. -/
def thread (d : DispatchEventsService) (a : ThreadPool.Action EventHandleTask ResEvent) :
    Option DispatchEventsService :=
  (d.tp.step kDefaultMaxQueueSize a).map fun tp => { d with tp := tp }

end DispatchEventsService

/-- `handling`: where the thread of a number stands in `Handle`, while it is there. -/
structure Server where
  heap : Nat → Option Object
  allocations : Nat
  des : DispatchEventsService
  handling : Nat → Position
  table : List Bytes

namespace Server

/-- As in `World`, with the steps of the threads told apart. -/
inductive Action where
  | accept (addr : Nat) (eventType : EventType)
  | arrive (addr : Nat) (bytes : Bytes)
  | reqCallback (addr : Nat) (woken : Option Nat)
  | errCallback (addr : Nat) (events : UInt16)
  | lock (i : Nat)
  | wakeUp (i : Nat)
  | work (i rand : Nat) (garbage : Stored) (outcome : Outcome)
  | execute (i : Nat)
  | process (i : Nat)
  | markIdle (i : Nat)
  | handleResults

/-- `main` up to its loop. Where the threads stand before they handle anything is any
position. -/
def init (hardwareConcurrency : Nat) (handling : Nat → Position) (table : List Bytes) : Server where
  heap _ := none
  allocations := 0
  des := ((DispatchEventsService.new hardwareConcurrency).registerHandler .kPhoneReq
    .phoneReqEventHandler).registerHandler .kLoginReq .loginReqEventHandler
  handling := handling
  table := table

/-- The task at the front of the queue, if it is taken next, and the start of its handler. -/
def entered (s : Server) : Option Position :=
  match s.des.tp.waitingQueue with
  | .task task :: _ => task.handler.handle task.event.message
  | _ => none

def step (pb : Protobuf) (db : Database) (s : Server) : Action → Option Server
  | .accept addr eventType =>
    match s.heap addr with
    | some _ => none
    | none => some { s with
        heap := Function.update s.heap addr
          (some (NetGate.listenerCallback ⟨addr, s.allocations⟩ eventType))
        allocations := s.allocations + 1 }
  | .arrive addr bytes =>
    match s.heap addr with
    | some _ =>
      if bytes = [] then none
      else some { s with
        heap := World.modify s.heap addr fun o => { o with session := o.session.arrive bytes } }
    | none => none
  | .reqCallback addr woken =>
    match s.heap addr with
    | some o =>
      if o.session.bufev.unread then
        let callback := NetGate.reqCallback pb s.des.accepts o
        match callback.pushed with
        | none => some { s with heap := Function.update s.heap addr callback.object }
        | some event => (s.des.push event woken).map fun (_, des) =>
            { s with heap := Function.update s.heap addr callback.object, des := des }
      else none
    | none => none
  | .errCallback addr events =>
    match s.heap addr with
    | some _ =>
      some { s with heap := Function.update s.heap addr (NetGate.errCallback events).object }
    | none => none
  | .lock i =>
    match s.des.tp.waitingQueue with
    | [] => (s.des.thread (.lock i)).map fun des => { s with des := des }
    | _ :: _ => s.entered.bind fun position => (s.des.thread (.lock i)).map fun des =>
        { s with des := des, handling := Function.update s.handling i position }
  | .wakeUp i => (s.des.thread (.wakeUp i)).map fun des => { s with des := des }
  | .work i rand garbage outcome =>
    match s.des.tp.threads[i]?, s.handling i with
    | some (.executing (.task _)), .returned _ => none
    | some (.executing (.task task)), position =>
      let call := db.call s.table position.statement outcome
      let session := ((s.heap task.event.session.addr).map (·.session.stored)).getD garbage
      some { s with
        heap := World.modify s.heap task.event.session.addr (Object.work rand call.2 position)
        handling := Function.update s.handling i (position.step session rand call.2).2
        table := call.1 }
    | _, _ => none
  | .execute i =>
    match s.des.tp.threads[i]?, s.handling i with
    | some (.executing (.task task)), .returned response =>
      (s.des.thread (.execute i (some ⟨task.event.session, response⟩))).map
        fun des => { s with des := des }
    | _, _ => none
  | .process i =>
    match s.des.tp.threads[i]? with
    | some (.executed task (some result)) => (s.des.thread (.process i)).map fun des => { s with
        heap := World.modify s.heap task.event.session.addr
          (Object.finish task.event.message result.message)
        des := des }
    | _ => none
  | .markIdle i => (s.des.thread (.markIdle i)).map fun des => { s with des := des }
  | .handleResults =>
    if s.des.drag.1 = [] then none
    else some { s with
      heap := s.des.drag.1.foldl World.writeResult s.heap
      des := s.des.drag.2 }

end Server
end Shbk2
