import Shbk2.MsgProxy
import Shbk2.EventHandlers

/-! The callbacks of the event loop and the dispatch of events, on one session.
Every object carries its history beside the session: what was pushed, handled
and drawn for it. The program has no such record; the specifications read it. -/
namespace Shbk2

/-- The handlers registered by `main`. -/
def handlerMap : List EventType := [.kPhoneReq, .kLoginReq]

def kDefaultMaxQueueSize : Nat := 65535

/-- `DispatchEventsService::Push` and `ThreadPool::Drop`, given the size of the
waiting queue. -/
def push (waitingQueueSize : Nat) (event : ReqEvent) : Bool :=
  if event.message.type ∉ handlerMap then false
  else if waitingQueueSize ≥ kDefaultMaxQueueSize then false
  else true

structure Exchange where
  request : Request
  response : Response
  deriving DecidableEq

/-- `pushed`: the events `Push` accepted; `handled`: what each finished `Handle`
returned; `drawn`: what `generate_identifier` returned, all in order. -/
structure History where
  pushed : List ReqEvent
  handled : List Exchange
  drawn : List Int32
  deriving DecidableEq

/-- A session that has not been deleted. -/
structure Object where
  self : SessionPtr
  session : Session
  history : History
  deriving DecidableEq

namespace NetGate

/-- `ListenerCallback`: a new session. -/
def listenerCallback (self : SessionPtr) (eventType : EventType) : Object where
  self := self
  session := .new eventType
  history := ⟨[], [], []⟩

/-- What the body of a callback does to the session, `Pack` apart. -/
inductive Access where
  | socket
  | setState
  | delete
  deriving DecidableEq

structure Callback where
  accesses : List Access
  object : Option Object
  pushed : Option ReqEvent
  deriving DecidableEq

/-- `ReqCallback`. The catch block and the branch of a failed push do not return. -/
def reqCallback (pb : Protobuf) (push : ReqEvent → Bool) (o : Object) : Callback :=
  match MsgProxy.pack pb o.self o.session.noticed with
  | .error _ => ⟨[.socket, .delete, .socket], none, none⟩
  | .ok (none, session) => ⟨[.socket], some { o with session := session }, none⟩
  | .ok (some event, session) =>
    if push event then
      ⟨[.setState, .socket],
        some { o with
          session := session.setState .handling
          history := { o.history with pushed := o.history.pushed ++ [event] } },
        some event⟩
    else ⟨[.socket, .delete, .setState, .socket], none, none⟩

def bevEventReading : UInt16 := 0x01
def bevEventWriting : UInt16 := 0x02
def bevEventEof : UInt16 := 0x10
def bevEventError : UInt16 := 0x20
def bevEventTimeout : UInt16 := 0x40

/-- `ErrCallback`: the flags only choose a log line, the session goes in any case. -/
def errCallback (events : UInt16) : Callback :=
  if events &&& bevEventEof ≠ 0 then ⟨[.socket, .delete], none, none⟩
  else if events &&& bevEventError ≠ 0 then ⟨[.socket, .delete], none, none⟩
  else if events &&& bevEventTimeout ≠ 0 ∧ events &&& bevEventReading ≠ 0 then
    ⟨[.socket, .delete], none, none⟩
  else if events &&& bevEventTimeout ≠ 0 ∧ events &&& bevEventWriting ≠ 0 then
    ⟨[.socket, .delete], none, none⟩
  else ⟨[.delete], none, none⟩

/-- The body of the loop in `handle_results`: the package of the event is written
and the session waits for its next request. -/
def handleResult (event : ResEvent) (o : Object) : Object :=
  { o with session := { o.session.setState .waitingRequest with
      bufev := { o.session.bufev with output := o.session.bufev.output ++ [event] } } }

end NetGate

namespace Object

/-- A handler's access to the session. -/
def work (rand : Nat) (execution : UserDAO.Execution) (position : Position) (o : Object) : Object :=
  { o with
    session := { o.session with stored := (position.step o.session.stored rand execution).1 }
    history := { o.history with drawn := o.history.drawn ++ position.draws rand } }

/-- `Handle` has returned. -/
def finish (request : Request) (response : Response) (o : Object) : Object :=
  { o with history := { o.history with handled := o.history.handled ++ [⟨request, response⟩] } }

end Object
end Shbk2
