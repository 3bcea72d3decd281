import Shbk2.Lib.Transition
import Shbk2.NetGate

/-! The life of one session, from its creation to its deletion: its bytes, its
callbacks, and the items made from its requests on their way through the pool.
What the rest of the system decides (the length of the waiting queue, when a
worker runs, what the database answers) is chosen by the action. -/
namespace Shbk2

/-- A request on its way: in the waiting queue, in a worker, in the results queue. -/
inductive Item where
  | waiting (event : ReqEvent)
  | running (event : ReqEvent) (position : Position)
  | done (event : ResEvent)
  deriving DecidableEq

def Item.session : Item → SessionPtr
  | .waiting event | .running event _ => event.session
  | .done event => event.session

inductive Conn where
  | live (o : Object) (inFlight : List Item)
  | closed
  deriving DecidableEq

namespace Conn

inductive Action where
  | arrive (bytes : Bytes)
  | reqCallback (waitingQueueSize : Nat)
  | errCallback (events : UInt16)
  | take (i : Nat)
  | work (i rand : Nat) (execution : UserDAO.Execution)
  | finish (i : Nat)
  | handleResult (i : Nat)

def init (self : SessionPtr) (eventType : EventType) : Conn :=
  .live (NetGate.listenerCallback self eventType) []

/-- The session after a callback: gone, or with what was pushed in flight. -/
def afterCallback (callback : NetGate.Callback) (inFlight : List Item) : Conn :=
  match callback.object with
  | none => .closed
  | some o => .live o (inFlight ++ callback.pushed.toList.map .waiting)

/-- libevent runs the read callback only after bytes were appended to the input. -/
def step (pb : Protobuf) : Conn → Action → Option Conn
  | .closed, _ => none
  | .live o items, .arrive bytes =>
    if bytes = [] then none else some (.live { o with session := o.session.arrive bytes } items)
  | .live o items, .reqCallback waitingQueueSize =>
    if o.session.bufev.unread then
      some (afterCallback (NetGate.reqCallback pb (push waitingQueueSize) o) items)
    else none
  | .live _ items, .errCallback events => some (afterCallback (NetGate.errCallback events) items)
  | .live o items, .take i =>
    match items[i]? with
    | some (.waiting event) => some (.live o (items.set i (.running event (.start event.message))))
    | _ => none
  | .live o items, .work i rand execution =>
    match items[i]? with
    | some (.running event position) =>
      some (.live (o.work rand execution position)
        (items.set i (.running event (position.step o.session.stored rand execution).2)))
    | _ => none
  | .live o items, .finish i =>
    match items[i]? with
    | some (.running event (.returned response)) =>
      some (.live (o.finish event.message response) (items.set i (.done ⟨event.session, response⟩)))
    | _ => none
  | .live o items, .handleResult i =>
    match items[i]? with
    | some (.done event) => some (.live (NetGate.handleResult event o) (items.eraseIdx i))
    | _ => none

theorem afterCallback_errCallback (events : UInt16) (items : List Item) :
    afterCallback (NetGate.errCallback events) items = .closed := by
  unfold NetGate.errCallback
  repeat' split
  all_goals rfl

/-- What each enabled action does to a live session. -/
inductive Stepped (pb : Protobuf) (o : Object) (items : List Item) : Action → Conn → Prop where
  | arrive (bytes : Bytes) : bytes ≠ [] →
      Stepped pb o items (.arrive bytes)
        (.live { o with session := o.session.arrive bytes } items)
  | reqCallback (waitingQueueSize : Nat) : o.session.bufev.unread = true →
      Stepped pb o items (.reqCallback waitingQueueSize)
        (afterCallback (NetGate.reqCallback pb (push waitingQueueSize) o) items)
  | errCallback (events : UInt16) : Stepped pb o items (.errCallback events) .closed
  | take (i : Nat) (event : ReqEvent) : items[i]? = some (.waiting event) →
      Stepped pb o items (.take i)
        (.live o (items.set i (.running event (.start event.message))))
  | work (i rand : Nat) (execution : UserDAO.Execution) (event : ReqEvent) (position : Position) :
      items[i]? = some (.running event position) →
      Stepped pb o items (.work i rand execution) (.live (o.work rand execution position)
        (items.set i (.running event (position.step o.session.stored rand execution).2)))
  | finish (i : Nat) (event : ReqEvent) (response : Response) :
      items[i]? = some (.running event (.returned response)) →
      Stepped pb o items (.finish i) (.live (o.finish event.message response)
        (items.set i (.done ⟨event.session, response⟩)))
  | handleResult (i : Nat) (event : ResEvent) : items[i]? = some (.done event) →
      Stepped pb o items (.handleResult i)
        (.live (NetGate.handleResult event o) (items.eraseIdx i))

theorem stepped_of_step {pb : Protobuf} {o : Object} {items : List Item} {a : Action} {d : Conn}
    (enabled : step pb (.live o items) a = some d) : Stepped pb o items a d := by
  cases a with
  | arrive bytes =>
    obtain ⟨some, enabled⟩ := Option.ite_none_left_eq_some.mp enabled
    obtain rfl := Option.some.inj enabled
    exact .arrive bytes some
  | reqCallback waitingQueueSize =>
    obtain ⟨unread, enabled⟩ := Option.ite_none_right_eq_some.mp enabled
    obtain rfl := Option.some.inj enabled
    exact .reqCallback waitingQueueSize unread
  | errCallback events =>
    obtain rfl := Option.some.inj enabled
    rw [afterCallback_errCallback]
    exact .errCallback events
  | take i =>
    simp only [step] at enabled
    split at enabled
    · obtain rfl := Option.some.inj enabled
      exact .take i _ ‹_›
    · contradiction
  | work i rand execution =>
    simp only [step] at enabled
    split at enabled
    · obtain rfl := Option.some.inj enabled
      exact .work i rand execution _ _ ‹_›
    · contradiction
  | finish i =>
    simp only [step] at enabled
    split at enabled
    · obtain rfl := Option.some.inj enabled
      exact .finish i _ _ ‹_›
    · contradiction
  | handleResult i =>
    simp only [step] at enabled
    split at enabled
    · obtain rfl := Option.some.inj enabled
      exact .handleResult i _ ‹_›
    · contradiction

end Conn
end Shbk2
