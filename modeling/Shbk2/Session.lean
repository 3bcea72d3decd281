import Shbk2.Lib.Block
import Shbk2.Events

/-! The request buffer, libevent's buffered connection and the session. The
fields of a session that only its log lines read (socket, address, counter) are
left out, and so is the login flag, which nothing reads. -/
namespace Shbk2

structure Buffer where
  total : UInt32
  last : UInt32
  buf : Option Block
  deriving DecidableEq

namespace Buffer

def empty : Buffer := ⟨0, 0, none⟩

def incrementLast (b : Buffer) (num : UInt32) : Buffer := { b with last := b.last + num }

def isEnough (b : Buffer) : Bool := b.last == b.total

def alloc (b : Buffer) (size : UInt32) : Bool × Buffer :=
  match b.buf with
  | some _ => (false, b)
  | none => (true, ⟨size, 0, some (.uninitialized size.toNat)⟩)

def reset (b : Buffer) : Buffer :=
  match b.buf with
  | none => b
  | some _ => ⟨0, 0, none⟩

def realloc (b : Buffer) (size : UInt32) : Buffer :=
  match b.buf with
  | none => (b.alloc size).2
  | some _ => ⟨size, 0, some (.uninitialized size.toNat)⟩

/-- A read through `buffer().get() + offset`. -/
def load (b : Buffer) (offset size : Nat) : Option Bytes :=
  b.buf.bind fun block => Block.load block offset size

end Buffer

/-- A socket bufferevent: the input evbuffer, whether bytes were appended to it
since the last read callback, and the packages written to the output. -/
structure Bufferevent where
  input : Bytes
  unread : Bool
  output : List ResEvent
  deriving DecidableEq

namespace Bufferevent

def new : Bufferevent := ⟨[], false, []⟩

/-- `bufferevent_read`: the first `min size available` bytes leave the input. -/
def read (b : Bufferevent) (size : Nat) : Bytes × Bufferevent :=
  (b.input.take size, { b with input := b.input.drop size })

end Bufferevent

inductive State where
  | waitingRequest
  | parsingHead
  | parsingBody
  | handling
  deriving DecidableEq

/-- The two fields of a session that the handlers share. -/
structure Stored where
  phoneNumber : Bytes
  identifier : Int32
  deriving DecidableEq

def Stored.setIdentifier (s : Stored) (identifier : Int32) : Stored :=
  { s with identifier := identifier }

def Stored.setPhoneNumber (s : Stored) (phoneNumber : Bytes) : Stored :=
  { s with phoneNumber := phoneNumber }

structure Session where
  bufev : Bufferevent
  eventType : EventType
  reqBuf : Buffer
  stat : State
  stored : Stored
  deriving DecidableEq

namespace Session

/-- The constructor and `set_bufev`. The event type is not initialized there, so
it may be any value. -/
def new (eventType : EventType) : Session where
  bufev := .new
  eventType := eventType
  reqBuf := .empty
  stat := .waitingRequest
  stored := ⟨[], 0⟩

def setState (s : Session) (stat : State) : Session := { s with stat := stat }

/-- Bytes arrive from the socket. -/
def arrive (s : Session) (bytes : Bytes) : Session :=
  { s with bufev := { s.bufev with input := s.bufev.input ++ bytes, unread := true } }

/-- The read callback runs: nothing in the input is new any more. -/
def noticed (s : Session) : Session := { s with bufev := { s.bufev with unread := false } }

end Session
end Shbk2
