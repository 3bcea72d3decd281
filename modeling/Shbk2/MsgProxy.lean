import Shbk2.Lib.LittleEndian
import Shbk2.Session

/-! `MsgProxy::Pack`: the incremental parser, one function for each of its three
`if` statements. Reads and writes of the request buffer go through its block, so
a step that would leave the block or use uninitialized bytes has no value there
and ends in `undefinedBehaviour`. -/
namespace Shbk2.MsgProxy

def headerCont : Bytes := ascii "SHBK"
def headerSize : UInt32 := 10

inductive PackError where
  | exception (what : String)
  | undefinedBehaviour
  deriving DecidableEq

/-- C `strncmp` on two byte sequences: the difference of the first bytes that
differ, zero when there are none before a terminator or the bound. -/
def strncmp : Bytes → Bytes → Nat → Int
  | a :: as, b :: bs, n + 1 =>
    if a = b then if a = 0 then 0 else strncmp as bs n else (a.toNat : Int) - b.toNat
  | _, _, _ => 0

/-- `bufferevent_read` behind the last byte of the request buffer, and
`IncrementLast`. The count is narrowed to 32 bits. -/
def readMore (s : Session) : Option Session :=
  s.reqBuf.buf.bind fun block =>
    let chunk := s.bufev.read (s.reqBuf.total - s.reqBuf.last).toNat
    (Block.store block s.reqBuf.last.toNat chunk.1).map fun block =>
      { s with
        bufev := chunk.2
        reqBuf := { s.reqBuf with buf := some block }.incrementLast (UInt32.ofNat chunk.1.length) }

def packStart (s : Session) : Session :=
  if s.stat = .waitingRequest then
    { s.setState .parsingHead with reqBuf := (s.reqBuf.alloc headerSize).2 }
  else s

/-- The header is complete: check the identifier, keep the type, make room for
the body. The size field is not checked against any bound. -/
def acceptHead (s : Session) : Except PackError Session :=
  match s.reqBuf.load 0 4, s.reqBuf.load headerCont.length 2,
      s.reqBuf.load (headerCont.length + 2) 4 with
  | some identifier, some type, some size =>
    if strncmp identifier headerCont 4 ≠ 0 then .error (.exception "unknown identifier")
    else .ok { s.setState .parsingBody with
      eventType := ⟨UInt16.ofNat (LittleEndian.decode type)⟩
      reqBuf := s.reqBuf.realloc (UInt32.ofNat (LittleEndian.decode size)) }
  | _, _, _ => .error .undefinedBehaviour

def packHead (s : Session) : Except PackError Session :=
  if s.stat = .parsingHead then
    match readMore s with
    | none => .error .undefinedBehaviour
    | some s => if s.reqBuf.isEnough then acceptHead s else .ok s
  else .ok s

/-- The body is complete: make the event for the type, parse the body into it
whatever `ParseFromArray` answers, drop the buffer. -/
def acceptBody (pb : Protobuf) (self : SessionPtr) (s : Session) :
    Except PackError (Option ReqEvent × Session) :=
  match pb.parseFromArray s.eventType with
  | none => .error (.exception "unknown event type")
  | some parse =>
    match s.reqBuf.load 0 s.reqBuf.total.toNat with
    | none => .error .undefinedBehaviour
    | some data =>
      .ok (some ⟨self, (parse data s.reqBuf.total.toInt32).2⟩, { s with reqBuf := s.reqBuf.reset })

def packBody (pb : Protobuf) (self : SessionPtr) (s : Session) :
    Except PackError (Option ReqEvent × Session) :=
  if s.stat = .parsingBody ∧ s.bufev.input.length > 0 then
    match readMore s with
    | none => .error .undefinedBehaviour
    | some s => if s.reqBuf.isEnough then acceptBody pb self s else .ok (none, s)
  else .ok (none, s)

def pack (pb : Protobuf) (self : SessionPtr) (s : Session) :
    Except PackError (Option ReqEvent × Session) :=
  if s.stat = .handling then .error (.exception "invalid session state")
  else
    match packHead (packStart s) with
    | .error e => .error e
    | .ok s => packBody pb self s

end Shbk2.MsgProxy
