import Shbk2.Messages

/-! The client simulator: it asks for an identifier once it is connected, and logs in with
the one it was sent. Its callbacks do not wait for the end of a response: they read what is
there and take zero bytes for what is not, and end with an exception where the header declares
a size of zero. What it prints about its own requests is left
out. -/
namespace Shbk2.ClientSimulator
open Proto

inductive Printed where
  | dynamicCode (identifier : Int32)
  | result (code : Int32) (desc : Bytes)
  deriving DecidableEq

/-- The buffered connection and what was printed; `freed`: after `bufferevent_free`. -/
structure Client where
  input : Bytes
  unread : Bool
  output : Bytes
  printed : List Printed
  freed : Bool
  deriving DecidableEq

def Client.new : Client := ⟨[], false, [], [], false⟩

def phoneNumber : Bytes := ascii "13835479597"

section Callbacks
variable [Runtime]

/-- The header and the message go to an evbuffer, and that to the output. -/
def send {t : Table} (type : UInt16) (message : Message t) (c : Client) : Client :=
  let byteSize := (UInt32.ofNat message.byteSizeLong).toInt32
  let text := Runtime.serializeAsString message.serialize message.byteSizeLong
  let bufReq := (⟨ascii "SHBK", type, byteSize⟩ : Header).writeEvbuffer [] ++
    text.take byteSize.toUInt32.toNat
  { c with output := c.output ++ bufReq }

def bevEventConnected : UInt16 := 0x80

def clientEvCb (events : UInt16) (c : Client) : Client :=
  if events &&& bevEventConnected ≠ 0 then send 0x01 (PhoneReq.object ⟨phoneNumber⟩) c
  else if events &&& NetGate.bevEventError ≠ 0 then { c with freed := true }
  else c

/-- `bufferevent_read` to an array of zero bytes, and what is left in the input. -/
def readZeroed (size : Nat) (input : Bytes) : Bytes × Bytes :=
  (input.take size ++ List.replicate (size - input.length) 0, input.drop size)

/-- The array for the message is made with a zero in it, which an array of no bytes has no
room for: that throws. -/
def clientRdCb (c : Client) : Except String Client :=
  let (header, rest) := readZeroed 10 c.input
  let messageType := UInt16.ofNat (LittleEndian.decode ((header.drop 4).take 2))
  let messageSize := UInt32.ofNat (LittleEndian.decode ((header.drop 6).take 4))
  if messageSize = 0 then .error "std::bad_array_new_length"
  else
    let (message, rest) := readZeroed messageSize.toNat rest
    let c := { c with input := rest, unread := false }
    if messageType &&& 0x02 ≠ 0 then
      let identifier := (Runtime.parseFromArray phoneRes message messageSize.toInt32).2.int32 3
      .ok (send 0x03 (LoginReq.object ⟨phoneNumber, identifier⟩)
        { c with printed := c.printed ++ [.dynamicCode identifier] })
    else if messageType &&& 0x04 ≠ 0 then
      let loginRes := (Runtime.parseFromArray loginRes message messageSize.toInt32).2
      .ok { c with printed := c.printed ++ [.result (loginRes.int32 1) (loginRes.string 2)] }
    else .ok c

end Callbacks

section Callbacks
variable [Runtime] [Runtime.Documented]

theorem send_frame {t : Table} {message : Message t} (type : EventType)
    (fits : message.byteSizeLong < 2 ^ 31) (c : Client) :
    send type.value message c = { c with output := c.output ++ frame type message.serialize } := by
  have size : (UInt32.ofNat message.byteSizeLong).toInt32.toUInt32.toNat = message.byteSizeLong :=
    MsgProxy.toNat_toUInt32 (toInt_size fits)
  have length := Message.serialize_length fits
  have text : Runtime.serializeAsString message.serialize message.byteSizeLong =
      message.serialize := by
    have written := Runtime.Documented.serializeAsString message.serialize
    rw [length] at written
    exact written fits
  have whole : message.serialize.take message.byteSizeLong = message.serialize :=
    List.take_of_length_le (Nat.le_of_eq length)
  simp only [send, Header.writeEvbuffer, text, size, whole, frame, length, List.nil_append,
    List.append_assoc]

end Callbacks

theorem readZeroed_enough {size : Nat} {bytes rest : Bytes} (length : bytes.length = size) :
    readZeroed size (bytes ++ rest) = (bytes, rest) := by
  subst length
  have none : bytes.length - (bytes ++ rest).length = 0 := by
    rw [List.length_append]
    omega
  rw [readZeroed, none, List.take_left, List.drop_left]
  exact congrArg (·, rest) (List.append_nil bytes)

section Response
variable [Runtime] [Runtime.Documented] {c : Client} {type : EventType} {b rest : Bytes}

omit [Runtime] [Runtime.Documented] in
/-- What the read callback finds where a whole frame lies at the front of the input. -/
theorem clientRdCb_frame (some : 0 < b.length) (fits : b.length < 2 ^ 31) (whole : c.input = frame type b ++ rest) :
    readZeroed 10 c.input = (MsgProxy.header type (UInt32.ofNat b.length), b ++ rest) ∧
      UInt16.ofNat (LittleEndian.decode
        (((MsgProxy.header type (UInt32.ofNat b.length)).drop 4).take 2)) = type.value ∧
      UInt32.ofNat (LittleEndian.decode
        (((MsgProxy.header type (UInt32.ofNat b.length)).drop 6).take 4)) = UInt32.ofNat b.length ∧
      UInt32.ofNat b.length ≠ 0 ∧
      readZeroed (UInt32.ofNat b.length).toNat (b ++ rest) = (b, rest) := by
  have size : (UInt32.ofNat b.length).toNat = b.length :=
    UInt32.toNat_ofNat_of_lt' (Nat.lt_trans fits (by decide))
  have declaredType := MsgProxy.header_type type (UInt32.ofNat b.length) []
  have declaredSize := MsgProxy.header_size type (UInt32.ofNat b.length) []
  rw [List.append_nil] at declaredType declaredSize
  have positive : UInt32.ofNat b.length ≠ 0 := by
    intro zero
    rw [zero] at size
    exact absurd size (Nat.ne_of_lt some)
  refine ⟨?_, congrArg EventType.value declaredType, declaredSize, positive,
    readZeroed_enough size.symm⟩
  rw [whole, MsgProxy.frame_header size.symm, List.append_assoc]
  exact readZeroed_enough (MsgProxy.header_length _ _)

/-- The client prints the identifier it is sent, and logs in with it. -/
theorem clientRdCb_phoneRes {message : PhoneRes}
    (fits : (PhoneRes.object message).byteSizeLong < 2 ^ 31)
    (whole : c.input = frame .kPhoneRes (PhoneRes.object message).serialize ++ rest) :
    clientRdCb c = .ok (send 0x03 (LoginReq.object ⟨phoneNumber, message.identifier⟩)
      { c with
        input := rest
        unread := false
        printed := c.printed ++ [.dynamicCode message.identifier] }) := by
  have length := Message.serialize_length fits
  have some := phoneRes_positive message
  obtain ⟨header, type, size, positive, body⟩ :=
    clientRdCb_frame (length ▸ some) (length ▸ fits) whole
  have parsed := Message.parseFromArray_serialize fits
  rw [length] at header type size positive body
  simp only [clientRdCb, header, type, size, if_neg positive, body, parsed]
  rw [if_pos (by decide)]
  rfl

theorem clientRdCb_loginRes {message : LoginRes}
    (fits : (LoginRes.object message).byteSizeLong < 2 ^ 31)
    (whole : c.input = frame .kLoginRes (LoginRes.object message).serialize ++ rest) :
    clientRdCb c = .ok
      { c with
        input := rest
        unread := false
        printed := c.printed ++ [.result message.code (ascii message.desc)] } := by
  have length := Message.serialize_length fits
  have some := loginRes_positive message
  obtain ⟨header, type, size, positive, body⟩ :=
    clientRdCb_frame (length ▸ some) (length ▸ fits) whole
  have parsed := Message.parseFromArray_serialize fits
  rw [length] at header type size positive body
  simp only [clientRdCb, header, type, size, if_neg positive, body, parsed]
  rw [if_neg (by decide), if_pos (by decide)]
  rfl

end Response

end Shbk2.ClientSimulator
