import Mathlib.Algebra.Group.Nat.Defs
import Mathlib.Data.List.Basic

/-! Event types, messages and events. A `std::string` is its bytes. The fields of
an event that nothing reads (its sequence number) are left out. -/
namespace Shbk2

abbrev Bytes := List UInt8

def ascii (text : String) : Bytes := text.toList.map fun c => UInt8.ofNat c.toNat

/-- An enumeration over `uint16_t`: the cast of a received type can give any
16-bit value, not only the declared ones. -/
structure EventType where
  value : UInt16
  deriving DecidableEq

namespace EventType

def kPhoneReq : EventType := ⟨0x01⟩
def kPhoneRes : EventType := ⟨0x02⟩
def kLoginReq : EventType := ⟨0x03⟩
def kLoginRes : EventType := ⟨0x04⟩
def kUnknown : EventType := ⟨0xff⟩

end EventType

inductive ErrorCode where
  | kSuccess
  | kInvalidData
  | kMethodNotAllowed
  | kProcessFailed
  deriving DecidableEq

namespace ErrorCode

def value : ErrorCode → Int32
  | kSuccess => 200
  | kInvalidData => 400
  | kMethodNotAllowed => 401
  | kProcessFailed => 402

/-- `kErrorCodeDescMap` -/
def desc : ErrorCode → String
  | kSuccess => "ok."
  | kInvalidData => "invalid data."
  | kMethodNotAllowed => "method not allowed."
  | kProcessFailed => "Process failed."

theorem value_injective : Function.Injective value := by
  intro a b same
  cases a <;> cases b <;> first | rfl | exact absurd same (by decide)

end ErrorCode

structure PhoneReq where
  phoneNumber : Bytes
  deriving DecidableEq

structure PhoneRes where
  code : Int32
  desc : String
  identifier : Int32
  deriving DecidableEq

structure LoginReq where
  phoneNumber : Bytes
  identifier : Int32
  deriving DecidableEq

structure LoginRes where
  code : Int32
  desc : String
  deriving DecidableEq

inductive Request where
  | phoneReq (message : PhoneReq)
  | loginReq (message : LoginReq)
  deriving DecidableEq

inductive Response where
  | phoneRes (message : PhoneRes)
  | loginRes (message : LoginRes)
  deriving DecidableEq

def Request.type : Request → EventType
  | .phoneReq _ => .kPhoneReq
  | .loginReq _ => .kLoginReq

def Response.type : Response → EventType
  | .phoneRes _ => .kPhoneRes
  | .loginRes _ => .kLoginRes

/-- The constructor of `EvPhoneRes`. -/
def evPhoneRes (identifier : Int32) (code : ErrorCode) : Response :=
  .phoneRes ⟨code.value, code.desc, identifier⟩

/-- The constructor of `EvLoginRes`. -/
def evLoginRes (code : ErrorCode) : Response := .loginRes ⟨code.value, code.desc⟩

/-- A `Session*`. The program only uses the address; `alloc` is the number of the
allocation the pointer came from, which tells a dangling pointer from a pointer
to a later object at the same address. -/
structure SessionPtr where
  addr : Nat
  alloc : Nat
  deriving DecidableEq

structure IEvent (Message : Type) where
  session : SessionPtr
  message : Message
  deriving DecidableEq

abbrev ReqEvent := IEvent Request
abbrev ResEvent := IEvent Response

/-- The message parsers of the protobuf runtime: the verdict of `ParseFromArray`
and the message it leaves, for the bytes at `data` and the `int` size. -/
structure Protobuf where
  parsePhoneReq : Bytes → Int32 → Bool × PhoneReq
  parseLoginReq : Bytes → Int32 → Bool × LoginReq

/-- A length below `2 ^ 31` survives the conversion to `int`. -/
theorem toInt_size {n : Nat} (fits : n < 2 ^ 31) : (UInt32.ofNat n).toInt32.toInt = n := by
  have value : (UInt32.ofNat n).toBitVec.toNat = n :=
    UInt32.toNat_ofNat_of_lt' (Nat.lt_trans fits (by decide))
  have size : (UInt32.ofNat n).toInt32.toInt = (UInt32.ofNat n).toBitVec.toInt := rfl
  rw [size, BitVec.toInt_eq_toNat_of_lt (by omega), value]

/-- `ParseFromArray` of the event class made for a received type, if there is one. -/
def Protobuf.parseFromArray (pb : Protobuf) (type : EventType) :
    Option (Bytes → Int32 → Bool × Request) :=
  if type = .kPhoneReq then
    some fun data size => ((pb.parsePhoneReq data size).1, .phoneReq (pb.parsePhoneReq data size).2)
  else if type = .kLoginReq then
    some fun data size => ((pb.parseLoginReq data size).1, .loginReq (pb.parseLoginReq data size).2)
  else none

def EventType.IsRequest (type : EventType) : Prop := type = kPhoneReq ∨ type = kLoginReq

instance (type : EventType) : Decidable type.IsRequest := inferInstanceAs (Decidable (_ ∨ _))

theorem Protobuf.parseFromArray_none (pb : Protobuf) {type : EventType} :
    pb.parseFromArray type = none ↔ ¬ type.IsRequest := by
  by_cases phone : type = .kPhoneReq
  · simp [parseFromArray, EventType.IsRequest, phone]
  · rw [parseFromArray, if_neg phone]
    by_cases login : type = .kLoginReq <;> simp [EventType.IsRequest, phone, login]

theorem Protobuf.parseFromArray_type (pb : Protobuf) {type : EventType}
    {parse : Bytes → Int32 → Bool × Request} (found : pb.parseFromArray type = some parse)
    (data : Bytes) (size : Int32) : (parse data size).2.type = type := by
  unfold parseFromArray at found
  split at found
  · cases found
    exact Eq.symm ‹_›
  · split at found
    · cases found
      exact Eq.symm ‹_›
    · contradiction

end Shbk2
