import Mathlib.Data.List.Nodup
import Mathlib.Logic.Function.Basic
import Shbk2.Lib.Tally
import Shbk2.Unpack

/-! The generated message classes. Each has a table of its fields, and what it writes, how
large that is and what it reads follow the table. The protobuf runtime, which writes and
reads the fields, is a parameter with what its documentation says of it. Unknown fields are
left out, as no message of the program is written again after it was read. -/
namespace Shbk2.Proto

inductive Kind where
  | int32
  | string
  deriving DecidableEq

inductive Content where
  | int32 (value : Int32)
  | string (bytes : Bytes)
  deriving DecidableEq

def Content.kind : Content → Kind
  | .int32 _ => .int32
  | .string _ => .string

structure Entry where
  number : Nat
  kind : Kind
  required : Bool
  deriving DecidableEq

/-- The fields as `_InternalSerialize` writes them, and in the order in which
`ByteSizeLong` counts them. A tag takes one byte. -/
structure Table where
  serialized : List Entry
  sized : List Entry
  same : sized.Perm serialized
  distinct : (serialized.map (·.number)).Nodup
  numbered : ∀ entry ∈ serialized, 0 < entry.number ∧ entry.number < 16

/-- An object of a message class: what its has-bits tell is there. -/
@[ext] structure Message (t : Table) where
  content : Nat → Option Content
  typed : ∀ number c, content number = some c →
    ∃ entry ∈ t.serialized, entry.number = number ∧ entry.kind = c.kind

/-- A field that is there: its number, and a content of its kind. -/
structure Field (t : Table) where
  number : Nat
  content : Content
  typed : ∃ entry ∈ t.serialized, entry.number = number ∧ entry.kind = content.kind

namespace Message
variable {t : Table}

/-- `Clear` -/
def clear : Message t := ⟨fun _ => none, by intro _ _ none; contradiction⟩

/-- `MergeImpl` -/
def mergeFrom (m other : Message t) : Message t where
  content number := (other.content number).or (m.content number)
  typed := by
    intro number c there
    rcases Option.or_eq_some_iff.mp there with there | ⟨_, there⟩
    · exact other.typed number c there
    · exact m.typed number c there

/-- `IsInitialized` -/
def isInitialized (m : Message t) : Bool :=
  t.serialized.all fun entry => !entry.required || (m.content entry.number).isSome

/-- A field is read into the message; one that comes again replaces the first. -/
def put (m : Message t) (field : Field t) : Message t where
  content := Function.update m.content field.number (some field.content)
  typed := by
    intro number c there
    by_cases same : number = field.number
    · subst same
      rw [Function.update_self] at there
      obtain rfl := Option.some.inj there
      exact field.typed
    · rw [Function.update_of_ne same] at there
      exact m.typed number c there

end Message

/-- The functions of the protobuf runtime that the generated classes and the program call.
`writeInt32` and `writeString` are `WriteInt32ToArrayWithField` and `WriteStringMaybeAliased`,
for the number of a field. `SerializeToArray`, for the size of the array, and
`SerializeAsString` are given what `_InternalSerialize` writes and what `ByteSizeLong` counts,
and `ParseFromArray` the table of the class: the verdict and the message it leaves. -/
class Runtime where
  writeInt32 : Nat → Int32 → Bytes
  writeString : Nat → Bytes → Bytes
  int32SizePlusOne : Int32 → Nat
  stringSize : Bytes → Nat
  serializeToArray : Bytes → Nat → Int32 → Bytes
  serializeAsString : Bytes → Nat → Bytes
  parseFromArray : (t : Table) → Bytes → Int32 → Bool × Message t

section Runtime
variable [Runtime] {t : Table}

/-- A string has the byte of its tag, which `StringSize` does not count. -/
def Content.size : Content → Nat
  | .int32 value => Runtime.int32SizePlusOne value
  | .string bytes => 1 + Runtime.stringSize bytes

def Content.encode (number : Nat) : Content → Bytes
  | .int32 value => Runtime.writeInt32 number value
  | .string bytes => Runtime.writeString number bytes

def Field.encode (field : Field t) : Bytes := field.content.encode field.number

/-- `_InternalSerialize` -/
def Message.serialize (m : Message t) : Bytes :=
  t.serialized.flatMap fun entry => ((m.content entry.number).map (Content.encode entry.number)).getD []

/-- `ByteSizeLong` -/
def Message.byteSizeLong (m : Message t) : Nat :=
  Tally.total (fun entry => ((m.content entry.number).map Content.size).getD 0) t.sized

end Runtime

/-- What the runtime's documentation says of them. A field takes as many bytes as was
computed, an `int32` at most ten behind its tag and a text those of its length besides its
own. What a message whose required fields are set writes comes out whole where the array has
room. A parse reads the fields one after the other into a cleared message, the last one of a
number counts, and the verdict is whether every required field was there. -/
class Runtime.Documented [Runtime] : Prop where
  writeInt32_length (number : Nat) (value : Int32) : 0 < number → number < 16 →
    (Runtime.writeInt32 number value).length = Runtime.int32SizePlusOne value
  writeString_length (number : Nat) (bytes : Bytes) : 0 < number → number < 16 →
    bytes.length < 2 ^ 31 → (Runtime.writeString number bytes).length = 1 + Runtime.stringSize bytes
  int32_size (value : Int32) : Runtime.int32SizePlusOne value ≤ 11
  string_size (bytes : Bytes) : bytes.length ≤ Runtime.stringSize bytes
  string_short (bytes : Bytes) : bytes.length < 128 → Runtime.stringSize bytes ≤ bytes.length + 1
  serializeToArray (bytes : Bytes) (size : Int32) : (bytes.length : Int) ≤ size.toInt →
    Runtime.serializeToArray bytes bytes.length size = bytes
  serializeAsString (bytes : Bytes) : bytes.length < 2 ^ 31 →
    Runtime.serializeAsString bytes bytes.length = bytes
  parseFromArray (t : Table) (fields : List (Field t)) :
    (fields.flatMap Field.encode).length < 2 ^ 31 →
    Runtime.parseFromArray t (fields.flatMap Field.encode)
        (UInt32.ofNat (fields.flatMap Field.encode).length).toInt32 =
      ((fields.foldl Message.put .clear).isInitialized, fields.foldl Message.put .clear)

/-- A text as short as the runtime lets a message be. -/
def Content.Short : Content → Prop
  | .int32 _ => True
  | .string bytes => bytes.length < 2 ^ 31

namespace Message
variable {t : Table} {m into : Message t}

theorem content_put (field : Field t) (number : Nat) :
    (m.put field).content number =
      if number = field.number then some field.content else m.content number :=
  Function.update_apply ..

theorem numbered {number : Nat} {c : Content} (there : m.content number = some c) :
    0 < number ∧ number < 16 := by
  obtain ⟨entry, member, rfl, _⟩ := m.typed number c there
  exact t.numbered entry member

/-- The field of an entry of the table, if it is there. -/
def field (m : Message t) (entry : Entry) : Option (Field t) :=
  match there : m.content entry.number with
  | none => none
  | some c => some ⟨entry.number, c, m.typed entry.number c there⟩

theorem field_none {entry : Entry} (none : m.content entry.number = none) :
    m.field entry = .none := by
  unfold field
  split
  · rfl
  · rename_i there
    rw [none] at there
    contradiction

theorem field_some {entry : Entry} {c : Content} (there : m.content entry.number = some c) :
    m.field entry = some ⟨entry.number, c, m.typed entry.number c there⟩ := by
  unfold field
  split
  · rename_i none
    rw [none] at there
    contradiction
  · rename_i again
    obtain rfl := Option.some.inj (there.symm.trans again)
    rfl

/-- The fields of an object as they are written. -/
def fields (m : Message t) : List (Field t) := t.serialized.filterMap m.field

theorem content_fold (entries : List Entry) (number : Nat) :
    ((entries.filterMap m.field).foldl put into).content number =
      if number ∈ entries.map (·.number) then (m.content number).or (into.content number)
      else into.content number := by
  induction entries generalizing into with
  | nil => rfl
  | cons entry entries ih =>
    rw [List.map_cons]
    cases there : m.content entry.number with
    | none =>
      rw [List.filterMap_cons_none (field_none there), ih]
      by_cases same : number = entry.number
      · subst same
        simp only [there, Option.none_or, ite_self]
      · simp only [List.mem_cons, same, false_or]
    | some c =>
      rw [List.filterMap_cons_some (field_some there), List.foldl_cons, ih, content_put]
      by_cases same : number = entry.number
      · subst same
        simp only [there, Option.some_or, ite_self, List.mem_cons, true_or, if_true]
      · simp only [List.mem_cons, same, false_or, if_false]

/-- What is read of the fields of an object is the object merged into what was there. -/
theorem fold_fields : m.fields.foldl put into = into.mergeFrom m := by
  ext1
  funext number
  rw [fields, content_fold]
  by_cases known : number ∈ t.serialized.map (·.number)
  · rw [if_pos known]
    rfl
  · have none : m.content number = none := by
      by_contra there
      obtain ⟨c, there⟩ := Option.ne_none_iff_exists'.mp there
      obtain ⟨entry, member, rfl, _⟩ := m.typed number c there
      exact known (List.mem_map_of_mem member)
    rw [if_neg known]
    simp only [mergeFrom, none, Option.none_or]

theorem mergeFrom_clear : clear.mergeFrom m = m := by
  ext1
  funext number
  exact Option.or_none

end Message

section Documented
variable [Runtime] {t : Table} {m : Message t}

theorem Message.encode_fields : m.fields.flatMap Field.encode = m.serialize := by
  rw [fields, serialize]
  induction t.serialized with
  | nil => rfl
  | cons entry entries ih =>
    rw [List.flatMap_cons, ← ih]
    cases there : m.content entry.number with
    | none =>
      rw [List.filterMap_cons_none (field_none there)]
      rfl
    | some c =>
      rw [List.filterMap_cons_some (field_some there), List.flatMap_cons]
      rfl

theorem Content.encode_length [Runtime.Documented] {number : Nat} {c : Content}
    (positive : 0 < number) (small : number < 16) (short : c.Short) :
    (c.encode number).length = c.size := by
  cases c with
  | int32 value => exact Runtime.Documented.writeInt32_length number value positive small
  | string bytes => exact Runtime.Documented.writeString_length number bytes positive small short

namespace Message
variable [Runtime.Documented]

/-- The texts of a message are as short as the runtime lets it be. -/
theorem short_of_size (fits : m.byteSizeLong < 2 ^ 31) {number : Nat} {c : Content}
    (there : m.content number = some c) : c.Short := by
  cases c with
  | int32 => trivial
  | string bytes =>
    obtain ⟨entry, member, rfl, _⟩ := m.typed number _ there
    have counted := Tally.le_total (fun entry => ((m.content entry.number).map Content.size).getD 0)
      (t.same.mem_iff.mpr member)
    have size := Runtime.Documented.string_size bytes
    simp only [there, Option.map_some, Option.getD_some, Content.size] at counted
    have large : bytes.length < 2 ^ 31 := by
      rw [byteSizeLong] at fits
      omega
    exact large

/-- What is written is as large as was computed. -/
theorem serialize_length (fits : m.byteSizeLong < 2 ^ 31) : m.serialize.length = m.byteSizeLong := by
  have one (entry : Entry) :
      (((m.content entry.number).map (Content.encode entry.number)).getD []).length =
        ((m.content entry.number).map Content.size).getD 0 := by
    cases there : m.content entry.number with
    | none => rfl
    | some c =>
      obtain ⟨positive, small⟩ := numbered there
      exact Content.encode_length positive small (short_of_size fits there)
  rw [byteSizeLong, Tally.total_perm _ t.same, serialize]
  induction t.serialized with
  | nil => rfl
  | cons entry entries ih =>
    rw [List.flatMap_cons, List.length_append, ih, Tally.total]
    exact congrArg (· + _) (one entry)

theorem parseFromArray_serialize (fits : m.byteSizeLong < 2 ^ 31) :
    Runtime.parseFromArray t m.serialize (UInt32.ofNat m.byteSizeLong).toInt32 =
      (m.isInitialized, m) := by
  have length := serialize_length fits
  have read := Runtime.Documented.parseFromArray t m.fields
  rw [encode_fields, fold_fields, mergeFrom_clear, length] at read
  exact read fits

/-- A message is written in as many bytes as `ByteSizeLong` says and is read back from
them. What two messages write one behind the other is read as the one merged into the other. -/
theorem parse_serialize (m other : Message t)
    (fits : m.byteSizeLong + other.byteSizeLong < 2 ^ 31) :
    m.serialize.length = m.byteSizeLong ∧
      Runtime.parseFromArray t m.serialize (UInt32.ofNat m.byteSizeLong).toInt32 =
        (m.isInitialized, m) ∧
      Runtime.parseFromArray t (m.serialize ++ other.serialize)
          (UInt32.ofNat (m.byteSizeLong + other.byteSizeLong)).toInt32 =
        ((m.mergeFrom other).isInitialized, m.mergeFrom other) := by
  have first : m.byteSizeLong < 2 ^ 31 := by omega
  have second : other.byteSizeLong < 2 ^ 31 := by omega
  refine ⟨serialize_length first, parseFromArray_serialize first, ?_⟩
  have read := Runtime.Documented.parseFromArray t (m.fields ++ other.fields)
  rw [List.flatMap_append, encode_fields, encode_fields, List.foldl_append, fold_fields,
    fold_fields, mergeFrom_clear, List.length_append, serialize_length first,
    serialize_length second] at read
  exact read fits

end Message
end Documented

/-! The four classes. -/

def phoneReq : Table where
  serialized := [⟨1, .string, true⟩]
  sized := [⟨1, .string, true⟩]
  same := .refl _
  distinct := by decide
  numbered := by decide

def phoneRes : Table where
  serialized := [⟨1, .int32, true⟩, ⟨2, .string, false⟩, ⟨3, .int32, true⟩]
  sized := [⟨2, .string, false⟩, ⟨1, .int32, true⟩, ⟨3, .int32, true⟩]
  same := .swap _ _ _
  distinct := by decide
  numbered := by decide

def loginReq : Table where
  serialized := [⟨1, .string, true⟩, ⟨2, .int32, true⟩]
  sized := [⟨1, .string, true⟩, ⟨2, .int32, true⟩]
  same := .refl _
  distinct := by decide
  numbered := by decide

def loginRes : Table where
  serialized := [⟨1, .int32, true⟩, ⟨2, .string, false⟩]
  sized := [⟨2, .string, false⟩, ⟨1, .int32, true⟩]
  same := .swap _ _ _
  distinct := by decide
  numbered := by decide

namespace Message
variable {t : Table}

/-- A getter: the field, or its default. -/
def int32 (m : Message t) (number : Nat) : Int32 :=
  match m.content number with
  | some (.int32 value) => value
  | _ => 0

def string (m : Message t) (number : Nat) : Bytes :=
  match m.content number with
  | some (.string bytes) => bytes
  | _ => []

end Message

/-! The messages of the program. Every setter was called. -/

def PhoneReq.object (message : PhoneReq) : Message phoneReq where
  content number := if number = 1 then some (.string message.phoneNumber) else none
  typed := by
    intro number c there
    obtain ⟨rfl, same⟩ := Option.ite_none_right_eq_some.mp there
    obtain rfl := Option.some.inj same
    exact ⟨⟨1, .string, true⟩, by decide, rfl, rfl⟩

def PhoneRes.object (message : PhoneRes) : Message phoneRes where
  content number :=
    if number = 1 then some (.int32 message.code)
    else if number = 2 then some (.string (ascii message.desc))
    else if number = 3 then some (.int32 message.identifier)
    else none
  typed := by
    intro number c there
    split at there
    · obtain rfl := Option.some.inj there
      exact ⟨⟨1, .int32, true⟩, by decide, Eq.symm ‹_›, rfl⟩
    split at there
    · obtain rfl := Option.some.inj there
      exact ⟨⟨2, .string, false⟩, by decide, Eq.symm ‹_›, rfl⟩
    obtain ⟨rfl, same⟩ := Option.ite_none_right_eq_some.mp there
    obtain rfl := Option.some.inj same
    exact ⟨⟨3, .int32, true⟩, by decide, rfl, rfl⟩

def LoginReq.object (message : LoginReq) : Message loginReq where
  content number :=
    if number = 1 then some (.string message.phoneNumber)
    else if number = 2 then some (.int32 message.identifier)
    else none
  typed := by
    intro number c there
    split at there
    · obtain rfl := Option.some.inj there
      exact ⟨⟨1, .string, true⟩, by decide, Eq.symm ‹_›, rfl⟩
    obtain ⟨rfl, same⟩ := Option.ite_none_right_eq_some.mp there
    obtain rfl := Option.some.inj same
    exact ⟨⟨2, .int32, true⟩, by decide, rfl, rfl⟩

def LoginRes.object (message : LoginRes) : Message loginRes where
  content number :=
    if number = 1 then some (.int32 message.code)
    else if number = 2 then some (.string (ascii message.desc))
    else none
  typed := by
    intro number c there
    split at there
    · obtain rfl := Option.some.inj there
      exact ⟨⟨1, .int32, true⟩, by decide, Eq.symm ‹_›, rfl⟩
    obtain ⟨rfl, same⟩ := Option.ite_none_right_eq_some.mp there
    obtain rfl := Option.some.inj same
    exact ⟨⟨2, .string, false⟩, by decide, rfl, rfl⟩

section Program
variable [Runtime]

/-- `ParseFromArray` of the two request classes. -/
def Runtime.protobuf : Protobuf where
  parsePhoneReq data size :=
    let (parsed, message) := Runtime.parseFromArray phoneReq data size
    (parsed, ⟨message.string 1⟩)
  parseLoginReq data size :=
    let (parsed, message) := Runtime.parseFromArray loginReq data size
    (parsed, ⟨message.string 1, message.int32 2⟩)

/-- `ByteSize` and `SerializeToArray` of an event. -/
def Message.event {t : Table} (type : EventType) (m : Message t) : Serializable where
  type := type
  byteSize := (UInt32.ofNat m.byteSizeLong).toInt32
  serializeToArray := Runtime.serializeToArray m.serialize m.byteSizeLong

def serializable : Response → Serializable
  | .phoneRes message => (PhoneRes.object message).event .kPhoneRes
  | .loginRes message => (LoginRes.object message).event .kLoginRes

/-- The bytes that `handle_results` writes for an event. -/
def package (event : Serializable) : Bytes :=
  ((MsgProxy.unpack event).bind fun (msg, size) => Block.load msg 0 size.toNat).getD []

/-- What a client writes of a request. -/
def Request.serialize : Request → Bytes
  | .phoneReq message => (PhoneReq.object message).serialize
  | .loginReq message => (LoginReq.object message).serialize

def Request.byteSizeLong : Request → Nat
  | .phoneReq message => (PhoneReq.object message).byteSizeLong
  | .loginReq message => (LoginReq.object message).byteSizeLong

/-! A message with a text has at least the byte of its tag. -/

theorem phoneRes_positive (message : PhoneRes) : 0 < (PhoneRes.object message).byteSizeLong := by
  have counted : (PhoneRes.object message).byteSizeLong =
    1 + Runtime.stringSize (ascii message.desc) + ((Content.int32 message.code).size +
      ((Content.int32 message.identifier).size + 0)) := rfl
  omega

theorem loginRes_positive (message : LoginRes) : 0 < (LoginRes.object message).byteSizeLong := by
  have counted : (LoginRes.object message).byteSizeLong =
    1 + Runtime.stringSize (ascii message.desc) + ((Content.int32 message.code).size + 0) := rfl
  omega

theorem Request.positive (request : Request) : 0 < Request.byteSizeLong request := by
  cases request with
  | phoneReq message =>
    have counted : (PhoneReq.object message).byteSizeLong =
      1 + Runtime.stringSize message.phoneNumber + 0 := rfl
    rw [Request.byteSizeLong]
    omega
  | loginReq message =>
    have counted : (LoginReq.object message).byteSizeLong =
      1 + Runtime.stringSize message.phoneNumber + ((Content.int32 message.identifier).size + 0) := rfl
    rw [Request.byteSizeLong]
    omega

variable [Runtime.Documented]

theorem Request.serialize_length {request : Request} (fits : Request.byteSizeLong request < 2 ^ 31) :
    (Request.serialize request).length = Request.byteSizeLong request := by
  cases request with
  | phoneReq message => exact Message.serialize_length fits
  | loginReq message => exact Message.serialize_length fits

/-- A request is read back as the client wrote it. -/
theorem parseFromArray_request {request : Request} (fits : Request.byteSizeLong request < 2 ^ 31) :
    ∃ parse, Runtime.protobuf.parseFromArray request.type = some parse ∧
      parse (Request.serialize request) (UInt32.ofNat (Request.serialize request).length).toInt32 =
        (true, request) := by
  rw [Request.serialize_length fits]
  cases request with
  | phoneReq message =>
    have parsed := Message.parseFromArray_serialize (m := PhoneReq.object message) fits
    refine ⟨_, if_pos rfl, ?_⟩
    simp only [Runtime.protobuf, Request.serialize, Request.byteSizeLong, parsed]
    rfl
  | loginReq message =>
    have parsed := Message.parseFromArray_serialize (m := LoginReq.object message) fits
    refine ⟨_, (if_neg (show ¬ EventType.kLoginReq = .kPhoneReq by decide)).trans (if_pos rfl), ?_⟩
    simp only [Runtime.protobuf, Request.serialize, Request.byteSizeLong, parsed]
    rfl

/-- A message of an allowed size is unpacked to its frame. -/
theorem unpack_event {t : Table} (type : EventType) {m : Message t} (fits : m.byteSizeLong < 2 ^ 31) :
    ∃ size, MsgProxy.unpack (m.event type) = some ((frame type m.serialize).map some, size) ∧
      size.toNat = 10 + m.serialize.length := by
  have length := Message.serialize_length fits
  have sized : (m.event type).byteSize.toInt = m.serialize.length := by
    rw [length]
    exact toInt_size fits
  refine MsgProxy.unpack_frame sized ?_
  rw [Message.event, ← length]
  exact Runtime.Documented.serializeToArray _ _ (Int.le_of_eq (toInt_size (length ▸ fits)).symm)

theorem package_event {t : Table} {type : EventType} {m : Message t}
    (fits : m.byteSizeLong < 2 ^ 31) : package (m.event type) = frame type m.serialize := by
  obtain ⟨size, unpacked, length⟩ := unpack_event type fits
  have whole : size.toNat = (frame type m.serialize).length := by
    rw [length, MsgProxy.frame_length]
  simp only [package, unpacked, Option.bind_some, whole]
  rw [← Block.filled_full, Block.load_filled (Nat.le_refl _) (by omega), List.drop_zero, List.take_length]
  rfl

/-! What the server sends. -/

theorem int32_size (value : Int32) : (Content.int32 value).size ≤ 11 :=
  Runtime.Documented.int32_size value

theorem text_size (bytes : Bytes) (short : bytes.length < 128) :
    (Content.string bytes).size ≤ bytes.length + 2 := by
  have size := Runtime.Documented.string_short bytes short
  rw [Content.size]
  omega

theorem desc_size (code : ErrorCode) : (Content.string (ascii code.desc)).size ≤ 21 := by
  have short : (ascii code.desc).length ≤ 19 := by cases code <;> decide
  have size := text_size (ascii code.desc) (by omega)
  omega

theorem phoneRes_size (identifier : Int32) (code : ErrorCode) :
    (PhoneRes.object ⟨code.value, code.desc, identifier⟩).byteSizeLong ≤ 43 := by
  have first := int32_size code.value
  have second := desc_size code
  have third := int32_size identifier
  have counted : (PhoneRes.object ⟨code.value, code.desc, identifier⟩).byteSizeLong =
    (Content.string (ascii code.desc)).size + ((Content.int32 code.value).size +
      ((Content.int32 identifier).size + 0)) := rfl
  omega

theorem loginRes_size (code : ErrorCode) :
    (LoginRes.object ⟨code.value, code.desc⟩).byteSizeLong ≤ 32 := by
  have first := int32_size code.value
  have second := desc_size code
  have counted : (LoginRes.object ⟨code.value, code.desc⟩).byteSizeLong =
    (Content.string (ascii code.desc)).size + ((Content.int32 code.value).size + 0) := rfl
  omega

end Program

end Shbk2.Proto
