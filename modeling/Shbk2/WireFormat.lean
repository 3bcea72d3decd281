import Mathlib.Algebra.Group.Int.Defs
import Shbk2.Events

/-! The two request messages in the proto2 wire format: a parser, the encoding a
client sends, and that the one reads back what the other wrote. A parse that
fails leaves the fields it has met; groups, which no message of the program
uses, are not read. It stands for the protobuf runtime where a run is evaluated. -/
namespace Shbk2.WireFormat

/-- Base-128 numbers of at most `limit` bytes, lowest digits first. -/
def writeVarint : Nat → Nat → Bytes
  | 0, _ => []
  | limit + 1, n =>
    if n < 128 then [UInt8.ofNat n]
    else UInt8.ofNat (n % 128 + 128) :: writeVarint limit (n / 128)

def readVarint : Nat → Bytes → Option (Nat × Bytes)
  | 0, _ => none
  | _ + 1, [] => none
  | limit + 1, byte :: rest =>
    if byte.toNat < 128 then some (byte.toNat, rest)
    else (readVarint limit rest).map fun (high, rest) => (byte.toNat - 128 + 128 * high, rest)

theorem readVarint_writeVarint {limit n : Nat} (fits : n < 128 ^ (limit + 1)) (rest : Bytes) :
    readVarint (limit + 1) (writeVarint (limit + 1) n ++ rest) = some (n, rest) := by
  induction limit generalizing n with
  | zero =>
    have small : n < 128 := by simpa using fits
    have byte : (UInt8.ofNat n).toNat = n := by simp only [UInt8.toNat_ofNat']; omega
    simp only [writeVarint, if_pos small, List.cons_append, List.nil_append, readVarint, byte]
  | succ limit ih =>
    rw [writeVarint]
    split
    · rename_i small
      have byte : (UInt8.ofNat n).toNat = n := by simp only [UInt8.toNat_ofNat']; omega
      simp only [List.cons_append, List.nil_append, readVarint, byte, if_pos small]
    · have byte : (UInt8.ofNat (n % 128 + 128)).toNat = n % 128 + 128 := by
        simp only [UInt8.toNat_ofNat']
        omega
      have high : n / 128 < 128 ^ (limit + 1) := by
        apply (Nat.div_lt_iff_lt_mul (by decide : 0 < 128)).mpr
        simpa only [Nat.pow_succ] using fits
      have more : ¬ n % 128 + 128 < 128 := by omega
      have value : n % 128 + 128 - 128 + 128 * (n / 128) = n := by omega
      simp only [List.cons_append, readVarint, byte, if_neg more, ih high, Option.map_some, value]

inductive Value where
  | number (n : Nat)
  | text (bytes : Bytes)
  | fixed
  deriving DecidableEq

def skip (count : Nat) (bytes : Bytes) : Option (Value × Bytes) :=
  if count ≤ bytes.length then some (.fixed, bytes.drop count) else none

def readValue (wireType : Nat) (bytes : Bytes) : Option (Value × Bytes) :=
  match wireType with
  | 0 => (readVarint 10 bytes).map fun (n, rest) => (.number n, rest)
  | 1 => skip 8 bytes
  | 2 => (readVarint 5 bytes).bind fun (count, rest) =>
    if count ≤ rest.length then some (.text (rest.take count), rest.drop count) else none
  | 5 => skip 4 bytes
  | _ => none

/-- The fields of a message met so far; one that comes again replaces the first. -/
structure Fields where
  phoneNumber : Option Bytes
  identifier : Option Int32
  deriving DecidableEq

def Fields.set (fields : Fields) (number : Nat) : Value → Fields
  | .text bytes => if number = 1 then { fields with phoneNumber := some bytes } else fields
  | .number n => if number = 2 then { fields with identifier := some (Int32.ofNat n) } else fields
  | .fixed => fields

/-- One field: its number and its value. -/
def readField (bytes : Bytes) : Option (Nat × Value × Bytes) :=
  (readVarint 5 bytes).bind fun (tag, rest) =>
    if tag / 8 = 0 then none
    else (readValue (tag % 8) rest).map fun (value, rest) => (tag / 8, value, rest)

/-- The loop over the fields, for what one field does to what was read before. Every field
takes at least one byte, so the length of the bytes is fuel enough. -/
def readFields {M : Type} (set : M → Nat → Value → M) : Nat → Bytes → M → Bool × M
  | 0, bytes, m => (bytes.isEmpty, m)
  | fuel + 1, bytes, m =>
    if bytes = [] then (true, m)
    else
      match readField bytes with
      | none => (false, m)
      | some (number, value, rest) => readFields set fuel rest (set m number value)

def parse (data : Bytes) (size : Int32) : Bool × Fields :=
  if size.toInt < 0 then (false, ⟨none, none⟩)
  else readFields Fields.set data.length data ⟨none, none⟩

/-- `phone_number` and, in a `LoginReq`, `identifier` are required. -/
def protobuf : Protobuf where
  parsePhoneReq data size :=
    let (wellFormed, fields) := parse data size
    (wellFormed && fields.phoneNumber.isSome, ⟨fields.phoneNumber.getD []⟩)
  parseLoginReq data size :=
    let (wellFormed, fields) := parse data size
    (wellFormed && fields.phoneNumber.isSome && fields.identifier.isSome,
      ⟨fields.phoneNumber.getD [], fields.identifier.getD 0⟩)

def encodeText (number : Nat) (bytes : Bytes) : Bytes :=
  writeVarint 5 (8 * number + 2) ++ (writeVarint 5 bytes.length ++ bytes)

/-- A negative number takes ten bytes: it is extended to 64 bits. -/
def encodeInt32 (number : Nat) (value : Int32) : Bytes :=
  writeVarint 5 (8 * number) ++ writeVarint 10 (value.toInt % 2 ^ 64).toNat

def encode : Request → Bytes
  | .phoneReq message => encodeText 1 message.phoneNumber
  | .loginReq message => encodeText 1 message.phoneNumber ++ encodeInt32 2 message.identifier

theorem writeVarint_ne_nil {limit : Nat} (n : Nat) : writeVarint (limit + 1) n ≠ [] := by
  rw [writeVarint]
  split <;> simp

/-- A number takes at least one byte from what is read. -/
theorem readVarint_length {limit n : Nat} {bytes rest : Bytes} (read : readVarint limit bytes = some (n, rest)) :
    rest.length < bytes.length := by
  induction limit generalizing bytes n with
  | zero => contradiction
  | succ limit ih =>
    cases bytes with
    | nil => contradiction
    | cons byte bytes =>
      rw [readVarint] at read
      split at read
      · obtain ⟨rfl, rfl⟩ := Prod.mk.inj (Option.some.inj read)
        exact Nat.lt_succ_self _
      · obtain ⟨⟨high, after⟩, inner, same⟩ := Option.map_eq_some_iff.mp read
        obtain ⟨rfl, rfl⟩ := Prod.mk.inj same
        exact Nat.lt_succ_of_lt (ih inner)

theorem readValue_length {wireType : Nat} {bytes rest : Bytes} {value : Value}
    (read : readValue wireType bytes = some (value, rest)) : rest.length ≤ bytes.length := by
  have skipped {count : Nat} (read : skip count bytes = some (value, rest)) :
      rest.length ≤ bytes.length := by
    obtain ⟨_, same⟩ := Option.ite_none_right_eq_some.mp read
    obtain ⟨rfl, rfl⟩ := Prod.mk.inj (Option.some.inj same)
    rw [List.length_drop]
    omega
  unfold readValue at read
  split at read
  · obtain ⟨⟨n, after⟩, number, same⟩ := Option.map_eq_some_iff.mp read
    obtain ⟨rfl, rfl⟩ := Prod.mk.inj same
    exact Nat.le_of_lt (readVarint_length number)
  · exact skipped read
  · obtain ⟨⟨count, after⟩, number, read⟩ := Option.bind_eq_some_iff.mp read
    obtain ⟨_, same⟩ := Option.ite_none_right_eq_some.mp read
    obtain ⟨rfl, rfl⟩ := Prod.mk.inj (Option.some.inj same)
    have fewer := readVarint_length number
    rw [List.length_drop]
    omega
  · exact skipped read
  · contradiction

theorem readField_length {bytes rest : Bytes} {number : Nat} {value : Value}
    (read : readField bytes = some (number, value, rest)) : rest.length < bytes.length := by
  obtain ⟨⟨tag, after⟩, key, read⟩ := Option.bind_eq_some_iff.mp read
  obtain ⟨_, read⟩ := Option.ite_none_left_eq_some.mp read
  obtain ⟨⟨found, last⟩, inner, same⟩ := Option.map_eq_some_iff.mp read
  obtain ⟨rfl, rfl, rfl⟩ : tag / 8 = number ∧ found = value ∧ last = rest := by simpa using same
  exact Nat.lt_of_le_of_lt (readValue_length inner) (readVarint_length key)

section Fields
variable {M : Type} {set : M → Nat → Value → M} {fuel number : Nat} {bytes rest : Bytes} {m : M}

theorem readFields_nil : readFields set fuel [] m = (true, m) := by
  cases fuel <;> rfl

/-- As each field takes at least one byte, the length of the bytes is fuel enough. -/
theorem readFields_enough (enough : bytes.length ≤ fuel) :
    readFields set fuel bytes m = readFields set bytes.length bytes m := by
  induction fuel using Nat.strongRecOn generalizing bytes m with
  | ind fuel ih =>
    cases bytes with
    | nil => rw [readFields_nil, readFields_nil]
    | cons byte tail =>
      obtain ⟨less, rfl⟩ : ∃ less, fuel = less + 1 :=
        Nat.exists_eq_succ_of_ne_zero (by rintro rfl; contradiction)
      rw [List.length_cons, readFields, readFields]
      cases read : readField (byte :: tail) with
      | none => rfl
      | some field =>
        obtain ⟨number, value, after⟩ := field
        have shorter := readField_length read
        simp only [List.length_cons] at shorter enough
        have fast : readFields set less after (set m number value) =
            readFields set after.length after (set m number value) :=
          ih less (Nat.lt_succ_self _) (by omega)
        have slow : readFields set tail.length after (set m number value) =
            readFields set after.length after (set m number value) :=
          ih tail.length (by omega) (by omega)
        simp only [fast, slow]

theorem readFields_field {number : Nat} {value : Value}
    (read : readField bytes = some (number, value, rest)) :
    readFields set bytes.length bytes m = readFields set rest.length rest (set m number value) := by
  have shorter := readField_length read
  have nonempty : bytes ≠ [] := by
    rintro rfl
    exact absurd shorter (Nat.not_lt_zero _)
  obtain ⟨fuel, length⟩ : ∃ fuel, bytes.length = fuel + 1 :=
    Nat.exists_eq_succ_of_ne_zero (by omega)
  rw [length, readFields, if_neg nonempty]
  simp only [read]
  exact readFields_enough (by omega)

end Fields

/-- A field is its tag, then its value. -/
theorem readField_tag {tag number : Nat} {value : Value} {bytes rest : Bytes} (small : tag < 2 ^ 31)
    (positive : 0 < number) (numbered : tag / 8 = number)
    (read : readValue (tag % 8) bytes = some (value, rest)) :
    readField (writeVarint 5 tag ++ bytes) = some (number, value, rest) := by
  have key : readVarint 5 (writeVarint 5 tag ++ bytes) = some (tag, bytes) :=
    readVarint_writeVarint (by omega) bytes
  simp only [readField, key, Option.bind_some, numbered, if_neg (Nat.ne_of_gt positive), read,
    Option.map_some]

theorem readField_text {number : Nat} {bytes : Bytes} (positive : 0 < number)
    (small : number < 2 ^ 16) (short : bytes.length < 2 ^ 31) (rest : Bytes) :
    readField (encodeText number bytes ++ rest) = some (number, .text bytes, rest) := by
  have count : readVarint 5 (writeVarint 5 bytes.length ++ (bytes ++ rest)) =
      some (bytes.length, bytes ++ rest) := readVarint_writeVarint (by omega) (bytes ++ rest)
  have wireType : (8 * number + 2) % 8 = 2 := by omega
  rw [encodeText, List.append_assoc, List.append_assoc]
  refine readField_tag (by omega) positive (by omega) ?_
  simp [wireType, readValue, count]

theorem readField_int32 {number : Nat} (positive : 0 < number) (small : number < 2 ^ 16)
    (value : Int32) (rest : Bytes) : readField (encodeInt32 number value ++ rest) =
      some (number, .number (value.toInt % 2 ^ 64).toNat, rest) := by
  have digits : readVarint 10 (writeVarint 10 (value.toInt % 2 ^ 64).toNat ++ rest) =
      some ((value.toInt % 2 ^ 64).toNat, rest) := readVarint_writeVarint (by omega) rest
  have wireType : 8 * number % 8 = 0 := by omega
  rw [encodeInt32, List.append_assoc]
  refine readField_tag (by omega) positive (by omega) ?_
  simp only [wireType, readValue, digits, Option.map_some]

theorem ofNat_toInt (value : Int32) : Int32.ofNat (value.toInt % 2 ^ 64).toNat = value := by
  apply Int32.toInt_inj.mp
  have low := value.le_toInt
  have high := value.toInt_lt
  rw [Int32.toInt_ofNat', Int.toNat_of_nonneg (by omega), Int.bmod_def]
  simp only [Int32.size]
  omega

theorem readFields_encode (request : Request) (short : (encode request).length < 2 ^ 31) :
    readFields Fields.set (encode request).length (encode request) ⟨none, none⟩ =
      (true, match request with
        | .phoneReq message => ⟨some message.phoneNumber, none⟩
        | .loginReq message => ⟨some message.phoneNumber, some message.identifier⟩) := by
  have text (number : Nat) (bytes : Bytes) : bytes.length ≤ (encodeText number bytes).length := by
    simp only [encodeText, List.length_append]
    omega
  cases request with
  | phoneReq message =>
    have few := text 1 message.phoneNumber
    simp only [encode] at short ⊢
    rw [← List.append_nil (encodeText 1 message.phoneNumber),
      readFields_field (readField_text (by decide) (by decide) (by omega) []), readFields_nil]
    rfl
  | loginReq message =>
    have few := text 1 message.phoneNumber
    simp only [encode, List.length_append] at short
    rw [encode, readFields_field (readField_text (by decide) (by decide) (by omega) _),
      ← List.append_nil (encodeInt32 2 message.identifier),
      readFields_field (readField_int32 (by decide) (by decide) message.identifier []),
      readFields_nil]
    simp only [Fields.set, if_true, ofNat_toInt]

/-- A request is read back as the client encoded it. -/
theorem parseFromArray_encode (request : Request) (short : (encode request).length < 2 ^ 31) :
    ∃ parse, protobuf.parseFromArray request.type = some parse ∧
      parse (encode request) (UInt32.ofNat (encode request).length).toInt32 = (true, request) := by
  have size : ¬ (UInt32.ofNat (encode request).length).toInt32.toInt < 0 := by
    rw [toInt_size short]
    omega
  have fields := readFields_encode request short
  cases request with
  | phoneReq message =>
    refine ⟨_, if_pos rfl, ?_⟩
    simp only [protobuf, parse, if_neg size, fields]
    rfl
  | loginReq message =>
    refine ⟨_, (if_neg (show ¬ EventType.kLoginReq = .kPhoneReq by decide)).trans (if_pos rfl), ?_⟩
    simp only [protobuf, parse, if_neg size, fields]
    rfl

theorem encode_ne_nil (request : Request) : encode request ≠ [] := by
  cases request <;> simp [encode, encodeText, writeVarint_ne_nil]

end Shbk2.WireFormat
