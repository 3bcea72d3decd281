import Shbk2.Messages
import Shbk2.WireFormat

/-! The wire format as a protobuf runtime, for runs that are evaluated. -/
namespace Shbk2.WireFormat
open Proto

/-- How many bytes a base-128 number takes: seven bits each. -/
def varintSize (n : Nat) : Nat := n.log2 / 7 + 1

/-- What the value of a field on the wire is for a field of that kind. -/
def read : Kind → Value → Option Content
  | .int32, .number n => some (.int32 (Int32.ofNat n))
  | .string, .text bytes => some (.string bytes)
  | _, _ => none

theorem kind_read {kind : Kind} {value : Value} {c : Content} (accepted : read kind value = some c) :
    kind = c.kind := by
  unfold read at accepted
  split at accepted
  · exact Option.some.inj accepted ▸ rfl
  · exact Option.some.inj accepted ▸ rfl
  · contradiction

/-- A field that is not in the table, or that has the wire type of another kind, is unknown. -/
def set {t : Table} (m : Message t) (number : Nat) (value : Value) : Message t :=
  match found : t.serialized.find? (·.number = number) with
  | none => m
  | some entry =>
    match accepted : read entry.kind value with
    | none => m
    | some c => m.put
      { number := number
        content := c
        typed := ⟨entry, List.mem_of_find?_eq_some found, by simpa using List.find?_some found,
          kind_read accepted⟩ }

def parseFromArray (t : Table) (data : Bytes) (size : Int32) : Bool × Message t :=
  if size.toInt < 0 then (false, .clear)
  else
    let (wellFormed, m) := readFields set data.length data .clear
    (wellFormed && m.isInitialized, m)

scoped instance runtime : Runtime where
  writeInt32 := encodeInt32
  writeString := encodeText
  int32SizePlusOne value := 1 + varintSize (value.toInt % 2 ^ 64).toNat
  stringSize bytes := varintSize bytes.length + bytes.length
  serializeToArray bytes byteSize size := if (byteSize : Int) ≤ size.toInt then bytes else []
  serializeAsString bytes _ := bytes
  parseFromArray := parseFromArray

section Varint
variable {limit n : Nat}

theorem varintSize_small (low : n < 128) : varintSize n = 1 := by
  by_cases zero : n = 0
  · subst zero
    decide
  · have bits : n.log2 < 7 := (Nat.log2_lt zero).mpr low
    rw [varintSize]
    omega

theorem varintSize_large (high : ¬ n < 128) : varintSize n = varintSize (n / 128) + 1 := by
  obtain ⟨least, most⟩ := (Nat.log2_eq_iff (n := n / 128) (by omega)).mp rfl
  have bits : n.log2 = (n / 128).log2 + 7 := by
    rw [Nat.log2_eq_iff (by omega)]
    simp only [Nat.pow_succ] at least most ⊢
    omega
  rw [varintSize, varintSize, bits]
  omega

theorem writeVarint_length (fits : n < 128 ^ (limit + 1)) :
    (writeVarint (limit + 1) n).length = varintSize n := by
  induction limit generalizing n with
  | zero =>
    have low : n < 128 := by simpa using fits
    rw [writeVarint, if_pos low, varintSize_small low]
    rfl
  | succ limit ih =>
    rw [writeVarint]
    split
    · rename_i low
      rw [varintSize_small low]
      rfl
    · rename_i high
      have shorter : n / 128 < 128 ^ (limit + 1) := by
        apply (Nat.div_lt_iff_lt_mul (by decide : 0 < 128)).mpr
        simpa only [Nat.pow_succ] using fits
      rw [List.length_cons, ih shorter, varintSize_large high]

theorem varintSize_le {n : Nat} (fits : n < 2 ^ 64) : varintSize n ≤ 10 := by
  by_cases zero : n = 0
  · subst zero
    decide
  · have bits : n.log2 < 64 := (Nat.log2_lt zero).mpr fits
    rw [varintSize]
    omega

end Varint

/-- The value on the wire that a content is written as. -/
def value : Content → Value
  | .int32 value => .number (value.toInt % 2 ^ 64).toNat
  | .string bytes => .text bytes

section Field
variable {t : Table} {m : Message t}

theorem numbered (field : Field t) : 0 < field.number ∧ field.number < 16 := by
  obtain ⟨entry, member, same, _⟩ := field.typed
  exact same ▸ t.numbered entry member

theorem find_mem {entry : Entry} (member : entry ∈ t.serialized) :
    t.serialized.find? (·.number = entry.number) = some entry := by
  obtain ⟨found, get⟩ : ∃ found, t.serialized.find? (·.number = entry.number) = some found := by
    apply Option.ne_none_iff_exists'.mp
    intro none
    exact absurd (List.find?_eq_none.mp none entry member) (by simp)
  have number : found.number = entry.number := by simpa using List.find?_some get
  have same : found = entry :=
    List.inj_on_of_nodup_map t.distinct (List.mem_of_find?_eq_some get) member number
  rw [get, same]

theorem read_value (c : Content) : read c.kind (value c) = some c := by
  cases c with
  | int32 value => exact congrArg (some ∘ Content.int32) (ofNat_toInt value)
  | string bytes => rfl

/-- A field is read as it was before it was written. -/
theorem set_value (field : Field t) : set m field.number (value field.content) = m.put field := by
  obtain ⟨number, c, entry, member, rfl, kind⟩ := field
  have found := find_mem member
  have accepted : read entry.kind (value c) = some c := kind ▸ read_value c
  unfold set
  split
  · rename_i none
    rw [found] at none
    contradiction
  · rename_i other again
    obtain rfl := Option.some.inj (found.symm.trans again)
    split
    · rename_i none
      rw [accepted] at none
      contradiction
    · rename_i d twice
      obtain rfl := Option.some.inj (accepted.symm.trans twice)
      rfl

theorem readField_encode (field : Field t) (short : field.content.Short) (rest : Bytes) :
    readField (field.encode ++ rest) = some (field.number, value field.content, rest) := by
  obtain ⟨positive, small⟩ := numbered field
  rw [Field.encode]
  cases content : field.content with
  | int32 value => exact readField_int32 positive (by omega) value rest
  | string bytes =>
    rw [content] at short
    exact readField_text positive (by omega) short rest

theorem readFields_flatMap (fields : List (Field t)) (short : ∀ field ∈ fields, field.content.Short) :
    readFields set (fields.flatMap Field.encode).length (fields.flatMap Field.encode) m =
      (true, fields.foldl .put m) := by
  induction fields generalizing m with
  | nil => rfl
  | cons field fields ih =>
    have one := readField_encode field (short field List.mem_cons_self) (fields.flatMap Field.encode)
    rw [List.flatMap_cons, readFields_field one, set_value, List.foldl_cons]
    exact ih fun other member => short other (List.mem_cons_of_mem _ member)

theorem encodeInt32_length {number : Nat} (small : number < 16) (value : Int32) :
    (encodeInt32 number value).length = 1 + varintSize (value.toInt % 2 ^ 64).toNat := by
  have tag : (writeVarint 5 (8 * number)).length = 1 :=
    (writeVarint_length (by omega)).trans (varintSize_small (by omega))
  have digits : (writeVarint 10 (value.toInt % 2 ^ 64).toNat).length =
      varintSize (value.toInt % 2 ^ 64).toNat := writeVarint_length (by omega)
  rw [encodeInt32, List.length_append, tag, digits]

theorem encodeText_length {number : Nat} {bytes : Bytes} (small : number < 16)
    (short : bytes.length < 2 ^ 31) :
    (encodeText number bytes).length = 1 + (varintSize bytes.length + bytes.length) := by
  have tag : (writeVarint 5 (8 * number + 2)).length = 1 :=
    (writeVarint_length (by omega)).trans (varintSize_small (by omega))
  have count : (writeVarint 5 bytes.length).length = varintSize bytes.length :=
    writeVarint_length (by omega)
  rw [encodeText, List.length_append, List.length_append, tag, count]

theorem short_of_length {fields : List (Field t)}
    (fits : (fields.flatMap Field.encode).length < 2 ^ 31) (field : Field t) (member : field ∈ fields) :
    field.content.Short := by
  cases content : field.content with
  | int32 => trivial
  | string bytes =>
    have part : (encodeText field.number bytes).length ≤ (fields.flatMap Field.encode).length := by
      obtain ⟨before, after, rfl⟩ := List.append_of_mem member
      have written : field.encode = encodeText field.number bytes := by
        rw [Field.encode, content]
        rfl
      simp only [List.flatMap_append, List.flatMap_cons, List.length_append, written]
      omega
    have text : bytes.length ≤ (encodeText field.number bytes).length := by
      simp only [encodeText, List.length_append]
      omega
    exact show bytes.length < 2 ^ 31 by omega

end Field

/-- The wire format does what is documented. -/
scoped instance : Runtime.Documented where
  writeInt32_length _ value _ small := encodeInt32_length small value
  writeString_length _ _ _ small short := encodeText_length small short
  int32_size value := by
    have digits := varintSize_le (n := (value.toInt % 2 ^ 64).toNat) (by omega)
    simp only [Runtime.int32SizePlusOne]
    omega
  string_size bytes := Nat.le_add_left _ _
  string_short bytes short := by
    simp only [Runtime.stringSize, varintSize_small short]
    omega
  serializeToArray _ _ fits := if_pos fits
  serializeAsString _ _ := rfl
  parseFromArray t fields fits := by
    have nonneg : ¬ (UInt32.ofNat (fields.flatMap Field.encode).length).toInt32.toInt < 0 := by
      rw [toInt_size fits]
      omega
    have all := readFields_flatMap (m := .clear) fields (short_of_length fits)
    simp only [Runtime.parseFromArray, parseFromArray, if_neg nonneg, all, Bool.true_and]

/-- Two responses, one behind the other. -/
theorem parse_serialize_phoneRes :
    Runtime.parseFromArray phoneRes
        ((PhoneRes.object ⟨200, "ok.", 123456⟩).serialize ++ (PhoneRes.object ⟨402, "", 7⟩).serialize)
        (UInt32.ofNat ((PhoneRes.object ⟨200, "ok.", 123456⟩).byteSizeLong +
          (PhoneRes.object ⟨402, "", 7⟩).byteSizeLong)).toInt32 =
      (((PhoneRes.object ⟨200, "ok.", 123456⟩).mergeFrom (PhoneRes.object ⟨402, "", 7⟩)).isInitialized,
        (PhoneRes.object ⟨200, "ok.", 123456⟩).mergeFrom (PhoneRes.object ⟨402, "", 7⟩)) :=
  (Message.parse_serialize _ _ (by decide)).2.2

end Shbk2.WireFormat
