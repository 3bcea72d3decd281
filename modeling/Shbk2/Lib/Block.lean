import Mathlib.Data.List.Basic

/-! A heap block as the cells `new char[n]` returns: every cell is uninitialized
until a byte is stored in it. Stores outside the block, and loads of cells that
are outside it or uninitialized, have no result. -/

abbrev Block := List (Option UInt8)

namespace Block

def uninitialized (size : Nat) : Block := List.replicate size none

def store (block : Block) (offset : Nat) (bytes : List UInt8) : Option Block :=
  if offset + bytes.length ≤ block.length then
    some (block.take offset ++ bytes.map some ++ block.drop (offset + bytes.length))
  else none

def initialized : List (Option UInt8) → Option (List UInt8)
  | [] => some []
  | none :: _ => none
  | some byte :: rest => (initialized rest).map (byte :: ·)

def load (block : Block) (offset size : Nat) : Option (List UInt8) :=
  if offset + size ≤ block.length then initialized ((block.drop offset).take size) else none

/-- A block of `size` cells whose first cells hold `bytes`, the others untouched. -/
def filled (size : Nat) (bytes : List UInt8) : Block :=
  bytes.map some ++ List.replicate (size - bytes.length) none

/-- The bytes before the first uninitialized cell. -/
def content : Block → List UInt8
  | [] => []
  | none :: _ => []
  | some byte :: rest => byte :: content rest

theorem filled_nil (size : Nat) : filled size [] = uninitialized size := by
  simp [filled, uninitialized]

theorem filled_length {size : Nat} {bytes : List UInt8} (fits : bytes.length ≤ size) :
    (filled size bytes).length = size := by
  simp only [filled, List.length_append, List.length_map, List.length_replicate]
  omega

theorem filled_full {bytes : List UInt8} : filled bytes.length bytes = bytes.map some := by
  rw [filled, Nat.sub_self, List.replicate_zero, List.append_nil]

theorem initialized_map (bytes : List UInt8) : initialized (bytes.map some) = some bytes := by
  induction bytes with
  | nil => rfl
  | cons byte rest ih => simp only [List.map_cons, initialized, ih, Option.map_some]

theorem content_filled (size : Nat) (bytes : List UInt8) : content (filled size bytes) = bytes := by
  induction bytes generalizing size with
  | nil =>
    rw [filled_nil]
    cases size <;> rfl
  | cons byte rest ih =>
    have tail : size - (byte :: rest).length = (size - 1) - rest.length := by
      simp only [List.length_cons]
      omega
    simpa only [filled, List.map_cons, List.cons_append, content, tail, List.cons.injEq, true_and]
      using ih (size - 1)

/-- Storing right behind the bytes already there extends them. -/
theorem store_filled {size : Nat} {bytes more : List UInt8}
    (fits : bytes.length + more.length ≤ size) :
    store (filled size bytes) bytes.length more = some (filled size (bytes ++ more)) := by
  have whole : (filled size bytes).length = size := filled_length (by omega)
  have rest : size - bytes.length - more.length = size - (bytes.length + more.length) := by omega
  rw [store, if_pos (by rw [whole]; exact fits)]
  simp [filled, List.drop_append, rest]

/-- The same for an offset that is computed otherwise. -/
theorem store_behind {size offset : Nat} {bytes more : List UInt8} (behind : offset = bytes.length)
    (fits : offset + more.length ≤ size) :
    store (filled size bytes) offset more = some (filled size (bytes ++ more)) := by
  subst behind
  exact store_filled fits

theorem load_filled {size offset count : Nat} {bytes : List UInt8} (fits : bytes.length ≤ size)
    (within : offset + count ≤ bytes.length) :
    load (filled size bytes) offset count = some ((bytes.drop offset).take count) := by
  have whole := filled_length fits
  have cells : ((filled size bytes).drop offset).take count =
      ((bytes.drop offset).take count).map some := by
    rw [filled, List.drop_append_of_le_length (by simp; omega),
      List.take_append_of_le_length (by simp; omega), List.map_take, List.map_drop]
  rw [load, if_pos (by omega), cells, initialized_map]

end Block
