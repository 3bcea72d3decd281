import Mathlib.Algebra.Group.Nat.Defs
import Mathlib.Data.List.Basic

/-! Fixed-width little-endian numbers as byte lists. Encoding truncates to the
given width; on values that fit, and on lists of the given length, the two
directions are inverse. -/
namespace LittleEndian

def encode : Nat → Nat → List UInt8
  | 0, _ => []
  | width + 1, value => UInt8.ofNat value :: encode width (value / 256)

def decode : List UInt8 → Nat
  | [] => 0
  | byte :: rest => byte.toNat + 256 * decode rest

@[simp] theorem encode_length (width value : Nat) : (encode width value).length = width := by
  induction width generalizing value with
  | zero => rfl
  | succ width ih => simp only [encode, List.length_cons, ih]

theorem decode_encode {width value : Nat} (fits : value < 256 ^ width) :
    decode (encode width value) = value := by
  induction width generalizing value with
  | zero =>
    simp only [Nat.pow_zero] at fits
    simp only [encode, decode]
    omega
  | succ width ih =>
    have tail : value / 256 < 256 ^ width := by
      apply (Nat.div_lt_iff_lt_mul (by decide : 0 < 256)).mpr
      simpa only [Nat.pow_succ] using fits
    simp only [encode, decode, UInt8.toNat_ofNat', ih tail]
    omega

theorem encode_decode {width : Nat} {bytes : List UInt8} (length : bytes.length = width) :
    encode width (decode bytes) = bytes := by
  subst length
  induction bytes with
  | nil => rfl
  | cons byte rest ih =>
    have bound := byte.toNat_lt
    have head : UInt8.ofNat (byte.toNat + 256 * decode rest) = byte := by
      apply UInt8.toNat_inj.mp
      simp only [UInt8.toNat_ofNat']
      omega
    have tail : (byte.toNat + 256 * decode rest) / 256 = decode rest := by omega
    simp only [List.length_cons, encode, decode, head, tail, ih]

theorem decode_lt {width : Nat} {bytes : List UInt8} (length : bytes.length = width) :
    decode bytes < 256 ^ width := by
  subst length
  induction bytes with
  | nil => simp [decode]
  | cons byte rest ih =>
    have bound := byte.toNat_lt
    simp only [decode, List.length_cons, Nat.pow_succ]
    omega

end LittleEndian
