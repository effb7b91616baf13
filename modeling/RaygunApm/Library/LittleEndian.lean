import Mathlib.Data.List.Basic
import Mathlib.Tactic.Ring

/-! # Fixed-width little-endian numbers

A packed record stores each scalar as a fixed number of bytes, least significant byte first.
`encode width value` are the `width` low-order bytes of a number and `decode` reads a byte string
back; it gives the number again if the number fits the width. -/

namespace LittleEndian

/-- The `width` low-order bytes of `value`, least significant first. -/
def encode : Nat → Nat → List UInt8
  | 0, _ => []
  | width + 1, value => UInt8.ofNat value :: encode width (value / 256)

/-- The number a byte string denotes, least significant byte first. -/
def decode : List UInt8 → Nat
  | [] => 0
  | byte :: rest => byte.toNat + 256 * decode rest

@[simp] theorem encode_zero (value : Nat) : encode 0 value = [] := rfl

@[simp] theorem decode_nil : decode [] = 0 := rfl

/-- Cons reading of `decode`: the first byte is the lowest one. -/
theorem decode_cons (byte : UInt8) (rest : List UInt8) :
    decode (byte :: rest) = byte.toNat + 256 * decode rest := rfl

/-- A number is encoded in as many bytes as asked for. -/
@[simp] theorem length_encode (width value : Nat) : (encode width value).length = width := by
  induction width generalizing value with
  | zero => rfl
  | succ width ih => simp [encode, ih]

/-- **Reading back** gives the number modulo the width. -/
theorem decode_encode (width value : Nat) : decode (encode width value) = value % 256 ^ width := by
  induction width generalizing value with
  | zero => simp [Nat.mod_one]
  | succ width ih =>
      have hbyte : (UInt8.ofNat value).toNat = value % 256 := by simp
      rw [encode, decode_cons, ih, hbyte, pow_succ, Nat.mul_comm (256 ^ width) 256,
        Nat.mod_mul]

/-- A number below `256 ^ width` is read back unchanged. -/
theorem decode_encode_of_lt {width value : Nat} (h : value < 256 ^ width) :
    decode (encode width value) = value := by
  rw [decode_encode, Nat.mod_eq_of_lt h]

/-- A number that fits the width is zero if its bytes are. -/
theorem encode_eq_zero_iff {width value : Nat} (h : value < 256 ^ width) :
    (∀ byte ∈ encode width value, byte = 0) ↔ value = 0 := by
  induction width generalizing value with
  | zero =>
      rw [pow_zero, Nat.lt_one_iff] at h
      exact iff_of_true (List.forall_mem_nil _) h
  | succ width ih =>
      rw [pow_succ] at h
      have hbyte : UInt8.ofNat value = 0 ↔ value % 256 = 0 := by
        rw [← UInt8.toNat_inj, UInt8.toNat_ofNat']
        rfl
      rw [encode, List.forall_mem_cons, hbyte, ih (by omega)]
      omega

end LittleEndian
