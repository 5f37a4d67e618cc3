import Mathlib.Data.UInt
import Mathlib.Data.Nat.ModEq

/-! Fixed-width little-endian encodings of natural numbers as bytes.

A width is chosen by the caller; values at or above `256 ^ width` wrap, as an
unchecked integer cast does.
-/

set_option autoImplicit false

namespace Lich.Foundation

/-- The `width` low-order bytes of a value, least significant first. -/
def toLe : (width value : Nat) → List UInt8
  | 0, _ => []
  | width + 1, value => UInt8.ofNat value :: toLe width (value / 256)

def fromLe : List UInt8 → Nat
  | [] => 0
  | byte :: rest => byte.toNat + 256 * fromLe rest

@[simp] theorem toLe_length (width value : Nat) : (toLe width value).length = width := by
  induction width generalizing value with
  | zero => rfl
  | succ width ih => simp [toLe, ih]

theorem fromLe_toLe (width value : Nat) : fromLe (toLe width value) = value % 256 ^ width := by
  induction width generalizing value with
  | zero => simp [toLe, fromLe, Nat.mod_one]
  | succ width ih =>
    have modulus : 256 ^ (width + 1) = 256 * 256 ^ width := Nat.pow_succ'
    rw [toLe, fromLe, ih, UInt8.toNat_ofNat', modulus, Nat.mod_mul]

theorem fromLe_lt (bytes : List UInt8) : fromLe bytes < 256 ^ bytes.length := by
  induction bytes with
  | nil => simp [fromLe]
  | cons byte rest ih =>
    have low := byte.toNat_lt
    simp only [fromLe, List.length_cons, Nat.pow_succ]
    omega

theorem toLe_fromLe (bytes : List UInt8) : toLe bytes.length (fromLe bytes) = bytes := by
  induction bytes with
  | nil => rfl
  | cons byte rest ih =>
    have low := byte.toNat_lt
    have quotient : (byte.toNat + 256 * fromLe rest) / 256 = fromLe rest := by omega
    have digit : UInt8.ofNat (byte.toNat + 256 * fromLe rest) = byte := by
      apply UInt8.toNat_inj.mp
      rw [UInt8.toNat_ofNat']
      omega
    simp only [List.length_cons, toLe, fromLe, quotient, ih, digit]

end Lich.Foundation
