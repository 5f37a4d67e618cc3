import Mathlib.Data.List.Induction

/-! Text as bytes: what is UTF-8, and decimal numerals. -/

set_option autoImplicit false

namespace Lich.Foundation

def Utf8 (bytes : List UInt8) : Prop := (⟨bytes.toArray⟩ : ByteArray).IsValidUTF8

instance (bytes : List UInt8) : Decidable (Utf8 bytes) :=
  inferInstanceAs (Decidable (ByteArray.IsValidUTF8 _))

theorem char_of_ascii : ∀ code : Fin 128,
    (Char.ofNat code).utf8Size = 1 ∧ (Char.ofNat code).toUInt8 = UInt8.ofNat code := by
  decide

theorem utf8_of_ascii {bytes : List UInt8} (plain : ∀ byte ∈ bytes, byte < 128) : Utf8 bytes := by
  induction bytes using List.reverseRecOn with
  | nil => decide
  | append_singleton front last ih =>
    have small : last.toNat < 128 := plain last (by simp)
    obtain ⟨size, char⟩ := char_of_ascii ⟨last.toNat, small⟩
    have pushed := (ih fun byte member => plain byte (by simp [member])).push size
    rw [char, UInt8.ofNat_toNat] at pushed
    rw [Utf8, ← List.push_toArray]
    exact pushed

def isDigit (byte : UInt8) : Bool := 48 ≤ byte && byte ≤ 57

def decimal (digits : List UInt8) : Nat :=
  digits.foldl (fun value digit => value * 10 + (digit.toNat - 48)) 0

theorem isDigit_bounds {byte : UInt8} (digit : isDigit byte = true) : 48 ≤ byte ∧ byte ≤ 57 := by
  simpa [isDigit] using digit

theorem utf8_of_digits {digits : List UInt8} (numeral : ∀ byte ∈ digits, isDigit byte = true) :
    Utf8 digits :=
  utf8_of_ascii fun byte member =>
    UInt8.lt_of_le_of_lt (isDigit_bounds (numeral byte member)).2 (by decide)

end Lich.Foundation
