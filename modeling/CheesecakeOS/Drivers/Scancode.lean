import CheesecakeOS.Lib.Words
/-!
# Scancodes

The tables of `drivers/scancode.c`, by rows of 16 codes, and the translation
of `drivers/scancode.h`. The last 128 entries, of the break codes, are zero.
-/
open Lib

namespace CheesecakeOS

/-- Unshifted. -/
def ck_scancode_table : List U8 :=
  [0x00, 0x1B, 0x31, 0x32, 0x33, 0x34, 0x35, 0x36, 0x37, 0x38, 0x39, 0x30, 0x2D, 0x3D, 0x08, 0x09,
   0x71, 0x77, 0x65, 0x72, 0x74, 0x79, 0x75, 0x69, 0x6F, 0x70, 0x5B, 0x5D, 0x0A, 0x00, 0x61, 0x73,
   0x64, 0x66, 0x67, 0x68, 0x6A, 0x6B, 0x6C, 0x3B, 0x27, 0x60, 0x00, 0x5C, 0x7A, 0x78, 0x63, 0x76,
   0x62, 0x6E, 0x6D, 0x2C, 0x2E, 0x2F, 0x00, 0x2A, 0x00, 0x20, 0x00, 0x00, 0x00, 0x00, 0x00, 0x00,
   0x00, 0x00, 0x00, 0x00, 0x00, 0x00, 0x00, 0x37, 0x38, 0x39, 0x2D, 0x34, 0x35, 0x36, 0x2B, 0x31,
   0x32, 0x33, 0x30, 0x2E, 0x00, 0x00, 0x00, 0x00, 0x00, 0x00, 0x00, 0x00, 0x00, 0x00, 0x00, 0x00,
   0x00, 0x00, 0x00, 0x00, 0x00, 0x00, 0x00, 0x00, 0x00, 0x00, 0x00, 0x00, 0x00, 0x00, 0x00, 0x00,
   0x00, 0x00, 0x00, 0x00, 0x00, 0x00, 0x00, 0x00, 0x00, 0x00, 0x00, 0x00, 0x00, 0x00, 0x00, 0x00] ++
  List.replicate 128 0

/-- Shifted. -/
def ck_scancode_table_shifted : List U8 :=
  [0x00, 0x1B, 0x21, 0x40, 0x23, 0x24, 0x25, 0x5E, 0x26, 0x2A, 0x28, 0x29, 0x5F, 0x2B, 0x08, 0x09,
   0x51, 0x57, 0x45, 0x52, 0x54, 0x59, 0x55, 0x49, 0x4F, 0x50, 0x7B, 0x7D, 0x0A, 0x00, 0x41, 0x53,
   0x44, 0x46, 0x47, 0x48, 0x4A, 0x4B, 0x4C, 0x3A, 0x22, 0x7E, 0x00, 0x7C, 0x5A, 0x58, 0x43, 0x56,
   0x42, 0x4E, 0x4D, 0x3C, 0x3E, 0x3F, 0x00, 0x2A, 0x00, 0x20, 0x00, 0x00, 0x00, 0x00, 0x00, 0x00,
   0x00, 0x00, 0x00, 0x00, 0x00, 0x00, 0x00, 0x37, 0x38, 0x39, 0x2D, 0x34, 0x35, 0x36, 0x2B, 0x31,
   0x32, 0x33, 0x30, 0x2E, 0x00, 0x00, 0x00, 0x00, 0x00, 0x00, 0x00, 0x00, 0x00, 0x00, 0x00, 0x00,
   0x00, 0x00, 0x00, 0x00, 0x00, 0x00, 0x00, 0x00, 0x00, 0x00, 0x00, 0x00, 0x00, 0x00, 0x00, 0x00,
   0x00, 0x00, 0x00, 0x00, 0x00, 0x00, 0x00, 0x00, 0x00, 0x00, 0x00, 0x00, 0x00, 0x00, 0x00, 0x00] ++
  List.replicate 128 0

def ck_scancode_to_ascii (scancode shift_pressed : U8) : U8 :=
  if shift_pressed ≠ 0#8 then ck_scancode_table_shifted[scancode.toNat]?.getD 0
  else ck_scancode_table[scancode.toNat]?.getD 0

example : ck_scancode_table.length = 256 ∧ ck_scancode_table_shifted.length = 256 := by decide +kernel

/-- A key that shift changes. -/
def ShiftMatters (scancode : U8) : Prop := ck_scancode_to_ascii scancode 0#8 ≠ ck_scancode_to_ascii scancode 1#8

instance (scancode : U8) : Decidable (ShiftMatters scancode) := inferInstanceAs (Decidable (_ ≠ _))

/-- Whether a key gives a character does not depend on shift. -/
theorem to_ascii_eq_zero_iff (scancode f g : U8) :
    ck_scancode_to_ascii scancode f = 0#8 ↔ ck_scancode_to_ascii scancode g = 0#8 := by
  have hzeros : ck_scancode_table_shifted.map (· == 0#8) = ck_scancode_table.map (· == 0#8) := by decide +kernel
  have htables : ∀ c : U8,
      ck_scancode_table_shifted[c.toNat]?.getD 0 = 0#8 ↔ ck_scancode_table[c.toNat]?.getD 0 = 0#8 := by
    intro c
    have hentry := congrArg (·[c.toNat]?) hzeros
    simp only [List.getElem?_map] at hentry
    cases hshifted : ck_scancode_table_shifted[c.toNat]? <;> cases hplain : ck_scancode_table[c.toNat]? <;>
      simp_all
  have hshift : ∀ f : U8, ck_scancode_to_ascii scancode f = 0#8 ↔ ck_scancode_table[scancode.toNat]?.getD 0 = 0#8 := by
    intro f
    unfold ck_scancode_to_ascii
    split
    · exact htables scancode
    · rfl
  rw [hshift f, hshift g]

end CheesecakeOS
