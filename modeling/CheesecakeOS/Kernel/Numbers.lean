import CheesecakeOS.Kernel.Monitor
import CheesecakeOS.Kernel.Commands
/-!
# Printed numbers

`ck_vga_write_number` and `vga_write_uint32` with their buffers on the stack,
which hold any bytes at first. A store that misses its buffer answers `none`.
`Vga` and `Visualizer` have the same functions by the characters they write
(`write_number_eq`, `write_uint32_eq`), and these are the same for both
(`printers_agree`).
-/
open Lib

namespace CheesecakeOS.Shell

/-! ## The source -/

namespace Scratch

def ck_vga_write_number (buf : Vector U8 16) (s : Screen) (num : U32) (color : U8) : Option Screen :=
  if num = 0#32 then some (ck_vga_write_char s 0x30 color)
  else do
    let (buf, len) ← digitLoop buf 0 num
    return readBack buf (fun s c => ck_vga_write_char s c color) len s

/-- The digits in `buffer`, and how many. -/
def uintDigits (buffer : Vector U8 12) (num : U32) : Option (Vector U8 12 × Nat) :=
  if num = 0#32 then (store buffer 0 0x30).map fun buffer => (buffer, 1)
  else placeLoop num buffer 0 false 1000000000#32

def vga_write_uint32 (buffer : Vector U8 12) (s : Screen) (row col : U16) (num : U32) (color : U8) : Option Screen := do
  let (buffer, pos) ← uintDigits buffer num
  let buffer ← store buffer pos 0
  return vga_write_string s row col (cString buffer.toList) color

end Scratch

/-! ## The characters -/

section Numbers
variable {num : U32}

theorem digits_length (num : U32) : (Nat.digits 10 num.toNat).length ≤ 10 :=
  (Nat.digits_length_le_iff (by decide) _).2 (by omega)

theorem numeral_length (num : U32) : (numeral num.toNat).length ≤ 10 := (numeral_length_le (by decide)).2 (by omega)

/-- The buffer of 16 bytes is not overrun, and the number goes out first digit first. -/
theorem write_number_eq (buf : Vector U8 16) (s : Screen) (num : U32) (color : U8) :
    Scratch.ck_vga_write_number buf s num color = some (ck_vga_write_number s num color) := by
  unfold Scratch.ck_vga_write_number ck_vga_write_number
  by_cases h : num = 0#32
  · rw [if_pos h, if_pos h]
  · obtain ⟨buf', len, hloop, hread⟩ := digitLoop_readBack buf (n := num) ((digits_length num).trans (by decide))
      (fun s c => ck_vga_write_char s c color) s
    rw [if_neg h, if_neg h, hloop]
    exact congrArg some hread

/-- Characters of a numeral do not end a string. -/
theorem numeral_ne_zero {n : Nat} {c : U8} (hc : c ∈ numeral n) : c ≠ 0#8 := by
  obtain ⟨d, hd, rfl⟩ := numeral_mem hc
  intro h0
  have hval := asciiDigit_toNat hd
  rw [h0, show (0#8).toNat = 0 from rfl] at hval
  omega

/-- A text in a buffer with room for one more byte, ended by a zero. -/
theorem cString_store {size : Nat} {buf : Vector U8 size} {text : List U8} (hbuf : text <+: buf.toList)
    (hlt : text.length < size) (htext : ∀ c ∈ text, c ≠ 0#8) :
    ∃ buf', store buf text.length 0#8 = some buf' ∧ cString buf'.toList = text := by
  have htake := List.prefix_iff_eq_take.1 hbuf
  refine ⟨buf.set text.length 0#8, dif_pos hlt, ?_⟩
  rw [Vector.toList_set, cString_set_zero (by simpa using hlt) (by rw [← htake]; exact htext), ← htake]

theorem uintDigits_spec (buffer : Vector U8 12) (num : U32) :
    ∃ buffer', Scratch.uintDigits buffer num = some (buffer', (numeral num.toNat).length) ∧
      numeral num.toNat <+: buffer'.toList := by
  unfold Scratch.uintDigits
  by_cases h : num = 0#32
  · obtain ⟨buffer', hstore, hbuf⟩ := store_spec (show [] <+: buffer.toList from List.nil_prefix) (by decide) 0x30#8
    rw [if_pos h, show store buffer 0 0x30 = some buffer' from hstore, h]
    exact ⟨buffer', rfl, hbuf⟩
  · have hscan : numeral num.toNat = (scanned num.toNat 10 false).map asciiDigit :=
      numeral_eq_places (BitVec.toNat_pos_of_ne_zero h) (by omega)
    have hlen := numeral_length num
    rw [hscan, List.length_map] at hlen
    obtain ⟨buffer', hloop, hbuf⟩ := placeLoop_spec (n := num) (k := 10) false
      (show [] <+: buffer.toList from List.nil_prefix) (show (1000000000#32).toNat = 10 ^ 10 / 10 from rfl)
      (by rw [List.length_nil]; omega)
    rw [List.length_nil, Nat.zero_add] at hloop
    rw [if_neg h, hscan, List.length_map]
    exact ⟨buffer', hloop, hbuf⟩

/-- The buffer of 12 bytes is not overrun, and its string is the numeral. -/
theorem write_uint32_eq (buffer : Vector U8 12) (s : Screen) (row col : U16) (num : U32) (color : U8) :
    Scratch.vga_write_uint32 buffer s row col num color = some (vga_write_uint32 s row col num color) := by
  have hlen := numeral_length num
  obtain ⟨buffer', hdigits, hbuf⟩ := uintDigits_spec buffer num
  obtain ⟨buffer'', hend, htext⟩ := cString_store hbuf (by omega) fun c hc => numeral_ne_zero hc
  unfold Scratch.vga_write_uint32 vga_write_uint32
  rw [hdigits, uintChars_eq]
  show (store buffer' (numeral num.toNat).length 0#8).bind _ = _
  rw [hend, Option.bind_some, htext]
  rfl

theorem write_number_numeral (s : Screen) (num : U32) (color : U8) :
    ck_vga_write_number s num color = (numeral num.toNat).foldl (fun s c => ck_vga_write_char s c color) s := by
  unfold ck_vga_write_number
  by_cases h : num = 0#32
  · rw [if_pos h, h]
    rfl
  · rw [if_neg h, digitChars_reverse h]

end Numbers

/-- For all numbers and all that the buffers may have held: the shell writes the
characters of the decimal numeral one after the other, and the monitor writes
the same ones side by side, where the row has room for them, and nothing else.
Neither misses its buffer. -/
theorem printers_agree (num : U32) (color : U8) (buf : Vector U8 16) (buffer : Vector U8 12) (s : Screen) (row col : U16) :
    Scratch.ck_vga_write_number buf s num color =
      some ((numeral num.toNat).foldl (fun s c => ck_vga_write_char s c color) s) ∧
    ∃ s', Scratch.vga_write_uint32 buffer s row col num color = some s' ∧
      (row.toNat < 25 → col.toNat + (numeral num.toNat).length ≤ 80 →
        (∀ i c, (numeral num.toNat)[i]? = some c → s'.cells (row.toNat * 80 + col.toNat + i) = cell color c) ∧
        ∀ x, x < row.toNat * 80 + col.toNat ∨ row.toNat * 80 + col.toNat + (numeral num.toNat).length ≤ x →
          s'.cells x = s.cells x) := by
  rw [write_number_eq, write_number_numeral]
  refine ⟨rfl, _, write_uint32_eq buffer s row col num color, fun hrow hcol => ⟨fun i c hi => ?_, fun x hx => ?_⟩⟩
  · have hlt : i < (numeral num.toNat).length := (List.getElem?_eq_some_iff.1 hi).1
    rw [vga_write_uint32, uintChars_eq, write_string_at hrow i rfl (by omega), hi]
    rfl
  · rw [vga_write_uint32, uintChars_eq]
    exact write_string_outside hrow (by omega) (by omega)

/-- The last ten cells of a row, the first and the last of them looked at. -/
theorem printers_agree_ten : numeral 4000000007 = utf8 "4000000007" ∧
    ∃ s', Scratch.vga_write_uint32 (.replicate 12 0xFF) newShell.screen 12 70 4000000007 VGA_COLOR_YELLOW = some s' ∧
      s'.cells 1030 = cell VGA_COLOR_YELLOW 0x34 ∧ s'.cells 1039 = cell VGA_COLOR_YELLOW 0x37 := by
  have htext : numeral 4000000007 = utf8 "4000000007" := by decide +kernel
  obtain ⟨-, s', hs', hroom⟩ := printers_agree 4000000007 VGA_COLOR_YELLOW (.replicate 16 0xFF) (.replicate 12 0xFF)
    newShell.screen 12 70
  obtain ⟨hcells, -⟩ := hroom (by decide) (by decide +kernel)
  exact ⟨htext, s', hs', hcells 0 0x34 (by decide +kernel), hcells 9 0x37 (by decide +kernel)⟩

end CheesecakeOS.Shell
