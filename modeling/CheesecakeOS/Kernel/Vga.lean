import Mathlib.Data.Nat.Digits.Defs
import Mathlib.Logic.Function.Basic
import CheesecakeOS.Lib.Words
/-!
# The shell's screen

The output functions of `kernel/shell.c`. A screen is the text buffer of the
VGA adapter, the registers of its CRT controller and the shell's cursor. The
buffer has a cell at every index; `extent` tells how far it has been written.

After the source comes what a character and a newline do (`write_char_inside`,
`write_char_scroll`, `newline_spec`), and that every call is a sequence of these.
-/
open Lib

namespace CheesecakeOS.Shell

abbrev VGA_WIDTH : Nat := 80
abbrev VGA_CURSOR_CMD : U16 := 0x3D4#16
abbrev VGA_CURSOR_DATA : U16 := 0x3D5#16
abbrev COLOR_WHITE : U8 := 0x0F#8
abbrev COLOR_GREEN : U8 := 0x0A#8
abbrev COLOR_YELLOW : U8 := 0x0E#8
abbrev COLOR_RED : U8 := 0x0C#8

/-- `(color << 8) | c`. -/
def cell (color c : U8) : U16 := color ++ c

/-- A white space. -/
abbrev blank : U16 := cell COLOR_WHITE 0x20

structure Screen where
  /-- `VGA_BUFFER`. -/
  cells : Nat → U16
  /-- One more than the highest index written. -/
  extent : Nat
  crtc_index : U8
  crtc : U8 → U8
  ck_cursor_pos : U16

namespace Screen

/-- `VGA_BUFFER[i] = w;` -/
def write (s : Screen) (i : Nat) (w : U16) : Screen :=
  { s with cells := Function.update s.cells i w, extent := max s.extent (i + 1) }

/-- Where the adapter shows the cursor. -/
def hwCursor (s : Screen) : U16 := s.crtc 0x0E ++ s.crtc 0x0F

end Screen

/-! ## The source -/

def ck_outb (s : Screen) (port : U16) (value : U8) : Screen :=
  if port = VGA_CURSOR_CMD then { s with crtc_index := value }
  else if port = VGA_CURSOR_DATA then { s with crtc := Function.update s.crtc s.crtc_index value }
  else s

def ck_vga_update_hw_cursor (s : Screen) : Screen :=
  let pos := s.ck_cursor_pos
  let s := ck_outb s VGA_CURSOR_CMD 0x0F
  let s := ck_outb s VGA_CURSOR_DATA ((pos &&& 0xFF#16).setWidth 8)
  let s := ck_outb s VGA_CURSOR_CMD 0x0E
  ck_outb s VGA_CURSOR_DATA (((pos >>> 8) &&& 0xFF#16).setWidth 8)

def ck_vga_clear_line (s : Screen) (line : Nat) : Screen :=
  let start := line * VGA_WIDTH
  forRange start (start + VGA_WIDTH) s fun s i => s.write i blank

/-- The branch of `ck_vga_write_char` for a cursor behind the last row. -/
def ck_vga_scroll (s : Screen) : Screen :=
  let s := forRange 0 (24 * VGA_WIDTH) s fun s i => s.write i (s.cells (i + VGA_WIDTH))
  let s := ck_vga_clear_line s 24
  { s with ck_cursor_pos := .ofNat 16 (24 * VGA_WIDTH) }

def ck_vga_write_char (s : Screen) (c color : U8) : Screen :=
  let s := if s.ck_cursor_pos.toNat ≥ 25 * VGA_WIDTH then ck_vga_scroll s else s
  let s := s.write s.ck_cursor_pos.toNat (cell color c)
  ck_vga_update_hw_cursor { s with ck_cursor_pos := s.ck_cursor_pos + 1 }

def ck_vga_newline (s : Screen) : Screen :=
  let line := s.ck_cursor_pos.toNat / VGA_WIDTH
  ck_vga_update_hw_cursor { s with ck_cursor_pos := .ofNat 16 ((line + 1) * VGA_WIDTH) }

/-- The newline branch has the body of `ck_vga_newline`. -/
def ck_vga_write_string (s : Screen) (text : List U8) (color : U8) : Screen :=
  text.foldl (fun s c => if c = 0x0A#8 then ck_vga_newline s else ck_vga_write_char s c color) s

/-- The digits of a number, last one first, as the loop puts them in `buf`. -/
def digitChars (num : U32) : List U8 := (Nat.digits 10 num.toNat).map fun d => 0x30#8 + .ofNat 8 d

def ck_vga_write_number (s : Screen) (num : U32) (color : U8) : Screen :=
  if num = 0#32 then ck_vga_write_char s 0x30 color
  else (digitChars num).reverse.foldl (fun s c => ck_vga_write_char s c color) s

def ck_vga_clear_screen (s : Screen) : Screen :=
  let s := forRange 0 (25 * VGA_WIDTH) s fun s i => s.write i blank
  ck_vga_update_hw_cursor { s with ck_cursor_pos := 0 }

/-! ## The cursor registers -/

/-- The registers get the cursor; nothing else changes. -/
theorem update_hw_cursor_spec (s : Screen) : (ck_vga_update_hw_cursor s).cells = s.cells ∧
    (ck_vga_update_hw_cursor s).extent = s.extent ∧
    (ck_vga_update_hw_cursor s).ck_cursor_pos = s.ck_cursor_pos ∧
    (ck_vga_update_hw_cursor s).hwCursor = s.ck_cursor_pos := by
  refine ⟨rfl, rfl, rfl, ?_⟩
  have hhigh : (ck_vga_update_hw_cursor s).crtc 0x0E = s.ck_cursor_pos.extractLsb' 8 8 := by
    apply BitVec.eq_of_toNat_eq
    show (((s.ck_cursor_pos >>> 8) &&& 0xFF#16).setWidth 8).toNat = _
    rw [BitVec.toNat_setWidth, BitVec.toNat_and, BitVec.toNat_ushiftRight, BitVec.extractLsb'_toNat]
    exact (congrArg (· % 2 ^ 8) (Nat.and_two_pow_sub_one_eq_mod (s.ck_cursor_pos.toNat >>> 8) 8)).trans (Nat.mod_mod _ _)
  have hlow : (ck_vga_update_hw_cursor s).crtc 0x0F = s.ck_cursor_pos.extractLsb' 0 8 := by
    apply BitVec.eq_of_toNat_eq
    show ((s.ck_cursor_pos &&& 0xFF#16).setWidth 8).toNat = _
    rw [BitVec.toNat_setWidth, BitVec.toNat_and, BitVec.extractLsb'_toNat]
    exact (congrArg (· % 2 ^ 8) (Nat.and_two_pow_sub_one_eq_mod s.ck_cursor_pos.toNat 8)).trans (Nat.mod_mod _ _)
  rw [Screen.hwCursor, hhigh, hlow]
  exact BitVec.extractLsb'_append_extractLsb'

/-! ## Loops over cells -/

/-- Writing some cells, as seen from one of them, with the bound of what has been written. -/
theorem fill_cells (s : Screen) (w : U16) {lo hi : Nat} (h : lo ≤ hi) :
    let u := forRange lo hi s fun s i => s.write i w
    (∀ i, u.cells i = if lo ≤ i ∧ i < hi then w else s.cells i) ∧ u.extent ≤ max s.extent hi ∧
      u.ck_cursor_pos = s.ck_cursor_pos := by
  refine forRange_inv (fun k (u : Screen) => (∀ i, u.cells i = if lo ≤ i ∧ i < k then w else s.cells i) ∧
    u.extent ≤ max s.extent k ∧ u.ck_cursor_pos = s.ck_cursor_pos) h ?_ ?_
  · exact ⟨fun i => (if_neg (by omega)).symm, Nat.le_max_left _ _, rfl⟩
  · rintro k u hlo hhi ⟨hu, he, hc⟩
    refine ⟨fun i => ?_, ?_, hc⟩
    · show Function.update u.cells k w i = _
      by_cases hik : i = k
      · rw [hik, Function.update_self, if_pos (by omega)]
      · have hiff : (lo ≤ i ∧ i < k + 1) ↔ lo ≤ i ∧ i < k := by omega
        rw [Function.update_of_ne hik, hu]
        simp only [hiff]
    · show max u.extent (k + 1) ≤ _
      omega

/-- Cells moved up by a row, from the first on. -/
theorem shift_cells (s : Screen) {n : Nat} :
    let u := forRange 0 n s fun s i => s.write i (s.cells (i + VGA_WIDTH))
    (∀ i, u.cells i = if i < n then s.cells (i + 80) else s.cells i) ∧ u.extent ≤ max s.extent n ∧
      u.ck_cursor_pos = s.ck_cursor_pos := by
  refine forRange_inv (fun k (u : Screen) => (∀ i, u.cells i = if i < k then s.cells (i + 80) else s.cells i) ∧
    u.extent ≤ max s.extent k ∧ u.ck_cursor_pos = s.ck_cursor_pos) (Nat.zero_le n) ?_ ?_
  · exact ⟨fun i => (if_neg (Nat.not_lt_zero _)).symm, Nat.le_max_left _ _, rfl⟩
  · rintro k u - hk ⟨hu, he, hc⟩
    refine ⟨fun i => ?_, ?_, hc⟩
    · show Function.update u.cells k (u.cells (k + 80)) i = _
      by_cases hik : i = k
      · -- The cell below has not been overwritten yet.
        rw [hik, Function.update_self, hu, if_neg (by omega), if_pos (Nat.lt_succ_self k)]
      · have hiff : i < k + 1 ↔ i < k := by omega
        rw [Function.update_of_ne hik, hu]
        simp only [hiff]
    · show max u.extent (k + 1) ≤ _
      omega

/-- One row further down the text. -/
theorem scroll_spec (s : Screen) : (∀ i, i < 1920 → (ck_vga_scroll s).cells i = s.cells (i + 80)) ∧
    (∀ i, 1920 ≤ i → i < 2000 → (ck_vga_scroll s).cells i = blank) ∧
    (ck_vga_scroll s).extent ≤ max s.extent 2000 ∧ (ck_vga_scroll s).ck_cursor_pos = 1920#16 := by
  obtain ⟨hmove, he, -⟩ := shift_cells s (n := 24 * VGA_WIDTH)
  unfold ck_vga_scroll ck_vga_clear_line
  dsimp only
  generalize (forRange 0 (24 * VGA_WIDTH) s fun s i => s.write i (s.cells (i + VGA_WIDTH))) = u at hmove he ⊢
  obtain ⟨hclear, he', -⟩ := fill_cells u blank (Nat.le_add_right (24 * VGA_WIDTH) VGA_WIDTH)
  generalize (forRange (24 * VGA_WIDTH) (24 * VGA_WIDTH + VGA_WIDTH) u fun s i => s.write i blank) = v at hclear he' ⊢
  simp only [VGA_WIDTH] at hmove hclear he he'
  refine ⟨fun i hi => ?_, fun i h1 h2 => ?_, ?_, rfl⟩
  · show v.cells i = _
    rw [hclear, if_neg (by omega), hmove, if_pos (by omega)]
  · show v.cells i = _
    rw [hclear, if_pos (by omega)]
  · show v.extent ≤ _
    omega

/-! ## Characters and newlines -/

section Spec
variable {s : Screen}

/-- A character before the end of the screen. -/
theorem write_char_inside (h : s.ck_cursor_pos.toNat < 2000) (c color : U8) :
    let s' := ck_vga_write_char s c color
    s'.cells = Function.update s.cells s.ck_cursor_pos.toNat (cell color c) ∧
      s'.extent = max s.extent (s.ck_cursor_pos.toNat + 1) ∧
      s'.ck_cursor_pos.toNat = s.ck_cursor_pos.toNat + 1 ∧ s'.hwCursor = s'.ck_cursor_pos := by
  intro s'
  have hs' : s' = ck_vga_update_hw_cursor
      { s.write s.ck_cursor_pos.toNat (cell color c) with ck_cursor_pos := s.ck_cursor_pos + 1 } := by
    simp only [s', ck_vga_write_char]
    rw [if_neg (by simp only [VGA_WIDTH]; omega)]
    rfl
  obtain ⟨h1, h2, h3, h4⟩ := update_hw_cursor_spec
    { s.write s.ck_cursor_pos.toNat (cell color c) with ck_cursor_pos := s.ck_cursor_pos + 1 }
  rw [← hs'] at h1 h2 h3 h4
  refine ⟨h1, h2, ?_, h4.trans h3.symm⟩
  rw [h3, BitVec.toNat_add, show (1 : U16).toNat = 1 from rfl]
  omega

/-- A character behind the last row: one row up, then at the start of the last row. -/
theorem write_char_scroll (h : 2000 ≤ s.ck_cursor_pos.toNat) (c color : U8) :
    let s' := ck_vga_write_char s c color
    s'.cells = Function.update (ck_vga_scroll s).cells 1920 (cell color c) ∧ s'.extent ≤ max s.extent 2000 ∧
      s'.ck_cursor_pos.toNat = 1921 ∧ s'.hwCursor = s'.ck_cursor_pos := by
  intro s'
  obtain ⟨-, -, he, hc⟩ := scroll_spec s
  have hs' : s' = ck_vga_update_hw_cursor { (ck_vga_scroll s).write (ck_vga_scroll s).ck_cursor_pos.toNat (cell color c)
      with ck_cursor_pos := (ck_vga_scroll s).ck_cursor_pos + 1 } := by
    simp only [s', ck_vga_write_char]
    rw [if_pos (by simp only [VGA_WIDTH]; omega)]
    rfl
  generalize ck_vga_scroll s = u at he hc hs' ⊢
  rw [hc] at hs'
  obtain ⟨h1, h2, h3, h4⟩ := update_hw_cursor_spec
    { u.write (1920#16).toNat (cell color c) with ck_cursor_pos := 1920#16 + 1 }
  rw [← hs'] at h1 h2 h3 h4
  refine ⟨h1, ?_, by rw [h3]; rfl, h4.trans h3.symm⟩
  rw [h2]
  show max u.extent ((1920#16).toNat + 1) ≤ _
  rw [show (1920#16).toNat = 1920 from rfl]
  omega

/-- A newline moves the cursor to the start of a row, if that is a 16-bit number. -/
theorem newline_spec (h : s.ck_cursor_pos.toNat < 65520) :
    let s' := ck_vga_newline s
    s'.cells = s.cells ∧ s'.extent = s.extent ∧
      s'.ck_cursor_pos.toNat = (s.ck_cursor_pos.toNat / 80 + 1) * 80 ∧ s'.hwCursor = s'.ck_cursor_pos := by
  intro s'
  obtain ⟨h1, h2, h3, h4⟩ := update_hw_cursor_spec
    { s with ck_cursor_pos := .ofNat 16 ((s.ck_cursor_pos.toNat / VGA_WIDTH + 1) * VGA_WIDTH) }
  refine ⟨h1, h2, ?_, h4.trans h3.symm⟩
  show (ck_vga_update_hw_cursor _).ck_cursor_pos.toNat = _
  rw [h3, BitVec.toNat_ofNat]
  simp only [VGA_WIDTH]
  omega

theorem clear_screen_spec (s : Screen) :
    let s' := ck_vga_clear_screen s
    (∀ i, i < 2000 → s'.cells i = blank) ∧ s'.extent ≤ max s.extent 2000 ∧ s'.ck_cursor_pos = 0 ∧
      s'.hwCursor = s'.ck_cursor_pos := by
  intro s'
  obtain ⟨hfill, he, -⟩ := fill_cells s blank (Nat.zero_le (25 * VGA_WIDTH))
  simp only [s', ck_vga_clear_screen]
  generalize (forRange 0 (25 * VGA_WIDTH) s fun s i => s.write i blank) = u at hfill he ⊢
  obtain ⟨h1, h2, h3, h4⟩ := update_hw_cursor_spec { u with ck_cursor_pos := 0 }
  refine ⟨fun i hi => ?_, by rw [h2]; exact he, h3, h4.trans h3.symm⟩
  rw [h1]
  exact (hfill i).trans (if_pos (by simp only [VGA_WIDTH]; omega))

end Spec

/-! ## The calls, character by character -/

/-- What is written, character by character. -/
inductive Out where
  | newline
  | char (c color : U8)

namespace Out

/-- On the screen. -/
def put (s : Screen) : Out → Screen
  | .newline => ck_vga_newline s
  | .char c color => ck_vga_write_char s c color

end Out

inductive VgaOp where
  | write_string (text : List U8) (color : U8)
  | write_number (num : U32) (color : U8)
  | newline

namespace VgaOp

def run (s : Screen) : VgaOp → Screen
  | .write_string text color => ck_vga_write_string s text color
  | .write_number num color => ck_vga_write_number s num color
  | .newline => ck_vga_newline s

def outs : VgaOp → List Out
  | .write_string text color => text.map fun c => if c = 0x0A#8 then .newline else .char c color
  | .write_number num color =>
    if num = 0#32 then [.char 0x30 color] else (digitChars num).reverse.map (Out.char · color)
  | .newline => [.newline]

end VgaOp

theorem write_string_outs (s : Screen) (text : List U8) (color : U8) : ck_vga_write_string s text color =
    (text.map fun c => if c = 0x0A#8 then Out.newline else Out.char c color).foldl Out.put s := by
  unfold ck_vga_write_string
  rw [List.foldl_map]
  congr 1
  funext s c
  split <;> rfl

theorem run_outs (s : Screen) (op : VgaOp) : op.run s = op.outs.foldl Out.put s := by
  cases op with
  | write_string text color => exact write_string_outs s text color
  | write_number num color =>
    simp only [VgaOp.run, VgaOp.outs, ck_vga_write_number]
    split
    · rfl
    · rw [List.foldl_map]
      rfl
  | newline => rfl

theorem runs_outs (ops : List VgaOp) (s : Screen) : ops.foldl VgaOp.run s = (ops.flatMap VgaOp.outs).foldl Out.put s := by
  rw [List.foldl_flatMap]
  congr 1
  funext s op
  exact run_outs s op

end CheesecakeOS.Shell
