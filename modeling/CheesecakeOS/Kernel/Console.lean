import CheesecakeOS.Interrupts.Exceptions
import CheesecakeOS.Kernel.Terminal
/-!
# The console of the boot messages

`kernel/ck_kernel.c` has output functions of its own, for the time before the
shell. They do not scroll: what comes after the last row is not shown. The cursor
goes on counting rows there, in 16 bits, and after row 818 it is back in row 0.
`boot_console`: up to there the screen shows the first 25 rows of the terminal.
-/
open Lib

namespace CheesecakeOS

/-- The adapter and the static of `ck_kernel.c`. -/
structure Console where
  screen : Shell.Screen
  ck_boot_cursor : U16

namespace Console

open Shell (Terminal Out blank cell COLOR_WHITE)

abbrev VGA_WIDTH : Nat := 80
abbrev VGA_HEIGHT : Nat := 25
abbrev VGA_MEMSIZE : Nat := VGA_WIDTH * VGA_HEIGHT

/-! ## The source -/

def ck_vga_clear_screen (s : Console) : Console :=
  ⟨forRange 0 VGA_MEMSIZE s.screen fun s i => s.write i blank, 0⟩

def ck_vga_write_char (s : Console) (c : U8) : Console :=
  if s.ck_boot_cursor.toNat ≥ VGA_MEMSIZE then s
  else ⟨s.screen.write s.ck_boot_cursor.toNat (cell COLOR_WHITE c), s.ck_boot_cursor + 1⟩

/-- A character of `ck_vga_write_string`. -/
def put (s : Console) (c : U8) : Console :=
  if c = 0x0A#8 then
    let line := s.ck_boot_cursor.toNat / VGA_WIDTH
    { s with ck_boot_cursor := .ofNat 16 ((line + 1) * VGA_WIDTH) }
  else ck_vga_write_char s c

def ck_vga_write_string (s : Console) (str : List U8) : Console := str.foldl put s

/-- The messages of `ck_main`. -/
def mainMessages : List String :=
  ["CheesecakeOS v1.0\n", "Initializing IDT...\n", "Initializing PIC...\n", "Initializing IRQs...\n",
    "Initializing Timer...\n", "Initializing Keyboard...\n", "Initializing Memory Manager...\n",
    "Initializing Scheduler...\n", "\nSystem Ready.\n"]

/-! ## The first rows of the terminal -/

/-- The same on the terminal. -/
def out (c : U8) : Out := if c = 0x0A#8 then .newline else .char c COLOR_WHITE

/-- After some text with `n` newlines. Behind the last row the cursor and the index of the terminal differ. -/
structure Clipped (n : Nat) (t : Terminal) (s : Console) : Prop where
  cells : ∀ i, i < 2000 → s.screen.cells i = t.cells i
  inside : s.ck_boot_cursor.toNat < 2000 → s.ck_boot_cursor.toNat = t.index
  behind : 2000 ≤ s.ck_boot_cursor.toNat → 2000 ≤ t.index
  rows : s.ck_boot_cursor.toNat ≤ 2000 + 80 * n

section Put
variable {n : Nat} {t : Terminal} {s : Console}

theorem clipped_clear (s : Console) : Clipped 0 .clear (ck_vga_clear_screen s) := by
  obtain ⟨hcells, -, -⟩ := Shell.fill_cells s.screen blank (Nat.zero_le VGA_MEMSIZE)
  have hzero : (ck_vga_clear_screen s).ck_boot_cursor.toNat = 0 := rfl
  refine ⟨fun i hi => ?_, fun _ => rfl, fun h => ?_, ?_⟩
  · unfold ck_vga_clear_screen
    dsimp only
    rw [hcells, if_pos ⟨Nat.zero_le i, hi⟩]
    rfl
  · omega
  · omega

theorem Clipped.newline (h : Clipped n t s) (hn : n < 794) : Clipped (n + 1) (t.put .newline) (put s 0x0A#8) := by
  have hrows := h.rows
  have hnext : (put s 0x0A#8).ck_boot_cursor.toNat = (s.ck_boot_cursor.toNat / 80 + 1) * 80 := by
    show (BitVec.ofNat 16 ((s.ck_boot_cursor.toNat / 80 + 1) * 80)).toNat = _
    rw [BitVec.toNat_ofNat]
    -- With fewer than 794 newlines the cursor does not come round.
    exact Nat.mod_eq_of_lt (by omega)
  have hindex : (t.put .newline).index = (t.index / 80 + 1) * 80 := rfl
  have hbehind := h.behind
  have hinside := h.inside
  refine ⟨h.cells, fun hin => ?_, fun hout => ?_, ?_⟩
  · rw [hnext] at hin ⊢
    rw [hindex, hinside (by omega)]
  · rw [hnext] at hout
    rw [hindex]
    by_cases hlow : s.ck_boot_cursor.toNat < 2000
    · rw [← hinside hlow]
      exact hout
    · have hpast := hbehind (by omega)
      omega
  · rw [hnext]
    omega

theorem Clipped.char (h : Clipped n t s) {c : U8} (hc : c ≠ 0x0A#8) :
    Clipped n (t.put (.char c COLOR_WHITE)) (put s c) := by
  unfold put ck_vga_write_char
  rw [if_neg hc]
  split
  · next hpast =>
    -- The console drops the character, and the terminal puts it below the 25 rows.
    have hpast : 2000 ≤ s.ck_boot_cursor.toNat := hpast
    have hindex := h.behind hpast
    refine ⟨fun i hi => ?_, fun hlow => by omega, fun _ => Nat.le_succ_of_le hindex, h.rows⟩
    show _ = Function.update t.cells t.index (cell COLOR_WHITE c) i
    rw [Function.update_of_ne (by omega)]
    exact h.cells i hi
  · next hlow =>
    have hlow : s.ck_boot_cursor.toNat < 2000 := Nat.lt_of_not_le hlow
    have hindex := h.inside hlow
    have hnext : (s.ck_boot_cursor + 1).toNat = s.ck_boot_cursor.toNat + 1 := by
      rw [BitVec.toNat_add]
      exact Nat.mod_eq_of_lt (by simp; omega)
    refine ⟨fun i hi => ?_, fun _ => ?_, fun hpast => ?_, ?_⟩
    · show Function.update s.screen.cells _ _ i = Function.update t.cells t.index (cell COLOR_WHITE c) i
      rw [← hindex]
      by_cases hi' : i = s.ck_boot_cursor.toNat
      · rw [hi', Function.update_self, Function.update_self]
      · rw [Function.update_of_ne hi', Function.update_of_ne hi']
        exact h.cells i hi
    · show (s.ck_boot_cursor + 1).toNat = t.index + 1
      omega
    · have hpast : 2000 ≤ (s.ck_boot_cursor + 1).toNat := hpast
      show 2000 ≤ t.index + 1
      omega
    · show (s.ck_boot_cursor + 1).toNat ≤ _
      omega

theorem Clipped.text (str : List U8) : ∀ {n t s}, Clipped n t s → n + str.count 0x0A#8 ≤ 794 →
    Clipped (n + str.count 0x0A#8) ((str.map out).foldl Terminal.put t) (ck_vga_write_string s str) := by
  induction str with
  | nil => intro n t s h _; exact h
  | cons c str ih =>
    intro n t s h hn
    unfold ck_vga_write_string
    rw [List.map_cons, List.foldl_cons, List.foldl_cons, out]
    rw [List.count_cons] at hn ⊢
    by_cases hc : c = 0x0A#8
    · rw [if_pos hc]
      have hnew := h.newline (by simp [hc] at hn; omega)
      rw [← hc] at hnew
      have hrest := ih hnew (by simp [hc] at hn; omega)
      simp only [hc, beq_self_eq_true, if_true] at hrest ⊢
      rw [show n + (str.count 0x0A#8 + 1) = n + 1 + str.count 0x0A#8 by omega]
      exact hrest
    · have hbeq : (c == 0x0A#8) = false := by simp [hc]
      rw [hbeq] at hn ⊢
      rw [if_neg hc]
      exact ih (h.char hc) hn

/-- Nothing is written outside of the screen. -/
theorem extent_string (str : List U8) : ∀ s : Console, (ck_vga_write_string s str).screen.extent ≤ max s.screen.extent 2000 := by
  induction str with
  | nil => intro s; exact Nat.le_max_left _ _
  | cons c str ih =>
    intro s
    have hput : (put s c).screen.extent ≤ max s.screen.extent 2000 := by
      unfold put ck_vga_write_char
      split
      · exact Nat.le_max_left _ _
      · split
        · exact Nat.le_max_left _ _
        · next hlow =>
          have hlow : s.ck_boot_cursor.toNat < 2000 := Nat.lt_of_not_le hlow
          show max s.screen.extent (s.ck_boot_cursor.toNat + 1) ≤ _
          omega
    exact (ih (put s c)).trans (by omega)

end Put

/-- On a cleared console, any texts: nothing is written outside of the 2000 cells of the screen, and with at most
794 newlines the screen shows the first 25 rows of the texts. -/
theorem boot_console (s : Console) (texts : List (List U8)) :
    let s' := texts.foldl ck_vga_write_string (ck_vga_clear_screen s)
    s'.screen.extent ≤ max s.screen.extent 2000 ∧ (texts.flatten.count 0x0A#8 ≤ 794 →
      ∀ i < 2000, s'.screen.cells i = ((texts.flatten.map out).foldl Terminal.put .clear).cells i) := by
  intro s'
  have hflatten : s' = ck_vga_write_string (ck_vga_clear_screen s) texts.flatten := List.foldl_flatten.symm
  rw [hflatten]
  refine ⟨?_, fun hn i hi => ?_⟩
  · obtain ⟨-, hextent, -⟩ := Shell.fill_cells s.screen blank (Nat.zero_le VGA_MEMSIZE)
    have hextent : (ck_vga_clear_screen s).screen.extent ≤ max s.screen.extent 2000 := hextent
    exact (extent_string _ _).trans (by omega)
  · have hclipped := Clipped.text texts.flatten (clipped_clear s) (by omega)
    exact hclipped.cells i hi

theorem boot_console_main :
    let s := (mainMessages.map chars).foldl ck_vga_write_string (ck_vga_clear_screen ⟨Shell.someScreen, 0⟩)
    s.screen.extent ≤ 2000 ∧ ∀ i < 2000, s.screen.cells i =
      (((mainMessages.map chars).flatten.map out).foldl Terminal.put .clear).cells i := by
  obtain ⟨hextent, hcells⟩ := boot_console ⟨Shell.someScreen, 0⟩ (mainMessages.map chars)
  exact ⟨hextent, hcells (by decide)⟩

end Console

end CheesecakeOS
