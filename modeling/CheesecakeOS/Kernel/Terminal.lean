import CheesecakeOS.Lib.Runs
import CheesecakeOS.Kernel.Vga
/-!
# The screen as a window on an unbounded terminal

The ideal terminal is a text without end in rows of 80 columns; it never
scrolls. `scrolling_refines`: after every character the screen shows the 25
rows of it that end with the row of the character (or with row 24), as long as
no character is written with the cursor more than one row past the bottom.
`ck_vga_write_char` moves the text up by one row however far the cursor is
past it, so two newlines in the last row lose a row.
-/
open Lib

namespace CheesecakeOS.Shell

/-- The text and the index of the next character. -/
structure Terminal where
  cells : Nat → U16
  index : Nat

namespace Terminal

def put (t : Terminal) : Out → Terminal
  | .newline => { t with index := (t.index / 80 + 1) * 80 }
  | .char c color => { cells := Function.update t.cells t.index (cell color c), index := t.index + 1 }

/-- A cleared terminal. -/
def clear : Terminal := ⟨fun _ => blank, 0⟩

end Terminal

/-! ## Refinement -/

/-- The rows that have left the screen when `row` is the last one written to. -/
def scrolledOff (row : Nat) : Nat := max 24 row - 24

/-- After a character in row `row`: the screen shows the 25 rows up to there,
and the cursor is where the terminal's is. -/
structure Shows (t : Terminal) (row : Nat) (s : Screen) : Prop where
  rows : ∀ r col, r < 25 → col < 80 → s.cells (80 * r + col) = t.cells (80 * (scrolledOff row + r) + col)
  cursor : s.ck_cursor_pos.toNat + 80 * scrolledOff row = t.index

/-- With `n` rows scrolled off. The cursor does not leave the last row once
there is one, and nothing is written at the index or behind. -/
structure Window (n : Nat) (t : Terminal) (s : Screen) : Prop where
  cells : ∀ i, i < 2000 → s.cells i = t.cells (80 * n + i)
  cursor : s.ck_cursor_pos.toNat + 80 * n = t.index
  last : n = 0 ∨ 1920 ≤ s.ck_cursor_pos.toNat
  unwritten : ∀ j, t.index ≤ j → t.cells j = blank

section Window
variable {n : Nat} {t : Terminal} {s : Screen}

theorem window_clear (s : Screen) : Window 0 .clear (ck_vga_clear_screen s) := by
  obtain ⟨hcells, -, hcur, -⟩ := clear_screen_spec s
  refine ⟨fun i hi => hcells i hi, ?_, .inl rfl, fun _ _ => rfl⟩
  rw [hcur]
  rfl

theorem Window.newline (h : Window n t s) (hc : s.ck_cursor_pos.toNat < 65520) :
    Window n (t.put .newline) (Out.put s .newline) := by
  obtain ⟨hcells, -, hcur, -⟩ := newline_spec hc
  have hindex := h.cursor
  have hlast := h.last
  refine ⟨fun i hi => ?_, ?_, ?_, fun j hj => ?_⟩
  · rw [Out.put, hcells]
    exact h.cells i hi
  · rw [Out.put, hcur]
    show _ = (t.index / 80 + 1) * 80
    omega
  · rw [Out.put, hcur]
    omega
  · apply h.unwritten
    change (t.index / 80 + 1) * 80 ≤ j at hj
    omega

/-- A character on the screen. -/
theorem Window.inside (h : Window n t s) (hc : s.ck_cursor_pos.toNat < 2000) (c color : U8) :
    Window n (t.put (.char c color)) (Out.put s (.char c color)) := by
  obtain ⟨hcells, -, hcur, -⟩ := write_char_inside hc c color
  have hindex := h.cursor
  have hlast := h.last
  refine ⟨fun i hi => ?_, ?_, ?_, fun j hj => ?_⟩
  · rw [Out.put, hcells]
    show _ = Function.update t.cells t.index (cell color c) (80 * n + i)
    by_cases hi' : i = s.ck_cursor_pos.toNat
    · rw [hi', Function.update_self, show 80 * n + s.ck_cursor_pos.toNat = t.index by omega, Function.update_self]
    · rw [Function.update_of_ne hi', Function.update_of_ne (by omega)]
      exact h.cells i hi
  · rw [Out.put, hcur]
    show _ = t.index + 1
    omega
  · rw [Out.put, hcur]
    omega
  · change t.index + 1 ≤ j at hj
    show Function.update t.cells t.index (cell color c) j = blank
    rw [Function.update_of_ne (by omega)]
    exact h.unwritten j (by omega)

/-- A character one row past the bottom: the text moves up and a blank row comes in. -/
theorem Window.scroll (h : Window n t s) (hc : s.ck_cursor_pos.toNat = 2000) (c color : U8) :
    Window (n + 1) (t.put (.char c color)) (Out.put s (.char c color)) := by
  obtain ⟨hup, hnew, -, -⟩ := scroll_spec s
  obtain ⟨hcells, -, hcur, -⟩ := write_char_scroll (Nat.le_of_eq hc.symm) c color
  have hindex := h.cursor
  refine ⟨fun i hi => ?_, ?_, ?_, fun j hj => ?_⟩
  · rw [Out.put, hcells]
    show _ = Function.update t.cells t.index (cell color c) (80 * (n + 1) + i)
    by_cases hi' : i = 1920
    · rw [hi', Function.update_self, show 80 * (n + 1) + 1920 = t.index by omega, Function.update_self]
    · rw [Function.update_of_ne hi', Function.update_of_ne (by omega)]
      by_cases hlt : i < 1920
      · rw [hup i hlt, h.cells (i + 80) (by omega)]
        congr 1
        omega
      · rw [hnew i (by omega) hi]
        exact (h.unwritten _ (by omega)).symm
  · rw [Out.put, hcur]
    show _ = t.index + 1
    omega
  · rw [Out.put, hcur]
    omega
  · change t.index + 1 ≤ j at hj
    show Function.update t.cells t.index (cell color c) j = blank
    rw [Function.update_of_ne (by omega)]
    exact h.unwritten j (by omega)

/-- Just after a character the rows scrolled off are the ones its row says. -/
theorem Window.shows (h : Window n t s) (hc : 0 < s.ck_cursor_pos.toNat) (hle : s.ck_cursor_pos.toNat ≤ 2000)
    (hlast : n = 0 ∨ 1920 < s.ck_cursor_pos.toNat) : Shows t ((t.index - 1) / 80) s := by
  have hindex := h.cursor
  have hn : scrolledOff ((t.index - 1) / 80) = n := by
    unfold scrolledOff
    omega
  refine ⟨fun r col hr hcol => ?_, by rw [hn]; exact hindex⟩
  rw [hn, h.cells _ (by omega)]
  congr 1
  omega

end Window

/-! ## Runs -/

/-- What the screen can follow: a character at most one row past the bottom,
and a newline whose row still has a 16-bit index. -/
def InReach (s : Screen) : Out → Prop
  | .newline => s.ck_cursor_pos.toNat < 65520
  | .char _ _ => s.ck_cursor_pos.toNat ≤ 2000

instance decidableInReach (s : Screen) : ∀ o, Decidable (InReach s o)
  | .newline => inferInstanceAs (Decidable (s.ck_cursor_pos.toNat < 65520))
  | .char _ _ => inferInstanceAs (Decidable (s.ck_cursor_pos.toNat ≤ 2000))

theorem window_step {n : Nat} {t : Terminal} {s : Screen} (h : Window n t s) (o : Out) (ho : InReach s o) :
    ∃ m, Window m (t.put o) (Out.put s o) := by
  cases o with
  | newline => exact ⟨n, h.newline ho⟩
  | char c color =>
    by_cases hc : s.ck_cursor_pos.toNat < 2000
    · exact ⟨n, h.inside hc c color⟩
    · exact ⟨n + 1, h.scroll (Nat.le_antisymm ho (Nat.le_of_not_lt hc)) c color⟩

theorem window_run (outs : List Out) : ∀ {n : Nat} {t : Terminal} {s : Screen}, Window n t s →
    Allowed Out.put InReach s outs → ∃ m, Window m (outs.foldl Terminal.put t) (outs.foldl Out.put s) := by
  induction outs with
  | nil => intro n t s h _; exact ⟨n, h⟩
  | cons o outs ih =>
    intro n t s h ha
    obtain ⟨ho, ha⟩ := (allowed_cons Out.put).1 ha
    obtain ⟨m, hm⟩ := window_step h o ho
    exact ih hm ha

/-- After a character that the screen could follow. -/
theorem shows_char {n : Nat} {t : Terminal} {s : Screen} (h : Window n t s) (c color : U8)
    (hc : s.ck_cursor_pos.toNat ≤ 2000) : Shows (t.put (.char c color)) (t.index / 80) (Out.put s (.char c color)) := by
  have hlast := h.last
  by_cases hlt : s.ck_cursor_pos.toNat < 2000
  · obtain ⟨-, -, hcur, -⟩ := write_char_inside hlt c color
    exact (h.inside hlt c color).shows (by rw [Out.put, hcur]; omega) (by rw [Out.put, hcur]; omega)
      (by rw [Out.put, hcur]; omega)
  · obtain ⟨-, -, hcur, -⟩ := write_char_scroll (Nat.le_of_not_lt hlt) c color
    exact (h.scroll (by omega) c color).shows (by rw [Out.put, hcur]; omega) (by rw [Out.put, hcur]; omega)
      (by rw [Out.put, hcur]; omega)

/-- The calls write their characters one by one; and after every character of
every sequence of calls on a cleared screen, if the screen could follow so far,
it shows the 25 rows of the terminal that end with the row of the character, or
with row 24. -/
theorem scrolling_refines (s₀ : Screen) (ops : List VgaOp)
    (h : Allowed Out.put InReach (ck_vga_clear_screen s₀) (ops.flatMap VgaOp.outs)) :
    ops.foldl VgaOp.run (ck_vga_clear_screen s₀) = (ops.flatMap VgaOp.outs).foldl Out.put (ck_vga_clear_screen s₀) ∧
    ∀ pre (c color : U8), pre ++ [Out.char c color] <+: ops.flatMap VgaOp.outs →
      Shows ((pre ++ [Out.char c color]).foldl Terminal.put .clear) ((pre.foldl Terminal.put .clear).index / 80)
        ((pre ++ [Out.char c color]).foldl Out.put (ck_vga_clear_screen s₀)) := by
  refine ⟨runs_outs ops _, fun pre c color hpre => ?_⟩
  have hchar := h pre _ hpre
  have hallowed : Allowed Out.put InReach (ck_vga_clear_screen s₀) pre := fun p o hp =>
    h p o (hp.trans ((List.prefix_append pre _).trans hpre))
  obtain ⟨n, hn⟩ := window_run pre (window_clear s₀) hallowed
  rw [List.foldl_append, List.foldl_append]
  exact shows_char hn c color hchar

/-- A screen before it is cleared. -/
def someScreen : Screen := ⟨fun _ => 0, 0, 0, fun _ => 0, 0⟩

/-- A letter in the last row, and after a newline another one, for which the screen scrolls; then a number in the row
after that. -/
theorem scrolling_refines_number :
    let ops := [VgaOp.write_string (List.replicate 24 0x0A ++ [0x42, 0x0A, 0x43]) COLOR_WHITE, .newline,
      .write_number 7 COLOR_WHITE]
    let outs := List.replicate 24 Out.newline ++ [.char 0x42 COLOR_WHITE, .newline, .char 0x43 COLOR_WHITE, .newline]
    Allowed Out.put InReach (ck_vga_clear_screen someScreen) (ops.flatMap VgaOp.outs) ∧
    ops.flatMap VgaOp.outs = outs ++ [Out.char 0x37 COLOR_WHITE] ∧
    scrolledOff ((outs.foldl Terminal.put .clear).index / 80) = 2 ∧
    Shows ((outs ++ [Out.char 0x37 COLOR_WHITE]).foldl Terminal.put .clear) ((outs.foldl Terminal.put .clear).index / 80)
      ((outs ++ [Out.char 0x37 COLOR_WHITE]).foldl Out.put (ck_vga_clear_screen someScreen)) := by
  intro ops outs
  have houts : ops.flatMap VgaOp.outs = outs ++ [Out.char 0x37 COLOR_WHITE] := rfl
  have hallowed : Allowed Out.put InReach (ck_vga_clear_screen someScreen) (ops.flatMap VgaOp.outs) := by decide +kernel
  have hpre : outs ++ [Out.char 0x37 COLOR_WHITE] <+: ops.flatMap VgaOp.outs := by rw [houts]
  exact ⟨hallowed, houts, by decide +kernel, (scrolling_refines someScreen ops hallowed).2 outs 0x37 COLOR_WHITE hpre⟩

/-! ## Two newlines in the last row -/

theorem window_newlines (s₀ : Screen) (k : Nat) (hk : k ≤ 24) :
    (List.replicate k Out.newline).foldl Terminal.put .clear = ⟨fun _ => blank, 80 * k⟩ ∧
      Window 0 ⟨fun _ => blank, 80 * k⟩ ((List.replicate k Out.newline).foldl Out.put (ck_vga_clear_screen s₀)) := by
  induction k with
  | zero => exact ⟨rfl, window_clear s₀⟩
  | succ k ih =>
    obtain ⟨ht, hw⟩ := ih (by omega)
    have hcur := hw.cursor
    have hnext : Terminal.put ⟨fun _ => blank, 80 * k⟩ .newline = ⟨fun _ => blank, 80 * (k + 1)⟩ := by
      simp only [Terminal.put]
      congr 1
      omega
    rw [List.replicate_succ', List.foldl_append, List.foldl_append, ht]
    refine ⟨hnext, ?_⟩
    rw [← hnext]
    exact hw.newline (by simp only at hcur; omega)

/-- A character two rows past the bottom leaves the last row in the last but one. -/
theorem past_bottom {t : Terminal} {s : Screen} (h : Window 0 t s) (hc : s.ck_cursor_pos.toNat = 2080) (c color : U8) :
    (Out.put s (.char c color)).cells 1840 = t.cells 1920 := by
  have hcells := (write_char_scroll (by omega) c color (s := s)).1
  rw [Out.put, hcells, Function.update_of_ne (by decide), (scroll_spec s).1 1840 (by decide), h.cells 1920 (by decide)]

/-- A letter in the last row, two newlines and another letter: the screen moves
up by one row instead of two. -/
theorem scroll_loses_row :
    let text : List U8 := List.replicate 24 0x0A ++ [0x61, 0x0A, 0x0A]
    let outs := (VgaOp.write_string text COLOR_WHITE).outs
    ¬ Shows ((outs ++ [Out.char 0x62 COLOR_WHITE]).foldl Terminal.put .clear)
        ((outs.foldl Terminal.put .clear).index / 80)
        ((outs ++ [Out.char 0x62 COLOR_WHITE]).foldl Out.put (ck_vga_clear_screen someScreen)) := by
  intro text outs hshows
  have houts : outs = List.replicate 24 Out.newline ++ [.char 0x61 COLOR_WHITE, .newline, .newline] := by
    simp [outs, text, VgaOp.outs]
  obtain ⟨ht, hw⟩ := window_newlines someScreen 24 (Nat.le_refl 24)
  rw [houts, List.foldl_append, List.foldl_append, List.foldl_append, List.foldl_append, ht] at hshows
  generalize (List.replicate 24 Out.newline).foldl Out.put (ck_vga_clear_screen someScreen) = s at hw hshows
  have hcur : s.ck_cursor_pos.toNat = 1920 := hw.cursor
  have ha := hw.inside (by omega) 0x61 COLOR_WHITE
  have hcur₁ : (Out.put s (.char 0x61 COLOR_WHITE)).ck_cursor_pos.toNat = 1921 := ha.cursor
  have hb := ha.newline (by omega)
  have hcur₂ : (Out.put (Out.put s (.char 0x61 COLOR_WHITE)) .newline).ck_cursor_pos.toNat = 2000 := hb.cursor
  -- The letter ends up in the last row but one, where the terminal has an empty row.
  have hscreen := past_bottom (hb.newline (by omega)) (hb.newline (by omega)).cursor 0x62 COLOR_WHITE
  have hrow := hshows.rows 23 0 (by decide) (by decide)
  simp only [List.foldl_cons, List.foldl_nil] at hrow
  rw [show 80 * 23 + 0 = 1840 from rfl, hscreen] at hrow
  exact absurd hrow (by decide)

end CheesecakeOS.Shell
