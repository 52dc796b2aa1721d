import CheesecakeOS.Lib.Painting
import CheesecakeOS.Kernel.OsFrames
/-!
# The picture of the monitor

A frame does not clear the screen: it clears some rows, and draws the box of the
game with all that is in it. With the three tasks this is the same area in every
frame, so that the screen shows the last frame and nothing else
(`monitor_picture`). The box has ten rows from row 3 on, and the first task is in
row 12: its line is drawn over the lower border of the box (`monitor_game`).
-/
open Lib

namespace CheesecakeOS.Os

open Shell
open Game (Demo Tabled boxIndex boxChar framed)

/-! ## What is painted -/

abbrev Painted (A : Set Nat) (f : Screen → Screen) : Prop := Paints Screen.cells A f

/-- The cells of a row. -/
def rowCells (r : Nat) : Set Nat := Set.Ico (r * 80) (r * 80 + 80)

/-- The cells of the game's box. -/
def boxCells : Set Nat := fun x => ∃ r < CK_GAME_HEIGHT + 2, ∃ c < CK_GAME_WIDTH + 2, x = boxIndex r c

section Parts
variable {A : Set Nat} {f : Screen → Screen} {row col : U16} {r : Nat} {color : U8} {text : List U8}

theorem painted_row (hf : Painted A f) (hr : row.toNat = r) (hrow : r < 25) :
    Painted (A ∪ rowCells r) fun s => vga_clear_row (f s) row color := by
  subst hr
  refine hf.comp (g := fun s => vga_clear_row s row color) ⟨fun s s' x hx => ?_, fun s x hx => ?_⟩
  · have hin : row.toNat * 80 ≤ x ∧ x < row.toNat * 80 + 80 := hx
    rw [clear_row_cells hrow, clear_row_cells hrow, if_pos hin, if_pos hin]
  · have hout : ¬ (row.toNat * 80 ≤ x ∧ x < row.toNat * 80 + 80) := hx
    rw [clear_row_cells hrow, if_neg hout]

/-- A text in a row that has been cleared. -/
theorem painted_string (hf : Painted A f) (hr : row.toNat = r) (hrow : r < 25) (hcol : col.toNat ≤ 80) (h : rowCells r ⊆ A) :
    Painted A fun s => vga_write_string (f s) row col text color := by
  subst hr
  refine hf.within (B := fun x => (lettered row.toNat col.toNat text x).isSome)
    (g := fun s => vga_write_string s row col text color) ⟨fun s s' x hx => ?_, fun s x hx => ?_⟩ ?_
  · obtain ⟨c, hc⟩ := Option.isSome_iff_exists.1 hx
    rw [write_string_cells hrow text s col hcol, write_string_cells hrow text s' col hcol, hc]
    rfl
  · have hnone : lettered row.toNat col.toNat text x = none := Option.not_isSome_iff_eq_none.1 hx
    rw [write_string_cells hrow text s col hcol, hnone]
    rfl
  · intro x hx
    change (lettered row.toNat col.toNat text x).isSome at hx
    refine h ?_
    unfold lettered at hx
    split at hx
    · next hin => exact ⟨by omega, hin.2⟩
    · cases hx

/-- A row with a text. -/
theorem painted_line {color' : U8} (hf : Painted A f) (hr : row.toNat = r) (hrow : r < 25) (hcol : col.toNat ≤ 80) :
    Painted (A ∪ rowCells r) fun s => vga_write_string (vga_clear_row (f s) row color) row col text color' :=
  painted_string (painted_row hf hr hrow) hr hrow hcol Set.subset_union_right

theorem painted_game (hf : Painted A f) {g : Game.State} (hg : g.Inside) :
    Painted (A ∪ boxCells) fun s => draw_game_frame (f s) g.shown := by
  refine hf.comp (g := fun s => draw_game_frame s g.shown) ⟨fun s s' x hx => ?_, fun s x hx => ?_⟩
  · obtain ⟨r, hr, c, hc, rfl⟩ := hx
    rw [(framed hg s).cells r hr c hc, (framed hg s').cells r hr c hc]
  · exact (framed hg s).outside x fun r hr c hc he => hx ⟨r, hr, c, hc, he⟩

theorem task_found {k : Kernel Demo} {i : Nat} (hi : i < 8) (hc : i < (ck_scheduler_task_count k.scheduler).toNat) :
    ∃ t, ck_scheduler_get_task k.scheduler (.ofNat 32 i) = some t := by
  have hid : (BitVec.ofNat 32 i).toNat = i := by
    rw [BitVec.toNat_ofNat]
    omega
  unfold ck_scheduler_get_task
  rw [if_pos (BitVec.lt_def.2 (by rw [hid]; exact hc)), hid]
  exact ⟨_, Vector.getElem?_eq_getElem hi⟩

theorem painted_task (hf : Painted A f) {k : Kernel Demo} {prev : Nat → U32} {total : U32} {i : Nat} (hi : i < 8)
    (hc : i < (ck_scheduler_task_count k.scheduler).toNat) :
    Painted (A ∪ rowCells (12 + i)) fun s => drawTask k prev total (f s) i := by
  have hrow := task_row_toNat hi
  obtain ⟨t, ht⟩ := task_found hi hc
  unfold drawTask vga_write_uint32 draw_progress_bar
  simp only [if_neg (show ¬ 12 + i ≥ 20 by omega), ht]
  generalize BitVec.ofNat 16 (12 + i) = row at hrow ⊢
  have hlt : 12 + i < 25 := by omega
  have hin : rowCells (12 + i) ⊆ A ∪ rowCells (12 + i) := Set.subset_union_right
  have hclear : Painted _ fun s => vga_clear_row (f s) row VGA_COLOR_WHITE := painted_row hf hrow hlt
  iterate 9 refine painted_string ?_ hrow hlt (by decide) hin
  exact hclear

end Parts

/-- The end of the first task's line, where the box would have its border. -/
theorem first_line {k : Kernel Demo} {prev : Nat → U32} {total : U32} (hc : 0 < (ck_scheduler_task_count k.scheduler).toNat)
    (s : Screen) {c : Nat} (hlt : c < 22) :
    (drawTask k prev total s 0).cells (12 * 80 + (52 + c)) ≠ cell VGA_COLOR_WHITE (boxChar 9 c) := by
  obtain ⟨t, ht⟩ := task_found (by decide) hc
  obtain ⟨htask, hspace, hcpu, -⟩ := label_lengths
  have hname := task_name_length 0
  have hdigits : ∀ num : U32, (uintChars num).length ≤ 10 := fun num => (uintChars_length_le (by decide)).2 (by omega)
  have hlabel : (utf8 "% Cnt: ").length = 7 ∧ ∀ c < 7, (utf8 "% Cnt: ")[c]? ≠ some (boxChar 9 c) := by decide +kernel
  have hborder : ∀ c < 22, boxChar 9 c ≠ 0x20#8 := by decide
  have hrow : (BitVec.ofNat 16 (12 + 0)).toNat = 12 := rfl
  unfold drawTask
  rw [if_neg (by decide), ht]
  dsimp only
  generalize BitVec.ofNat 16 (12 + 0) = row at hrow ⊢
  have hlt25 : row.toNat < 25 := by omega
  unfold vga_write_uint32 draw_progress_bar
  by_cases h7 : c < 7
  · rw [write_string_outside hlt25 (by decide) (.inl (by simp; omega)),
      write_string_at hlt25 c (by simp; omega) (by simp; omega)]
    obtain ⟨ch, hch⟩ : ∃ ch, (utf8 "% Cnt: ")[c]? = some ch := ⟨_, List.getElem?_eq_getElem (by omega)⟩
    rw [hch]
    intro heq
    have hne := hlabel.2 c h7
    rw [hch, (cell_inj heq).2] at hne
    exact hne rfl
  · rw [write_string_at hlt25 (c - 7) (by simp; omega) (by simp; omega)]
    cases (uintChars (k.counter 0))[c - 7]? with
    | some d =>
      intro heq
      have hcolor := (cell_inj heq).1
      revert hcolor
      decide
    | none =>
      -- Behind the number the row is as it was cleared.
      have hpercent := hdigits (taskDeltas k prev 0 * 100#32 / total)
      have hid := hdigits (.ofNat 32 0)
      show (vga_write_string _ _ _ _ _).cells _ ≠ _
      iterate 8 rw [write_string_outside hlt25 (by decide) (.inr (.inr (by simp; omega)))]
      rw [clear_row_cells hlt25, if_pos (by omega)]
      exact fun heq => hborder c hlt (cell_inj heq).2.symm

/-! ## A frame -/

/-- The rows above the game. -/
def upperRows (s : Screen) : Screen :=
  let s := vga_clear_row s 0 VGA_COLOR_CYAN
  let s := vga_write_string s 0 1 (utf8 "CheesecakeOS Task Scheduler Monitor") VGA_COLOR_CYAN
  let s := vga_clear_row s 1 VGA_COLOR_WHITE
  let s := vga_write_string s 1 1 (utf8 "===============================================") VGA_COLOR_WHITE
  let s := vga_clear_row s 2 VGA_COLOR_WHITE
  vga_write_string s 2 1 (utf8 "A/D move paddle | Q quit") VGA_COLOR_YELLOW

/-- The rows below the tasks. -/
def lastRows (k : Kernel Demo) (s : Screen) : Screen :=
  let s := vga_clear_row s 20 VGA_COLOR_WHITE
  let s := vga_write_string s 20 1 (utf8 "Active: ") VGA_COLOR_WHITE
  let s := vga_write_uint32 s 20 9 (ck_scheduler_task_count k.scheduler) VGA_COLOR_GREEN
  let s := vga_write_string s 20 16 (utf8 "| Switches: ") VGA_COLOR_WHITE
  let s := vga_write_uint32 s 20 28 (ck_scheduler_get_context_switches k.scheduler) VGA_COLOR_GREEN
  let s := vga_clear_row s 23 VGA_COLOR_WHITE
  vga_write_string s 23 1 (utf8 "[q] Quit monitor") VGA_COLOR_YELLOW

/-- The rows behind the one of the first task. -/
def lowerRows (k : Kernel Demo) (prev : Nat → U32) (s : Screen) : Screen :=
  lastRows k (drawTask k prev (totalDelta k prev) (drawTask k prev (totalDelta k prev) s 1) 2)

theorem drawFrame_eq {k : Kernel Demo} (hk : Proper k) (prev : Nat → U32) (s : Screen) : drawFrame k prev s =
    lowerRows k prev (drawTask k prev (totalDelta k prev) (draw_game_frame (upperRows s) k.ck_game) 0) := by
  have hcount : (ck_scheduler_task_count k.scheduler).toNat = 3 := hk.1.count
  have hloop : ∀ s total, forRange 0 (ck_scheduler_task_count k.scheduler).toNat s (drawTask k prev total) =
      drawTask k prev total (drawTask k prev total (drawTask k prev total s 0) 1) 2 := by
    intro s total
    rw [hcount]
    rfl
  unfold drawFrame
  dsimp only
  rw [hloop]
  rfl

def upperArea : Set Nat := ∅ ∪ rowCells 0 ∪ rowCells 1 ∪ rowCells 2

def lowerArea : Set Nat := ∅ ∪ rowCells 13 ∪ rowCells 14 ∪ rowCells 20 ∪ rowCells 23

/-- What a frame paints. -/
def frameArea : Set Nat := upperArea ∪ boxCells ∪ rowCells 12 ∪ lowerArea

theorem below_lower {x : Nat} (hx : x < 13 * 80) : x ∉ lowerArea := by
  rintro ((((h | h) | h) | h) | h)
  · exact h
  all_goals
    obtain ⟨hle, -⟩ := h
    omega

theorem painted_upper : Painted upperArea upperRows := by
  unfold upperArea
  refine painted_line ?_ rfl (by decide) (by decide)
  refine painted_line ?_ rfl (by decide) (by decide)
  exact painted_line .nothing rfl (by decide) (by decide)

section Frame
variable {k : Kernel Demo} (hk : Proper k) (prev : Nat → U32)
include hk

theorem painted_lower : Painted lowerArea (lowerRows k prev) := by
  have hcount : (ck_scheduler_task_count k.scheduler).toNat = 3 := hk.1.count
  unfold lowerArea lowerRows lastRows vga_write_uint32
  refine painted_line ?_ rfl (by decide) (by decide)
  iterate 3 refine painted_string ?_ rfl (by decide) (by decide) Set.subset_union_right
  refine painted_line ?_ rfl (by decide) (by decide)
  refine painted_task (i := 2) ?_ (by decide) (by rw [hcount]; decide)
  exact painted_task (i := 1) .nothing (by decide) (by rw [hcount]; decide)

theorem painted_frame : Painted frameArea (drawFrame k prev) := by
  have hcount : (ck_scheduler_task_count k.scheduler).toNat = 3 := hk.1.count
  obtain ⟨g, hg, hgame⟩ := hk.2
  have htask : Painted (upperArea ∪ boxCells ∪ rowCells 12) fun s =>
      drawTask k prev (totalDelta k prev) (draw_game_frame (upperRows s) g.shown) 0 :=
    painted_task (i := 0) (painted_game painted_upper hg) (by decide) (by rw [hcount]; decide)
  have hframe := htask.comp (painted_lower hk prev)
  rw [show drawFrame k prev = _ from funext (drawFrame_eq hk prev), hgame]
  exact hframe

/-- The rows of the game above that of the first task. -/
theorem frame_game {g : Game.State} (hgame : k.ck_game = g.shown) (s : Screen) {r c : Nat}
    (hr : r < CK_GAME_HEIGHT + 1) (hc : c < CK_GAME_WIDTH + 2) : (drawFrame k prev s).cells (boxIndex r c) =
      (draw_game_frame (upperRows s) g.shown).cells (boxIndex r c) := by
  have hat : boxIndex r c = (3 + r) * 80 + 52 + c := rfl
  simp only [CK_GAME_HEIGHT, CK_GAME_WIDTH] at hr hc
  have hout : boxIndex r c ∉ lowerArea := below_lower (by omega)
  rw [drawFrame_eq hk, (painted_lower hk prev).outside _ hout, drawTask_outside (by decide) (by omega), hgame]

/-- The first task's line is where the lower border of the box was drawn. -/
theorem frame_border (s : Screen) {c : Nat} (hc : c < CK_GAME_WIDTH + 2) :
    (drawFrame k prev s).cells (boxIndex (CK_GAME_HEIGHT + 1) c) ≠ cell VGA_COLOR_WHITE (boxChar (CK_GAME_HEIGHT + 1) c) := by
  have hcount : (ck_scheduler_task_count k.scheduler).toNat = 3 := hk.1.count
  have hat : boxIndex (CK_GAME_HEIGHT + 1) c = 12 * 80 + (52 + c) := by
    simp only [boxIndex, GAME_TOP, GAME_LEFT, CK_GAME_HEIGHT]
    omega
  simp only [CK_GAME_WIDTH] at hc
  rw [drawFrame_eq hk, (painted_lower hk prev).outside _ (below_lower (by omega)), hat]
  exact first_line (by rw [hcount]; decide) _ hc

end Frame

/-! ## A session -/

/-- The monitor starts on an empty screen. -/
theorem clearMonitor_cells (s : Screen) {x : Nat} (hx : x < 2000) : (clearMonitor s).cells x = cell VGA_COLOR_WHITE 0x20 := by
  have hloop : ∀ x < VGA_HEIGHT * 80, (clearMonitor s).cells x = cell VGA_COLOR_WHITE 0x20 := by
    unfold clearMonitor
    refine forRange_inv (fun k (u : Screen) => ∀ x < k * 80, u.cells x = cell VGA_COLOR_WHITE 0x20) (Nat.zero_le _) ?_ ?_
    · intro x hx
      omega
    · intro k u _ hk hu x hx
      have hrow : (BitVec.ofNat 16 k).toNat = k := by
        rw [BitVec.toNat_ofNat]
        exact Nat.mod_eq_of_lt (by simp only [VGA_HEIGHT] at hk; omega)
      rw [clear_row_cells (by rw [hrow]; exact hk), hrow]
      split
      · rfl
      · exact hu x (by omega)
  exact hloop x hx

/-- What no frame paints is as it was when the monitor was opened. -/
theorem monitored_outside (m : ShellState) (frames : List (Kernel Demo)) (h : ∀ k ∈ frames, Proper k) :
    Set.EqOn (monitored m frames).screen.cells (monitored m []).screen.cells frameAreaᶜ := by
  induction frames using List.reverseRecOn with
  | nil => exact Set.eqOn_refl _ _
  | append_singleton frames k ih =>
    rw [monitored_frame]
    exact ((painted_frame (h k (by simp)) _).outside _).trans (ih fun k' hk' => h k' (by simp [hk']))

/-- The screen after a frame, from any screen that the monitor could have cleared. -/
theorem monitored_picture (m : ShellState) {frames : List (Kernel Demo)} {k : Kernel Demo}
    (h : ∀ k' ∈ frames ++ [k], Proper k') (s : Screen) {x : Nat} (hx : x < 2000) :
    (monitored m (frames ++ [k])).screen.cells x =
      (drawFrame k (monitored m frames).prev_counters (clearMonitor s)).cells x := by
  have hpaint := painted_frame (h k (by simp)) (monitored m frames).prev_counters
  rw [monitored_frame]
  by_cases hin : x ∈ frameArea
  · exact hpaint.inside _ _ hin
  · -- No frame has been there, so it is still empty.
    have hbefore := monitored_outside m frames (fun k' hk' => h k' (by simp [hk'])) hin
    have hopened : (monitored m []).screen.cells x = cell VGA_COLOR_WHITE 0x20 := clearMonitor_cells _ hx
    rw [hpaint.outside _ hin, hbefore, hopened, hpaint.outside _ hin, clearMonitor_cells s hx]

/-- In every run with the three tasks, whenever interrupts come, after a frame the
screen in the monitor shows that frame as it would be drawn on an empty
screen, and nothing of the frames before it or of the shell. The shares in it are
those since the frame before, if there was one in this session. -/
theorem monitor_picture (fuel : Nat) (s : Scheduler Demo) (screen : Screen) (input_buffer : Vector U8 256)
    (actions : List Action) (σ : State) (hs : Tabled 3 s) (h : run fuel s screen input_buffer actions = some σ)
    (hin : σ.pc.InMonitor) (frames : List (Kernel Demo)) (k : Kernel Demo)
    (hframes : sessionFrames σ.log = frames ++ [k]) :
    ∃ prev, (∀ k₀ ∈ frames.getLast?, ∀ i < 3, prev i = k₀.counter i) ∧
      ∀ empty x, x < 2000 → σ.shell.screen.cells x = (drawFrame k prev (clearMonitor empty)).cells x := by
  have hproper := (showing_run hs h).proper
  obtain ⟨m, hm⟩ := monitor_screen h hin
  rw [hframes] at hproper hm
  refine ⟨(monitored m frames).prev_counters, fun k₀ hk₀ i hi => ?_, fun empty x hx => ?_⟩
  · obtain ⟨before, rfl⟩ := List.getLast?_eq_some_iff.1 hk₀
    exact monitored_counters m before (hproper k₀ (by simp)) hi
  · rw [hm]
    exact monitored_picture m hproper empty hx

theorem monitor_picture_watching : ∃ σ k₀ k, run 0 threeTasks someScreen (.replicate 256 0) watching = some σ ∧
    sessionFrames σ.log = [k₀, k] ∧ ∃ prev, (∀ i < 3, prev i = k₀.counter i) ∧
      ∀ x < 2000, σ.shell.screen.cells x = (drawFrame k prev (clearMonitor someScreen)).cells x := by
  obtain ⟨σ, k₀, k, hσ, hin, hframes⟩ := watched
  obtain ⟨prev, hprev, hcells⟩ := monitor_picture _ _ _ _ _ σ threeTasks_tabled hσ hin [k₀] k hframes
  exact ⟨σ, k₀, k, hσ, hframes, prev, hprev k₀ rfl, hcells someScreen⟩

/-- In every run with the three tasks, after a frame the screen in the monitor shows the ball and the
paddle in the box, where the game has them, and the box without its lower border,
which is never seen. -/
theorem monitor_game (fuel : Nat) (s : Scheduler Demo) (screen : Screen) (input_buffer : Vector U8 256)
    (actions : List Action) (σ : State) (hs : Tabled 3 s) (h : run fuel s screen input_buffer actions = some σ)
    (hin : σ.pc.InMonitor) (frames : List (Kernel Demo)) (k : Kernel Demo)
    (hframes : sessionFrames σ.log = frames ++ [k]) :
    ∃ g : Game.State, g.Inside ∧ k.ck_game = g.shown ∧
      (∀ r < CK_GAME_HEIGHT + 1, ∀ c < CK_GAME_WIDTH + 2, σ.shell.screen.cells (boxIndex r c) =
        if (r : Int) = 1 + g.ball_y ∧ (c : Int) = 1 + g.ball_x then cell VGA_COLOR_YELLOW 0x6F
        else if r = CK_GAME_HEIGHT ∧ 1 + g.paddle_x ≤ c ∧ (c : Int) ≤ g.paddle_x + CK_GAME_PADDLE_WIDTH then
          cell VGA_COLOR_GREEN 0x3D
        else cell VGA_COLOR_WHITE (boxChar r c)) ∧
      ∀ c < CK_GAME_WIDTH + 2, σ.shell.screen.cells (boxIndex (CK_GAME_HEIGHT + 1) c) ≠
        cell VGA_COLOR_WHITE (boxChar (CK_GAME_HEIGHT + 1) c) := by
  have hproper := (showing_run hs h).proper
  obtain ⟨m, hm⟩ := monitor_screen h hin
  rw [hframes] at hproper hm
  have hk := hproper k (by simp)
  obtain ⟨g, hg, hgame⟩ := hk.2
  rw [hm, monitored_frame]
  refine ⟨g, hg, hgame, fun r hr c hc => ?_, fun c hc => frame_border hk _ _ hc⟩
  rw [frame_game hk _ hgame _ hr hc]
  exact (framed hg _).cells r (by omega) c hc

theorem monitor_game_watching : ∃ σ, ∃ k : Kernel Demo,
    run 0 threeTasks someScreen (.replicate 256 0) watching = some σ ∧ sessionFrames σ.log ≠ [] ∧
      ∃ g : Game.State, g.Inside ∧ k.ck_game = g.shown ∧ σ.shell.screen.cells (boxIndex 0 0) = cell VGA_COLOR_WHITE 0x2B ∧
        σ.shell.screen.cells (boxIndex 9 0) ≠ cell VGA_COLOR_WHITE 0x2B := by
  obtain ⟨σ, k₀, k, hσ, hin, hframes⟩ := watched
  obtain ⟨g, hg, hgame, hcells, hborder⟩ := monitor_game _ _ _ _ _ σ threeTasks_tabled hσ hin [k₀] k hframes
  have htop := hg.top
  refine ⟨σ, k, hσ, by simp [hframes], g, hg, hgame, ?_, hborder 0 (by decide)⟩
  rw [hcells 0 (by decide) 0 (by decide), if_neg (by simp; omega), if_neg (by simp [CK_GAME_HEIGHT])]
  rfl

end CheesecakeOS.Os
