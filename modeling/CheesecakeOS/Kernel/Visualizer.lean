import CheesecakeOS.Kernel.Scheduler
import CheesecakeOS.Kernel.Vga
/-!
# The task monitor

`kernel/visualizer.c` as far as it draws. The monitor runs until a key is
pressed; what it finds in the kernel at each frame it draws is given from
outside. Every character goes through `vga_write_char`, which stays on the
screen (`monitor_drawn`).
-/
open Lib

namespace CheesecakeOS.Shell

abbrev VGA_HEIGHT : Nat := 25
abbrev VGA_COLOR_WHITE : U8 := 0x0F#8
abbrev VGA_COLOR_CYAN : U8 := 0x0B#8
abbrev VGA_COLOR_GREEN : U8 := 0x0A#8
abbrev VGA_COLOR_YELLOW : U8 := 0x0E#8
abbrev GAME_TOP : Nat := 3
abbrev GAME_LEFT : Nat := 52
abbrev CK_GAME_WIDTH : Nat := 20
abbrev CK_GAME_HEIGHT : Nat := 8
abbrev CK_GAME_PADDLE_WIDTH : Nat := 6

/-- The bytes of a string literal. -/
@[irreducible]
def utf8 (s : String) : List U8 := s.toByteArray.data.toList.map UInt8.toBitVec

/-- `struct ck_game_state`, as far as it is drawn. -/
structure GameState where
  ball_x : Int
  ball_y : Int
  paddle_x : Int

/-- What the shell and the monitor read of the kernel. -/
structure Kernel (E : Type) where
  scheduler : Scheduler E
  ck_task_counter : Vector U32 8
  ck_game : GameState
  ticks : U32

variable {E : Type}

/-- `ck_task_counter[i]`. -/
def Kernel.counter (k : Kernel E) (i : Nat) : U32 := k.ck_task_counter[i]?.getD 0

/-! ## The source -/

def ck_task_name : Nat → List U8
  | 0 => utf8 "Physics"
  | 1 => utf8 "Input"
  | 2 => utf8 "Render"
  | _ => utf8 "Worker"

def vga_cursor_disable (s : Screen) : Screen :=
  let s := ck_outb s VGA_CURSOR_CMD 0x0A
  ck_outb s VGA_CURSOR_DATA 0x20

def vga_cursor_enable (s : Screen) : Screen :=
  let s := ck_outb s VGA_CURSOR_CMD 0x0A
  let s := ck_outb s VGA_CURSOR_DATA 0x0F
  let s := ck_outb s VGA_CURSOR_CMD 0x0B
  ck_outb s VGA_CURSOR_DATA 0x0F

def vga_write_char (s : Screen) (row col : U16) (c color : U8) : Screen :=
  if row.toNat ≥ VGA_HEIGHT ∨ col.toNat ≥ VGA_WIDTH then s
  else s.write (row.toNat * VGA_WIDTH + col.toNat) (cell color c)

def vga_write_string (s : Screen) (row col : U16) (str : List U8) (color : U8) : Screen :=
  match str with
  | [] => s
  | c :: rest =>
    if col.toNat < VGA_WIDTH then vga_write_string (vga_write_char s row col c color) row (col + 1) rest color else s

/-- The digits from the first one that is not 0. -/
def uintChars (num : U32) : List U8 :=
  if num = 0#32 then [0x30]
  else (((List.range 10).map fun k => num.toNat / 10 ^ (9 - k) % 10).dropWhile (· = 0)).map fun d => 0x30#8 + .ofNat 8 d

def vga_write_uint32 (s : Screen) (row col : U16) (num : U32) (color : U8) : Screen :=
  vga_write_string s row col (uintChars num) color

def vga_clear_row (s : Screen) (row : U16) (color : U8) : Screen :=
  forRange 0 VGA_WIDTH s fun s col => vga_write_char s row (.ofNat 16 col) 0x20 color

def draw_game_frame (s : Screen) (state : GameState) : Screen :=
  let s := forRange 0 (CK_GAME_HEIGHT + 2) s fun s r =>
    forRange 0 (CK_GAME_WIDTH + 2) s fun s c =>
      let ch : U8 :=
        if r = 0 ∨ r = CK_GAME_HEIGHT + 1 then if c = 0 ∨ c = CK_GAME_WIDTH + 1 then 0x2B else 0x2D
        else if c = 0 ∨ c = CK_GAME_WIDTH + 1 then 0x7C else 0x20
      vga_write_char s (.ofNat 16 (GAME_TOP + r)) (.ofNat 16 (GAME_LEFT + c)) ch VGA_COLOR_WHITE
  let s := vga_write_char s (.ofInt 16 (GAME_TOP + 1 + state.ball_y)) (.ofInt 16 (GAME_LEFT + 1 + state.ball_x)) 0x6F
    VGA_COLOR_YELLOW
  forRange 0 CK_GAME_PADDLE_WIDTH s fun s i =>
    vga_write_char s (.ofNat 16 (GAME_TOP + CK_GAME_HEIGHT)) (.ofInt 16 (GAME_LEFT + 1 + state.paddle_x + i)) 0x3D
      VGA_COLOR_GREEN

def draw_progress_bar (s : Screen) (row col : U16) (max_val current_val : U32) (color : U8) : Screen :=
  let filled := if max_val = 0#32 then 0 else min (current_val * 20 / max_val).toNat 20
  let bar := (List.range 20).map fun i => if i < filled then 0x23#8 else 0x2E#8
  vga_write_string s row col ([0x5B] ++ bar ++ [0x5D]) color

/-- The counters at the last frame, and how far each task came since. -/
def taskDeltas (k : Kernel E) (prev_counters : Nat → U32) (i : Nat) : U32 := k.counter i - prev_counters i

/-- One row of the task list. -/
def drawTask (k : Kernel E) (prev_counters : Nat → U32) (total_delta : U32) (s : Screen) (i : Nat) : Screen :=
  if 12 + i ≥ 20 then s
  else
    match ck_scheduler_get_task k.scheduler (.ofNat 32 i) with
    | none => s
    | some _ =>
      let row : U16 := .ofNat 16 (12 + i)
      let delta := taskDeltas k prev_counters i
      let s := vga_clear_row s row VGA_COLOR_WHITE
      let s := vga_write_string s row 1 (utf8 "Task ") VGA_COLOR_GREEN
      let s := vga_write_uint32 s row 6 (.ofNat 32 i) VGA_COLOR_GREEN
      let s := vga_write_string s row 8 (utf8 " ") VGA_COLOR_WHITE
      let s := vga_write_string s row 9 (ck_task_name i) VGA_COLOR_CYAN
      let s := draw_progress_bar s row 22 total_delta delta VGA_COLOR_YELLOW
      let s := vga_write_string s row 44 (utf8 "CPU: ") VGA_COLOR_WHITE
      let s := vga_write_uint32 s row 49 (delta * 100 / total_delta) VGA_COLOR_YELLOW
      let s := vga_write_string s row 52 (utf8 "% Cnt: ") VGA_COLOR_WHITE
      vga_write_uint32 s row 59 (k.counter i) VGA_COLOR_YELLOW

/-- The part of the monitor's loop that draws. -/
def drawFrame (k : Kernel E) (prev_counters : Nat → U32) (s : Screen) : Screen :=
  let s := vga_clear_row s 0 VGA_COLOR_CYAN
  let s := vga_write_string s 0 1 (utf8 "CheesecakeOS Task Scheduler Monitor") VGA_COLOR_CYAN
  let s := vga_clear_row s 1 VGA_COLOR_WHITE
  let s := vga_write_string s 1 1 (utf8 "===============================================") VGA_COLOR_WHITE
  let s := vga_clear_row s 2 VGA_COLOR_WHITE
  let s := vga_write_string s 2 1 (utf8 "A/D move paddle | Q quit") VGA_COLOR_YELLOW
  let s := draw_game_frame s k.ck_game
  let count := (ck_scheduler_task_count k.scheduler).toNat
  let sum := ((List.range count).map (taskDeltas k prev_counters)).foldl (· + ·) 0#32
  let total_delta := if sum = 0#32 then 1#32 else sum
  let s := forRange 0 count s (drawTask k prev_counters total_delta)
  let s := vga_clear_row s 20 VGA_COLOR_WHITE
  let s := vga_write_string s 20 1 (utf8 "Active: ") VGA_COLOR_WHITE
  let s := vga_write_uint32 s 20 9 (ck_scheduler_task_count k.scheduler) VGA_COLOR_GREEN
  let s := vga_write_string s 20 16 (utf8 "| Switches: ") VGA_COLOR_WHITE
  let s := vga_write_uint32 s 20 28 (ck_scheduler_get_context_switches k.scheduler) VGA_COLOR_GREEN
  let s := vga_clear_row s 23 VGA_COLOR_WHITE
  vga_write_string s 23 1 (utf8 "[q] Quit monitor") VGA_COLOR_YELLOW

/-- The monitor with its static `prev_counters`; `frames` is the kernel at each frame drawn. -/
def ck_visualizer_run_monitor (frames : List (Kernel E)) (prev_counters : Nat → U32) (s : Screen) :
    Screen × (Nat → U32) :=
  let s := vga_cursor_disable s
  let s := forRange 0 VGA_HEIGHT s fun s row => vga_clear_row s (.ofNat 16 row) VGA_COLOR_WHITE
  let (s, prev_counters) := frames.foldl (fun (s, prev_counters) k =>
    let count := (ck_scheduler_task_count k.scheduler).toNat
    (drawFrame k prev_counters s, fun i => if i < count then k.counter i else prev_counters i)) (s, prev_counters)
  (vga_cursor_enable s, prev_counters)

/-! ## Everything stays on the screen -/

/-- Cells of the screen may have changed, and the registers that do not hold the cursor. -/
structure Drawn (s s' : Screen) : Prop where
  extent : s'.extent ≤ max s.extent 2000
  cursor : s'.ck_cursor_pos = s.ck_cursor_pos

namespace Drawn

variable {s₀ s : Screen}

theorem refl (s : Screen) : Drawn s s := ⟨Nat.le_max_left _ _, rfl⟩

theorem loop {f : Screen → Nat → Screen} (hf : ∀ s i, Drawn s₀ s → Drawn s₀ (f s i)) {lo hi : Nat} (h : lo ≤ hi)
    (hs : Drawn s₀ s) : Drawn s₀ (forRange lo hi s f) :=
  forRange_inv (fun _ s => Drawn s₀ s) h hs fun i s _ _ hs => hf s i hs

theorem outb (port : U16) (v : U8) (h : Drawn s₀ s) : Drawn s₀ (ck_outb s port v) := by
  unfold ck_outb
  split
  · exact ⟨h.extent, h.cursor⟩
  · split <;> exact ⟨h.extent, h.cursor⟩

theorem char {row col : U16} {c color : U8} (h : Drawn s₀ s) : Drawn s₀ (vga_write_char s row col c color) := by
  unfold vga_write_char
  split
  · exact h
  · next hin =>
    have hextent := h.extent
    simp only [VGA_HEIGHT, VGA_WIDTH] at hin
    refine ⟨?_, h.cursor⟩
    show max s.extent (row.toNat * 80 + col.toNat + 1) ≤ _
    omega

theorem string {row : U16} {str : List U8} {color : U8} : ∀ {s : Screen} {col : U16}, Drawn s₀ s →
    Drawn s₀ (vga_write_string s row col str color) := by
  induction str with
  | nil => intro s col h; exact h
  | cons c rest ih =>
    intro s col h
    unfold vga_write_string
    split
    · exact ih h.char
    · exact h

theorem uint32 {row col : U16} {num : U32} {color : U8} (h : Drawn s₀ s) :
    Drawn s₀ (vga_write_uint32 s row col num color) :=
  h.string

theorem bar {row col : U16} {max_val val : U32} {color : U8} (h : Drawn s₀ s) :
    Drawn s₀ (draw_progress_bar s row col max_val val color) :=
  h.string

theorem row {r : U16} {color : U8} (h : Drawn s₀ s) : Drawn s₀ (vga_clear_row s r color) :=
  loop (fun _ _ hs => hs.char) (Nat.zero_le _) h

theorem game {state : GameState} (h : Drawn s₀ s) : Drawn s₀ (draw_game_frame s state) := by
  unfold draw_game_frame
  apply loop (fun _ _ hs => hs.char) (Nat.zero_le _)
  apply char
  apply loop _ (Nat.zero_le _) h
  intro s r hs
  exact loop (fun _ _ hs => hs.char) (Nat.zero_le _) hs

theorem task {k : Kernel E} {prev : Nat → U32} {total : U32} (i : Nat) (h : Drawn s₀ s) :
    Drawn s₀ (drawTask k prev total s i) := by
  unfold drawTask
  split
  · exact h
  · split
    · exact h
    · exact h.row.string.uint32.string.string.bar.string.uint32.string.uint32

theorem frame {k : Kernel E} {prev : Nat → U32} (h : Drawn s₀ s) : Drawn s₀ (drawFrame k prev s) := by
  unfold drawFrame
  dsimp only
  refine string (row (uint32 (string (uint32 (string (row ?_))))))
  apply loop (fun s i hs => hs.task i) (Nat.zero_le _)
  exact h.row.string.row.string.row.string.game

end Drawn

/-- The monitor writes no cell outside of the screen. -/
theorem monitor_drawn (frames : List (Kernel E)) (prev : Nat → U32) (s : Screen) :
    Drawn s (ck_visualizer_run_monitor frames prev s).1 := by
  have hframes : ∀ (fs : List (Kernel E)) (v : Screen × (Nat → U32)), Drawn s v.1 →
      Drawn s (fs.foldl (fun (s, prev_counters) k =>
        let count := (ck_scheduler_task_count k.scheduler).toNat
        (drawFrame k prev_counters s, fun i => if i < count then k.counter i else prev_counters i)) v).1 := by
    intro fs
    induction fs with
    | nil => intro v h; exact h
    | cons k fs ih =>
      intro v h
      exact ih _ h.frame
  have hcleared : Drawn s (forRange 0 VGA_HEIGHT (vga_cursor_disable s) fun s row =>
      vga_clear_row s (.ofNat 16 row) VGA_COLOR_WHITE) := by
    apply Drawn.loop (fun _ _ hs => hs.row) (Nat.zero_le _)
    exact ((Drawn.refl s).outb _ _).outb _ _
  unfold ck_visualizer_run_monitor vga_cursor_enable
  dsimp only
  refine Drawn.outb _ _ (Drawn.outb _ _ (Drawn.outb _ _ (Drawn.outb _ _ ?_)))
  exact hframes frames _ hcleared

end CheesecakeOS.Shell
