import CheesecakeOS.Lib.Runs
import CheesecakeOS.Kernel.Monitor
/-!
# The demo tasks

`kernel/kernel_tasks.c`: a ball, a paddle, and three tasks that share them
without a lock. A task's step is cut into the parts of its body, each with the
work it adds; the calls of `ck_task_yield` it makes are given back as a list.
Whatever the order of the calls, ball and paddle stay in the frame that the
monitor draws (`game_stays_inside`).

`frame` is an integer without bound here; `GameClock` looks at its range.
-/
open Lib

namespace CheesecakeOS.Game

open Shell (CK_GAME_WIDTH CK_GAME_HEIGHT CK_GAME_PADDLE_WIDTH GAME_TOP GAME_LEFT Screen GameState cell draw_game_frame
  vga_write_char VGA_COLOR_WHITE VGA_COLOR_YELLOW VGA_COLOR_GREEN)

/-- `struct ck_game_state`. -/
structure State where
  ball_x : Int
  ball_y : Int
  ball_dx : Int
  ball_dy : Int
  paddle_x : Int
  frame : Int

/-- The tasks by their entries. -/
inductive Demo where
  | demo_1
  | demo_2
  | demo_3
deriving DecidableEq

/-- The statics of `kernel_tasks.c`. -/
structure Tasks where
  ck_task_counter : Vector U32 8
  ck_game : State
  ck_game_input_dir : Int

/-- Zero-initialised. -/
def Tasks.zero : Tasks := ⟨.replicate 8 0, ⟨0, 0, 0, 0, 0, 0⟩, 0⟩

/-! ## The source -/

def ck_game_init (t : Tasks) : Tasks :=
  { t with
    ck_game :=
      { ball_x := 2, ball_y := 2, ball_dx := 1, ball_dy := 1
        paddle_x := (CK_GAME_WIDTH - CK_GAME_PADDLE_WIDTH) / 2
        frame := 0 }
    ck_game_input_dir := 0 }

def ck_game_on_key (t : Tasks) (c : U8) : Tasks :=
  if c = 0x61#8 ∨ c = 0x41#8 then { t with ck_game_input_dir := -1 }
  else if c = 0x64#8 ∨ c = 0x44#8 then { t with ck_game_input_dir := 1 }
  else t

def ck_game_get_state (t : Tasks) : State := t.ck_game

namespace State

/-- The frame counter, and the ball in every second frame. -/
def advance (g : State) : State :=
  let g := { g with frame := g.frame + 1 }
  if g.frame.tmod 2 = 0 then { g with ball_x := g.ball_x + g.ball_dx, ball_y := g.ball_y + g.ball_dy } else g

def walls (g : State) : State × Int :=
  if g.ball_x ≤ 0 ∨ g.ball_x ≥ CK_GAME_WIDTH - 1 then
    if g.ball_x ≤ 0 then ({ g with ball_x := 0, ball_dx := 1 }, 6)
    else ({ g with ball_x := CK_GAME_WIDTH - 1, ball_dx := -1 }, 6)
  else (g, 0)

def ceiling (g : State) : State × Int :=
  if g.ball_y ≤ 0 then ({ g with ball_y := 0, ball_dy := 1 }, 6) else (g, 0)

/-- The test of the paddle. -/
def OnPaddle (g : State) : Prop := g.ball_x ≥ g.paddle_x ∧ g.ball_x ≤ g.paddle_x + CK_GAME_PADDLE_WIDTH - 1

instance decidableOnPaddle (g : State) : Decidable g.OnPaddle := inferInstanceAs (Decidable (_ ∧ _))

/-- In the last row: back up, or missed. -/
def bottom (g : State) : State × Int :=
  if g.ball_y ≥ CK_GAME_HEIGHT - 2 then
    if g.OnPaddle then ({ g with ball_y := CK_GAME_HEIGHT - 2, ball_dy := -1 }, 10)
    else ({ g with ball_y := 1, ball_x := 2, ball_dx := 1, ball_dy := 1 }, 12)
  else (g, 0)

/-- By key, or to the middle. -/
def movePaddle (g : State) (dir : Int) : State × Int :=
  if dir ≠ 0 then ({ g with paddle_x := g.paddle_x + dir }, 5)
  else
    let center := (CK_GAME_WIDTH - CK_GAME_PADDLE_WIDTH) / 2
    if g.paddle_x < center then ({ g with paddle_x := g.paddle_x + 1 }, 2)
    else if g.paddle_x > center then ({ g with paddle_x := g.paddle_x - 1 }, 2)
    else (g, 0)

def clampPaddle (g : State) : State :=
  if g.paddle_x < 0 then { g with paddle_x := 0 }
  else if g.paddle_x > CK_GAME_WIDTH - CK_GAME_PADDLE_WIDTH then
    { g with paddle_x := CK_GAME_WIDTH - CK_GAME_PADDLE_WIDTH }
  else g

/-- The ball before the test of the last row, and the work so far. -/
def atBottom (g : State) : State × Int :=
  let (g, atWall) := g.advance.walls
  let (g, atCeiling) := g.ceiling
  (g, 1 + atWall + atCeiling)

end State

theorem counter_lt (i : Fin 8) : i.val < 8 := i.isLt

/-- `ck_task_counter[i] += (uint32_t)work;`, and a yield when it is a multiple of `every`. -/
def Tasks.count (t : Tasks) (i : Fin 8) (work : Int) (every : U32) : Tasks × List (TaskOp Demo) :=
  let counter := t.ck_task_counter.get i + .ofInt 32 work
  ({ t with ck_task_counter := t.ck_task_counter.set i counter (counter_lt i) },
    if counter % every = 0#32 then [.yield] else [])

def ck_task_demo_1 (t : Tasks) : Tasks × List (TaskOp Demo) :=
  let (g, work) := t.ck_game.atBottom
  let (g, atBottom) := g.bottom
  { t with ck_game := g }.count 0 (work + atBottom) 1000

/-- The direction has been used up, or was 0. -/
def ck_task_demo_2 (t : Tasks) : Tasks × List (TaskOp Demo) :=
  let (g, moved) := t.ck_game.movePaddle t.ck_game_input_dir
  { t with ck_game := g.clampPaddle, ck_game_input_dir := 0 }.count 1 (1 + moved) 1500

def ck_task_demo_3 (t : Tasks) : Tasks × List (TaskOp Demo) :=
  t.count 2 (1 + t.ck_game.ball_y.tmod 4) 1200

/-- The call of a task's entry. -/
def Demo.call (t : Tasks) : Demo → Tasks × List (TaskOp Demo)
  | .demo_1 => ck_task_demo_1 t
  | .demo_2 => ck_task_demo_2 t
  | .demo_3 => ck_task_demo_3 t

/-- The task's counter. -/
def Demo.index : Demo → Fin 8
  | .demo_1 => 0
  | .demo_2 => 1
  | .demo_3 => 2

/-! ## What the parts of a step do -/

namespace State
variable (g : State)

/-- Within the frame: the ball above the paddle's row. -/
structure Inside (g : State) : Prop where
  left : 0 ≤ g.ball_x
  right : g.ball_x ≤ 19
  top : 0 ≤ g.ball_y
  above : g.ball_y ≤ 6
  paddle_left : 0 ≤ g.paddle_x
  paddle_right : g.paddle_x ≤ 14

/-- The ball goes at most one cell at a time. -/
structure Slow (g : State) : Prop where
  dx_ge : -1 ≤ g.ball_dx
  dx_le : g.ball_dx ≤ 1
  dy_ge : -1 ≤ g.ball_dy
  dy_le : g.ball_dy ≤ 1

theorem advance_spec : g.advance.frame = g.frame + 1 ∧ g.advance.ball_dx = g.ball_dx ∧ g.advance.ball_dy = g.ball_dy ∧
    g.advance.paddle_x = g.paddle_x ∧
    (((g.frame + 1).tmod 2 = 0 ∧ g.advance.ball_x = g.ball_x + g.ball_dx ∧ g.advance.ball_y = g.ball_y + g.ball_dy) ∨
      ((g.frame + 1).tmod 2 ≠ 0 ∧ g.advance.ball_x = g.ball_x ∧ g.advance.ball_y = g.ball_y)) := by
  unfold advance
  dsimp only
  split
  · next h => exact ⟨rfl, rfl, rfl, rfl, .inl ⟨h, rfl, rfl⟩⟩
  · next h => exact ⟨rfl, rfl, rfl, rfl, .inr ⟨h, rfl, rfl⟩⟩

theorem walls_spec : 0 ≤ g.walls.1.ball_x ∧ g.walls.1.ball_x ≤ 19 ∧
    (0 ≤ g.ball_x → g.ball_x ≤ 19 → g.walls.1.ball_x = g.ball_x) ∧
    (g.walls.1.ball_dx = g.ball_dx ∨ g.walls.1.ball_dx = 1 ∨ g.walls.1.ball_dx = -1) ∧
    g.walls.1.ball_y = g.ball_y ∧ g.walls.1.ball_dy = g.ball_dy ∧ g.walls.1.paddle_x = g.paddle_x ∧
    g.walls.1.frame = g.frame ∧ (g.walls.2 = 0 ∨ g.walls.2 = 6) := by
  unfold walls
  simp only [CK_GAME_WIDTH]
  split
  · split <;> dsimp only <;> omega
  · dsimp only
    omega

theorem ceiling_spec : 0 ≤ g.ceiling.1.ball_y ∧ (0 < g.ball_y → g.ceiling.1 = g) ∧
    ((g.ceiling.1.ball_y = 0 ∧ g.ceiling.1.ball_dy = 1 ∧ g.ceiling.2 = 6) ∨ (g.ceiling.1 = g ∧ g.ceiling.2 = 0)) ∧
    g.ceiling.1.ball_x = g.ball_x ∧ g.ceiling.1.ball_dx = g.ball_dx ∧ g.ceiling.1.paddle_x = g.paddle_x ∧
    g.ceiling.1.frame = g.frame := by
  unfold ceiling
  split
  · next h => exact ⟨Int.le_refl 0, fun hpos => by omega, .inl ⟨rfl, rfl, rfl⟩, rfl, rfl, rfl, rfl⟩
  · next h => exact ⟨by dsimp only; omega, fun _ => rfl, .inr ⟨rfl, rfl⟩, rfl, rfl, rfl, rfl⟩

theorem bottom_cases : (g.ball_y < 6 ∧ g.bottom = (g, 0)) ∨
    (6 ≤ g.ball_y ∧ g.OnPaddle ∧ g.bottom = ({ g with ball_y := 6, ball_dy := -1 }, 10)) ∨
    (6 ≤ g.ball_y ∧ ¬ g.OnPaddle ∧
      g.bottom = ({ g with ball_y := 1, ball_x := 2, ball_dx := 1, ball_dy := 1 }, 12)) := by
  unfold bottom
  by_cases hy : g.ball_y ≥ (CK_GAME_HEIGHT : Int) - 2
  · by_cases hp : g.OnPaddle
    · rw [if_pos hy, if_pos hp]
      exact .inr (.inl ⟨hy, hp, rfl⟩)
    · rw [if_pos hy, if_neg hp]
      exact .inr (.inr ⟨hy, hp, rfl⟩)
  · rw [if_neg hy]
    exact .inl ⟨Int.lt_of_not_ge hy, rfl⟩

variable {g}

/-- Before the last row is looked at. With a work of more than 7 the ball is at the top. -/
theorem atBottom_spec (hi : g.Inside) (hs : g.Slow) : 0 ≤ g.atBottom.1.ball_x ∧ g.atBottom.1.ball_x ≤ 19 ∧
    0 ≤ g.atBottom.1.ball_y ∧ g.atBottom.1.ball_y ≤ 7 ∧ g.atBottom.1.Slow ∧ g.atBottom.1.paddle_x = g.paddle_x ∧
    g.atBottom.1.frame = g.frame + 1 ∧ 1 ≤ g.atBottom.2 ∧ g.atBottom.2 ≤ 13 ∧
    (g.atBottom.1.ball_y = 0 ∨ g.atBottom.2 ≤ 7) := by
  obtain ⟨hf, hdx, hdy, hp, hmove⟩ := g.advance_spec
  obtain ⟨hl, hr, -, hwdx, hwy, hwdy, hwp, hwf, hww⟩ := g.advance.walls_spec
  obtain ⟨htop, -, hceil, hcx, hcdx, hcp, hcf⟩ := g.advance.walls.1.ceiling_spec
  have hslow := hs.dx_ge
  have hslow' := hs.dx_le
  have hslow₁ := hs.dy_ge
  have hslow₂ := hs.dy_le
  have habove := hi.above
  have hy : g.atBottom.1 = g.advance.walls.1.ceiling.1 := rfl
  have hw : g.atBottom.2 = 1 + g.advance.walls.2 + g.advance.walls.1.ceiling.2 := rfl
  rw [hy, hw]
  rcases hceil with ⟨h0, h1, h6⟩ | ⟨hsame, h0⟩
  · refine ⟨by omega, by omega, htop, by omega, ⟨by omega, by omega, by omega, by omega⟩, by omega, by omega, by omega,
      by omega, .inl h0⟩
  · rw [hsame] at htop ⊢
    refine ⟨hl, hr, htop, by omega, ⟨by omega, by omega, by omega, by omega⟩, by omega, by omega, by omega, by omega,
      .inr (by omega)⟩

/-- The ball's step. -/
theorem bottom_spec (hi : g.Inside) (hs : g.Slow) : g.atBottom.1.bottom.1.Inside ∧ g.atBottom.1.bottom.1.Slow ∧
    1 ≤ g.atBottom.2 + g.atBottom.1.bottom.2 ∧ g.atBottom.2 + g.atBottom.1.bottom.2 ≤ 19 := by
  obtain ⟨hl, hr, ht, hb, ⟨hdx, hdx', hdy, hdy'⟩, hp, -, hw1, hw2, hw3⟩ := atBottom_spec hi hs
  have hpl := hi.paddle_left
  have hpr := hi.paddle_right
  rcases g.atBottom.1.bottom_cases with ⟨hy, he⟩ | ⟨hy, -, he⟩ | ⟨hy, -, he⟩
  all_goals
    rw [he]
    refine ⟨⟨?_, ?_, ?_, ?_, ?_, ?_⟩, ⟨?_, ?_, ?_, ?_⟩, ?_, ?_⟩ <;> dsimp only <;> omega

/-- The paddle's step. -/
theorem paddle_spec (g : State) (dir : Int) : 0 ≤ (g.movePaddle dir).1.clampPaddle.paddle_x ∧
    (g.movePaddle dir).1.clampPaddle.paddle_x ≤ 14 ∧
    (g.movePaddle dir).1.clampPaddle = { g with paddle_x := (g.movePaddle dir).1.clampPaddle.paddle_x } ∧
    0 ≤ (g.movePaddle dir).2 ∧ (g.movePaddle dir).2 ≤ 5 := by
  have hclamp : ∀ g : State, 0 ≤ g.clampPaddle.paddle_x ∧ g.clampPaddle.paddle_x ≤ 14 ∧
      g.clampPaddle = { g with paddle_x := g.clampPaddle.paddle_x } := by
    intro g
    unfold clampPaddle
    simp only [CK_GAME_WIDTH, CK_GAME_PADDLE_WIDTH]
    split
    · exact ⟨by simp, by simp, rfl⟩
    · split
      · exact ⟨by simp, by simp, rfl⟩
      · exact ⟨by omega, by omega, rfl⟩
  have hmove : (g.movePaddle dir).1 = { g with paddle_x := (g.movePaddle dir).1.paddle_x } ∧
      0 ≤ (g.movePaddle dir).2 ∧ (g.movePaddle dir).2 ≤ 5 := by
    unfold movePaddle
    dsimp only
    split
    · exact ⟨rfl, by simp, by simp⟩
    · split
      · exact ⟨rfl, by simp, by simp⟩
      · split <;> exact ⟨rfl, by simp, by simp⟩
  obtain ⟨h1, h2, h3⟩ := hclamp (g.movePaddle dir).1
  refine ⟨h1, h2, ?_, hmove.2⟩
  generalize (g.movePaddle dir).1.clampPaddle.paddle_x = x at h3 ⊢
  rw [h3, hmove.1]

end State

/-! ## Runs -/

inductive GameOp where
  | init
  | key (c : U8)
  | run (d : Demo)

def Tasks.step (t : Tasks) : GameOp → Tasks
  | .init => ck_game_init t
  | .key c => ck_game_on_key t c
  | .run d => (d.call t).1

/-- The invariant of all runs. -/
structure Sound (t : Tasks) : Prop where
  inside : t.ck_game.Inside
  slow : t.ck_game.Slow
  dir_ge : -1 ≤ t.ck_game_input_dir
  dir_le : t.ck_game_input_dir ≤ 1

theorem sound_zero : Sound .zero :=
  ⟨⟨by decide, by decide, by decide, by decide, by decide, by decide⟩, ⟨by decide, by decide, by decide, by decide⟩,
    by decide, by decide⟩

theorem init_spec (t : Tasks) : (ck_game_init t).ck_game = ⟨2, 2, 1, 1, 7, 0⟩ ∧ (ck_game_init t).ck_game_input_dir = 0 ∧
    (ck_game_init t).ck_task_counter = t.ck_task_counter :=
  ⟨rfl, rfl, rfl⟩

theorem sound_init (t : Tasks) : Sound (ck_game_init t) := by
  obtain ⟨hgame, hdir, -⟩ := init_spec t
  refine ⟨?_, ?_, by rw [hdir]; decide, by rw [hdir]; decide⟩
  · rw [hgame]
    exact ⟨by decide, by decide, by decide, by decide, by decide, by decide⟩
  · rw [hgame]
    exact ⟨by decide, by decide, by decide, by decide⟩

theorem on_key_spec (t : Tasks) (c : U8) : (ck_game_on_key t c).ck_game = t.ck_game ∧
    (ck_game_on_key t c).ck_task_counter = t.ck_task_counter ∧
    ((ck_game_on_key t c).ck_game_input_dir = t.ck_game_input_dir ∨ (ck_game_on_key t c).ck_game_input_dir = -1 ∨
      (ck_game_on_key t c).ck_game_input_dir = 1) := by
  unfold ck_game_on_key
  split
  · exact ⟨rfl, rfl, .inr (.inl rfl)⟩
  · split
    · exact ⟨rfl, rfl, .inr (.inr rfl)⟩
    · exact ⟨rfl, rfl, .inl rfl⟩

theorem Sound.key {t : Tasks} (h : Sound t) (c : U8) : Sound (ck_game_on_key t c) := by
  obtain ⟨hgame, -, hdir⟩ := on_key_spec t c
  have hge := h.dir_ge
  have hle := h.dir_le
  exact ⟨by rw [hgame]; exact h.inside, by rw [hgame]; exact h.slow, by omega, by omega⟩

/-- A task adds to its own counter only, and how much. -/
theorem Sound.call {t : Tasks} (h : Sound t) (d : Demo) : Sound (d.call t).1 ∧
    ∃ work : Nat, 1 ≤ work ∧ work ≤ 19 ∧ (d.call t).1.ck_task_counter =
      t.ck_task_counter.set d.index (t.ck_task_counter[d.index] + .ofNat 32 work) := by
  have hwork : ∀ w : Int, 1 ≤ w → w ≤ 19 → ∃ work : Nat, 1 ≤ work ∧ work ≤ 19 ∧ BitVec.ofInt 32 w = .ofNat 32 work := by
    intro w h1 h2
    refine ⟨w.toNat, by omega, by omega, ?_⟩
    obtain ⟨n, rfl⟩ := Int.eq_ofNat_of_zero_le (show 0 ≤ w by omega)
    exact BitVec.ofInt_natCast 32 n
  cases d with
  | demo_1 =>
    obtain ⟨hin, hslow, h1, h2⟩ := State.bottom_spec h.inside h.slow
    obtain ⟨work, hw1, hw2, hw⟩ := hwork _ h1 h2
    exact ⟨⟨hin, hslow, h.dir_ge, h.dir_le⟩, work, hw1, hw2, by rw [← hw]; rfl⟩
  | demo_2 =>
    obtain ⟨hl, hr, hsame, h0, h5⟩ := State.paddle_spec t.ck_game t.ck_game_input_dir
    obtain ⟨work, hw1, hw2, hw⟩ := hwork (1 + (t.ck_game.movePaddle t.ck_game_input_dir).2) (by omega) (by omega)
    have hgame : (Demo.call t .demo_2).1.ck_game = { t.ck_game with
        paddle_x := (t.ck_game.movePaddle t.ck_game_input_dir).1.clampPaddle.paddle_x } := hsame
    have hdir : (Demo.call t .demo_2).1.ck_game_input_dir = 0 := rfl
    refine ⟨⟨?_, ?_, by omega, by omega⟩, work, hw1, hw2, by rw [← hw]; rfl⟩
    · rw [hgame]
      exact ⟨h.inside.left, h.inside.right, h.inside.top, h.inside.above, hl, hr⟩
    · rw [hgame]
      exact ⟨h.slow.dx_ge, h.slow.dx_le, h.slow.dy_ge, h.slow.dy_le⟩
  | demo_3 =>
    have hmod := Int.tmod_nonneg 4 h.inside.top
    have hlt := Int.tmod_lt_of_pos t.ck_game.ball_y (show (0 : Int) < 4 by decide)
    obtain ⟨work, hw1, hw2, hw⟩ := hwork (1 + t.ck_game.ball_y.tmod 4) (by omega) (by omega)
    exact ⟨⟨h.inside, h.slow, h.dir_ge, h.dir_le⟩, work, hw1, hw2, by rw [← hw]; rfl⟩

theorem sound_step (t : Tasks) (op : GameOp) (h : Sound t) : Sound (t.step op) := by
  cases op with
  | init => exact sound_init t
  | key c => exact h.key c
  | run d => exact (h.call d).1

/-! ## What is drawn -/

/-- What the monitor looks at. -/
def State.shown (g : State) : GameState := ⟨g.ball_x, g.ball_y, g.paddle_x⟩

/-- The box, 22 columns by 10 rows. -/
def boxChar (r c : Nat) : U8 :=
  if r = 0 ∨ r = CK_GAME_HEIGHT + 1 then if c = 0 ∨ c = CK_GAME_WIDTH + 1 then 0x2B else 0x2D
  else if c = 0 ∨ c = CK_GAME_WIDTH + 1 then 0x7C else 0x20

/-- In the box, by row and column from its corner. -/
def boxIndex (r c : Nat) : Nat := (GAME_TOP + r) * 80 + GAME_LEFT + c

/-- The ball and the six cells of the paddle are strictly inside of the box and
not in one place; and each cell of the box shows what it is to show. -/
structure Framed (g : State) (s s' : Screen) : Prop where
  ball_row : 0 < 1 + g.ball_y ∧ 1 + g.ball_y < CK_GAME_HEIGHT + 1
  ball_col : 0 < 1 + g.ball_x ∧ 1 + g.ball_x < CK_GAME_WIDTH + 1
  paddle_col : 0 < 1 + g.paddle_x ∧ g.paddle_x + CK_GAME_PADDLE_WIDTH < CK_GAME_WIDTH + 1
  apart : 1 + g.ball_y ≠ CK_GAME_HEIGHT
  cells : ∀ r < CK_GAME_HEIGHT + 2, ∀ c < CK_GAME_WIDTH + 2, s'.cells (boxIndex r c) =
    if (r : Int) = 1 + g.ball_y ∧ (c : Int) = 1 + g.ball_x then cell VGA_COLOR_YELLOW 0x6F
    else if r = CK_GAME_HEIGHT ∧ 1 + g.paddle_x ≤ c ∧ (c : Int) ≤ g.paddle_x + CK_GAME_PADDLE_WIDTH then
      cell VGA_COLOR_GREEN 0x3D
    else cell VGA_COLOR_WHITE (boxChar r c)
  outside : ∀ x, (∀ r < CK_GAME_HEIGHT + 2, ∀ c < CK_GAME_WIDTH + 2, x ≠ boxIndex r c) → s'.cells x = s.cells x

section Drawn
variable {s : Screen}

theorem ofNat16_toNat {n : Nat} (h : n < 65536) : (BitVec.ofNat 16 n).toNat = n := by
  rw [BitVec.toNat_ofNat]
  exact Nat.mod_eq_of_lt h

theorem ofInt16_toNat {z : Int} (h0 : 0 ≤ z) (h : z < 65536) : (BitVec.ofInt 16 z).toNat = z.toNat := by
  rw [BitVec.toNat_ofInt]
  omega

/-- One row of the box up to a column. -/
theorem box_row (r : Nat) (hr : r < 10) (w : Nat → U8) : ∀ x,
    (forRange 0 (CK_GAME_WIDTH + 2) s fun s c =>
      vga_write_char s (.ofNat 16 (GAME_TOP + r)) (.ofNat 16 (GAME_LEFT + c)) (w c) VGA_COLOR_WHITE).cells x =
    if boxIndex r 0 ≤ x ∧ x < boxIndex r 0 + (CK_GAME_WIDTH + 2) then cell VGA_COLOR_WHITE (w (x - boxIndex r 0))
    else s.cells x := by
  refine forRange_inv (fun k (u : Screen) => ∀ x, u.cells x =
    if boxIndex r 0 ≤ x ∧ x < boxIndex r 0 + k then cell VGA_COLOR_WHITE (w (x - boxIndex r 0)) else s.cells x)
    (Nat.zero_le _) ?_ ?_
  · intro x
    rw [if_neg (by omega)]
  · intro k u _ hk hu x
    have hrow : (BitVec.ofNat 16 (GAME_TOP + r)).toNat = GAME_TOP + r := ofNat16_toNat (by simp only [GAME_TOP]; omega)
    have hcol : (BitVec.ofNat 16 (GAME_LEFT + k)).toNat = GAME_LEFT + k :=
      ofNat16_toNat (by simp only [GAME_LEFT, CK_GAME_WIDTH] at *; omega)
    have hidx : (GAME_TOP + r) * 80 + (GAME_LEFT + k) = boxIndex r 0 + k := by simp only [boxIndex]; omega
    rw [Shell.write_char_cells (by rw [hrow]; simp only [GAME_TOP]; omega)
      (by rw [hcol]; simp only [GAME_LEFT, CK_GAME_WIDTH] at *; omega), hrow, hcol, hidx]
    by_cases hx : x = boxIndex r 0 + k
    · rw [hx, Function.update_self, if_pos (by omega), Nat.add_sub_cancel_left]
    · have hiff : (boxIndex r 0 ≤ x ∧ x < boxIndex r 0 + (k + 1)) ↔ boxIndex r 0 ≤ x ∧ x < boxIndex r 0 + k := by omega
      rw [Function.update_of_ne hx, hu]
      simp only [hiff]

/-- The screen with the box on it, before the ball and the paddle are drawn. -/
def boxed (s : Screen) : Screen :=
  forRange 0 (CK_GAME_HEIGHT + 2) s fun s r =>
    forRange 0 (CK_GAME_WIDTH + 2) s fun s c =>
      vga_write_char s (.ofNat 16 (GAME_TOP + r)) (.ofNat 16 (GAME_LEFT + c)) (boxChar r c) VGA_COLOR_WHITE

/-- Cell by cell of the rows drawn so far. -/
theorem box_cells (s : Screen) :
    (∀ r < CK_GAME_HEIGHT + 2, ∀ c < CK_GAME_WIDTH + 2,
      (boxed s).cells (boxIndex r c) = cell VGA_COLOR_WHITE (boxChar r c)) ∧
    ∀ x, (∀ r < CK_GAME_HEIGHT + 2, ∀ c < CK_GAME_WIDTH + 2, x ≠ boxIndex r c) → (boxed s).cells x = s.cells x := by
  refine forRange_inv (fun k (u : Screen) =>
    (∀ r < k, ∀ c < CK_GAME_WIDTH + 2, u.cells (boxIndex r c) = cell VGA_COLOR_WHITE (boxChar r c)) ∧
      ∀ x, (∀ r < k, ∀ c < CK_GAME_WIDTH + 2, x ≠ boxIndex r c) → u.cells x = s.cells x) (Nat.zero_le _) ?_ ?_
  · exact ⟨fun r hr => absurd hr (Nat.not_lt_zero r), fun _ _ => rfl⟩
  · rintro k u - hk ⟨hbox, hout⟩
    have hrow := box_row (s := u) k hk (boxChar k)
    refine ⟨fun r hr c hc => ?_, fun x hx => ?_⟩
    · rw [hrow]
      obtain hlt | rfl := Nat.lt_succ_iff_lt_or_eq.1 hr
      · rw [if_neg (by simp only [boxIndex, CK_GAME_WIDTH] at *; omega)]
        exact hbox r hlt c hc
      · have hidx : boxIndex r c = boxIndex r 0 + c := rfl
        rw [hidx, if_pos (by omega), Nat.add_sub_cancel_left]
    · rw [hrow, if_neg fun hin => ?_]
      · exact hout x fun r hr c hc => hx r (by omega) c hc
      · exact hx k (Nat.lt_succ_self k) (x - boxIndex k 0) (by omega) (by simp only [boxIndex] at *; omega)

/-- The six cells of the paddle. -/
theorem paddle_cells {p : Int} (h0 : 0 ≤ p) (h14 : p ≤ 14) (s : Screen) : ∀ x : Nat,
    (forRange 0 CK_GAME_PADDLE_WIDTH s fun s i =>
      vga_write_char s (.ofNat 16 (GAME_TOP + CK_GAME_HEIGHT)) (.ofInt 16 (GAME_LEFT + 1 + p + i)) 0x3D
        VGA_COLOR_GREEN).cells x =
    if boxIndex CK_GAME_HEIGHT 1 + p ≤ x ∧ x < boxIndex CK_GAME_HEIGHT 1 + p + CK_GAME_PADDLE_WIDTH then
      cell VGA_COLOR_GREEN 0x3D
    else s.cells x := by
  have hleft : (GAME_LEFT : Int) = 52 := rfl
  have hidx : (boxIndex CK_GAME_HEIGHT 1 : Int) = 933 := rfl
  have hrow : (BitVec.ofNat 16 (GAME_TOP + CK_GAME_HEIGHT)).toNat = 11 := rfl
  refine forRange_inv (fun k (u : Screen) => ∀ x : Nat, u.cells x =
    if boxIndex CK_GAME_HEIGHT 1 + p ≤ x ∧ x < boxIndex CK_GAME_HEIGHT 1 + p + k then cell VGA_COLOR_GREEN 0x3D
    else s.cells x) (Nat.zero_le _) ?_ ?_
  · intro x
    rw [if_neg (by omega)]
  · intro k u _ hk hu x
    have hk6 : k < 6 := hk
    have hcol : (BitVec.ofInt 16 (GAME_LEFT + 1 + p + k)).toNat = 53 + p.toNat + k := by
      rw [ofInt16_toNat (by omega) (by omega)]
      omega
    rw [Shell.write_char_cells (by rw [hrow]; decide) (by rw [hcol]; omega), hrow, hcol]
    by_cases hx : x = 11 * 80 + (53 + p.toNat + k)
    · rw [hx, Function.update_self, if_pos (by omega)]
    · have hiff : (boxIndex CK_GAME_HEIGHT 1 + p ≤ x ∧ (x : Int) < boxIndex CK_GAME_HEIGHT 1 + p + (k + 1 : Nat)) ↔
          boxIndex CK_GAME_HEIGHT 1 + p ≤ x ∧ (x : Int) < boxIndex CK_GAME_HEIGHT 1 + p + k := by omega
      rw [Function.update_of_ne hx, hu]
      simp only [hiff]

/-- The paddle is drawn over the ball, and the ball over the box. -/
theorem frame_cells {g : State} (h : g.Inside) (s : Screen) (x : Nat) : (draw_game_frame s g.shown).cells x =
    if boxIndex CK_GAME_HEIGHT 1 + g.paddle_x ≤ x ∧
        (x : Int) < boxIndex CK_GAME_HEIGHT 1 + g.paddle_x + CK_GAME_PADDLE_WIDTH then
      cell VGA_COLOR_GREEN 0x3D
    else Function.update (boxed s).cells ((4 + g.ball_y.toNat) * 80 + (53 + g.ball_x.toNat))
      (cell VGA_COLOR_YELLOW 0x6F) x := by
  obtain ⟨hl, hr, ht, ha, hpl, hpr⟩ := h
  have htop : (GAME_TOP : Int) = 3 := rfl
  have hleft : (GAME_LEFT : Int) = 52 := rfl
  have hrow : (BitVec.ofInt 16 (GAME_TOP + 1 + g.ball_y)).toNat = 4 + g.ball_y.toNat := by
    rw [ofInt16_toNat (by omega) (by omega)]
    omega
  have hcol : (BitVec.ofInt 16 (GAME_LEFT + 1 + g.ball_x)).toNat = 53 + g.ball_x.toNat := by
    rw [ofInt16_toNat (by omega) (by omega)]
    omega
  unfold draw_game_frame
  dsimp only
  rw [show g.shown.paddle_x = g.paddle_x from rfl, paddle_cells hpl hpr]
  congr 1
  rw [show g.shown.ball_y = g.ball_y from rfl, show g.shown.ball_x = g.ball_x from rfl,
    Shell.write_char_cells (by rw [hrow]; omega) (by rw [hcol]; omega), hrow, hcol]
  rfl

theorem framed {g : State} (h : g.Inside) (s : Screen) : Framed g s (draw_game_frame s g.shown) := by
  have hcells := frame_cells h s
  obtain ⟨hbox, hout⟩ := box_cells s
  obtain ⟨hl, hr, ht, ha, hpl, hpr⟩ := h
  have hidx : (boxIndex CK_GAME_HEIGHT 1 : Int) = 933 := rfl
  simp only [CK_GAME_HEIGHT, CK_GAME_WIDTH, CK_GAME_PADDLE_WIDTH] at hbox hout hcells hidx
  refine ⟨⟨by omega, by simp; omega⟩, ⟨by omega, by simp; omega⟩, ⟨by omega, by simp; omega⟩, by simp; omega,
    fun r hr c hc => ?_, fun x hx => ?_⟩
  · have hat : boxIndex r c = (3 + r) * 80 + 52 + c := rfl
    simp only [CK_GAME_HEIGHT, CK_GAME_WIDTH, CK_GAME_PADDLE_WIDTH] at hr hc ⊢
    rw [hcells]
    by_cases hball : (r : Int) = 1 + g.ball_y ∧ (c : Int) = 1 + g.ball_x
    · have hplace : boxIndex r c = (4 + g.ball_y.toNat) * 80 + (53 + g.ball_x.toNat) := by omega
      rw [if_pos hball, if_neg (by omega), hplace, Function.update_self]
    · have hiff : (boxIndex 8 1 + g.paddle_x ≤ boxIndex r c ∧
            (boxIndex r c : Int) < boxIndex 8 1 + g.paddle_x + (6 : Nat)) ↔
          r = 8 ∧ 1 + g.paddle_x ≤ c ∧ (c : Int) ≤ g.paddle_x + (6 : Nat) := by omega
      rw [if_neg hball, Function.update_of_ne (by omega), hbox r hr c hc]
      simp only [hiff]
  · have hother : ∀ r < 10, ∀ c < 22, x ≠ (3 + r) * 80 + 52 + c := hx
    have hball := hother (1 + g.ball_y.toNat) (by omega) (1 + g.ball_x.toNat) (by omega)
    have hpaddle := hother 8 (by decide) (x - 932)
    rw [hcells, if_neg (by omega), Function.update_of_ne (by omega)]
    exact hout x hx

end Drawn

/-- For all sequences of calls, also before the game has been initialised: the
ball is in the frame and above the paddle's row, the paddle is in the frame, the
monitor draws them so, and every call of a task adds from 1 to 19 to its counter
and leaves the others alone. -/
theorem game_stays_inside (ops : List GameOp) :
    let t := ops.foldl Tasks.step .zero
    t.ck_game.Inside ∧ (∀ s, Framed t.ck_game s (draw_game_frame s (ck_game_get_state t).shown)) ∧
      ∀ d : Demo, ∃ work : Nat, 1 ≤ work ∧ work ≤ 19 ∧ (t.step (.run d)).ck_task_counter =
        t.ck_task_counter.set d.index (t.ck_task_counter[d.index] + .ofNat 32 work) := by
  intro t
  have h : Sound t := run_inv Tasks.step Sound (fun t op ht _ => sound_step t op ht) ops .zero sound_zero
    (allowed_all Tasks.step)
  exact ⟨h.inside, fun s => framed h.inside s, fun d => (h.call d).2⟩

end CheesecakeOS.Game
