import CheesecakeOS.Kernel.Tasks
/-!
# Bounces

The scheduler calls the three tasks in order, so a run of the game is a list of
rounds, with keys wherever they come. The ball moves in every second frame but
is compared with the paddle in each; a ball that has just been returned is
compared once more before it moves, and in between the second task has moved the
paddle. `missed_on_way_down_iff` says when that loses the ball.
-/
open Lib

namespace CheesecakeOS.Game

open Shell (CK_GAME_WIDTH CK_GAME_HEIGHT CK_GAME_PADDLE_WIDTH)

/-! ## Rounds -/

/-- The keys that come before each of the three tasks. -/
structure Round where
  before_1 : List U8
  before_2 : List U8
  before_3 : List U8

def Tasks.keys (t : Tasks) (cs : List U8) : Tasks := cs.foldl ck_game_on_key t

namespace Round

def atDemo1 (r : Round) (t : Tasks) : Tasks := t.keys r.before_1

def atDemo2 (r : Round) (t : Tasks) : Tasks := (ck_task_demo_1 (r.atDemo1 t)).1.keys r.before_2

def atDemo3 (r : Round) (t : Tasks) : Tasks := (ck_task_demo_2 (r.atDemo2 t)).1.keys r.before_3

def after (t : Tasks) (r : Round) : Tasks := (ck_task_demo_3 (r.atDemo3 t)).1

end Round

/-- From a new game. -/
def play (t : Tasks) (rounds : List Round) : Tasks := rounds.foldl Round.after (ck_game_init t)

/-- The first task takes the branch that puts the ball at (2, 1). -/
def State.Misses (g : State) : Prop := g.atBottom.1.ball_y ≥ CK_GAME_HEIGHT - 2 ∧ ¬ g.atBottom.1.OnPaddle

instance decidableMisses (g : State) : Decidable g.Misses := inferInstanceAs (Decidable (_ ∧ _))

/-- The second task will move the paddle to the right. -/
def Tasks.MovesRight (t : Tasks) : Prop :=
  (t.ck_game_input_dir = 1 ∧ t.ck_game.paddle_x < CK_GAME_WIDTH - CK_GAME_PADDLE_WIDTH) ∨
    (t.ck_game_input_dir = 0 ∧ t.ck_game.paddle_x < (CK_GAME_WIDTH - CK_GAME_PADDLE_WIDTH) / 2)

def Tasks.MovesLeft (t : Tasks) : Prop :=
  (t.ck_game_input_dir = -1 ∧ 0 < t.ck_game.paddle_x) ∨
    (t.ck_game_input_dir = 0 ∧ (CK_GAME_WIDTH - CK_GAME_PADDLE_WIDTH) / 2 < t.ck_game.paddle_x)

/-- An even frame has left the ball in the last row, above one end of the
paddle, and the paddle is about to move to the other side. -/
def Tasks.LeavesBall (t : Tasks) : Prop :=
  t.ck_game.frame % 2 = 0 ∧ t.ck_game.ball_y = CK_GAME_HEIGHT - 2 ∧
    ((t.ck_game.ball_x = t.ck_game.paddle_x ∧ t.MovesRight) ∨
      (t.ck_game.ball_x = t.ck_game.paddle_x + CK_GAME_PADDLE_WIDTH - 1 ∧ t.MovesLeft))

/-! ## One round -/

/-- Between the tasks: the ball is on its way up or down, and up if it is in the
last row. -/
structure Rallying (t : Tasks) : Prop where
  sound : Sound t
  dy : t.ck_game.ball_dy = 1 ∨ t.ck_game.ball_dy = -1
  returned : t.ck_game.ball_y = 6 → t.ck_game.ball_dy = -1

theorem rallying_init (t : Tasks) : Rallying (ck_game_init t) := by
  obtain ⟨hgame, -, -⟩ := init_spec t
  refine ⟨sound_init t, .inl ?_, ?_⟩
  · rw [hgame]
  · rw [hgame]
    intro h
    cases h

theorem keys_game (cs : List U8) (t : Tasks) : (t.keys cs).ck_game = t.ck_game := by
  induction cs generalizing t with
  | nil => rfl
  | cons c cs ih =>
    calc ((ck_game_on_key t c).keys cs).ck_game = (ck_game_on_key t c).ck_game := ih _
      _ = t.ck_game := (on_key_spec t c).1

theorem Rallying.keys {t : Tasks} (h : Rallying t) (cs : List U8) : Rallying (t.keys cs) := by
  have hs : Sound (t.keys cs) := by
    have hstep := run_inv ck_game_on_key Sound (fun t c ht _ => ht.key c) cs t h.sound (allowed_all ck_game_on_key)
    exact hstep
  refine ⟨hs, ?_, ?_⟩
  · rw [keys_game]
    exact h.dy
  · rw [keys_game]
    exact h.returned

theorem tmod_two (z : Int) : z.tmod 2 = 0 ↔ z % 2 = 0 := by
  rw [← Int.dvd_iff_tmod_eq_zero, Int.dvd_iff_emod_eq_zero]

/-- The ball before the last row is looked at: an odd frame has left it where it was. -/
theorem State.atBottom_moves {g : State} (h : g.Inside) (hd : g.ball_dy = 1 ∨ g.ball_dy = -1) :
    g.atBottom.1.paddle_x = g.paddle_x ∧
      (g.atBottom.1.ball_dy = 1 ∨ g.atBottom.1.ball_dy = -1) ∧
      ((g.frame % 2 = 0 ∧ g.atBottom.1.ball_y = g.ball_y ∧ g.atBottom.1.ball_x = g.ball_x) ∨
        (g.frame % 2 ≠ 0 ∧ (g.atBottom.1.ball_y = g.ball_y + g.ball_dy ∨ g.atBottom.1.ball_y = 0))) := by
  obtain ⟨-, -, hdy, hp, hmove⟩ := g.advance_spec
  obtain ⟨-, -, hkeep, -, hwy, hwdy, hwp, -⟩ := g.advance.walls_spec
  obtain ⟨-, hbelow, hceil, hcx, -, hcp, -⟩ := g.advance.walls.1.ceiling_spec
  have hl := h.left
  have hr := h.right
  have htop := h.top
  have hu : g.atBottom.1 = g.advance.walls.1.ceiling.1 := rfl
  simp only [ne_eq, tmod_two] at hmove
  rw [hu]
  have hupdown : g.advance.walls.1.ceiling.1.ball_dy = 1 ∨ g.advance.walls.1.ceiling.1.ball_dy = -1 := by
    rcases hceil with ⟨-, hup, -⟩ | ⟨hsame, -⟩
    · exact .inl hup
    · rw [hsame]
      omega
  have hy : g.advance.walls.1.ceiling.1.ball_y = g.advance.ball_y ∨
      (g.advance.walls.1.ceiling.1.ball_y = 0 ∧ g.advance.ball_y ≤ 0) := by
    by_cases hpos : 0 < g.advance.walls.1.ball_y
    · rw [hbelow hpos]
      exact .inl hwy
    · rcases hceil with ⟨h0, -, -⟩ | ⟨hsame, -⟩
      · exact .inr ⟨h0, by omega⟩
      · rw [hsame]
        exact .inl hwy
  refine ⟨by omega, hupdown, ?_⟩
  rcases hmove with ⟨heven, -, hyy⟩ | ⟨hodd, hx, hyy⟩
  · exact .inr ⟨by omega, by omega⟩
  · exact .inl ⟨by omega, by omega, by rw [hcx, hkeep (by omega) (by omega), hx]⟩

/-- A miss by a ball that is not on its way down. -/
theorem Rallying.late_miss {t : Tasks} (h : Rallying t) :
    (t.ck_game.Misses ∧ t.ck_game.ball_dy ≠ 1) ↔
      t.ck_game.frame % 2 = 0 ∧ t.ck_game.ball_y = 6 ∧ ¬ t.ck_game.OnPaddle := by
  obtain ⟨hp, -, hmove⟩ := State.atBottom_moves h.sound.inside h.dy
  have habove := h.sound.inside.above
  have hret := h.returned
  have hd := h.dy
  simp only [State.Misses, State.OnPaddle, CK_GAME_HEIGHT, hp]
  rcases hmove with ⟨heven, hy, hx⟩ | ⟨hodd, hy⟩
  · rw [hx, hy]
    constructor
    · rintro ⟨⟨hbot, hoff⟩, -⟩
      exact ⟨heven, by omega, hoff⟩
    · rintro ⟨-, hbot, hoff⟩
      exact ⟨⟨by omega, hoff⟩, by omega⟩
  · -- on its way down it is above the last row, and on its way up it is after the move
    constructor
    · rintro ⟨⟨hbot, -⟩, hup⟩
      omega
    · rintro ⟨heven, -, -⟩
      omega

/-- What the first task leaves: a ball in the last row is above the paddle. -/
theorem Rallying.demo_1 {t : Tasks} (h : Rallying t) : Rallying (ck_task_demo_1 t).1 ∧
    ((ck_task_demo_1 t).1.ck_game.ball_y = 6 → (ck_task_demo_1 t).1.ck_game.OnPaddle) := by
  obtain ⟨-, hd, -⟩ := State.atBottom_moves h.sound.inside h.dy
  have hsound : Sound (ck_task_demo_1 t).1 := (h.sound.call .demo_1).1
  have hgame : (ck_task_demo_1 t).1.ck_game = t.ck_game.atBottom.1.bottom.1 := rfl
  rcases t.ck_game.atBottom.1.bottom_cases with ⟨hy, he⟩ | ⟨hy, hon, he⟩ | ⟨hy, -, he⟩
  · rw [he] at hgame
    refine ⟨⟨hsound, by rw [hgame]; exact hd, ?_⟩, ?_⟩
    all_goals
      rw [hgame]
      intro h6
      exact absurd h6 (Int.ne_of_lt hy)
  · rw [he] at hgame
    refine ⟨⟨hsound, by rw [hgame]; exact .inr rfl, by rw [hgame]; exact fun _ => rfl⟩, ?_⟩
    rw [hgame]
    exact fun _ => hon
  · rw [he] at hgame
    refine ⟨⟨hsound, by rw [hgame]; exact .inl rfl, ?_⟩, ?_⟩
    all_goals
      rw [hgame]
      intro h6
      cases h6

theorem State.clampPaddle_paddle (g : State) : g.clampPaddle.paddle_x = max 0 (min g.paddle_x 14) := by
  unfold clampPaddle
  simp only [CK_GAME_WIDTH, CK_GAME_PADDLE_WIDTH]
  split
  · dsimp only
    omega
  · split
    · dsimp only
      omega
    · omega

theorem State.movePaddle_paddle (g : State) (dir : Int) :
    (dir ≠ 0 ∧ (g.movePaddle dir).1.paddle_x = g.paddle_x + dir) ∨
      (dir = 0 ∧ g.paddle_x < 7 ∧ (g.movePaddle dir).1.paddle_x = g.paddle_x + 1) ∨
      (dir = 0 ∧ 7 < g.paddle_x ∧ (g.movePaddle dir).1.paddle_x = g.paddle_x - 1) ∨
      (dir = 0 ∧ g.paddle_x = 7 ∧ (g.movePaddle dir).1.paddle_x = g.paddle_x) := by
  unfold movePaddle
  simp only [CK_GAME_WIDTH, CK_GAME_PADDLE_WIDTH]
  split
  · dsimp only
    omega
  · split
    · dsimp only
      omega
    · split <;> dsimp only <;> omega

/-- The paddle's move. -/
theorem paddle_moves {t : Tasks} (h : Sound t) :
    (ck_task_demo_2 t).1.ck_game = { t.ck_game with paddle_x := (ck_task_demo_2 t).1.ck_game.paddle_x } ∧
    ((t.MovesRight ∧ ¬ t.MovesLeft ∧ (ck_task_demo_2 t).1.ck_game.paddle_x = t.ck_game.paddle_x + 1) ∨
      (t.MovesLeft ∧ ¬ t.MovesRight ∧ (ck_task_demo_2 t).1.ck_game.paddle_x = t.ck_game.paddle_x - 1) ∨
      (¬ t.MovesRight ∧ ¬ t.MovesLeft ∧ (ck_task_demo_2 t).1.ck_game.paddle_x = t.ck_game.paddle_x)) := by
  obtain ⟨-, -, hsame, -, -⟩ := State.paddle_spec t.ck_game t.ck_game_input_dir
  refine ⟨hsame, ?_⟩
  have hgame : (ck_task_demo_2 t).1.ck_game = (t.ck_game.movePaddle t.ck_game_input_dir).1.clampPaddle := rfl
  have hge := h.dir_ge
  have hle := h.dir_le
  have hl := h.inside.paddle_left
  have hr := h.inside.paddle_right
  rw [hgame, State.clampPaddle_paddle]
  simp only [Tasks.MovesRight, Tasks.MovesLeft, CK_GAME_WIDTH, CK_GAME_PADDLE_WIDTH]
  rcases t.ck_game.movePaddle_paddle t.ck_game_input_dir with
    ⟨hdir, hp⟩ | ⟨hdir, hlt, hp⟩ | ⟨hdir, hgt, hp⟩ | ⟨hdir, hmid, hp⟩
  · obtain h1 | h1 : t.ck_game_input_dir = 1 ∨ t.ck_game_input_dir = -1 := by omega
    · omega
    · omega
  · exact .inl (by omega)
  · exact .inr (.inl (by omega))
  · exact .inr (.inr (by omega))

/-- The second task may take the paddle from under the ball, no more. -/
theorem Rallying.demo_2 {t : Tasks} (h : Rallying t) : Rallying (ck_task_demo_2 t).1 ∧
    (ck_task_demo_2 t).1.ck_game.frame = t.ck_game.frame ∧
    (ck_task_demo_2 t).1.ck_game.ball_y = t.ck_game.ball_y ∧
    (t.ck_game.OnPaddle → (¬ (ck_task_demo_2 t).1.ck_game.OnPaddle ↔
      (t.ck_game.ball_x = t.ck_game.paddle_x ∧ t.MovesRight) ∨
        (t.ck_game.ball_x = t.ck_game.paddle_x + CK_GAME_PADDLE_WIDTH - 1 ∧ t.MovesLeft))) := by
  obtain ⟨hsame, hpaddle⟩ := paddle_moves h.sound
  have hsound : Sound (ck_task_demo_2 t).1 := (h.sound.call .demo_2).1
  refine ⟨⟨hsound, by rw [hsame]; exact h.dy, by rw [hsame]; exact h.returned⟩, by rw [hsame], by rw [hsame], ?_⟩
  have hx : (ck_task_demo_2 t).1.ck_game.ball_x = t.ck_game.ball_x := by rw [hsame]
  simp only [State.OnPaddle, CK_GAME_PADDLE_WIDTH, hx]
  intro hon
  rcases hpaddle with ⟨hr, hl, hp⟩ | ⟨hl, hr, hp⟩ | ⟨hr, hl, hp⟩
  · simp only [hr, hl, and_true, and_false, or_false, hp]
    omega
  · simp only [hr, hl, and_true, and_false, false_or, hp]
    omega
  · simp only [hr, hl, and_false, or_false, iff_false, not_not, hp]
    exact hon

theorem Rallying.demo_3 {t : Tasks} (h : Rallying t) : Rallying (ck_task_demo_3 t).1 :=
  ⟨(h.sound.call .demo_3).1, h.dy, h.returned⟩

theorem Rallying.after {t : Tasks} (h : Rallying t) (r : Round) : Rallying (r.after t) := by
  have h2 : Rallying (r.atDemo2 t) := (h.keys r.before_1).demo_1.1.keys r.before_2
  exact (h2.demo_2.1.keys r.before_3).demo_3

theorem rallying_play (t : Tasks) (rounds : List Round) : Rallying (play t rounds) :=
  run_inv Round.after Rallying (fun _ r h _ => h.after r) rounds _ (rallying_init t)
    (allowed_all _)

/-- The next round loses a ball on its way up just when this one leaves it. -/
theorem Rallying.late_miss_after {t : Tasks} (h : Rallying t) (r r' : Round) :
    ((r'.atDemo1 (r.after t)).ck_game.Misses ∧ (r'.atDemo1 (r.after t)).ck_game.ball_dy ≠ 1) ↔
      (r.atDemo2 t).LeavesBall := by
  have h1 : Rallying (r.atDemo1 t) := h.keys r.before_1
  have h2 : Rallying (r.atDemo2 t) := h1.demo_1.1.keys r.before_2
  have hgame : (r'.atDemo1 (r.after t)).ck_game = (ck_task_demo_2 (r.atDemo2 t)).1.ck_game := by
    calc (r'.atDemo1 (r.after t)).ck_game = (r.after t).ck_game := keys_game r'.before_1 _
      _ = (r.atDemo3 t).ck_game := rfl
      _ = (ck_task_demo_2 (r.atDemo2 t)).1.ck_game := keys_game r.before_3 _
  have hon : (r.atDemo2 t).ck_game.ball_y = 6 → (r.atDemo2 t).ck_game.OnPaddle := by
    have hkeys : (r.atDemo2 t).ck_game = (ck_task_demo_1 (r.atDemo1 t)).1.ck_game := keys_game r.before_2 _
    rw [hkeys]
    exact h1.demo_1.2
  obtain ⟨-, hframe, hy, hoff⟩ := h2.demo_2
  have hnext : Rallying (r'.atDemo1 (r.after t)) := (h.after r).keys r'.before_1
  rw [hnext.late_miss, hgame, hframe, hy]
  constructor
  · rintro ⟨heven, h6, hnot⟩
    exact ⟨heven, h6, (hoff (hon h6)).1 hnot⟩
  · rintro ⟨heven, h6, hends⟩
    exact ⟨heven, h6, (hoff (hon h6)).2 hends⟩

/-! ## Whole runs -/

theorem play_concat (t : Tasks) (pre : List Round) (r : Round) : play t (pre ++ [r]) = r.after (play t pre) := by
  unfold play
  rw [List.foldl_append]
  rfl

/-- A ball is only missed on its way down exactly when no round but the last
leaves a returned ball beside the paddle. -/
theorem missed_on_way_down_iff (t : Tasks) (rounds : List Round) :
    (∀ pre r, pre ++ [r] <+: rounds → (r.atDemo1 (play t pre)).ck_game.Misses →
      (r.atDemo1 (play t pre)).ck_game.ball_dy = 1) ↔
    ∀ pre r r', pre ++ [r, r'] <+: rounds → ¬ (r.atDemo2 (play t pre)).LeavesBall := by
  constructor
  · intro h pre r r' hp hleaves
    obtain ⟨hmiss, hup⟩ := ((rallying_play t pre).late_miss_after r r').2 hleaves
    rw [← play_concat] at hmiss hup
    exact hup (h (pre ++ [r]) r' (by simpa using hp) hmiss)
  · intro h pre r hp hmiss
    rcases List.eq_nil_or_concat pre with rfl | ⟨pre, r₀, rfl⟩
    · rw [show play t [] = ck_game_init t from rfl, Round.atDemo1, keys_game, (init_spec t).1]
    · by_contra hup
      rw [List.concat_eq_append, play_concat] at hmiss hup
      exact h pre r₀ r (by simpa using hp) (((rallying_play t pre).late_miss_after r₀ r).1 ⟨hmiss, hup⟩)

/-- Six rounds, a key to the left, a round that returns the ball at the paddle's
end, and one that misses it. -/
theorem returned_ball_missed :
    let quiet : Round := ⟨[], [], []⟩
    let left : Round := ⟨[0x61], [], []⟩
    ¬ ∀ pre r, pre ++ [r] <+: List.replicate 6 quiet ++ [left, quiet, quiet] →
      (r.atDemo1 (play .zero pre)).ck_game.Misses → (r.atDemo1 (play .zero pre)).ck_game.ball_dy = 1 := by
  intro quiet left h
  have hdown := h (List.replicate 6 quiet ++ [left, quiet]) quiet (List.prefix_refl _) (by decide +kernel)
  exact absurd hdown (by decide +kernel)

end CheesecakeOS.Game
