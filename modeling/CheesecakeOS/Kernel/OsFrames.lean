import CheesecakeOS.Kernel.Monitor
import CheesecakeOS.Kernel.OsShell
/-!
# What the monitor shows

`Proper`: in a run of the kernel the monitor finds the three tasks in every
frame, with the ball and the paddle in their field. Between two frames of a
session there is one round of the scheduler, in which each task adds from 1 to 19
to its counter. So from the second frame of a session on the shares are right
(`session_shares`); the first frame of a session has all that was counted since
the session before, or since boot, and nothing bounds it.
-/
open Lib

namespace CheesecakeOS.Os

open ReadChar (Sys)
open Shell
open Game (Demo System Tasks Tabled Sound quiet)

/-! ## A round -/

/-- What the tasks added to their counters. -/
def Added (counter counter' : Nat → U32) (d : Nat → Nat) : Prop :=
  ∀ i < 3, 1 ≤ d i ∧ d i ≤ 19 ∧ counter' i = counter i + .ofNat 32 (d i)

/-- `ck_task_counter[i]` among the statics of the tasks. -/
def counter (t : Tasks) (i : Nat) : U32 := t.ck_task_counter[i]?.getD 0

/-- A task adds to its own counter. -/
theorem call_counter {t : Tasks} (h : Sound t) (d : Demo) : Sound (d.call t).1 ∧
    ∃ work : Nat, 1 ≤ work ∧ work ≤ 19 ∧
      counter (d.call t).1 = Function.update (counter t) d.index (counter t d.index + .ofNat 32 work) := by
  obtain ⟨hsound, work, h1, h19, hset⟩ := h.call d
  refine ⟨hsound, work, h1, h19, ?_⟩
  funext i
  unfold counter
  rw [hset]
  by_cases hi : i = d.index.val
  · subst hi
    rw [Function.update_self]
    simp
  · rw [Function.update_of_ne hi, Vector.getElem?_set_ne _ fun h => hi h.symm]

/-- The work of the three tasks in a round. -/
def works (w₁ w₂ w₃ : Nat) : Nat → Nat
  | 0 => w₁
  | 1 => w₂
  | _ => w₃

theorem quiet_counter {t : Tasks} (h : Sound t) :
    Sound (quiet.after t) ∧ ∃ d, Added (counter t) (counter (quiet.after t)) d := by
  obtain ⟨h₁, w₁, hl₁, hu₁, hc₁⟩ := call_counter h .demo_1
  obtain ⟨h₂, w₂, hl₂, hu₂, hc₂⟩ := call_counter h₁ .demo_2
  obtain ⟨h₃, w₃, hl₃, hu₃, hc₃⟩ := call_counter h₂ .demo_3
  have hafter : counter (quiet.after t) = Function.update (Function.update (Function.update (counter t) 0
      (counter t 0 + .ofNat 32 w₁)) 1 (counter t 1 + .ofNat 32 w₂)) 2 (counter t 2 + .ofNat 32 w₃) := by
    change counter (quiet.after t) = _ at hc₃
    rw [hc₃, hc₂, hc₁]
    rfl
  refine ⟨h₃, works w₁ w₂ w₃, fun i hi => ?_⟩
  rw [hafter]
  match i, hi with
  | 0, _ => exact ⟨hl₁, hu₁, rfl⟩
  | 1, _ => exact ⟨hl₂, hu₂, rfl⟩
  | 2, _ => exact ⟨hl₃, hu₃, rfl⟩

/-- The tasks are in the table and the game is as it may be. -/
structure Playing (y : System) : Prop where
  tabled : Tabled 3 y.scheduler
  sound : Sound y.tasks

theorem Playing.round {fuel : Nat} {y y' : System} (h : Playing y) (hrun : y.run_tasks fuel = some y') :
    Playing y' ∧ ∃ d, Added (counter y.tasks) (counter y'.tasks) d := by
  obtain ⟨s, t⟩ := y
  by_cases hc : t.ck_game.Counts
  · obtain ⟨s', hs', htab⟩ := h.tabled.round fuel hc
    rw [hs'] at hrun
    cases hrun
    obtain ⟨hsound, hadded⟩ := quiet_counter h.sound
    exact ⟨⟨htab, hsound⟩, hadded⟩
  · -- `frame++` would overflow.
    rw [h.tabled.no_round fuel hc] at hrun
    cases hrun

/-! ## The frames of a session -/

/-- A frame of the three tasks and of a game in its field. -/
def Proper (k : Kernel Demo) : Prop := Tabled 3 k.scheduler ∧ ∃ g : Game.State, g.Inside ∧ k.ck_game = g.shown

/-- One round lies between these frames. -/
def Next (k k' : Kernel Demo) : Prop := ∃ d, Added k.counter k'.counter d

structure Showing (σ : State) : Prop where
  playing : Playing σ.system
  proper : ∀ k ∈ sessionFrames σ.log, Proper k
  next : List.IsChain Next (sessionFrames σ.log)
  last : σ.pc.InMonitor → ∀ k ∈ (sessionFrames σ.log).getLast?, k.counter = counter σ.system.tasks

section Steps
variable {fuel : Nat} {σ σ' : State}

/-- Nothing is drawn. -/
theorem Showing.keeps (h : Showing σ) (hplaying : Playing σ'.system)
    (hframes : sessionFrames σ'.log = sessionFrames σ.log)
    (hlast : σ'.pc.InMonitor → σ.pc.InMonitor ∧ counter σ'.system.tasks = counter σ.system.tasks) : Showing σ' := by
  refine ⟨hplaying, by rw [hframes]; exact h.proper, by rw [hframes]; exact h.next, fun hin k hk => ?_⟩
  obtain ⟨hin, hsame⟩ := hlast hin
  rw [hframes] at hk
  rw [hsame]
  exact h.last hin k hk

theorem sessionFrames_key (log : List Event) (c : U8) : sessionFrames (log ++ [.key c]) = sessionFrames log :=
  sessionFrames_append log (.key c)

theorem sessionFrames_read (log : List Event) (c : U8) : sessionFrames (log ++ [.read c]) = sessionFrames log :=
  sessionFrames_append log (.read c)

/-- The frame that is drawn after a round. -/
theorem proper_kernel (σ : State) (h : Playing σ.system) : Proper σ.kernel := ⟨h.tabled, _, h.sound.inside, rfl⟩

theorem Showing.move (h : Showing σ) (hmove : Move fuel σ σ') : Showing σ' := by
  have hplaying := h.playing
  cases hmove with
  | start => exact h.keeps hplaying rfl fun hin => hin.elim
  | @round i y y' m log hr =>
    exact h.keeps (hplaying.round hr).1 (sessionFrames_append log .round) fun hin => hin.elim
  | access hr => exact h.keeps hplaying rfl fun hin => hin.elim
  | @unused i y m log c hr hc => exact h.keeps hplaying (sessionFrames_read log c) fun hin => hin.elim
  | @enter i y m log hr => exact h.keeps hplaying (sessionFrames_read log _) fun hin => hin.elim
  | @erase i y m log hr => exact h.keeps hplaying (sessionFrames_read log _) fun hin => hin.elim
  | @insert i y m log c hr hp => exact h.keeps hplaying (sessionFrames_read log c) fun hin => hin.elim
  | returns hn hm => exact h.keeps hplaying rfl fun hin => hin.elim
  | halts hn hm => exact h.keeps hplaying rfl fun hin => hin.elim
  | @opens i y m log ho =>
    have hnone : sessionFrames (log ++ [.opened]) = [] := sessionFrames_append log .opened
    refine ⟨⟨hplaying.tabled, Game.sound_init _⟩, ?_, ?_, fun _ => ?_⟩
    · rw [hnone]
      simp
    · rw [hnone]
      exact .nil
    · rw [hnone]
      simp
  | drainAccess hr => exact h.keeps hplaying rfl fun hin => ⟨hin, rfl⟩
  | @drained i y m s log hr => exact h.keeps hplaying (sessionFrames_key log 0) fun hin => ⟨hin, rfl⟩
  | @quit i y m s log c hr hq => exact h.keeps hplaying (sessionFrames_key log c) fun hin => ⟨hin, rfl⟩
  | @steer i y m s log c hr hs =>
    refine h.keeps ⟨hplaying.tabled, hplaying.sound.key c⟩ (sessionFrames_key log c) fun hin => ⟨hin, ?_⟩
    funext j
    unfold counter
    rw [(Game.on_key_spec y.tasks c).2.1]
  | @ignored i y m s log c hr h0 hq hs => exact h.keeps hplaying (sessionFrames_key log c) fun hin => ⟨hin, rfl⟩
  | @closes i y m s log he => exact h.keeps hplaying (sessionFrames_append log .closed) fun hin => hin.elim
  | waits he hw => exact h.keeps hplaying rfl fun hin => ⟨hin, rfl⟩
  | @frame i y y' m s log he hw hy =>
    obtain ⟨hround, hadded⟩ := hplaying.round hy
    have hframes := sessionFrames_append log (.frame i.time (State.kernel ⟨i, y', m, .drained s, log⟩))
    refine ⟨hround, fun k hk => ?_, ?_, fun _ k hk => ?_⟩
    · rw [hframes, List.mem_append] at hk
      rcases hk with hk | hk
      · exact h.proper k hk
      · rw [List.mem_singleton.1 hk]
        exact proper_kernel _ hround
    · rw [hframes, List.isChain_append]
      refine ⟨h.next, .singleton _, fun k hk k' hk' => ?_⟩
      cases hk'
      -- Since the frame before, nothing has run but this round.
      have hsame := h.last trivial k hk
      unfold Next
      rw [hsame]
      exact hadded
    · rw [hframes, List.getLast?_concat] at hk
      cases hk
      rfl
  | halted => exact h

end Steps

theorem showing_run {fuel : Nat} {s : Scheduler Demo} {screen : Screen} {input_buffer : Vector U8 256}
    {actions : List Action} {σ : State} (hs : Tabled 3 s) (h : run fuel s screen input_buffer actions = some σ) :
    Showing σ := by
  refine run_keeps Showing ⟨⟨hs, Game.sound_zero⟩, ?_, .nil, fun hin => hin.elim⟩ ?_
    (fun _ _ hI hmove => hI.move hmove) h
  · intro k hk
    cases hk
  · intro i y m pc log a hI _
    exact ⟨hI.playing, hI.proper, hI.next, hI.last⟩

/-! ## The screen -/

/-- After a frame the monitor's screen is that frame over what was there. -/
theorem monitored_frame (m : ShellState) (frames : List (Kernel Demo)) (k : Kernel Demo) :
    (monitored m (frames ++ [k])).screen =
      drawFrame k (monitored m frames).prev_counters (monitored m frames).screen := by
  unfold monitored
  rw [List.foldl_append]
  rfl

theorem monitored_counters (m : ShellState) (frames : List (Kernel Demo)) {k : Kernel Demo} (hk : Proper k) {i : Nat}
    (hi : i < 3) : (monitored m (frames ++ [k])).prev_counters i = k.counter i := by
  unfold monitored
  rw [List.foldl_append]
  refine if_pos ?_
  rw [show (ck_scheduler_task_count k.scheduler).toNat = 3 from hk.1.count]
  exact hi

/-- In the monitor the thread's screen is the one of the session's frames. -/
theorem monitor_screen {fuel : Nat} {s : Scheduler Demo} {screen : Screen} {input_buffer : Vector U8 256}
    {actions : List Action} {σ : State} (h : run fuel s screen input_buffer actions = some σ) (hin : σ.pc.InMonitor) :
    ∃ m, σ.shell = monitored m (sessionFrames σ.log) := by
  have hat := shellAt_run h
  obtain ⟨i, y, m, pc, log⟩ := σ
  cases pc with
  | draining s =>
    obtain ⟨cs, m₀, -, -, -, hm⟩ := hat
    exact ⟨m₀, hm⟩
  | drained s =>
    obtain ⟨cs, m₀, -, -, -, hm⟩ := hat
    exact ⟨m₀, hm⟩
  | _ => exact hin.elim

section Shares
variable {k₀ k : Kernel Demo} {d : Nat → Nat} {prev : Nat → U32}

theorem added_delta (h : Added k₀.counter k.counter d) (hprev : ∀ i < 3, prev i = k₀.counter i) {i : Nat} (hi : i < 3) :
    delta k prev i = d i := by
  obtain ⟨-, hle, hadd⟩ := h i hi
  unfold delta taskDeltas
  rw [hprev i hi, hadd, BitVec.add_comm, BitVec.add_sub_cancel, BitVec.toNat_ofNat]
  exact Nat.mod_eq_of_lt (by omega)

/-- Deltas of a round are so small that nothing wraps. -/
theorem added_total (hk : Proper k) (h : Added k₀.counter k.counter d) (hprev : ∀ i < 3, prev i = k₀.counter i) :
    (totalDelta k prev).toNat = d 0 + d 1 + d 2 := by
  have hcount : (ck_scheduler_task_count k.scheduler).toNat = 3 := hk.1.count
  obtain ⟨hl₀, hu₀, -⟩ := h 0 (by decide)
  obtain ⟨-, hu₁, -⟩ := h 1 (by decide)
  obtain ⟨-, hu₂, -⟩ := h 2 (by decide)
  rw [toNat_totalDelta, hcount, wrapped, Finset.sum_range_succ, Finset.sum_range_succ, Finset.sum_range_succ,
    Finset.sum_range_zero, added_delta h hprev (by decide : 0 < 3), added_delta h hprev (by decide : 1 < 3),
    added_delta h hprev (by decide : 2 < 3)]
  omega

/-- A frame one round after another shows each task its share of the round. -/
theorem shares_of_round (hk : Proper k) (h : Added k₀.counter k.counter d) (hprev : ∀ i < 3, prev i = k₀.counter i)
    (s : Screen) {i : Nat} (hi : i < 3) :
    TaskRow (drawFrame k prev s) (12 + i) (100 * d i / (d 0 + d 1 + d 2)) (20 * d i / (d 0 + d 1 + d 2)) := by
  have hcount : (ck_scheduler_task_count k.scheduler).toNat = 3 := hk.1.count
  have htotal := added_total hk h hprev
  have hdelta := added_delta h hprev hi
  obtain ⟨hl, hu, -⟩ := h i hi
  have hsum : d i ≤ d 0 + d 1 + d 2 := by
    match i, hi with
    | 0, _ => omega
    | 1, _ => omega
    | 2, _ => omega
  have hne : totalDelta k prev ≠ 0#32 := by
    intro h0
    rw [h0] at htotal
    change 0 = _ at htotal
    omega
  have hrow : TaskRow (drawFrame k prev s) (12 + i) _ _ :=
    drawFrame_shows (by rw [hcount]; decide) (by rw [hcount]; exact hi)
  change (taskDeltas k prev i).toNat = d i at hdelta
  rw [toNat_percentOf, filledOf_eq hne, htotal, hdelta, Nat.mod_eq_of_lt (by omega), Nat.mod_eq_of_lt (by omega),
    Nat.min_eq_left (Nat.div_le_of_le_mul (by omega))] at hrow
  exact hrow

end Shares

/-- In every run with the three tasks, whenever interrupts come: from the second frame of a
session of the monitor on, the screen shows each task its share of what the tasks
have counted since the frame before, the percentage and the bar rounded down. This
is the work of one round, from 1 to 19 for each task. -/
theorem session_shares (fuel : Nat) (s : Scheduler Demo) (screen : Screen) (input_buffer : Vector U8 256)
    (actions : List Action) (σ : State) (hs : Tabled 3 s) (h : run fuel s screen input_buffer actions = some σ)
    (hin : σ.pc.InMonitor) (frames : List (Kernel Demo)) (k₀ k : Kernel Demo)
    (hframes : sessionFrames σ.log = frames ++ [k₀, k]) :
    ∃ d, Added k₀.counter k.counter d ∧ ∀ i < 3,
      TaskRow σ.shell.screen (12 + i) (100 * d i / (d 0 + d 1 + d 2)) (20 * d i / (d 0 + d 1 + d 2)) := by
  obtain ⟨-, hproper, hnext, -⟩ := showing_run hs h
  obtain ⟨m, hm⟩ := monitor_screen h hin
  rw [hframes] at hproper hnext hm
  obtain ⟨-, hlast, -⟩ := List.isChain_append.1 hnext
  obtain ⟨d, hd⟩ : Next k₀ k := List.isChain_pair.1 hlast
  refine ⟨d, hd, fun i hi => ?_⟩
  rw [hm, List.append_cons, monitored_frame]
  exact shares_of_round (hproper k (by simp)) hd (fun j hj => monitored_counters m frames (hproper k₀ (by simp)) hj) _ hi

/-- The three tasks as `ck_main` creates them, on a heap that nothing looks at. -/
def threeTasks : Scheduler Demo where
  ck_task_table := #v[⟨0, .ready, some .demo_1, 0, 0, 4096, 0, 0, 0⟩, ⟨1, .ready, some .demo_2, 0, 0, 4096, 0, 0, 0⟩,
    ⟨2, .ready, some .demo_3, 0, 0, 4096, 0, 0, 0⟩, .zero Demo, .zero Demo, .zero Demo, .zero Demo, .zero Demo]
  ck_task_count := 3
  ck_current_task_id := 0
  ck_context_switches := 0
  ck_current_context := ⟨none, 0⟩
  heap := ⟨fun _ => 0, 0, 0, 0, 0, .zero⟩
  structs := fun _ => .zero Demo
  log := []

theorem threeTasks_tabled : Tabled 3 threeTasks := by
  refine ⟨rfl, fun d _ => ?_⟩
  cases d <;> exact ⟨rfl, rfl⟩

/-- `taskmon` is typed, and the monitor draws twice. -/
def watching : List Action :=
  .run :: [0x14, 0x1E, 0x1F, 0x25, 0x32, 0x18, 0x31, 0x1C, 0x9C].map Action.keyboard ++ .replicate 50 .timer ++
    .replicate 44 .run ++ .replicate 50 .timer ++ .replicate 3 .run

theorem watched : ∃ σ k₀ k, run 0 threeTasks someScreen (.replicate 256 0) watching = some σ ∧ σ.pc.InMonitor ∧
    sessionFrames σ.log = [k₀, k] := by
  have hmap : ((run 0 threeTasks someScreen (.replicate 256 0) watching).map
      fun σ => (σ.pc, (sessionFrames σ.log).length)) = some (.draining ⟨100, false⟩, 2) := by
    decide +kernel
  obtain ⟨σ, hσ, heq⟩ := Option.map_eq_some_iff.1 hmap
  obtain ⟨hpc, hlen⟩ := Prod.mk.inj heq
  obtain ⟨k₀, k, hframes⟩ := List.length_eq_two.1 hlen
  exact ⟨σ, k₀, k, hσ, by rw [hpc]; trivial, hframes⟩

theorem session_shares_watching : ∃ σ k₀ k, run 0 threeTasks someScreen (.replicate 256 0) watching = some σ ∧
    sessionFrames σ.log = [k₀, k] ∧ ∃ d, Added k₀.counter k.counter d ∧ ∀ i < 3,
      TaskRow σ.shell.screen (12 + i) (100 * d i / (d 0 + d 1 + d 2)) (20 * d i / (d 0 + d 1 + d 2)) := by
  obtain ⟨σ, k₀, k, hσ, hin, hframes⟩ := watched
  exact ⟨σ, k₀, k, hσ, hframes, session_shares _ _ _ _ _ σ threeTasks_tabled hσ hin [] k₀ k hframes⟩

end CheesecakeOS.Os
