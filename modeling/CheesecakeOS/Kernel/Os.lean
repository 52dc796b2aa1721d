import CheesecakeOS.Drivers.ReadChar
import CheesecakeOS.Kernel.Dispatch
import CheesecakeOS.Kernel.GameClock
/-!
# The running kernel

Everything that `ck_main` has set up, as one machine: the keyboard and the
timer, the scheduler with its tasks, the shell and the task monitor. The code
of the kernel is one thread that is interrupted by the timer and the keyboard
at any time. The handlers share with it the statics of the keyboard driver and
the tick count only, so it is cut into steps at its accesses to these: `Pc` says
what the next one is for.

The log tells what the shell and the monitor did. Nothing reads it.
-/
open Lib

namespace CheesecakeOS.Os

open ReadChar (Sys)
open Shell
open Game (Demo System Tasks)

/-- The locals of `ck_visualizer_run_monitor`. -/
structure Session where
  last_draw : U32
  exit_requested : Bool
deriving DecidableEq

inductive Pc where
  /-- `ck_shell_run` is about to draw its first screen. -/
  | start
  /-- At the head of the shell's loop. -/
  | head
  /-- In `ck_keyboard_read_char`, called by the shell. -/
  | reading
  /-- Enter was read. -/
  | entered
  /-- In `ck_keyboard_read_char`, called by the monitor. -/
  | draining (s : Session)
  /-- The monitor has read all there was. -/
  | drained (s : Session)
  /-- After `cli` and `hlt`. -/
  | halted
deriving DecidableEq

def Pc.InMonitor : Pc → Prop
  | .draining _ | .drained _ => True
  | _ => False

inductive Event where
  /-- A round of the shell's loop. -/
  | round
  /-- A character returned to the shell. -/
  | read (c : U8)
  | opened
  /-- A character returned to the monitor. -/
  | key (c : U8)
  /-- A frame drawn, with its round, at a number of ticks. -/
  | frame (time : Nat) (k : Kernel Demo)
  | closed

inductive Action where
  | timer
  | keyboard (scancode : U8)
  /-- The thread goes on to its next access. -/
  | run

structure State where
  input : Sys
  system : System
  shell : ShellState
  pc : Pc
  log : List Event

/-! ## The thread -/

/-- What a call of `ck_keyboard_read_char` returned with its last access. -/
def returned (i : Sys) : Option U8 :=
  if i.reader = .idle then
    match i.log.getLast? with
    | some (.returned c) => some c
    | _ => none
  else none

/-- The branch that `ck_shell_execute` takes for a line. -/
def lineBranch (cmd : List U8) : Branch :=
  branchOf (fun c => ck_strcmp (ck_get_first_word cmd 64) c.name) (ck_strlen (ck_get_first_word cmd 64))

/-- `frame_ms`. -/
abbrev FRAME_MS : U32 := 50#32

/-- The part of `ck_visualizer_run_monitor` before its loop. -/
def clearMonitor (s : Screen) : Screen :=
  forRange 0 VGA_HEIGHT (vga_cursor_disable s) fun s row => vga_clear_row s (.ofNat 16 row) VGA_COLOR_WHITE

/-- A frame, and the counters for the next one. -/
def frameDrawn (k : Kernel Demo) (m : ShellState) : ShellState :=
  let count := (ck_scheduler_task_count k.scheduler).toNat
  { m with
    screen := drawFrame k m.prev_counters m.screen
    prev_counters := fun i => if i < count then k.counter i else m.prev_counters i }

namespace State

/-- What the code finds in the kernel. -/
def kernel (σ : State) : Kernel Demo :=
  ⟨σ.system.scheduler, σ.system.tasks.ck_task_counter, σ.system.tasks.ck_game.shown, σ.input.ck_timer_ticks⟩

/-- The shell gets a character. -/
def got (σ : State) (c : U8) : State :=
  let σ : State := { σ with log := σ.log ++ [.read c] }
  if c = 0 then { σ with pc := .head }
  else if c = 0x0A then { σ with pc := .entered }
  else if c = 0x08 then { σ with shell := erase σ.shell, pc := .head }
  else if 32 ≤ c ∧ c < 127 then { σ with shell := insert σ.shell c, pc := .head }
  else { σ with pc := .head }

/-- `taskmon` up to the loop of the monitor. -/
def openMonitor (σ : State) : State :=
  let m := σ.shell
  let cmd := m.line
  let m := { m with input_buffer := m.input_buffer.setIfInBounds m.input_len.toNat 0
                    screen := ck_vga_newline m.screen }
  let m := (tracked m cmd).print taskmonOps
  { σ with
    system := { σ.system with tasks := Game.ck_game_init σ.system.tasks }
    shell := { m with screen := clearMonitor m.screen }
    pc := .draining ⟨0, false⟩
    log := σ.log ++ [.opened] }

/-- Enter: the command, and the prompt if it returns. -/
def execute (σ : State) : State :=
  match lineBranch σ.shell.line with
  | .command .taskmon => σ.openMonitor
  | _ =>
    match enter σ.shell ⟨σ.input.ck_timer_ticks, 0x0A, σ.kernel, [], 0⟩ with
    | .ok m => { σ with shell := m, pc := .head }
    | .error m => { σ with shell := m, pc := .halted }

/-- The monitor gets a character. -/
def drain (σ : State) (s : Session) (c : U8) : State :=
  let σ : State := { σ with log := σ.log ++ [.key c] }
  if c = 0 then { σ with pc := .drained s }
  else if c = 0x71 ∨ c = 0x51 then { σ with pc := .draining { s with exit_requested := true } }
  else if c = 0x61 ∨ c = 0x41 ∨ c = 0x64 ∨ c = 0x44 then
    { σ with system := { σ.system with tasks := Game.ck_game_on_key σ.system.tasks c }, pc := .draining s }
  else { σ with pc := .draining s }

/-- The monitor returns, and `taskmon` after it. -/
def closeMonitor (σ : State) : State :=
  let m := { σ.shell with screen := vga_cursor_enable σ.shell.screen }
  let m := restart m σ.input.ck_timer_ticks
  { σ with shell := { m with input_len := 0 }.print promptOps, pc := .head, log := σ.log ++ [.closed] }

/-- The monitor's loop after the keys. -/
def poll (fuel : Nat) (σ : State) (s : Session) : Option State :=
  if s.exit_requested then some σ.closeMonitor
  else
    let now := σ.input.ck_timer_ticks
    if now - s.last_draw < FRAME_MS then some { σ with pc := .draining s }
    else do
      let system ← σ.system.run_tasks fuel
      let σ := { σ with system := system }
      some { σ with
        shell := frameDrawn σ.kernel σ.shell
        pc := .draining { s with last_draw := now }
        log := σ.log ++ [.frame σ.input.time σ.kernel] }

/-- The thread up to and with its next access. -/
def thread (fuel : Nat) (σ : State) : Option State :=
  match σ.pc with
  | .start => some { σ with shell := restart σ.shell σ.input.ck_timer_ticks, pc := .head }
  | .head => do
    let system ← σ.system.run_tasks fuel
    some { σ with
      system := system
      shell := ck_shell_draw_status σ.shell σ.input.ck_timer_ticks
      pc := .reading
      log := σ.log ++ [.round] }
  | .reading =>
    let σ := { σ with input := σ.input.step .read }
    some ((returned σ.input).elim σ σ.got)
  | .entered => some σ.execute
  | .draining s =>
    let σ := { σ with input := σ.input.step .read }
    some ((returned σ.input).elim σ (σ.drain s))
  | .drained s => σ.poll fuel s
  | .halted => some σ

/-- No interrupt is served after `cli` and `hlt`. -/
def interrupt (σ : State) (a : ReadChar.Action) : State :=
  match σ.pc with
  | .halted => σ
  | _ => { σ with input := σ.input.step a }

def step (fuel : Nat) (σ : State) : Action → Option State
  | .timer => some (σ.interrupt .timer)
  | .keyboard c => some (σ.interrupt (.keyboard c))
  | .run => σ.thread fuel

end State

/-- As `ck_main` calls `ck_shell_run`. -/
def start (s : Scheduler Demo) (screen : Screen) (input_buffer : Vector U8 256) : State :=
  ⟨.start, ⟨s, .zero⟩, .boot screen input_buffer, .start, []⟩

/-- The state after some actions, `none` if `ck_game.frame` has overflowed. -/
def run (fuel : Nat) (s : Scheduler Demo) (screen : Screen) (input_buffer : Vector U8 256) (actions : List Action) :
    Option State :=
  actions.foldlM (State.step fuel) (start s screen input_buffer)

/-! ## What the thread can do -/

/-- The state of the shell when the command of its line is carried out. -/
def entering (m : ShellState) : ShellState :=
  { m with input_buffer := m.input_buffer.setIfInBounds m.input_len.toNat 0
           screen := ck_vga_newline m.screen }

/-- The line is `taskmon`. -/
def OpensMonitor (m : ShellState) : Prop := lineBranch m.line = .command .taskmon

/-- What `taskmon` leaves to the loop of the monitor. -/
def monitorOpened (m : ShellState) : ShellState :=
  let m := (tracked (entering m) m.line).print taskmonOps
  { m with screen := clearMonitor m.screen }

/-- When the monitor is left. -/
def monitorClosed (m : ShellState) (ticks : U32) : ShellState :=
  { restart { m with screen := vga_cursor_enable m.screen } ticks with input_len := 0 }.print promptOps

/-- Characters that neither the shell nor the game has a use for. -/
def Unused (c : U8) : Prop := c ≠ 0x0A ∧ c ≠ 0x08 ∧ ¬ (32 ≤ c ∧ c < 127)

def IsQuit (c : U8) : Prop := c = 0x71 ∨ c = 0x51

def IsSteer (c : U8) : Prop := c = 0x61 ∨ c = 0x41 ∨ c = 0x64 ∨ c = 0x44

instance decidableQuit (c : U8) : Decidable (IsQuit c) := inferInstanceAs (Decidable (_ ∨ _))

instance decidableSteer (c : U8) : Decidable (IsSteer c) := inferInstanceAs (Decidable (_ ∨ _))

/-- The ways the thread goes on. -/
inductive Move (fuel : Nat) : State → State → Prop
  | start {i y m log} : Move fuel ⟨i, y, m, .start, log⟩ ⟨i, y, restart m i.ck_timer_ticks, .head, log⟩
  | round {i y y' m log} : y.run_tasks fuel = some y' →
    Move fuel ⟨i, y, m, .head, log⟩ ⟨i, y', ck_shell_draw_status m i.ck_timer_ticks, .reading, log ++ [.round]⟩
  | access {i y m log} : returned (i.step .read) = none →
    Move fuel ⟨i, y, m, .reading, log⟩ ⟨i.step .read, y, m, .reading, log⟩
  | unused {i y m log c} : returned (i.step .read) = some c → Unused c →
    Move fuel ⟨i, y, m, .reading, log⟩ ⟨i.step .read, y, m, .head, log ++ [.read c]⟩
  | enter {i y m log} : returned (i.step .read) = some 0x0A →
    Move fuel ⟨i, y, m, .reading, log⟩ ⟨i.step .read, y, m, .entered, log ++ [.read 0x0A]⟩
  | erase {i y m log} : returned (i.step .read) = some 0x08 →
    Move fuel ⟨i, y, m, .reading, log⟩ ⟨i.step .read, y, erase m, .head, log ++ [.read 0x08]⟩
  | insert {i y m log c} : returned (i.step .read) = some c → 32 ≤ c ∧ c < 127 →
    Move fuel ⟨i, y, m, .reading, log⟩ ⟨i.step .read, y, insert m c, .head, log ++ [.read c]⟩
  | returns {i y m m' log} : ¬ OpensMonitor m →
    Shell.enter m ⟨i.ck_timer_ticks, 0x0A, State.kernel ⟨i, y, m, .entered, log⟩, [], 0⟩ = .ok m' →
    Move fuel ⟨i, y, m, .entered, log⟩ ⟨i, y, m', .head, log⟩
  | halts {i y m m' log} : ¬ OpensMonitor m →
    Shell.enter m ⟨i.ck_timer_ticks, 0x0A, State.kernel ⟨i, y, m, .entered, log⟩, [], 0⟩ = .error m' →
    Move fuel ⟨i, y, m, .entered, log⟩ ⟨i, y, m', .halted, log⟩
  | opens {i y m log} : OpensMonitor m →
    Move fuel ⟨i, y, m, .entered, log⟩
      ⟨i, { y with tasks := Game.ck_game_init y.tasks }, monitorOpened m, .draining ⟨0, false⟩, log ++ [.opened]⟩
  | drainAccess {i y m s log} : returned (i.step .read) = none →
    Move fuel ⟨i, y, m, .draining s, log⟩ ⟨i.step .read, y, m, .draining s, log⟩
  | drained {i y m s log} : returned (i.step .read) = some 0 →
    Move fuel ⟨i, y, m, .draining s, log⟩ ⟨i.step .read, y, m, .drained s, log ++ [.key 0]⟩
  | quit {i y m s log c} : returned (i.step .read) = some c → IsQuit c →
    Move fuel ⟨i, y, m, .draining s, log⟩
      ⟨i.step .read, y, m, .draining { s with exit_requested := true }, log ++ [.key c]⟩
  | steer {i y m s log c} : returned (i.step .read) = some c → IsSteer c →
    Move fuel ⟨i, y, m, .draining s, log⟩
      ⟨i.step .read, { y with tasks := Game.ck_game_on_key y.tasks c }, m, .draining s, log ++ [.key c]⟩
  | ignored {i y m s log c} : returned (i.step .read) = some c → c ≠ 0 → ¬ IsQuit c → ¬ IsSteer c →
    Move fuel ⟨i, y, m, .draining s, log⟩ ⟨i.step .read, y, m, .draining s, log ++ [.key c]⟩
  | closes {i y m s log} : s.exit_requested = true →
    Move fuel ⟨i, y, m, .drained s, log⟩ ⟨i, y, monitorClosed m i.ck_timer_ticks, .head, log ++ [.closed]⟩
  | waits {i y m s log} : s.exit_requested = false → i.ck_timer_ticks - s.last_draw < FRAME_MS →
    Move fuel ⟨i, y, m, .drained s, log⟩ ⟨i, y, m, .draining s, log⟩
  | frame {i y y' m s log} : s.exit_requested = false → ¬ i.ck_timer_ticks - s.last_draw < FRAME_MS →
    y.run_tasks fuel = some y' →
    Move fuel ⟨i, y, m, .drained s, log⟩
      ⟨i, y', frameDrawn (State.kernel ⟨i, y', m, .drained s, log⟩) m, .draining { s with last_draw := i.ck_timer_ticks },
        log ++ [.frame i.time (State.kernel ⟨i, y', m, .drained s, log⟩)]⟩
  | halted {i y m log} : Move fuel ⟨i, y, m, .halted, log⟩ ⟨i, y, m, .halted, log⟩

section Moves
variable {fuel : Nat} {i : Sys} {y : System} {m : ShellState} {log : List Event}

theorem got_move {c : U8} (hc : returned (i.step .read) = some c) :
    Move fuel ⟨i, y, m, .reading, log⟩ (State.got ⟨i.step .read, y, m, .reading, log⟩ c) := by
  unfold State.got
  dsimp only
  split
  · next h0 =>
    subst h0
    exact .unused hc ⟨by decide, by decide, by decide⟩
  · split
    · next h =>
      subst h
      exact .enter hc
    · split
      · next h =>
        subst h
        exact .erase hc
      · next hn hb =>
        split
        · next hp => exact .insert hc hp
        · next hp => exact .unused hc ⟨hn, hb, hp⟩

theorem drain_move {s : Session} {c : U8} (hc : returned (i.step .read) = some c) :
    Move fuel ⟨i, y, m, .draining s, log⟩ (State.drain ⟨i.step .read, y, m, .draining s, log⟩ s c) := by
  unfold State.drain
  dsimp only
  split
  · next h0 =>
    subst h0
    exact .drained hc
  · next h0 =>
    split
    · next hq => exact .quit hc hq
    · next hq =>
      split
      · next hs => exact .steer hc hs
      · next hs => exact .ignored hc h0 hq hs

theorem execute_move : Move fuel ⟨i, y, m, .entered, log⟩ (State.execute ⟨i, y, m, .entered, log⟩) := by
  unfold State.execute
  dsimp only
  split
  · next h => exact .opens h
  · next hbranch =>
    have hnot : ¬ OpensMonitor m := hbranch
    split
    · next m' hm => exact .returns hnot hm
    · next m' hm => exact .halts hnot hm

theorem poll_move {s : Session} {σ' : State} (h : State.poll fuel ⟨i, y, m, .drained s, log⟩ s = some σ') :
    Move fuel ⟨i, y, m, .drained s, log⟩ σ' := by
  unfold State.poll at h
  split at h
  · next he =>
    cases h
    exact .closes he
  · next he =>
    have hexit : s.exit_requested = false := by simpa using he
    dsimp only at h
    split at h
    · next hw =>
      cases h
      exact .waits hexit hw
    · next hw =>
      obtain ⟨y', hy, h⟩ := Option.bind_eq_some_iff.1 h
      cases h
      exact .frame hexit hw hy

/-- The thread goes on in one of these ways. -/
theorem thread_move {σ σ' : State} (h : σ.thread fuel = some σ') : Move fuel σ σ' := by
  obtain ⟨i, y, m, pc, log⟩ := σ
  cases pc with
  | start =>
    cases h
    exact .start
  | head =>
    obtain ⟨y', hy, h⟩ := Option.bind_eq_some_iff.1 h
    cases h
    exact .round hy
  | reading =>
    have he := Option.some.inj h
    dsimp only at he
    cases hr : returned (i.step .read) with
    | none =>
      rw [hr] at he
      rw [← he]
      exact .access hr
    | some c =>
      rw [hr] at he
      rw [← he]
      exact got_move hr
  | entered =>
    cases h
    exact execute_move
  | draining s =>
    have he := Option.some.inj h
    dsimp only at he
    cases hr : returned (i.step .read) with
    | none =>
      rw [hr] at he
      rw [← he]
      exact .drainAccess hr
    | some c =>
      rw [hr] at he
      rw [← he]
      exact drain_move hr
  | drained s => exact poll_move h
  | halted =>
    cases h
    exact .halted

theorem interrupt_running {σ : State} (hpc : σ.pc ≠ .halted) (a : ReadChar.Action) :
    σ.interrupt a = { σ with input := σ.input.step a } := by
  unfold State.interrupt
  split
  · next hhalt => exact absurd hhalt hpc
  · rfl

/-- What the interrupts and the moves keep, every run keeps. -/
theorem run_keeps {s : Scheduler Demo} {screen : Screen} {input_buffer : Vector U8 256} (I : State → Prop)
    (h0 : I (start s screen input_buffer))
    (hint : ∀ i y m pc log a, I ⟨i, y, m, pc, log⟩ → a ≠ .read → I ⟨i.step a, y, m, pc, log⟩)
    (hmove : ∀ σ σ', I σ → Move fuel σ σ' → I σ') {actions : List Action} {σ : State}
    (h : run fuel s screen input_buffer actions = some σ) : I σ := by
  refine foldlM_inv I (fun σ op σ' hI hs => ?_) actions _ σ h0 h
  have hserved : ∀ a, a ≠ .read → I (σ.interrupt a) := by
    intro a ha
    obtain ⟨i, y, m, pc, log⟩ := σ
    cases pc
    case halted => exact hI
    all_goals exact hint _ _ _ _ _ a hI ha
  cases op with
  | timer =>
    cases hs
    exact hserved .timer (by simp)
  | keyboard c =>
    cases hs
    exact hserved (.keyboard c) (by simp)
  | run => exact hmove σ σ' hI (thread_move hs)

end Moves

end CheesecakeOS.Os
