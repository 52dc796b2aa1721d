import CheesecakeOS.Drivers.Keyboard
import CheesecakeOS.Drivers.Scancode
/-!
# Reading characters

`ck_keyboard_read_char` takes a code from the buffer or repeats the key that is
held, and translates it. Interrupts may come between any two of its accesses,
so a call is a sequence of steps, one for each load or store; the timer's
handler and the keyboard's run as a whole. The log tells what happened, with
the number of ticks so far, which does not wrap as the tick count does.

`read_char_steps`: without interrupts the steps are the function.
-/
open Lib

namespace CheesecakeOS

abbrev CK_KEY_REPEAT_INITIAL_DELAY : U32 := 500#32
abbrev CK_KEY_REPEAT_INTERVAL : U32 := 50#32

/-! ## The source -/

/-- `ck_timer_ticks++;` -/
def ck_timer_irq_handler (ck_timer_ticks : U32) : U32 := ck_timer_ticks + 1

/-- `ticks` is what `ck_timer_get_ticks` returns. -/
def ck_keyboard_read_char (s : Keyboard) (ticks : U32) : Keyboard × U8 :=
  let (s, scancode) := ck_keyboard_read_key s
  let (s, scancode) :=
    if scancode = 0#8 ∧ s.held_key ≠ 0#8 then
      let now := ticks
      let elapsed := now - s.held_key_time
      if elapsed ≥ CK_KEY_REPEAT_INITIAL_DELAY then
        let time_since_last_repeat := now - s.last_repeat_time
        if time_since_last_repeat ≥ CK_KEY_REPEAT_INTERVAL then ({ s with last_repeat_time := now }, s.held_key)
        else (s, scancode)
      else (s, scancode)
    else (s, scancode)
  if scancode = 0#8 then (s, 0) else (s, ck_scancode_to_ascii scancode s.shift_pressed)

namespace ReadChar

/-! ## Runs -/

/-- How far the current call has got: what its next access is. -/
inductive Reader where
  /-- Compare head and tail. -/
  | idle
  /-- Load the cell at tail. -/
  | compared
  /-- Store tail. -/
  | loaded (scancode : U8)
  /-- There was no code: load `held_key`. -/
  | nothing
  /-- A key is held: load the tick count. -/
  | held
  /-- Load `held_key_time`. -/
  | timed (now : U32)
  /-- The initial delay is over: load `last_repeat_time`. -/
  | delayed (now : U32)
  /-- A repeat is due: store `last_repeat_time`. -/
  | due (now : U32)
  /-- Load `held_key`. -/
  | stored
  /-- Load `shift_pressed`. -/
  | found (scancode : U8)
deriving DecidableEq

inductive Event where
  /-- An activation of the keyboard's handler. -/
  | irq (scancode : U8) (time : Nat)
  /-- A code put into the buffer, with the shift flag then. -/
  | accepted (scancode shift : U8)
  | dropped (scancode : U8)
  /-- The repeat branch, for the key it found. -/
  | repeated (scancode : U8) (time : Nat)
  /-- A code translated, with the shift flag then. -/
  | translated (scancode shift : U8)
  | returned (c : U8)
deriving DecidableEq

inductive Action where
  | timer
  | keyboard (scancode : U8)
  /-- The next access of the reader. -/
  | read

structure Sys where
  kbd : Keyboard
  ck_timer_ticks : U32
  reader : Reader
  /-- The ticks so far. -/
  time : Nat
  log : List Event

/-- The call returns without a character. -/
def Sys.none (σ : Sys) : Sys := { σ with reader := .idle, log := σ.log ++ [.returned 0] }

/-- What an activation of the handler did to the buffer, by its effect. -/
def irqEvents (s s' : Keyboard) (c : U8) : List Event :=
  if s'.head ≠ s.head then [.accepted c s.shift_pressed] else if Keyboard.IsMake c then [.dropped c] else []

def Sys.step (σ : Sys) : Action → Sys
  | .timer => { σ with ck_timer_ticks := ck_timer_irq_handler σ.ck_timer_ticks, time := σ.time + 1 }
  | .keyboard c =>
    let kbd := ck_keyboard_irq_handler σ.kbd c σ.ck_timer_ticks
    { σ with kbd := kbd, log := σ.log ++ .irq c σ.time :: irqEvents σ.kbd kbd c }
  | .read =>
    match σ.reader with
    | .idle => { σ with reader := if σ.kbd.head = σ.kbd.tail then .nothing else .compared }
    | .compared => { σ with reader := .loaded (σ.kbd.buffer[σ.kbd.tail.toNat]?.getD 0) }
    | .loaded c =>
      { σ with
        kbd := { σ.kbd with tail := next_index σ.kbd.tail }
        reader := if c = 0#8 then .nothing else .found c }
    | .nothing => if σ.kbd.held_key ≠ 0#8 then { σ with reader := .held } else σ.none
    | .held => { σ with reader := .timed σ.ck_timer_ticks }
    | .timed now =>
      if now - σ.kbd.held_key_time ≥ CK_KEY_REPEAT_INITIAL_DELAY then { σ with reader := .delayed now } else σ.none
    | .delayed now =>
      if now - σ.kbd.last_repeat_time ≥ CK_KEY_REPEAT_INTERVAL then { σ with reader := .due now } else σ.none
    | .due now => { σ with kbd := { σ.kbd with last_repeat_time := now }, reader := .stored }
    | .stored =>
      let k := σ.kbd.held_key
      if k = 0#8 then σ.none else { σ with reader := .found k, log := σ.log ++ [.repeated k σ.time] }
    | .found c =>
      let shift := σ.kbd.shift_pressed
      { σ with reader := .idle, log := σ.log ++ [.translated c shift, .returned (ck_scancode_to_ascii c shift)] }

/-- Zero-initialised statics and no call under way. -/
def Sys.start : Sys := ⟨.zero, 0, .idle, 0, []⟩

def run (actions : List Action) : Sys := actions.foldl Sys.step .start

/-! ## Without interrupts -/

/-- Some number of accesses completes the call, with the state and the character `r`. -/
def Completes (σ : Sys) (r : Keyboard × U8) : Prop :=
  ∃ n log, (List.replicate n Action.read).foldl Sys.step σ =
    ⟨r.1, σ.ck_timer_ticks, .idle, σ.time, log ++ [.returned r.2]⟩

/-- The reader does not change the clock. -/
theorem read_clock (σ : Sys) : (σ.step .read).ck_timer_ticks = σ.ck_timer_ticks ∧ (σ.step .read).time = σ.time := by
  unfold Sys.step
  dsimp only
  repeat' split
  all_goals exact ⟨rfl, rfl⟩

theorem Completes.access {σ σ' : Sys} {r : Keyboard × U8} (h : Completes σ' r) (hstep : σ.step .read = σ') :
    Completes σ r := by
  obtain ⟨n, log, hn⟩ := h
  obtain ⟨hticks, htime⟩ := read_clock σ
  refine ⟨n + 1, log, ?_⟩
  rw [List.replicate_succ, List.foldl_cons, hstep, hn, ← hstep, hticks, htime]

section Steps
variable (s : Keyboard) (ticks : U32) (time : Nat) (log : List Event)

theorem completes_none {reader : Reader} (h : Sys.step ⟨s, ticks, reader, time, log⟩ .read =
    Sys.none ⟨s, ticks, reader, time, log⟩) : Completes ⟨s, ticks, reader, time, log⟩ (s, 0) :=
  ⟨1, log, h⟩

theorem completes_found (c : U8) :
    Completes ⟨s, ticks, .found c, time, log⟩ (s, ck_scancode_to_ascii c s.shift_pressed) :=
  ⟨1, log ++ [.translated c s.shift_pressed], by simp [Sys.step]⟩

/-- From the load of `held_key` on. -/
theorem completes_nothing : Completes ⟨s, ticks, .nothing, time, log⟩
    (if s.held_key ≠ 0#8 ∧ ticks - s.held_key_time ≥ CK_KEY_REPEAT_INITIAL_DELAY ∧
        ticks - s.last_repeat_time ≥ CK_KEY_REPEAT_INTERVAL then
      ({ s with last_repeat_time := ticks }, ck_scancode_to_ascii s.held_key s.shift_pressed)
    else (s, 0)) := by
  by_cases hheld : s.held_key ≠ 0#8
  · have hload (r : Keyboard × U8) (h : Completes ⟨s, ticks, .timed ticks, time, log⟩ r) :
        Completes ⟨s, ticks, .nothing, time, log⟩ r :=
      (h.access (σ := ⟨s, ticks, .held, time, log⟩) rfl).access (if_pos hheld)
    apply hload
    by_cases hdelay : ticks - s.held_key_time ≥ CK_KEY_REPEAT_INITIAL_DELAY
    · by_cases hdue : ticks - s.last_repeat_time ≥ CK_KEY_REPEAT_INTERVAL
      · rw [if_pos ⟨hheld, hdelay, hdue⟩]
        have hfound := completes_found { s with last_repeat_time := ticks } ticks time
          (log ++ [.repeated s.held_key time]) s.held_key
        have hstored := hfound.access (σ := ⟨{ s with last_repeat_time := ticks }, ticks, .stored, time, log⟩)
          (if_neg hheld)
        have hdue' := hstored.access (σ := ⟨s, ticks, .due ticks, time, log⟩) rfl
        have hdelayed := hdue'.access (σ := ⟨s, ticks, .delayed ticks, time, log⟩) (if_pos hdue)
        exact hdelayed.access (if_pos hdelay)
      · rw [if_neg fun h => hdue h.2.2]
        have hdelayed : Completes ⟨s, ticks, .delayed ticks, time, log⟩ (s, 0) := completes_none _ _ _ _ (if_neg hdue)
        exact hdelayed.access (if_pos hdelay)
    · rw [if_neg fun h => hdelay h.2.1]
      exact completes_none _ _ _ _ (if_neg hdelay)
  · rw [if_neg fun h => hheld h.1]
    exact completes_none _ _ _ _ (if_neg hheld)

/-- What follows `ck_keyboard_read_key` when it returned 0. -/
theorem read_char_zero {s' : Keyboard} (h : ck_keyboard_read_key s = (s', 0#8)) : ck_keyboard_read_char s ticks =
    if s'.held_key ≠ 0#8 ∧ ticks - s'.held_key_time ≥ CK_KEY_REPEAT_INITIAL_DELAY ∧
        ticks - s'.last_repeat_time ≥ CK_KEY_REPEAT_INTERVAL then
      ({ s' with last_repeat_time := ticks }, ck_scancode_to_ascii s'.held_key s'.shift_pressed)
    else (s', 0) := by
  unfold ck_keyboard_read_char
  rw [h]
  dsimp only
  by_cases hheld : s'.held_key = 0#8
  · simp [hheld]
  · by_cases hdelay : ticks - s'.held_key_time ≥ CK_KEY_REPEAT_INITIAL_DELAY
    · by_cases hdue : ticks - s'.last_repeat_time ≥ CK_KEY_REPEAT_INTERVAL
      · simp [hheld, hdelay, hdue]
      · simp [hheld, hdelay, hdue]
    · simp [hheld, hdelay]

theorem read_char_code {s' : Keyboard} {c : U8} (h : ck_keyboard_read_key s = (s', c)) (hc : c ≠ 0#8) :
    ck_keyboard_read_char s ticks = (s', ck_scancode_to_ascii c s'.shift_pressed) := by
  unfold ck_keyboard_read_char
  rw [h]
  simp [hc]

/-- Without interrupts the steps are the function. -/
theorem read_char_steps : Completes ⟨s, ticks, .idle, time, log⟩ (ck_keyboard_read_char s ticks) := by
  by_cases hempty : s.head = s.tail
  · have hkey : ck_keyboard_read_key s = (s, 0#8) := if_pos hempty
    rw [read_char_zero s ticks hkey]
    apply (completes_nothing s ticks time log).access
    simp [Sys.step, hempty]
  · have hkey : ck_keyboard_read_key s =
        ({ s with tail := next_index s.tail }, s.buffer[s.tail.toNat]?.getD 0) := if_neg hempty
    generalize hc : s.buffer[s.tail.toNat]?.getD 0 = c at hkey
    have hload (r : Keyboard × U8) (h : Completes (Sys.step ⟨s, ticks, .loaded c, time, log⟩ .read) r) :
        Completes ⟨s, ticks, .idle, time, log⟩ r := by
      have hloaded : Completes ⟨s, ticks, .loaded c, time, log⟩ r := h.access rfl
      have hcompared : Completes ⟨s, ticks, .compared, time, log⟩ r := hloaded.access (by rw [← hc]; rfl)
      apply hcompared.access
      simp [Sys.step, hempty]
    apply hload
    by_cases hzero : c = 0#8
    · rw [hzero] at hkey ⊢
      rw [read_char_zero s ticks hkey]
      exact completes_nothing _ ticks time log
    · rw [read_char_code s ticks hkey hzero]
      have hfound := completes_found { s with tail := next_index s.tail } ticks time log c
      simpa [Sys.step, hzero] using hfound

end Steps

end ReadChar

end CheesecakeOS
