import CheesecakeOS.Drivers.TypedText
/-!
# The two shift keys

`ck_keyboard_shift_pressed` is one flag for two keys: the make code of either
sets it and the break code of either clears it. `shift_exact_iff` says after
which sequences of codes it is still right. It is wrong exactly where the last
shift code released one of the keys while the other is down.
-/
open Lib

namespace CheesecakeOS.Keyboard

open ReadChar (shiftAfter irq_shift)

/-- The scancodes of a run, in the order they are delivered. -/
def delivered (actions : List Action) : List U8 :=
  actions.filterMap fun
    | .irq c _ => some c
    | .read => none

/-- The last code with `p`. -/
def lastOf (p : U8 → Bool) (codes : List U8) : Option U8 := (codes.filter p).getLast?

/-- The key with these make and break codes is down: the last of them was the
make code. -/
def Down (make brk : U8) (codes : List U8) : Prop := lastOf (fun c => c = make ∨ c = brk) codes = some make

instance (make brk : U8) (codes : List U8) : Decidable (Down make brk codes) := inferInstanceAs (Decidable (_ = _))

def LeftDown (codes : List U8) : Prop := Down 0x2A#8 0xAA#8 codes
def RightDown (codes : List U8) : Prop := Down 0x36#8 0xB6#8 codes

/-- A key is released only while it is down; it may be pressed again, as the
hardware does for a key that is held. -/
def Alternates (make brk : U8) (codes : List U8) : Prop :=
  ∀ i < codes.length, codes[i]? = some brk → Down make brk (codes.take i)

instance (make brk : U8) (codes : List U8) : Decidable (Alternates make brk codes) :=
  inferInstanceAs (Decidable (∀ i < _, _))

def isShift (c : U8) : Bool := c = 0x2A#8 ∨ c = 0x36#8 ∨ c = 0xAA#8 ∨ c = 0xB6#8

/-- The last code of either shift key. -/
def lastShift (codes : List U8) : Option U8 := lastOf isShift codes

/-- The last shift code did not release one key while the other is down. -/
def ReleasedAlone (codes : List U8) : Prop :=
  (lastShift codes = some 0xAA#8 → ¬ RightDown codes) ∧ (lastShift codes = some 0xB6#8 → ¬ LeftDown codes)

/-! ## The flag -/

theorem lastOf_concat (p : U8 → Bool) (codes : List U8) (c : U8) :
    lastOf p (codes ++ [c]) = if p c then some c else lastOf p codes := by
  unfold lastOf
  rw [List.filter_append]
  by_cases hp : p c <;> simp [hp]

theorem lastOf_mem {p : U8 → Bool} {codes : List U8} {c : U8} (h : lastOf p codes = some c) : p c = true :=
  (List.mem_filter.1 (List.mem_of_getLast? h)).2

theorem lastShift_concat (codes : List U8) (c : U8) :
    lastShift (codes ++ [c]) = if isShift c then some c else lastShift codes :=
  lastOf_concat isShift codes c

/-- The last code of several, if it is one of fewer, is the last of those. -/
theorem lastOf_sub {p q : U8 → Bool} {codes : List U8} {c : U8} (hsub : ∀ d, q d = true → p d = true)
    (h : lastOf p codes = some c) (hc : q c = true) : lastOf q codes = some c := by
  induction codes using List.reverseRecOn with
  | nil => cases h
  | append_singleton codes d ih =>
    rw [lastOf_concat] at h ⊢
    by_cases hd : p d = true
    · rw [if_pos hd] at h
      cases h
      rw [if_pos hc]
    · rw [if_neg hd] at h
      rw [if_neg fun hq => hd (hsub d hq)]
      exact ih h

theorem lastOf_none {p q : U8 → Bool} {codes : List U8} (hsub : ∀ d, q d = true → p d = true)
    (h : lastOf p codes = none) : lastOf q codes = none := by
  rw [lastOf, List.getLast?_eq_none_iff, List.filter_eq_nil_iff] at h ⊢
  exact fun c hc hq => h c hc (hsub c hq)

/-- Reads leave the flag alone, so it is that of the codes. -/
theorem run_shift (actions : List Action) :
    (run actions).kbd.shift_pressed = (delivered actions).foldl shiftAfter 0#8 := by
  induction actions using List.reverseRecOn with
  | nil => rfl
  | append_singleton actions a ih =>
    rw [delivered, List.filterMap_append, List.foldl_append, run, List.foldl_append, List.foldl_cons, List.foldl_nil]
    change (Sys.step (run actions) a).kbd.shift_pressed = List.foldl shiftAfter (List.foldl shiftAfter 0#8
      (delivered actions)) _
    rw [← ih]
    cases a with
    | irq c now => exact irq_shift (run actions).kbd c now
    | read =>
      simp only [Sys.step]
      split
      · split <;> rfl
      · rfl
      · rfl

/-- The flag is set exactly if the last shift code was a make code. -/
theorem shift_eq (codes : List U8) : codes.foldl shiftAfter 0#8 =
    if lastShift codes = some 0x2A#8 ∨ lastShift codes = some 0x36#8 then 1#8 else 0#8 := by
  induction codes using List.reverseRecOn with
  | nil => rfl
  | append_singleton codes c ih =>
    rw [List.foldl_append, List.foldl_cons, List.foldl_nil, ih, lastShift_concat]
    unfold shiftAfter
    by_cases hm : c = 0x2A#8 ∨ c = 0x36#8
    · rcases hm with rfl | rfl <;> rfl
    · by_cases hb : c = 0xAA#8 ∨ c = 0xB6#8
      · rcases hb with rfl | rfl <;> rfl
      · rw [if_neg hm, if_neg hb]
        simp only [not_or] at hm hb
        simp [isShift, hm, hb]

section Keys
variable {codes : List U8} {make brk c : U8} (hkey : ∀ d, d = make ∨ d = brk → isShift d = true)
include hkey

/-- The last shift code, if it is one of a key, says whether the key is down. -/
theorem down_iff_of_last (h : lastShift codes = some c) (hc : c = make ∨ c = brk) : Down make brk codes ↔ c = make := by
  have hlast : lastOf (fun d => d = make ∨ d = brk) codes = some c :=
    lastOf_sub (fun d hd => hkey d (of_decide_eq_true hd)) h (decide_eq_true hc)
  rw [Down, hlast, Option.some.injEq]

theorem not_down_of_none (h : lastShift codes = none) : ¬ Down make brk codes := by
  intro hd
  rw [Down, lastOf_none (fun d hd => hkey d (of_decide_eq_true hd)) h] at hd
  cases hd

end Keys

theorem left_isShift (d : U8) (hd : d = 0x2A#8 ∨ d = 0xAA#8) : isShift d = true := by
  rcases hd with rfl | rfl <;> rfl

theorem right_isShift (d : U8) (hd : d = 0x36#8 ∨ d = 0xB6#8) : isShift d = true := by
  rcases hd with rfl | rfl <;> rfl

theorem lastShift_cases (codes : List U8) : lastShift codes = none ∨ lastShift codes = some 0x2A#8 ∨
    lastShift codes = some 0x36#8 ∨ lastShift codes = some 0xAA#8 ∨ lastShift codes = some 0xB6#8 := by
  cases h : lastShift codes with
  | none => exact .inl rfl
  | some c =>
    rcases of_decide_eq_true (lastOf_mem h) with rfl | rfl | rfl | rfl <;> simp

/-- After any run the flag says whether a shift key is down exactly if the last
shift code did not release one of them while the other is down. -/
theorem shift_exact_iff (actions : List Action) :
    (ck_keyboard_is_shift_pressed (run actions).kbd = 1#8 ↔
      LeftDown (delivered actions) ∨ RightDown (delivered actions)) ↔ ReleasedAlone (delivered actions) := by
  rw [ck_keyboard_is_shift_pressed, run_shift, shift_eq, ReleasedAlone]
  generalize delivered actions = codes
  unfold LeftDown RightDown
  rcases lastShift_cases codes with h | h | h | h | h
  · have hl := not_down_of_none left_isShift h
    have hr := not_down_of_none right_isShift h
    simp [h, hl, hr]
  · have hl := (down_iff_of_last left_isShift h (.inl rfl)).2 rfl
    simp [h, hl]
  · have hr := (down_iff_of_last right_isShift h (.inl rfl)).2 rfl
    simp [h, hr]
  · have hl := mt (down_iff_of_last left_isShift h (.inr rfl)).1 (by decide)
    simp [h, hl]
  · have hr := mt (down_iff_of_last right_isShift h (.inr rfl)).1 (by decide)
    simp [h, hr]

/-- Left shift down, right shift down, left shift up: right shift is down and the
flag is clear. -/
theorem second_shift_lost :
    let actions : List Action := [.irq 0x2A#8 0#32, .irq 0x36#8 0#32, .irq 0xAA#8 0#32]
    Alternates 0x2A#8 0xAA#8 (delivered actions) ∧ Alternates 0x36#8 0xB6#8 (delivered actions) ∧
      RightDown (delivered actions) ∧ ck_keyboard_is_shift_pressed (run actions).kbd = 0#8 ∧
      ¬ (ck_keyboard_is_shift_pressed (run actions).kbd = 1#8 ↔
        LeftDown (delivered actions) ∨ RightDown (delivered actions)) := by
  intro actions
  have hflag : ck_keyboard_is_shift_pressed (run actions).kbd = 0#8 := rfl
  have hright : Down 0x36#8 0xB6#8 (delivered actions) := by decide
  refine ⟨by decide, by decide, hright, hflag, fun h => ?_⟩
  rw [hflag] at h
  exact absurd (h.2 (.inr hright)) (by decide)

end CheesecakeOS.Keyboard
