import CheesecakeOS.Drivers.TypedText
/-!
# Keystrokes

How a person types a text: for each character a key is pressed and released,
with shift held around it if the character needs it. `keystrokes_text`: the keys
give the text back. `settled_text`: the driver hands on the characters as they
were typed if the shift flag changes only while no key waits to be read; what it
has not handed on yet is what is still in the buffer.
-/
open Lib

namespace CheesecakeOS.ReadChar

open Keyboard (IsMake)

/-! ## Typing -/

/-- A key that gives the character under the shift flag. -/
def keyFor (shift c : U8) : Option U8 :=
  ((List.range 128).map (BitVec.ofNat 8)).find? fun k => decide (IsMake k) && ck_scancode_to_ascii k shift == c

/-- Press and release, between those of the left shift key where it is needed. -/
def keystroke (c : U8) : List U8 :=
  match keyFor 0 c with
  | some k => [k, k + 0x80]
  | none =>
    match keyFor 1 c with
    | some k => [0x2A, k, k + 0x80, 0xAA]
    | none => []

/-- Printable characters, Enter and Backspace. -/
def Typeable (c : U8) : Prop := c = 0x0A ∨ c = 0x08 ∨ (32 ≤ c ∧ c < 127)

instance (c : U8) : Decidable (Typeable c) := inferInstanceAs (Decidable (_ ∨ _ ∨ _))

/-- The keys of a keystroke, and shift is up again. -/
theorem keystroke_presses : ∀ c : U8, Typeable c → asText (presses (keystroke c)).keys = [c] ∧
    (presses (keystroke c)).shift = 0 := by
  decide +kernel

/-- The keys pressed before do not matter. -/
theorem presses_from (cs : List U8) : ∀ p : Presses, cs.foldl Presses.add p =
    ⟨p.keys ++ (cs.foldl Presses.add ⟨[], p.shift⟩).keys, (cs.foldl Presses.add ⟨[], p.shift⟩).shift⟩ := by
  induction cs with
  | nil => intro p; simp
  | cons c cs ih =>
    intro p
    rw [List.foldl_cons, List.foldl_cons, ih (p.add c), ih (Presses.add ⟨[], p.shift⟩ c)]
    unfold Presses.add
    by_cases hc : IsMake c
    · simp [hc]
    · simp [hc]

theorem presses_append {cs : List U8} (h : (presses cs).shift = 0) (cs' : List U8) :
    (presses (cs ++ cs')).keys = (presses cs).keys ++ (presses cs').keys ∧
      (presses (cs ++ cs')).shift = (presses cs').shift := by
  have hfrom := presses_from cs' (presses cs)
  rw [h] at hfrom
  unfold presses at hfrom ⊢
  rw [List.foldl_append, hfrom]
  exact ⟨rfl, rfl⟩

/-- The keys of a text give it back. -/
theorem keystrokes_text {text : List U8} (h : ∀ c ∈ text, Typeable c) :
    asText (presses (text.flatMap keystroke)).keys = text := by
  have hboth : asText (presses (text.flatMap keystroke)).keys = text ∧ (presses (text.flatMap keystroke)).shift = 0 := by
    induction text with
    | nil => exact ⟨rfl, rfl⟩
    | cons c text ih =>
      obtain ⟨hc, hup⟩ := keystroke_presses c (h c List.mem_cons_self)
      obtain ⟨htext, hshift⟩ := ih fun d hd => h d (List.mem_cons_of_mem c hd)
      obtain ⟨hkeys, hafter⟩ := presses_append hup (text.flatMap keystroke)
      rw [List.flatMap_cons, hkeys, hafter, asText_append, hc, htext]
      exact ⟨rfl, hshift⟩
  exact hboth.1

/-! ## Shift -/

/-- No key waits to be translated. -/
def Sys.Clear (σ : Sys) : Prop := σ.kbd.head = σ.kbd.tail ∧ σ.reader.pending = []

/-- The shift flag changes only when no key waits. -/
def Settles (σ : Sys) : Action → Prop
  | .keyboard c => shiftAfter σ.kbd.shift_pressed c ≠ σ.kbd.shift_pressed → σ.Clear
  | _ => True

instance (σ : Sys) : Decidable σ.Clear := inferInstanceAs (Decidable (_ ∧ _))

instance (σ : Sys) : ∀ a : Action, Decidable (Settles σ a)
  | .keyboard c =>
    inferInstanceAs (Decidable (shiftAfter σ.kbd.shift_pressed c ≠ σ.kbd.shift_pressed → σ.Clear))
  | .timer | .read => inferInstanceAs (Decidable True)

/-- The keys accepted and not yet translated. -/
def waiting (log : List Event) : List (U8 × U8) := (keysToRead log).drop (translations log).length

/-- The keys that wait were pressed under the shift flag of now. -/
def SameShift (σ : Sys) : Prop := ∀ k ∈ waiting σ.log, k.2 = σ.kbd.shift_pressed

theorem read_shift (σ : Sys) : (σ.step .read).kbd.shift_pressed = σ.kbd.shift_pressed := by
  unfold Sys.step Sys.none
  dsimp only
  repeat' split
  all_goals rfl

theorem make_shift {shift c : U8} (h : IsMake c) : shiftAfter shift c = shift := by
  obtain ⟨hlt, h2A, h36⟩ := h
  unfold shiftAfter
  rw [if_neg (not_or.2 ⟨h2A, h36⟩), if_neg]
  rintro (rfl | rfl) <;> exact absurd hlt (by decide)

section Step
variable {σ : Sys} {q : List U8}

theorem Aligned.waiting_codes (h : Aligned σ q) (hno : ∀ k t, .repeated k t ∉ σ.log) :
    (waiting σ.log).map Prod.fst = σ.reader.pending ++ q.filter (· ≠ 0#8) := by
  have horder := h.order hno
  unfold waiting
  rw [List.map_drop, horder, List.append_assoc, List.drop_append_of_le_length (by simp)]
  simp

theorem Aligned.clear (h : Aligned σ q) (hno : ∀ k t, .repeated k t ∉ σ.log) (hc : σ.Clear) : waiting σ.log = [] := by
  have hcodes := h.waiting_codes hno
  rw [hc.2, h.ring.empty_iff.1 hc.1] at hcodes
  exact List.map_eq_nil_iff.1 hcodes

theorem sameShift_keyboard (h : Aligned σ q) (hno : ∀ k t, .repeated k t ∉ σ.log) (hs : SameShift σ) (c : U8)
    (hmay : Settles σ (.keyboard c)) : SameShift (σ.step (.keyboard c)) := by
  have hflag := irq_shift σ.kbd c σ.ck_timer_ticks
  have hcases := h.ring.irq c σ.ck_timer_ticks
  obtain ⟨-, htranslations, -, haccepted⟩ := irq_log σ.log σ.kbd (ck_keyboard_irq_handler σ.kbd c σ.ck_timer_ticks) c σ.time
  have hwaiting : waiting (σ.step (.keyboard c)).log = waiting σ.log ++
      (if (ck_keyboard_irq_handler σ.kbd c σ.ck_timer_ticks).head ≠ σ.kbd.head then [(c, σ.kbd.shift_pressed)]
        else []).filter (·.1 ≠ 0#8) := by
    unfold waiting
    simp only [Sys.step]
    rw [htranslations, keysToRead, haccepted, List.filter_append]
    exact List.drop_append_of_le_length (h.translated_le hno)
  intro k hk
  rw [hwaiting] at hk
  show k.2 = (ck_keyboard_irq_handler σ.kbd c σ.ck_timer_ticks).shift_pressed
  rw [hflag]
  by_cases hsame : shiftAfter σ.kbd.shift_pressed c = σ.kbd.shift_pressed
  · rw [hsame]
    rcases List.mem_append.1 hk with hk | hk
    · exact hs k hk
    · split at hk
      · have hk := List.mem_singleton.1 (List.mem_of_mem_filter hk)
        rw [hk]
      · cases hk
  · -- A shift code is not put into the buffer, and nothing waits there.
    have hnone := h.clear hno (hmay hsame)
    rcases hcases with ⟨hh, -, -⟩ | ⟨-, hm, -⟩
    · rw [hnone, if_neg (not_not.2 hh)] at hk
      cases hk
    · exact absurd (make_shift hm) hsame

theorem sameShift_read (hs : SameShift σ) : SameShift (σ.step .read) := by
  intro k hk
  rw [read_shift]
  refine hs k ?_
  by_cases hfound : ∃ c, σ.reader = .found c
  · obtain ⟨c, hr⟩ := hfound
    have hkeys : keysToRead (σ.step .read).log = keysToRead σ.log := by
      simp [Sys.step, hr, keysToRead, acceptedKeys]
    have htranslations : translations (σ.step .read).log = translations σ.log ++ [(c, σ.kbd.shift_pressed)] := by
      simp [Sys.step, hr, translations]
    unfold waiting at hk ⊢
    rw [hkeys, htranslations, List.length_append, List.length_singleton, ← List.drop_drop] at hk
    exact List.mem_of_mem_drop hk
  · obtain ⟨htranslations, hkeys⟩ := read_log fun c hc => hfound ⟨c, hc⟩
    unfold waiting at hk ⊢
    rw [hkeys, htranslations] at hk
    exact hk

/-- A key that is translated now was pressed under the flag of now. -/
theorem sameShift_keeps (hs : SameShift σ) (a : Action) : KeepsShift σ a := by
  cases a with
  | read =>
    intro c shift _ hkey _
    have hmem : (c, shift) ∈ waiting σ.log := by
      refine List.mem_of_getElem? (i := 0) ?_
      unfold waiting
      rw [List.getElem?_drop]
      exact hkey
    rw [show shift = σ.kbd.shift_pressed from hs _ hmem]
  | _ => trivial

end Step

/-! ## Runs -/

theorem sameShift_run (actions : List Action) : (∀ k t, .repeated k t ∉ (run actions).log) →
    Allowed Sys.step Settles .start actions → SameShift (run actions) ∧ Allowed Sys.step KeepsShift .start actions := by
  induction actions using List.reverseRecOn with
  | nil =>
    intro _ _
    refine ⟨fun k hk => ?_, allowed_nil _⟩
    cases hk
  | append_singleton actions a ih =>
    intro hno hallowed
    obtain ⟨hallowed, hmay⟩ := (allowed_concat _).1 hallowed
    rw [run_concat] at hno
    have hbefore : ∀ k t, .repeated k t ∉ (run actions).log := fun k t hk => hno k t ((log_grows _ a).subset hk)
    obtain ⟨hs, hkeeps⟩ := ih hbefore hallowed
    obtain ⟨q, h⟩ := aligned_run actions
    rw [allowed_concat]
    refine ⟨?_, hkeeps, sameShift_keeps hs a⟩
    rw [run_concat]
    cases a with
    | timer => exact hs
    | keyboard c => exact sameShift_keyboard h hbefore hs c hmay
    | read => exact sameShift_read hs

/-- What was typed is what has been handed on, and then what waits. -/
theorem settled_text {actions : List Action} (hdrop : ∀ c, .dropped c ∉ (run actions).log)
    (hrepeat : ∀ k t, .repeated k t ∉ (run actions).log) (h : Allowed Sys.step Settles .start actions) :
    asText (presses (codes actions)).keys = chars (run actions).log ++ asText (waiting (run actions).log) := by
  obtain ⟨q, hq⟩ := aligned_run actions
  obtain ⟨-, hkeeps⟩ := sameShift_run actions hrepeat h
  have hagrees := (agrees_run actions hrepeat).1 hkeeps
  have hchars : asText ((keysToRead (run actions).log).take (translations (run actions).log).length) =
      chars (run actions).log := by
    rw [hq.chars]
    unfold asText
    rw [hagrees]
  rw [← irqCodes_run, ← hq.keys hdrop, ← asText_keysToRead, ← hchars, ← asText_append]
  unfold waiting
  rw [List.take_append_drop]

end CheesecakeOS.ReadChar
