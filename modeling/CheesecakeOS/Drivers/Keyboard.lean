import CheesecakeOS.Lib.Ring
import CheesecakeOS.Lib.Runs
import CheesecakeOS.Lib.Words
/-!
# The keyboard buffer

`drivers/keyboard.c`: the interrupt handler writes scancodes into a ring of
256 cells and `ck_keyboard_read_key` takes them out. The handler may run
between any two accesses of a read, so a read is three steps: compare head and
tail, load the cell at tail, store tail. A run is any sequence of such steps
and of complete handler activations; its log says what became of every code.

`keyboard_fifo`: whatever the interleaving, the buffer is a bounded queue.
-/
open Lib

namespace CheesecakeOS

abbrev CK_KEYBOARD_BUFFER_SIZE : Nat := 256

/-- The statics of `keyboard.c`. -/
structure Keyboard where
  buffer : Vector U8 CK_KEYBOARD_BUFFER_SIZE
  head : U16
  tail : U16
  shift_pressed : U8
  held_key : U8
  held_key_time : U32
  last_repeat_time : U32

def Keyboard.zero : Keyboard := ⟨.replicate _ 0, 0, 0, 0, 0, 0, 0⟩

/-- `(i + 1) % CK_KEYBOARD_BUFFER_SIZE`, computed as `int`. -/
def next_index (i : U16) : U16 := .ofNat 16 ((i.toNat + 1) % CK_KEYBOARD_BUFFER_SIZE)

/-! ## The source -/

/-- `scancode` is what the port holds, `now` what `ck_timer_get_ticks` returns. -/
def ck_keyboard_irq_handler (s : Keyboard) (scancode : U8) (now : U32) : Keyboard :=
  let is_release := scancode ≥ 0x80#8
  if scancode = 0x2A#8 ∨ scancode = 0x36#8 then { s with shift_pressed := 1 }
  else if scancode = 0xAA#8 ∨ scancode = 0xB6#8 then { s with shift_pressed := 0 }
  else if is_release then
    let press_code := scancode - 0x80#8
    if s.held_key = press_code then { s with held_key := 0 } else s
  else
    let s := { s with held_key := scancode, held_key_time := now, last_repeat_time := now }
    let next_head := next_index s.head
    if next_head ≠ s.tail then
      { s with buffer := s.buffer.setIfInBounds s.head.toNat scancode, head := next_head }
    else s -- full, the scancode is dropped

def ck_keyboard_has_key (s : Keyboard) : U8 := if s.head ≠ s.tail then 1 else 0

def ck_keyboard_read_key (s : Keyboard) : Keyboard × U8 :=
  if s.head = s.tail then (s, 0)
  else
    let scancode := s.buffer[s.tail.toNat]?.getD 0
    ({ s with tail := next_index s.tail }, scancode)

def ck_keyboard_is_shift_pressed (s : Keyboard) : U8 := s.shift_pressed

namespace Keyboard

/-! ## Runs -/

/-- How far the current read has got. -/
inductive Reader where
  | idle
  | compared
  | loaded (scancode : U8)

inductive Event where
  | accepted (scancode : U8)
  | dropped (scancode : U8)
  /-- A read found the buffer empty. -/
  | empty
  | removed (scancode : U8)

inductive Action where
  | irq (scancode : U8) (now : U32)
  /-- The next access of the reader. -/
  | read

structure Sys where
  kbd : Keyboard
  reader : Reader
  log : List Event

/-- Make codes other than those of the shift keys. -/
def IsMake (c : U8) : Prop := c < 0x80#8 ∧ c ≠ 0x2A#8 ∧ c ≠ 0x36#8

instance (c : U8) : Decidable (IsMake c) := inferInstanceAs (Decidable (_ ∧ _))

/-- What an activation of the handler with code `c` did, by its effect: it
accepts a code by moving head on. -/
def irqEvents (s s' : Keyboard) (c : U8) : List Event :=
  if s'.head ≠ s.head then [.accepted c] else if IsMake c then [.dropped c] else []

def Sys.step (σ : Sys) : Action → Sys
  | .irq c now =>
    let kbd := ck_keyboard_irq_handler σ.kbd c now
    ⟨kbd, σ.reader, σ.log ++ irqEvents σ.kbd kbd c⟩
  | .read =>
    match σ.reader with
    | .idle =>
      if σ.kbd.head = σ.kbd.tail then ⟨σ.kbd, .idle, σ.log ++ [.empty]⟩ else ⟨σ.kbd, .compared, σ.log⟩
    | .compared => ⟨σ.kbd, .loaded (σ.kbd.buffer[σ.kbd.tail.toNat]?.getD 0), σ.log⟩
    | .loaded c => ⟨{ σ.kbd with tail := next_index σ.kbd.tail }, .idle, σ.log ++ [.removed c]⟩

/-- From zero-initialised statics, with no read under way. -/
def run (actions : List Action) : Sys := actions.foldl Sys.step ⟨.zero, .idle, []⟩

/-- Without interrupts the three steps are `ck_keyboard_read_key`. -/
theorem read_key_steps (s : Keyboard) (log : List Event) :
    if s.head = s.tail then
      Sys.step ⟨s, .idle, log⟩ .read = ⟨(ck_keyboard_read_key s).1, .idle, log ++ [.empty]⟩ ∧
        (ck_keyboard_read_key s).2 = 0
    else [.read, .read, .read].foldl Sys.step ⟨s, .idle, log⟩ =
      ⟨(ck_keyboard_read_key s).1, .idle, log ++ [.removed (ck_keyboard_read_key s).2]⟩ := by
  split
  next h => simp [Sys.step, ck_keyboard_read_key, h]
  next h => simp [Sys.step, ck_keyboard_read_key, h]

/-! ## The log -/

/-- The codes accepted, in order. -/
def accepted (log : List Event) : List U8 :=
  log.filterMap fun
    | .accepted c => some c
    | _ => none

/-- The codes removed by reads, in order. -/
def removed (log : List Event) : List U8 :=
  log.filterMap fun
    | .removed c => some c
    | _ => none

theorem accepted_append (l l' : List Event) : accepted (l ++ l') = accepted l ++ accepted l' := List.filterMap_append ..

theorem removed_append (l l' : List Event) : removed (l ++ l') = removed l ++ removed l' := List.filterMap_append ..

/-- What must be true when an event happens, `pre` being the log so far. -/
def EventOk (pre : List Event) : Event → Prop
  | .accepted c => IsMake c
  | .dropped c => IsMake c ∧ (accepted pre).length = (removed pre).length + 255
  | .empty => removed pre = accepted pre
  | .removed c => (accepted pre)[(removed pre).length]? = some c

def LogOk (log : List Event) : Prop := ∀ pre e, pre ++ [e] <+: log → EventOk pre e

theorem LogOk.concat {log : List Event} {e : Event} (h : LogOk log) (he : EventOk log e) : LogOk (log ++ [e]) := by
  intro pre e' hp
  rcases List.prefix_concat_iff.1 hp with heq | hp
  · obtain ⟨rfl, he'⟩ := List.append_inj' heq rfl
    cases he'
    exact he
  · exact h pre e' hp

/-! ## One step -/

/-- The handler and the buffer: codes that are not make codes leave it alone;
make codes are stored at head unless the ring is full. -/
theorem irq_cases (s : Keyboard) (c : U8) (now : U32) :
    let s' := ck_keyboard_irq_handler s c now
    s'.tail = s.tail ∧
    ((¬ IsMake c ∧ s'.buffer = s.buffer ∧ s'.head = s.head) ∨
      (IsMake c ∧ next_index s.head = s.tail ∧ s'.buffer = s.buffer ∧ s'.head = s.head) ∨
      (IsMake c ∧ next_index s.head ≠ s.tail ∧ s'.buffer = s.buffer.setIfInBounds s.head.toNat c ∧
        s'.head = next_index s.head)) := by
  unfold ck_keyboard_irq_handler
  by_cases hshift : c = 0x2A#8 ∨ c = 0x36#8
  · have hn : ¬ IsMake c := fun h => hshift.elim h.2.1 h.2.2
    simp only [if_pos hshift]
    exact ⟨trivial, .inl ⟨hn, trivial, trivial⟩⟩
  · rw [not_or] at hshift
    by_cases hup : c = 0xAA#8 ∨ c = 0xB6#8
    · have hn : ¬ IsMake c := by rcases hup with rfl | rfl <;> decide
      simp only [not_or.2 hshift, if_false, if_pos hup]
      exact ⟨trivial, .inl ⟨hn, trivial, trivial⟩⟩
    · by_cases hrel : c ≥ 0x80#8
      · have hn : ¬ IsMake c := fun h => BitVec.not_lt.2 hrel h.1
        simp only [not_or.2 hshift, if_false, if_neg hup, if_pos hrel]
        split <;> exact ⟨rfl, .inl ⟨hn, rfl, rfl⟩⟩
      · have hmake : IsMake c := ⟨BitVec.not_le.1 hrel, hshift⟩
        simp only [not_or.2 hshift, if_false, if_neg hup, if_neg hrel]
        by_cases hfull : next_index s.head = s.tail
        · simp only [hfull, ne_eq, not_true, if_false]
          exact ⟨trivial, .inr (.inl ⟨hmake, trivial, trivial, trivial⟩)⟩
        · simp only [ne_eq, hfull, not_false_iff, if_true]
          exact ⟨trivial, .inr (.inr ⟨hmake, trivial, trivial, trivial⟩)⟩

theorem next_index_toNat (i : U16) : (next_index i).toNat = (i.toNat + 1) % 256 := by
  rw [next_index, BitVec.toNat_ofNat]
  exact Nat.mod_eq_of_lt (Nat.lt_trans (Nat.mod_lt _ (by decide)) (by decide))

theorem next_index_ne (i : U16) : next_index i ≠ i := by
  intro he
  have := congrArg BitVec.toNat he
  rw [next_index_toNat] at this
  omega

/-- The cells as a function. -/
def cells (s : Keyboard) (i : Nat) : U8 := s.buffer[i]?.getD 0

theorem cells_set {s s' : Keyboard} {i : Nat} {c : U8} (hi : i < 256) (h : s'.buffer = s.buffer.setIfInBounds i c) :
    s'.cells = Function.update s.cells i c := by
  funext j
  unfold cells
  rw [h]
  by_cases hj : j = i
  · subst hj
    simp [hi]
  · rw [Function.update_of_ne hj, Vector.getElem?_setIfInBounds_ne (Ne.symm hj)]

/-- The ring holds the codes `q`. -/
def Holds (s : Keyboard) (q : List U8) : Prop := Ring.Queue 256 s.cells s.head.toNat s.tail.toNat q

section Holds
variable {s : Keyboard} {q : List U8}

theorem Holds.empty_iff (h : s.Holds q) : s.head = s.tail ↔ q = [] := by
  rw [← Ring.Queue.head_eq_tail_iff h]
  exact BitVec.toNat_inj.symm

theorem Holds.front {c : U8} (h : s.Holds (c :: q)) : s.buffer[s.tail.toNat]?.getD 0 = c := Ring.Queue.front h

theorem Holds.pop {c : U8} (h : s.Holds (c :: q)) : Holds { s with tail := next_index s.tail } q := by
  have hp := Ring.Queue.pop h
  rw [← next_index_toNat] at hp
  exact hp

/-- The handler stores a make code if there is room for it. -/
theorem Holds.irq (h : s.Holds q) (c : U8) (now : U32) :
    let s' := ck_keyboard_irq_handler s c now
    (s'.head = s.head ∧ s'.Holds q ∧ (IsMake c → q.length + 1 = 256)) ∨
      (s'.head ≠ s.head ∧ IsMake c ∧ s'.Holds (q ++ [c])) := by
  obtain ⟨htail, hcases⟩ := irq_cases s c now
  generalize ck_keyboard_irq_handler s c now = s' at htail hcases ⊢
  have hsame (hb : s'.buffer = s.buffer) (hh : s'.head = s.head) : s'.Holds q := by
    have hc : s'.cells = s.cells := by funext i; simp only [cells, hb]
    unfold Holds
    rw [hc, hh, htail]
    exact h
  rcases hcases with ⟨hn, hb, hh⟩ | ⟨hm, hfull, hb, hh⟩ | ⟨hm, hfull, hb, hh⟩
  · exact .inl ⟨hh, hsame hb hh, fun hm => absurd hm hn⟩
  · exact .inl ⟨hh, hsame hb hh, fun _ => (Ring.Queue.full_iff h).1 (by rw [← next_index_toNat, hfull])⟩
  · have hroom : (s.head.toNat + 1) % 256 ≠ s.tail.toNat := fun e =>
      hfull (BitVec.eq_of_toNat_eq (by rw [next_index_toNat, e]))
    refine .inr ⟨by rw [hh]; exact next_index_ne s.head, hm, ?_⟩
    unfold Holds
    rw [cells_set (Ring.Queue.head_lt h) hb, hh, htail, next_index_toNat]
    exact Ring.Queue.push h hroom c

end Holds

/-- A read under way works on the front of the queue `q`. -/
def Reader.On : Reader → List U8 → Prop
  | .idle, _ => True
  | .compared, q => ∃ c rest, q = c :: rest
  | .loaded c, q => ∃ rest, q = c :: rest

/-- New codes at the back do not disturb a read. -/
theorem Reader.On.append {r : Reader} {q : List U8} (h : r.On q) (c : U8) : r.On (q ++ [c]) := by
  cases r with
  | idle => trivial
  | compared =>
    obtain ⟨d, rest, rfl⟩ := h
    exact ⟨d, rest ++ [c], rfl⟩
  | loaded d =>
    obtain ⟨rest, rfl⟩ := h
    exact ⟨rest ++ [c], rfl⟩

/-- The ring holds the codes accepted and not yet removed. -/
structure Inv (σ : Sys) (q : List U8) : Prop where
  ring : Ring.Queue 256 σ.kbd.cells σ.kbd.head.toNat σ.kbd.tail.toNat q
  unread : accepted σ.log = removed σ.log ++ q
  reader : σ.reader.On q
  log : LogOk σ.log

theorem inv_start : Inv ⟨.zero, .idle, []⟩ [] :=
  ⟨Ring.Queue.empty _ (by decide), rfl, trivial, fun pre e h => by simp at h⟩

theorem Inv.holds {σ : Sys} {q : List U8} (h : Inv σ q) : σ.kbd.Holds q := h.ring

theorem inv_irq {σ : Sys} {q : List U8} (h : Inv σ q) (c : U8) (now : U32) : ∃ q', Inv (σ.step (.irq c now)) q' := by
  have hcases := h.holds.irq c now
  simp only [Sys.step]
  generalize ck_keyboard_irq_handler σ.kbd c now = s' at hcases ⊢
  rcases hcases with ⟨hh, hring, hfull⟩ | ⟨hh, hm, hring⟩
  · by_cases hm : IsMake c
    · have he : irqEvents σ.kbd s' c = [.dropped c] := by simp [irqEvents, hh, hm]
      have hlen := hfull hm
      rw [he]
      refine ⟨q, hring, ?_, h.reader, h.log.concat ⟨hm, ?_⟩⟩
      · rw [accepted_append, removed_append, h.unread]
        simp [accepted, removed]
      · rw [h.unread, List.length_append]
        omega
    · have he : irqEvents σ.kbd s' c = [] := by simp [irqEvents, hh, hm]
      rw [he, List.append_nil]
      exact ⟨q, hring, h.unread, h.reader, h.log⟩
  · have he : irqEvents σ.kbd s' c = [.accepted c] := by simp [irqEvents, hh]
    rw [he]
    refine ⟨q ++ [c], hring, ?_, h.reader.append c, h.log.concat hm⟩
    rw [accepted_append, removed_append, h.unread]
    simp [accepted, removed]

theorem inv_read {σ : Sys} {q : List U8} (h : Inv σ q) : ∃ q', Inv (σ.step .read) q' := by
  obtain ⟨s, reader, log⟩ := σ
  cases reader with
  | idle =>
    have hiff := h.holds.empty_iff
    simp only [Sys.step]
    by_cases he : s.head = s.tail
    · rw [if_pos he]
      obtain rfl := hiff.1 he
      have hu : accepted log = removed log := by simpa using h.unread
      refine ⟨[], h.ring, ?_, trivial, h.log.concat hu.symm⟩
      rw [accepted_append, removed_append, hu]
      simp [accepted, removed]
    · rw [if_neg he]
      exact ⟨q, h.ring, h.unread, List.exists_cons_of_ne_nil (mt hiff.2 he), h.log⟩
  | compared =>
    obtain ⟨c, rest, rfl⟩ := h.reader
    exact ⟨c :: rest, h.ring, h.unread, ⟨rest, by rw [h.holds.front]⟩, h.log⟩
  | loaded c =>
    obtain ⟨rest, rfl⟩ := h.reader
    have hu : accepted log = removed log ++ c :: rest := h.unread
    refine ⟨rest, h.holds.pop, ?_, trivial, h.log.concat ?_⟩
    · simp only [Sys.step]
      rw [accepted_append, removed_append, hu]
      simp [accepted, removed]
    · rw [EventOk, hu, List.getElem?_append_right (Nat.le_refl _), Nat.sub_self]
      rfl

theorem inv_step (σ : Sys) (a : Action) (h : ∃ q, Inv σ q) (_ : True) : ∃ q, Inv (σ.step a) q := by
  obtain ⟨q, h⟩ := h
  cases a with
  | irq c now => exact inv_irq h c now
  | read => exact inv_read h

/-! ## Every run -/

/-- What a bounded queue shows from outside. -/
structure Fifo (σ : Sys) : Prop where
  head_lt : σ.kbd.head.toNat < 256
  tail_lt : σ.kbd.tail.toNat < 256
  order : removed σ.log <+: accepted σ.log
  drained : σ.kbd.head = σ.kbd.tail → removed σ.log = accepted σ.log
  log : LogOk σ.log

theorem Inv.fifo {σ : Sys} {q : List U8} (h : Inv σ q) : Fifo σ := by
  refine ⟨h.ring.head_lt, h.ring.tail_lt, ⟨q, h.unread.symm⟩, fun he => ?_, h.log⟩
  rw [h.unread, h.holds.empty_iff.1 he, List.append_nil]

/-- The keyboard buffer is a bounded queue under every interleaving of handler
activations with the accesses of reads. -/
theorem keyboard_fifo (actions : List Action) : Fifo (run actions) := by
  obtain ⟨q, h⟩ := run_inv Sys.step (fun σ => ∃ q, Inv σ q) inv_step actions ⟨.zero, .idle, []⟩ ⟨[], inv_start⟩
    (allowed_all _)
  exact h.fifo

end Keyboard

end CheesecakeOS
