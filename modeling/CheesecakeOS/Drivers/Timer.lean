import CheesecakeOS.Interrupts.Irq
/-!
# The timer

`drivers/timer.c` programs channel 0 of the timer chip, in whatever state the
firmware left it. As a rate generator the channel counts the pulses of its clock
down from the number it was given. Its output is the line of the timer's
interrupt: it falls when the count gets to one, and rises with the next pulse,
which starts the count again. Only this mode is modelled, counting in binary: the
other modes are left as soon as the control word is written.
-/
open Lib

namespace CheesecakeOS

abbrev CK_PIT_CHANNEL0 : U16 := 0x40#16
abbrev CK_PIT_CONTROL : U16 := 0x43#16
abbrev CK_IRQ_TIMER : U8 := 0#8

/-- Channel 0 of the chip. -/
structure Pit where
  control : U8
  /-- The first byte of a number, when the second has still to come. -/
  low : Option U8
  /-- The number to count from. -/
  reload : Option U16
  /-- 0 until the first pulse loads the number. -/
  count : Nat
deriving DecidableEq

namespace Pit

/-- Bits 6 and 7 of a control word are for the channel, and a word with bits 4 and 5 clear only latches the count. -/
def command (p : Pit) (v : U8) : Pit :=
  if v &&& 0xC0#8 = 0 ∧ v &&& 0x30#8 ≠ 0 then ⟨v, none, none, 0⟩ else p

/-- Bits 4 and 5 of the control word tell which bytes of a number are written. A new number counts from the next reload. -/
def data (p : Pit) (v : U8) : Pit :=
  if p.control &&& 0x30#8 = 0x10 then { p with reload := some (v.setWidth 16) }
  else if p.control &&& 0x30#8 = 0x20 then { p with reload := some (v.setWidth 16 <<< 8) }
  else
    match p.low with
    | none => { p with low := some v }
    | some low => { p with low := none, reload := some (v.setWidth 16 <<< 8 ||| low.setWidth 16) }

/-- The pulses of a period, in mode 2 and with bit 0 clear, for binary. -/
def period (p : Pit) : Option Nat :=
  if p.control &&& 0x07#8 = 0x04 then p.reload.map fun n => if n = 0 then 65536 else n.toNat else none

/-- The output. -/
def out (p : Pit) : Bool := p.count ≠ 1

/-- A pulse of the clock. -/
def pulse (p : Pit) : Pit :=
  match p.period with
  | none => p
  | some n => { p with count := if p.count ≤ 1 then n else p.count - 1 }

def ck_outb (p : Pit) (port : U16) (value : U8) : Pit :=
  if port = CK_PIT_CONTROL then p.command value else if port = CK_PIT_CHANNEL0 then p.data value else p

end Pit

/-! ## The source -/

variable {H : Type}

/-- `ck_timer_irq_handler` stands for the function of that name. -/
def ck_timer_init (ck_timer_irq_handler : H) (s : Interrupts H) (p : Pit) : Interrupts H × Pit :=
  let reload_value : U16 := 1193
  let p := p.ck_outb CK_PIT_CONTROL 0x34
  let p := p.ck_outb CK_PIT_CHANNEL0 ((reload_value &&& 0xFF).setWidth 8)
  let p := p.ck_outb CK_PIT_CHANNEL0 (((reload_value >>> 8) &&& 0xFF).setWidth 8)
  (ck_irq_set_handler s CK_IRQ_TIMER (some ck_timer_irq_handler), p)

/-! ## The line of the timer -/

/-- The chip when `ck_timer_init` returns. -/
def Pit.programmed : Pit := ⟨0x34, none, some 1193, 0⟩

/-- The chip is programmed, whatever it did before and whatever it expected. -/
theorem timer_init_pit (h : H) (s : Interrupts H) (p : Pit) : (ck_timer_init h s p).2 = .programmed := by
  have hcommand : p.ck_outb CK_PIT_CONTROL 0x34 = ⟨0x34, none, none, 0⟩ := if_pos (by decide)
  unfold ck_timer_init
  dsimp only
  rw [hcommand]
  decide

namespace Pit

/-- The chip after a number of pulses. -/
def after (n : Nat) : Pit := { programmed with count := if n = 0 then 0 else 1193 - (n - 1) % 1193 }

theorem after_zero : after 0 = programmed := rfl

theorem pulse_after (n : Nat) : (after n).pulse = after (n + 1) := by
  have hperiod : (after n).period = some 1193 := by
    simp [after, period, programmed]
  unfold pulse
  rw [hperiod]
  unfold after
  dsimp only
  congr 1
  rw [if_neg (Nat.succ_ne_zero n), Nat.add_sub_cancel]
  by_cases h0 : n = 0
  · simp [h0]
  · rw [if_neg h0]
    split_ifs
    all_goals omega

/-- How often the line has risen. -/
def rises (n : Nat) : Nat := (n - 1) / 1193

/-- The line rises with the pulse after which it fell. -/
theorem rises_succ (n : Nat) : rises (n + 1) = rises n + if (after n).out then 0 else 1 := by
  have hout : (after n).out = true ↔ ¬ (n ≠ 0 ∧ (n - 1) % 1193 = 1192) := by
    unfold after out
    simp only [ne_eq, decide_eq_true_eq]
    split
    · next h0 => simp [h0]
    · next h0 => omega
  unfold rises
  by_cases h : n ≠ 0 ∧ (n - 1) % 1193 = 1192
  · rw [if_neg fun ho => hout.1 ho h]
    omega
  · rw [if_pos (hout.2 h)]
    omega

/-- The line is high again right after it has risen. -/
theorem out_succ {n : Nat} (h : (after n).out = false) : (after (n + 1)).out = true := by
  unfold after out at *
  simp only [ne_eq, decide_eq_false_iff_not, not_not, decide_eq_true_eq] at *
  split_ifs at *
  all_goals omega

end Pit

end CheesecakeOS
