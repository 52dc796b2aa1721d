import Mathlib.Data.List.Induction
import CheesecakeOS.Interrupts.Stubs
import CheesecakeOS.Interrupts.Idt
import CheesecakeOS.Interrupts.Pic
/-!
# Hardware interrupts from the line to the handler

`interrupts/irq.c` on top of the descriptor table, the controllers and the
stubs. A handler is a value of `H` and a null pointer `none`: a handler's own
work is not modelled, only that it is called. `interrupts_routed` follows an
interrupt through all five parts.
-/
open Lib

namespace CheesecakeOS

variable {H : Type}

/-- The descriptor table, the static of `irq.c` and the controllers. -/
structure Interrupts (H : Type) where
  idt : Idt
  ck_irq_handlers_c : Vector (Option H) 16
  pics : Pics H

/-! ## The source -/

def ck_irq_handler (s : Interrupts H) (irq : U8) : Interrupts H :=
  let pics :=
    if h : irq.toNat < 16 then
      match s.ck_irq_handlers_c[irq.toNat] with
      | some handler => { s.pics with log := s.pics.log ++ [.called handler irq] }
      | none => s.pics
    else s.pics
  { s with pics := ck_pic_send_eoi pics irq }

def ck_irq_set_handler (s : Interrupts H) (irq : U8) (handler : Option H) : Interrupts H :=
  if h : irq.toNat < 16 then { s with ck_irq_handlers_c := s.ck_irq_handlers_c.set irq.toNat handler } else s

/-- `ck_irq_default_handler` stands for the function of that name. -/
def ck_irq_init (A : StubAddresses) (ck_irq_default_handler : H) (s : Interrupts H) : Interrupts H :=
  let handlers := forRange 0 16 s.ck_irq_handlers_c fun t irq => t.setIfInBounds irq (some ck_irq_default_handler)
  let idt := forRange 0 16 s.idt fun t irq =>
    let vector := if irq < 8 then CK_IRQ_OFFSET_MASTER.toNat + irq else CK_IRQ_OFFSET_SLAVE.toNat + (irq - 8)
    ck_idt_set_gate t (.ofNat 8 vector) (A.irq (.ofNat 16 irq)) CK_KERNEL_CS 0x8E
  { s with ck_irq_handlers_c := handlers, idt := idt }

/-- The interrupt part of `ck_main`; `at_` is the address of `ck_idt`. -/
def initInterrupts (A : StubAddresses) (at_ : U32) (ck_irq_default_handler : H) (s : Interrupts H) : Interrupts H :=
  let s := { s with idt := ck_idt_init A at_ s.idt }
  let s := { s with idt := ck_exceptions_init A s.idt }
  let s := { s with pics := ck_pic_init s.pics }
  ck_irq_init A ck_irq_default_handler s

/-- Calls of `ck_irq_set_handler`, the first one first. -/
def setHandlers (s : Interrupts H) (sets : List (U8 × Option H)) : Interrupts H :=
  sets.foldl (fun s p => ck_irq_set_handler s p.1 p.2) s

/-! ## Gates -/

/-- `ck_irq_init` sets the sixteen gates from 32 on. -/
theorem irq_init_gate (A : StubAddresses) (d : H) (s : Interrupts H) (w : U8) :
    ((ck_irq_init A d s).idt.gate w).base =
      if 32 ≤ w.toNat ∧ w.toNat < 48 then A.irq (.ofNat 16 (w.toNat - 32)) else (s.idt.gate w).base := by
  have hvector : ∀ irq, (if irq < 8 then CK_IRQ_OFFSET_MASTER.toNat + irq else CK_IRQ_OFFSET_SLAVE.toNat + (irq - 8)) =
      32 + irq := by
    intro irq
    have hm : CK_IRQ_OFFSET_MASTER.toNat = 32 := rfl
    have hs : CK_IRQ_OFFSET_SLAVE.toNat = 40 := rfl
    split <;> omega
  simp only [ck_irq_init, hvector]
  exact base_set_gates s.idt (by decide : 32 + 16 ≤ 256) (fun i => A.irq (.ofNat 16 i)) w

theorem init_gate (A : StubAddresses) (at_ : U32) (d : H) (s : Interrupts H) (w : U8) :
    ((initInterrupts A at_ d s).idt.gate w).base =
      if w.toNat < 32 then A.exception (.ofNat 32 w.toNat)
      else if w.toNat < 48 then A.irq (.ofNat 16 (w.toNat - 32)) else A.default_stub := by
  unfold initInterrupts
  rw [irq_init_gate, exceptions_init_gate, idt_init_gate]
  split_ifs <;> first | rfl | omega

/-! ## The handler table -/

section Handlers
variable (s : Interrupts H) (sets : List (U8 × Option H))

@[simp] theorem set_handler_idt (irq : U8) (handler : Option H) : (ck_irq_set_handler s irq handler).idt = s.idt := by
  unfold ck_irq_set_handler
  split <;> rfl

@[simp] theorem set_handler_pics (irq : U8) (handler : Option H) :
    (ck_irq_set_handler s irq handler).pics = s.pics := by
  unfold ck_irq_set_handler
  split <;> rfl

theorem set_handler_table (irq : U8) (handler : Option H) (n : Fin 16) :
    (ck_irq_set_handler s irq handler).ck_irq_handlers_c[n] =
      if irq.toNat = n.val then handler else s.ck_irq_handlers_c[n] := by
  unfold ck_irq_set_handler
  by_cases h : irq.toNat < 16
  · rw [dif_pos h]
    exact Vector.getElem_set h n.isLt
  · rw [dif_neg h, if_neg (by omega)]

theorem setHandlers_frame : (setHandlers s sets).idt = s.idt ∧ (setHandlers s sets).pics = s.pics := by
  unfold setHandlers
  induction sets generalizing s with
  | nil => exact ⟨rfl, rfl⟩
  | cons p sets ih =>
    have h := ih (ck_irq_set_handler s p.1 p.2)
    rwa [set_handler_idt, set_handler_pics] at h

/-- What was registered last for a line, a null pointer too; `none` if nothing was. -/
def lastSet (n : Fin 16) : Option (Option H) := (sets.reverse.find? fun p => p.1.toNat = n.val).map (·.2)

theorem setHandlers_table (n : Fin 16) :
    (setHandlers s sets).ck_irq_handlers_c[n] = (lastSet sets n).getD s.ck_irq_handlers_c[n] := by
  induction sets using List.reverseRecOn with
  | nil => rfl
  | append_singleton sets p ih =>
    have hlast : setHandlers s (sets ++ [p]) = ck_irq_set_handler (setHandlers s sets) p.1 p.2 := by
      simp [setHandlers]
    rw [hlast, set_handler_table, ih]
    unfold lastSet
    rw [List.reverse_append, List.reverse_singleton, List.singleton_append, List.find?_cons]
    by_cases h : p.1.toNat = n.val
    · simp [h]
    · simp [h]

end Handlers

/-- `ck_irq_init` gives every line the default handler. -/
theorem irq_init_table (A : StubAddresses) (d : H) (s : Interrupts H) (n : Fin 16) :
    (ck_irq_init A d s).ck_irq_handlers_c[n] = some d := by
  have h : n.val < 16 → (forRange 0 16 s.ck_irq_handlers_c fun t irq => t.setIfInBounds irq (some d))[n] = some d := by
    apply forRange_inv (fun k (t : Vector (Option H) 16) => n.val < k → t[n] = some d) (Nat.zero_le 16)
    · exact fun hn => absurd hn (Nat.not_lt_zero _)
    · intro k t _ hk ih hn
      by_cases hkn : k = n.val
      · subst hkn
        simp
      · have hlt : n.val < k := by omega
        simpa [Vector.getElem_setIfInBounds, hkn] using ih hlt
  exact h n.isLt

/-! ## An interrupt -/

/-- The handler that runs on line `n`: the last one registered, and none if
that was a null pointer. -/
def handlerFor (ck_irq_default_handler : H) (sets : List (U8 × Option H)) (n : Fin 16) : Option H :=
  (lastSet sets n).getD (some ck_irq_default_handler)

/-- The call of the handler, if there is one, and the ends of interrupt. -/
def served (handler : Option H) (n : Fin 16) : List (Event H) :=
  (handler.map (Event.called · (.ofNat 8 n))).toList ++ (if 8 ≤ n.val then [.eoi .slave] else []) ++ [.eoi .master]

theorem irq_handler_log (s : Interrupts H) (n : Fin 16) :
    (ck_irq_handler s (.ofNat 8 n)).pics.log = s.pics.log ++ served s.ck_irq_handlers_c[n] n := by
  have hn : (BitVec.ofNat 8 n.val).toNat = n.val := by
    rw [BitVec.toNat_ofNat]
    omega
  unfold ck_irq_handler served
  rw [send_eoi_log, dif_pos (by omega)]
  simp only [hn]
  rw [Fin.getElem_fin]
  rcases s.ck_irq_handlers_c[n.val] with _ | handler
  · simp
  · simp

/-- The stub of line `n` calls `ck_irq_handler` with `n`. -/
theorem irq_stub_argument (m : Machine) (n : Fin 16) (ret : U32) :
    ∃ e, m.deliverIrq.atCall (ck_isr_irq n ret) = some e ∧ (e.arg 0).setWidth 8 = BitVec.ofNat 8 n := by
  have hstack : Machine.Stack (m.pushes ((Interrupt.irq n).pushed m)) (.ofNat 32 n :: [m.eip, m.cs, m.eflags]) :=
    (Machine.Stack.nil m).pushes ((Interrupt.irq n).pushed m) (by simp [Interrupt.pushed, Interrupt.extra])
  refine ⟨_, stub_atCall m (.irq n) ret, ?_⟩
  rw [(entered_args hstack (by simp) ret).1]
  clear hstack
  revert n
  decide

/-- After the initialisation in the order of `ck_main` and any registrations:
the first 32 gates lead to the exception stubs, the gate of the vector a line
is delivered with leads to the stub of that line, and every other gate leads to
the default stub. The stub of a line enters `ck_irq_handler`, which calls what
was registered last with the number of the line (nothing, if that was a null
pointer) and then ends the interrupt at the chips concerned, the slave first. -/
theorem interrupts_routed (A : StubAddresses) (at_ : U32) (d : H) (boot : Interrupts H) (sets : List (U8 × Option H)) :
    let s := setHandlers (initInterrupts A at_ d boot) sets
    (∀ v : Fin 32, (s.idt.gate (.ofNat 8 v)).base = A.exception v) ∧
      (∀ n, ∃ v, s.pics.vector n = some v ∧ (s.idt.gate v).base = A.irq n) ∧
      (∀ v, 32 ≤ v.toNat → (∀ n, s.pics.vector n ≠ some v) → (s.idt.gate v).base = A.default_stub) ∧
      ∀ (m : Machine) (n : Fin 16) (ret : U32), ∃ e, m.deliverIrq.atCall (ck_isr_irq n ret) = some e ∧
        (ck_irq_handler s ((e.arg 0).setWidth 8)).pics.log = s.pics.log ++ served (handlerFor d sets n) n := by
  intro s
  obtain ⟨hidt, hpics⟩ := setHandlers_frame (initInterrupts A at_ d boot) sets
  have hgate (w : U8) := init_gate A at_ d boot w
  have hvector : ∀ n, s.pics.vector n = some (.ofNat 8 (32 + n)) := by
    intro n
    rw [hpics]
    exact pic_init_vector boot.pics n
  refine ⟨fun v => ?_, fun n => ⟨_, hvector n, ?_⟩, fun v hv hother => ?_, fun m n ret => ?_⟩
  · have hv : (BitVec.ofNat 8 v.val).toNat = v.val := by
      rw [BitVec.toNat_ofNat]
      omega
    rw [hidt, hgate, hv, if_pos v.isLt, Fin.ofNat_val_eq_self]
  · have hn : (BitVec.ofNat 8 (32 + n.val)).toNat = 32 + n.val := by
      rw [BitVec.toNat_ofNat]
      omega
    rw [hidt, hgate, hn, if_neg (by omega), if_pos (by omega), Nat.add_sub_cancel_left, Fin.ofNat_val_eq_self]
  · have hhigh : ¬ v.toNat < 48 := by
      intro hlt
      apply hother ⟨v.toNat - 32, by omega⟩
      rw [hvector, Nat.add_sub_cancel' hv, BitVec.ofNat_toNat, BitVec.setWidth_eq]
    rw [hidt, hgate, if_neg (by omega), if_neg hhigh]
  · obtain ⟨e, he, harg⟩ := irq_stub_argument m n ret
    refine ⟨e, he, ?_⟩
    rw [harg, irq_handler_log, setHandlers_table]
    unfold handlerFor
    rw [show (initInterrupts A at_ d boot).ck_irq_handlers_c[n] = some d from irq_init_table A d _ n]

/-- The last handler registered that is not a null pointer. -/
def lastHandler (ck_irq_default_handler : H) (sets : List (U8 × Option H)) (n : Fin 16) : H :=
  ((sets.reverse.filter fun p => p.1.toNat = n.val).findSome? (·.2)).getD ck_irq_default_handler

/-- Addresses and a state before the initialisation, for an example. -/
def someStubs : StubAddresses := ⟨0x100100, fun v => 0x100200 + 16 * .ofNat 32 v, fun n => 0x100400 + 16 * .ofNat 32 n⟩

def someBoot : Interrupts U32 :=
  ⟨⟨.replicate _ ⟨0, 0, 0, 0, 0⟩, ⟨0, 0⟩, ⟨0, 0⟩⟩, .replicate _ none,
    ⟨⟨0, 0, 0, 0, 0, .mask⟩, ⟨0, 0, 0, 0, 0, .mask⟩, []⟩⟩

/-- A null pointer registered for the timer takes the handler away: the one
registered before it is not called again. -/
theorem null_handler_not_called :
    let sets : List (U8 × Option U32) := [(0, some 0x101000), (0, none)]
    let s := setHandlers (initInterrupts someStubs 0x102000 0x100000 someBoot) sets
    lastHandler 0x100000 sets 0 = 0x101000 ∧ (ck_irq_handler s 0).pics.log = s.pics.log ++ [.eoi .master] ∧
      (ck_irq_handler s 0).pics.log ≠ s.pics.log ++ served (some (lastHandler 0x100000 sets 0)) 0 := by
  intro sets s
  have hlog : (ck_irq_handler s 0).pics.log = s.pics.log ++ [.eoi .master] := by
    refine (irq_handler_log s 0).trans ?_
    rw [setHandlers_table]
    rfl
  refine ⟨by decide, hlog, fun h => ?_⟩
  rw [hlog] at h
  have hlen := congrArg List.length (List.append_cancel_left h)
  simp [served] at hlen

end CheesecakeOS
