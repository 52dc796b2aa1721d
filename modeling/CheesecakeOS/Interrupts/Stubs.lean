import CheesecakeOS.Interrupts.Exceptions
/-!
# Interrupt stubs as seen by the interrupted code

The stubs of `interrupts/irq.asm`, and what they have in common with those of
`interrupts/exceptions.asm`: save the registers, call a C function with two
arguments, drop the arguments, restore the registers, drop what the stub and
the processor pushed besides the return frame, `iret`. They differ in how much
there is to drop.

`stubs_transparent`: if the C function returns, the interrupted code finds its
registers, stack pointer, EIP, CS and EFLAGS as they were, and nothing changed
at or above its stack pointer but by the C function.
-/
open Lib

namespace CheesecakeOS

def CK_ISR_IRQ (n : U32) : List Instr := [.pushImm n]

def ck_irq_common (ret : U32) : List Instr :=
  [.pushad, .movEaxEsp 32, .pushEsp, .pushEax, .call ret, .addEsp 8, .popad, .addEsp 4, .iret]

/-- `ck_isr_irq_n`; `ret` is the address behind the call. -/
def ck_isr_irq (n : Fin 16) (ret : U32) : List Instr := CK_ISR_IRQ (.ofNat 32 n) ++ ck_irq_common ret

/-- What the processor pushes for a hardware interrupt. -/
def Machine.deliverIrq (m : Machine) : Machine := m.pushes [m.eflags, m.cs, m.eip]

/-- A program from start to end. -/
def Machine.runs (callee : Machine → Machine) (m : Machine) (is : List Instr) : Machine :=
  is.foldl (Machine.exec callee) m

/-! ## The common part -/

/-- The common part of a stub, with `drop` bytes dropped before `iret`. -/
def isrCommon (drop ret : U32) : List Instr :=
  [.pushad, .movEaxEsp 32, .pushEsp, .pushEax, .call ret, .addEsp 8, .popad, .addEsp drop, .iret]

theorem irq_common_eq (ret : U32) : ck_irq_common ret = isrCommon 4 ret := rfl

theorem exception_common_eq (ret : U32) : ck_exception_common ret = isrCommon 8 ret := rfl

/-- A C function entered at `e` with two arguments has returned in `e'`: its
return address is popped, and the `n` bytes above the arguments are as they
were. It may have changed every other register and, on the stack, the
arguments and all below. -/
structure Returned (e e' : Machine) (n : Nat) : Prop where
  esp : e'.regs.esp = e.regs.esp + 4
  frame : ∀ x, 12 ≤ (x - e.regs.esp).toNat → (x - e.regs.esp).toNat < 12 + n → e'.mem x = e.mem x

/-- A word above the arguments. -/
theorem Returned.word {e e' : Machine} {n k : Nat} (h : Returned e e' n) (hk : 4 * k + 4 ≤ n) (hn : n < 2 ^ 20) :
    load32 e'.mem (e.regs.esp + .ofNat 32 (4 * (k + 3))) = load32 e.mem (e.regs.esp + .ofNat 32 (4 * (k + 3))) := by
  apply load32_congr
  intro x hx
  have e1 : (x - e.regs.esp).toNat = (x - (e.regs.esp + .ofNat 32 (4 * (k + 3))) + .ofNat 32 (4 * (k + 3))).toNat := by
    congr 1
    grind
  rw [BitVec.toNat_add, BitVec.toNat_ofNat] at e1
  exact h.frame x (by omega) (by omega)

/-- What a stub does once the function has returned. -/
def leave (drop : U32) (f : Machine) : Machine :=
  let a := f.regs.esp + 8
  let word (k : U32) := load32 f.mem (a + k)
  ⟨⟨word 0, word 4, word 8, a + 32 + drop + 12, word 16, word 20, word 24, word 28⟩, f.mem,
    load32 f.mem (a + 32 + drop + 0), load32 f.mem (a + 32 + drop + 4), load32 f.mem (a + 32 + drop + 8)⟩

theorem runs_isrCommon (callee : Machine → Machine) (u : Machine) (drop ret : U32) :
    u.runs callee (isrCommon drop ret) = leave drop (callee (entered u ret)) := rfl

/-- The common part restores what it saved, and `iret` takes the last three
words it finds. -/
theorem runs_common {u : Machine} {vec ret eip cs eflags : U32} {extra : List U32} (callee : Machine → Machine)
    (h : u.Stack (vec :: (extra ++ [eip, cs, eflags]))) (hlen : extra.length ≤ 1)
    (hret : Returned (entered u ret) (callee (entered u ret)) (48 + 4 * extra.length)) :
    u.runs callee (isrCommon (.ofNat 32 (4 * (extra.length + 1))) ret) =
      ⟨{ u.regs with esp := u.regs.esp + .ofNat 32 (4 * (extra.length + 4)) }, (callee (entered u ret)).mem,
        eip, cs, eflags⟩ := by
  have hstack := entered_stack h (by simp; omega) ret
  rw [runs_isrCommon]
  have hesp : (entered u ret).regs.esp = u.regs.esp - 44 := by
    show u.pushad.regs.esp - 4 - 4 - 4 = u.regs.esp - 44
    rw [Machine.pushad, Machine.pushes_regs]
    show u.regs.esp - 32 - 4 - 4 - 4 = u.regs.esp - 44
    grind
  generalize entered u ret = e at hret hstack hesp
  generalize callee e = f at hret
  have ha : f.regs.esp + 8 = u.regs.esp - 32 := by
    rw [hret.esp, hesp]
    grind
  -- The words from the saved registers on, as `f` leaves them.
  have hword : ∀ k w, k < 12 + extra.length →
      (u.regs.edi :: u.regs.esi :: u.regs.ebp :: u.regs.esp :: u.regs.ebx :: u.regs.edx :: u.regs.ecx :: u.regs.eax ::
        vec :: (extra ++ [eip, cs, eflags]))[k]? = some w →
      load32 f.mem (u.regs.esp - 32 + .ofNat 32 (4 * k)) = w := by
    intro k w hk hw
    have hkeep := hret.word (k := k) (by omega) (by omega)
    have hold := hstack.word (k := k + 3) (w := w) hw
    have haddr : e.regs.esp + .ofNat 32 (4 * (k + 3)) = u.regs.esp - 32 + .ofNat 32 (4 * k) := by
      rw [Nat.mul_add, BitVec.ofNat_add, hesp]
      grind
    rw [← haddr, hkeep, hold]
  -- The return frame lies behind the registers, the vector and the extra word.
  have hframe : ∀ j w (d : U32), d = .ofNat 32 (4 * j) → [eip, cs, eflags][j]? = some w →
      load32 f.mem (u.regs.esp - 32 + 32 + .ofNat 32 (4 * (extra.length + 1)) + d) = w := by
    intro j w d hd hw
    have hj : j < 3 := (List.getElem?_eq_some_iff.1 hw).1
    have hlast := hword (9 + extra.length + j) w (by omega) (by
      rw [show 9 + extra.length + j = (extra.length + j) + 9 by omega]
      simpa [List.getElem?_append_right] using hw)
    have haddr : u.regs.esp - 32 + 32 + .ofNat 32 (4 * (extra.length + 1)) + d =
        u.regs.esp - 32 + .ofNat 32 (4 * (9 + extra.length + j)) := by
      rw [hd, show 4 * (9 + extra.length + j) = 32 + 4 * (extra.length + 1) + 4 * j by omega, BitVec.ofNat_add,
        BitVec.ofNat_add]
      grind
    rw [haddr, hlast]
  have htop : u.regs.esp - 32 + 32 + .ofNat 32 (4 * (extra.length + 1)) + 12 =
      u.regs.esp + .ofNat 32 (4 * (extra.length + 4)) := by
    rw [show 4 * (extra.length + 4) = 4 * (extra.length + 1) + 12 by omega, BitVec.ofNat_add _ 12]
    grind
  simp only [leave, ha]
  rw [hframe 0 eip 0 rfl rfl, hframe 1 cs 4 rfl rfl, hframe 2 eflags 8 rfl rfl, htop]
  congr 1
  congr 1
  · exact hword 0 _ (by omega) rfl
  · exact hword 1 _ (by omega) rfl
  · exact hword 2 _ (by omega) rfl
  · exact hword 4 _ (by omega) rfl
  · exact hword 5 _ (by omega) rfl
  · exact hword 6 _ (by omega) rfl
  · exact hword 7 _ (by omega) rfl

/-! ## What the stubs write -/

/-- Pushing changes only the bytes pushed. -/
theorem pushes_same (us : List U32) (hlen : us.length ≤ 2 ^ 20) : ∀ m : Machine,
    Same m.mem (m.pushes us).mem (m.regs.esp - .ofNat 32 (4 * us.length)) (4 * us.length) := by
  induction us with
  | nil => intro m x _; rfl
  | cons u us ih =>
    intro m
    rw [List.length_cons] at hlen ⊢
    have hpush : Same m.mem (m.push u).mem (m.regs.esp - 4) 4 := store32_same _ _ _
    have hrest := ih (by omega) (m.push u)
    have hbase : m.regs.esp - 4 - .ofNat 32 (4 * us.length) = m.regs.esp - .ofNat 32 (4 * (us.length + 1)) := by
      rw [Nat.mul_succ, BitVec.ofNat_add]
      grind
    have htop : m.regs.esp - 4 = m.regs.esp - .ofNat 32 (4 * (us.length + 1)) + .ofNat 32 (4 * us.length) := by
      rw [← hbase]
      grind
    rw [htop] at hpush
    have hrest' : Same (m.push u).mem (m.pushes (u :: us)).mem (m.regs.esp - .ofNat 32 (4 * (us.length + 1)))
        (4 * us.length) := by
      rw [← hbase]
      exact hrest
    refine (hpush.widen ?_).trans (hrest'.mono (by omega))
    rw [BitVec.toNat_ofNat]
    omega

/-- Entering the function writes the registers, the arguments and the return
address below the stack pointer. -/
theorem entered_same (u : Machine) (ret : U32) : Same u.mem (entered u ret).mem (u.regs.esp - 44) 44 := by
  have hregs := Machine.pushes_regs
    [u.regs.eax, u.regs.ecx, u.regs.edx, u.regs.ebx, u.regs.esp, u.regs.ebp, u.regs.esi, u.regs.edi] u
  have hsave := pushes_same
    [u.regs.eax, u.regs.ecx, u.regs.edx, u.regs.ebx, u.regs.esp, u.regs.ebp, u.regs.esi, u.regs.edi] (by simp) u
  have hargs := pushes_same [u.pushad.regs.esp, load32 u.pushad.mem (u.pushad.regs.esp + 32), ret] (by simp)
    { u.pushad with regs := { u.pushad.regs with eax := load32 u.pushad.mem (u.pushad.regs.esp + 32) } }
  have hesp : u.pushad.regs.esp = u.regs.esp - 32 := by
    rw [Machine.pushad, hregs]
    rfl
  have hlow : u.pushad.regs.esp - 12 = u.regs.esp - 44 := by
    rw [hesp]
    grind
  have hhigh : u.regs.esp - 32 = u.regs.esp - 44 + 12 := by grind
  have hsave' : Same u.mem u.pushad.mem (u.regs.esp - 44 + 12) 32 := by
    rw [← hhigh]
    exact hsave
  have hargs' : Same u.pushad.mem (entered u ret).mem (u.regs.esp - 44) 12 := by
    rw [← hlow]
    exact hargs
  exact (hsave'.widen (by decide)).trans (hargs'.mono (by decide))

/-! ## Every stub -/

/-- What may interrupt the processor: a line of the interrupt controllers, or
an exception with the error code the processor has for it. -/
inductive Interrupt where
  | irq (n : Fin 16)
  | exception (v : Fin 32) (err : U32)

namespace Interrupt

/-- The machine when the stub starts. -/
def deliver (m : Machine) : Interrupt → Machine
  | .irq _ => m.deliverIrq
  | .exception v err => m.deliver v err

def stub (ret : U32) : Interrupt → List Instr
  | .irq n => ck_isr_irq n ret
  | .exception v _ => ck_isr_exception v ret

/-- The number the stub pushes. -/
def number : Interrupt → U32
  | .irq n => .ofNat 32 n
  | .exception v _ => .ofNat 32 v

/-- The error code, where there is one or a stub made one up. -/
def extra : Interrupt → List U32
  | .irq _ => []
  | .exception v err => [trueError v err]

/-- The bytes of the return frame, of what the stub pushes and of the saved
registers. -/
def saved (i : Interrupt) : Nat := 48 + 4 * i.extra.length

/-- How far below the interrupted stack pointer the stub writes: two arguments
and a return address further. -/
def depth (i : Interrupt) : Nat := i.saved + 12

/-- The words on the stack when the common part starts. -/
def pushed (m : Machine) (i : Interrupt) : List U32 := [m.eflags, m.cs, m.eip] ++ i.extra ++ [i.number]

end Interrupt

section Stub
variable (m : Machine) (i : Interrupt) (ret : U32)

theorem runs_pushImm (callee : Machine → Machine) (w : U32) (is : List Instr) :
    m.runs callee (.pushImm w :: is) = (m.push w).runs callee is := rfl

/-- Every stub comes to the common part with its words pushed. -/
theorem stub_runs (callee : Machine → Machine) : (i.deliver m).runs callee (i.stub ret) =
    (m.pushes (i.pushed m)).runs callee (isrCommon (.ofNat 32 (4 * (i.extra.length + 1))) ret) := by
  cases i with
  | irq n =>
    simp only [Interrupt.deliver, Interrupt.stub, Interrupt.pushed, Interrupt.extra, Interrupt.number,
      Machine.deliverIrq, ck_isr_irq, CK_ISR_IRQ, List.cons_append, List.nil_append, runs_pushImm, Machine.push_pushes,
      irq_common_eq, List.length_nil]
    rfl
  | exception v err =>
    simp only [Interrupt.deliver, Interrupt.stub, Interrupt.pushed, Interrupt.extra, Interrupt.number,
      Machine.deliver, ck_isr_exception, trueError, List.length_singleton]
    rw [stub_eq, exception_common_eq]
    cases cpuPushesError v with
    | true =>
      simp only [if_true, CK_ISR_WITH_ERROR, List.cons_append, List.nil_append, runs_pushImm, Machine.push_pushes]
      rfl
    | false =>
      simp only [Bool.false_eq_true, if_false, CK_ISR_NO_ERROR, List.cons_append, List.nil_append, List.append_nil,
        runs_pushImm, Machine.push_pushes]
      rfl

theorem stub_atCall : (i.deliver m).atCall (i.stub ret) = some (entered (m.pushes (i.pushed m)) ret) := by
  cases i with
  | irq n => rfl
  | exception v err => exact stub_pushes m v err ret

end Stub

/-- Every stub reaches its call, and if the C function returns, the stub ends
with the registers, ESP, EIP, CS and EFLAGS of the interrupted code. Before the
call it changes memory only below the interrupted stack pointer, after it
nowhere. -/
theorem stubs_transparent (m : Machine) (i : Interrupt) (ret : U32) (callee : Machine → Machine) :
    ∃ e, (i.deliver m).atCall (i.stub ret) = some e ∧
      Same m.mem e.mem (m.regs.esp - .ofNat 32 i.depth) i.depth ∧
      (Returned e (callee e) i.saved →
        (i.deliver m).runs callee (i.stub ret) = ⟨m.regs, (callee e).mem, m.eip, m.cs, m.eflags⟩) := by
  have hlen : i.extra.length ≤ 1 := by cases i <;> simp [Interrupt.extra]
  have hpushed : (i.pushed m).length = i.extra.length + 4 := by simp [Interrupt.pushed]
  have hregs := Machine.pushes_regs (i.pushed m) m
  rw [hpushed] at hregs
  refine ⟨_, stub_atCall m i ret, ?_, fun hret => ?_⟩
  · have hstub := pushes_same (i.pushed m) (by omega) m
    have henter := entered_same (m.pushes (i.pushed m)) ret
    rw [hpushed] at hstub
    rw [hregs] at henter
    have hdepth : i.depth = 44 + 4 * (i.extra.length + 4) := by
      simp only [Interrupt.depth, Interrupt.saved]
      omega
    have hbase : m.regs.esp - .ofNat 32 (4 * (i.extra.length + 4)) = m.regs.esp - .ofNat 32 i.depth + 44 := by
      rw [hdepth, BitVec.ofNat_add]
      grind
    rw [hbase] at hstub henter
    have hlow : m.regs.esp - .ofNat 32 i.depth + 44 - 44 = m.regs.esp - .ofNat 32 i.depth := by grind
    rw [hlow] at henter
    refine (hstub.widen ?_).trans (henter.mono (by omega))
    rw [hdepth]
    exact Nat.le_refl _
  · have hstack : (m.pushes (i.pushed m)).Stack (i.number :: (i.extra ++ [m.eip, m.cs, m.eflags])) := by
      have hs := (Machine.Stack.nil m).pushes (i.pushed m) (by rw [List.length_nil]; omega)
      cases i <;> exact hs
    rw [stub_runs, runs_common callee hstack hlen hret, hregs]
    have hesp : m.regs.esp - .ofNat 32 (4 * (i.extra.length + 4)) + .ofNat 32 (4 * (i.extra.length + 4)) =
        m.regs.esp := BitVec.sub_add_cancel _ _
    simp only [hesp]

/-- A function that clobbers what cdecl lets it: EAX, ECX, EDX, the flags and
its first argument. -/
def clobber (e : Machine) : Machine :=
  { e with
    regs := { e.regs with esp := e.regs.esp + 4, eax := 0, ecx := 0, edx := 0 }, eflags := 0
    mem := store32 e.mem (e.regs.esp + 4) 0 }

theorem stubs_transparent_clobber : ∃ e, (Interrupt.deliver pageFault (.exception 14 2)).atCall
    (Interrupt.stub 0x100800 (.exception 14 2)) = some e ∧ Returned e (clobber e) 52 ∧
    (Interrupt.deliver pageFault (.exception 14 2)).runs clobber (Interrupt.stub 0x100800 (.exception 14 2)) =
      ⟨pageFault.regs, (clobber e).mem, pageFault.eip, pageFault.cs, pageFault.eflags⟩ := by
  obtain ⟨e, he, -, hret⟩ := stubs_transparent pageFault (.exception 14 2) 0x100800 clobber
  have hclobber : Returned e (clobber e) 52 := by
    refine ⟨rfl, fun x h1 h2 => store32_same e.mem (e.regs.esp + 4) 0 x ?_⟩
    have hsub : (x - e.regs.esp).toNat = (x - (e.regs.esp + 4) + 4).toNat := by
      congr 1
      grind
    rw [BitVec.toNat_add, show (4 : U32).toNat = 4 from rfl] at hsub
    omega
  exact ⟨e, he, hclobber, hret hclobber⟩

end CheesecakeOS
