import CheesecakeOS.Lib.Stack
/-!
# The processor, as far as the interrupt stubs use it

32-bit x86 in protected mode: the general registers, EIP, CS, EFLAGS and
memory, with the instructions of `interrupts/exceptions.asm`. The stubs run
straight down to a call of a C function and on from there, so a program is a
list of instructions. `atCall` is the machine at the first instruction of the
function called.

The flags an `add` sets are not modelled: nothing reads them before `iret`
loads others.
-/
open Lib

namespace CheesecakeOS

/-- The general registers, in the order of `struct ck_registers`. -/
structure Registers where
  edi : U32
  esi : U32
  ebp : U32
  esp : U32
  ebx : U32
  edx : U32
  ecx : U32
  eax : U32

structure Machine where
  regs : Registers
  mem : Mem
  eip : U32
  cs : U32
  eflags : U32

inductive Instr where
  | pushImm (w : U32)
  | pushEsp
  | pushEax
  | pushad
  /-- `mov eax, [esp + disp]` -/
  | movEaxEsp (disp : U32)
  /-- Call of a C function, to return to `ret`. -/
  | call (ret : U32)
  | addEsp (n : U32)
  | popad
  | iret
deriving DecidableEq

namespace Machine

def push (m : Machine) (w : U32) : Machine :=
  { m with mem := store32 m.mem (m.regs.esp - 4) w, regs := { m.regs with esp := m.regs.esp - 4 } }

/-- Several words, the first one first. -/
def pushes (m : Machine) (ws : List U32) : Machine := ws.foldl push m

/-- Eight registers, EAX first; ESP as it was before. -/
def pushad (m : Machine) : Machine :=
  let r := m.regs
  m.pushes [r.eax, r.ecx, r.edx, r.ebx, r.esp, r.ebp, r.esi, r.edi]

/-- Eight registers, EDI first; the word for ESP is skipped. -/
def popad (m : Machine) : Machine :=
  let word (k : U32) := load32 m.mem (m.regs.esp + k)
  { m with regs := ⟨word 0, word 4, word 8, m.regs.esp + 32, word 16, word 20, word 24, word 28⟩ }

def iret (m : Machine) : Machine :=
  let word (k : U32) := load32 m.mem (m.regs.esp + k)
  { m with eip := word 0, cs := word 4, eflags := word 8, regs := { m.regs with esp := m.regs.esp + 12 } }

/-- One instruction; `callee` is what the C function does, its return included. -/
def exec (callee : Machine → Machine) (m : Machine) : Instr → Machine
  | .pushImm w => m.push w
  | .pushEsp => m.push m.regs.esp
  | .pushEax => m.push m.regs.eax
  | .pushad => m.pushad
  | .movEaxEsp disp => { m with regs := { m.regs with eax := load32 m.mem (m.regs.esp + disp) } }
  | .call ret => callee (m.push ret)
  | .addEsp n => { m with regs := { m.regs with esp := m.regs.esp + n } }
  | .popad => m.popad
  | .iret => m.iret

/-- The machine when the first call of the program enters its function. -/
def atCall (m : Machine) : List Instr → Option Machine
  | [] => none
  | .call ret :: _ => some (m.push ret)
  | i :: is => (m.exec id i).atCall is

/-- Argument `k` of the function just entered: cdecl has the arguments above
the return address, the first one lowest. -/
def arg (m : Machine) (k : Nat) : U32 := load32 m.mem (m.regs.esp + .ofNat 32 (4 * (k + 1)))

/-- The words on top of the stack. -/
def Stack (m : Machine) (ws : List U32) : Prop := Holds m.mem m.regs.esp ws

theorem Stack.nil (m : Machine) : m.Stack [] := Holds.nil _ _

theorem Stack.push {m : Machine} {ws : List U32} (h : m.Stack ws) (w : U32) (hlen : 4 * ws.length + 4 ≤ 2 ^ 32) :
    (m.push w).Stack (w :: ws) :=
  Holds.push h hlen

theorem Stack.word {m : Machine} {ws : List U32} (h : m.Stack ws) {k : Nat} {w : U32} (hk : ws[k]? = some w) :
    load32 m.mem (m.regs.esp + .ofNat 32 (4 * k)) = w :=
  h k w hk

theorem Stack.pushes (us : List U32) : ∀ {m : Machine} {ws : List U32}, m.Stack ws →
    4 * (ws.length + us.length) ≤ 2 ^ 32 → (m.pushes us).Stack (us.reverse ++ ws) := by
  induction us with
  | nil => intro m ws h _; exact h
  | cons u us ih =>
    intro m ws h hlen
    rw [List.length_cons] at hlen
    rw [List.reverse_cons, List.append_assoc]
    apply ih (h.push u (by omega))
    rw [List.length_cons]
    omega

theorem push_pushes (m : Machine) (us : List U32) (w : U32) : (m.pushes us).push w = m.pushes (us ++ [w]) := by
  simp [Machine.pushes]

theorem atCall_pushImm (m : Machine) (w : U32) (is : List Instr) :
    m.atCall (.pushImm w :: is) = (m.push w).atCall is := rfl

/-- Pushing changes no register but ESP. -/
theorem pushes_regs (us : List U32) : ∀ m : Machine,
    (m.pushes us).regs = { m.regs with esp := m.regs.esp - .ofNat 32 (4 * us.length) } := by
  induction us with
  | nil => intro m; simp [Machine.pushes]
  | cons u us ih =>
    intro m
    refine (ih (m.push u)).trans ?_
    have e : m.regs.esp - 4 - BitVec.ofNat 32 (4 * us.length) = m.regs.esp - .ofNat 32 (4 * (us.length + 1)) := by
      rw [Nat.mul_succ, BitVec.ofNat_add]
      grind
    simp only [Machine.push, List.length_cons, e]

end Machine

end CheesecakeOS
