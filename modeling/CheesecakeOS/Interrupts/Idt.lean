import CheesecakeOS.Interrupts.Exceptions
/-!
# The interrupt descriptor table

`interrupts/idt.c`, and `ck_exceptions_init` of `interrupts/exceptions.c`. A
gate holds the handler's address in two halves; `IdtEntry.base` puts them
together as the processor does. Where the assembler put the stubs is not
known, so their addresses are parameters.
-/
open Lib

namespace CheesecakeOS

abbrev CK_IDT_ENTRIES : Nat := 256
abbrev CK_KERNEL_CS : U16 := 0x10#16

/-- `struct ck_idt_entry`. -/
structure IdtEntry where
  base_low : U16
  selector : U16
  always0 : U8
  flags : U8
  base_high : U16

/-- The address the processor jumps to. -/
def IdtEntry.base (e : IdtEntry) : U32 := e.base_high ++ e.base_low

/-- `struct ck_idt_ptr`. -/
structure IdtPtr where
  limit : U16
  base : U32

/-- The statics of `idt.c` and the register that `lidt` loads. -/
structure Idt where
  idt : Vector IdtEntry CK_IDT_ENTRIES
  desc : IdtPtr
  idtr : IdtPtr

/-- Where the stubs are. -/
structure StubAddresses where
  default_stub : U32
  exception : Fin 32 → U32
  irq : Fin 16 → U32

theorem vector_lt (vector : U8) : vector.toNat < CK_IDT_ENTRIES := vector.isLt

def Idt.gate (s : Idt) (vector : U8) : IdtEntry :=
  have := vector_lt vector
  s.idt[vector.toNat]

/-! ## The source -/

def ck_idt_set_gate (s : Idt) (vector : U8) (base : U32) (selector : U16) (flags : U8) : Idt :=
  let gate : IdtEntry :=
    { base_low := (base &&& 0xFFFF#32).setWidth 16
      base_high := ((base >>> 16) &&& 0xFFFF#32).setWidth 16
      selector := selector
      always0 := 0
      flags := flags }
  { s with idt := s.idt.set vector.toNat gate (vector_lt vector) }

def ck_lidt (s : Idt) : Idt := { s with idtr := s.desc }

/-- `at_` is the address of `ck_idt`. -/
def ck_idt_init (A : StubAddresses) (at_ : U32) (s : Idt) : Idt :=
  let s := forRange 0 CK_IDT_ENTRIES s fun s index => ck_idt_set_gate s (.ofNat 8 index) A.default_stub CK_KERNEL_CS 0x8E
  ck_lidt { s with desc := { limit := .ofNat 16 (8 * CK_IDT_ENTRIES - 1), base := at_ } }

def ck_exceptions_init (A : StubAddresses) (s : Idt) : Idt :=
  forRange 0 32 s fun s vector => ck_idt_set_gate s (.ofNat 8 vector) (A.exception (.ofNat 32 vector)) CK_KERNEL_CS 0x8E

/-! ## Gates -/

theorem low_half (x : U32) : (x &&& 0xFFFF#32).setWidth 16 = x.extractLsb' 0 16 := by
  apply BitVec.eq_of_toNat_eq
  rw [BitVec.toNat_setWidth, BitVec.toNat_and, BitVec.extractLsb'_toNat]
  exact (congrArg (· % 2 ^ 16) (Nat.and_two_pow_sub_one_eq_mod x.toNat 16)).trans (Nat.mod_mod _ _)

/-- The halves of an address, put together again. -/
theorem halves (a : U32) : ((a >>> 16) &&& 0xFFFF#32).setWidth 16 ++ (a &&& 0xFFFF#32).setWidth 16 = a := by
  have hhigh : (a >>> 16).extractLsb' 0 16 = a.extractLsb' 16 16 := by
    apply BitVec.eq_of_toNat_eq
    rw [BitVec.extractLsb'_toNat, BitVec.extractLsb'_toNat, BitVec.toNat_ushiftRight]
    rfl
  rw [low_half, low_half, hhigh]
  exact BitVec.extractLsb'_append_extractLsb'

theorem base_set_gate (s : Idt) (v w : U8) (base : U32) (selector : U16) (flags : U8) :
    ((ck_idt_set_gate s v base selector flags).gate w).base = if w = v then base else (s.gate w).base := by
  by_cases hw : w = v
  · subst hw
    rw [if_pos rfl]
    simp only [ck_idt_set_gate, Idt.gate, Vector.getElem_set_self, IdtEntry.base]
    exact halves base
  · have hne : v.toNat ≠ w.toNat := fun h => hw (BitVec.eq_of_toNat_eq h.symm)
    rw [if_neg hw]
    simp only [ck_idt_set_gate, Idt.gate]
    rw [Vector.getElem_set_ne _ _ hne]

/-- A loop that sets the gates `first`, `first + 1` and so on, seen through one gate. -/
theorem base_set_gates (s : Idt) {first n : Nat} (hn : first + n ≤ 256) (base : Nat → U32) (w : U8) :
    ((forRange 0 n s fun s i => ck_idt_set_gate s (.ofNat 8 (first + i)) (base i) CK_KERNEL_CS 0x8E).gate w).base =
      if first ≤ w.toNat ∧ w.toNat < first + n then base (w.toNat - first) else (s.gate w).base := by
  refine forRange_inv (fun k (u : Idt) => (u.gate w).base =
    if first ≤ w.toNat ∧ w.toNat < first + k then base (w.toNat - first) else (s.gate w).base) (Nat.zero_le n) ?_ ?_
  · rw [if_neg (by omega)]
  · intro k u _ hk hu
    have hv : (BitVec.ofNat 8 (first + k)).toNat = first + k := by rw [BitVec.toNat_ofNat]; omega
    rw [base_set_gate]
    by_cases hw : w = .ofNat 8 (first + k)
    · rw [if_pos hw, hw, hv, if_pos (by omega), Nat.add_sub_cancel_left]
    · have hne : w.toNat ≠ first + k := fun h => hw (BitVec.eq_of_toNat_eq (h.trans hv.symm))
      have hiff : (first ≤ w.toNat ∧ w.toNat < first + (k + 1)) ↔ first ≤ w.toNat ∧ w.toNat < first + k := by omega
      rw [if_neg hw, hu]
      simp only [hiff]

/-- After `ck_idt_init` every gate leads to the default stub. -/
theorem idt_init_gate (A : StubAddresses) (at_ : U32) (s : Idt) (w : U8) :
    ((ck_idt_init A at_ s).gate w).base = A.default_stub := by
  have hw := w.isLt
  have h := base_set_gates s (by decide : 0 + 256 ≤ 256) (fun _ => A.default_stub) w
  rw [if_pos (by omega)] at h
  simp only [Nat.zero_add] at h
  unfold ck_idt_init
  generalize (forRange 0 CK_IDT_ENTRIES s fun s i =>
    ck_idt_set_gate s (.ofNat 8 i) A.default_stub CK_KERNEL_CS 0x8E) = u at h ⊢
  exact h

/-- `ck_exceptions_init` sets the first 32 gates. -/
theorem exceptions_init_gate (A : StubAddresses) (s : Idt) (w : U8) :
    ((ck_exceptions_init A s).gate w).base =
      if w.toNat < 32 then A.exception (.ofNat 32 w.toNat) else (s.gate w).base := by
  have h := base_set_gates s (by decide : 0 + 32 ≤ 256) (fun i => A.exception (.ofNat 32 i)) w
  simp only [Nat.zero_add, Nat.zero_le, true_and, Nat.sub_zero] at h
  exact h

end CheesecakeOS
