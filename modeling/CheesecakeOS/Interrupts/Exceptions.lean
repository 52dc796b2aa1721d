import CheesecakeOS.Interrupts.Machine
/-!
# CPU exceptions

The stubs of `interrupts/exceptions.asm`, the frame `interrupts/exceptions.h`
declares and the handler of `interrupts/exceptions.c`. The handler gets the
right vector, but its frame pointer leads to a stack that has the vector
between the registers and the error code, where the struct has nothing: every
field behind the registers is read one word early (`exception_frame_shifted`).
-/
open Lib

namespace CheesecakeOS

/-! ## Delivery and stubs -/

/-- The vectors for which the processor pushes an error code. -/
def cpuPushesError (v : Fin 32) : Bool := v.val ∈ [8, 10, 11, 12, 13, 14, 17]

/-- What the processor pushes for an exception: EFLAGS, CS, EIP and the error
code, if there is one. It then loads CS and EIP from the gate. -/
def Machine.deliver (m : Machine) (v : Fin 32) (err : U32) : Machine :=
  m.pushes ([m.eflags, m.cs, m.eip] ++ if cpuPushesError v then [err] else [])

def CK_ISR_NO_ERROR (n : U32) : List Instr := [.pushImm 0, .pushImm n]

def CK_ISR_WITH_ERROR (n : U32) : List Instr := [.pushImm n]

def ck_exception_common (ret : U32) : List Instr :=
  [.pushad, .movEaxEsp 32, .pushEsp, .pushEax, .call ret, .addEsp 8, .popad, .addEsp 8, .iret]

/-- The stubs in the order of the file. -/
def ck_isr_stubs : Vector (List Instr) 32 :=
  #v[CK_ISR_NO_ERROR 0, CK_ISR_NO_ERROR 1, CK_ISR_NO_ERROR 2, CK_ISR_NO_ERROR 3,
    CK_ISR_NO_ERROR 4, CK_ISR_NO_ERROR 5, CK_ISR_NO_ERROR 6, CK_ISR_NO_ERROR 7,
    CK_ISR_WITH_ERROR 8, CK_ISR_NO_ERROR 9, CK_ISR_WITH_ERROR 10, CK_ISR_WITH_ERROR 11,
    CK_ISR_WITH_ERROR 12, CK_ISR_WITH_ERROR 13, CK_ISR_WITH_ERROR 14, CK_ISR_NO_ERROR 15,
    CK_ISR_NO_ERROR 16, CK_ISR_WITH_ERROR 17, CK_ISR_NO_ERROR 18, CK_ISR_NO_ERROR 19,
    CK_ISR_NO_ERROR 20, CK_ISR_NO_ERROR 21, CK_ISR_NO_ERROR 22, CK_ISR_NO_ERROR 23,
    CK_ISR_NO_ERROR 24, CK_ISR_NO_ERROR 25, CK_ISR_NO_ERROR 26, CK_ISR_NO_ERROR 27,
    CK_ISR_NO_ERROR 28, CK_ISR_NO_ERROR 29, CK_ISR_NO_ERROR 30, CK_ISR_NO_ERROR 31]

/-- `ck_isr_exception_v`; `ret` is the address behind the call. -/
def ck_isr_exception (v : Fin 32) (ret : U32) : List Instr := ck_isr_stubs[v] ++ ck_exception_common ret

/-! ## The handler -/

/-- `struct ck_exception_frame`. -/
structure ExceptionFrame where
  regs : Registers
  error_code : U32
  eip : U32
  cs : U32
  eflags : U32

/-- The struct at `p`: twelve words. -/
def readFrame (m : Mem) (p : U32) : ExceptionFrame :=
  let word (k : Nat) := load32 m (p + .ofNat 32 (4 * k))
  ⟨⟨word 0, word 1, word 2, word 3, word 4, word 5, word 6, word 7⟩, word 8, word 9, word 10, word 11⟩

/-- The characters of a C string. -/
def chars (s : String) : List U8 := s.toList.map fun c => .ofNat 8 c.toNat

def ck_exception_names : Vector String 32 :=
  #v["Divide By Zero", "Debug", "Non-Maskable Interrupt", "Breakpoint", "Overflow", "Bound Range Exceeded",
    "Invalid Opcode", "Device Not Available", "Double Fault", "Coprocessor Segment Overrun", "Invalid TSS",
    "Segment Not Present", "Stack-Segment Fault", "General Protection Fault", "Page Fault", "Reserved (15)",
    "Floating-Point Exception", "Alignment Check", "Machine Check", "SIMD Floating-Point",
    "Reserved (20)", "Reserved (21)", "Reserved (22)", "Reserved (23)", "Reserved (24)", "Reserved (25)",
    "Reserved (26)", "Reserved (27)", "Reserved (28)", "Reserved (29)", "Reserved (30)", "Reserved (31)"]

/-- The text screen and the cursor of `ck_vga_write_char`. -/
structure Vga where
  cells : Vector U16 2000
  cursor : U16

def ck_vga_write_char (s : Vga) (c : U8) : Vga :=
  if h : s.cursor.toNat < 80 * 25 then
    { cells := s.cells.set s.cursor.toNat ((0x0C#16 <<< 8) ||| c.setWidth 16), cursor := s.cursor + 1 }
  else s

def ck_vga_write_string (s : Vga) (text : List U8) : Vga := text.foldl ck_vga_write_char s

/-- `"0123456789ABCDEF"[(err >> (28 - i * 4)) & 0xF]` -/
def hexDigit (err : U32) (i : Nat) : U8 :=
  (chars "0123456789ABCDEF").getD ((err >>> (28 - i * 4)) &&& 0xF#32).toNat 0

/-- What the digit loop writes. -/
def hexDigits (err : U32) : List U8 := (List.range 8).map (hexDigit err)

/-- `vector` is below 32; the frame is given by its contents. -/
def ck_exception_handler (s : Vga) (vector : U32) (frame : ExceptionFrame) : Vga :=
  let s := ck_vga_write_string s (chars "\n[EXC] ")
  let s := ck_vga_write_string s (chars (ck_exception_names[vector.toNat]?.getD ""))
  let s :=
    if vector = 8 ∨ vector = 10 ∨ vector = 11 ∨ vector = 12 ∨ vector = 13 ∨ vector = 14 ∨ vector = 17 then
      let s := ck_vga_write_string s (chars " (err=")
      let s := (hexDigits frame.error_code).foldl ck_vga_write_char s
      ck_vga_write_char s 0x29 -- ')'
    else s
  ck_vga_write_string s (chars "\nHalting.")

/-- What the handler writes for an error code of `err`. -/
def exceptionText (vector err : U32) : List U8 :=
  chars "\n[EXC] " ++ chars (ck_exception_names[vector.toNat]?.getD "") ++
    (if vector = 8 ∨ vector = 10 ∨ vector = 11 ∨ vector = 12 ∨ vector = 13 ∨ vector = 14 ∨ vector = 17 then
      chars " (err=" ++ hexDigits err ++ [0x29] else []) ++ chars "\nHalting."

theorem handler_text (s : Vga) (vector : U32) (frame : ExceptionFrame) :
    ck_exception_handler s vector frame = ck_vga_write_string s (exceptionText vector frame.error_code) := by
  unfold ck_exception_handler exceptionText ck_vga_write_string
  split
  · simp only [List.foldl_append, List.foldl_cons, List.foldl_nil]
  · simp only [List.foldl_append, List.foldl_nil]

/-! ## The stack the handler finds -/

theorem stub_eq : ∀ v : Fin 32, ck_isr_stubs[v] =
    if cpuPushesError v then CK_ISR_WITH_ERROR (.ofNat 32 v) else CK_ISR_NO_ERROR (.ofNat 32 v) := by decide

/-- The processor's error code, or 0. -/
def trueError (v : Fin 32) (err : U32) : U32 := if cpuPushesError v then err else 0#32

/-- Both kinds of stub leave the same five words. -/
theorem stub_pushes (m : Machine) (v : Fin 32) (err ret : U32) :
    (m.deliver v err).atCall (ck_isr_exception v ret) =
      (m.pushes [m.eflags, m.cs, m.eip, trueError v err, .ofNat 32 v]).atCall (ck_exception_common ret) := by
  unfold Machine.deliver ck_isr_exception trueError
  rw [stub_eq]
  cases cpuPushesError v with
  | true =>
    simp only [if_true, CK_ISR_WITH_ERROR, List.cons_append, List.nil_append, Machine.atCall_pushImm,
      Machine.push_pushes]
  | false =>
    simp only [if_false, Bool.false_eq_true, CK_ISR_NO_ERROR, List.cons_append, List.nil_append,
      Machine.atCall_pushImm, Machine.push_pushes]
    rfl

/-- The machine when the handler is entered, with `u` at the common part. -/
def entered (u : Machine) (ret : U32) : Machine :=
  let p := u.pushad
  let q := { p with regs := { p.regs with eax := load32 p.mem (p.regs.esp + 32) } }
  ((q.push q.regs.esp).push q.regs.eax).push ret

theorem atCall_common (u : Machine) (ret : U32) : u.atCall (ck_exception_common ret) = some (entered u ret) := rfl

section Entered
variable {u : Machine} {vec : U32} {ws : List U32} (h : u.Stack (vec :: ws)) (hlen : ws.length ≤ 2 ^ 20) (ret : U32)
include h hlen

/-- From the top: the return address, the arguments, the registers, then what
the stub found. -/
theorem entered_stack : (entered u ret).Stack (ret :: vec :: u.pushad.regs.esp :: u.regs.edi :: u.regs.esi ::
    u.regs.ebp :: u.regs.esp :: u.regs.ebx :: u.regs.edx :: u.regs.ecx :: u.regs.eax :: vec :: ws) := by
  have hp : u.pushad.Stack (u.regs.edi :: u.regs.esi :: u.regs.ebp :: u.regs.esp :: u.regs.ebx :: u.regs.edx ::
      u.regs.ecx :: u.regs.eax :: vec :: ws) :=
    h.pushes [u.regs.eax, u.regs.ecx, u.regs.edx, u.regs.ebx, u.regs.esp, u.regs.ebp, u.regs.esi, u.regs.edi]
      (by simp only [List.length_cons, List.length_nil]; omega)
  have hvec : load32 u.pushad.mem (u.pushad.regs.esp + 32) = vec := hp.word (k := 8) rfl
  simp only [entered, hvec]
  apply Machine.Stack.push
  · apply Machine.Stack.push
    · apply Machine.Stack.push hp
      simp only [List.length_cons]; omega
    · simp only [List.length_cons]; omega
  · simp only [List.length_cons]; omega

/-- The arguments, and the words the frame pointer leads to. -/
theorem entered_args : (entered u ret).arg 0 = vec ∧ (entered u ret).arg 1 = u.pushad.regs.esp ∧
    ∀ k w, (u.regs.edi :: u.regs.esi :: u.regs.ebp :: u.regs.esp :: u.regs.ebx :: u.regs.edx :: u.regs.ecx ::
      u.regs.eax :: vec :: ws)[k]? = some w →
      load32 (entered u ret).mem (u.pushad.regs.esp + .ofNat 32 (4 * k)) = w := by
  have hs := entered_stack h hlen ret
  refine ⟨hs.word (k := 1) rfl, hs.word (k := 2) rfl, fun k w hk => ?_⟩
  have hesp : (entered u ret).regs.esp = u.pushad.regs.esp - 4 - 4 - 4 := rfl
  have hw := hs.word (k := k + 3) (w := w) hk
  have hoff : BitVec.ofNat 32 (4 * (k + 3)) = .ofNat 32 (4 * k) + 12 := by
    rw [Nat.mul_add, BitVec.ofNat_add]
    rfl
  have e : u.pushad.regs.esp - 4 - 4 - 4 + (BitVec.ofNat 32 (4 * k) + 12) = u.pushad.regs.esp + .ofNat 32 (4 * k) := by
    grind
  rwa [hesp, hoff, e] at hw

end Entered

/-- The handler `e` has just entered sees what the processor pushed on
exception `v` at `m`, with `regs` for the registers. -/
structure FrameFaithful (v : Fin 32) (err : U32) (m : Machine) (regs : Registers) (e : Machine) : Prop where
  vector : e.arg 0 = .ofNat 32 v
  regs : (readFrame e.mem (e.arg 1)).regs = regs
  error_code : (readFrame e.mem (e.arg 1)).error_code = trueError v err
  eip : (readFrame e.mem (e.arg 1)).eip = m.eip
  cs : (readFrame e.mem (e.arg 1)).cs = m.cs
  eflags : (readFrame e.mem (e.arg 1)).eflags = m.eflags
  printed : ∀ s, ck_exception_handler s (e.arg 0) (readFrame e.mem (e.arg 1)) =
    ck_vga_write_string s (exceptionText (.ofNat 32 v) (trueError v err))

/-- The frame as the handler reads it: each field behind the registers has the
word that belongs one field further up. -/
theorem frame_read (v : Fin 32) (err ret : U32) (m : Machine) :
    ∃ e, (m.deliver v err).atCall (ck_isr_exception v ret) = some e ∧ e.arg 0 = .ofNat 32 v ∧
      readFrame e.mem (e.arg 1) =
        ⟨{ m.regs with esp := m.regs.esp - 20 }, .ofNat 32 v, trueError v err, m.eip, m.cs⟩ := by
  rw [stub_pushes, atCall_common]
  have hu := (Machine.Stack.nil m).pushes [m.eflags, m.cs, m.eip, trueError v err, .ofNat 32 v] (by simp)
  have hregs := Machine.pushes_regs [m.eflags, m.cs, m.eip, trueError v err, .ofNat 32 v] m
  generalize m.pushes [m.eflags, m.cs, m.eip, trueError v err, .ofNat 32 v] = u at hu hregs ⊢
  have hu' : u.Stack [.ofNat 32 v, trueError v err, m.eip, m.cs, m.eflags] := hu
  obtain ⟨h0, h1, hw⟩ := entered_args hu' (by simp) ret
  refine ⟨_, rfl, h0, ?_⟩
  simp only [h1, readFrame]
  rw [hw 0 _ rfl, hw 1 _ rfl, hw 2 _ rfl, hw 3 _ rfl, hw 4 _ rfl, hw 5 _ rfl, hw 6 _ rfl, hw 7 _ rfl, hw 8 _ rfl,
    hw 9 _ rfl, hw 10 _ rfl, hw 11 _ rfl, hregs]
  rfl

theorem sub_twenty_ne (a : U32) : a - 20 ≠ a := by
  intro h
  have h' : a - 20 - a = 0#32 := by rw [h]; exact BitVec.sub_self a
  have e : a - 20 - a = -20#32 := by grind
  rw [e] at h'
  exact absurd h' (by decide)

/-- The handler is entered with the right vector and a frame that is never the
one the processor pushed: ESP is off by the five words below it, and the rest
is right only if error code, EIP, CS and EFLAGS all equal the vector. -/
theorem exception_frame_shifted (v : Fin 32) (err ret : U32) (m : Machine) :
    ∃ e, (m.deliver v err).atCall (ck_isr_exception v ret) = some e ∧ e.arg 0 = .ofNat 32 v ∧
      readFrame e.mem (e.arg 1) =
        ⟨{ m.regs with esp := m.regs.esp - 20 }, .ofNat 32 v, trueError v err, m.eip, m.cs⟩ ∧
      ¬ FrameFaithful v err m m.regs e ∧
      (FrameFaithful v err m { m.regs with esp := m.regs.esp - 20 } e ↔
        trueError v err = .ofNat 32 v ∧ m.eip = .ofNat 32 v ∧ m.cs = .ofNat 32 v ∧ m.eflags = .ofNat 32 v) := by
  obtain ⟨e, he, h0, hf⟩ := frame_read v err ret m
  refine ⟨e, he, h0, hf, fun h => ?_, fun h => ?_, ?_⟩
  · have hesp := congrArg Registers.esp h.regs
    rw [hf] at hesp
    exact sub_twenty_ne _ hesp
  · have h1 := h.error_code
    have h2 := h.eip
    have h3 := h.cs
    have h4 := h.eflags
    simp only [hf] at h1 h2 h3 h4
    exact ⟨h1.symm, by rw [← h2, ← h1], by rw [← h3, ← h2, ← h1], by rw [← h4, ← h3, ← h2, ← h1]⟩
  · rintro ⟨h1, h2, h3, h4⟩
    constructor
    · exact h0
    · rw [hf]
    · rw [hf, h1]
    · rw [hf, h1, h2]
    · rw [hf, h2, h3]
    · rw [hf, h3, h4]
    · intro s
      rw [handler_text, h0, hf, h1]

/-- A write to an absent page from kernel code. -/
def pageFault : Machine := ⟨⟨1, 2, 3, 0x9000, 5, 6, 7, 8⟩, fun _ => 0, 0x101234, 0x08, 0x202⟩

/-- The handler reads the vector for the error code and the error code for EIP. -/
theorem page_fault_misread : ∃ e, (pageFault.deliver 14 2).atCall (ck_isr_exception 14 0x100800) = some e ∧
    ¬ FrameFaithful 14 2 pageFault pageFault.regs e ∧
    (readFrame e.mem (e.arg 1)).error_code = 14#32 ∧ (readFrame e.mem (e.arg 1)).eip = 2#32 := by
  obtain ⟨e, he, -, hf⟩ := frame_read 14 2 0x100800 pageFault
  refine ⟨e, he, fun h => ?_, by rw [hf]; rfl, by rw [hf]; rfl⟩
  have herr := h.error_code
  rw [hf] at herr
  exact absurd herr (by decide)

end CheesecakeOS
