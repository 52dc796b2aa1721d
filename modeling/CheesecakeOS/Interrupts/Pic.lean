import CheesecakeOS.Lib.Words
/-!
# The interrupt controllers

Two 8259 chips and `interrupts/pic.c`, which drives them through their ports.
A chip takes a byte on its command port with bit 4 set as ICW1 and then expects
ICW2, ICW3 (in a cascade) and ICW4 (where ICW1 asks for it) on its data port;
after that the data port is the mask. In what state the firmware left the chips
is not known: `ck_pic_init` is followed from any.

The chips come with a log of what happens on interrupts: handlers called and
ends of interrupt received.
-/
open Lib

namespace CheesecakeOS

abbrev CK_PIC_MASTER_CMD : U16 := 0x20#16
abbrev CK_PIC_MASTER_DATA : U16 := 0x21#16
abbrev CK_PIC_SLAVE_CMD : U16 := 0xA0#16
abbrev CK_PIC_SLAVE_DATA : U16 := 0xA1#16
abbrev CK_IRQ_OFFSET_MASTER : U8 := 32#8
abbrev CK_IRQ_OFFSET_SLAVE : U8 := 40#8

/-! ## The chips -/

/-- What the next byte on the data port is. -/
inductive Expects where
  | icw2
  | icw3
  | icw4
  | mask

structure Pic where
  icw1 : U8
  icw2 : U8
  icw3 : U8
  icw4 : U8
  imr : U8
  expects : Expects

namespace Pic

def command (p : Pic) (v : U8) : Pic :=
  if v.getLsbD 4 then { p with icw1 := v, icw4 := 0, imr := 0, expects := .icw2 } else p

/-- OCW2 with the end-of-interrupt bit alone. -/
def isEoi (v : U8) : Bool := v &&& 0xF8#8 == 0x20#8

/-- The word after ICW3: ICW4 where bit 0 of ICW1 asks for it. -/
def afterIcw3 (p : Pic) : Expects := if p.icw1.getLsbD 0 then .icw4 else .mask

def data (p : Pic) (v : U8) : Pic :=
  match p.expects with
  | .icw2 => { p with icw2 := v, expects := if p.icw1.getLsbD 1 then p.afterIcw3 else .icw3 }
  | .icw3 => { p with icw3 := v, expects := p.afterIcw3 }
  | .icw4 => { p with icw4 := v, expects := .mask }
  | .mask => { p with imr := v }

/-- The vector for a line of the chip. In x86 mode ICW2 gives its upper five bits. -/
def vector (p : Pic) (line : Fin 8) : Option U8 :=
  if p.icw4.getLsbD 0 then some ((p.icw2 &&& 0xF8#8) ||| .ofNat 8 line) else none

end Pic

inductive Chip where
  | master
  | slave

/-- What happens on an interrupt; `H` are the handlers. -/
inductive Event (H : Type) where
  | called (handler : H) (irq : U8)
  | eoi (chip : Chip)

structure Pics (H : Type) where
  master : Pic
  slave : Pic
  log : List (Event H)

variable {H : Type}

/-- The vector for one of the sixteen lines. The slave is wired to line 2 of
the master, and both must have been told so. -/
def Pics.vector (p : Pics H) (n : Fin 16) : Option U8 :=
  if n.val < 8 then p.master.vector (.ofNat 8 n)
  else if p.master.icw3.getLsbD 2 ∧ p.slave.icw3 &&& 7#8 = 2#8 then p.slave.vector (.ofNat 8 (n - 8))
  else none

/-! ## The source -/

def ck_outb (p : Pics H) (port : U16) (value : U8) : Pics H :=
  let ended (chip : Chip) : List (Event H) := if Pic.isEoi value then p.log ++ [.eoi chip] else p.log
  if port = CK_PIC_MASTER_CMD then { p with master := p.master.command value, log := ended .master }
  else if port = CK_PIC_MASTER_DATA then { p with master := p.master.data value }
  else if port = CK_PIC_SLAVE_CMD then { p with slave := p.slave.command value, log := ended .slave }
  else if port = CK_PIC_SLAVE_DATA then { p with slave := p.slave.data value }
  else p

/-- Only the data ports are read, and there the chips give their masks. -/
def ck_inb (p : Pics H) (port : U16) : U8 :=
  if port = CK_PIC_MASTER_DATA then p.master.imr
  else if port = CK_PIC_SLAVE_DATA then p.slave.imr
  else 0xFF

def ck_io_wait (p : Pics H) : Pics H := ck_outb p 0x80 0

def ck_pic_init (p : Pics H) : Pics H :=
  let master_mask := ck_inb p CK_PIC_MASTER_DATA
  let slave_mask := ck_inb p CK_PIC_SLAVE_DATA
  let p := ck_outb p CK_PIC_MASTER_DATA 0xFF
  let p := ck_outb p CK_PIC_SLAVE_DATA 0xFF
  let p := ck_io_wait (ck_outb p CK_PIC_MASTER_CMD 0x11)
  let p := ck_io_wait (ck_outb p CK_PIC_SLAVE_CMD 0x11)
  let p := ck_io_wait (ck_outb p CK_PIC_MASTER_DATA CK_IRQ_OFFSET_MASTER)
  let p := ck_io_wait (ck_outb p CK_PIC_SLAVE_DATA CK_IRQ_OFFSET_SLAVE)
  let p := ck_io_wait (ck_outb p CK_PIC_MASTER_DATA 0x04)
  let p := ck_io_wait (ck_outb p CK_PIC_SLAVE_DATA 0x02)
  let p := ck_io_wait (ck_outb p CK_PIC_MASTER_DATA 0x01)
  let p := ck_io_wait (ck_outb p CK_PIC_SLAVE_DATA 0x01)
  let master_mask := master_mask &&& ~~~0x07#8
  let p := ck_outb p CK_PIC_MASTER_DATA master_mask
  ck_outb p CK_PIC_SLAVE_DATA slave_mask

def ck_pic_send_eoi (p : Pics H) (irq : U8) : Pics H :=
  let p := if irq.toNat ≥ 8 then ck_outb p CK_PIC_SLAVE_CMD 0x20 else p
  ck_outb p CK_PIC_MASTER_CMD 0x20

/-! ## What the chips are told -/

/-- What `ck_pic_init` sends to one chip. -/
def Pic.remap (p : Pic) (offset cascade mask : U8) : Pic :=
  (((((p.data 0xFF).command 0x11).data offset).data cascade).data 0x01).data mask

/-- Whatever the chip expected before, it is initialised. -/
theorem Pic.remap_eq (p : Pic) (offset cascade mask : U8) : p.remap offset cascade mask =
    ⟨0x11, offset, cascade, 0x01, mask, .mask⟩ := by
  obtain ⟨icw1, icw2, icw3, icw4, imr, expects⟩ := p
  cases expects <;> simp [Pic.remap, Pic.data, Pic.command, Pic.afterIcw3]

theorem pic_init_eq (p : Pics H) : ck_pic_init p =
    ⟨p.master.remap CK_IRQ_OFFSET_MASTER 0x04 (p.master.imr &&& ~~~0x07#8),
      p.slave.remap CK_IRQ_OFFSET_SLAVE 0x02 p.slave.imr, p.log⟩ := rfl

/-- Two chips that know of their cascade. -/
theorem vector_cascade (m s : Pic) (log : List (Event H)) (n : Fin 16) (hm : m.icw3 = 0x04) (hs : s.icw3 = 0x02) :
    Pics.vector ⟨m, s, log⟩ n = if n.val < 8 then m.vector (.ofNat 8 n) else s.vector (.ofNat 8 (n - 8)) := by
  simp [Pics.vector, hm, hs]

/-- After `ck_pic_init` line `n` is delivered as vector `32 + n`. -/
theorem pic_init_vector (p : Pics H) (n : Fin 16) : (ck_pic_init p).vector n = some (.ofNat 8 (32 + n)) := by
  rw [pic_init_eq, Pic.remap_eq, Pic.remap_eq, vector_cascade _ _ _ _ rfl rfl]
  simp only [Pic.vector]
  revert n
  decide

theorem eoi_master_log (p : Pics H) : (ck_outb p CK_PIC_MASTER_CMD 0x20).log = p.log ++ [.eoi .master] := rfl

theorem eoi_slave_log (p : Pics H) : (ck_outb p CK_PIC_SLAVE_CMD 0x20).log = p.log ++ [.eoi .slave] := rfl

/-- An end of interrupt for a line of the slave goes to both chips, the slave first. -/
theorem send_eoi_log (p : Pics H) (irq : U8) : (ck_pic_send_eoi p irq).log =
    p.log ++ ((if 8 ≤ irq.toNat then [.eoi .slave] else []) ++ [.eoi .master]) := by
  unfold ck_pic_send_eoi
  rw [eoi_master_log]
  split
  · rw [eoi_slave_log, List.append_assoc]
  · rw [List.nil_append]

end CheesecakeOS
