import CheesecakeOS.Drivers.Timer
import CheesecakeOS.Interrupts.InService
import CheesecakeOS.Kernel.OsFrames
import CheesecakeOS.Kernel.OsTyped
/-!
# The machine the kernel runs on

The kernel of `Os` is interrupted at any time, with any code. Here is what
interrupts it: the timer chip with its clock, the keyboard and its controller, the
two interrupt controllers with all other devices, and the processor, which takes
an interrupt, goes through `ck_irq_handler` event by event and returns to the
thread. The keyboard controller has room for one code. It raises its line when it
puts a code at the port, and puts the next one there when the port has been read.

`machine_runs_kernel`: what the machine does is a run of `Os`, and the handler gets
the codes that the keyboard sends. `machine_ticks`: what becomes of the periods of
the timer.
-/
open Lib

namespace CheesecakeOS

/-- The handlers that the kernel registers. -/
inductive Handler where
  | ck_irq_default_handler
  | ck_timer_irq_handler
  | ck_keyboard_irq_handler
deriving DecidableEq

/-! ## The source -/

def ck_keyboard_init {H : Type} (ck_keyboard_irq_handler : H) (s : Interrupts H) : Interrupts H :=
  ck_irq_set_handler s 1 (some ck_keyboard_irq_handler)

/-- `ck_main` up to the memory manager. -/
def initDevices (A : StubAddresses) (at_ : U32) (s : Interrupts Handler) (p : Pit) : Interrupts Handler × Pit :=
  let s := initInterrupts A at_ .ck_irq_default_handler s
  let timed := ck_timer_init .ck_timer_irq_handler s p
  (ck_keyboard_init .ck_keyboard_irq_handler timed.1, timed.2)

/-! ## The machine -/

/-- The keyboard and its controller. -/
structure Controller where
  /-- What is read at the port. -/
  output : U8
  /-- It has not been read. -/
  full : Bool
  /-- What the keyboard has still to send. -/
  queue : List U8

def Controller.unread (c : Controller) : List U8 := (if c.full then [c.output] else []) ++ c.queue

structure Board where
  pit : Pit
  controller : Controller
  service : Service Handler
  os : Os.State
  /-- The periods that ended while the interrupt of the period before had not been taken. -/
  missed : Nat

namespace Board

inductive Act where
  /-- A pulse of the timer's clock. -/
  | pulse
  /-- A key is pressed or released. -/
  | key (scancode : U8)
  /-- The controller puts a code at the port. -/
  | announce
  /-- Any other device. -/
  | raise (n : Fin 16)
  | withdraw (n : Fin 16)
  | accept
  | noise (chip : Chip)
  /-- The processor goes on, in a handler or in the thread. -/
  | run

/-- Whether there is a request on a line of the master. -/
def requests {H : Type} (σ : Service H) (l : Fin 8) : Nat := if l ∈ σ.master.irr then 1 else 0

/-- The output of the timer chip is the line of the timer. -/
def pulse (β : Board) : Board :=
  let pit := β.pit.pulse
  if β.pit.out && !pit.out then
    { β with pit := pit, service := β.service.withdraw 0, missed := β.missed + requests β.service 0 }
  else if !β.pit.out && pit.out then { β with pit := pit, service := β.service.raise 0 }
  else { β with pit := pit }

def announce (β : Board) : Board :=
  if β.controller.full then β
  else
    match β.controller.queue with
    | [] => β
    | c :: queue => { β with controller := ⟨c, true, queue⟩, service := β.service.raise 1 }

/-- What an event of `ck_irq_handler` does outside of the interrupt controllers. The keyboard's handler reads the
port, and its line falls. -/
def perform (β : Board) : Event Handler → Board
  | .called .ck_timer_irq_handler _ => { β with os := β.os.interrupt .timer }
  | .called .ck_keyboard_irq_handler _ =>
    { β with
      os := β.os.interrupt (.keyboard β.controller.output)
      controller := { β.controller with full := false }
      service := β.service.withdraw 1 }
  | _ => β

def step (s : Interrupts Handler) (fuel : Nat) (β : Board) : Act → Option Board
  | .pulse => some β.pulse
  | .key c => some { β with controller := { β.controller with queue := β.controller.queue ++ [c] } }
  | .announce => some β.announce
  | .raise n => some (if n.val < 2 then β else { β with service := β.service.step s (.raise n) })
  | .withdraw n => some (if n.val < 2 then β else { β with service := β.service.step s (.withdraw n) })
  | .accept => some (if β.os.pc = .halted then β else { β with service := β.service.step s .accept })
  | .noise chip => some (if β.os.pc = .halted then β else { β with service := β.service.step s (.noise chip) })
  | .run =>
    match β.service.todo with
    | none => (β.os.step fuel .run).map fun os => { β with os := os }
    | some [] => some { β with service := β.service.step s .run }
    | some (e :: _) => some (Board.perform { β with service := β.service.step s .run } e)

/-- When `ck_main` enables interrupts, with any requests. -/
def start (pit : Pit) (controller : Controller) (master slave : Finset (Fin 8)) (os : Os.State) : Board :=
  ⟨pit, controller, .start master slave, os, 0⟩

/-- The state after some acts, `none` if `ck_game.frame` has overflowed. -/
def run (s : Interrupts Handler) (fuel : Nat) (β : Board) (acts : List Act) : Option Board := acts.foldlM (Board.step s fuel) β

/-! ## What becomes of a request -/

section Requests
variable {H : Type} {s : Interrupts H} {σ : Service H} {n : Fin 16}

/-- Only the interrupt of a line takes away its request. -/
theorem mem_acknowledge (hp : Service.Waits s.pics) (hn : n.val < 8) (htwo : n ≠ 2) (c : Cause) :
    lineOf n ∈ (σ.acknowledge s.pics c).master.irr ↔ lineOf n ∈ σ.master.irr ∧ c ≠ .line n := by
  obtain ⟨hmaster, hslave⟩ := hp
  have hne := Service.lineOf_ne_two n hn htwo
  cases c with
  | line m =>
    unfold Service.acknowledge
    dsimp only
    rw [Pic.acknowledge_eq hmaster, Pic.acknowledge_eq hmaster, Pic.acknowledge_eq hslave]
    have hline : Cause.line m ≠ .line n ↔ m ≠ n := by simp
    rw [hline]
    by_cases hlow : m.val < 8
    · rw [if_pos hlow]
      show lineOf n ∈ σ.master.irr.erase (lineOf m) ↔ _
      rw [Finset.mem_erase, and_comm]
      refine and_congr_right fun _ => ⟨?_, fun hmn => Service.lineOf_ne m n hmn (by omega)⟩
      rintro hl rfl
      exact hl rfl
    · rw [if_neg hlow]
      show lineOf n ∈ σ.master.irr.erase 2 ↔ _
      rw [Finset.mem_erase, and_comm]
      refine and_congr_right fun _ => ⟨fun _ => ?_, fun _ => hne⟩
      rintro rfl
      exact hlow hn
  | noise chip =>
    cases chip with
    | master => simp [Service.acknowledge]
    | slave =>
      unfold Service.acknowledge
      dsimp only
      rw [Pic.acknowledge_eq hmaster]
      show lineOf n ∈ σ.master.irr.erase 2 ↔ _
      simp [hne]

theorem requests_raise (hn : n.val < 8) {m : Fin 16} (hm : m ≠ n) : requests (σ.raise m) (lineOf n) = requests σ (lineOf n) := by
  unfold requests Service.raise
  split
  · next hlow =>
    have hne := Service.lineOf_ne m n hm (by omega)
    simp [Lines.raise, hne]
  · rfl

theorem requests_withdraw (hn : n.val < 8) {m : Fin 16} (hm : m ≠ n) :
    requests (σ.withdraw m) (lineOf n) = requests σ (lineOf n) := by
  unfold requests Service.withdraw
  split
  · next hlow =>
    have hne := Service.lineOf_ne m n hm (by omega)
    simp [Lines.withdraw, hne]
  · rfl

theorem requests_raise_self (hn : n.val < 8) : requests (σ.raise n) (lineOf n) = 1 := by
  unfold requests Service.raise
  rw [if_pos hn]
  exact if_pos (Finset.mem_insert_self _ _)

theorem requests_withdraw_self (hn : n.val < 8) : requests (σ.withdraw n) (lineOf n) = 0 := by
  unfold requests Service.withdraw
  rw [if_pos hn]
  exact if_neg (Finset.notMem_erase _ _)

theorem todo_raise (m : Fin 16) : (σ.raise m).todo = σ.todo := by
  unfold Service.raise
  split <;> rfl

theorem todo_withdraw (m : Fin 16) : (σ.withdraw m).todo = σ.todo := by
  unfold Service.withdraw
  split <;> rfl

/-- The processor goes on in the handler. -/
theorem step_event {e : Event H} {es : List (Event H)} (htodo : σ.todo = some (e :: es)) :
    (σ.step s .run).todo = some es ∧ (σ.step s .run).master.irr = σ.master.irr := by
  unfold Service.step
  dsimp only
  rw [htodo]
  cases e with
  | called handler irq => exact ⟨rfl, rfl⟩
  | eoi chip => cases chip <;> exact ⟨rfl, rfl⟩

/-- The handler returns. -/
theorem step_return (htodo : σ.todo = some []) : σ.step s .run = { σ with todo := none } := by
  unfold Service.step
  dsimp only
  rw [htodo]

end Requests

section Owed
variable {H : Type} [DecidableEq H] {s : Interrupts H} {σ : Service H} {n : Fin 16} {h : H}

def isCall (h : H) : Event H → Bool
  | .called h' _ => h' = h
  | .eoi _ => false

/-- A handler has to be called: for a request on its line, and if the processor is on its way to it. -/
def owed (σ : Service H) (n : Fin 16) (h : H) : Nat := requests σ (lineOf n) + (σ.todo.getD []).countP (isCall h)

theorem count_served (o : Option H) (m : Fin 16) : (served o m).countP (isCall h) = if o = some h then 1 else 0 := by
  have hends : ((if 8 ≤ m.val then [Event.eoi .slave] else []) ++ [Event.eoi .master]).countP (isCall h) = 0 := by
    split <;> rfl
  unfold served
  rw [List.append_assoc, List.countP_append, hends]
  cases o with
  | none => rfl
  | some h' =>
    by_cases hh : h' = h
    · simp [isCall, hh]
    · simp [isCall, hh]

/-- A handler that is registered for its line only is still owed when the processor takes an interrupt. -/
theorem owed_interrupted (hp : Service.Waits s.pics) (hn : n.val < 7) (htwo : n ≠ 2)
    (honly : ∀ m : Fin 16, s.ck_irq_handlers_c.get m = some h ↔ m = n) (hidle : σ.todo = none) {c : Cause}
    (hc : c = .line n → lineOf n ∈ σ.master.irr) : owed (σ.interrupted s c) n h = owed σ n h := by
  have hcall : (Service.handling s c.irq).countP (isCall h) = if c = .line n then 1 else 0 := by
    rw [Service.handling_eq, count_served]
    refine if_congr ((honly c.irq).trans ?_) rfl rfl
    cases c with
    | line m => simp [Cause.irq]
    | noise chip =>
      -- The last line of a chip is named, and line 7 is not asked for here.
      have hirq : (Cause.noise chip).irq.val = 7 ∨ (Cause.noise chip).irq.val = 15 := by
        cases chip <;> simp [Cause.irq]
      simp only [reduceCtorEq, iff_false]
      rintro rfl
      omega
  have hmem := mem_acknowledge (σ := σ) hp (by omega) htwo c
  unfold owed requests
  rw [hidle]
  show (if lineOf n ∈ (σ.acknowledge s.pics c).master.irr then 1 else 0) +
    (Service.handling s c.irq).countP (isCall h) = _
  rw [hcall]
  -- Where the request goes, the call comes.
  by_cases hline : c = .line n
  · rw [if_neg fun hin => (hmem.1 hin).2 hline, if_pos hline, if_pos (hc hline)]
    rfl
  · rw [if_congr (hmem.trans (and_iff_left hline)) rfl rfl, if_neg hline]
    rfl

theorem owed_raise (hn : n.val < 8) {m : Fin 16} (hm : m ≠ n) : owed (σ.raise m) n h = owed σ n h := by
  unfold owed
  rw [requests_raise hn hm, todo_raise]

theorem owed_withdraw (hn : n.val < 8) {m : Fin 16} (hm : m ≠ n) : owed (σ.withdraw m) n h = owed σ n h := by
  unfold owed
  rw [requests_withdraw hn hm, todo_withdraw]

theorem owed_raise_self (hn : n.val < 8) (hnone : requests σ (lineOf n) = 0) : owed (σ.raise n) n h = owed σ n h + 1 := by
  unfold owed
  rw [requests_raise_self hn, hnone, todo_raise]
  omega

theorem owed_withdraw_self (hn : n.val < 8) : owed (σ.withdraw n) n h + requests σ (lineOf n) = owed σ n h := by
  unfold owed
  rw [requests_withdraw_self hn, todo_withdraw]
  omega

theorem owed_run {e : Event H} {es : List (Event H)} (htodo : σ.todo = some (e :: es)) :
    owed (σ.step s .run) n h + (if isCall h e then 1 else 0) = owed σ n h := by
  obtain ⟨hnext, hirr⟩ := step_event (s := s) htodo
  unfold owed requests
  rw [hnext, hirr, htodo, Option.getD_some, Option.getD_some, List.countP_cons, Nat.add_assoc]

/-- What a handler is owed for. -/
theorem owed_pos_iff (hopen : s.pics.Unmasked n) (hn : n.val < 8) (htwo : n ≠ 2) : 0 < owed σ n h ↔
    Service.Waiting s.pics σ n ∨ ∃ irq, .called h irq ∈ σ.todo.getD [] := by
  have hwaiting : Service.Waiting s.pics σ n ↔ 0 < requests σ (lineOf n) := by
    have hrequest : 0 < requests σ (lineOf n) ↔ lineOf n ∈ σ.master.irr := by
      unfold requests
      split
      · next hin => simp [hin]
      · next hin => simp [hin]
    unfold Service.Waiting Service.Pending
    rw [if_pos hn, hrequest]
    exact ⟨fun hw => hw.1.2, fun hin => ⟨⟨htwo, hin⟩, hopen⟩⟩
  have hcall : (∃ irq, Event.called h irq ∈ σ.todo.getD []) ↔ 0 < (σ.todo.getD []).countP (isCall h) := by
    rw [List.countP_pos_iff]
    constructor
    · rintro ⟨irq, hirq⟩
      exact ⟨_, hirq, by simp [isCall]⟩
    · rintro ⟨e, he, hcall⟩
      cases e with
      | called handler irq =>
        have hsame : handler = h := by simpa [isCall] using hcall
        exact ⟨irq, hsame ▸ he⟩
      | eoi chip => cases hcall
  unfold owed
  rw [hwaiting, hcall]
  omega

end Owed

/-! ## The books of a run -/

/-- How the kernel has set its machine up. -/
structure Wired (s : Interrupts Handler) : Prop where
  waits : Service.Waits s.pics
  cascade : s.pics.master.lets 2 = true
  unmasked : s.pics.Unmasked 0 ∧ s.pics.Unmasked 1
  timer : ∀ m : Fin 16, s.ck_irq_handlers_c.get m = some .ck_timer_irq_handler ↔ m = 0
  keyboard : ∀ m : Fin 16, s.ck_irq_handlers_c.get m = some .ck_keyboard_irq_handler ↔ m = 1

/-- Whatever the firmware has left. -/
theorem init_wired (A : StubAddresses) (at_ : U32) (boot : Interrupts Handler) (p : Pit) :
    Wired (initDevices A at_ boot p).1 := by
  have hinit : (initDevices A at_ boot p).1 = setHandlers (initInterrupts A at_ .ck_irq_default_handler boot)
      [(0, some .ck_timer_irq_handler), (1, some .ck_keyboard_irq_handler)] := rfl
  have hpics : (initDevices A at_ boot p).1.pics = ck_pic_init boot.pics := by
    rw [hinit, (setHandlers_frame _ _).2]
    rfl
  obtain ⟨hwaits, hopen⟩ := Service.init_waits A at_ .ck_irq_default_handler boot
    [(0, some .ck_timer_irq_handler), (1, some .ck_keyboard_irq_handler)]
  rw [← hinit] at hwaits hopen
  refine ⟨hwaits, hopen, ?_, fun m => ?_, fun m => ?_⟩
  · rw [hpics, pic_init_eq, Pic.remap_eq, Pic.remap_eq]
    simp [Pics.Unmasked, Pic.lets, lineOf]
  · rw [hinit, Service.init_handlers]
    revert m
    decide
  · rw [hinit, Service.init_handlers]
    revert m
    decide

/-- The timer chip some time after `ck_timer_init`. -/
theorem init_pit (A : StubAddresses) (at_ : U32) (boot : Interrupts Handler) (p : Pit) (n : Nat) :
    Pit.pulse^[n] (initDevices A at_ boot p).2 = .after n := by
  have hinit : (initDevices A at_ boot p).2 = .after 0 := by
    unfold initDevices
    dsimp only
    rw [timer_init_pit, Pit.after_zero]
  induction n with
  | zero => exact hinit
  | succ n ih => rw [Function.iterate_succ_apply', ih, Pit.pulse_after]

def pulses (acts : List Act) : Nat :=
  acts.countP fun
    | .pulse => true
    | _ => false

/-- The codes that the keyboard has sent. -/
def sent (acts : List Act) : List U8 :=
  acts.filterMap fun
    | .key c => some c
    | _ => none

/-- The timer interrupts of a run. -/
def timers (actions : List Os.Action) : Nat :=
  actions.countP fun
    | .timer => true
    | _ => false

/-- What there was when interrupts were enabled. -/
structure Origin where
  /-- The pulses since `ck_timer_init`. -/
  clocks : Nat
  unread : List U8
  /-- The ticks to come. -/
  due : Nat
  /-- The codes at the port without a request. -/
  lost : Nat

/-- After `N` pulses of the clock and the codes `S` from the keyboard, the kernel has got `T` ticks and the codes `K`. -/
structure Tally (s : Interrupts Handler) (o : Origin) (N : Nat) (S : List U8) (T : Nat) (K : List U8) (β : Board) : Prop where
  orderly : Service.Orderly s β.service
  busy : β.os.pc = .halted → β.service.todo = none
  pit : β.pit = .after (o.clocks + N)
  low : β.pit.out = false → requests β.service 0 = 0
  port : owed β.service 1 .ck_keyboard_irq_handler + o.lost = if β.controller.full then 1 else 0
  codes : K ++ β.controller.unread = o.unread ++ S
  stuck : o.lost ≠ 0 → K = []
  ticks : T + owed β.service 0 .ck_timer_irq_handler + β.missed + Pit.rises o.clocks = o.due + Pit.rises (o.clocks + N)
  time : β.os.input.time = T
  clock : β.os.input.ck_timer_ticks = .ofNat 32 T

section Tally
variable {s : Interrupts Handler} {o : Origin} {N T : Nat} {S K : List U8} {β : Board} {fuel : Nat}

/-- The interrupt controllers and the processor go on without the rest. -/
theorem Tally.serve (h : Tally s o N S T K β) {σ : Service Handler} (ho : Service.Orderly s σ)
    (hbusy : β.os.pc = .halted → σ.todo = none) (hlow : requests σ 0 ≤ requests β.service 0)
    (h0 : owed σ 0 .ck_timer_irq_handler = owed β.service 0 .ck_timer_irq_handler)
    (h1 : owed σ 1 .ck_keyboard_irq_handler = owed β.service 1 .ck_keyboard_irq_handler) :
    Tally s o N S T K { β with service := σ } where
  orderly := ho
  busy := hbusy
  pit := h.pit
  low hout := by
    have hnone := h.low hout
    exact Nat.le_zero.1 (hnone ▸ hlow)
  port := by
    rw [h1]
    exact h.port
  codes := h.codes
  stuck := h.stuck
  ticks := by
    rw [h0]
    exact h.ticks
  time := h.time
  clock := h.clock

theorem requests_interrupted (hp : Service.Waits s.pics) (σ : Service Handler) (c : Cause) :
    requests (σ.interrupted s c) 0 ≤ requests σ 0 := by
  have hmem : (0 : Fin 8) ∈ (σ.acknowledge s.pics c).master.irr ↔ _ := mem_acknowledge hp (by decide) (by decide) c (n := 0)
  unfold requests
  show (if (0 : Fin 8) ∈ (σ.acknowledge s.pics c).master.irr then 1 else 0) ≤ _
  split
  · next hin =>
    have hbefore : (0 : Fin 8) ∈ σ.master.irr := (hmem.1 hin).1
    rw [if_pos hbefore]
  · exact Nat.zero_le _

/-- The processor takes an interrupt. -/
theorem Tally.interrupted (h : Tally s o N S T K β) (hw : Wired s) (hpc : β.os.pc ≠ .halted)
    (hidle : β.service.todo = none) {c : Cause} (hc : ∀ n, c = .line n → Service.Waiting s.pics β.service n) :
    Tally s o N S T K { β with service := β.service.interrupted s c } := by
  have hline : ∀ n : Fin 16, n.val < 8 → c = .line n → lineOf n ∈ β.service.master.irr := fun n hn heq =>
    ((Service.waiting_master hn).1 (hc n heq)).2.1
  refine h.serve (h.orderly.interrupted hw.waits hidle c) (fun hhalt => absurd hhalt hpc)
    (requests_interrupted hw.waits _ c) ?_ ?_
  · exact owed_interrupted hw.waits (by decide) (by decide) hw.timer hidle (hline 0 (by decide))
  · exact owed_interrupted hw.waits (by decide) (by decide) hw.keyboard hidle (hline 1 (by decide))

/-- A device raises or lowers its line. -/
theorem Tally.device (h : Tally s o N S T K β) (hw : Wired s) {n : Fin 16} (hn : ¬ n.val < 2) {a : Signal}
    (ha : a = .raise n ∨ a = .withdraw n) : Tally s o N S T K { β with service := β.service.step s a } := by
  have hne0 : n ≠ 0 := fun h0 => hn (by rw [h0]; decide)
  have hne1 : n ≠ 1 := fun h1 => hn (by rw [h1]; decide)
  have ho := h.orderly.step hw.waits a
  rcases ha with rfl | rfl
  · by_cases htwo : n = 2
    · have hsame : β.service.step s (.raise n) = β.service := if_pos htwo
      rw [hsame]
      exact h
    · have hstep : β.service.step s (.raise n) = β.service.raise n := if_neg htwo
      rw [hstep] at ho ⊢
      refine h.serve ho (fun hhalt => (todo_raise n).trans (h.busy hhalt)) ?_ ?_ ?_
      · exact Nat.le_of_eq (requests_raise (n := 0) (by decide) hne0)
      · exact owed_raise (by decide) hne0
      · exact owed_raise (by decide) hne1
  · refine h.serve ho (fun hhalt => (todo_withdraw n).trans (h.busy hhalt)) ?_ ?_ ?_
    · exact Nat.le_of_eq (requests_withdraw (n := 0) (by decide) hne0)
    · exact owed_withdraw (by decide) hne0
    · exact owed_withdraw (by decide) hne1

theorem Tally.accept (h : Tally s o N S T K β) (hw : Wired s) (hpc : β.os.pc ≠ .halted) :
    Tally s o N S T K { β with service := β.service.step s .accept } := by
  unfold Service.step
  dsimp only
  split
  · next n hidle hn =>
    refine h.interrupted hw hpc hidle fun m hm => ?_
    cases hm
    exact (Service.choose_first (h.orderly.idle hidle) hw.cascade hn).1
  · exact h

theorem Tally.noise (h : Tally s o N S T K β) (hw : Wired s) (hpc : β.os.pc ≠ .halted) (chip : Chip) :
    Tally s o N S T K { β with service := β.service.step s (.noise chip) } := by
  unfold Service.step
  dsimp only
  split
  · next hidle => exact h.interrupted hw hpc hidle fun m hm => by cases hm
  · exact h

theorem Tally.key (h : Tally s o N S T K β) (c : U8) :
    Tally s o N (S ++ [c]) T K
      { β with controller := { β.controller with queue := β.controller.queue ++ [c] } } := by
  refine ⟨h.orderly, h.busy, h.pit, h.low, h.port, ?_, h.stuck, h.ticks, h.time, h.clock⟩
  rw [← List.append_assoc, ← h.codes]
  simp [Controller.unread]

theorem Tally.announce (h : Tally s o N S T K β) : Tally s o N S T K β.announce := by
  unfold Board.announce
  split
  · exact h
  · next hfull =>
    split
    · exact h
    · next c queue hqueue =>
      have hport := h.port
      rw [if_neg hfull] at hport
      have hcodes := h.codes
      refine ⟨?_, fun hhalt => (todo_raise 1).trans (h.busy hhalt), h.pit, fun hout => ?_, ?_, ?_, h.stuck, ?_, h.time, h.clock⟩
      · exact ⟨h.orderly.settled, h.orderly.told⟩
      · exact (requests_raise (n := 0) (by decide) (by decide)).trans (h.low hout)
      · -- The port was empty, so no request was there.
        have hnone : requests β.service (lineOf 1) = 0 := by
          unfold owed at hport
          omega
        dsimp only
        rw [owed_raise_self (by decide) hnone, if_pos rfl]
        omega
      · rw [← hcodes]
        simp [Controller.unread, hfull, hqueue]
      · rw [owed_raise (by decide) (by decide)]
        exact h.ticks

/-- The line of the timer falls. -/
theorem Tally.falls (h : Tally s o N S T K β) (hpit : β.pit.pulse = .after (o.clocks + (N + 1)))
    (hrises : Pit.rises (o.clocks + (N + 1)) = Pit.rises (o.clocks + N)) :
    Tally s o (N + 1) S T K
      { β with pit := β.pit.pulse, service := β.service.withdraw 0, missed := β.missed + requests β.service 0 } := by
  have hticks := h.ticks
  have howed : owed (β.service.withdraw 0) 0 .ck_timer_irq_handler + requests β.service 0 =
      owed β.service 0 .ck_timer_irq_handler := owed_withdraw_self (n := 0) (by decide)
  refine ⟨⟨h.orderly.settled, h.orderly.told⟩, fun hhalt => (todo_withdraw 0).trans (h.busy hhalt), hpit, fun _ => ?_, ?_,
    h.codes, h.stuck, ?_, h.time, h.clock⟩
  · exact requests_withdraw_self (n := 0) (by decide)
  · rw [owed_withdraw (by decide) (by decide)]
    exact h.port
  · dsimp only
    rw [hrises]
    omega

/-- The line of the timer rises: a tick is due. -/
theorem Tally.rises (h : Tally s o N S T K β) (hpit : β.pit.pulse = .after (o.clocks + (N + 1)))
    (hrises : Pit.rises (o.clocks + (N + 1)) = Pit.rises (o.clocks + N) + 1) (hlow : β.pit.out = false)
    (hout : β.pit.pulse.out = true) :
    Tally s o (N + 1) S T K { β with pit := β.pit.pulse, service := β.service.raise 0 } := by
  have hticks := h.ticks
  have howed : owed (β.service.raise 0) 0 .ck_timer_irq_handler = owed β.service 0 .ck_timer_irq_handler + 1 :=
    owed_raise_self (by decide) (h.low hlow)
  refine ⟨⟨h.orderly.settled, h.orderly.told⟩, fun hhalt => (todo_raise 0).trans (h.busy hhalt), hpit, fun hlow' => ?_, ?_,
    h.codes, h.stuck, ?_, h.time, h.clock⟩
  · cases hout.symm.trans hlow'
  · rw [owed_raise (by decide) (by decide)]
    exact h.port
  · dsimp only
    rw [howed, hrises]
    omega

theorem Tally.pulse (h : Tally s o N S T K β) : Tally s o (N + 1) S T K β.pulse := by
  have hpit : β.pit.pulse = .after (o.clocks + (N + 1)) := by
    rw [h.pit, Pit.pulse_after]
    rfl
  have hrises : Pit.rises (o.clocks + (N + 1)) = _ := Pit.rises_succ (o.clocks + N)
  rw [← h.pit] at hrises
  unfold Board.pulse
  dsimp only
  by_cases hout : β.pit.out
  · rw [hout, if_pos rfl] at hrises
    by_cases hout' : β.pit.pulse.out
    · rw [hout, hout', if_neg (by decide), if_neg (by decide)]
      refine ⟨h.orderly, h.busy, hpit, fun hlow => ?_, h.port, h.codes, h.stuck, ?_, h.time, h.clock⟩
      · cases hout'.symm.trans hlow
      · rw [hrises]
        exact h.ticks
    · rw [hout, Bool.eq_false_of_not_eq_true hout', if_pos (by decide)]
      exact h.falls hpit hrises
  · have hlow := Bool.eq_false_of_not_eq_true hout
    rw [hlow, if_neg (by decide)] at hrises
    have hbefore : (Pit.after (o.clocks + N)).out = false := by
      rw [← h.pit]
      exact hlow
    have hout' : β.pit.pulse.out = true := by
      rw [hpit]
      exact Pit.out_succ hbefore
    rw [hlow, hout', if_neg (by decide), if_pos (by decide)]
    exact h.rises hpit hrises hlow hout'

/-- The thread goes on. -/
theorem Tally.thread (h : Tally s o N S T K β) (hidle : β.service.todo = none) {os : Os.State}
    (hos : β.os.step fuel .run = some os) : Tally s o N S T K { β with os := os } := by
  have hclock : os.input.time = β.os.input.time ∧ os.input.ck_timer_ticks = β.os.input.ck_timer_ticks := by
    obtain ⟨hticks, htime⟩ := ReadChar.read_clock β.os.input
    rcases (Os.thread_move hos).input with hinput | hinput
    · rw [hinput]
      exact ⟨rfl, rfl⟩
    · rw [hinput]
      exact ⟨htime, hticks⟩
  exact ⟨h.orderly, fun _ => hidle, h.pit, h.low, h.port, h.codes, h.stuck, h.ticks, hclock.1.trans h.time, hclock.2.trans h.clock⟩

/-- What the kernel gets from an event of `ck_irq_handler`. -/
def gets (β : Board) : Event Handler → List Os.Action
  | .called .ck_timer_irq_handler _ => [.timer]
  | .called .ck_keyboard_irq_handler _ => [.keyboard β.controller.output]
  | _ => []

theorem perform_os (β : Board) (e : Event Handler) :
    (gets β e).foldlM (Os.State.step fuel) β.os = some (β.perform e).os := by
  rcases e with ⟨handler, irq⟩ | chip
  · cases handler <;> rfl
  · rfl

theorem Tally.running (h : Tally s o N S T K β) {e : Event Handler} {es : List (Event Handler)}
    (htodo : β.service.todo = some (e :: es)) : β.os.pc ≠ .halted := by
  intro hhalt
  cases htodo.symm.trans (h.busy hhalt)

theorem requests_event {σ : Service Handler} {e : Event Handler} {es : List (Event Handler)} (htodo : σ.todo = some (e :: es)) :
    requests (σ.step s .run) 0 = requests σ 0 := by
  unfold requests
  rw [(step_event htodo).2]

/-- An event that is not for the kernel. -/
theorem Tally.aside (h : Tally s o N S T K β) (hw : Wired s) {e : Event Handler} {es : List (Event Handler)}
    (htodo : β.service.todo = some (e :: es)) (h0 : isCall .ck_timer_irq_handler e = false)
    (h1 : isCall .ck_keyboard_irq_handler e = false) :
    Tally s o N S T K { β with service := β.service.step s .run } := by
  have howed0 := owed_run (s := s) (n := 0) (h := Handler.ck_timer_irq_handler) htodo
  have howed1 := owed_run (s := s) (n := 1) (h := Handler.ck_keyboard_irq_handler) htodo
  rw [h0] at howed0
  rw [h1] at howed1
  exact h.serve (h.orderly.step hw.waits .run) (fun hhalt => absurd hhalt (h.running htodo))
    (Nat.le_of_eq (requests_event htodo)) howed0 howed1

/-- The tick that was due is counted. -/
theorem Tally.tick (h : Tally s o N S T K β) (hw : Wired s) {irq : U8} {es : List (Event Handler)}
    (htodo : β.service.todo = some (.called .ck_timer_irq_handler irq :: es)) :
    Tally s o N S (T + 1) K
      { β with service := β.service.step s .run, os := { β.os with input := β.os.input.step .timer } } := by
  have hticks := h.ticks
  have hone : owed (β.service.step s .run) 0 .ck_timer_irq_handler + 1 = owed β.service 0 .ck_timer_irq_handler :=
    owed_run (s := s) htodo
  have hsame : owed (β.service.step s .run) 1 .ck_keyboard_irq_handler = owed β.service 1 .ck_keyboard_irq_handler :=
    owed_run (s := s) (n := 1) (h := Handler.ck_keyboard_irq_handler) htodo
  refine ⟨h.orderly.step hw.waits .run, fun hhalt => absurd hhalt (h.running htodo), h.pit, fun hlow => ?_, ?_, h.codes,
    h.stuck, ?_, congrArg (· + 1) h.time, ?_⟩
  · exact (requests_event (s := s) htodo).trans (h.low hlow)
  · rw [hsame]
    exact h.port
  · show T + 1 + owed (β.service.step s .run) 0 .ck_timer_irq_handler + β.missed + _ = _
    omega
  · show β.os.input.ck_timer_ticks + 1 = .ofNat 32 (T + 1)
    rw [h.clock, BitVec.ofNat_add]
    rfl

/-- The code at the port is read. It has not been read before, and no other request or call is under way. -/
theorem Tally.code (h : Tally s o N S T K β) (hw : Wired s) {irq : U8} {es : List (Event Handler)}
    (htodo : β.service.todo = some (.called .ck_keyboard_irq_handler irq :: es)) :
    Tally s o N S T (K ++ [β.controller.output])
      { β with
        service := (β.service.step s .run).withdraw 1
        controller := { β.controller with full := false }
        os := { β.os with input := β.os.input.step (.keyboard β.controller.output) } } := by
  have ho := h.orderly.step hw.waits .run
  have hport := h.port
  have hone : owed (β.service.step s .run) 1 .ck_keyboard_irq_handler + 1 = owed β.service 1 .ck_keyboard_irq_handler :=
    owed_run (s := s) htodo
  have hsame : owed (β.service.step s .run) 0 .ck_timer_irq_handler = owed β.service 0 .ck_timer_irq_handler :=
    owed_run (s := s) (n := 0) (h := Handler.ck_timer_irq_handler) htodo
  -- The handler is owed this call, so there is a code.
  have hfull : β.controller.full = true := by
    by_contra hempty
    rw [if_neg hempty] at hport
    omega
  rw [if_pos hfull] at hport
  refine ⟨⟨ho.settled, ho.told⟩, fun hhalt => absurd hhalt (h.running htodo), h.pit, fun hlow => ?_, ?_, ?_, fun hlost => ?_,
    ?_, h.time, h.clock⟩
  · exact (requests_withdraw (n := 0) (by decide) (by decide)).trans ((requests_event (s := s) htodo).trans (h.low hlow))
  · have hgone : owed ((β.service.step s .run).withdraw 1) 1 .ck_keyboard_irq_handler +
        requests (β.service.step s .run) (lineOf 1) = owed (β.service.step s .run) 1 .ck_keyboard_irq_handler :=
      owed_withdraw_self (by decide)
    show owed ((β.service.step s .run).withdraw 1) 1 .ck_keyboard_irq_handler + o.lost = 0
    omega
  · rw [← h.codes]
    simp [Controller.unread, hfull]
  · omega
  · rw [owed_withdraw (by decide) (by decide), hsame]
    exact h.ticks

/-- The processor goes on in `ck_irq_handler`. -/
theorem Tally.event (h : Tally s o N S T K β) (hw : Wired s) {e : Event Handler} {es : List (Event Handler)}
    (htodo : β.service.todo = some (e :: es)) :
    Tally s o N S (T + timers (gets β e)) (K ++ Os.scancodes (gets β e))
      (Board.perform { β with service := β.service.step s .run } e) := by
  have hserved := Os.interrupt_running (h.running htodo)
  have hnone : K ++ Os.scancodes [] = K := List.append_nil K
  rcases e with ⟨handler, irq⟩ | chip
  · cases handler with
    | ck_irq_default_handler =>
      rw [show Os.scancodes (gets β _) = Os.scancodes [] from rfl, hnone]
      exact h.aside hw htodo rfl rfl
    | ck_timer_irq_handler =>
      have htick := h.tick hw htodo
      rw [← hserved] at htick
      rw [show Os.scancodes (gets β _) = Os.scancodes [] from rfl, hnone]
      exact htick
    | ck_keyboard_irq_handler =>
      have hcode := h.code hw htodo
      rw [← hserved] at hcode
      exact hcode
  · rw [show Os.scancodes (gets β _) = Os.scancodes [] from rfl, hnone]
    exact h.aside hw htodo rfl rfl

/-- Without anything for the kernel. -/
theorem Tally.quiet (h : Tally s o N S T K β) : Tally s o N S (T + timers [])
    (K ++ Os.scancodes []) β := by
  rw [show K ++ Os.scancodes [] = K from List.append_nil K]
  exact h

/-- A step of the machine is one of the kernel, or none. -/
theorem Tally.step (h : Tally s o N S T K β) (hw : Wired s) {a : Act} {β' : Board}
    (hstep : β.step s fuel a = some β') : ∃ new : List Os.Action,
      Tally s o (N + pulses [a]) (S ++ sent [a]) (T + timers new) (K ++ Os.scancodes new) β' ∧
        new.foldlM (Os.State.step fuel) β.os = some β'.os := by
  have hsent : ∀ a : Act, sent [a] = [] → S ++ sent [a] = S := by
    intro a ha
    rw [ha, List.append_nil]
  cases a with
  | pulse =>
    cases hstep
    rw [hsent .pulse rfl]
    refine ⟨[], h.pulse.quiet, ?_⟩
    unfold Board.pulse
    dsimp only
    split_ifs <;> rfl
  | key c =>
    cases hstep
    exact ⟨[], (h.key c).quiet, rfl⟩
  | announce =>
    cases hstep
    rw [hsent .announce rfl]
    refine ⟨[], h.announce.quiet, ?_⟩
    unfold Board.announce
    split
    · rfl
    · split <;> rfl
  | raise n =>
    cases hstep
    rw [hsent (.raise n) rfl]
    split
    · exact ⟨[], h.quiet, rfl⟩
    · next hn => exact ⟨[], (h.device hw hn (.inl rfl)).quiet, rfl⟩
  | withdraw n =>
    cases hstep
    rw [hsent (.withdraw n) rfl]
    split
    · exact ⟨[], h.quiet, rfl⟩
    · next hn => exact ⟨[], (h.device hw hn (.inr rfl)).quiet, rfl⟩
  | accept =>
    cases hstep
    rw [hsent .accept rfl]
    split
    · exact ⟨[], h.quiet, rfl⟩
    · next hpc => exact ⟨[], (h.accept hw hpc).quiet, rfl⟩
  | noise chip =>
    cases hstep
    rw [hsent (.noise chip) rfl]
    split
    · exact ⟨[], h.quiet, rfl⟩
    · next hpc => exact ⟨[], (h.noise hw hpc chip).quiet, rfl⟩
  | run =>
    rw [hsent .run rfl]
    unfold Board.step at hstep
    dsimp only at hstep
    split at hstep
    · next hidle =>
      obtain ⟨os, hos, heq⟩ := Option.map_eq_some_iff.1 hstep
      cases heq
      refine ⟨[.run], (h.thread hidle hos).quiet, ?_⟩
      rw [List.foldlM_cons, hos]
      rfl
    · next hdone =>
      cases hstep
      refine ⟨[], Tally.quiet ?_, rfl⟩
      have ho := h.orderly.step hw.waits .run
      rw [step_return hdone] at ho ⊢
      refine h.serve ho (fun _ => rfl) (Nat.le_refl _) ?_ ?_
      all_goals
        unfold owed
        rw [hdone]
        rfl
    · next e es htodo =>
      cases hstep
      exact ⟨gets β e, h.event hw htodo, perform_os { β with service := β.service.step s .run } e⟩

/-! ## The runs of the machine -/

/-- A request of the keyboard means that a code is at the port, and the timer has none while its line is low. -/
structure Ready (clocks : Nat) (controller : Controller) (master : Finset (Fin 8)) : Prop where
  keyboard : 1 ∈ master → controller.full = true
  timer : (Pit.after clocks).out = false → 0 ∉ master

/-- When `ck_main` enables interrupts, `clocks` pulses after `ck_timer_init`. -/
def origin (clocks : Nat) (controller : Controller) (master : Finset (Fin 8)) : Origin :=
  ⟨clocks, controller.unread, if 0 ∈ master then 1 else 0, if controller.full ∧ 1 ∉ master then 1 else 0⟩

variable {clocks : Nat} {tasks : Scheduler Game.Demo} {screen : Shell.Screen} {input_buffer : Vector U8 256}
  {controller : Controller} {master slave : Finset (Fin 8)} {acts : List Act}

theorem tally_start (s : Interrupts Handler) (hready : Ready clocks controller master) :
    Tally s (origin clocks controller master) 0 [] 0 []
      (.start (.after clocks) controller master slave (Os.start tasks screen input_buffer)) where
  orderly := Service.start_orderly s master slave
  busy _ := rfl
  pit := rfl
  low hout := if_neg (hready.timer hout)
  port := by
    show ((if 1 ∈ master then 1 else 0) + 0) + (if controller.full ∧ 1 ∉ master then 1 else 0) = if controller.full then 1 else 0
    by_cases hin : 1 ∈ master
    · simp [hin, hready.keyboard hin]
    · simp [hin]
  codes := (List.append_nil _).symm
  stuck _ := rfl
  ticks := by
    show 0 + ((if 0 ∈ master then 1 else 0) + 0) + 0 + _ = _
    rw [Nat.zero_add]
    rfl
  time := rfl
  clock := rfl

/-- The books of a run of the machine, and the run of the kernel. -/
theorem tally_run (hw : Wired s) (hready : Ready clocks controller master)
    (h : run s fuel (.start (.after clocks) controller master slave (Os.start tasks screen input_buffer)) acts = some β) :
    ∃ actions : List Os.Action, Tally s (origin clocks controller master) (pulses acts) (sent acts) (timers actions)
        (Os.scancodes actions) β ∧ Os.run fuel tasks screen input_buffer actions = some β.os := by
  refine foldlM_trace Board.os (fun acts actions β => Tally s (origin clocks controller master) (pulses acts) (sent acts)
    (timers actions) (Os.scancodes actions) β) ?_ (tally_start s hready) acts β h
  intro acts actions β a β' hI hstep
  obtain ⟨new, hnew, hview⟩ := hI.step hw hstep
  refine ⟨new, ?_, hview⟩
  unfold pulses sent timers Os.scancodes at *
  rw [List.countP_append, List.filterMap_append, List.countP_append, List.filterMap_append]
  exact hnew

end Tally

section Main
variable (A : StubAddresses) (at_ : U32) (boot : Interrupts Handler) (pit : Pit) (fuel : Nat) (tasks : Scheduler Game.Demo)
  (screen : Shell.Screen) (input_buffer : Vector U8 256) (clocks : Nat) (controller : Controller) (master slave : Finset (Fin 8))
  (acts : List Act) (β : Board)

/-- Whatever the devices do and whenever the processor takes their interrupts, the machine is a run of the kernel as
`Os` has it. Its keyboard interrupts bring the codes that the keyboard has sent, each once and in
order, up to those that have not been read. If a code that was at the port when interrupts were
enabled had its request, then a code at the port is not forgotten: its request waits, or the processor
is on its way to the handler. -/
theorem machine_runs_kernel (hready : Ready clocks controller master)
    (h : run (initDevices A at_ boot pit).1 fuel (.start (Pit.pulse^[clocks] (initDevices A at_ boot pit).2) controller master
      slave (Os.start tasks screen input_buffer)) acts = some β) :
    ∃ actions, Os.run fuel tasks screen input_buffer actions = some β.os ∧
      Os.scancodes actions ++ β.controller.unread = controller.unread ++ sent acts ∧
      ((controller.full = true → 1 ∈ master) →
        (β.controller.full = true ↔ Service.Waiting (initDevices A at_ boot pit).1.pics β.service 1 ∨
          ∃ irq, Event.called .ck_keyboard_irq_handler irq ∈ β.service.todo.getD [])) := by
  have hw := init_wired A at_ boot pit
  rw [init_pit] at h
  obtain ⟨actions, htally, hrun⟩ := tally_run hw hready h
  refine ⟨actions, hrun, htally.codes, fun hport => ?_⟩
  have howed : owed β.service 1 .ck_keyboard_irq_handler = if β.controller.full then 1 else 0 := by
    -- By `hport` the code at the port, if any, had its request from the start.
    have hlost : (origin clocks controller master).lost = 0 := if_neg fun hl => hl.2 (hport hl.1)
    rw [← htally.port, hlost]
    rfl
  rw [← owed_pos_iff hw.unmasked.2 (by decide) (by decide), howed]
  split
  · next hfull => simp [hfull]
  · next hempty => simp [hempty]

/-- Nothing has been set. -/
def someMachine : Interrupts Handler :=
  ⟨⟨.replicate _ ⟨0, 0, 0, 0, 0⟩, ⟨0, 0⟩, ⟨0, 0⟩⟩, .replicate _ none,
    ⟨⟨0, 0, 0, 0, 0, .mask⟩, ⟨0, 0, 0, 0, 0, .mask⟩, []⟩⟩

/-- A key is pressed, and another one while the processor is in the handler. -/
theorem machine_runs_kernel_pressed :
    let s := (initDevices someStubs 0x102000 someMachine .programmed).1
    let acts : List Act := [.key 0x1E, .announce, .accept, .key 0x9E, .announce, .run, .announce]
    ∃ β actions, run s 0 (.start (Pit.pulse^[0] (initDevices someStubs 0x102000 someMachine .programmed).2) ⟨0, false, []⟩ ∅ ∅
        (Os.start Os.threeTasks Shell.someScreen (.replicate 256 0))) acts = some β ∧
      Os.run 0 Os.threeTasks Shell.someScreen (.replicate 256 0) actions = some β.os ∧
      Os.scancodes actions ++ β.controller.unread = [0x1E, 0x9E] ∧ β.controller.unread = [0x9E] ∧
      (Service.Waiting s.pics β.service 1 ∨ ∃ irq, Event.called .ck_keyboard_irq_handler irq ∈ β.service.todo.getD []) := by
  intro s acts
  have hmap : (run s 0 (.start (Pit.pulse^[0] (initDevices someStubs 0x102000 someMachine .programmed).2) ⟨0, false, []⟩ ∅ ∅
      (Os.start Os.threeTasks Shell.someScreen (.replicate 256 0))) acts).map
        (fun β => (β.controller.unread, β.controller.full)) = some ([0x9E], true) := by
    decide +kernel
  obtain ⟨β, hβ, heq⟩ := Option.map_eq_some_iff.1 hmap
  obtain ⟨hunread, hfull⟩ := Prod.mk.inj heq
  obtain ⟨actions, hrun, hcodes, hkept⟩ := machine_runs_kernel someStubs 0x102000 someMachine .programmed 0 Os.threeTasks
    Shell.someScreen (.replicate 256 0) 0 ⟨0, false, []⟩ ∅ ∅ acts β ⟨by simp, fun _ => by simp⟩ hβ
  exact ⟨β, actions, hβ, hrun, hcodes, hunread, (hkept (by simp)).1 hfull⟩

/-- If a code is at the port when interrupts are enabled and there is no request for it, as when it came before
`ck_pic_init`, whose first command word makes the chips forget what was raised, then no code gets to
the kernel: the controller waits for the port to be read, and that is done by the
handler only. -/
theorem machine_keyboard_dead (hready : Ready clocks controller master) (hfull : controller.full = true) (hport : 1 ∉ master)
    (h : run (initDevices A at_ boot pit).1 fuel (.start (Pit.pulse^[clocks] (initDevices A at_ boot pit).2) controller master
      slave (Os.start tasks screen input_buffer)) acts = some β) :
    ∃ actions, Os.run fuel tasks screen input_buffer actions = some β.os ∧ Os.scancodes actions = [] ∧
      β.controller.unread = controller.unread ++ sent acts := by
  rw [init_pit] at h
  obtain ⟨actions, htally, hrun⟩ := tally_run (init_wired A at_ boot pit) hready h
  have hlost : (origin clocks controller master).lost = 1 := if_pos ⟨hfull, hport⟩
  have hnone : Os.scancodes actions = [] := htally.stuck (by rw [hlost]; decide)
  have hcodes := htally.codes
  rw [hnone] at hcodes
  exact ⟨actions, hrun, hnone, hcodes⟩

/-- The key that chose the kernel in the boot menu is released too late. -/
theorem machine_keyboard_dead_menu :
    let s := (initDevices someStubs 0x102000 someMachine .programmed).1
    let acts : List Act := [.key 0x1E, .announce, .accept, .run, .key 0x9E, .announce, .accept]
    ∃ β actions, run s 0 (.start (Pit.pulse^[0] (initDevices someStubs 0x102000 someMachine .programmed).2) ⟨0x9C, true, []⟩ ∅ ∅
        (Os.start Os.threeTasks Shell.someScreen (.replicate 256 0))) acts = some β ∧
      Os.run 0 Os.threeTasks Shell.someScreen (.replicate 256 0) actions = some β.os ∧ Os.scancodes actions = [] ∧
      β.controller.unread = [0x9C, 0x1E, 0x9E] := by
  intro s acts
  have hsome : (run s 0 (.start (Pit.pulse^[0] (initDevices someStubs 0x102000 someMachine .programmed).2) ⟨0x9C, true, []⟩ ∅ ∅
      (Os.start Os.threeTasks Shell.someScreen (.replicate 256 0))) acts).isSome = true := by
    decide +kernel
  obtain ⟨β, hβ⟩ := Option.isSome_iff_exists.1 hsome
  obtain ⟨actions, hrun, hnone, hunread⟩ := machine_keyboard_dead someStubs 0x102000 someMachine .programmed 0 Os.threeTasks
    Shell.someScreen (.replicate 256 0) 0 ⟨0x9C, true, []⟩ ∅ ∅ acts β ⟨by simp, fun _ => by simp⟩ rfl (by simp) hβ
  exact ⟨β, actions, hβ, hrun, hnone, hunread⟩

end Main

end Board

end CheesecakeOS
