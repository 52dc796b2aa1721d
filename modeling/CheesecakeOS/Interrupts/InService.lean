import Mathlib.Order.Fin.Basic
import CheesecakeOS.Lib.Priority
import CheesecakeOS.Lib.Runs
import CheesecakeOS.Interrupts.Irq
/-!
# Interrupts in service

The two controllers and the processor while the kernel runs. A device raises its
line at any time. A controller keeps the request until the processor takes the
interrupt; from then on it holds back the line and all those after it until it is
told that the interrupt has ended. The gates are interrupt gates, so the processor
takes no other interrupt until the stub returns, and what happens until then is
what `ck_irq_handler` does. When a request goes away while the processor is about
to take the interrupt, the controller names its last line and has nothing in
service; `ck_irq_handler` does not look and ends that interrupt as well.

`interrupts_served`: the ends of interrupt always match. `request_waits`: a request
waits for those that go before it, and for nothing else.
-/
open Lib

namespace CheesecakeOS

variable {H : Type}

/-! ## The controllers at work -/

deriving instance DecidableEq for Chip

-- For the numbers of the lines, of one chip and of both.
instance neZero_lines : NeZero 8 := ⟨by decide⟩

instance neZero_irqs : NeZero 16 := ⟨by decide⟩

/-- Why the processor was interrupted: by a line, or by a request that had gone at one of the chips. -/
inductive Cause where
  | line (n : Fin 16)
  | noise (chip : Chip)
deriving DecidableEq

/-- The interrupt that is delivered. -/
def Cause.irq : Cause → Fin 16
  | .line n => n
  | .noise .master => 7
  | .noise .slave => 15

inductive Signal where
  | raise (n : Fin 16)
  | withdraw (n : Fin 16)
  /-- The processor takes the interrupt that the controllers have for it. -/
  | accept
  /-- It finds the request gone. -/
  | noise (chip : Chip)
  /-- The handler goes on. -/
  | run

/-- The lines of the chips, and the processor. -/
structure Service (H : Type) where
  master : Lines (Fin 8)
  slave : Lines (Fin 8)
  /-- What the handler has still to do; `none` while interrupts are enabled. -/
  todo : Option (List (Event H))
  accepted : List Cause
  log : List (Event H)

namespace Pic

/-- Not masked. -/
def lets (p : Pic) (l : Fin 8) : Bool := !p.imr.getLsbD l

/-- The processor takes the interrupt. With bit 1 of ICW4 set it would have ended at once. -/
def acknowledge (p : Pic) (lines : Lines (Fin 8)) (l : Fin 8) : Lines (Fin 8) :=
  if p.icw4.getLsbD 1 then lines.withdraw l else lines.take l

theorem acknowledge_eq {p : Pic} (h : p.icw4.getLsbD 1 = false) (lines : Lines (Fin 8)) (l : Fin 8) :
    p.acknowledge lines l = lines.take l := by
  unfold acknowledge
  rw [h]
  rfl

end Pic

/-- The line of its chip that interrupt `n` has. -/
def lineOf (n : Fin 16) : Fin 8 := .ofNat 8 n

namespace Service

/-- No device has line 2 of the master: the slave is there. -/
def raise (σ : Service H) (n : Fin 16) : Service H :=
  if n.val < 8 then { σ with master := σ.master.raise (lineOf n) } else { σ with slave := σ.slave.raise (lineOf n) }

def withdraw (σ : Service H) (n : Fin 16) : Service H :=
  if n.val < 8 then { σ with master := σ.master.withdraw (lineOf n) }
  else { σ with slave := σ.slave.withdraw (lineOf n) }

/-- The master's lines. On line 2 it sees whether the slave has a request to make. -/
def cascade (p : Pics H) (σ : Service H) : Lines (Fin 8) :=
  { σ.master with
    irr := if (σ.slave.next p.slave.lets).isSome then insert 2 σ.master.irr else σ.master.irr.erase 2 }

/-- The interrupt the controllers have for the processor. -/
def choose (p : Pics H) (σ : Service H) : Option (Fin 16) :=
  match (σ.cascade p).next p.master.lets with
  | none => none
  | some l => if l = 2 then (σ.slave.next p.slave.lets).map fun (k : Fin 8) => .ofNat 16 (8 + k.val) else some (.ofNat 16 l.val)

/-- The chips when an interrupt is taken. -/
def acknowledge (p : Pics H) (σ : Service H) : Cause → Service H
  | .line n =>
    if n.val < 8 then { σ with master := p.master.acknowledge σ.master (lineOf n) }
    else { σ with master := p.master.acknowledge σ.master 2, slave := p.slave.acknowledge σ.slave (lineOf n) }
  | .noise .master => σ
  | .noise .slave => { σ with master := p.master.acknowledge σ.master 2 }

/-- What `ck_irq_handler` does for an interrupt, event by event. -/
def handling (s : Interrupts H) (n : Fin 16) : List (Event H) :=
  (ck_irq_handler s (.ofNat 8 n)).pics.log.drop s.pics.log.length

/-- The processor goes to the handler. -/
def interrupted (s : Interrupts H) (σ : Service H) (c : Cause) : Service H :=
  { σ.acknowledge s.pics c with todo := some (handling s c.irq), accepted := σ.accepted ++ [c] }

/-- What an event does to the chips. -/
def effect (σ : Service H) : Event H → Service H
  | .called _ _ => σ
  | .eoi .master => { σ with master := σ.master.finish }
  | .eoi .slave => { σ with slave := σ.slave.finish }

def step (s : Interrupts H) (σ : Service H) : Signal → Service H
  | .raise n => if n = 2 then σ else σ.raise n
  | .withdraw n => σ.withdraw n
  | .accept =>
    match σ.todo, σ.choose s.pics with
    | none, some n => σ.interrupted s (.line n)
    | _, _ => σ
  | .noise chip =>
    match σ.todo with
    | none => σ.interrupted s (.noise chip)
    | some _ => σ
  | .run =>
    match σ.todo with
    | none => σ
    | some [] => { σ with todo := none }
    | some (e :: es) => { σ.effect e with todo := some es, log := σ.log ++ [e] }

/-- When `ck_main` enables interrupts, requests may be waiting. -/
def start (master slave : Finset (Fin 8)) : Service H := ⟨⟨master, ∅⟩, ⟨slave, ∅⟩, none, [], []⟩

/-- The device of line `n` has a request. -/
def Pending (σ : Service H) (n : Fin 16) : Prop :=
  if n.val < 8 then n ≠ 2 ∧ lineOf n ∈ σ.master.irr else lineOf n ∈ σ.slave.irr

end Service

/-- The line is not masked at its chip. -/
def Pics.Unmasked (p : Pics H) (n : Fin 16) : Prop :=
  if n.val < 8 then p.master.lets (lineOf n) = true else p.slave.lets (lineOf n) = true

/-- The order of the lines: those of the slave have the place of line 2. -/
def rank (n : Fin 16) : Nat := if n.val < 2 then n.val else if n.val < 8 then n.val + 7 else n.val - 6

/-! ## The ends of interrupt -/

namespace Service

/-- The lines in service after an event. -/
def settle (isr : Finset (Fin 8) × Finset (Fin 8)) : Event H → Finset (Fin 8) × Finset (Fin 8)
  | .called _ _ => isr
  | .eoi .master => (dropFirst isr.1, isr.2)
  | .eoi .slave => (isr.1, dropFirst isr.2)

def inService (σ : Service H) : Finset (Fin 8) × Finset (Fin 8) := (σ.master.isr, σ.slave.isr)

/-- When the handler returns, nothing will be in service; the log gets what the interrupts so far call for. -/
structure Orderly (s : Interrupts H) (σ : Service H) : Prop where
  settled : (σ.todo.getD []).foldl settle σ.inService = (∅, ∅)
  told : σ.log ++ σ.todo.getD [] = σ.accepted.flatMap fun c => served (s.ck_irq_handlers_c.get c.irq) c.irq

theorem Orderly.idle {s : Interrupts H} {σ : Service H} (h : Orderly s σ) (hidle : σ.todo = none) : σ.inService = (∅, ∅) := by
  have hsettled := h.settled
  rw [hidle] at hsettled
  exact hsettled

theorem accepted_effect (σ : Service H) (e : Event H) : (σ.effect e).accepted = σ.accepted := by
  cases e with
  | called handler irq => rfl
  | eoi chip => cases chip <;> rfl

theorem accepted_raise (σ : Service H) (m : Fin 16) : (σ.raise m).accepted = σ.accepted := by
  unfold raise
  split <;> rfl

theorem accepted_withdraw (σ : Service H) (m : Fin 16) : (σ.withdraw m).accepted = σ.accepted := by
  unfold withdraw
  split <;> rfl

section Steps
variable {s : Interrupts H} {σ : Service H}

theorem handling_eq (s : Interrupts H) (n : Fin 16) : handling s n = served (s.ck_irq_handlers_c.get n) n := by
  unfold handling
  rw [irq_handler_log, List.drop_left]
  rfl

theorem inService_effect (σ : Service H) (e : Event H) : (σ.effect e).inService = settle σ.inService e := by
  cases e with
  | called h irq => rfl
  | eoi chip => cases chip <;> rfl

/-- What the ends of interrupt of one handler leave, by what was in service. -/
theorem served_settles (h : Option H) (n : Fin 16) (isr : Finset (Fin 8) × Finset (Fin 8)) :
    (served h n).foldl settle isr = (dropFirst isr.1, if 8 ≤ n.val then dropFirst isr.2 else isr.2) := by
  unfold served
  split
  · cases h <;> rfl
  · cases h <;> rfl

/-- The chips have been told to wait for the end of an interrupt. -/
def Waits (p : Pics H) : Prop := p.master.icw4.getLsbD 1 = false ∧ p.slave.icw4.getLsbD 1 = false

/-- An interrupt taken with nothing in service ends with nothing in service. -/
theorem acknowledge_settles (hp : Waits s.pics) (h : σ.inService = (∅, ∅)) (c : Cause) :
    (handling s c.irq).foldl settle (σ.acknowledge s.pics c).inService = (∅, ∅) := by
  obtain ⟨hmaster, hslave⟩ := hp
  obtain ⟨hm, hs⟩ := Prod.mk.inj h
  rw [handling_eq, served_settles]
  have hone : ∀ l : Fin 8, dropFirst (insert l σ.master.isr) = ∅ := by
    intro l
    rw [hm]
    exact dropFirst_singleton l
  have hother : ∀ l : Fin 8, dropFirst (insert l σ.slave.isr) = ∅ := by
    intro l
    rw [hs]
    exact dropFirst_singleton l
  unfold acknowledge inService
  cases c with
  | line n =>
    dsimp only [Cause.irq]
    rw [Pic.acknowledge_eq hmaster, Pic.acknowledge_eq hmaster, Pic.acknowledge_eq hslave]
    by_cases hn : n.val < 8
    · have hlow : ¬ 8 ≤ n.val := by omega
      simp only [if_pos hn, if_neg hlow]
      exact Prod.ext (hone _) hs
    · have hhigh : 8 ≤ n.val := by omega
      simp only [if_neg hn, if_pos hhigh]
      exact Prod.ext (hone _) (hother _)
  | noise chip =>
    cases chip with
    | master =>
      -- The end of interrupt finds nothing in service and changes nothing.
      exact Prod.ext (by dsimp only; rw [hm]; rfl) hs
    | slave =>
      -- The master has line 2 in service for the slave, which has nothing.
      dsimp only
      rw [Pic.acknowledge_eq hmaster]
      exact Prod.ext (hone 2) (by dsimp only; rw [hs]; rfl)

theorem acknowledge_log (p : Pics H) (σ : Service H) (c : Cause) : (σ.acknowledge p c).log = σ.log := by
  cases c with
  | line n =>
    unfold acknowledge
    dsimp only
    split <;> rfl
  | noise chip => cases chip <;> rfl

theorem Orderly.interrupted (h : Orderly s σ) (hp : Waits s.pics) (hidle : σ.todo = none) (c : Cause) :
    Orderly s (σ.interrupted s c) := by
  obtain ⟨hsettled, htold⟩ := h
  rw [hidle] at hsettled htold
  refine ⟨acknowledge_settles hp hsettled c, ?_⟩
  show (σ.acknowledge s.pics c).log ++ handling s c.irq = (σ.accepted ++ [c]).flatMap _
  rw [acknowledge_log, handling_eq, List.flatMap_append, List.flatMap_singleton, ← htold]
  simp

/-- The handler's next event. -/
theorem Orderly.event (h : Orderly s σ) {e : Event H} {es : List (Event H)} (htodo : σ.todo = some (e :: es)) :
    Orderly s { σ.effect e with todo := some es, log := σ.log ++ [e] } := by
  obtain ⟨hsettled, htold⟩ := h
  rw [htodo] at hsettled htold
  refine ⟨?_, ?_⟩
  · show es.foldl settle (σ.effect e).inService = _
    rw [inService_effect]
    exact hsettled
  · show σ.log ++ [e] ++ es = (σ.effect e).accepted.flatMap _
    rw [List.append_assoc]
    rw [accepted_effect]
    exact htold

theorem Orderly.step (h : Orderly s σ) (hp : Waits s.pics) (a : Signal) : Orderly s (σ.step s a) := by
  cases a with
  | raise n =>
    show Orderly s (if n = 2 then σ else σ.raise n)
    split
    · exact h
    · unfold raise
      split <;> exact ⟨h.settled, h.told⟩
  | withdraw n =>
    show Orderly s (σ.withdraw n)
    unfold withdraw
    split <;> exact ⟨h.settled, h.told⟩
  | accept =>
    unfold Service.step
    dsimp only
    split
    · next n hidle hn => exact h.interrupted hp hidle (.line n)
    · exact h
  | noise chip =>
    unfold Service.step
    dsimp only
    split
    · next hidle => exact h.interrupted hp hidle (.noise chip)
    · exact h
  | run =>
    unfold Service.step
    dsimp only
    split
    · exact h
    · next hdone =>
      obtain ⟨hsettled, htold⟩ := h
      rw [hdone] at hsettled htold
      exact ⟨hsettled, htold⟩
    · next e es htodo => exact h.event htodo

end Steps

/-! ## The order of the requests -/

/-- Nothing but the processor keeps the request from being taken. -/
def Waiting (p : Pics H) (σ : Service H) (n : Fin 16) : Prop := σ.Pending n ∧ p.Unmasked n

section Order
variable {p : Pics H} {σ : Service H} {n m : Fin 16} {l : Fin 8}

theorem waiting_master (hn : n.val < 8) : Waiting p σ n ↔ n ≠ 2 ∧ lineOf n ∈ σ.master.irr ∧ p.master.lets (lineOf n) = true := by
  unfold Waiting Pending Pics.Unmasked
  rw [if_pos hn, if_pos hn, and_assoc]

theorem waiting_slave (hn : ¬ n.val < 8) : Waiting p σ n ↔ lineOf n ∈ σ.slave.irr ∧ p.slave.lets (lineOf n) = true := by
  unfold Waiting Pending Pics.Unmasked
  rw [if_neg hn, if_neg hn]

theorem mem_cascade (hl : l ≠ 2) : l ∈ (σ.cascade p).irr ↔ l ∈ σ.master.irr := by
  unfold cascade
  split <;> simp [hl]

theorem two_mem_cascade : 2 ∈ (σ.cascade p).irr ↔ (σ.slave.next p.slave.lets).isSome := by
  unfold cascade
  split
  · next h => simp [h]
  · next h => simp [h]

theorem lineOf_master (l : Fin 8) : (Fin.ofNat 16 l.val).val = l.val ∧ lineOf (.ofNat 16 l.val) = l := by
  revert l
  decide

theorem lineOf_slave (k : Fin 8) : (Fin.ofNat 16 (8 + k.val)).val = 8 + k.val ∧ lineOf (.ofNat 16 (8 + k.val)) = k := by
  revert k
  decide

theorem mem_master (hidle : σ.inService = (∅, ∅)) :
    l ∈ (σ.cascade p).ready p.master.lets ↔ l ∈ (σ.cascade p).irr ∧ p.master.lets l = true := by
  have hempty : (σ.cascade p).isr = ∅ := (Prod.mk.inj hidle).1
  exact Lines.mem_ready hempty

theorem mem_slave (hidle : σ.inService = (∅, ∅)) :
    l ∈ σ.slave.ready p.slave.lets ↔ l ∈ σ.slave.irr ∧ p.slave.lets l = true := by
  have hempty : σ.slave.isr = ∅ := (Prod.mk.inj hidle).2
  exact Lines.mem_ready hempty

/-- A line of the master that waits could be taken. -/
theorem master_ready (hidle : σ.inService = (∅, ∅)) (hn : n.val < 8) (hw : Waiting p σ n) :
    lineOf n ∈ (σ.cascade p).ready p.master.lets ∧ (lineOf n).val = n.val ∧ n.val ≠ 2 := by
  obtain ⟨hne, hirr, hlets⟩ := (waiting_master hn).1 hw
  have hval : (lineOf n).val = n.val := Nat.mod_eq_of_lt hn
  have htwo : n.val ≠ 2 := fun h => hne (Fin.ext h)
  have hline : lineOf n ≠ 2 := fun h => htwo (hval.symm.trans (congrArg Fin.val h))
  exact ⟨(mem_master hidle).2 ⟨(mem_cascade hline).2 hirr, hlets⟩, hval, htwo⟩

/-- A line of the slave that waits could be taken by it, and the slave is heard by the master. -/
theorem slave_ready (hidle : σ.inService = (∅, ∅)) (hopen : p.master.lets 2 = true) (hn : ¬ n.val < 8) (hw : Waiting p σ n) :
    lineOf n ∈ σ.slave.ready p.slave.lets ∧ (lineOf n).val + 8 = n.val ∧ 2 ∈ (σ.cascade p).ready p.master.lets := by
  have hready := (mem_slave hidle).2 ((waiting_slave hn).1 hw)
  obtain ⟨k, hk⟩ := first_isSome hready
  have hval : (lineOf n).val = n.val % 8 := rfl
  have htwo : 2 ∈ (σ.cascade p).irr := two_mem_cascade.2 (by rw [Lines.next, hk]; rfl)
  exact ⟨hready, by omega, (mem_master hidle).2 ⟨htwo, hopen⟩⟩

/-- The interrupt that is taken goes before all others that wait. -/
theorem choose_first (hidle : σ.inService = (∅, ∅)) (hopen : p.master.lets 2 = true) (hm : σ.choose p = some m) :
    Waiting p σ m ∧ ∀ n, Waiting p σ n → rank m ≤ rank n := by
  unfold choose at hm
  split at hm
  · cases hm
  next l hl =>
  -- The line the master has for the processor goes before all of its lines.
  have hmaster : ∀ n, Waiting p σ n → n.val < 8 → l.val ≤ n.val ∧ n.val ≠ 2 := by
    intro n hn hlow
    obtain ⟨hready, hval, htwo⟩ := master_ready hidle hlow hn
    have hle : l.val ≤ (lineOf n).val := Fin.le_def.1 (first_le hl hready)
    exact ⟨by omega, htwo⟩
  split at hm
  · next h2 =>
    obtain ⟨k, hk, hkm⟩ := Option.map_eq_some_iff.1 hm
    obtain ⟨hval, hline⟩ := lineOf_slave k
    rw [hkm] at hval hline
    have hslave := (mem_slave hidle).1 (first_mem hk)
    have hl2 : l.val = 2 := congrArg Fin.val h2
    -- The slave is heard, so lines 0 and 1 do not wait, and `k` goes before all of the slave's lines.
    refine ⟨(waiting_slave (by omega)).2 (by rw [hline]; exact hslave), fun n hn => ?_⟩
    by_cases hlow : n.val < 8
    · obtain ⟨hle, htwo⟩ := hmaster n hn hlow
      unfold rank
      split_ifs <;> omega
    · obtain ⟨hready, hnval, -⟩ := slave_ready hidle hopen hlow hn
      have hle : k.val ≤ (lineOf n).val := Fin.le_def.1 (first_le hk hready)
      unfold rank
      split_ifs <;> omega
  · next h2 =>
    have hkm := Option.some.inj hm
    obtain ⟨hval, hline⟩ := lineOf_master l
    rw [hkm] at hval hline
    have hready := (mem_master hidle).1 (first_mem hl)
    have hl2 : l.val ≠ 2 := fun h => h2 (Fin.ext h)
    refine ⟨(waiting_master (by omega)).2 ⟨fun h => hl2 (by rw [← hval, h]; rfl), ?_⟩, fun n hn => ?_⟩
    · rw [hline]
      exact ⟨(mem_cascade h2).1 hready.1, hready.2⟩
    · by_cases hlow : n.val < 8
      · obtain ⟨hle, htwo⟩ := hmaster n hn hlow
        unfold rank
        split_ifs <;> omega
      · obtain ⟨-, hnval, hready'⟩ := slave_ready hidle hopen hlow hn
        have hle : l.val ≤ 2 := Fin.le_def.1 (first_le hl hready')
        unfold rank
        split_ifs <;> omega

/-- There is an interrupt to take when a line waits. -/
theorem choose_isSome (hidle : σ.inService = (∅, ∅)) (hopen : p.master.lets 2 = true) (hw : Waiting p σ n) :
    ∃ m, σ.choose p = some m := by
  obtain ⟨l, hl⟩ : ∃ l, (σ.cascade p).next p.master.lets = some l := by
    by_cases hlow : n.val < 8
    · exact first_isSome (master_ready hidle hlow hw).1
    · exact first_isSome (slave_ready hidle hopen hlow hw).2.2
  unfold choose
  rw [hl]
  dsimp only
  split
  · next h2 =>
    have htwo := ((mem_master hidle).1 (first_mem hl)).1
    rw [h2] at htwo
    obtain ⟨k, hk⟩ := Option.isSome_iff_exists.1 (two_mem_cascade.1 htwo)
    exact ⟨_, by rw [hk]; rfl⟩
  · exact ⟨_, rfl⟩

theorem Waiting.ne_two (h : Waiting p σ n) : n ≠ 2 := by
  by_cases hn : n.val < 8
  · exact ((waiting_master hn).1 h).1
  · rintro rfl
    exact hn (by decide)

theorem rank_injective : ∀ m n : Fin 16, m ≠ 2 → n ≠ 2 → rank m = rank n → m = n := by
  decide

theorem lineOf_ne : ∀ m n : Fin 16, m ≠ n → (m.val < 8 ↔ n.val < 8) → lineOf n ≠ lineOf m := by
  decide

theorem lineOf_ne_two : ∀ n : Fin 16, n.val < 8 → n ≠ 2 → lineOf n ≠ 2 := by
  decide

end Order

/-! ## A request that waits -/

section Waits
variable {s : Interrupts H} {σ : Service H} {n : Fin 16}

/-- A request is kept where its chip keeps it. -/
theorem Pending.keeps {σ' : Service H} (h : σ.Pending n)
    (hmaster : n.val < 8 → lineOf n ≠ 2 → lineOf n ∈ σ.master.irr → lineOf n ∈ σ'.master.irr)
    (hslave : ¬ n.val < 8 → lineOf n ∈ σ.slave.irr → lineOf n ∈ σ'.slave.irr) : σ'.Pending n := by
  unfold Pending at h ⊢
  split
  · next hn =>
    rw [if_pos hn] at h
    exact ⟨h.1, hmaster hn (lineOf_ne_two n hn h.1) h.2⟩
  · next hn =>
    rw [if_neg hn] at h
    exact hslave hn h

theorem Pending.raise (h : σ.Pending n) (m : Fin 16) : (σ.raise m).Pending n := by
  unfold Service.raise
  split
  · exact h.keeps (fun _ _ hin => Finset.mem_insert_of_mem hin) fun _ hin => hin
  · exact h.keeps (fun _ _ hin => hin) fun _ hin => Finset.mem_insert_of_mem hin

theorem Pending.withdraw (h : σ.Pending n) {m : Fin 16} (hm : m ≠ n) : (σ.withdraw m).Pending n := by
  unfold Service.withdraw
  split
  · next hlow =>
    exact h.keeps (fun hn _ hin => Finset.mem_erase.2 ⟨lineOf_ne m n hm (by omega), hin⟩) fun _ hin => hin
  · next hlow =>
    exact h.keeps (fun _ _ hin => hin) fun hn hin => Finset.mem_erase.2 ⟨lineOf_ne m n hm (by omega), hin⟩

/-- Another interrupt is taken. -/
theorem Pending.acknowledge (h : σ.Pending n) (hp : Waits s.pics) {c : Cause} (hc : ∀ m, c = .line m → m ≠ n) :
    (σ.acknowledge s.pics c).Pending n := by
  obtain ⟨hmaster, hslave⟩ := hp
  cases c with
  | line m =>
    have hm := hc m rfl
    unfold Service.acknowledge
    dsimp only
    rw [Pic.acknowledge_eq hmaster, Pic.acknowledge_eq hmaster, Pic.acknowledge_eq hslave]
    split
    · next hlow =>
      exact h.keeps (fun hn _ hin => Finset.mem_erase.2 ⟨lineOf_ne m n hm (by omega), hin⟩) fun _ hin => hin
    · next hlow =>
      exact h.keeps (fun _ htwo hin => Finset.mem_erase.2 ⟨htwo, hin⟩)
        fun hn hin => Finset.mem_erase.2 ⟨lineOf_ne m n hm (by omega), hin⟩
  | noise chip =>
    cases chip with
    | master => exact h
    | slave =>
      unfold Service.acknowledge
      dsimp only
      rw [Pic.acknowledge_eq hmaster]
      exact h.keeps (fun _ htwo hin => Finset.mem_erase.2 ⟨htwo, hin⟩) fun _ hin => hin

/-- The record of the interrupts taken only grows. -/
theorem accepted_step (s : Interrupts H) (σ : Service H) (a : Signal) : ∃ cs, (σ.step s a).accepted = σ.accepted ++ cs := by
  have hsame : ∃ cs, σ.accepted = σ.accepted ++ cs := ⟨[], (List.append_nil _).symm⟩
  cases a with
  | raise m =>
    show ∃ cs, (if m = 2 then σ else σ.raise m).accepted = _
    split
    · exact hsame
    · rw [accepted_raise]
      exact hsame
  | withdraw m =>
    show ∃ cs, (σ.withdraw m).accepted = _
    rw [accepted_withdraw]
    exact hsame
  | accept =>
    unfold Service.step
    dsimp only
    split
    · exact ⟨_, rfl⟩
    · exact hsame
  | noise chip =>
    unfold Service.step
    dsimp only
    split
    · exact ⟨_, rfl⟩
    · exact hsame
  | run =>
    unfold Service.step
    dsimp only
    split
    · exact hsame
    · exact hsame
    · rw [accepted_effect]
      exact hsame

theorem accepted_run (s : Interrupts H) (signals : List Signal) :
    ∀ σ : Service H, ∃ cs, (signals.foldl (Service.step s) σ).accepted = σ.accepted ++ cs := by
  induction signals with
  | nil => intro σ; exact ⟨[], (List.append_nil _).symm⟩
  | cons a signals ih =>
    intro σ
    obtain ⟨cs, hcs⟩ := accepted_step s σ a
    obtain ⟨cs', hcs'⟩ := ih (σ.step s a)
    exact ⟨cs ++ cs', by rw [List.foldl_cons, hcs', hcs, List.append_assoc]⟩

/-- While a request waits, only those are taken that go before it. -/
def Passed (p : Pics H) (n : Fin 16) (σ σ' : Service H) : Prop :=
  ∃ cs, σ'.accepted = σ.accepted ++ cs ∧
    (.line n ∈ cs ∨ Waiting p σ' n ∧ ∀ m, .line m ∈ cs → rank m < rank n)

theorem passed_of_pending {p : Pics H} {σ' : Service H} (hw : Waiting p σ n) (h : σ'.accepted = σ.accepted)
    (hpending : σ'.Pending n) : Passed p n σ σ' :=
  ⟨[], by rw [h, List.append_nil], .inr ⟨⟨hpending, hw.2⟩, fun m hm => by cases hm⟩⟩

theorem Waiting.step (hw : Waiting s.pics σ n) (ho : Orderly s σ) (hp : Waits s.pics) (hopen : s.pics.master.lets 2 = true)
    {a : Signal} (ha : a ≠ .withdraw n) : Passed s.pics n σ (σ.step s a) := by
  have hpending := hw.1
  cases a with
  | raise m =>
    show Passed s.pics n σ (if m = 2 then σ else σ.raise m)
    split
    · exact passed_of_pending hw rfl hpending
    · exact passed_of_pending hw (accepted_raise σ m) (hpending.raise m)
  | withdraw m =>
    exact passed_of_pending hw (accepted_withdraw σ m) (hpending.withdraw fun h => ha (by rw [h]))
  | accept =>
    unfold Service.step
    dsimp only
    split
    · next m hidle hm =>
      obtain ⟨hwm, hfirst⟩ := choose_first (ho.idle hidle) hopen hm
      refine ⟨[.line m], rfl, ?_⟩
      by_cases hmn : m = n
      · exact .inl (by rw [hmn]; exact List.mem_singleton_self _)
      · refine .inr ⟨⟨?_, hw.2⟩, fun m' hm' => ?_⟩
        · exact hpending.acknowledge hp fun m' h => by cases h; exact hmn
        · cases List.mem_singleton.1 hm'
          -- Only line 2 shares its rank with another line.
          have hne : rank m ≠ rank n := fun h => hmn (rank_injective m n hwm.ne_two hw.ne_two h)
          have hle := hfirst n hw
          omega
    · exact passed_of_pending hw rfl hpending
  | noise chip =>
    unfold Service.step
    dsimp only
    split
    · refine ⟨[.noise chip], rfl, .inr ⟨⟨?_, hw.2⟩, fun m hm => ?_⟩⟩
      · exact hpending.acknowledge hp fun m h => by cases h
      · cases List.mem_singleton.1 hm
    · exact passed_of_pending hw rfl hpending
  | run =>
    unfold Service.step
    dsimp only
    split
    · exact passed_of_pending hw rfl hpending
    · exact passed_of_pending hw rfl hpending
    · next e es htodo =>
      refine passed_of_pending hw (accepted_effect σ e) ?_
      cases e with
      | called handler irq => exact hpending
      | eoi chip => cases chip <;> exact hpending

theorem Waiting.run (hp : Waits s.pics) (hopen : s.pics.master.lets 2 = true) (signals : List Signal) :
    ∀ {σ : Service H}, Waiting s.pics σ n → Orderly s σ → Signal.withdraw n ∉ signals →
      Passed s.pics n σ (signals.foldl (Service.step s) σ) := by
  induction signals with
  | nil =>
    intro σ hw _ _
    exact passed_of_pending hw rfl hw.1
  | cons a signals ih =>
    intro σ hw ho ha
    rw [List.mem_cons, not_or] at ha
    obtain ⟨cs, hcs, hpassed⟩ := hw.step ho hp hopen (a := a) fun h => ha.1 h.symm
    rcases hpassed with htaken | ⟨hw', hbefore⟩
    · -- It has been taken: what comes after that is of no account.
      obtain ⟨cs', hcs'⟩ := accepted_run s signals (σ.step s a)
      refine ⟨cs ++ cs', ?_, .inl (List.mem_append_left _ htaken)⟩
      rw [List.foldl_cons, hcs', hcs, List.append_assoc]
    · obtain ⟨cs', hcs', hrest⟩ := ih hw' (ho.step hp a) ha.2
      refine ⟨cs ++ cs', by rw [List.foldl_cons, hcs', hcs, List.append_assoc], ?_⟩
      rcases hrest with htaken | ⟨hw'', hbefore'⟩
      · exact .inl (List.mem_append_right _ htaken)
      · refine .inr ⟨hw'', fun m hm => ?_⟩
        rcases List.mem_append.1 hm with hm | hm
        · exact hbefore m hm
        · exact hbefore' m hm

end Waits

/-! ## From `ck_main` on -/

section Main
variable (A : StubAddresses) (at_ : U32) (d : H) (boot : Interrupts H) (sets : List (U8 × Option H))

/-- How `ck_pic_init` has set the chips, whatever the firmware has left there. -/
theorem init_waits : Waits (setHandlers (initInterrupts A at_ d boot) sets).pics ∧
    (setHandlers (initInterrupts A at_ d boot) sets).pics.master.lets 2 = true := by
  rw [(setHandlers_frame (initInterrupts A at_ d boot) sets).2,
    show (initInterrupts A at_ d boot).pics = ck_pic_init boot.pics from rfl, pic_init_eq, Pic.remap_eq, Pic.remap_eq]
  have hends : (1#8).getLsbD 1 = false := by decide
  refine ⟨⟨hends, hends⟩, ?_⟩
  simp [Pic.lets]

theorem init_handlers (n : Fin 16) : (setHandlers (initInterrupts A at_ d boot) sets).ck_irq_handlers_c.get n =
    handlerFor d sets n := by
  refine (setHandlers_table (initInterrupts A at_ d boot) sets n).trans ?_
  unfold handlerFor
  rw [show (initInterrupts A at_ d boot).ck_irq_handlers_c[n] = some d from irq_init_table A d _ n]

theorem start_orderly (s : Interrupts H) (master slave : Finset (Fin 8)) : Orderly s (.start master slave) := ⟨rfl, rfl⟩

theorem orderly_run (master slave : Finset (Fin 8)) (signals : List Signal) :
    Orderly (setHandlers (initInterrupts A at_ d boot) sets)
      (signals.foldl (Service.step (setHandlers (initInterrupts A at_ d boot) sets)) (.start master slave)) := by
  have hp := (init_waits A at_ d boot sets).1
  exact run_inv _ (Orderly _) (fun _ a h _ => h.step hp a) signals _ (start_orderly _ master slave) (allowed_all _)

/-- The kernel after its initialisation, in whatever state the firmware has left the
controllers, with any handlers, and whatever requests the devices make and take
back at any time: while interrupts are enabled no line is in service at either
chip, so if some lines wait that are not masked, the next interrupt is the first
of these. The handlers are called in the order in which the interrupts were
taken, once each and one after the other, and so are the ends of interrupt, also
for interrupts whose request had gone. -/
theorem interrupts_served (master slave : Finset (Fin 8)) (signals : List Signal) :
    let s := setHandlers (initInterrupts A at_ d boot) sets
    let σ := signals.foldl (Service.step s) (.start master slave)
    (σ.todo = none → σ.master.isr = ∅ ∧ σ.slave.isr = ∅) ∧
    (σ.todo = none → ∀ n, Waiting s.pics σ n →
      ∃ m, σ.choose s.pics = some m ∧ Waiting s.pics σ m ∧ rank m ≤ rank n) ∧
    σ.log ++ σ.todo.getD [] = σ.accepted.flatMap fun c => served (handlerFor d sets c.irq) c.irq := by
  intro s σ
  have horderly : Orderly s σ := orderly_run A at_ d boot sets master slave signals
  have hopen := (init_waits A at_ d boot sets).2
  refine ⟨fun h => Prod.mk.inj (horderly.idle h), fun h n hn => ?_, ?_⟩
  · obtain ⟨m, hm⟩ := choose_isSome (horderly.idle h) hopen hn
    obtain ⟨hwm, hfirst⟩ := choose_first (horderly.idle h) hopen hm
    exact ⟨m, hm, hwm, hfirst n hn⟩
  · rw [horderly.told]
    refine List.flatMap_congr fun c _ => ?_
    rw [init_handlers]

/-- A request on a line that is not masked is not lost: until its device takes it back it waits, and
while it waits only interrupts of lines that go before it are taken. -/
theorem request_waits (master slave : Finset (Fin 8)) (before after : List Signal) (n : Fin 16)
    (hkept : Signal.withdraw n ∉ after) :
    let s := setHandlers (initInterrupts A at_ d boot) sets
    let σ := before.foldl (Service.step s) (.start master slave)
    let σ' := after.foldl (Service.step s) σ
    Waiting s.pics σ n → ∃ cs, σ'.accepted = σ.accepted ++ cs ∧
      (.line n ∈ cs ∨ Waiting s.pics σ' n ∧ ∀ m, .line m ∈ cs → rank m < rank n) := by
  intro s σ σ' hw
  obtain ⟨hp, hopen⟩ := init_waits A at_ d boot sets
  exact Waiting.run hp hopen after hw (orderly_run A at_ d boot sets master slave before) hkept

end Main

/-- A key is pressed, and the timer comes before the processor gets to it. -/
theorem request_waits_keyboard :
    let s := setHandlers (initInterrupts someStubs 0x102000 0x100000 someBoot) []
    let σ := [Signal.raise 1].foldl (Service.step s) (.start ∅ ∅)
    let σ' := [Signal.raise 0, .accept].foldl (Service.step s) σ
    Waiting s.pics σ 1 ∧ ∃ cs, σ'.accepted = σ.accepted ++ cs ∧
      (.line 1 ∈ cs ∨ Waiting s.pics σ' 1 ∧ ∀ m, .line m ∈ cs → rank m < rank 1) := by
  intro s σ σ'
  have hw : Waiting s.pics σ 1 := by
    refine (waiting_master (by decide)).2 ⟨by decide, ?_, ?_⟩
    · show lineOf 1 ∈ insert (lineOf 1) (∅ : Finset (Fin 8))
      decide
    · decide +kernel
  exact ⟨hw, request_waits someStubs 0x102000 0x100000 someBoot [] ∅ ∅ [.raise 1] [.raise 0, .accept] 1 (by simp) hw⟩

end Service

end CheesecakeOS
