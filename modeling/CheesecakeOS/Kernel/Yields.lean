import CheesecakeOS.Kernel.SchedulerRuns
/-!
# Who a yield is credited to

`ck_task_yield` adds a tick to the task that `ck_current_context` points to.
`ck_scheduler_run_tasks` sets the pointer before it calls an entry and nothing
clears it afterwards, so a yield between two rounds goes to the task that ran
last. `yields_credited`: as long as code outside of the tasks yields only while
the pointer is null, every task has the ticks of its own yields.

A `Ledger` is the scheduler with a count, for every task, of the yields its
entry made; the count follows the log of what the scheduler ran.
-/
open Lib

namespace CheesecakeOS.Scheduler

variable {E : Type}

/-! ## The ledger -/

def isYield : TaskOp E → Bool
  | .create .. => false
  | .yield => true

/-- The yields an entry makes. -/
def yields (prog : List (TaskOp E)) : Nat := prog.countP isYield

/-- What an event adds to the yields made: a new task has made none, and an
entry that is called makes those of its program. -/
def credit (progs : Nat → List (TaskOp E)) : TaskEvent → (Nat → Nat) → Nat → Nat
  | .created i, made => Function.update made i 0
  | .ran i, made => Function.update made i (made i + yields (progs i))
  | .returned, made => made

/-- The yields made after some events, newest first. -/
def account (progs : Nat → List (TaskOp E)) (events : List TaskEvent) (made : Nat → Nat) : Nat → Nat :=
  events.foldr (credit progs) made

/-- The scheduler, and the yields each task's entry has made. -/
structure Ledger (E : Type) where
  sched : Scheduler E
  made : Nat → Nat

/-- Zero-initialised statics. -/
def Ledger.start (heap : Heap) (structs : U32 → Task E) : Ledger E := ⟨zero heap structs, fun _ => 0⟩

/-- A call of the history: one of those of `SchedulerRuns`, or a yield from
outside of the tasks. -/
inductive HistoryOp (E : Type) where
  | call (op : SchedulerOp E)
  | yield

/-- What the entries do during a call. -/
def SchedulerOp.progs : SchedulerOp E → Nat → List (TaskOp E)
  | .run progs => progs
  | _ => fun _ => []

/-- What was logged between two states. -/
def events (s s' : Scheduler E) : List TaskEvent := s'.log.take (s'.log.length - s.log.length)

inductive Ledger.Step : Ledger E → HistoryOp E → Ledger E → Prop
  | call {σ : Ledger E} {fuel : Nat} {op : SchedulerOp E} {s : Scheduler E} : step fuel σ.sched op = some s →
      Step σ (.call op) ⟨s, account op.progs (events σ.sched s) σ.made⟩
  | yield {σ : Ledger E} : Step σ .yield { σ with sched := ck_task_yield σ.sched }

/-- Every task has a tick for each yield of its own entry, modulo 2^32. -/
def Ledger.Credited (σ : Ledger E) : Prop :=
  ∀ i : Fin 8, i.val < σ.sched.ck_task_count.toNat → (σ.sched.task i).total_ticks = .ofNat 32 (σ.made i)

/-- Code outside of the tasks yields only while no task has run. -/
def YieldsIdle : Ledger E → HistoryOp E → Prop
  | _, .call _ => True
  | σ, .yield => σ.sched.ck_current_context.task = none

theorem events_of_append {s s' : Scheduler E} {es : List TaskEvent} (h : s'.log = es ++ s.log) : events s s' = es := by
  rw [events, h, List.length_append, Nat.add_sub_cancel, List.take_left]

/-! ## Within a call -/

section Steps
variable {fuel : Nat} {progs : Nat → List (TaskOp E)} {made : Nat → Nat} {log : List TaskEvent} {k m : Nat}
  {s s' : Scheduler E}

/-- Since the log was `log`, the tasks got the ticks of the yields made, but for
`m` that task `k` has still to make. -/
def Ticks (progs : Nat → List (TaskOp E)) (made : Nat → Nat) (log : List TaskEvent) (k m : Nat) (s : Scheduler E) : Prop :=
  ∃ es, s.log = es ++ log ∧ ∀ i : Fin 8, i.val < s.ck_task_count.toNat →
    (s.task i).total_ticks + .ofNat 32 (if i.val = k then m else 0) = .ofNat 32 (account progs es made i)

/-- A task runs with `m` yields to go: the pointer is to it. -/
structure Running (progs : Nat → List (TaskOp E)) (made : Nat → Nat) (log : List TaskEvent) (j : Fin 8) (m : Nat)
    (s : Scheduler E) : Prop where
  context : s.ck_current_context.task = some j
  entered : j.val < s.ck_task_count.toNat
  ticks : Ticks progs made log j m s

/-- A change of one task that keeps its ticks. -/
theorem Ticks.modify (h : Ticks progs made log k m s) (j : Fin 8) {f : Task E → Task E}
    (hf : ∀ t, (f t).total_ticks = t.total_ticks) : Ticks progs made log k m (s.modify j f) := by
  obtain ⟨es, hlog, hticks⟩ := h
  refine ⟨es, hlog, fun i hi => ?_⟩
  rw [← hticks i hi, keep_modify s j f Task.total_ticks hf]

theorem Ticks.enter (h : Ticks progs made log k m s) {heap : Heap} {p : U32} {t : Task E}
    (hlt : s.ck_task_count.toNat < 8) (hk : m = 0 ∨ k < s.ck_task_count.toNat) (ht : t.total_ticks = 0) :
    Ticks progs made log k m (ck_task_enter s heap p t) := by
  obtain ⟨es, hlog, hticks⟩ := h
  have hcount := count_enter s heap p t hlt
  refine ⟨.created s.ck_task_count.toNat :: es, congrArg (_ :: ·) hlog, fun i hi => ?_⟩
  rw [hcount] at hi
  rw [task_enter s heap p t hlt]
  show _ = BitVec.ofNat 32 (Function.update (account progs es made) s.ck_task_count.toNat 0 i)
  by_cases he : i = ⟨s.ck_task_count.toNat, hlt⟩
  · have hm : (if i.val = k then m else 0) = 0 := by
      rcases hk with rfl | hk
      · exact ite_self 0
      · exact if_neg (by rw [he]; exact Nat.ne_of_gt hk)
    rw [hm, he, Function.update_self, Function.update_self, ht]
    rfl
  · have hne : i.val ≠ s.ck_task_count.toNat := fun e => he (Fin.ext e)
    rw [Function.update_of_ne he, Function.update_of_ne hne]
    exact hticks i (by omega)

/-- A call of `ck_task_create` keeps the ticks, and leaves the pointer alone. -/
theorem Ticks.create (h : Ticks progs made log k m s) (hk : m = 0 ∨ k < s.ck_task_count.toNat) {p : U32} {e : Option E}
    {n : U32} (hs : (ck_task_create fuel s p e n).map Prod.fst = some s') :
    Ticks progs made log k m s' ∧ s'.ck_current_context = s.ck_current_context ∧
      s.ck_task_count.toNat ≤ s'.ck_task_count.toNat := by
  obtain ⟨⟨u, r⟩, hc, rfl⟩ := Option.map_eq_some_iff.1 hs
  rcases create_heap hc with ⟨-, heap, rfl⟩ | ⟨heap, t, hlt, -, -, -, -, -, -, ht, rfl⟩
  · exact ⟨h, rfl, Nat.le_refl _⟩
  · refine ⟨h.enter hlt hk ht, rfl, ?_⟩
    rw [count_enter s heap p t hlt]
    exact Nat.le_succ _

/-- The task that runs yields: one yield less to go, one tick more. -/
theorem Running.yield {j : Fin 8} (h : Running progs made log j (m + 1) s) :
    Running progs made log j m (ck_task_yield s) := by
  have he : ck_task_yield s = s.modify j fun t => { t with total_ticks := t.total_ticks + 1 } := by
    rw [ck_task_yield, ck_schedule, h.context]
  obtain ⟨es, hlog, hticks⟩ := h.ticks
  rw [he]
  refine ⟨h.context, h.entered, es, hlog, fun i hi => ?_⟩
  rw [← hticks i hi, task_modify]
  by_cases hij : i = j
  · rw [hij, Function.update_self, if_pos rfl, if_pos rfl, Nat.add_comm m 1, BitVec.ofNat_add, ← BitVec.add_assoc]
    rfl
  · rw [Function.update_of_ne hij]
    simp only [show ¬ i.val = j.val from fun e => hij (Fin.ext e), if_false]

theorem Running.op {j : Fin 8} {op : TaskOp E} {prog : List (TaskOp E)}
    (h : Running progs made log j (yields (op :: prog)) s) (hs : runOp fuel s op = some s') :
    Running progs made log j (yields prog) s' := by
  cases op with
  | create p e n =>
    obtain ⟨hticks, hctx, hle⟩ := h.ticks.create (.inr h.entered) hs
    exact ⟨by rw [hctx]; exact h.context, Nat.lt_of_lt_of_le h.entered hle, hticks⟩
  | yield =>
    rw [yields, List.countP_cons_of_pos rfl] at h
    rw [← Option.some.inj hs]
    exact h.yield

/-- When an entry returns it has made its yields. -/
theorem Running.prog {j : Fin 8} (prog : List (TaskOp E)) : ∀ {s : Scheduler E},
    Running progs made log j (yields prog) s → prog.foldlM (runOp fuel) s = some s' → Running progs made log j 0 s' := by
  induction prog with
  | nil =>
    intro s h hs
    exact Option.some.inj hs ▸ h
  | cons op prog ih =>
    intro s h hs
    rw [List.foldlM_cons] at hs
    obtain ⟨u, hu, hs⟩ := Option.bind_eq_some_iff.1 hs
    exact ih (h.op hu) hs

theorem Ticks.idle {k' : Nat} (h : Ticks progs made log k 0 s) : Ticks progs made log k' 0 s := by
  simpa only [Ticks, ite_self] using h

/-- The call of an entry is charged with its yields. -/
theorem Ticks.begin (h : Ticks progs made log k 0 s) (j : Fin 8) (hj : j.val < s.ck_task_count.toNat) :
    Running progs made log j (yields (progs j)) ((ck_task_begin s j).called j) := by
  obtain ⟨es, hlog, hticks⟩ := h.modify j (f := Task.begun) fun _ => rfl
  refine ⟨rfl, hj, .ran j :: es, congrArg (_ :: ·) hlog, fun i hi => ?_⟩
  have hi' := hticks i hi
  rw [ite_self] at hi'
  show ((s.modify j Task.begun).task i).total_ticks + _ =
    BitVec.ofNat 32 (Function.update (account progs es made) j (account progs es made j + yields (progs j)) i)
  rw [show ((s.modify j Task.begun).task i).total_ticks = _ from (BitVec.add_zero _).symm.trans hi']
  by_cases hij : i = j
  · rw [hij, Function.update_self, if_pos rfl, BitVec.ofNat_add]
  · have hne : i.val ≠ j.val := fun e => hij (Fin.ext e)
    rw [Function.update_of_ne hne, if_neg hne]
    exact BitVec.add_zero _

/-- One turn of the loop. -/
theorem Ticks.turn (h : Ticks progs made log k 0 s) {i : Nat} (h8 : i < 8) (hi : i < s.ck_task_count.toNat)
    (hs : ck_scheduler_run_task fuel (progs i) s (.ofNat 8 i) = some s') : Ticks progs made log k 0 s' := by
  have hj : (Fin.ofNat 8 i).val = i := Nat.mod_eq_of_lt h8
  generalize Fin.ofNat 8 i = j at hj hs
  subst hj
  unfold ck_scheduler_run_task at hs
  dsimp only at hs
  split at hs
  · split at hs
    · obtain ⟨u, hu, hs⟩ := Option.bind_eq_some_iff.1 hs
      rw [← Option.some.inj hs]
      exact ((h.begin j hi).prog (progs j) hu).ticks.idle.modify j (f := fun t => { t with state := .ready }) fun _ => rfl
    · rw [← Option.some.inj hs]
      have hbegun : Ticks progs made log k 0 (ck_task_begin s j) := h.modify j (f := Task.begun) fun _ => rfl
      exact hbegun.modify j (f := fun t => { t with state := .ready }) fun _ => rfl
  · rw [← Option.some.inj hs]
    exact h

theorem Ticks.loop (n : Nat) : ∀ {i : Nat} {s : Scheduler E}, Ticks progs made log k 0 s → i + n = 8 →
    ck_scheduler_run_from fuel progs n i s = some s' → Ticks progs made log k 0 s' := by
  induction n with
  | zero =>
    intro i s h _ hs
    unfold ck_scheduler_run_from at hs
    split at hs
    · cases hs
    · exact Option.some.inj hs ▸ h
  | succ n ih =>
    intro i s h hn hs
    unfold ck_scheduler_run_from at hs
    split at hs
    · next hi =>
      obtain ⟨u, hu, hs⟩ := Option.bind_eq_some_iff.1 hs
      exact ih (h.turn (by omega) hi hu) (by omega) hs
    · exact Option.some.inj hs ▸ h

theorem Ticks.round (h : Ticks progs made log k 0 s) (hs : ck_scheduler_run_tasks fuel progs s = some s') :
    Ticks progs made log k 0 s' := by
  unfold ck_scheduler_run_tasks at hs
  split at hs
  · exact Option.some.inj hs ▸ h
  · exact h.loop 8 rfl hs

end Steps

/-! ## Histories -/

theorem Ledger.Credited.ticks {σ : Ledger E} (h : σ.Credited) (progs : Nat → List (TaskOp E)) :
    Ticks progs σ.made σ.sched.log 0 0 σ.sched := by
  refine ⟨[], rfl, fun i hi => ?_⟩
  rw [ite_self, h i hi]
  exact BitVec.add_zero _

theorem Ticks.credited {progs : Nat → List (TaskOp E)} {σ : Ledger E} {s : Scheduler E}
    (h : Ticks progs σ.made σ.sched.log 0 0 s) : Ledger.Credited ⟨s, account progs (events σ.sched s) σ.made⟩ := by
  obtain ⟨es, hlog, hticks⟩ := h
  intro i hi
  rw [events_of_append hlog, ← hticks i hi, ite_self]
  exact (BitVec.add_zero _).symm

theorem yield_idle {s : Scheduler E} (h : s.ck_current_context.task = none) : ck_task_yield s = s := by
  rw [ck_task_yield, ck_schedule, h]

theorem credited_step (σ : Ledger E) (op : HistoryOp E) (σ' : Ledger E) (h : σ.Credited) (hop : YieldsIdle σ op)
    (hs : Ledger.Step σ op σ') : σ'.Credited := by
  cases hs with
  | @call fuel op s hstep =>
    apply Ticks.credited
    have hticks := h.ticks op.progs
    cases op with
    | init =>
      rw [← Option.some.inj hstep]
      exact ⟨[], rfl, fun i hi => absurd hi (Nat.not_lt_zero _)⟩
    | create p e n => exact (hticks.create (.inl rfl) hstep).1
    | run progs =>
      obtain ⟨u, hu, rfl⟩ := Option.map_eq_some_iff.1 hstep
      obtain ⟨es, hlog, hes⟩ := hticks.round hu
      exact ⟨.returned :: es, congrArg (_ :: ·) hlog, hes⟩
  | yield =>
    rw [yield_idle hop]
    exact h

/-- A yield changes the task that the pointer is to, and nothing if it is null. -/
theorem yield_keeps_iff (s : Scheduler E) : (ck_task_yield s).task = s.task ↔ s.ck_current_context.task = none := by
  refine ⟨fun h => ?_, fun h => by rw [yield_idle h]⟩
  cases hctx : s.ck_current_context.task with
  | none => rfl
  | some i =>
    have he : (ck_task_yield s).task i = { s.task i with total_ticks := (s.task i).total_ticks + 1 } := by
      rw [ck_task_yield, ck_schedule, hctx]
      show (s.modify i _).task i = _
      rw [task_modify, Function.update_self]
    rw [h] at he
    have hticks := congrArg Task.total_ticks he
    simp at hticks

/-- In every history whose yields from outside of the tasks find the pointer
null, every task has the ticks of its own yields; such a yield changes no task
exactly if the pointer is null. The structures that callers pass to
`ck_task_create` lie outside of `ck_task_table`. -/
theorem yields_credited (heap : Heap) (structs : U32 → Task E) (σ : Ledger E)
    (h : Reaches Ledger.Step YieldsIdle (.start heap structs) σ) :
    σ.Credited ∧ ((ck_task_yield σ.sched).task = σ.sched.task ↔ σ.sched.ck_current_context.task = none) := by
  have hstart : (Ledger.start heap structs).Credited := fun i hi => absurd hi (Nat.not_lt_zero _)
  exact ⟨h.inv Ledger.Credited hstart credited_step, yield_keeps_iff σ.sched⟩

/-- A yield before any round, then a task that yields twice. -/
theorem yields_credited_two : ∃ σ : Ledger Unit,
    Reaches Ledger.Step YieldsIdle (.start pageHeap fun _ => .zero Unit) σ ∧ (σ.sched.task 0).total_ticks = 2 ∧
      σ.Credited := by
  let s₀ : Scheduler Unit := zero pageHeap fun _ => .zero Unit
  have hrun : ((step 8 s₀ (.create 0x9000 (some ()) 100)).bind fun s => step 8 s (.run fun _ => [.yield, .yield])).map
      (fun s => (s.task 0).total_ticks) = some 2 := by
    decide +kernel
  obtain ⟨s₂, hs₂, hticks⟩ := Option.map_eq_some_iff.1 hrun
  obtain ⟨s₁, hs₁, hs₂⟩ := Option.bind_eq_some_iff.1 hs₂
  have hidle : Reaches Ledger.Step YieldsIdle (.start pageHeap fun _ => .zero Unit) ⟨ck_task_yield s₀, fun _ => 0⟩ :=
    .step .init (by rfl) .yield
  have hcreate := hidle.step (by trivial) (.call hs₁)
  have hcalls := hcreate.step (by trivial) (.call hs₂)
  exact ⟨_, hcalls, hticks, (yields_credited _ _ _ hcalls).1⟩

/-- A task that never yields runs in a round; a yield after the round is
credited to it. -/
theorem stale_yield_credited : ∃ σ₁ σ₂ σ₃ : Ledger Unit,
    Ledger.Step (.start pageHeap fun _ => .zero Unit) (.call (.create 0x9000 (some ()) 100)) σ₁ ∧
    Ledger.Step σ₁ (.call (.run fun _ => [])) σ₂ ∧ Ledger.Step σ₂ .yield σ₃ ∧ σ₃.sched.ck_task_count = 1 ∧
    σ₃.made 0 = 0 ∧ (σ₃.sched.task 0).total_ticks = 1 ∧ ¬ σ₃.Credited := by
  let s₀ : Scheduler Unit := zero pageHeap fun _ => .zero Unit
  have hrun : ((step 8 s₀ (.create 0x9000 (some ()) 100)).bind fun s => (step 8 s (.run fun _ => [])).map fun t =>
      ((ck_task_yield t).ck_task_count, ((ck_task_yield t).task 0).total_ticks,
        account (E := Unit) (fun _ => []) (events s t) (account (E := Unit) (fun _ => []) (events s₀ s) fun _ => 0) 0)) =
      some (1, 1, 0) := by
    decide +kernel
  obtain ⟨s₁, hs₁, hmap⟩ := Option.bind_eq_some_iff.1 hrun
  obtain ⟨s₂, hs₂, hvalues⟩ := Option.map_eq_some_iff.1 hmap
  simp only [Prod.mk.injEq] at hvalues
  obtain ⟨hcount, hticks, hmade⟩ := hvalues
  refine ⟨_, _, _, .call hs₁, .call hs₂, .yield, hcount, hmade, hticks, fun h => ?_⟩
  have hzero := h 0 (by rw [hcount]; decide)
  rw [hticks] at hzero
  exact absurd (hzero.trans (congrArg (BitVec.ofNat 32) hmade)) (by decide)

end CheesecakeOS.Scheduler
