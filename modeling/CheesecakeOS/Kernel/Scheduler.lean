import Mathlib.Algebra.BigOperators.Fin
import CheesecakeOS.Memory.Heap
/-!
# The scheduler

`kernel/scheduler.c`. A task's entry is a value of `E`, a null pointer `none`;
what an entry does when it is called is a list of calls of `ck_task_create` and
`ck_task_yield`, given from outside for every call. The callers' task structures
lie outside of the table. `ck_malloc` takes fuel, so a call that never returns
answers `none`.

The state has a log of what happened, newest first, which no function reads.
-/
open Lib

namespace CheesecakeOS

abbrev CK_SCHEDULER_MAX_TASKS : U32 := 8#32

/-- `ck_task_state_t`. -/
inductive TaskState where
  | ready
  | running
  | blocked
deriving DecidableEq

/-- `struct ck_task`. -/
structure Task (E : Type) where
  id : U32
  state : TaskState
  entry : Option E
  regs : U32
  stack : U32
  stack_size : U32
  ticks_remaining : U32
  times_run : U32
  total_ticks : U32

-- For the loop counter as an index of the table.
instance neZero_tasks : NeZero 8 := ⟨by decide⟩

/-- A task structure of zero bytes. -/
def Task.zero (E : Type) : Task E := ⟨0, .ready, none, 0, 0, 0, 0, 0, 0⟩

/-- `struct ck_task_context`; the task is one of the table. -/
structure TaskContext where
  task : Option (Fin 8)
  call_depth : U32

/-- A task entered in the table, a task's entry called, a round completed. -/
inductive TaskEvent where
  | created (id : Nat)
  | ran (id : Nat)
  | returned
deriving DecidableEq

/-- The statics of `scheduler.c`, the heap, and the callers' task structures. -/
structure Scheduler (E : Type) where
  ck_task_table : Vector (Task E) 8
  ck_task_count : U32
  ck_current_task_id : U32
  ck_context_switches : U32
  ck_current_context : TaskContext
  heap : Heap
  structs : U32 → Task E
  log : List TaskEvent

/-- What a task's entry may call. -/
inductive TaskOp (E : Type) where
  | create (task : U32) (entry : Option E) (stack_size : U32)
  | yield

variable {E : Type}

namespace Scheduler

def task (s : Scheduler E) (i : Fin 8) : Task E := s.ck_task_table[i]

def modify (s : Scheduler E) (i : Fin 8) (f : Task E → Task E) : Scheduler E :=
  { s with ck_task_table := s.ck_task_table.set i (f (s.task i)) }

end Scheduler

/-! ## The source -/

def ck_scheduler_init (s : Scheduler E) : Scheduler E :=
  { s with
    ck_task_table := .replicate 8 (.zero E)
    ck_task_count := 0
    ck_current_task_id := 0
    ck_context_switches := 0
    ck_current_context := ⟨none, 0⟩ }

/-- The task structure is filled in and copied into the table. -/
def ck_task_enter (s : Scheduler E) (heap : Heap) (task : U32) (t : Task E) : Scheduler E :=
  { s with
    heap := heap
    structs := Function.update s.structs task t
    ck_task_table := s.ck_task_table.setIfInBounds s.ck_task_count.toNat t
    ck_task_count := s.ck_task_count + 1
    log := .created s.ck_task_count.toNat :: s.log }

/-- The id of the new task, or -1; `none` if `ck_malloc` does not return. -/
def ck_task_create (fuel : Nat) (s : Scheduler E) (task : U32) (entry : Option E) (stack_size : U32) :
    Option (Scheduler E × Int) :=
  if s.ck_task_count ≥ CK_SCHEDULER_MAX_TASKS then some (s, -1)
  else if task = 0#32 ∨ entry.isNone ∨ stack_size = 0#32 then some (s, -1)
  else do
    let (heap, stack) ← ck_malloc fuel s.heap stack_size
    if stack = 0#32 then some ({ s with heap := heap }, -1)
    else do
      let (heap, regs) ← ck_malloc fuel heap 32
      if regs = 0#32 then some ({ s with heap := ck_free heap stack }, -1)
      else
        let t : Task E :=
          { id := s.ck_task_count, state := .ready, entry := entry, regs := regs, stack := stack
            stack_size := stack_size, ticks_remaining := 0, times_run := 0, total_ticks := 0 }
        some (ck_task_enter s heap task t, s.ck_task_count.toNat)

/-- The table entry, `none` for a null pointer. -/
def ck_scheduler_get_task (s : Scheduler E) (id : U32) : Option (Task E) :=
  if id < s.ck_task_count then s.ck_task_table[id.toNat]? else none

def ck_scheduler_current_task (s : Scheduler E) : Option (Task E) :=
  if s.ck_current_task_id < s.ck_task_count then s.ck_task_table[s.ck_current_task_id.toNat]? else none

def ck_scheduler_task_count (s : Scheduler E) : U32 := s.ck_task_count

def ck_scheduler_get_context_switches (s : Scheduler E) : U32 := s.ck_context_switches

def ck_schedule (s : Scheduler E) : Scheduler E :=
  match s.ck_current_context.task with
  | some i => s.modify i fun t => { t with total_ticks := t.total_ticks + 1 }
  | none => s

def ck_task_yield (s : Scheduler E) : Scheduler E := ck_schedule s

def runOp (fuel : Nat) (s : Scheduler E) : TaskOp E → Option (Scheduler E)
  | .create task entry stack_size => (ck_task_create fuel s task entry stack_size).map Prod.fst
  | .yield => some (ck_task_yield s)

/-- A task as it is when its entry is called. -/
def Task.begun (t : Task E) : Task E := { t with state := .running, times_run := t.times_run + 1 }

/-- A task is marked and counted before its entry is called. -/
def ck_task_begin (s : Scheduler E) (i : Fin 8) : Scheduler E :=
  { s.modify i Task.begun with
    ck_current_task_id := .ofNat 32 i
    ck_context_switches := s.ck_context_switches + 1
    ck_current_context := ⟨some i, 0⟩ }

/-- The call of a task's entry, logged. -/
def Scheduler.called (s : Scheduler E) (i : Fin 8) : Scheduler E := { s with log := .ran i :: s.log }

/-- The body of the loop of `ck_scheduler_run_tasks`; `prog` is what the entry does. -/
def ck_scheduler_run_task (fuel : Nat) (prog : List (TaskOp E)) (s : Scheduler E) (i : Fin 8) :
    Option (Scheduler E) :=
  if (s.task i).state = .ready ∨ (s.task i).state = .running then do
    let s := ck_task_begin s i
    let s ← if (s.task i).entry.isSome then prog.foldlM (runOp fuel) (s.called i) else some s
    some (s.modify i fun t => { t with state := .ready })
  else some { s with ck_current_task_id := .ofNat 32 i }

/-- The loop from `i` on, with `n` entries of the table left; the count is read
again in every round. -/
def ck_scheduler_run_from (fuel : Nat) (progs : Nat → List (TaskOp E)) : Nat → Nat → Scheduler E → Option (Scheduler E)
  | 0, i, s => if i < s.ck_task_count.toNat then none else some s
  | n + 1, i, s =>
    if i < s.ck_task_count.toNat then
      (ck_scheduler_run_task fuel (progs i) s (.ofNat 8 i)).bind (ck_scheduler_run_from fuel progs n (i + 1))
    else some s

/-- `progs i` is what the entry of task `i` does in this round. -/
def ck_scheduler_run_tasks (fuel : Nat) (progs : Nat → List (TaskOp E)) (s : Scheduler E) : Option (Scheduler E) :=
  if s.ck_task_count = 0 then some s else ck_scheduler_run_from fuel progs 8 0 s

/-! ## What a call changes -/

namespace Scheduler

theorem task_modify (s : Scheduler E) (i : Fin 8) (f : Task E → Task E) :
    (s.modify i f).task = Function.update s.task i (f (s.task i)) := by
  funext j
  by_cases hj : j = i
  · subst hj
    simp [task, modify]
  · have hne : (i : Nat) ≠ j := fun h => hj (Fin.ext h.symm)
    rw [Function.update_of_ne hj]
    simp [task, modify, hne]

section Frame
variable (s : Scheduler E) (i : Fin 8) (f : Task E → Task E)

@[simp] theorem count_modify : (s.modify i f).ck_task_count = s.ck_task_count := rfl
@[simp] theorem switches_modify : (s.modify i f).ck_context_switches = s.ck_context_switches := rfl
@[simp] theorem log_modify : (s.modify i f).log = s.log := rfl

/-- What the change keeps of a task, it keeps of all of them. -/
theorem keep_modify {α : Type} (g : Task E → α) (hg : ∀ t, g (f t) = g t) (j : Fin 8) :
    g ((s.modify i f).task j) = g (s.task j) := by
  rw [task_modify]
  by_cases hj : j = i
  · rw [hj, Function.update_self, hg]
  · rw [Function.update_of_ne hj]

theorem keep_called {α : Type} (g : Task E → α) (hg : ∀ t : Task E, g t.begun = g t) (j : Fin 8) :
    g (((ck_task_begin s i).called i).task j) = g (s.task j) := keep_modify s i Task.begun g hg j

theorem keep_yield {α : Type} (g : Task E → α) (hg : ∀ (t : Task E) n, g { t with total_ticks := n } = g t)
    (j : Fin 8) : g ((ck_task_yield s).task j) = g (s.task j) := by
  unfold ck_task_yield ck_schedule
  split
  · exact keep_modify s _ _ g (fun t => hg t _) j
  · rfl

end Frame

/-- A task entered at the end of the table, which has room. -/
theorem task_enter (s : Scheduler E) (heap : Heap) (p : U32) (t : Task E) (h : s.ck_task_count.toNat < 8) :
    (ck_task_enter s heap p t).task = Function.update s.task ⟨s.ck_task_count.toNat, h⟩ t := by
  funext j
  by_cases hj : j = ⟨s.ck_task_count.toNat, h⟩
  · subst hj
    simp [task, ck_task_enter]
  · have hne : s.ck_task_count.toNat ≠ j := fun e => hj (Fin.ext e.symm)
    rw [Function.update_of_ne hj]
    simp [task, ck_task_enter, hne]

theorem count_enter (s : Scheduler E) (heap : Heap) (p : U32) (t : Task E) (h : s.ck_task_count.toNat < 8) :
    (ck_task_enter s heap p t).ck_task_count.toNat = s.ck_task_count.toNat + 1 := by
  show (s.ck_task_count + 1).toNat = _
  rw [BitVec.toNat_add, show (1 : U32).toNat = 1 from rfl]
  omega

/-- Everything but the heap is as before. -/
structure SameTasks (s s' : Scheduler E) : Prop where
  task : s'.task = s.task
  count : s'.ck_task_count = s.ck_task_count
  switches : s'.ck_context_switches = s.ck_context_switches
  log : s'.log = s.log

/-- The table has room and the arguments pass the tests of `ck_task_create`. -/
def CanCreate (s : Scheduler E) (task : U32) (entry : Option E) (stack_size : U32) : Prop :=
  s.ck_task_count < CK_SCHEDULER_MAX_TASKS ∧ task ≠ 0#32 ∧ entry.isSome ∧ stack_size ≠ 0#32

section Create
variable {fuel : Nat} {s s' : Scheduler E} {p : U32} {e : Option E} {n : U32} {r : Int}

/-- The ways through `ck_task_create`: it fails at once, at the first request, or
at the second one, after which it frees the first; or it enters a fresh task. -/
theorem create_paths (h : ck_task_create fuel s p e n = some (s', r)) :
    (r = -1 ∧ s' = s) ∨
    (r = -1 ∧ ∃ heap, ck_malloc fuel s.heap n = some (heap, 0#32) ∧ s' = { s with heap := heap }) ∨
    (r = -1 ∧ CanCreate s p e n ∧ ∃ heap stack heap', ck_malloc fuel s.heap n = some (heap, stack) ∧ stack ≠ 0#32 ∧
      ck_malloc fuel heap 32 = some (heap', 0#32) ∧ s' = { s with heap := ck_free heap' stack }) ∨
    ∃ heap t, s.ck_task_count.toNat < 8 ∧ r = s.ck_task_count.toNat ∧ t.id = s.ck_task_count ∧ t.state = .ready ∧
      t.entry = e ∧ e.isSome ∧ t.times_run = 0 ∧ t.total_ticks = 0 ∧ s' = ck_task_enter s heap p t := by
  have failed : ∀ {u : Scheduler E}, some (u, (-1 : Int)) = some (s', r) → r = -1 ∧ s' = u := by
    intro u he
    obtain ⟨rfl, rfl⟩ := Prod.mk.inj (Option.some.inj he)
    exact ⟨rfl, rfl⟩
  unfold ck_task_create at h
  by_cases hfull : s.ck_task_count ≥ CK_SCHEDULER_MAX_TASKS
  · rw [if_pos hfull] at h
    exact .inl (failed h)
  rw [if_neg hfull] at h
  by_cases hargs : p = 0#32 ∨ e.isNone ∨ n = 0#32
  · rw [if_pos hargs] at h
    exact .inl (failed h)
  rw [if_neg hargs] at h
  have hsome : e.isSome := by
    cases e with
    | none => exact absurd (.inr (.inl rfl)) hargs
    | some _ => rfl
  have hcan : CanCreate s p e n := ⟨BitVec.not_le.1 hfull, fun h0 => hargs (.inl h0), hsome, fun h0 => hargs (.inr (.inr h0))⟩
  obtain ⟨⟨heap, stack⟩, hm, h⟩ := Option.bind_eq_some_iff.1 h
  dsimp only at h
  by_cases hstack : stack = 0#32
  · rw [if_pos hstack] at h
    obtain ⟨hr, hs⟩ := failed h
    exact .inr (.inl ⟨hr, heap, hstack ▸ hm, hs⟩)
  rw [if_neg hstack] at h
  obtain ⟨⟨heap', regs⟩, hm', h⟩ := Option.bind_eq_some_iff.1 h
  dsimp only at h
  by_cases hregs : regs = 0#32
  · rw [if_pos hregs] at h
    obtain ⟨hr, hs⟩ := failed h
    exact .inr (.inr (.inl ⟨hr, hcan, heap, stack, heap', hm, hstack, hregs ▸ hm', hs⟩))
  rw [if_neg hregs] at h
  obtain ⟨rfl, rfl⟩ := Prod.mk.inj (Option.some.inj h)
  have hlt : s.ck_task_count.toNat < 8 := Nat.lt_of_not_le fun hle => hfull (BitVec.le_def.2 hle)
  exact .inr (.inr (.inr ⟨heap', _, hlt, rfl, rfl, rfl, rfl, hsome, rfl, rfl, rfl⟩))

/-- `ck_task_create` fails and changes nothing but the heap, or enters a fresh
task. -/
theorem create_heap (h : ck_task_create fuel s p e n = some (s', r)) :
    (r = -1 ∧ ∃ heap, s' = { s with heap := heap }) ∨
    ∃ heap t, s.ck_task_count.toNat < 8 ∧ r = s.ck_task_count.toNat ∧ t.id = s.ck_task_count ∧ t.state = .ready ∧
      t.entry = e ∧ e.isSome ∧ t.times_run = 0 ∧ t.total_ticks = 0 ∧ s' = ck_task_enter s heap p t := by
  rcases create_paths h with ⟨hr, rfl⟩ | ⟨hr, heap, -, rfl⟩ | ⟨hr, -, heap, stack, heap', -, -, -, rfl⟩ | hnew
  · exact .inl ⟨hr, s'.heap, rfl⟩
  · exact .inl ⟨hr, heap, rfl⟩
  · exact .inl ⟨hr, _, rfl⟩
  · exact .inr hnew

/-- `ck_task_create` fails and leaves the tasks alone, or enters a fresh task. -/
theorem create_cases (h : ck_task_create fuel s p e n = some (s', r)) :
    (r = -1 ∧ SameTasks s s') ∨
    ∃ heap t, s.ck_task_count.toNat < 8 ∧ r = s.ck_task_count.toNat ∧ t.id = s.ck_task_count ∧ t.state = .ready ∧
      t.entry = e ∧ e.isSome ∧ t.times_run = 0 ∧ s' = ck_task_enter s heap p t := by
  rcases create_heap h with ⟨hr, heap, rfl⟩ | ⟨heap, t, hlt, hr, hid, hstate, hentry, hsome, hrun, -, hs⟩
  · exact .inl ⟨hr, rfl, rfl, rfl, rfl⟩
  · exact .inr ⟨heap, t, hlt, hr, hid, hstate, hentry, hsome, hrun, hs⟩

end Create

end Scheduler

end CheesecakeOS
