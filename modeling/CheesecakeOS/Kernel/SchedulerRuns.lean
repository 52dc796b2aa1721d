import Mathlib.Data.BitVec
import CheesecakeOS.Lib.Runs
import CheesecakeOS.Kernel.Scheduler
/-!
# Rounds of the scheduler

A history is any sequence of `ck_scheduler_init`, `ck_task_create` and
`ck_scheduler_run_tasks`, where the entries called in a round may create tasks
and yield. `round_robin`: whenever a round returns, every task ran exactly once
in it, in the order of their ids, and the counters say so.

`Accounts k busy` is what holds in the middle of a round, with the first `k`
tasks started and, if `busy`, the last of them running.
-/
open Lib

namespace CheesecakeOS.Scheduler

variable {E : Type}

/-! ## The log -/

/-- Rounds completed since task `i` was created. -/
def roundsSince (i : Nat) (log : List TaskEvent) : Nat :=
  (log.takeWhile (· ≠ .created i)).count .returned

/-- The tasks run since the last round was completed, in this order. -/
def ranNow (log : List TaskEvent) : List Nat :=
  ((log.takeWhile (· ≠ .returned)).filterMap fun
    | .ran i => some i
    | _ => none).reverse

@[simp] theorem roundsSince_created (i : Nat) (log : List TaskEvent) : roundsSince i (.created i :: log) = 0 := by
  simp [roundsSince]

theorem roundsSince_created_ne {i j : Nat} (h : i ≠ j) (log : List TaskEvent) :
    roundsSince i (.created j :: log) = roundsSince i log := by
  have hne : j ≠ i := fun e => h e.symm
  simp [roundsSince, hne]

@[simp] theorem roundsSince_ran (i j : Nat) (log : List TaskEvent) : roundsSince i (.ran j :: log) = roundsSince i log := by
  simp [roundsSince]

@[simp] theorem roundsSince_returned (i : Nat) (log : List TaskEvent) :
    roundsSince i (.returned :: log) = roundsSince i log + 1 := by
  simp [roundsSince]

@[simp] theorem ranNow_created (j : Nat) (log : List TaskEvent) : ranNow (.created j :: log) = ranNow log := by
  simp [ranNow]

@[simp] theorem ranNow_ran (j : Nat) (log : List TaskEvent) : ranNow (.ran j :: log) = ranNow log ++ [j] := by
  simp [ranNow]

@[simp] theorem ranNow_returned (log : List TaskEvent) : ranNow (.returned :: log) = [] := by
  simp [ranNow]

/-! ## Histories -/

inductive SchedulerOp (E : Type) where
  | init
  | create (task : U32) (entry : Option E) (stack_size : U32)
  | run (progs : Nat → List (TaskOp E))

/-- One call from outside; a completed round is logged. -/
def step (fuel : Nat) (s : Scheduler E) : SchedulerOp E → Option (Scheduler E)
  | .init => some (ck_scheduler_init s)
  | .create task entry stack_size => (ck_task_create fuel s task entry stack_size).map Prod.fst
  | .run progs => (ck_scheduler_run_tasks fuel progs s).map fun s => { s with log := .returned :: s.log }

/-- Zero-initialised statics. -/
def zero (heap : Heap) (structs : U32 → Task E) : Scheduler E :=
  ⟨.replicate 8 (.zero E), 0, 0, 0, ⟨none, 0⟩, heap, structs, []⟩

/-- What the counters are to say: tasks have their place as id, an entry, and
are ready; they ran in every round since they were created; and the context
switches are those of all tasks. -/
structure RoundDone (s : Scheduler E) : Prop where
  count_le : s.ck_task_count.toNat ≤ 8
  id : ∀ i, i.val < s.ck_task_count.toNat → (s.task i).id = .ofNat 32 i
  entry : ∀ i, i.val < s.ck_task_count.toNat → (s.task i).entry.isSome
  state : ∀ i, i.val < s.ck_task_count.toNat → (s.task i).state = .ready
  times_run : ∀ i, i.val < s.ck_task_count.toNat →
    (s.task i).times_run = .ofNat 32 (roundsSince i (.returned :: s.log))
  switches : s.ck_context_switches = ∑ i with i.val < s.ck_task_count.toNat, (s.task i).times_run
  order : ranNow s.log = List.range s.ck_task_count.toNat

/-! ## Within a round -/

/-- The states of a round from `s`, each with the number of turns it has had. -/
inductive InRound (fuel : Nat) (progs : Nat → List (TaskOp E)) (s : Scheduler E) : Nat → Scheduler E → Prop
  | begin : InRound fuel progs s 0 s
  | turn {k : Nat} {u u' : Scheduler E} : InRound fuel progs s k u → k < u.ck_task_count.toNat →
      ck_scheduler_run_task fuel (progs k) u (.ofNat 8 k) = some u' → InRound fuel progs s (k + 1) u'

/-- The entry of task `i`, called in state `s`, returns. -/
def EntryReturns (fuel : Nat) (prog : List (TaskOp E)) (s : Scheduler E) (i : Fin 8) : Prop :=
  ∃ s', prog.foldlM (runOp fuel) ((ck_task_begin s i).called i) = some s'

/-- In a round, with `k` tasks started: each of these has run once more than
the rounds completed say. -/
structure Accounts (k : Nat) (busy : Bool) (s : Scheduler E) : Prop where
  count_le : s.ck_task_count.toNat ≤ 8
  started : k ≤ s.ck_task_count.toNat
  id : ∀ i, i.val < s.ck_task_count.toNat → (s.task i).id = .ofNat 32 i
  entry : ∀ i, i.val < s.ck_task_count.toNat → (s.task i).entry.isSome
  state : ∀ i, i.val < s.ck_task_count.toNat →
    (s.task i).state = if busy ∧ i.val + 1 = k then .running else .ready
  times_run : ∀ i, i.val < s.ck_task_count.toNat →
    (s.task i).times_run = .ofNat 32 (roundsSince i s.log + if i.val < k then 1 else 0)
  switches : s.ck_context_switches = ∑ i with i.val < s.ck_task_count.toNat, (s.task i).times_run
  order : ranNow s.log = List.range k

section Steps
variable {fuel k : Nat} {busy : Bool} {s s' : Scheduler E}

theorem Accounts.same (h : Accounts k busy s) (hs : SameTasks s s') : Accounts k busy s' := by
  obtain ⟨htask, hcount, hsw, hlog⟩ := hs
  constructor
  · rw [hcount]; exact h.count_le
  · rw [hcount]; exact h.started
  · rw [hcount, htask]; exact h.id
  · rw [hcount, htask]; exact h.entry
  · rw [hcount, htask]; exact h.state
  · rw [hcount, htask, hlog]; exact h.times_run
  · rw [hcount, htask, hsw]; exact h.switches
  · rw [hlog]; exact h.order

/-- A change to one task that keeps its id, its entry and its count. -/
theorem Accounts.modify {busy' : Bool} (h : Accounts k busy s) (j : Fin 8) {f : Task E → Task E}
    (hid : ∀ t, (f t).id = t.id) (hentry : ∀ t, (f t).entry = t.entry) (hrun : ∀ t, (f t).times_run = t.times_run)
    (hstate : ∀ i, i.val < s.ck_task_count.toNat → (Function.update s.task j (f (s.task j)) i).state =
      if busy' ∧ i.val + 1 = k then .running else .ready) : Accounts k busy' (s.modify j f) := by
  refine ⟨h.count_le, h.started, fun i hi => ?_, fun i hi => ?_, fun i hi => ?_, fun i hi => ?_, ?_, h.order⟩
  · rw [keep_modify s j f Task.id hid]; exact h.id i hi
  · rw [keep_modify s j f Task.entry hentry]; exact h.entry i hi
  · rw [task_modify]; exact hstate i hi
  · rw [keep_modify s j f Task.times_run hrun]; exact h.times_run i hi
  · rw [switches_modify, h.switches]
    exact Finset.sum_congr rfl fun i _ => (keep_modify s j f Task.times_run hrun i).symm

theorem Accounts.yield (h : Accounts k busy s) : Accounts k busy (ck_task_yield s) := by
  unfold ck_task_yield ck_schedule
  split
  · next j _ =>
    apply h.modify j (f := fun t => { t with total_ticks := t.total_ticks + 1 }) (fun _ => rfl) (fun _ => rfl) fun _ => rfl
    intro i hi
    rw [← h.state i hi]
    by_cases hij : i = j
    · rw [hij, Function.update_self]
    · rw [Function.update_of_ne hij]
  · exact h

/-- A task entered behind the others has not run, and no round was completed
since. -/
theorem Accounts.enter (h : Accounts k busy s) {heap : Heap} {p : U32} {t : Task E} (hlt : s.ck_task_count.toNat < 8)
    (hid : t.id = s.ck_task_count) (hstate : t.state = .ready) (hentry : t.entry.isSome) (hrun : t.times_run = 0) :
    Accounts k busy (ck_task_enter s heap p t) := by
  have htask := task_enter s heap p t hlt
  have hcount := count_enter s heap p t hlt
  have hlog : (ck_task_enter s heap p t).log = .created s.ck_task_count.toNat :: s.log := rfl
  have hstarted := h.started
  -- A task of the longer table is the new one or one of before.
  have split : ∀ {P : Fin 8 → Task E → Prop}, P ⟨s.ck_task_count.toNat, hlt⟩ t →
      (∀ i, i.val < s.ck_task_count.toNat → P i (s.task i)) →
      ∀ i, i.val < s.ck_task_count.toNat + 1 → P i ((ck_task_enter s heap p t).task i) := by
    intro P hnew hrest i hi
    rw [htask]
    by_cases he : i = ⟨s.ck_task_count.toNat, hlt⟩
    · rw [he, Function.update_self]
      exact hnew
    · have hne : i.val ≠ s.ck_task_count.toNat := fun e => he (Fin.ext e)
      rw [Function.update_of_ne he]
      exact hrest i (by omega)
  constructor
  · rw [hcount]; omega
  · rw [hcount]; omega
  · rw [hcount]
    apply split (P := fun i t => t.id = .ofNat 32 i)
    · rw [hid]
      exact BitVec.eq_of_toNat_eq (by simp)
    · exact h.id
  · rw [hcount]
    exact split (P := fun _ t => t.entry.isSome) hentry h.entry
  · rw [hcount]
    apply split (P := fun i t => t.state = if busy ∧ i.val + 1 = k then .running else .ready)
    · rw [if_neg (by simp only; omega)]
      exact hstate
    · exact h.state
  · rw [hcount, hlog]
    apply split (P := fun i u => u.times_run = .ofNat 32
      (roundsSince i (.created s.ck_task_count.toNat :: s.log) + if i.val < k then 1 else 0))
    · rw [hrun, roundsSince_created, if_neg (by simp only; omega)]
      rfl
    · intro i hi
      rw [roundsSince_created_ne (by omega)]
      exact h.times_run i hi
  · rw [show (ck_task_enter s heap p t).ck_context_switches = s.ck_context_switches from rfl,
      h.switches, hcount, Finset.sum_filter, Finset.sum_filter]
    apply Finset.sum_congr rfl
    intro i _
    rw [htask]
    by_cases he : i = ⟨s.ck_task_count.toNat, hlt⟩
    · rw [he, Function.update_self, if_neg (Nat.lt_irrefl _), if_pos (Nat.lt_succ_self _), hrun]
    · have hne : i.val ≠ s.ck_task_count.toNat := fun e => he (Fin.ext e)
      have hiff : i.val < s.ck_task_count.toNat + 1 ↔ i.val < s.ck_task_count.toNat := by omega
      rw [Function.update_of_ne he]
      simp only [hiff]
  · rw [hlog, ranNow_created]
    exact h.order

theorem Accounts.create (h : Accounts k busy s) {p : U32} {e : Option E} {n : U32}
    (hs : (ck_task_create fuel s p e n).map Prod.fst = some s') : Accounts k busy s' := by
  obtain ⟨⟨u, r⟩, hc, rfl⟩ := Option.map_eq_some_iff.1 hs
  rcases create_cases hc with ⟨-, hsame⟩ | ⟨heap, t, hlt, -, hid, hstate, hentry, hsome, hrun, rfl⟩
  · exact h.same hsame
  · exact h.enter hlt hid hstate (hentry ▸ hsome) hrun

theorem Accounts.op (h : Accounts k busy s) (op : TaskOp E) (hs : runOp fuel s op = some s') : Accounts k busy s' := by
  cases op with
  | create p e n => exact h.create hs
  | yield =>
    rw [← Option.some.inj hs]
    exact h.yield

/-- Task `k` is marked and counted, and its entry called. -/
theorem Accounts.begin (h : Accounts k false s) (j : Fin 8) (hj : j.val = k) (hk : k < s.ck_task_count.toNat) :
    Accounts (k + 1) true ((ck_task_begin s j).called j) := by
  have htask : ((ck_task_begin s j).called j).task = Function.update s.task j (s.task j).begun :=
    task_modify s j Task.begun
  refine ⟨h.count_le, hk, fun i hi => ?_, fun i hi => ?_, fun i hi => ?_, fun i hi => ?_, ?_, ?_⟩
  · rw [keep_called s j Task.id fun _ => rfl]; exact h.id i hi
  · rw [keep_called s j Task.entry fun _ => rfl]; exact h.entry i hi
  · rw [htask]
    by_cases hij : i = j
    · rw [hij, Function.update_self, if_pos ⟨rfl, by omega⟩]
      rfl
    · have hne : i.val ≠ j.val := fun e => hij (Fin.ext e)
      rw [Function.update_of_ne hij, h.state i hi, if_neg (by simp), if_neg (by omega)]
  · rw [htask, show ((ck_task_begin s j).called j).log = .ran j :: s.log from rfl, roundsSince_ran]
    by_cases hij : i = j
    · rw [hij, Function.update_self]
      show (s.task j).times_run + 1 = _
      rw [h.times_run j (by omega), if_neg (by omega), if_pos (by omega)]
      exact (BitVec.ofNat_add _ 1).symm
    · have hne : i.val ≠ j.val := fun e => hij (Fin.ext e)
      have hiff : i.val < k + 1 ↔ i.val < k := by omega
      rw [Function.update_of_ne hij, h.times_run i hi]
      simp only [hiff]
  · have hmem : j ∈ Finset.univ.filter fun i : Fin 8 => i.val < s.ck_task_count.toNat := by
      rw [Finset.mem_filter]
      exact ⟨Finset.mem_univ j, by omega⟩
    have hrest : ∀ i ∈ (Finset.univ.filter fun i : Fin 8 => i.val < s.ck_task_count.toNat).erase j,
        (Function.update s.task j (s.task j).begun i).times_run = (s.task i).times_run := by
      intro i hi
      rw [Function.update_of_ne (Finset.ne_of_mem_erase hi)]
    have hold := h.switches
    rw [← Finset.add_sum_erase _ _ hmem] at hold
    rw [htask]
    show s.ck_context_switches + 1 = ∑ i : Fin 8 with i.val < s.ck_task_count.toNat, _
    rw [← Finset.add_sum_erase _ _ hmem, Finset.sum_congr rfl hrest, Function.update_self, hold]
    show _ = (s.task j).times_run + 1 + _
    grind
  · show ranNow (.ran j :: s.log) = _
    rw [ranNow_ran, h.order, List.range_succ, hj]

/-- One turn of the loop. -/
theorem Accounts.turn (h : Accounts k false s) {prog : List (TaskOp E)} (hk : k < s.ck_task_count.toNat)
    (hs : ck_scheduler_run_task fuel prog s (.ofNat 8 k) = some s') : Accounts (k + 1) false s' := by
  have hcount := h.count_le
  have hj : (Fin.ofNat 8 k).val = k := Nat.mod_eq_of_lt (by omega)
  generalize Fin.ofNat 8 k = j at hj hs
  have hready : (s.task j).state = .ready := by
    have hst := h.state j (by omega)
    rwa [if_neg (by simp)] at hst
  have hbegin := h.begin j hj hk
  have hentry : ((ck_task_begin s j).task j).entry.isSome := hbegin.entry j (hj.symm ▸ hk)
  unfold ck_scheduler_run_task at hs
  dsimp only at hs
  rw [if_pos (.inl hready), if_pos hentry] at hs
  obtain ⟨u, hu, hs⟩ := Option.bind_eq_some_iff.1 hs
  have hdone := foldlM_inv (Accounts (k + 1) true) (fun _ op _ h => h.op op) prog _ u hbegin hu
  rw [← Option.some.inj hs]
  apply hdone.modify j (f := fun t => { t with state := .ready }) (fun _ => rfl) (fun _ => rfl) fun _ => rfl
  intro i hi
  by_cases hij : i = j
  · rw [hij, Function.update_self, if_neg (by simp)]
  · have hne : i.val ≠ j.val := fun e => hij (Fin.ext e)
    rw [Function.update_of_ne hij, hdone.state i hi, if_neg (by omega), if_neg (by simp)]

/-- The loop runs until every task has been started. -/
theorem Accounts.loop {progs : Nat → List (TaskOp E)} (n : Nat) : ∀ {k : Nat} {s : Scheduler E}, Accounts k false s →
    ck_scheduler_run_from fuel progs n k s = some s' → Accounts s'.ck_task_count.toNat false s' := by
  have finish : ∀ {k : Nat} {s : Scheduler E}, Accounts k false s → ¬ k < s.ck_task_count.toNat → some s = some s' →
      Accounts s'.ck_task_count.toNat false s' := by
    intro k s h hk he
    obtain rfl := Option.some.inj he
    have hstarted := h.started
    rwa [show k = s.ck_task_count.toNat by omega] at h
  induction n with
  | zero =>
    intro k s h hs
    unfold ck_scheduler_run_from at hs
    split at hs
    · cases hs
    · next hk => exact finish h hk hs
  | succ n ih =>
    intro k s h hs
    unfold ck_scheduler_run_from at hs
    split at hs
    · next hk =>
      obtain ⟨u, hu, hs⟩ := Option.bind_eq_some_iff.1 hs
      exact ih (h.turn hk hu) hs
    · next hk => exact finish h hk hs

theorem Accounts.round (h : Accounts 0 false s) {progs : Nat → List (TaskOp E)}
    (hs : ck_scheduler_run_tasks fuel progs s = some s') : Accounts s'.ck_task_count.toNat false s' := by
  unfold ck_scheduler_run_tasks at hs
  split at hs
  · next h0 =>
    obtain rfl := Option.some.inj hs
    rw [h0]
    exact h
  · exact h.loop 8 hs

theorem EntryReturns.run_task {prog : List (TaskOp E)} {j : Fin 8} (h : EntryReturns fuel prog s j) :
    ∃ s', ck_scheduler_run_task fuel prog s j = some s' := by
  unfold ck_scheduler_run_task
  split
  · dsimp only
    split
    · obtain ⟨u, hu⟩ := h
      rw [hu]
      exact ⟨_, rfl⟩
    · exact ⟨_, rfl⟩
  · exact ⟨_, rfl⟩

/-- The loop does not run over the end of the table: it comes to an end if the entries it calls do. -/
theorem Accounts.returns {progs : Nat → List (TaskOp E)} {s₀ : Scheduler E}
    (hp : ∀ k u, InRound fuel progs s₀ k u → k < u.ck_task_count.toNat → EntryReturns fuel (progs k) u (.ofNat 8 k))
    (n : Nat) : ∀ {k : Nat} {s : Scheduler E}, InRound fuel progs s₀ k s → Accounts k false s → k + n = 8 →
      ∃ s', ck_scheduler_run_from fuel progs n k s = some s' := by
  induction n with
  | zero =>
    intro k s _ h hk
    have hcount := h.count_le
    exact ⟨s, if_neg (by omega)⟩
  | succ n ih =>
    intro k s hround h hk
    unfold ck_scheduler_run_from
    split
    · next hlt =>
      obtain ⟨u, hu⟩ := (hp k s hround hlt).run_task
      rw [hu]
      exact ih (hround.turn hlt hu) (h.turn hlt hu) (by omega)
    · exact ⟨s, rfl⟩

theorem Accounts.done (h : Accounts s.ck_task_count.toNat false s) : RoundDone s := by
  refine ⟨h.count_le, h.id, h.entry, fun i hi => ?_, fun i hi => ?_, h.switches, h.order⟩
  · rw [h.state i hi, if_neg (by simp)]
  · rw [h.times_run i hi, if_pos hi, roundsSince_returned]

/-- The completed round counts for every task; the next one begins. -/
theorem RoundDone.next (h : RoundDone s) : Accounts 0 false { s with log := .returned :: s.log } := by
  refine ⟨h.count_le, Nat.zero_le _, h.id, h.entry, fun i hi => ?_, fun i hi => ?_, h.switches, ranNow_returned _⟩
  · rw [if_neg (by simp)]
    exact h.state i hi
  · rw [if_neg (Nat.not_lt_zero _)]
    exact h.times_run i hi

end Steps

/-! ## Runs -/

theorem accounts_empty {s : Scheduler E} (hc : s.ck_task_count = 0) (hs : s.ck_context_switches = 0)
    (ho : ranNow s.log = []) : Accounts 0 false s := by
  have hnone : ∀ i : Fin 8, ¬ i.val < s.ck_task_count.toNat := by
    intro i
    rw [hc]
    exact Nat.not_lt_zero _
  refine ⟨by rw [hc]; decide, Nat.zero_le _, fun i hi => absurd hi (hnone i), fun i hi => absurd hi (hnone i),
    fun i hi => absurd hi (hnone i), fun i hi => absurd hi (hnone i), ?_, ho⟩
  rw [hs, Finset.filter_false_of_mem fun i _ => hnone i]
  rfl

theorem accounts_step {fuel : Nat} (s : Scheduler E) (op : SchedulerOp E) (s' : Scheduler E) (h : Accounts 0 false s)
    (hs : step fuel s op = some s') : Accounts 0 false s' := by
  cases op with
  | init =>
    rw [← Option.some.inj hs]
    exact accounts_empty rfl rfl h.order
  | create p e n => exact h.create hs
  | run progs =>
    obtain ⟨u, hu, rfl⟩ := Option.map_eq_some_iff.1 hs
    exact (h.round hu).done.next

/-- Whatever the history, and whatever the entries do: a round returns if the
entries called in it do, and then every task ran once in it, in the order of the
ids, and the counters are those of the rounds completed. The structures that
callers pass to `ck_task_create` lie outside of `ck_task_table`. -/
theorem round_robin (fuel : Nat) (heap : Heap) (structs : U32 → Task E) (ops : List (SchedulerOp E))
    (s : Scheduler E) (h : ops.foldlM (step fuel) (zero heap structs) = some s) (progs : Nat → List (TaskOp E)) :
    (∀ s', ck_scheduler_run_tasks fuel progs s = some s' → RoundDone s') ∧
      ((∀ k u, InRound fuel progs s k u → k < u.ck_task_count.toNat → EntryReturns fuel (progs k) u (.ofNat 8 k)) →
        ∃ s', ck_scheduler_run_tasks fuel progs s = some s') := by
  have hinv := foldlM_inv (Accounts 0 false) accounts_step ops _ s (accounts_empty rfl rfl rfl) h
  refine ⟨fun s' hs => (hinv.round hs).done, fun hp => ?_⟩
  unfold ck_scheduler_run_tasks
  split
  · exact ⟨s, rfl⟩
  · exact Accounts.returns hp 8 .begin hinv rfl

/-- A heap of one free page. -/
def pageHeap : Heap := ⟨set_size (fun _ => 0) 0x180000 4096, 0x180000, 4096, 0, 0, .zero⟩

/-- A task that creates another one, which then runs in the same round. -/
theorem round_robin_two :
    let ops : List (SchedulerOp Unit) := [.create 0x9000 (some ()) 100]
    let progs : Nat → List (TaskOp Unit) := fun i => if i = 0 then [.create 0x9100 (some ()) 100, .yield] else [.yield]
    ∃ s s', ops.foldlM (step 8) (zero pageHeap fun _ => .zero Unit) = some s ∧
      ck_scheduler_run_tasks 8 progs s = some s' ∧ s'.ck_task_count = 2 ∧ RoundDone s' := by
  intro ops progs
  have hrun : ((ops.foldlM (step 8) (zero pageHeap fun _ => .zero Unit)).bind fun s =>
      (progs 0).foldlM (runOp 8) ((ck_task_begin s 0).called 0)).isSome = true := by
    decide +kernel
  have hcount : ((ops.foldlM (step 8) (zero pageHeap fun _ => .zero Unit)).bind (ck_scheduler_run_tasks 8 progs)).all
      (·.ck_task_count == 2) = true := by
    decide +kernel
  obtain ⟨u, hu⟩ := Option.isSome_iff_exists.1 hrun
  obtain ⟨s, hs, hfirst⟩ := Option.bind_eq_some_iff.1 hu
  obtain ⟨hdone, hreturns⟩ := round_robin 8 _ _ ops s hs progs
  have hentries : ∀ k v, InRound 8 progs s k v → k < v.ck_task_count.toNat → EntryReturns 8 (progs k) v (.ofNat 8 k) := by
    rintro k v (- | ⟨-, -, -⟩) -
    · exact ⟨u, hfirst⟩
    · exact ⟨_, rfl⟩
  obtain ⟨s', hround⟩ := hreturns hentries
  rw [hs, Option.bind_some, hround] at hcount
  exact ⟨s, s', hs, hround, by simpa using hcount, hdone s' hround⟩

end CheesecakeOS.Scheduler
