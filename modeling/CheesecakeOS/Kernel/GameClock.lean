import CheesecakeOS.Kernel.Boot
import CheesecakeOS.Kernel.Bounce
/-!
# The game clock

`ck_scheduler_run_tasks` with the demo tasks, whose calls now change the game:
the scheduler's loop of `Scheduler` with the state of `Tasks` passed from call to
call. `ck_game.frame` is an `int`. The shell runs a round in every turn of its
loop, so the clock runs from boot on, and only the task monitor sets it back.

`clock_in_range_iff`: the run has a meaning in C exactly when the monitor is
opened often enough.
-/
open Lib

namespace CheesecakeOS.Game

open Heap (boot)
open Scheduler (task_modify keep_modify keep_called keep_yield)

abbrev INT_MIN : Int := -2147483648
abbrev INT_MAX : Int := 2147483647

/-- The scheduler and the statics of its tasks. -/
structure System where
  scheduler : Scheduler Demo
  tasks : Tasks

/-! ## Rounds that run the tasks -/

/-- `ck_game.frame++` stays an `int`. -/
def State.Counts (g : State) : Prop := INT_MIN ≤ g.frame + 1 ∧ g.frame + 1 ≤ INT_MAX

instance decidableCounts (g : State) : Decidable g.Counts := inferInstanceAs (Decidable (_ ∧ _))

/-- The call of an entry; `none` if the increment overflows, which has no meaning in C. -/
def Demo.run (t : Tasks) (d : Demo) : Option (Tasks × List (TaskOp Demo)) :=
  if d = .demo_1 ∧ ¬ t.ck_game.Counts then none else some (d.call t)

/-- What a turn of the scheduler's loop calls. -/
def entryCalled (s : Scheduler Demo) (i : Fin 8) : Option Demo :=
  if (s.task i).state = .ready ∨ (s.task i).state = .running then (s.task i).entry else none

namespace System

def call_entry (σ : System) (i : Fin 8) : Option (Tasks × List (TaskOp Demo)) :=
  match entryCalled σ.scheduler i with
  | some d => d.run σ.tasks
  | none => some (σ.tasks, [])

/-- `ck_scheduler_run_task` with what the entry does to the game. -/
def run_task (fuel : Nat) (σ : System) (i : Fin 8) : Option System := do
  let (tasks, prog) ← σ.call_entry i
  let scheduler ← ck_scheduler_run_task fuel prog σ.scheduler i
  some ⟨scheduler, tasks⟩

def run_from (fuel : Nat) : Nat → Nat → System → Option System
  | 0, i, σ => if i < σ.scheduler.ck_task_count.toNat then none else some σ
  | n + 1, i, σ =>
    if i < σ.scheduler.ck_task_count.toNat then (σ.run_task fuel (.ofNat 8 i)).bind (run_from fuel n (i + 1)) else some σ

def run_tasks (fuel : Nat) (σ : System) : Option System :=
  if σ.scheduler.ck_task_count = 0 then some σ else run_from fuel 8 0 σ

end System

/-- What happens in the loops of the shell and of the task monitor. -/
inductive LoopOp where
  | round
  | open_monitor
  | key (c : U8)

def System.step (fuel : Nat) (σ : System) : LoopOp → Option System
  | .round => σ.run_tasks fuel
  | .open_monitor => some { σ with tasks := ck_game_init σ.tasks }
  | .key c => some { σ with tasks := ck_game_on_key σ.tasks c }

/-- Rounds since the monitor was opened, one operation later. -/
def age (n : Nat) : LoopOp → Nat
  | .round => n + 1
  | .open_monitor => 0
  | .key _ => n

/-- Rounds since the monitor was last opened, or since boot. -/
def roundsSinceInit (ops : List LoopOp) : Nat := ops.foldl age 0

/-! ## The scheduler's part -/

section Refines
variable {fuel : Nat}

theorem run_from_congr {progs progs' : Nat → List (TaskOp Demo)} (n : Nat) : ∀ {i : Nat} {s : Scheduler Demo},
    (∀ j, i ≤ j → progs j = progs' j) →
      ck_scheduler_run_from fuel progs n i s = ck_scheduler_run_from fuel progs' n i s := by
  induction n with
  | zero => intro i s _; rfl
  | succ n ih =>
    intro i s h
    unfold ck_scheduler_run_from
    rw [h i (Nat.le_refl i)]
    congr 2
    funext u
    exact ih fun j hj => h j (by omega)

/-- What the tasks do is one of the ways that entries may behave. -/
theorem run_from_refines (n : Nat) : ∀ {i : Nat} {σ σ' : System}, σ.run_from fuel n i = some σ' →
    ∃ progs, ck_scheduler_run_from fuel progs n i σ.scheduler = some σ'.scheduler := by
  induction n with
  | zero =>
    intro i σ σ' h
    unfold System.run_from at h
    split at h
    · cases h
    · next hi =>
      cases h
      exact ⟨fun _ => [], if_neg hi⟩
  | succ n ih =>
    intro i σ σ' h
    unfold System.run_from at h
    split at h
    · next hi =>
      obtain ⟨u, hu, h⟩ := Option.bind_eq_some_iff.1 h
      obtain ⟨⟨tasks, prog⟩, -, hu⟩ := Option.bind_eq_some_iff.1 hu
      obtain ⟨s, hs, hu⟩ := Option.bind_eq_some_iff.1 hu
      cases hu
      obtain ⟨progs, hp⟩ := ih h
      refine ⟨Function.update progs i prog, ?_⟩
      unfold ck_scheduler_run_from
      rw [if_pos hi, Function.update_self, hs, Option.bind_some, ← hp]
      exact run_from_congr n fun j hj => Function.update_of_ne (by omega) _ _
    · next hi =>
      cases h
      exact ⟨fun _ => [], if_neg hi⟩

theorem run_tasks_refines {σ σ' : System} (h : σ.run_tasks fuel = some σ') :
    ∃ progs, ck_scheduler_run_tasks fuel progs σ.scheduler = some σ'.scheduler := by
  unfold System.run_tasks at h
  unfold ck_scheduler_run_tasks
  split at h
  · next h0 =>
    cases h
    exact ⟨fun _ => [], if_pos h0⟩
  · next h0 =>
    obtain ⟨progs, hp⟩ := run_from_refines 8 h
    exact ⟨progs, (if_neg h0).trans hp⟩

end Refines

/-! ## One round -/

theorem call_yields (t : Tasks) (d : Demo) : (d.call t).2 = [] ∨ (d.call t).2 = [.yield] := by
  have hcount : ∀ (t : Tasks) i w every, (t.count i w every).2 = [] ∨ (t.count i w every).2 = [.yield] := by
    intro t i w every
    unfold Tasks.count
    dsimp only
    split
    · exact .inr rfl
    · exact .inl rfl
  cases d <;> exact hcount _ _ _ _

section Turn
variable (fuel : Nat) {E : Type} {s : Scheduler E} {i : Fin 8}

/-- The entry and the state of a task are as before. -/
def SameEntries (s s' : Scheduler E) : Prop :=
  s'.ck_task_count = s.ck_task_count ∧ ∀ j, (s'.task j).entry = (s.task j).entry ∧ (s'.task j).state = (s.task j).state

/-- A task that only yields leaves the scheduler with the same tasks, ready as before. -/
theorem run_task_yields {prog : List (TaskOp E)} (hp : prog = [] ∨ prog = [.yield]) (hs : (s.task i).state = .ready)
    (he : (s.task i).entry.isSome) :
    ∃ s', ck_scheduler_run_task fuel prog s i = some s' ∧ SameEntries s s' := by
  have hentry : ((ck_task_begin s i).task i).entry.isSome := by
    rw [show ((ck_task_begin s i).task i).entry = _ from keep_called s i Task.entry (fun _ => rfl) i]
    exact he
  -- When the entry has returned, the tasks have their entries, and all but task `i` their states.
  have hprog : ∃ u, prog.foldlM (runOp fuel) ((ck_task_begin s i).called i) = some u ∧
      u.ck_task_count = s.ck_task_count ∧ (∀ j, (u.task j).entry = (s.task j).entry) ∧
      ∀ j, j ≠ i → (u.task j).state = (s.task j).state := by
    have hstate : ∀ j, j ≠ i → (((ck_task_begin s i).called i).task j).state = (s.task j).state := fun j hj => by
      show ((s.modify i Task.begun).task j).state = _
      rw [task_modify, Function.update_of_ne hj]
    rcases hp with rfl | rfl
    · exact ⟨_, rfl, rfl, keep_called s i Task.entry fun _ => rfl, hstate⟩
    · refine ⟨ck_task_yield ((ck_task_begin s i).called i), rfl, rfl, fun j => ?_, fun j hj => ?_⟩
      · rw [keep_yield _ Task.entry fun _ _ => rfl, keep_called s i Task.entry fun _ => rfl]
      · rw [keep_yield _ Task.state fun _ _ => rfl]
        exact hstate j hj
  obtain ⟨u, hu, hcount, hsame, hother⟩ := hprog
  refine ⟨u.modify i fun t => { t with state := .ready }, ?_, hcount, fun j => ⟨?_, ?_⟩⟩
  · unfold ck_scheduler_run_task
    dsimp only
    rw [if_pos (.inl hs), if_pos hentry, hu]
    rfl
  · refine (keep_modify u i _ Task.entry ?_ j).trans (hsame j)
    exact fun _ => rfl
  · rw [task_modify]
    by_cases hj : j = i
    · rw [hj, Function.update_self]
      exact hs.symm
    · rw [Function.update_of_ne hj]
      exact hother j hj

end Turn

section Round
variable (fuel : Nat) {s : Scheduler Demo} {t : Tasks} {d : Demo}

theorem Tabled.same {k : Nat} {s' : Scheduler Demo} (h : Tabled k s) (hs : SameEntries s s') : Tabled k s' := by
  refine ⟨by rw [hs.1]; exact h.count, fun d hd => ?_⟩
  rw [(hs.2 d.index).1, (hs.2 d.index).2]
  exact h.task d hd

theorem index_lt (d : Demo) : d.index.val < 3 := by cases d <;> decide

theorem Tabled.call_entry (h : Tabled 3 s) (t : Tasks) (d : Demo) : System.call_entry ⟨s, t⟩ d.index = d.run t := by
  obtain ⟨he, hs⟩ := h.task d (index_lt d)
  unfold System.call_entry entryCalled
  rw [if_pos (.inl hs), he]

/-- The turn of a task that the clock lets run. -/
theorem Tabled.turn (h : Tabled 3 s) (hd : d.run t = some (d.call t)) :
    ∃ s', System.run_task fuel ⟨s, t⟩ d.index = some ⟨s', (d.call t).1⟩ ∧ Tabled 3 s' := by
  obtain ⟨he, hs⟩ := h.task d (index_lt d)
  obtain ⟨s', hrun, hsame⟩ := run_task_yields fuel (call_yields t d) hs (by rw [he]; rfl)
  refine ⟨s', ?_, h.same hsame⟩
  unfold System.run_task
  rw [h.call_entry, hd]
  show (ck_scheduler_run_task fuel (d.call t).2 s d.index).bind _ = _
  rw [hrun]
  rfl

theorem Tabled.run_from (h : Tabled 3 s) (n : Nat) {r : Option System} (hr : System.run_task fuel ⟨s, t⟩ d.index = r) :
    System.run_from fuel (n + 1) d.index ⟨s, t⟩ = r.bind (System.run_from fuel n (d.index + 1)) := by
  have hlt : d.index.val < s.ck_task_count.toNat := by
    rw [h.count]
    exact index_lt d
  have hidx : Fin.ofNat 8 d.index.val = d.index := Fin.ofNat_val_eq_self d.index
  rw [System.run_from, if_pos hlt, hidx, hr]

theorem Tabled.run_tasks (h : Tabled 3 s) : System.run_tasks fuel ⟨s, t⟩ = System.run_from fuel 8 0 ⟨s, t⟩ := by
  refine if_neg fun h0 => ?_
  have hcount := h.count
  rw [show s.ck_task_count = 0 from h0] at hcount
  cases hcount

/-- Nothing typed. -/
def quiet : Round := ⟨[], [], []⟩

/-- A round of the scheduler is a round of the game, if the clock can be moved on. -/
theorem Tabled.round (h : Tabled 3 s) (hc : t.ck_game.Counts) :
    ∃ s', System.run_tasks fuel ⟨s, t⟩ = some ⟨s', quiet.after t⟩ ∧ Tabled 3 s' := by
  have hrun : ∀ (t : Tasks) (d : Demo), (d = .demo_1 → t.ck_game.Counts) → d.run t = some (d.call t) := by
    intro t d hd
    exact if_neg fun hbad => hbad.2 (hd hbad.1)
  obtain ⟨s₁, h₁, ht₁⟩ := h.turn fuel (hrun t .demo_1 fun _ => hc)
  obtain ⟨s₂, h₂, ht₂⟩ := ht₁.turn fuel (hrun (ck_task_demo_1 t).1 .demo_2 fun hd => by cases hd)
  obtain ⟨s₃, h₃, ht₃⟩ := ht₂.turn fuel (hrun (ck_task_demo_2 (ck_task_demo_1 t).1).1 .demo_3 fun hd => by
    cases hd)
  have hstop : System.run_from fuel 5 3 ⟨s₃, quiet.after t⟩ = some ⟨s₃, quiet.after t⟩ := by
    refine if_neg ?_
    rw [show s₃.ck_task_count.toNat = 3 from ht₃.count]
    exact Nat.lt_irrefl 3
  refine ⟨s₃, ?_, ht₃⟩
  calc System.run_tasks fuel ⟨s, t⟩ = System.run_from fuel 8 0 ⟨s, t⟩ := h.run_tasks fuel
    _ = System.run_from fuel 7 1 ⟨s₁, _⟩ := h.run_from fuel 7 h₁
    _ = System.run_from fuel 6 2 ⟨s₂, _⟩ := ht₁.run_from fuel 6 h₂
    _ = System.run_from fuel 5 3 ⟨s₃, quiet.after t⟩ := ht₂.run_from fuel 5 h₃
    _ = some ⟨s₃, quiet.after t⟩ := hstop

/-- Else the first task has no meaning. -/
theorem Tabled.no_round (h : Tabled 3 s) (hc : ¬ t.ck_game.Counts) : System.run_tasks fuel ⟨s, t⟩ = none := by
  have hrun : System.run_task fuel ⟨s, t⟩ Demo.demo_1.index = none := by
    unfold System.run_task
    rw [h.call_entry, Demo.run, if_pos ⟨rfl, hc⟩]
    rfl
  exact (h.run_tasks fuel).trans (h.run_from fuel (d := .demo_1) 7 hrun)

end Round

theorem demo_1_frame (t : Tasks) : (ck_task_demo_1 t).1.ck_game.frame = t.ck_game.frame + 1 := by
  obtain ⟨hf, -⟩ := t.ck_game.advance_spec
  obtain ⟨-, -, -, -, -, -, -, hwf, -⟩ := t.ck_game.advance.walls_spec
  obtain ⟨-, -, -, -, -, -, hcf⟩ := t.ck_game.advance.walls.1.ceiling_spec
  have hat : t.ck_game.atBottom.1.frame = t.ck_game.frame + 1 := hcf.trans (hwf.trans hf)
  have hgame : (ck_task_demo_1 t).1.ck_game = t.ck_game.atBottom.1.bottom.1 := rfl
  rw [hgame]
  rcases t.ck_game.atBottom.1.bottom_cases with ⟨-, he⟩ | ⟨-, -, he⟩ | ⟨-, -, he⟩
  all_goals
    rw [he]
    exact hat

theorem round_frame (t : Tasks) : (quiet.after t).ck_game.frame = t.ck_game.frame + 1 := by
  have hpaddle : (ck_task_demo_2 (ck_task_demo_1 t).1).1.ck_game.frame = (ck_task_demo_1 t).1.ck_game.frame := by
    obtain ⟨-, -, hsame, -⟩ := State.paddle_spec (ck_task_demo_1 t).1.ck_game (ck_task_demo_1 t).1.ck_game_input_dir
    have hframe := congrArg State.frame hsame
    exact hframe
  calc (quiet.after t).ck_game.frame = (ck_task_demo_2 (ck_task_demo_1 t).1).1.ck_game.frame := rfl
    _ = (ck_task_demo_1 t).1.ck_game.frame := hpaddle
    _ = t.ck_game.frame + 1 := demo_1_frame t

/-! ## Whole runs -/

/-- The tasks are in the table and the clock shows `n`. -/
def Clocked (n : Nat) (σ : System) : Prop := Tabled 3 σ.scheduler ∧ σ.tasks.ck_game.frame = n

theorem Clocked.counts_iff {n : Nat} {σ : System} (h : Clocked n σ) : σ.tasks.ck_game.Counts ↔ n + 1 ≤ 2147483647 := by
  simp only [State.Counts, INT_MIN, INT_MAX, h.2]
  omega

theorem Clocked.step (fuel : Nat) {n : Nat} {σ : System} (h : Clocked n σ) (op : LoopOp) (hop : age n op ≤ 2147483647) :
    ∃ σ', σ.step fuel op = some σ' ∧ Clocked (age n op) σ' := by
  obtain ⟨htab, hframe⟩ := h
  cases op with
  | round =>
    obtain ⟨s', hs, htab'⟩ := htab.round fuel ((Clocked.counts_iff ⟨htab, hframe⟩).2 hop)
    refine ⟨_, hs, htab', ?_⟩
    rw [round_frame, hframe]
    rfl
  | open_monitor => exact ⟨_, rfl, htab, rfl⟩
  | key c =>
    refine ⟨_, rfl, htab, ?_⟩
    rw [(on_key_spec σ.tasks c).1]
    exact hframe

theorem Clocked.overflow (fuel : Nat) {n : Nat} {σ : System} (h : Clocked n σ) (hn : n ≤ 2147483647) (op : LoopOp)
    (hop : ¬ age n op ≤ 2147483647) : σ.step fuel op = none := by
  cases op with
  | round => exact h.1.no_round fuel fun hc => hop (h.counts_iff.1 hc)
  | open_monitor => exact absurd (Nat.zero_le _) hop
  | key c => exact absurd hn hop

/-- From the state that `ck_main` leaves to the shell. -/
theorem run_defined_iff {s : Scheduler Demo} (h : Tabled 3 s) (fuel : Nat) (ops : List LoopOp) :
    (ops.foldlM (System.step fuel) ⟨s, .zero⟩).isSome ↔ ∀ pre, pre <+: ops → roundsSinceInit pre ≤ 2147483647 :=
  foldlM_isSome_iff (· ≤ 2147483647) Clocked (fun _ _ op h => h.step fuel op)
    (fun _ _ op h hn => h.overflow fuel hn op) ops 0 ⟨s, .zero⟩ ⟨h, rfl⟩ (Nat.zero_le _)

/-- The kernel gets to the shell with its three tasks, and from there every run of
the loop is defined, `ck_game.frame++` included, exactly when it has no more than
2147483647 rounds from boot, or from an opening of the monitor, to the next one. -/
theorem clock_in_range_iff (l : Locals) (structs : U32 → Task Demo) :
    ∃ fuel s, ck_main_tasks fuel l (Scheduler.zero (ck_heap_init boot) structs) = some s ∧ ∀ fuel' ops,
      (ops.foldlM (System.step fuel') ⟨s, .zero⟩).isSome ↔ ∀ pre, pre <+: ops → roundsSinceInit pre ≤ 2147483647 := by
  obtain ⟨fuel, s, hs, htab⟩ := tasks_created l structs
  exact ⟨fuel, s, hs fuel (Nat.le_refl _), run_defined_iff htab⟩

theorem rounds_replicate (n : Nat) : ∀ k, (List.replicate n LoopOp.round).foldl age k = k + n := by
  induction n with
  | zero => intro k; rfl
  | succ n ih =>
    intro k
    rw [List.replicate_succ, List.foldl_cons, ih]
    show k + 1 + n = k + (n + 1)
    omega

/-- A shell left alone: after 2³¹ - 1 turns of its loop the clock is at its limit. -/
theorem clock_overflows : ∃ fuel s σ, ck_main_tasks fuel ⟨0x7000, 0x7100, 0x7200, by decide⟩
      (Scheduler.zero (ck_heap_init boot) fun _ => .zero Demo) = some s ∧
    (List.replicate 2147483647 LoopOp.round).foldlM (System.step fuel) ⟨s, .zero⟩ = some σ ∧
    σ.tasks.ck_game.frame = INT_MAX ∧ σ.step fuel .round = none := by
  obtain ⟨fuel, s, hs, htab⟩ := tasks_created ⟨0x7000, 0x7100, 0x7200, by decide⟩ fun _ => .zero Demo
  have hbelow : ∀ pre, pre <+: List.replicate 2147483647 LoopOp.round → pre.foldl age 0 ≤ 2147483647 := by
    intro pre hp
    obtain ⟨hlen, hpre⟩ := List.prefix_replicate_iff.1 hp
    rw [hpre, rounds_replicate]
    omega
  obtain ⟨σ, hσ, hclock⟩ := foldlM_follows (· ≤ 2147483647) Clocked (fun _ _ op h => h.step fuel op) _ 0 ⟨s, .zero⟩
    ⟨htab, rfl⟩ hbelow
  rw [rounds_replicate] at hclock
  refine ⟨fuel, s, σ, hs fuel (Nat.le_refl _), hσ, hclock.2, hclock.overflow fuel (by omega) .round ?_⟩
  show ¬ 0 + 2147483647 + 1 ≤ 2147483647
  omega

end CheesecakeOS.Game
