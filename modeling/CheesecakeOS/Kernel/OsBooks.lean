import CheesecakeOS.Kernel.BootMemory
import CheesecakeOS.Kernel.OsIsolation
/-!
# What the kernel reports about itself

`memory`, `info`, `tasks` and `ps` read the books of the allocators and of the
scheduler. After boot nothing is allocated and nothing is freed, so the memory
they report stays as it is; the scheduler's books follow the rounds that were run
(`kernel_reports`). What the books do not show is that the stacks of the tasks
overlap with what lies behind them (`stack_ends`).
-/
open Lib

namespace CheesecakeOS.Game

open Scheduler (task_modify keep_modify keep_called keep_yield)

/-! ## The books of a round -/

/-- What a task's turn leaves alone. -/
def fixedPart (t : Task Demo) : Task Demo := { t with state := .ready, times_run := 0, total_ticks := 0 }

/-- After `n` rounds and the first `i` turns of the next one, starting from `s`. -/
structure Books (s : Scheduler Demo) (n i : Nat) (u : Scheduler Demo) : Prop where
  tabled : Tabled 3 u
  heap : u.heap = s.heap
  switches : u.ck_context_switches = .ofNat 32 (3 * n + i)
  fixed : ∀ j, fixedPart (u.task j) = fixedPart (s.task j)
  runs : ∀ d : Demo, (u.task d.index).times_run = .ofNat 32 (if d.index.val < i then n + 1 else n)

section Turn
variable {fuel : Nat} {s u u' : Scheduler Demo} {n i : Nat}

/-- What the books get from a turn of one that only yields. -/
theorem run_task_books {prog : List (TaskOp Demo)} (hp : prog = [] ∨ prog = [.yield]) {j : Fin 8}
    (hs : (u.task j).state = .ready) (he : (u.task j).entry.isSome) (h : ck_scheduler_run_task fuel prog u j = some u') :
    u'.heap = u.heap ∧ u'.ck_context_switches = u.ck_context_switches + 1 ∧
      (∀ k, fixedPart (u'.task k) = fixedPart (u.task k)) ∧
      ∀ k, (u'.task k).times_run = if k = j then (u.task k).times_run + 1 else (u.task k).times_run := by
  have hentry : ((ck_task_begin u j).task j).entry.isSome := by
    rw [show ((ck_task_begin u j).task j).entry = _ from keep_called u j Task.entry (fun _ => rfl) j]
    exact he
  have hruns : ∀ k, (((ck_task_begin u j).called j).task k).times_run =
      if k = j then (u.task k).times_run + 1 else (u.task k).times_run := by
    intro k
    show ((u.modify j Task.begun).task k).times_run = _
    rw [task_modify]
    by_cases hk : k = j
    · rw [if_pos hk, hk, Function.update_self]
      rfl
    · rw [if_neg hk, Function.update_of_ne hk]
  have hprog : ∃ v, prog.foldlM (runOp fuel) ((ck_task_begin u j).called j) = some v ∧ v.heap = u.heap ∧
      v.ck_context_switches = u.ck_context_switches + 1 ∧ (∀ k, fixedPart (v.task k) = fixedPart (u.task k)) ∧
      ∀ k, (v.task k).times_run = if k = j then (u.task k).times_run + 1 else (u.task k).times_run := by
    rcases hp with rfl | rfl
    · exact ⟨_, rfl, rfl, rfl, keep_called u j fixedPart fun _ => rfl, hruns⟩
    · refine ⟨ck_task_yield ((ck_task_begin u j).called j), rfl, rfl, rfl, fun k => ?_, fun k => ?_⟩
      · rw [keep_yield _ fixedPart fun _ _ => rfl, keep_called u j fixedPart fun _ => rfl]
      · rw [keep_yield _ Task.times_run fun _ _ => rfl]
        exact hruns k
  obtain ⟨v, hv, hheap, hswitches, hfixed, htimes⟩ := hprog
  unfold ck_scheduler_run_task at h
  dsimp only at h
  rw [if_pos (.inl hs), if_pos hentry, hv] at h
  cases h
  refine ⟨hheap, hswitches, fun k => ?_, fun k => ?_⟩
  · rw [← hfixed k]
    refine keep_modify v j _ fixedPart ?_ k
    exact fun _ => rfl
  · rw [← htimes k]
    refine keep_modify v j _ Task.times_run ?_ k
    exact fun _ => rfl

theorem index_surj (hi : i < 3) : ∃ d : Demo, d.index.val = i := by
  match i, hi with
  | 0, _ => exact ⟨.demo_1, rfl⟩
  | 1, _ => exact ⟨.demo_2, rfl⟩
  | 2, _ => exact ⟨.demo_3, rfl⟩

/-- A turn, if the clock lets the task run. -/
theorem Books.turn {y y' : System} (h : Books s n i y.scheduler) (hi : i < 3) (hy : y.run_task fuel (.ofNat 8 i) = some y') :
    Books s n (i + 1) y'.scheduler := by
  obtain ⟨d, rfl⟩ := index_surj hi
  obtain ⟨u, t⟩ := y
  have hidx : Fin.ofNat 8 d.index.val = d.index := Fin.ofNat_val_eq_self d.index
  rw [hidx] at hy
  obtain ⟨he, hs⟩ := h.tabled.task d hi
  by_cases hrun : d.run t = some (d.call t)
  · have hy₀ := hy
    unfold System.run_task at hy
    rw [h.tabled.call_entry, hrun] at hy
    change (ck_scheduler_run_task fuel (d.call t).2 u d.index).bind _ = _ at hy
    obtain ⟨u', hu, hy⟩ := Option.bind_eq_some_iff.1 hy
    cases hy
    obtain ⟨hheap, hswitches, hfixed, hruns⟩ := run_task_books (call_yields t d) hs (by rw [he]; rfl) hu
    obtain ⟨u'', hu'', htab⟩ := h.tabled.turn fuel hrun
    rw [hu''] at hy₀
    cases hy₀
    refine ⟨htab, hheap.trans h.heap, ?_, fun j => (hfixed j).trans (h.fixed j), fun e => ?_⟩
    · rw [hswitches, h.switches, ← Nat.add_assoc, BitVec.ofNat_add _ 1]
      rfl
    · rw [hruns, h.runs e]
      by_cases hed : e.index = d.index
      · have hval : e.index.val = d.index.val := congrArg Fin.val hed
        rw [if_pos hed, if_neg (by omega), if_pos (by omega), BitVec.ofNat_add]
        rfl
      · have hval : e.index.val ≠ d.index.val := fun heq => hed (Fin.ext heq)
        rw [if_neg hed]
        congr 1
        have hiff : e.index.val < d.index.val + 1 ↔ e.index.val < d.index.val := by omega
        simp only [hiff]
  · -- A task that does not run ends the run as a whole.
    have hnone : d.run t = none := by
      unfold Demo.run at hrun ⊢
      split at hrun
      · next hbad => exact if_pos hbad
      · exact absurd rfl hrun
    unfold System.run_task at hy
    rw [h.tabled.call_entry, hnone] at hy
    cases hy

theorem Books.loop (k : Nat) : ∀ {i : Nat} {y y' : System}, Books s n i y.scheduler → i ≤ 3 →
    y.run_from fuel k i = some y' → Books s n 3 y'.scheduler := by
  induction k with
  | zero =>
    intro i y y' h hi hy
    unfold System.run_from at hy
    split at hy
    · cases hy
    · next hlt =>
      cases hy
      rw [h.tabled.count] at hlt
      obtain rfl : i = 3 := by omega
      exact h
  | succ k ih =>
    intro i y y' h hi hy
    unfold System.run_from at hy
    split at hy
    · next hlt =>
      rw [h.tabled.count] at hlt
      obtain ⟨y'', hy'', hy⟩ := Option.bind_eq_some_iff.1 hy
      exact ih (h.turn hlt hy'') hlt hy
    · next hlt =>
      cases hy
      rw [h.tabled.count] at hlt
      obtain rfl : i = 3 := by omega
      exact h

/-- The next round begins. -/
theorem Books.next (h : Books s n 3 u) : Books s (n + 1) 0 u := by
  refine ⟨h.tabled, h.heap, by rw [h.switches]; rfl, h.fixed, fun d => ?_⟩
  rw [h.runs d, if_pos (index_lt d), if_neg (Nat.not_lt_zero _)]

theorem Books.round {y y' : System} (h : Books s n 0 y.scheduler) (hy : y.run_tasks fuel = some y') :
    Books s (n + 1) 0 y'.scheduler := by
  rw [h.tabled.run_tasks] at hy
  exact (h.loop 8 (Nat.zero_le 3) hy).next

end Turn

theorem Laid.books {s : Scheduler Demo} (h : Laid 3 s) : Books s 0 0 s := by
  refine ⟨h.tabled, rfl, h.switches, fun _ => rfl, fun d => ?_⟩
  rw [h.task d (index_lt d)]
  rfl

end CheesecakeOS.Game

namespace CheesecakeOS.Os

open Shell
open Game (Demo System Tasks Tabled Booted Books Laid)

/-! ## The rounds of a run -/

def isRound : Event → Bool
  | .round | .frame .. => true
  | _ => false

/-- The rounds of the scheduler, one in a turn of the shell's loop and one before a frame. -/
def rounds (log : List Event) : Nat := log.countP isRound

theorem rounds_append (log : List Event) (e : Event) : rounds (log ++ [e]) = rounds log + if isRound e then 1 else 0 := by
  rw [rounds, List.countP_append, List.countP_singleton]
  rfl

/-- A move is a round, or changes neither the scheduler nor the counters. -/
theorem Move.rounds {fuel : Nat} {σ σ' : State} (h : Move fuel σ σ') :
    (rounds σ'.log = rounds σ.log ∧ σ'.system.scheduler = σ.system.scheduler ∧
      counter σ'.system.tasks = counter σ.system.tasks) ∨
    (rounds σ'.log = rounds σ.log + 1 ∧ σ.system.run_tasks fuel = some σ'.system) := by
  cases h with
  | start => exact .inl ⟨rfl, rfl, rfl⟩
  | @round i y y' m log hr => exact .inr ⟨rounds_append log .round, hr⟩
  | access hr => exact .inl ⟨rfl, rfl, rfl⟩
  | @unused i y m log c hr hc => exact .inl ⟨rounds_append log (.read c), rfl, rfl⟩
  | @enter i y m log hr => exact .inl ⟨rounds_append log (.read _), rfl, rfl⟩
  | @erase i y m log hr => exact .inl ⟨rounds_append log (.read _), rfl, rfl⟩
  | @insert i y m log c hr hp => exact .inl ⟨rounds_append log (.read c), rfl, rfl⟩
  | returns hn hm => exact .inl ⟨rfl, rfl, rfl⟩
  | halts hn hm => exact .inl ⟨rfl, rfl, rfl⟩
  | @opens i y m log ho => exact .inl ⟨rounds_append log .opened, rfl, rfl⟩
  | drainAccess hr => exact .inl ⟨rfl, rfl, rfl⟩
  | @drained i y m s log hr => exact .inl ⟨rounds_append log (.key 0), rfl, rfl⟩
  | @quit i y m s log c hr hq => exact .inl ⟨rounds_append log (.key c), rfl, rfl⟩
  | @steer i y m s log c hr hs =>
    refine .inl ⟨rounds_append log (.key c), rfl, ?_⟩
    funext j
    unfold counter
    rw [(Game.on_key_spec y.tasks c).2.1]
  | @ignored i y m s log c hr h0 hq hs => exact .inl ⟨rounds_append log (.key c), rfl, rfl⟩
  | @closes i y m s log he => exact .inl ⟨rounds_append log .closed, rfl, rfl⟩
  | waits he hw => exact .inl ⟨rfl, rfl, rfl⟩
  | @frame i y y' m s log he hw hy => exact .inr ⟨rounds_append log (.frame _ _), hy⟩
  | halted => exact .inl ⟨rfl, rfl, rfl⟩

/-- What the tasks have counted in `n` rounds. -/
def Counted (n : Nat) (c : Nat → Nat) (counter : Nat → U32) : Prop :=
  ∀ i < 3, n ≤ c i ∧ c i ≤ 19 * n ∧ counter i = .ofNat 32 (c i)

theorem Counted.round {n : Nat} {c d : Nat → Nat} {counter counter' : Nat → U32} (h : Counted n c counter)
    (hd : Added counter counter' d) : Counted (n + 1) (fun i => c i + d i) counter' := by
  intro i hi
  obtain ⟨hlow, hhigh, hc⟩ := h i hi
  obtain ⟨h1, h19, hadd⟩ := hd i hi
  dsimp only
  refine ⟨by omega, by omega, ?_⟩
  rw [hadd, hc, ← BitVec.ofNat_add]

/-- The books agree with the rounds of the log. -/
structure Kept (s : Scheduler Demo) (σ : State) : Prop where
  showing : Showing σ
  books : Books s (rounds σ.log) 0 σ.system.scheduler
  counted : ∃ c, Counted (rounds σ.log) c (counter σ.system.tasks)

theorem Kept.move {fuel : Nat} {s : Scheduler Demo} {σ σ' : State} (h : Kept s σ) (hmove : Move fuel σ σ') : Kept s σ' := by
  refine ⟨h.showing.move hmove, ?_, ?_⟩ <;> rcases hmove.rounds with ⟨hrounds, hsched, hcounter⟩ | ⟨hrounds, hrun⟩
  · rw [hrounds, hsched]
    exact h.books
  · rw [hrounds]
    exact h.books.round hrun
  · rw [hrounds, hcounter]
    exact h.counted
  · obtain ⟨c, hc⟩ := h.counted
    obtain ⟨-, d, hd⟩ := h.showing.playing.round hrun
    rw [hrounds]
    exact ⟨_, hc.round hd⟩

section Runs
variable {fuel : Nat} {s : Scheduler Demo} {screen : Screen} {input_buffer : Vector U8 256} {actions : List Action}
  {σ : State}

theorem kept_run (hs : Laid 3 s) (h : run fuel s screen input_buffer actions = some σ) : Kept s σ := by
  have hstart : run fuel s screen input_buffer [] = some (start s screen input_buffer) := rfl
  refine run_keeps (Kept s) ⟨showing_run hs.tabled hstart, hs.books, fun _ => 0, ?_⟩ ?_
    (fun _ _ hI hmove => hI.move hmove) h
  · intro i hi
    refine ⟨Nat.le_refl 0, Nat.le_refl 0, ?_⟩
    match i, hi with
    | 0, _ => rfl
    | 1, _ => rfl
    | 2, _ => rfl
  · intro i y m pc log a hI _
    exact ⟨⟨hI.showing.playing, hI.showing.proper, hI.showing.next, hI.showing.last⟩, hI.books, hI.counted⟩

end Runs

/-! ## The texts -/

/-- The text that is written. -/
def printed (ops : List VgaOp) : List U8 :=
  (ops.flatMap VgaOp.outs).map fun
    | .newline => 0x0A
    | .char c _ => c

theorem printed_nil : printed [] = [] := rfl

theorem printed_append (ops ops' : List VgaOp) : printed (ops ++ ops') = printed ops ++ printed ops' := by
  simp [printed]

theorem printed_string (t : List U8) (color : U8) (ops : List VgaOp) :
    printed (.write_string t color :: ops) = t ++ printed ops := by
  rw [printed, List.flatMap_cons, List.map_append, VgaOp.outs, List.map_map]
  congr 1
  refine (List.map_congr_left fun c _ => ?_).trans (List.map_id t)
  show (match (if c = 0x0A#8 then Out.newline else Out.char c color) with
    | .newline => 0x0A#8
    | .char c _ => c) = c
  split
  · next h =>
    split at h
    · next hc => exact hc.symm
    · cases h
  · next c' _ h =>
    split at h
    · cases h
    · cases h
      rfl

theorem printed_number (num : U32) (color : U8) (ops : List VgaOp) :
    printed (.write_number num color :: ops) = numeral num.toNat ++ printed ops := by
  rw [printed, List.flatMap_cons, List.map_append, VgaOp.outs]
  congr 1
  by_cases h : num = 0#32
  · rw [h]
    rfl
  · rw [if_neg h, List.map_map, digitChars_reverse h]
    exact List.map_id _

/-- What the commands print that read the books: after `n` rounds, with these counters. -/
def report (n : Nat) (c : Nat → Nat) : Command → Option (List U8)
  | .memory => some (
    utf8 "Memory Status - A Creamy Filling:\n" ++
    utf8 "Total memory: 256 MB (65536 pages)\n" ++
    utf8 "Used pages: 388 | Free pages: 65148\n" ++
    utf8 "Heap allocated: 12456 bytes | Freed: 0 bytes\n")
  | .info => some (
    utf8 "CheesecakeOS v1.0 - Multitasking x86 Kernel\n" ++
    utf8 "Architecture: 32-bit x86 (i686) Protected Mode\n" ++
    utf8 "Bootloader: GRUB Multiboot2\n" ++
    utf8 "Memory: 256 MB | 388 pages used\n" ++
    utf8 "Heap: 12 KB allocated\n" ++
    utf8 "Interrupts: 32 exceptions + 16 IRQs (PIC remapped)\n" ++
    utf8 "Timer: 1 kHz PIT (Intel 8254)\n" ++
    utf8 "Input: PS/2 keyboard\n" ++
    utf8 "Tasks: 3 running | " ++ numeral (3 * n % 2 ^ 32) ++ utf8 " context switches\n")
  | .tasks => some (
    utf8 "Running Kernel Tasks - The Kitchen Crew:\n" ++
    utf8 "Total tasks: 3\n\n" ++
    (List.range 3).flatMap fun i => utf8 "Task #" ++ numeral i ++ utf8 ": Counter = " ++ numeral (c i % 2 ^ 32) ++
      utf8 " (runs: " ++ numeral (n % 2 ^ 32) ++ utf8 ")\n")
  | .ps => some (
    utf8 "PID  STATE    COUNTER\n" ++
    utf8 "---  --------  -----------\n" ++
    (List.range 3).flatMap fun i => numeral i ++ utf8 "    READY     " ++ numeral (c i % 2 ^ 32) ++ utf8 "\n")
  | _ => none

section Texts
variable {k : Kernel Demo} {n : Nat} {c : Nat → Nat}

theorem memory_text (h : Heap.Stage 3 3 k.scheduler.heap) : some (printed (memoryOps k)) = report n c .memory := by
  unfold memoryOps ck_pmem_get_total_memory ck_pmem_get_used_pages ck_pmem_get_free_pages ck_heap_get_total_allocated
    ck_heap_get_total_freed text
  dsimp only
  rw [h.total, h.used, h.allocated, h.freed]
  simp only [printed_string, printed_number, report]
  decide +kernel

theorem info_text (h : Heap.Stage 3 3 k.scheduler.heap) (hcount : k.scheduler.ck_task_count = 3)
    (hswitches : k.scheduler.ck_context_switches = .ofNat 32 (3 * n)) :
    some (printed (infoOps k)) = report n c .info := by
  unfold infoOps ck_pmem_get_total_memory ck_pmem_get_used_pages ck_heap_get_total_allocated ck_heap_get_total_freed
    ck_scheduler_task_count ck_scheduler_get_context_switches text
  dsimp only
  rw [h.total, h.used, h.allocated, h.freed, hcount, hswitches]
  simp only [printed_string, printed_number, printed_nil, report, BitVec.toNat_ofNat (3 * n), List.append_nil,
    ← List.append_assoc]
  congr 3
  decide +kernel

/-- A loop over the three tasks. -/
theorem printed_forTasks (hcount : k.scheduler.ck_task_count = 3) (ops : Nat → Task Demo → List VgaOp) :
    printed (forTasks k ops) = (List.range 3).flatMap fun i => printed (ops i (k.scheduler.task (.ofNat 8 i))) := by
  unfold forTasks ck_scheduler_task_count ck_scheduler_get_task
  rw [hcount]
  show printed ([0, 1, 2].flatMap _) = [0, 1, 2].flatMap _
  simp only [List.flatMap_cons, List.flatMap_nil, printed_append]
  rfl

theorem tasks_text (hcount : k.scheduler.ck_task_count = 3) (hcounters : ∀ i < 3, k.counter i = .ofNat 32 (c i))
    (hruns : ∀ i < 3, (k.scheduler.task (.ofNat 8 i)).times_run = .ofNat 32 n) :
    some (printed (tasksOps k)) = report n c .tasks := by
  unfold tasksOps
  rw [printed_append, printed_forTasks hcount]
  unfold report
  congr 2
  · unfold tasksTitleOps ck_scheduler_task_count text
    rw [hcount]
    simp only [printed_string, printed_number]
    decide +kernel
  · refine List.flatMap_congr fun i hi => ?_
    have hlt : i < 3 := List.mem_range.1 hi
    unfold tasksTaskOps text
    rw [hcounters i hlt, hruns i hlt]
    simp only [printed_string, printed_number, printed_nil, BitVec.toNat_ofNat, List.append_assoc, List.append_nil]
    rw [Nat.mod_eq_of_lt (show i < 2 ^ 32 by omega)]

theorem ps_text (hcount : k.scheduler.ck_task_count = 3) (hcounters : ∀ i < 3, k.counter i = .ofNat 32 (c i)) :
    some (printed (psOps k)) = report n c .ps := by
  unfold psOps
  rw [printed_append, printed_forTasks hcount]
  unfold report
  congr 2
  · decide +kernel
  · refine List.flatMap_congr fun i hi => ?_
    have hlt : i < 3 := List.mem_range.1 hi
    unfold psTaskOps text
    rw [hcounters i hlt]
    simp only [printed_string, printed_number, printed_nil, BitVec.toNat_ofNat, List.append_assoc, List.append_nil]
    rw [Nat.mod_eq_of_lt (show i < 2 ^ 32 by omega)]

end Texts

/-- A command that only prints. -/
theorem execute_prints (fuel : Nat) {σ : State} {cmd : Command} (hcmd : lineBranch σ.shell.line = .command cmd)
    {ops : List VgaOp} (hne : cmd ≠ .taskmon)
    (hrun : ∀ (m : ShellState) (t : Turn Demo) args, t.kernel = σ.kernel → cmd.run m t args = .ok (m.print ops))
    (hpc : σ.pc = .entered) : ∃ σ', σ.thread fuel = some σ' ∧ σ'.pc = .head ∧
      σ'.shell.screen = (ops ++ promptOps).foldl VgaOp.run (ck_vga_newline σ.shell.screen) := by
  obtain ⟨i, y, m, pc, log⟩ := σ
  dsimp only at hcmd hpc hrun
  subst hpc
  have hexec : enter m ⟨i.ck_timer_ticks, 0x0A, State.kernel ⟨i, y, m, .entered, log⟩, [], 0⟩ =
      .ok ({ (tracked (entering m) m.line).print ops with input_len := 0 }.print promptOps) := by
    show (do let m ← ck_shell_execute (entering m) _ m.line; return { m with input_len := 0 }.print promptOps) = _
    rw [execute_branch, show branchOf _ _ = lineBranch m.line from rfl, hcmd]
    show (do let m ← cmd.run _ _ _; return { m with input_len := 0 }.print promptOps) = _
    rw [hrun _ _ _ rfl]
    rfl
  have hthread : State.thread fuel ⟨i, y, m, .entered, log⟩ =
      some ⟨i, y, { (tracked (entering m) m.line).print ops with input_len := 0 }.print promptOps, .head, log⟩ := by
    unfold State.thread State.execute
    dsimp only
    split
    · next htask =>
      rw [hcmd] at htask
      exact absurd (Branch.command.inj htask) hne
    · rw [hexec]
  have htracked : (tracked (entering m) m.line).screen = ck_vga_newline m.screen := by
    unfold tracked
    split <;> rfl
  refine ⟨_, hthread, rfl, ?_⟩
  rw [List.foldl_append, ← htracked]
  rfl

/-- What `ck_main` leaves to the shell, every run of the kernel reports as it is: whenever interrupts come and
whatever is typed, `memory`, `info`, `tasks` and `ps` print the text of `report`. The memory
is as it was at boot, each task has run once in each of the rounds, and has counted from 1
to 19 in each of them. Every task is ready, as `ps` has it without looking. -/
theorem kernel_reports (fuel : Nat) (s : Scheduler Demo) (screen : Screen) (input_buffer : Vector U8 256)
    (actions : List Action) (σ : State) (hs : Booted s) (h : run fuel s screen input_buffer actions = some σ) :
    (∀ d : Demo, (σ.system.scheduler.task d.index).state = .ready) ∧
    ∃ c : Nat → Nat, (∀ i < 3, rounds σ.log ≤ c i ∧ c i ≤ 19 * rounds σ.log) ∧
      ∀ cmd text, report (rounds σ.log) c cmd = some text → σ.pc = .entered → lineBranch σ.shell.line = .command cmd →
        ∃ σ' ops, σ.thread fuel = some σ' ∧ σ'.pc = .head ∧
          σ'.shell.screen = (ops ++ promptOps).foldl VgaOp.run (ck_vga_newline σ.shell.screen) ∧ printed ops = text := by
  have hlaid := hs.laid
  obtain ⟨-, hbooks, c, hc⟩ := kept_run hlaid h
  refine ⟨fun d => (hbooks.tabled.task d (Game.index_lt d)).2, c, fun i hi => ⟨(hc i hi).1, (hc i hi).2.1⟩, ?_⟩
  intro cmd text htext hpc hcmd
  have hstage : Heap.Stage 3 3 σ.kernel.scheduler.heap := by
    rw [show σ.kernel.scheduler.heap = s.heap from hbooks.heap]
    exact hlaid.stage
  have hcount : σ.kernel.scheduler.ck_task_count = 3 := BitVec.eq_of_toNat_eq hbooks.tabled.count
  have hcounters : ∀ i < 3, σ.kernel.counter i = .ofNat 32 (c i) := fun i hi => (hc i hi).2.2
  have hruns : ∀ i < 3, (σ.kernel.scheduler.task (.ofNat 8 i)).times_run = .ofNat 32 (rounds σ.log) := by
    intro i hi
    obtain ⟨d, rfl⟩ := Game.index_surj hi
    rw [show Fin.ofNat 8 d.index.val = d.index from Fin.ofNat_val_eq_self d.index]
    exact (hbooks.runs d).trans (by rw [if_neg (Nat.not_lt_zero _)])
  have hprints : ∀ ops, some (printed ops) = report (rounds σ.log) c cmd → cmd ≠ .taskmon →
      (∀ (m : ShellState) (t : Turn Demo) args, t.kernel = σ.kernel → cmd.run m t args = .ok (m.print ops)) →
      ∃ σ' ops, σ.thread fuel = some σ' ∧ σ'.pc = .head ∧
        σ'.shell.screen = (ops ++ promptOps).foldl VgaOp.run (ck_vga_newline σ.shell.screen) ∧ printed ops = text := by
    intro ops hops hne hrun
    obtain ⟨σ', hthread, hpc', hscreen⟩ := execute_prints fuel hcmd hne hrun hpc
    rw [htext] at hops
    exact ⟨σ', ops, hthread, hpc', hscreen, Option.some.inj hops⟩
  cases cmd with
  | memory => exact hprints _ (memory_text hstage) (by decide) fun m t args ht => by rw [← ht]; rfl
  | info => exact hprints _ (info_text hstage hcount hbooks.switches) (by decide) fun m t args ht => by rw [← ht]; rfl
  | tasks => exact hprints _ (tasks_text hcount hcounters hruns) (by decide) fun m t args ht => by rw [← ht]; rfl
  | ps => exact hprints _ (ps_text hcount hcounters) (by decide) fun m t args ht => by rw [← ht]; rfl
  | _ => cases htext

theorem same_rounds {log log' : List Event} (h : List.Forall₂ Event.Same log log') : rounds log = rounds log' := by
  induction h with
  | nil => rfl
  | cons he _ ih =>
    unfold rounds at ih ⊢
    rw [List.countP_cons, List.countP_cons, ih]
    cases he <;> rfl

/-- `ps` and Enter. -/
def asking : List Action :=
  .run :: [0x19, 0x99, 0x1F, 0x9F, 0x1C].map Action.keyboard ++ .replicate 15 .run

/-- After boot the thread has this line when three rounds have been run. -/
theorem booted_asking : ∃ s σ, Booted s ∧ run 0 s someScreen (.replicate 256 0) asking = some σ ∧ σ.pc = .entered ∧
    lineBranch σ.shell.line = .command .ps ∧ rounds σ.log = 3 := by
  obtain ⟨fuel, s, hs, hlaid⟩ := Game.boot_laid ⟨0x7000, 0x7100, 0x7200, by decide⟩ fun _ => .zero Demo
  have hbooted : Booted s := ⟨fuel, _, _, hs fuel (Nat.le_refl _)⟩
  -- The place of the thread and its line are those of a kernel that can be run.
  have hmap : ((run 0 threeTasks someScreen (.replicate 256 0) asking).map fun σ =>
      (σ.pc, lineBranch σ.shell.line, rounds σ.log)) = some (.entered, .command .ps, 3) := by
    decide +kernel
  obtain ⟨σ₀, hσ₀, heq⟩ := Option.map_eq_some_iff.1 hmap
  simp only [Prod.mk.injEq] at heq
  obtain ⟨hpc, hline, hrounds⟩ := heq
  have hrel := inStep_run 0 someScreen someScreen (.replicate 256 0) (.replicate 256 0) asking threeTasks_tabled
    hlaid.tabled
  rw [hσ₀] at hrel
  generalize hσ : run 0 s someScreen (.replicate 256 0) asking = u at hrel
  cases hrel with
  | @some _ σ h =>
    refine ⟨s, σ, hbooted, hσ, h.tied.alike.pc.symm.trans hpc, ?_, ?_⟩
    · rw [← h.lines (by rw [hpc]; trivial)]
      exact hline
    · rw [← same_rounds h.tied.alike.log]
      exact hrounds

theorem kernel_reports_ps : ∃ fuel s σ, Booted s ∧ run fuel s someScreen (.replicate 256 0) asking = some σ ∧
    ∃ c : Nat → Nat, (∀ i < 3, 3 ≤ c i ∧ c i ≤ 57) ∧ ∃ σ' ops, σ.thread fuel = some σ' ∧
      σ'.shell.screen = (ops ++ promptOps).foldl VgaOp.run (ck_vga_newline σ.shell.screen) ∧
      some (printed ops) = report 3 c .ps := by
  obtain ⟨s, σ, hbooted, hσ, hpc, hbranch, hrounds⟩ := booted_asking
  obtain ⟨-, c, hc, hprints⟩ := kernel_reports 0 s someScreen (.replicate 256 0) asking σ hbooted hσ
  rw [hrounds] at hc hprints
  obtain ⟨σ', ops, hthread, -, hscreen, htext⟩ := hprints .ps _ rfl hpc hbranch
  exact ⟨0, s, σ, hbooted, hσ, c, hc, σ', ops, hthread, hscreen, by rw [htext]; rfl⟩

/-! ## The stacks -/

/-- The addresses of a task's stack. -/
def stackOf (s : Scheduler Demo) (d : Demo) : Set Nat :=
  Set.Ico (s.task d.index).stack.toNat ((s.task d.index).stack.toNat + (s.task d.index).stack_size.toNat)

/-- The addresses of the header that `ck_free` would read for a task's stack. -/
def headerOf (s : Scheduler Demo) (d : Demo) : Set Nat :=
  Set.Ico ((s.task d.index).stack - CK_HEAP_HEADER_SIZE).toNat (s.task d.index).stack.toNat

theorem stack_laid {s : Scheduler Demo} (h : Laid 3 s) (d : Demo) :
    (s.task d.index).stack = .ofNat 32 (0x18100C + 4096 * d.index) ∧ (s.task d.index).stack_size = 4096 := by
  rw [h.task d (Game.index_lt d)]
  exact ⟨rfl, rfl⟩

/-- In every state of every run the tasks' stacks are where `ck_main` has put them, and end where something
else begins: the header of the next stack lies in the stack before it, and the page that
`ck_pmem_alloc_page` will hand out next begins in the last one. -/
theorem stack_ends (fuel : Nat) (s : Scheduler Demo) (screen : Screen) (input_buffer : Vector U8 256)
    (actions : List Action) (σ : State) (hs : Booted s) (h : run fuel s screen input_buffer actions = some σ) :
    (∀ d d' : Demo, d'.index.val = d.index.val + 1 → headerOf σ.system.scheduler d' ⊆ stackOf σ.system.scheduler d) ∧
    (ck_pmem_alloc_page σ.system.scheduler.heap.pmem).2.toNat ∈ stackOf σ.system.scheduler .demo_3 := by
  have hlaid := hs.laid
  obtain ⟨-, hbooks, -⟩ := kept_run hlaid h
  have hstack : ∀ d : Demo, (σ.system.scheduler.task d.index).stack = .ofNat 32 (0x18100C + 4096 * d.index) ∧
      (σ.system.scheduler.task d.index).stack_size = 4096 := by
    intro d
    have hfixed := hbooks.fixed d.index
    obtain ⟨hstack, hsize⟩ := stack_laid hlaid d
    exact ⟨(congrArg Task.stack hfixed).trans hstack, (congrArg Task.stack_size hfixed).trans hsize⟩
  refine ⟨fun d d' hd => ?_, ?_⟩
  · unfold headerOf stackOf
    rw [(hstack d).1, (hstack d).2, (hstack d').1, hd]
    refine Set.Ico_subset_Ico ?_ ?_
    all_goals
      revert d'
      cases d <;> simp [Demo.index, CK_HEAP_HEADER_SIZE]
  · unfold stackOf
    rw [(hstack .demo_3).1, (hstack .demo_3).2, hbooks.heap]
    have hpages := hlaid.stage.pages
    rcases Pmem.alloc_cases s.heap.pmem with ⟨page, hlt, hfree, hfirst, haddr, -⟩ | ⟨hfull, -⟩
    · rw [hpages, Finset.mem_range] at hfree
      -- The pages in use have no gap, and 388 follows them.
      have hpage : page = 388 := by
        by_contra hne
        have hin := hfirst 388 (by omega)
        rw [hpages, Finset.mem_range] at hin
        omega
      rw [haddr, hpage]
      decide
    · have hmem : 388 ∈ Finset.range CK_MAX_PAGES := Finset.mem_range.2 (by decide)
      rw [← hfull, hpages, Finset.mem_range] at hmem
      omega

theorem stack_ends_asking : ∃ s σ, Booted s ∧ run 0 s someScreen (.replicate 256 0) asking = some σ ∧ rounds σ.log = 3 ∧
    headerOf σ.system.scheduler .demo_2 ⊆ stackOf σ.system.scheduler .demo_1 ∧
    headerOf σ.system.scheduler .demo_3 ⊆ stackOf σ.system.scheduler .demo_2 ∧
    (ck_pmem_alloc_page σ.system.scheduler.heap.pmem).2.toNat ∈ stackOf σ.system.scheduler .demo_3 := by
  obtain ⟨s, σ, hbooted, hσ, -, -, hrounds⟩ := booted_asking
  obtain ⟨hheaders, hpage⟩ := stack_ends 0 s someScreen (.replicate 256 0) asking σ hbooted hσ
  exact ⟨s, σ, hbooted, hσ, hrounds, hheaders .demo_1 .demo_2 rfl, hheaders .demo_2 .demo_3 rfl, hpage⟩

end CheesecakeOS.Os
