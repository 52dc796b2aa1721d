import CheesecakeOS.Kernel.OsFrames
/-!
# Who the tasks can reach

The tasks run in every turn of the shell and before every frame of the monitor.
Two runs of the kernel with the same interrupts and the same steps of its thread,
but with other tasks' books, another heap and another screen: the thread is at
the same place in both at any time, has got the same characters and has the same
line, and draws its frames at the same times (`tasks_isolated`). What the runs
differ in is what the commands and the frames show.
-/
open Lib

namespace CheesecakeOS.Os

open ReadChar (Sys)
open Shell
open Game (Demo System Tasks Tabled Clocked LoopOp)

/-- The same event, a frame at the same time. -/
inductive Event.Same : Event → Event → Prop
  | refl (e : Event) : Same e e
  | frame (time : Nat) (k k' : Kernel Demo) : Same (.frame time k) (.frame time k')

/-- The shell has a line. -/
def Pc.Prompting : Pc → Prop
  | .head | .reading | .entered => True
  | _ => False

/-- The thread is at the same place in both, with the same input. -/
structure Alike (σ σ' : State) : Prop where
  input : σ.input = σ'.input
  pc : σ.pc = σ'.pc
  log : List.Forall₂ Event.Same σ.log σ'.log

theorem same_append {log log' : List Event} (h : List.Forall₂ Event.Same log log') {e e' : Event} (he : Event.Same e e') :
    List.Forall₂ Event.Same (log ++ [e]) (log' ++ [e']) :=
  List.rel_append h (.cons he .nil)

theorem same_reads {log log' : List Event} (h : List.Forall₂ Event.Same log log') : reads log = reads log' := by
  induction h with
  | nil => rfl
  | cons he _ ih =>
    unfold reads at ih ⊢
    cases he with
    | refl e => rw [List.filterMap_cons, List.filterMap_cons, ih]
    | frame time k k' => exact ih

/-- A round that has a meaning for one has it for the other. -/
theorem rounds_alike (fuel : Nat) {n : Nat} {y y' : System} (h : Clocked n y) (h' : Clocked n y') :
    Option.Rel (fun u u' => Clocked (n + 1) u ∧ Clocked (n + 1) u') (y.run_tasks fuel) (y'.run_tasks fuel) := by
  -- Only the number of rounds decides whether the clock overflows.
  by_cases hn : n + 1 ≤ 2147483647
  · obtain ⟨u, hu, hclock⟩ := h.step fuel .round hn
    obtain ⟨u', hu', hclock'⟩ := h'.step fuel .round hn
    change y.run_tasks fuel = some u at hu
    change y'.run_tasks fuel = some u' at hu'
    rw [hu, hu']
    exact .some ⟨hclock, hclock'⟩
  · rw [show y.run_tasks fuel = none from h.1.no_round fuel (mt h.counts_iff.1 hn),
      show y'.run_tasks fuel = none from h'.1.no_round fuel (mt h'.counts_iff.1 hn)]
    exact .none

/-! ## In step -/

section Steps
variable {screen screen' : Screen} {buffer buffer' : Vector U8 256} {σ σ' : State}

/-- Alike, with the same number of rounds before the clock overflows. -/
structure Tied (σ σ' : State) : Prop where
  alike : Alike σ σ'
  clock : ∃ n, Clocked n σ.system ∧ Clocked n σ'.system

/-- With what is known of the shell in each of them. -/
structure InStep (screen screen' : Screen) (buffer buffer' : Vector U8 256) (σ σ' : State) : Prop where
  tied : Tied σ σ'
  shell : ShellAt screen buffer σ
  shell' : ShellAt screen' buffer' σ'

/-- The thread has the same line in both. -/
theorem InStep.line (h : InStep screen screen' buffer buffer' σ σ') (hpc : σ.pc = .entered) :
    ∃ cs, Editing (typed cs) σ.shell ∧ Editing (typed cs) σ'.shell := by
  obtain ⟨⟨⟨-, hsame, hlog⟩, -⟩, hat, hat'⟩ := h
  unfold ShellAt at hat hat'
  rw [← hsame, hpc] at hat'
  rw [hpc] at hat
  obtain ⟨cs, hreads, hturn⟩ := hat
  obtain ⟨cs', hreads', hturn'⟩ := hat'
  rw [same_reads hlog, hreads', List.append_left_inj] at hreads
  rw [hreads] at hturn'
  exact ⟨cs, hturn.editing, hturn'.editing⟩

/-- Enter leaves the thread at the same place. -/
theorem execute_alike (h : InStep screen screen' buffer buffer' σ σ') (hpc : σ.pc = .entered) :
    Tied σ.execute σ'.execute := by
  obtain ⟨cs, hediting, hediting'⟩ := h.line hpc
  obtain ⟨⟨hinput, hsame, hlog⟩, n, hclock, hclock'⟩ := h.tied
  have hline : lineBranch σ'.shell.line = lineBranch σ.shell.line := by rw [hediting.line, hediting'.line]
  unfold State.execute
  rw [hline]
  split
  · -- `ck_game_init` sets both clocks to 0.
    exact ⟨⟨hinput, rfl, same_append hlog (.refl _)⟩, 0, ⟨hclock.1, rfl⟩, hclock'.1, rfl⟩
  · by_cases hname : ck_get_first_word (typed cs) 64 = utf8 "reboot"
    · obtain ⟨m, hm⟩ := editing_reboot hediting ⟨σ.input.ck_timer_ticks, 0x0A, σ.kernel, [], 0⟩ hname
      obtain ⟨m', hm'⟩ := editing_reboot hediting' ⟨σ'.input.ck_timer_ticks, 0x0A, σ'.kernel, [], 0⟩ hname
      rw [hm, hm']
      exact ⟨⟨hinput, rfl, hlog⟩, n, hclock, hclock'⟩
    · obtain ⟨m, hm, -⟩ := hediting.enter ⟨σ.input.ck_timer_ticks, 0x0A, σ.kernel, [], 0⟩ hname
      obtain ⟨m', hm', -⟩ := hediting'.enter ⟨σ'.input.ck_timer_ticks, 0x0A, σ'.kernel, [], 0⟩ hname
      rw [hm, hm']
      exact ⟨⟨hinput, rfl, hlog⟩, n, hclock, hclock'⟩

/-- A character that the shell or the monitor gets. -/
theorem got_alike (h : Tied σ σ') (c : U8) : Tied (σ.got c) (σ'.got c) := by
  obtain ⟨⟨hinput, hsame, hlog⟩, n, hclock, hclock'⟩ := h
  have hnext := same_append hlog (.refl (.read c))
  unfold State.got
  dsimp only
  split_ifs
  all_goals exact ⟨⟨hinput, rfl, hnext⟩, n, hclock, hclock'⟩

theorem drain_alike (h : Tied σ σ') (s : Session) (c : U8) : Tied (σ.drain s c) (σ'.drain s c) := by
  obtain ⟨⟨hinput, hsame, hlog⟩, n, hclock, hclock'⟩ := h
  have hnext := same_append hlog (.refl (.key c))
  have hkey : ∀ y, Clocked n y → Clocked n { y with tasks := Game.ck_game_on_key y.tasks c } := by
    intro y hy
    refine ⟨hy.1, ?_⟩
    rw [(Game.on_key_spec y.tasks c).1]
    exact hy.2
  unfold State.drain
  dsimp only
  split_ifs
  · exact ⟨⟨hinput, rfl, hnext⟩, n, hclock, hclock'⟩
  · exact ⟨⟨hinput, rfl, hnext⟩, n, hclock, hclock'⟩
  · exact ⟨⟨hinput, rfl, hnext⟩, n, hkey _ hclock, hkey _ hclock'⟩
  · exact ⟨⟨hinput, rfl, hnext⟩, n, hclock, hclock'⟩

theorem poll_alike (fuel : Nat) (h : Tied σ σ') (s : Session) : Option.Rel Tied (σ.poll fuel s) (σ'.poll fuel s) := by
  obtain ⟨i, y, m, pc, log⟩ := σ
  obtain ⟨i', y', m', pc', log'⟩ := σ'
  obtain ⟨⟨hinput, hsame, hlog⟩, n, hclock, hclock'⟩ := h
  dsimp only at hinput hlog hclock hclock'
  subst hinput
  unfold State.poll
  dsimp only
  split_ifs
  · exact .some ⟨⟨rfl, rfl, same_append hlog (.refl _)⟩, n, hclock, hclock'⟩
  · exact .some ⟨⟨rfl, rfl, hlog⟩, n, hclock, hclock'⟩
  · have hround := rounds_alike fuel hclock hclock'
    generalize y.run_tasks fuel = u at hround ⊢
    generalize y'.run_tasks fuel = u' at hround ⊢
    cases hround with
    | some hclocks => exact .some ⟨⟨rfl, rfl, same_append hlog (.frame _ _ _)⟩, n + 1, hclocks⟩
    | none => exact .none

theorem thread_alike (fuel : Nat) (h : InStep screen screen' buffer buffer' σ σ') :
    Option.Rel Tied (σ.thread fuel) (σ'.thread fuel) := by
  have hexec := execute_alike h
  have htied := h.tied
  obtain ⟨i, y, m, pc, log⟩ := σ
  obtain ⟨i', y', m', pc', log'⟩ := σ'
  obtain ⟨⟨hinput, hsame, hlog⟩, n, hclock, hclock'⟩ := htied
  dsimp only at hinput hsame hlog hclock hclock'
  subst hinput hsame
  cases pc with
  | start => exact .some ⟨⟨rfl, rfl, hlog⟩, n, hclock, hclock'⟩
  | head =>
    have hround := rounds_alike fuel hclock hclock'
    unfold State.thread
    dsimp only
    generalize y.run_tasks fuel = u at hround ⊢
    generalize y'.run_tasks fuel = u' at hround ⊢
    cases hround with
    | some hclocks => exact .some ⟨⟨rfl, rfl, same_append hlog (.refl _)⟩, n + 1, hclocks⟩
    | none => exact .none
  | reading =>
    refine .some ?_
    dsimp only
    have hread : Tied ⟨i.step .read, y, m, .reading, log⟩ ⟨i.step .read, y', m', .reading, log'⟩ :=
      ⟨⟨rfl, rfl, hlog⟩, n, hclock, hclock'⟩
    cases returned (i.step .read) with
    | none => exact hread
    | some c => exact got_alike hread c
  | entered => exact .some (hexec rfl)
  | draining s =>
    refine .some ?_
    dsimp only
    have hread : Tied ⟨i.step .read, y, m, .draining s, log⟩ ⟨i.step .read, y', m', .draining s, log'⟩ :=
      ⟨⟨rfl, rfl, hlog⟩, n, hclock, hclock'⟩
    cases returned (i.step .read) with
    | none => exact hread
    | some c => exact drain_alike hread s c
  | drained s =>
    have htied : Tied ⟨i, y, m, .drained s, log⟩ ⟨i, y', m', .drained s, log'⟩ := ⟨⟨rfl, rfl, hlog⟩, n, hclock, hclock'⟩
    exact poll_alike fuel htied s
  | halted => exact .some ⟨⟨rfl, rfl, hlog⟩, n, hclock, hclock'⟩

theorem interrupt_alike (h : InStep screen screen' buffer buffer' σ σ') (a : ReadChar.Action) :
    InStep screen screen' buffer buffer' (σ.interrupt a) (σ'.interrupt a) := by
  obtain ⟨⟨⟨hinput, hsame, hlog⟩, hclock⟩, hat, hat'⟩ := h
  obtain ⟨i, y, m, pc, log⟩ := σ
  obtain ⟨i', y', m', pc', log'⟩ := σ'
  dsimp only at hinput hsame hlog hclock
  subst hinput hsame
  cases pc
  all_goals exact ⟨⟨⟨rfl, rfl, hlog⟩, hclock⟩, hat, hat'⟩

theorem step_alike (fuel : Nat) (h : InStep screen screen' buffer buffer' σ σ') (a : Action) :
    Option.Rel (InStep screen screen' buffer buffer') (σ.step fuel a) (σ'.step fuel a) := by
  cases a with
  | timer => exact .some (interrupt_alike h .timer)
  | keyboard c => exact .some (interrupt_alike h (.keyboard c))
  | run =>
    have hthread := thread_alike fuel h
    show Option.Rel _ (σ.thread fuel) (σ'.thread fuel)
    generalize hu : σ.thread fuel = u at hthread ⊢
    generalize hu' : σ'.thread fuel = u' at hthread ⊢
    cases hthread with
    | some htied => exact .some ⟨htied, h.shell.move (thread_move hu), h.shell'.move (thread_move hu')⟩
    | none => exact .none

/-- The lines, while the shell has one. -/
theorem InStep.lines (h : InStep screen screen' buffer buffer' σ σ') (hpc : σ.pc.Prompting) :
    σ.shell.line = σ'.shell.line := by
  have hreads := same_reads h.tied.alike.log
  have hentered := h.line
  obtain ⟨⟨⟨-, hsame, -⟩, -⟩, hat, hat'⟩ := h
  obtain ⟨i, y, m, pc, log⟩ := σ
  obtain ⟨i', y', m', pc', log'⟩ := σ'
  dsimp only at hsame hreads
  subst hsame
  cases pc with
  | head =>
    have hediting := Came.editing hat
    have hediting' := Came.editing hat'
    rw [hediting.line, hediting'.line, hreads]
  | reading =>
    have hediting := InTurn.editing hat
    have hediting' := InTurn.editing hat'
    rw [hediting.line, hediting'.line, hreads]
  | entered =>
    obtain ⟨cs, hediting, hediting'⟩ := hentered rfl
    rw [hediting.line, hediting'.line]
  | _ => exact hpc.elim

end Steps

theorem inStep_run (fuel : Nat) {s s' : Scheduler Demo} (screen screen' : Screen) (buffer buffer' : Vector U8 256)
    (actions : List Action) (hs : Tabled 3 s) (hs' : Tabled 3 s') :
    Option.Rel (InStep screen screen' buffer buffer') (run fuel s screen buffer actions)
      (run fuel s' screen' buffer' actions) := by
  have hstart : InStep screen screen' buffer buffer' (start s screen buffer) (start s' screen' buffer') :=
    ⟨⟨⟨rfl, rfl, .nil⟩, 0, ⟨hs, rfl⟩, hs', rfl⟩, ⟨rfl, rfl⟩, rfl, rfl⟩
  exact foldlM_rel _ (fun _ _ a h => step_alike fuel h a) actions hstart

/-- The kernel started with any two schedulers that have the three tasks, ready, on
any screens and with anything in the buffer of the line, takes the same interrupts
and steps in the same way: both runs have a meaning or none has, the driver and
the thread are in the same state, the same characters went to the shell and to
the monitor, the line is the same, and the frames were drawn at the same times. -/
theorem tasks_isolated (fuel : Nat) (s s' : Scheduler Demo) (screen screen' : Screen) (buffer buffer' : Vector U8 256)
    (actions : List Action) (hs : Tabled 3 s) (hs' : Tabled 3 s') :
    Option.Rel (fun σ σ' => Alike σ σ' ∧ (σ.pc.Prompting → σ.shell.line = σ'.shell.line))
      (run fuel s screen buffer actions) (run fuel s' screen' buffer' actions) := by
  have hrun := inStep_run fuel screen screen' buffer buffer' actions hs hs'
  generalize run fuel s screen buffer actions = u at hrun ⊢
  generalize run fuel s' screen' buffer' actions = u' at hrun ⊢
  cases hrun with
  | some h => exact .some ⟨h.tied.alike, h.lines⟩
  | none => exact .none

/-- The three tasks after some work. -/
def busyTasks : Scheduler Demo :=
  { threeTasks.modify 1 fun t => { t with times_run := 5, total_ticks := 2 } with ck_context_switches := 14 }

theorem busyTasks_tabled : Tabled 3 busyTasks := by
  refine ⟨rfl, fun d _ => ?_⟩
  cases d <;> exact ⟨rfl, rfl⟩

/-- Two letters are typed to a kernel that has just started, and to one with another past. -/
theorem tasks_isolated_typing : ∃ σ σ', run 0 threeTasks someScreen (.replicate 256 0) typing = some σ ∧
    run 0 busyTasks (ck_vga_clear_screen someScreen) (.replicate 256 0x41) typing = some σ' ∧
    Alike σ σ' ∧ σ'.shell.line = utf8 "ab" := by
  have hmap : ((run 0 threeTasks someScreen (.replicate 256 0) typing).map fun σ => (σ.pc, σ.shell.line)) =
      some (.head, utf8 "ab") := by
    decide +kernel
  obtain ⟨σ, hσ, heq⟩ := Option.map_eq_some_iff.1 hmap
  obtain ⟨hpc, hline⟩ := Prod.mk.inj heq
  have hrel := tasks_isolated 0 threeTasks busyTasks someScreen (ck_vga_clear_screen someScreen) (.replicate 256 0)
    (.replicate 256 0x41) typing threeTasks_tabled busyTasks_tabled
  rw [hσ] at hrel
  generalize hσ' : run 0 busyTasks (ck_vga_clear_screen someScreen) (.replicate 256 0x41) typing = u at hrel
  cases hrel with
  | @some _ σ' h =>
    refine ⟨σ, σ', hσ, rfl, h.1, ?_⟩
    rw [← h.2 (by rw [hpc]; trivial)]
    exact hline

end CheesecakeOS.Os
