import CheesecakeOS.Kernel.Os
import CheesecakeOS.Kernel.Terminal
/-!
# The shell in the running kernel

What the thread does between interrupts is what `ck_shell_run` does with turns
that are given to it: the characters are those that the driver returned to the
shell, and the monitor's frames are drawn one by one while the keyboard and the
timer go on (`ShellAt`). So what was proved of the shell's loop holds of the
kernel as a whole (`kernel_line_shown`).
-/
open Lib

namespace CheesecakeOS.Os

open ReadChar (Sys)
open Shell
open Game (Demo System)

/-- The characters that the shell has got. -/
def reads (log : List Event) : List U8 :=
  log.filterMap fun
    | .read c => some c
    | _ => none

theorem reads_append (l l' : List Event) : reads (l ++ l') = reads l ++ reads l' := List.filterMap_append ..

/-- The frames of the session that was opened last. -/
def sessionFrames (log : List Event) : List (Kernel Demo) :=
  log.foldl (fun frames e => match e with
    | .opened => []
    | .frame _ k => frames ++ [k]
    | _ => frames) []

theorem sessionFrames_append (log : List Event) (e : Event) : sessionFrames (log ++ [e]) =
    match e with
    | .opened => []
    | .frame _ k => sessionFrames log ++ [k]
    | _ => sessionFrames log := by
  unfold sessionFrames
  rw [List.foldl_append]
  rfl

/-! ## The monitor, frame by frame -/

/-- The shell's state in the monitor after some frames. -/
def monitored (m : ShellState) (frames : List (Kernel Demo)) : ShellState :=
  frames.foldl (fun m k => frameDrawn k m) (monitorOpened m)

/-- The loop of the monitor, with the rest of the shell's state left alone. -/
theorem run_monitor_eq (m : ShellState) (frames : List (Kernel Demo)) :
    let m' := frames.foldl (fun m k => frameDrawn k m) { m with screen := clearMonitor m.screen }
    ck_visualizer_run_monitor frames m.prev_counters m.screen = (vga_cursor_enable m'.screen, m'.prev_counters) ∧
      m' = { m with screen := m'.screen, prev_counters := m'.prev_counters } := by
  have hloop : ∀ (frames : List (Kernel Demo)) (m : ShellState),
      frames.foldl (fun p k =>
        let count := (ck_scheduler_task_count k.scheduler).toNat
        (drawFrame k p.2 p.1, fun i => if i < count then k.counter i else p.2 i)) (m.screen, m.prev_counters) =
      ((frames.foldl (fun m k => frameDrawn k m) m).screen, (frames.foldl (fun m k => frameDrawn k m) m).prev_counters) ∧
      frames.foldl (fun m k => frameDrawn k m) m =
        { m with screen := (frames.foldl (fun m k => frameDrawn k m) m).screen
                 prev_counters := (frames.foldl (fun m k => frameDrawn k m) m).prev_counters } := by
    intro frames
    induction frames with
    | nil => intro m; exact ⟨rfl, rfl⟩
    | cons k frames ih =>
      intro m
      obtain ⟨h1, h2⟩ := ih (frameDrawn k m)
      exact ⟨h1, h2⟩
  intro m'
  obtain ⟨h1, h2⟩ := hloop frames { m with screen := clearMonitor m.screen }
  refine ⟨?_, h2⟩
  exact congrArg (fun p : Screen × (Nat → U32) => (vga_cursor_enable p.1, p.2)) h1

/-- A session of the monitor is the command `taskmon`. -/
theorem enter_taskmon {m : ShellState} (h : OpensMonitor m) (t : Turn Demo) :
    enter m t = .ok (monitorClosed (monitored m t.frames) t.ticks_after) := by
  have hexec : ck_shell_execute (entering m) t m.line = .ok (taskmon (tracked (entering m) m.line) t) := by
    rw [execute_branch, show branchOf _ _ = lineBranch m.line from rfl, h]
    rfl
  have hmon : taskmon (tracked (entering m) m.line) t =
      restart { monitored m t.frames with screen := vga_cursor_enable (monitored m t.frames).screen } t.ticks_after := by
    obtain ⟨hrun, hrest⟩ := run_monitor_eq ((tracked (entering m) m.line).print taskmonOps) t.frames
    change ck_visualizer_run_monitor _ _ _ =
      (vga_cursor_enable (monitored m t.frames).screen, (monitored m t.frames).prev_counters) at hrun
    change monitored m t.frames = { (tracked (entering m) m.line).print taskmonOps with
      screen := (monitored m t.frames).screen, prev_counters := (monitored m t.frames).prev_counters } at hrest
    unfold taskmon
    dsimp only
    rw [hrun]
    -- But for the screen and the counters the monitor leaves the shell's state alone.
    generalize monitored m t.frames = u at hrest ⊢
    obtain ⟨s, history, last, prev, buffer, len⟩ := u
    simp only [ShellState.mk.injEq] at hrest
    obtain ⟨-, rfl, rfl, -, rfl, rfl⟩ := hrest
    rfl
  show (do let m ← ck_shell_execute (entering m) t m.line; return { m with input_len := 0 }.print promptOps) = _
  rw [hexec, hmon]
  rfl

/-! ## The shell's turns -/

section Turns
variable (screen : Screen) (input_buffer : Vector U8 256)

/-- The shell has come to the head of its loop in state `m` with the characters `cs`. -/
def Came (cs : List U8) (m : ShellState) : Prop :=
  ∃ (ticks : U32) (turns : List (Turn Demo)), turns.map Turn.c = cs ∧ ck_shell_run screen input_buffer ticks turns = .ok m

/-- The shell is in a turn that found it in state `m₀`, and has drawn the status. -/
def InTurn (cs : List U8) (m : ShellState) : Prop :=
  ∃ m₀ now, Came screen input_buffer cs m₀ ∧ m = ck_shell_draw_status m₀ now

/-- What is known of the shell's state by where the thread is; the characters
of the turns are those of the log. -/
def ShellAt (σ : State) : Prop :=
  match σ.pc with
  | .start => σ.shell = .boot screen input_buffer ∧ reads σ.log = []
  | .head => Came screen input_buffer (reads σ.log) σ.shell
  | .reading => InTurn screen input_buffer (reads σ.log) σ.shell
  | .entered => ∃ cs, reads σ.log = cs ++ [0x0A] ∧ InTurn screen input_buffer cs σ.shell
  | .draining _ | .drained _ => ∃ cs m, reads σ.log = cs ++ [0x0A] ∧ InTurn screen input_buffer cs m ∧
      OpensMonitor m ∧ σ.shell = monitored m (sessionFrames σ.log)
  | .halted => ∃ cs m, ∃ t : Turn Demo, reads σ.log = cs ++ [0x0A] ∧ InTurn screen input_buffer cs m ∧
      enter m t = .error σ.shell

variable {screen input_buffer} {cs : List U8} {m m' : ShellState}

/-- A turn that comes back to the head. -/
theorem Came.turn (h : Came screen input_buffer cs m) {t : Turn Demo} (ht : turn m t = .ok m') :
    Came screen input_buffer (cs ++ [t.c]) m' := by
  obtain ⟨ticks, turns, hcs, hrun⟩ := h
  refine ⟨ticks, turns ++ [t], by rw [List.map_append, hcs]; rfl, ?_⟩
  unfold ck_shell_run at hrun ⊢
  rw [List.foldlM_append, hrun]
  show List.foldlM Shell.turn m [t] = _
  rw [List.foldlM_cons, ht]
  rfl

/-- The rest of a turn after the status line. -/
theorem InTurn.ends (h : InTurn screen input_buffer cs m) {c : U8} (k : Kernel Demo) (frames : List (Kernel Demo))
    (after : U32) (ht : ∀ m₀ now, m = ck_shell_draw_status m₀ now → turn m₀ ⟨now, c, k, frames, after⟩ = .ok m') :
    Came screen input_buffer (cs ++ [c]) m' := by
  obtain ⟨m₀, now, hcame, hm⟩ := h
  exact hcame.turn (ht m₀ now hm)

/-- A command ends the turn. -/
theorem InTurn.enters (h : InTurn screen input_buffer cs m) {t : Turn Demo} (ht : enter m t = .ok m') :
    Came screen input_buffer (cs ++ [0x0A]) m' := by
  refine h.ends t.kernel t.frames t.ticks_after fun m₀ now hm => ?_
  rw [← ht, hm]
  rfl

/-- Another character ends it. -/
theorem InTurn.gets (h : InTurn screen input_buffer cs m) {c : U8} (k : Kernel Demo) (hc : c ≠ 0x0A) :
    Came screen input_buffer (cs ++ [c]) (if c = 0 then m else if c = 0x08 then erase m
      else if 32 ≤ c ∧ c < 127 then insert m c else m) := by
  refine h.ends k [] 0 fun m₀ now hm => ?_
  unfold Shell.turn
  dsimp only
  rw [← hm, if_neg hc]
  split_ifs <;> rfl

/-- Whatever the thread does, the shell's part of it is a turn of its loop. -/
theorem ShellAt.move {fuel : Nat} {σ σ' : State} (h : ShellAt screen input_buffer σ) (hmove : Move fuel σ σ') :
    ShellAt screen input_buffer σ' := by
  cases hmove with
  | @start i y m log =>
    obtain ⟨hm, hreads⟩ := h
    refine ⟨i.ck_timer_ticks, [], hreads.symm, ?_⟩
    change m = _ at hm
    rw [hm]
    rfl
  | @round i y y' m log hr =>
    refine ⟨m, i.ck_timer_ticks, ?_, rfl⟩
    rw [reads_append]
    exact (List.append_nil (reads log)).symm ▸ h
  | access hr => exact h
  | @unused i y m log c hr hc =>
    obtain ⟨hn, hb, hp⟩ := hc
    have hgets := InTurn.gets (c := c) h (State.kernel ⟨i, y, m, .reading, log⟩) hn
    rw [if_neg hb, if_neg hp, ite_self] at hgets
    show Came _ _ (reads (log ++ [.read c])) m
    rw [reads_append]
    exact hgets
  | @enter i y m log hr =>
    refine ⟨reads log, ?_, h⟩
    rw [reads_append]
    rfl
  | @erase i y m log hr =>
    have hgets := InTurn.gets (c := 0x08) h (State.kernel ⟨i, y, m, .reading, log⟩) (by decide)
    show Came _ _ (reads (log ++ [.read 0x08])) _
    rw [reads_append]
    exact hgets
  | @insert i y m log c hr hp =>
    have hne : c ≠ 0 ∧ c ≠ 0x0A ∧ c ≠ 0x08 := by
      refine ⟨?_, ?_, ?_⟩ <;> rintro rfl <;> exact absurd hp.1 (by decide)
    have hgets := InTurn.gets (c := c) h (State.kernel ⟨i, y, m, .reading, log⟩) hne.2.1
    rw [if_neg hne.1, if_neg hne.2.2, if_pos hp] at hgets
    show Came _ _ (reads (log ++ [.read c])) _
    rw [reads_append]
    exact hgets
  | returns hn hm =>
    obtain ⟨cs, hreads, hturn⟩ := h
    have hcame := InTurn.enters hturn hm
    rw [← hreads] at hcame
    exact hcame
  | halts hn hm =>
    obtain ⟨cs, hreads, hturn⟩ := h
    exact ⟨cs, _, _, hreads, hturn, hm⟩
  | @opens i y m log ho =>
    obtain ⟨cs, hreads, hturn⟩ := h
    refine ⟨cs, m, ?_, hturn, ho, ?_⟩
    · rw [reads_append, hreads]
      exact List.append_nil _
    · rw [sessionFrames_append]
      rfl
  | drainAccess hr => exact h
  | drained hr | quit hr | steer hr | ignored hr =>
    obtain ⟨cs, m, hreads, hturn, ho, hm⟩ := h
    refine ⟨cs, m, ?_, hturn, ho, ?_⟩
    · rw [reads_append, hreads]
      exact List.append_nil _
    · rw [sessionFrames_append]
      exact hm
  | @closes i y m s log he =>
    obtain ⟨cs, m₀, hreads, hturn, ho, hm⟩ := h
    change m = monitored m₀ (sessionFrames log) at hm
    -- All of the session is the turn that its Enter began.
    have hcame := InTurn.enters hturn
      (enter_taskmon ho ⟨0, 0x0A, State.kernel ⟨i, y, m, .head, log⟩, sessionFrames log, i.ck_timer_ticks⟩)
    show Came _ _ (reads (log ++ [.closed])) (monitorClosed m i.ck_timer_ticks)
    rw [reads_append, hreads, hm]
    exact (List.append_nil (cs ++ [0x0A])).symm ▸ hcame
  | waits he hw => exact h
  | @frame i y y' m s log he hw hy =>
    obtain ⟨cs, m₀, hreads, hturn, ho, hm⟩ := h
    change m = monitored m₀ (sessionFrames log) at hm
    refine ⟨cs, m₀, ?_, hturn, ho, ?_⟩
    · rw [reads_append, hreads]
      exact List.append_nil _
    · rw [sessionFrames_append]
      unfold monitored
      rw [List.foldl_append]
      exact congrArg (frameDrawn _) hm
  | halted => exact h

theorem shellAt_run {fuel : Nat} {s : Scheduler Demo} {actions : List Action} {σ : State}
    (h : run fuel s screen input_buffer actions = some σ) : ShellAt screen input_buffer σ :=
  run_keeps (ShellAt screen input_buffer) ⟨rfl, rfl⟩ (fun _ _ _ pc _ _ hI _ => by cases pc <;> exact hI)
    (fun _ _ hI hmove => hI.move hmove) h

end Turns

/-! ## The line -/

/-- The branch of a line is the one of the command that its first word names. -/
theorem lineBranch_command {l : List U8} (hl : ∀ c ∈ l, c ≠ 0#8) (c : Command) :
    lineBranch l = .command c ↔ ck_get_first_word l 64 = c.name := by
  have hword : ∀ b ∈ ck_get_first_word l 64, b ≠ 0#8 := fun b hb =>
    hl b (List.takeWhile_subset _ (List.mem_of_mem_take hb))
  exact (branchOf_spec fun c' => strcmp_eq_zero_iff hword (name_spec c').2.2).1 c

section Line
variable {l : List U8} {m m' : ShellState}

/-- `reboot` does not come back. -/
theorem editing_reboot (h : Editing l m) (t : Turn Demo) (hname : ck_get_first_word l 64 = utf8 "reboot") :
    ∃ m', enter m t = .error m' := by
  have hbranch : lineBranch l = .command .reboot := (lineBranch_command h.bytes .reboot).2 hname
  refine ⟨(tracked (entering m) l).print rebootOps, ?_⟩
  show (do let m ← ck_shell_execute (entering m) t m.line; return { m with input_len := 0 }.print promptOps) = _
  rw [h.line, execute_branch, show branchOf _ _ = lineBranch l from rfl, hbranch]
  rfl

/-- A turn that comes back has edited the line. -/
theorem editing_turned (h : Editing l m) {t : Turn Demo} (ht : turn m t = .ok m') : Editing (edit l t.c) m' := by
  by_cases hreboot : t.c = 0x0A ∧ ck_get_first_word l 64 = utf8 "reboot"
  · obtain ⟨hc, hname⟩ := hreboot
    obtain ⟨m₁, hm₁⟩ := editing_reboot (h.status t.ticks) t hname
    unfold Shell.turn at ht
    dsimp only at ht
    rw [if_neg (by rw [hc]; decide), if_pos hc, hm₁] at ht
    cases ht
  · obtain ⟨m₁, hm₁, hnext⟩ := h.turn t fun hc hname => hreboot ⟨hc, hname⟩
    rw [hm₁] at ht
    cases ht
    exact hnext

theorem Came.editing {screen : Screen} {input_buffer : Vector U8 256} {cs : List U8}
    (h : Came screen input_buffer cs m) : Editing (typed cs) m := by
  obtain ⟨ticks, turns, rfl, hrun⟩ := h
  induction turns using List.reverseRecOn generalizing m with
  | nil =>
    obtain ⟨m₁, hm₁, hediting⟩ := run_editing screen input_buffer ticks ([] : List (Turn Demo)) fun pre hpre => by
      simp at hpre
    cases hm₁.symm.trans hrun
    exact hediting
  | append_singleton turns t ih =>
    unfold ck_shell_run at hrun
    rw [List.foldlM_append] at hrun
    cases hbefore : turns.foldlM Shell.turn (restart (.boot screen input_buffer) ticks) with
    | error e =>
      rw [hbefore] at hrun
      cases hrun
    | ok m₁ =>
      rw [hbefore] at hrun
      have hlast : Shell.turn m₁ t = .ok m := by
        change List.foldlM Shell.turn m₁ [t] = _ at hrun
        rw [List.foldlM_cons] at hrun
        cases hturn : Shell.turn m₁ t with
        | error e =>
          rw [hturn] at hrun
          cases hrun
        | ok m₂ =>
          rw [hturn] at hrun
          exact hrun
      rw [List.map_append]
      unfold typed
      rw [List.foldl_append]
      exact editing_turned (ih hbefore) hlast

theorem InTurn.editing {screen : Screen} {input_buffer : Vector U8 256} {cs : List U8}
    (h : InTurn screen input_buffer cs m) : Editing (typed cs) m := by
  obtain ⟨m₀, now, hcame, rfl⟩ := h
  exact hcame.editing.status now

end Line

/-- The first word of the line. -/
abbrev commandOf (cs : List U8) : List U8 := ck_get_first_word (typed cs) 64

/-- The monitor is opened by its command. -/
theorem InTurn.opens {screen : Screen} {input_buffer : Vector U8 256} {cs : List U8} {m : ShellState}
    (h : InTurn screen input_buffer cs m) (ho : OpensMonitor m) : commandOf cs = utf8 "taskmon" := by
  have hediting := h.editing
  unfold OpensMonitor at ho
  rw [hediting.line] at ho
  exact (lineBranch_command hediting.bytes .taskmon).1 ho

/-- In every run of the kernel, whenever interrupts come: while the shell waits
for a key, the screen shows the line being edited, and this is what has been made
of the characters that the driver has returned to the shell, those that the
monitor took left out. When the thread is in the monitor, the last line entered
was `taskmon`; and it has stopped only if that was `reboot`. -/
theorem kernel_line_shown (fuel : Nat) (s : Scheduler Demo) (screen : Screen) (input_buffer : Vector U8 256)
    (actions : List Action) (σ : State) (h : run fuel s screen input_buffer actions = some σ) :
    match σ.pc with
    | .start => reads σ.log = []
    | .head | .reading => LineShown σ.shell ∧ σ.shell.line = typed (reads σ.log)
    | .entered => ∃ cs, reads σ.log = cs ++ [0x0A] ∧ LineShown σ.shell ∧ σ.shell.line = typed cs
    | .draining _ | .drained _ => ∃ cs, reads σ.log = cs ++ [0x0A] ∧ commandOf cs = utf8 "taskmon"
    | .halted => ∃ cs, reads σ.log = cs ++ [0x0A] ∧ commandOf cs = utf8 "reboot" := by
  have hat := shellAt_run h
  obtain ⟨i, y, m, pc, log⟩ := σ
  have hmonitor : (∃ cs m₀, reads log = cs ++ [0x0A] ∧ InTurn screen input_buffer cs m₀ ∧ OpensMonitor m₀ ∧
      m = monitored m₀ (sessionFrames log)) → ∃ cs, reads log = cs ++ [0x0A] ∧ commandOf cs = utf8 "taskmon" := by
    rintro ⟨cs, m₀, hreads, hturn, ho, -⟩
    exact ⟨cs, hreads, hturn.opens ho⟩
  cases pc with
  | start => exact hat.2
  | head =>
    have hediting := Came.editing hat
    exact ⟨hediting.shown, hediting.line⟩
  | reading =>
    have hediting := InTurn.editing hat
    exact ⟨hediting.shown, hediting.line⟩
  | entered =>
    obtain ⟨cs, hreads, hturn⟩ := hat
    exact ⟨cs, hreads, hturn.editing.shown, hturn.editing.line⟩
  | draining _ => exact hmonitor hat
  | drained _ => exact hmonitor hat
  | halted =>
    obtain ⟨cs, m₀, t, hreads, hturn, herror⟩ := hat
    refine ⟨cs, hreads, ?_⟩
    -- Any other command comes back.
    by_contra hname
    obtain ⟨m₁, hm₁, -⟩ := hturn.editing.enter t hname
    rw [hm₁] at herror
    cases herror

/-- Two letters are typed, the second while the first is read. -/
def typing : List Action :=
  [.run, .timer, .keyboard 0x1E, .run, .run, .run, .timer, .keyboard 0x30, .run, .run] ++ .replicate 5 .run

theorem kernel_line_shown_typing : ∃ σ, run 0 (Scheduler.zero (ck_heap_init Heap.boot) fun _ => .zero Demo) someScreen
      (.replicate 256 0) typing = some σ ∧ σ.pc = .head ∧
    LineShown σ.shell ∧ σ.shell.line = utf8 "ab" := by
  have hmap : ((run 0 (Scheduler.zero (ck_heap_init Heap.boot) fun _ => .zero Demo) someScreen (.replicate 256 0) typing).map
      fun σ => (σ.pc, reads σ.log)) = some (.head, utf8 "ab") := by
    decide +kernel
  obtain ⟨σ, hσ, heq⟩ := Option.map_eq_some_iff.1 hmap
  obtain ⟨hpc, hreads⟩ := Prod.mk.inj heq
  have hshown := kernel_line_shown _ _ _ _ _ _ hσ
  rw [hpc, hreads] at hshown
  exact ⟨σ, hσ, hpc, hshown.1, hshown.2.trans (by decide +kernel)⟩

end CheesecakeOS.Os
