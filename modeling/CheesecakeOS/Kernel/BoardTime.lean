import CheesecakeOS.Kernel.Board
/-!
# The tick count and the time

Each period of the timer brings a tick, unless the interrupt of the period before
has not been taken when the line of the timer falls. `machine_ticks` accounts for
all periods. `machine_keeps_time` says how soon the processor has to take
interrupts so that none is missed: `ck_irq_handler` needs at most four of its steps,
so it is enough that after the line has risen the processor makes these and then
takes an interrupt, before the line falls. No other interrupt goes before the
timer's but a spurious one, and after it the four steps count anew.
-/
open Lib

namespace CheesecakeOS.Board

/-! ## How long an interrupt waits -/

/-- What is known of a run from its acts. -/
structure Watch where
  /-- The pulses since `ck_timer_init`. -/
  clocks : Nat
  /-- The steps of the processor since the line rose, and since the last spurious interrupt. -/
  runs : Nat
  /-- Since the line rose, no interrupt was taken after four steps. -/
  waiting : Bool

def Watch.step (w : Watch) : Act → Watch
  | .pulse => if (Pit.after w.clocks).out then { w with clocks := w.clocks + 1 } else ⟨w.clocks + 1, 0, true⟩
  | .run => { w with runs := w.runs + 1 }
  | .accept => if 4 ≤ w.runs then { w with waiting := false } else w
  | .noise _ => { w with runs := 0 }
  | _ => w

/-- A request at the start is like one whose line has just risen. -/
def Watch.start (clocks : Nat) (master : Finset (Fin 8)) : Watch := ⟨clocks, 0, decide (0 ∈ master)⟩

/-- If the line falls, an interrupt has been taken since it rose. -/
def InTime (w : Watch) : Act → Prop
  | .pulse => (Pit.after w.clocks).out = true → (Pit.after (w.clocks + 1)).out = false → w.waiting = false
  | _ => True

instance decidableInTime : ∀ (w : Watch) (a : Act), Decidable (InTime w a)
  | _, .pulse => inferInstanceAs (Decidable (_ → _ → _))
  | _, .key _ | _, .announce | _, .raise _ | _, .withdraw _ | _, .accept | _, .noise _ | _, .run => .isTrue trivial

/-- After every rise of the line the processor makes four steps and then takes an interrupt before the line falls. -/
def Prompt (clocks : Nat) (master : Finset (Fin 8)) (acts : List Act) : Prop :=
  Allowed Watch.step InTime (.start clocks master) acts

instance decidablePrompt (clocks : Nat) (master : Finset (Fin 8)) (acts : List Act) :
    Decidable (Prompt clocks master acts) :=
  decidableAllowed Watch.step InTime acts (.start clocks master)

/-- No period has been missed. While the timer has a request, the steps are those of the handler it waits for. -/
structure Timely (w : Watch) (β : Board) : Prop where
  pit : β.pit = .after w.clocks
  handler : ∀ es, β.service.todo = some es → es.length ≤ 3
  waits : requests β.service 0 ≠ 0 →
    w.waiting = true ∧ ∀ es, β.service.todo = some es → es.length + 1 + w.runs ≤ 4
  missed : β.missed = 0
  once : (β.service.todo.getD []).countP (isCall .ck_timer_irq_handler) ≤ 1

section Steps
variable {s : Interrupts Handler} {clocks : Nat} {o : Origin} {N T : Nat} {S K : List U8} {β : Board} {w : Watch}

/-- The line of the timer and the processor are left alone. -/
theorem Timely.same (h : Timely w β) {β' : Board} (htodo : β'.service.todo = β.service.todo) (hpit : β'.pit = β.pit)
    (hreq : requests β'.service 0 = requests β.service 0) (hmissed : β'.missed = β.missed) : Timely w β' := by
  refine ⟨hpit.trans h.pit, fun es hes => h.handler es (htodo ▸ hes), fun hne => ?_, hmissed.trans h.missed,
    htodo ▸ h.once⟩
  rw [htodo]
  exact h.waits (hreq ▸ hne)

theorem served_length (o : Option Handler) (n : Fin 16) : (served o n).length ≤ 3 := by
  unfold served
  split
  · cases o <;> simp
  · cases o <;> simp

/-- The processor goes to a handler. If the timer still has a request, it waits for all of it. -/
theorem Timely.interrupted (h : Timely w β) {c : Cause} {w' : Watch} (hclocks : w'.clocks = w.clocks)
    (hwaits : requests (β.service.interrupted s c) 0 ≠ 0 → w'.waiting = true ∧ w'.runs = 0) :
    Timely w' { β with service := β.service.interrupted s c } := by
  have hlength : (Service.handling s c.irq).length ≤ 3 := by
    rw [Service.handling_eq]
    exact served_length _ _
  refine ⟨by rw [hclocks]; exact h.pit, fun es hes => ?_, fun hne => ?_, h.missed, ?_⟩
  · cases hes
    exact hlength
  · obtain ⟨hwaiting, hruns⟩ := hwaits hne
    refine ⟨hwaiting, fun es hes => ?_⟩
    cases hes
    omega
  · show (Service.handling s c.irq).countP (isCall .ck_timer_irq_handler) ≤ 1
    rw [Service.handling_eq, count_served]
    split <;> decide

/-- No line goes before the timer's. -/
theorem timer_first : ∀ m : Fin 16, rank m ≤ rank 0 → m = 0 := by
  decide

/-- An interrupt is taken: the timer's, if it has a request. -/
theorem requests_accept (htally : Tally s o N S T K β) (hw : Wired s) (hidle : β.service.todo = none) :
    requests (β.service.step s .accept) 0 = 0 := by
  have hnone := htally.orderly.idle hidle
  have hline : requests β.service 0 ≠ 0 → Service.Waiting s.pics β.service 0 := by
    intro hne
    refine (Service.waiting_master (by decide)).2 ⟨by decide, ?_, hw.unmasked.1⟩
    by_contra hnot
    exact hne (if_neg hnot)
  by_contra hne
  rcases hm : β.service.choose s.pics with _ | m
  · have hstep : β.service.step s .accept = β.service := by simp [Service.step, hidle, hm]
    rw [hstep] at hne
    obtain ⟨m, hsome⟩ := Service.choose_isSome hnone hw.cascade (hline hne)
    cases hm.symm.trans hsome
  · have hstep : β.service.step s .accept = β.service.interrupted s (.line m) := by simp [Service.step, hidle, hm]
    rw [hstep] at hne
    have hwait : requests β.service 0 ≠ 0 := by
      have hle := requests_interrupted hw.waits β.service (.line m)
      omega
    -- The timer goes before all others, and its request goes with its interrupt.
    have hfirst := (Service.choose_first hnone hw.cascade hm).2 0 (hline hwait)
    have hgone := (mem_acknowledge (σ := β.service) (n := 0) hw.waits (by decide) (by decide) (.line m)).not.2
    exact hne (if_neg (hgone fun hin => hin.2 (by rw [timer_first m hfirst])))

theorem Timely.accept (h : Timely w β) (htally : Tally s o N S T K β) (hw : Wired s) :
    Timely (w.step .accept) { β with service := β.service.step s .accept } := by
  have hclocks : (w.step .accept).clocks = w.clocks := by
    unfold Watch.step
    dsimp only
    split <;> rfl
  rcases hidle : β.service.todo with _ | es
  · have hnone := requests_accept htally hw hidle
    rcases hm : β.service.choose s.pics with _ | m
    · have hstep : β.service.step s .accept = β.service := by simp [Service.step, hidle, hm]
      rw [hstep] at hnone ⊢
      exact ⟨by rw [hclocks]; exact h.pit, h.handler, fun hne => absurd hnone hne, h.missed, h.once⟩
    · have hstep : β.service.step s .accept = β.service.interrupted s (.line m) := by simp [Service.step, hidle, hm]
      rw [hstep] at hnone ⊢
      exact h.interrupted hclocks fun hne => absurd hnone hne
  · have hstep : β.service.step s .accept = β.service := by simp [Service.step, hidle]
    rw [hstep]
    refine ⟨by rw [hclocks]; exact h.pit, h.handler, fun hne => ?_, h.missed, h.once⟩
    -- The handler is not over, so these were less than four steps.
    obtain ⟨hwaiting, hsteps⟩ := h.waits hne
    have hruns := hsteps es hidle
    rw [show w.step .accept = w from if_neg (by omega)]
    exact ⟨hwaiting, hsteps⟩

theorem Timely.noise (h : Timely w β) (hw : Wired s) (chip : Chip) :
    Timely (w.step (.noise chip)) { β with service := β.service.step s (.noise chip) } := by
  rcases hidle : β.service.todo with _ | es
  · have hstep : β.service.step s (.noise chip) = β.service.interrupted s (.noise chip) := by simp [Service.step, hidle]
    rw [hstep]
    refine h.interrupted rfl fun hne => ⟨(h.waits fun hnone => hne ?_).1, rfl⟩
    have hle := requests_interrupted hw.waits β.service (.noise chip)
    omega
  · have hstep : β.service.step s (.noise chip) = β.service := by simp [Service.step, hidle]
    rw [hstep]
    refine ⟨h.pit, h.handler, fun hne => ⟨(h.waits hne).1, fun es' hes => ?_⟩, h.missed, h.once⟩
    have hlong := h.handler es' hes
    dsimp only [Watch.step]
    omega

theorem Timely.pulse (h : Timely w β) (hprompt : InTime w .pulse) : Timely (w.step .pulse) β.pulse := by
  have hnext : β.pit.pulse = .after (w.clocks + 1) := by rw [h.pit, Pit.pulse_after]
  unfold Board.pulse Watch.step
  dsimp only
  rw [hnext, h.pit]
  rcases hout : (Pit.after w.clocks).out with _ | _
  · -- The line rises.
    rw [Pit.out_succ hout, if_neg (by decide), if_neg (by decide), if_pos (by decide)]
    refine ⟨rfl, fun es hes => h.handler es (todo_raise 0 ▸ hes), fun _ => ⟨rfl, fun es hes => ?_⟩, h.missed, ?_⟩
    · have hlong := h.handler es (todo_raise 0 ▸ hes)
      dsimp only
      omega
    · rw [todo_raise]
      exact h.once
  rcases hout' : (Pit.after (w.clocks + 1)).out with _ | _
  · -- The line falls, and there is no request.
    have hnone : requests β.service 0 = 0 := by
      by_contra hne
      have htaken := hprompt hout hout'
      rw [(h.waits hne).1] at htaken
      cases htaken
    have hgone : requests (β.service.withdraw 0) 0 = 0 := if_neg (Finset.notMem_erase _ _)
    rw [if_pos rfl, if_pos (by decide)]
    refine ⟨rfl, fun es hes => h.handler es (todo_withdraw 0 ▸ hes), fun hne => absurd hgone hne, ?_, ?_⟩
    · rw [hnone]
      exact h.missed
    · rw [todo_withdraw]
      exact h.once
  · rw [if_pos rfl, if_neg (by decide), if_neg (by decide)]
    exact ⟨rfl, h.handler, h.waits, h.missed, h.once⟩

theorem perform_frame (β : Board) (e : Event Handler) : (β.perform e).service.todo = β.service.todo ∧
    (β.perform e).pit = β.pit ∧ requests (β.perform e).service 0 = requests β.service 0 ∧ (β.perform e).missed = β.missed := by
  rcases e with ⟨handler, irq⟩ | chip
  · cases handler with
    | ck_keyboard_irq_handler => exact ⟨todo_withdraw 1, rfl, requests_withdraw (n := 0) (by decide) (by decide), rfl⟩
    | _ => exact ⟨rfl, rfl, rfl, rfl⟩
  · exact ⟨rfl, rfl, rfl, rfl⟩

theorem Timely.run (h : Timely w β) {fuel : Nat} {β' : Board} (hstep : β.step s fuel .run = some β') :
    Timely (w.step .run) β' := by
  unfold Board.step at hstep
  dsimp only at hstep
  split at hstep
  · next hidle =>
    obtain ⟨os, -, heq⟩ := Option.map_eq_some_iff.1 hstep
    cases heq
    refine ⟨h.pit, h.handler, fun hne => ⟨(h.waits hne).1, fun es hes => ?_⟩, h.missed, h.once⟩
    cases hidle.symm.trans hes
  · next hdone =>
    cases hstep
    rw [step_return hdone]
    exact ⟨h.pit, fun es hes => (by cases hes), fun hne => ⟨(h.waits hne).1, fun es hes => (by cases hes)⟩, h.missed,
      Nat.zero_le _⟩
  · next e es htodo =>
    cases hstep
    have hlong := h.handler _ htodo
    have hrest := (step_event (s := s) htodo).1
    obtain ⟨htodo', hpit, hreq, hmissed⟩ := perform_frame { β with service := β.service.step s .run } e
    have hruns : Timely (w.step .run) { β with service := β.service.step s .run } := by
      refine ⟨h.pit, fun es' hes => ?_, fun hne => ?_, h.missed, ?_⟩
      · cases hrest.symm.trans hes
        exact Nat.le_of_succ_le hlong
      · obtain ⟨hwaiting, hsteps⟩ := h.waits fun hnone => hne ((requests_event (s := s) htodo).trans hnone)
        refine ⟨hwaiting, fun es' hes => ?_⟩
        cases hrest.symm.trans hes
        have hmore : es.length + 1 + 1 + w.runs ≤ 4 := hsteps _ htodo
        show es.length + 1 + (w.runs + 1) ≤ 4
        omega
      · have honce := h.once
        rw [htodo, Option.getD_some, List.countP_cons] at honce
        rw [hrest, Option.getD_some]
        omega
    exact hruns.same htodo' hpit hreq hmissed

theorem Timely.step (h : Timely w β) (htally : Tally s o N S T K β) (hw : Wired s) (hpc : β.os.pc ≠ .halted)
    {fuel : Nat} {a : Act} {β' : Board} (hstep : β.step s fuel a = some β') (hprompt : InTime w a) :
    Timely (w.step a) β' := by
  cases a with
  | pulse =>
    cases hstep
    exact h.pulse hprompt
  | key c =>
    cases hstep
    exact h.same rfl rfl rfl rfl
  | announce =>
    cases hstep
    unfold Board.announce
    split
    · exact h
    · split
      · exact h
      · exact h.same (todo_raise 1) rfl (requests_raise (n := 0) (by decide) (by decide)) rfl
  | raise n =>
    cases hstep
    split
    · exact h
    · next hn =>
      have hne : n ≠ 0 := fun h0 => hn (by rw [h0]; decide)
      unfold Service.step
      dsimp only
      split
      · exact h
      · exact h.same (todo_raise n) rfl (requests_raise (n := 0) (by decide) hne) rfl
  | withdraw n =>
    cases hstep
    split
    · exact h
    · next hn =>
      have hne : n ≠ 0 := fun h0 => hn (by rw [h0]; decide)
      exact h.same (todo_withdraw n) rfl (requests_withdraw (n := 0) (by decide) hne) rfl
  | accept =>
    cases hstep
    rw [if_neg hpc]
    exact h.accept htally hw
  | noise chip =>
    cases hstep
    rw [if_neg hpc]
    exact h.noise hw chip
  | run => exact h.run hstep

/-- The machine stays off. -/
theorem halted_step {fuel : Nat} {a : Act} {β' : Board} (hstep : β.step s fuel a = some β') (hpc : β.os.pc = .halted) :
    β'.os.pc = .halted := by
  have hperform : ∀ (β : Board) (e : Event Handler), (β.perform e).os.pc = β.os.pc := by
    intro β e
    have hinterrupt : ∀ a, (β.os.interrupt a).pc = β.os.pc := by
      intro a
      unfold Os.State.interrupt
      split <;> rfl
    rcases e with ⟨handler, irq⟩ | chip
    · cases handler with
      | ck_irq_default_handler => rfl
      | ck_timer_irq_handler => exact hinterrupt _
      | ck_keyboard_irq_handler => exact hinterrupt _
    · rfl
  cases a with
  | run =>
    unfold Board.step at hstep
    dsimp only at hstep
    split at hstep
    · obtain ⟨os, hos, heq⟩ := Option.map_eq_some_iff.1 hstep
      cases heq
      exact (Os.thread_move hos).halts_for_good hpc
    · cases hstep
      exact hpc
    · cases hstep
      exact (hperform _ _).trans hpc
  | pulse =>
    cases hstep
    unfold Board.pulse
    dsimp only
    split_ifs <;> exact hpc
  | announce =>
    cases hstep
    unfold Board.announce
    split
    · exact hpc
    · split <;> exact hpc
  | key c =>
    cases hstep
    exact hpc
  | raise | withdraw | accept | noise =>
    cases hstep
    split <;> exact hpc

/-- In a run in which the processor is prompt. -/
theorem timely_run (hw : Wired s) {controller : Controller} {master slave : Finset (Fin 8)} {fuel : Nat}
    {tasks : Scheduler Game.Demo} {screen : Shell.Screen} {input_buffer : Vector U8 256} {acts : List Act}
    (hready : Ready clocks controller master)
    (h : Board.run s fuel (.start (.after clocks) controller master slave (Os.start tasks screen input_buffer)) acts = some β) :
    Prompt clocks master acts → β.os.pc ≠ .halted → Timely (acts.foldl Watch.step (.start clocks master)) β := by
  have hstart : Timely (.start clocks master)
      (.start (.after clocks) controller master slave (Os.start tasks screen input_buffer)) := by
    refine ⟨rfl, fun es hes => (by cases hes), fun hne => ⟨?_, fun es hes => (by cases hes)⟩, rfl, Nat.zero_le _⟩
    refine decide_eq_true ?_
    by_contra hnot
    exact hne (if_neg hnot)
  induction acts using List.reverseRecOn generalizing β with
  | nil =>
    cases h
    exact fun _ _ => hstart
  | append_singleton acts a ih =>
    intro hprompt hpc
    obtain ⟨hbefore, hlast⟩ := (allowed_concat _).1 hprompt
    unfold Board.run at h
    rw [List.foldlM_append] at h
    obtain ⟨β₀, hβ₀, hrest⟩ := Option.bind_eq_some_iff.1 h
    have hstep : β₀.step s fuel a = some β := by simpa using hrest
    -- It has not been halted before either.
    have hpc₀ : β₀.os.pc ≠ .halted := fun hhalt => hpc (halted_step hstep hhalt)
    obtain ⟨actions, htally, -⟩ := tally_run hw hready hβ₀
    rw [List.foldl_append]
    exact (ih hβ₀ hbefore hpc₀).step htally hw hpc₀ hstep hlast

end Steps

/-! ## The tick count -/

section Main
variable (A : StubAddresses) (at_ : U32) (boot : Interrupts Handler) (pit : Pit) (fuel : Nat) (tasks : Scheduler Game.Demo)
  (screen : Shell.Screen) (input_buffer : Vector U8 256) (clocks : Nat) (controller : Controller)
  (master slave : Finset (Fin 8)) (acts : List Act) (β : Board)

/-- If the processor is prompt and has not been halted, no period has been missed, and the count is that of the periods
since interrupts were enabled, but for the last two, which may be on their way. -/
theorem machine_keeps_time (hready : Ready clocks controller master) (hprompt : Prompt clocks master acts)
    (h : Board.run (initDevices A at_ boot pit).1 fuel (.start (Pit.pulse^[clocks] (initDevices A at_ boot pit).2) controller
      master slave (Os.start tasks screen input_buffer)) acts = some β) (hpc : β.os.pc ≠ .halted) :
    β.missed = 0 ∧ owed β.service 0 .ck_timer_irq_handler ≤ 2 ∧
      ∃ ticks, β.os.input.ck_timer_ticks = .ofNat 32 ticks ∧
        ticks + owed β.service 0 .ck_timer_irq_handler + Pit.rises clocks =
          (if 0 ∈ master then 1 else 0) + Pit.rises (clocks + pulses acts) := by
  have hw := init_wired A at_ boot pit
  rw [init_pit] at h
  obtain ⟨actions, htally, -⟩ := tally_run hw hready h
  have htimely := timely_run hw hready h hprompt hpc
  have hticks := htally.ticks
  rw [htimely.missed] at hticks
  have hrequest : requests β.service (lineOf 0) ≤ 1 := by
    unfold requests
    split <;> decide
  exact ⟨htimely.missed, Nat.add_le_add hrequest htimely.once, timers actions, htally.clock, hticks⟩

/-- A request waits, and is taken when the processor has made four steps; then the line falls and rises again. -/
theorem machine_keeps_time_next :
    let s := (initDevices someStubs 0x102000 someMachine .programmed).1
    let acts : List Act := [.run, .run, .run, .run, .accept, .run, .pulse, .pulse]
    ∃ β, Board.run s 0 (.start (Pit.pulse^[2385] (initDevices someStubs 0x102000 someMachine .programmed).2) ⟨0, false, []⟩ {0} ∅
        (Os.start Os.threeTasks Shell.someScreen (.replicate 256 0))) acts = some β ∧ β.missed = 0 ∧
      ∃ ticks, β.os.input.ck_timer_ticks = .ofNat 32 ticks ∧ ticks + owed β.service 0 .ck_timer_irq_handler = 2 := by
  intro s acts
  have hmap : (Board.run s 0 (.start (Pit.pulse^[2385] (initDevices someStubs 0x102000 someMachine .programmed).2) ⟨0, false, []⟩
      {0} ∅ (Os.start Os.threeTasks Shell.someScreen (.replicate 256 0))) acts).map (fun β => β.os.pc) = some .head := by
    rw [init_pit]
    decide +kernel
  obtain ⟨β, hβ, hpc⟩ := Option.map_eq_some_iff.1 hmap
  obtain ⟨hmissed, -, ticks, hclock, hticks⟩ := machine_keeps_time someStubs 0x102000 someMachine .programmed 0 Os.threeTasks
    Shell.someScreen (.replicate 256 0) 2385 ⟨0, false, []⟩ {0} ∅ acts β ⟨by simp, by decide⟩ (by decide +kernel) hβ
    (by rw [hpc]; decide)
  refine ⟨β, hβ, hmissed, ticks, hclock, ?_⟩
  rw [if_pos (by decide), show Pit.rises 2385 = 1 by decide, show Pit.rises (2385 + pulses acts) = 2 by decide] at hticks
  omega

end Main

end CheesecakeOS.Board
