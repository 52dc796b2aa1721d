import CheesecakeOS.Drivers.Keystrokes
import CheesecakeOS.Kernel.OsShell
/-!
# From the keys to the line

The keyboard and the driver of a run of the kernel are a run of the driver
(`input_run`), and every character that the driver returned has come to the
shell or to the monitor, once and in order (`delivered_run`). With the round trip
of the keystrokes this gives: a text that is typed is the line on the screen
(`kernel_types`).
-/
open Lib

namespace CheesecakeOS.Os

open ReadChar (Sys keystroke Typeable Settles codes presses asText waiting)
open Shell
open Game (Demo System)

/-! ## The driver's part of a run -/

/-- The keyboard interrupts of a run. -/
def scancodes (actions : List Action) : List U8 :=
  actions.filterMap fun
    | .keyboard c => some c
    | _ => none

/-- A condition on the driver's actions, as a condition on those of the kernel. -/
def Admits (P : Sys → ReadChar.Action → Prop) (σ : State) : Action → Prop
  | .timer => P σ.input .timer
  | .keyboard c => P σ.input (.keyboard c)
  | .run => P σ.input .read

instance (P : Sys → ReadChar.Action → Prop) [∀ i a, Decidable (P i a)] (σ : State) : ∀ a : Action, Decidable (Admits P σ a)
  | .timer => inferInstanceAs (Decidable (P σ.input .timer))
  | .keyboard c => inferInstanceAs (Decidable (P σ.input (.keyboard c)))
  | .run => inferInstanceAs (Decidable (P σ.input .read))

/-- The thread makes at most one access of the driver at a time. -/
theorem Move.input {fuel : Nat} {σ σ' : State} (h : Move fuel σ σ') :
    σ'.input = σ.input ∨ σ'.input = σ.input.step .read := by
  cases h with
  | access | unused | enter | erase | insert | drainAccess | drained | quit | steer | ignored => exact .inr rfl
  | start | round | returns | halts | opens | closes | waits | frame | halted => exact .inl rfl

theorem Move.halts_for_good {fuel : Nat} {σ σ' : State} (h : Move fuel σ σ') (hpc : σ.pc = .halted) : σ'.pc = .halted := by
  cases h with
  | halted => rfl
  | _ => cases hpc

section Run
variable {fuel : Nat} {s : Scheduler Demo} {screen : Screen} {input_buffer : Vector U8 256} {actions : List Action}
  {σ : State}

theorem run_append {a : Action} (h : run fuel s screen input_buffer (actions ++ [a]) = some σ) :
    ∃ σ₀, run fuel s screen input_buffer actions = some σ₀ ∧ σ₀.step fuel a = some σ := by
  unfold run at h
  rw [List.foldlM_append] at h
  obtain ⟨σ₀, h₀, h⟩ := Option.bind_eq_some_iff.1 h
  refine ⟨σ₀, h₀, ?_⟩
  rw [List.foldlM_cons] at h
  obtain ⟨σ₁, h₁, h⟩ := Option.bind_eq_some_iff.1 h
  cases h
  exact h₁

/-- The input of a run is a run of the driver, under the same conditions. -/
theorem input_run (P : Sys → ReadChar.Action → Prop) : ∀ {σ : State},
    run fuel s screen input_buffer actions = some σ →
    AllowedM (State.step fuel) (Admits P) (start s screen input_buffer) actions →
    ∃ acts, σ.input = ReadChar.run acts ∧ Allowed Sys.step P .start acts ∧
      (σ.pc ≠ .halted → codes acts = scancodes actions) := by
  induction actions using List.reverseRecOn with
  | nil =>
    intro σ h _
    cases h
    exact ⟨[], rfl, allowed_nil _, fun _ => rfl⟩
  | append_singleton actions a ih =>
    intro σ h hP
    obtain ⟨σ₀, h₀, hstep⟩ := run_append h
    obtain ⟨acts, hinput, hallowed, hcodes⟩ := ih h₀ fun pre b σ₁ hpre => hP pre b σ₁ (hpre.trans (List.prefix_append _ _))
    have hmay := hP actions a σ₀ (List.prefix_refl _) h₀
    have hscan : scancodes (actions ++ [a]) = scancodes actions ++ scancodes [a] := List.filterMap_append ..
    -- An action of the driver is taken over into its run.
    have htake : ∀ b : ReadChar.Action, P σ₀.input b → σ.input = σ₀.input.step b → (σ.pc ≠ .halted → σ₀.pc ≠ .halted) →
        codes [b] = scancodes [a] → ∃ acts, σ.input = ReadChar.run acts ∧ Allowed Sys.step P .start acts ∧
          (σ.pc ≠ .halted → codes acts = scancodes (actions ++ [a])) := by
      intro b hb hσ hpc heq
      refine ⟨acts ++ [b], by rw [ReadChar.run_concat, ← hinput, hσ], ?_, fun hne => ?_⟩
      · rw [allowed_concat]
        refine ⟨hallowed, ?_⟩
        rw [hinput] at hb
        exact hb
      · rw [hscan, ← hcodes (hpc hne), ← heq]
        exact List.filterMap_append ..
    have hskip : σ.input = σ₀.input → (σ.pc ≠ .halted → scancodes [a] = [] ∧ σ₀.pc ≠ .halted) →
        ∃ acts, σ.input = ReadChar.run acts ∧ Allowed Sys.step P .start acts ∧
          (σ.pc ≠ .halted → codes acts = scancodes (actions ++ [a])) := by
      intro hσ hnone
      refine ⟨acts, hσ.trans hinput, hallowed, fun hne => ?_⟩
      rw [hscan, (hnone hne).1, List.append_nil, hcodes (hnone hne).2]
    have hserved : ∀ b : ReadChar.Action, P σ₀.input b → σ₀.interrupt b = σ → codes [b] = scancodes [a] →
        ∃ acts, σ.input = ReadChar.run acts ∧ Allowed Sys.step P .start acts ∧
          (σ.pc ≠ .halted → codes acts = scancodes (actions ++ [a])) := by
      intro b hb hσ heq
      subst hσ
      by_cases hpc : σ₀.pc = .halted
      · have hsame : σ₀.interrupt b = σ₀ := by
          unfold State.interrupt
          rw [hpc]
        rw [hsame] at hskip ⊢
        exact hskip rfl fun hne => absurd hpc hne
      · rw [interrupt_running hpc] at htake ⊢
        exact htake b hb rfl (fun hne => hne) heq
    cases a with
    | timer => exact hserved .timer hmay (Option.some.inj hstep) rfl
    | keyboard c => exact hserved (.keyboard c) hmay (Option.some.inj hstep) rfl
    | run =>
      have hmove := thread_move hstep
      have hlive : σ.pc ≠ .halted → σ₀.pc ≠ .halted := fun hne hpc => hne (hmove.halts_for_good hpc)
      rcases hmove.input with hσ | hσ
      · exact hskip hσ fun hne => ⟨rfl, hlive hne⟩
      · exact htake .read hmay hσ hlive rfl

end Run

/-! ## The characters -/

/-- The characters that the shell and the monitor have got. -/
def taken (log : List Event) : List U8 :=
  log.filterMap fun
    | .read c | .key c => some c
    | _ => none

theorem taken_append (l l' : List Event) : taken (l ++ l') = taken l ++ taken l' := List.filterMap_append ..

/-- Not 0. -/
def texts (cs : List U8) : List U8 := cs.filter (· ≠ 0#8)

theorem texts_append (l l' : List U8) : texts (l ++ l') = texts l ++ texts l' := List.filter_append ..

/-- An access that ends a call hands on its character. -/
theorem read_chars (i : Sys) :
    ReadChar.chars (i.step .read).log = ReadChar.chars i.log ++ texts (returned (i.step .read)).toList := by
  have hnone : ReadChar.chars (i.log ++ [.returned 0]) = ReadChar.chars i.log ++ texts [0] := ReadChar.chars_append _ _
  cases hr : i.reader with
  | idle =>
    by_cases he : i.kbd.head = i.kbd.tail
    · simp [Sys.step, hr, returned, he, texts]
    · simp [Sys.step, hr, returned, he, texts]
  | loaded c =>
    by_cases hc : c = 0#8
    · simp [Sys.step, hr, returned, hc, texts]
    · simp [Sys.step, hr, returned, hc, texts]
  | nothing =>
    by_cases hh : i.kbd.held_key = 0#8
    · simpa [Sys.step, hr, hh, Sys.none, returned] using hnone
    · simp [Sys.step, hr, hh, returned, texts]
  | timed now =>
    by_cases hd : now - i.kbd.held_key_time ≥ CK_KEY_REPEAT_INITIAL_DELAY
    · simp [Sys.step, hr, hd, returned, texts]
    · simpa [Sys.step, hr, hd, Sys.none, returned] using hnone
  | delayed now =>
    by_cases hd : now - i.kbd.last_repeat_time ≥ CK_KEY_REPEAT_INTERVAL
    · simp [Sys.step, hr, hd, returned, texts]
    · simpa [Sys.step, hr, hd, Sys.none, returned] using hnone
  | stored =>
    by_cases hk : i.kbd.held_key = 0#8
    · simpa [Sys.step, hr, hk, Sys.none, returned] using hnone
    · simp [Sys.step, hr, hk, returned, texts, ReadChar.chars]
  | found c => simp [Sys.step, hr, returned, texts, ReadChar.chars]
  | compared | held | due => simp [Sys.step, hr, returned, texts]

/-- What the thread does with the character of an access. -/
theorem Move.taken {fuel : Nat} {σ σ' : State} (h : Move fuel σ σ') : ∃ l, σ'.log = σ.log ++ l ∧
    ((σ'.input = σ.input ∧ Os.taken l = []) ∨
      (σ'.input = σ.input.step .read ∧ Os.taken l = (returned (σ.input.step .read)).toList)) := by
  cases h with
  | start | returns | halts | waits | halted => exact ⟨[], (List.append_nil _).symm, .inl ⟨rfl, rfl⟩⟩
  | access hr | drainAccess hr => exact ⟨[], (List.append_nil _).symm, .inr ⟨rfl, by rw [hr]; rfl⟩⟩
  | round | opens | closes | frame => exact ⟨_, rfl, .inl ⟨rfl, rfl⟩⟩
  | unused hr | enter hr | erase hr | insert hr | drained hr | quit hr | steer hr | ignored hr =>
    exact ⟨_, rfl, .inr ⟨rfl, by rw [hr]; rfl⟩⟩

/-- Every character that the driver has returned has come to the shell or the
monitor, once and in order. -/
def Delivered (σ : State) : Prop := ReadChar.chars σ.input.log = texts (taken σ.log)

theorem delivered_run {fuel : Nat} {s : Scheduler Demo} {screen : Screen} {input_buffer : Vector U8 256}
    {actions : List Action} {σ : State} (h : run fuel s screen input_buffer actions = some σ) : Delivered σ := by
  refine run_keeps Delivered rfl ?_ ?_ h
  · intro i y m pc log a hI ha
    cases a with
    | timer => exact hI
    | keyboard c =>
      obtain ⟨-, -, hchars, -⟩ := ReadChar.irq_log i.log i.kbd (ck_keyboard_irq_handler i.kbd c i.ck_timer_ticks) c i.time
      exact hchars.trans hI
    | read => exact absurd rfl ha
  · intro σ σ' hI hmove
    obtain ⟨l, hlog, ⟨hinput, hl⟩ | ⟨hinput, hl⟩⟩ := hmove.taken
    · unfold Delivered
      rw [hinput, hlog, taken_append, hl, List.append_nil]
      exact hI
    · unfold Delivered
      rw [hinput, hlog, taken_append, hl, texts_append, read_chars, hI]

/-! ## The line -/

/-- A character 0 is none. -/
theorem typed_texts (cs : List U8) : typed (texts cs) = typed cs := by
  unfold typed texts
  induction cs using List.reverseRecOn with
  | nil => rfl
  | append_singleton cs c ih =>
    rw [List.filter_append, List.foldl_append, List.foldl_append, ih]
    by_cases hc : c = 0#8
    · subst hc
      rfl
    · simp [hc]

/-- Either the monitor has not been opened and all characters came to the
shell, or they begin with a line that opens it. -/
def Apart (σ : State) : Prop :=
  (taken σ.log = reads σ.log ∧ ¬ σ.pc.InMonitor) ∨
    ∃ cs, cs ++ [0x0A] <+: taken σ.log ∧ commandOf cs = utf8 "taskmon"

theorem Apart.move {screen : Screen} {input_buffer : Vector U8 256} {fuel : Nat} {σ σ' : State} (h : Apart σ)
    (hat : ShellAt screen input_buffer σ) (hmove : Move fuel σ σ') : Apart σ' := by
  rcases h with ⟨hsame, hout⟩ | ⟨cs, hpre, hname⟩
  · have hread : ∀ log c, taken log = reads log → taken (log ++ [.read c]) = reads (log ++ [.read c]) := by
      intro log c hlog
      rw [taken_append, reads_append, hlog]
      rfl
    cases hmove with
    | @round i y y' m log hr =>
      refine .inl ⟨?_, id⟩
      rw [taken_append, reads_append]
      exact congrArg (· ++ []) hsame
    | unused hr hc => exact .inl ⟨hread _ _ hsame, id⟩
    | enter hr => exact .inl ⟨hread _ _ hsame, id⟩
    | erase hr => exact .inl ⟨hread _ _ hsame, id⟩
    | insert hr hp => exact .inl ⟨hread _ _ hsame, id⟩
    | opens ho =>
      obtain ⟨cs, hreads, hturn⟩ := hat
      refine .inr ⟨cs, ?_, hturn.opens ho⟩
      rw [taken_append, hsame, hreads]
      exact List.prefix_append _ _
    | start | access | returns | halts | halted => exact .inl ⟨hsame, id⟩
    | drainAccess | drained | quit | steer | ignored | closes | waits | frame => exact absurd trivial hout
  · obtain ⟨l, hlog, -⟩ := hmove.taken
    refine .inr ⟨cs, hpre.trans ?_, hname⟩
    rw [hlog, taken_append]
    exact List.prefix_append _ _

theorem apart_run {fuel : Nat} {s : Scheduler Demo} {screen : Screen} {input_buffer : Vector U8 256}
    {actions : List Action} {σ : State} (h : run fuel s screen input_buffer actions = some σ) : Apart σ := by
  have hboth : ShellAt screen input_buffer σ ∧ Apart σ := by
    refine run_keeps (fun σ => ShellAt screen input_buffer σ ∧ Apart σ) ⟨⟨rfl, rfl⟩, .inl ⟨rfl, id⟩⟩ ?_ ?_ h
    · intro i y m pc log a hI _
      refine ⟨?_, hI.2⟩
      cases pc <;> exact hI.1
    · intro σ σ' hI hmove
      exact ⟨hI.1.move hmove, hI.2.move hI.1 hmove⟩
  exact hboth.2

/-- A person types a text, pressing and releasing a key for each character, with
shift where it is needed. In every run of the kernel with these keyboard
interrupts, whenever they and the ticks of the timer come: if a change of the
shift flag finds no key waiting, no key was held so long that it repeated, none
was dropped and all have been read, then the shell has got the text as it was
typed, and the line that it makes is what the screen shows. The text must not
open the monitor, which would get the rest of it. -/
theorem kernel_types (fuel : Nat) (s : Scheduler Demo) (screen : Screen) (input_buffer : Vector U8 256)
    (actions : List Action) (σ : State) (text : List U8) (htext : ∀ c ∈ text, Typeable c)
    (hlines : ∀ cs, cs ++ [0x0A] <+: text → commandOf cs ≠ utf8 "taskmon")
    (h : run fuel s screen input_buffer actions = some σ) (hcodes : scancodes actions = text.flatMap keystroke)
    (hsettles : AllowedM (State.step fuel) (Admits Settles) (start s screen input_buffer) actions)
    (hread : ReadChar.Undisturbed σ.input) (hpc : σ.pc = .head ∨ σ.pc = .reading) :
    texts (reads σ.log) = text ∧ LineShown σ.shell ∧ σ.shell.line = typed text := by
  obtain ⟨acts, hinput, hallowed, hacts⟩ := input_run Settles h hsettles
  have hlive : σ.pc ≠ .halted := by
    rcases hpc with hpc | hpc <;> rw [hpc] <;> exact Pc.noConfusion
  obtain ⟨hdrop, hrepeat, hidle, hdrained⟩ := hread
  have hwaiting : waiting σ.input.log = [] := by
    obtain ⟨q, hq⟩ := ReadChar.aligned_run acts
    rw [← hinput] at hq
    refine hq.clear hrepeat ⟨hdrained, ?_⟩
    rw [hidle]
    rfl
  have htaken : texts (taken σ.log) = text := by
    have hdelivered : ReadChar.chars σ.input.log = texts (taken σ.log) := delivered_run h
    rw [hinput] at hdrop hrepeat hwaiting hdelivered
    have hsettled := ReadChar.settled_text hdrop hrepeat hallowed
    rw [hacts hlive, hcodes, ReadChar.keystrokes_text htext, hwaiting, hdelivered] at hsettled
    rw [hsettled]
    exact (List.append_nil _).symm
  have hreads : taken σ.log = reads σ.log := by
    rcases apart_run h with ⟨hsame, -⟩ | ⟨cs, hpre, hname⟩
    · exact hsame
    · -- The line that opened the monitor is one of the text, without the zeros of the polls in between.
      have hline : texts cs ++ [0x0A] <+: text := by
        have hfilter := hpre.filter (· ≠ 0#8)
        rw [← htaken]
        rw [List.filter_append] at hfilter
        exact hfilter
      refine absurd ?_ (hlines _ hline)
      unfold commandOf at hname ⊢
      rw [typed_texts, hname]
  rw [hreads] at htaken
  have hat := shellAt_run h
  have hediting : Editing (typed (reads σ.log)) σ.shell := by
    unfold ShellAt at hat
    rcases hpc with hpc | hpc
    · rw [hpc] at hat
      exact Came.editing hat
    · rw [hpc] at hat
      exact InTurn.editing hat
  refine ⟨htaken, hediting.shown, ?_⟩
  rw [hediting.line, ← typed_texts, htaken]

/-- `Ab` is typed, and each key is read before the next one is pressed. -/
def typingAb : List Action :=
  .run :: [0x2A, 0x1E, 0x9E].map Action.keyboard ++ .replicate 5 .run ++ [0xAA, 0x30, 0xB0].map Action.keyboard ++
    .replicate 5 .run

theorem kernel_types_Ab : ∃ σ, run 0 (Scheduler.zero (ck_heap_init Heap.boot) fun _ => .zero Demo) someScreen
      (.replicate 256 0) typingAb = some σ ∧
    texts (reads σ.log) = utf8 "Ab" ∧ LineShown σ.shell ∧ σ.shell.line = typed (utf8 "Ab") := by
  have hmap : ((run 0 (Scheduler.zero (ck_heap_init Heap.boot) fun _ => .zero Demo) someScreen (.replicate 256 0)
      typingAb).map fun σ => (σ.pc, decide (ReadChar.Undisturbed σ.input))) = some (.head, true) := by
    decide +kernel
  obtain ⟨σ, hσ, heq⟩ := Option.map_eq_some_iff.1 hmap
  obtain ⟨hpc, hread⟩ := Prod.mk.inj heq
  refine ⟨σ, hσ, kernel_types _ _ _ _ _ σ (utf8 "Ab") (by decide +kernel) (fun cs hcs => ?_) hσ (by decide +kernel)
    (by decide +kernel) (of_decide_eq_true hread) (.inl hpc)⟩
  have hmem := hcs.subset (List.mem_append_right cs (List.mem_singleton_self 0x0A))
  exact absurd hmem (by decide +kernel)

end CheesecakeOS.Os
