import CheesecakeOS.Drivers.KeyRepeat
import CheesecakeOS.Kernel.OsShell
/-!
# Sessions of the monitor

The log of a run of the kernel, read by an automaton that knows what the shell
and the monitor are for: a turn of the shell is a round and then a character;
the monitor is opened on an Enter, draws only when it has read all there was and
no sooner than 50 ms after the frame before, and when it has read all there was,
a `q` among it, the next thing it does is to close.

`session_protocol`: the automaton takes every log, and the monitor closes in the
thread's next step when the automaton says so.
-/
open Lib

namespace CheesecakeOS.Os

open ReadChar (Sys)
open Game (Demo System)

/-- Where the kernel is, as far as the log tells. -/
inductive Phase where
  | head
  | reading
  /-- The last character was Enter. -/
  | entered
  /-- In the monitor: the time of its last frame, whether a `q` was read, and
  whether the last key read was none. -/
  | monitor (last : Option Nat) (quit drained : Bool)

/-- The phase after an event, if the event may happen. -/
def Phase.after : Phase → Event → Option Phase
  | .head, .round | .entered, .round => some .reading
  | .reading, .read c => some (if c = 0x0A then .entered else .head)
  | .entered, .opened => some (.monitor none false false)
  | .monitor last quit drained, .key c =>
    -- With a `q` and no key left it is too late for another one.
    if quit ∧ drained then none else some (.monitor last (quit || decide (IsQuit c)) (decide (c = 0)))
  | .monitor last false true, .frame time _ =>
    if ∀ t ∈ last, t + 50 ≤ time then some (.monitor (some time) false false) else none
  | .monitor _ true true, .closed => some .head
  | _, _ => none

/-- The phases of a log when the thread is at `pc`. -/
def Pc.Phased : Pc → Phase → Prop
  | .start, φ => φ = .head
  | .head, φ => φ = .head ∨ φ = .entered
  | .reading, φ => φ = .reading
  | .entered, φ | .halted, φ => φ = .entered
  | .draining s, φ => ∃ last drained, φ = .monitor last s.exit_requested drained ∧ ¬ (s.exit_requested ∧ drained)
  | .drained s, φ => ∃ last, φ = .monitor last s.exit_requested true

/-- The time that the monitor has stored is that of its last frame. -/
def Pc.Stored (time : Nat) : Pc → Phase → Prop
  | .draining s, .monitor last _ _ | .drained s, .monitor last _ _ => ∀ t ∈ last, s.last_draw = .ofNat 32 t ∧ t ≤ time
  | _, _ => True

/-- The log is taken, and the clock is right. -/
structure Follows (σ : State) (φ : Phase) : Prop where
  log : σ.log.foldlM Phase.after .head = some φ
  pc : σ.pc.Phased φ
  clock : σ.input.ck_timer_ticks = .ofNat 32 σ.input.time
  stored : σ.pc.Stored σ.input.time φ

theorem after_append {log : List Event} {φ φ' : Phase} {e : Event} (h : log.foldlM Phase.after .head = some φ)
    (he : φ.after e = some φ') : (log ++ [e]).foldlM Phase.after .head = some φ' := by
  rw [List.foldlM_append, h]
  show [e].foldlM Phase.after φ = some φ'
  rw [List.foldlM_cons, he]
  rfl

/-- The time only goes on, and the tick count with it. -/
theorem step_clock (i : Sys) (a : ReadChar.Action) (h : i.ck_timer_ticks = .ofNat 32 i.time) :
    (i.step a).ck_timer_ticks = .ofNat 32 (i.step a).time ∧ i.time ≤ (i.step a).time := by
  cases a with
  | timer =>
    refine ⟨?_, Nat.le_succ _⟩
    show i.ck_timer_ticks + 1 = .ofNat 32 (i.time + 1)
    rw [h, BitVec.ofNat_add]
    rfl
  | keyboard c => exact ⟨h, Nat.le_refl _⟩
  | read =>
    obtain ⟨hticks, htime⟩ := ReadChar.read_clock i
    exact ⟨by rw [hticks, htime, h], Nat.le_of_eq htime.symm⟩

theorem Pc.Stored.mono {time time' : Nat} {pc : Pc} {φ : Phase} (h : pc.Stored time φ) (hle : time ≤ time') :
    pc.Stored time' φ := by
  unfold Pc.Stored at h ⊢
  split
  · exact fun t ht => ⟨(h t ht).1, Nat.le_trans (h t ht).2 hle⟩
  · exact fun t ht => ⟨(h t ht).1, Nat.le_trans (h t ht).2 hle⟩
  · trivial

/-- A frame that is due comes 50 ticks after the last one. -/
theorem due_later {time t : Nat} {last_draw : U32} (hstored : last_draw = .ofNat 32 t ∧ t ≤ time)
    (hdue : ¬ BitVec.ofNat 32 time - last_draw < FRAME_MS) : t + 50 ≤ time := by
  rw [hstored.1] at hdue
  -- However often the count has come round, it never shows more than has passed.
  have hle := ReadChar.elapsed_le hstored.2
  have hge := BitVec.le_def.1 (BitVec.not_lt.1 hdue)
  rw [show FRAME_MS.toNat = 50 from rfl] at hge
  omega

section Steps
variable {fuel : Nat} {σ σ' : State} {φ : Phase} {i : Sys} {y : System} {m : Shell.ShellState} {log : List Event}

/-- The thread makes an access of a call and logs nothing. -/
theorem Follows.access {pc : Pc} (h : Follows ⟨i, y, m, pc, log⟩ φ) (a : ReadChar.Action) :
    Follows ⟨i.step a, y, m, pc, log⟩ φ := by
  obtain ⟨hclock, hle⟩ := step_clock i a h.clock
  exact ⟨h.log, h.pc, hclock, h.stored.mono hle⟩

/-- The shell gets a character. -/
theorem Follows.read (h : Follows ⟨i, y, m, .reading, log⟩ φ) (c : U8) {m' : Shell.ShellState} {pc : Pc}
    (hpc : pc = if c = 0x0A then .entered else .head) :
    ∃ φ', Follows ⟨i.step .read, y, m', pc, log ++ [.read c]⟩ φ' := by
  obtain ⟨hlog, hphase, hclock, -⟩ := h.access .read
  have hφ : φ = .reading := hphase
  rw [hφ] at hlog
  refine ⟨_, after_append hlog rfl, ?_, hclock, ?_⟩
  · rw [hpc]
    dsimp only
    split
    · exact rfl
    · exact .inl rfl
  · rw [hpc]
    dsimp only
    split <;> trivial

/-- The monitor gets a character. -/
theorem Follows.key {s : Session} (h : Follows ⟨i, y, m, .draining s, log⟩ φ) (c : U8) {y' : System} {pc : Pc}
    (hpc : pc = if c = 0 then .drained s
      else .draining { s with exit_requested := s.exit_requested || decide (IsQuit c) }) :
    ∃ φ', Follows ⟨i.step .read, y', m, pc, log ++ [.key c]⟩ φ' := by
  obtain ⟨hlog, hphase, hclock, hstored⟩ := h.access .read
  obtain ⟨last, drained, rfl, hopen⟩ := hphase
  refine ⟨_, after_append hlog (if_neg hopen), ?_, hclock, ?_⟩
  · rw [hpc]
    dsimp only
    split
    · next h0 =>
      subst h0
      refine ⟨last, ?_⟩
      rw [show decide (IsQuit 0) = false by decide, Bool.or_false]
      rfl
    · next h0 =>
      refine ⟨last, _, rfl, ?_⟩
      rw [decide_eq_false h0]
      exact fun h => absurd h.2 (by decide)
  · rw [hpc]
    dsimp only
    split <;> exact hstored

/-- Whatever the thread does, the log stays one that is taken. -/
theorem Follows.move (h : Follows σ φ) (hmove : Move fuel σ σ') : ∃ φ', Follows σ' φ' := by
  have hfollows := h
  obtain ⟨hlog, hpc, hclock, hstored⟩ := h
  cases hmove with
  | start => exact ⟨φ, hlog, .inl hpc, hclock, trivial⟩
  | @round i y y' m log hr =>
    have hafter : φ.after .round = some .reading := by
      rcases hpc with rfl | rfl <;> rfl
    exact ⟨.reading, after_append hlog hafter, rfl, hclock, trivial⟩
  | access hr => exact ⟨φ, hfollows.access .read⟩
  | unused hr hc => exact hfollows.read _ (if_neg hc.1).symm
  | enter hr => exact hfollows.read _ (if_pos rfl).symm
  | erase hr => exact hfollows.read _ (if_neg (by decide)).symm
  | insert hr hp =>
    refine hfollows.read _ (if_neg ?_).symm
    rintro rfl
    exact absurd hp.1 (by decide)
  | returns hn hm => exact ⟨φ, hlog, .inr hpc, hclock, trivial⟩
  | halts hn hm => exact ⟨φ, hlog, hpc, hclock, trivial⟩
  | opens ho =>
    have hφ : φ = .entered := hpc
    rw [hφ] at hlog
    refine ⟨_, after_append hlog rfl, ⟨none, false, rfl, by decide⟩, hclock, ?_⟩
    intro t ht
    cases ht
  | drainAccess hr => exact ⟨φ, hfollows.access .read⟩
  | drained hr => exact hfollows.key 0 (if_pos rfl).symm
  | quit hr hq =>
    refine hfollows.key _ ?_
    rw [if_neg (by rintro rfl; exact absurd hq (by decide)), decide_eq_true hq, Bool.or_true]
  | steer hr hs =>
    refine hfollows.key _ ?_
    rw [if_neg (by rintro rfl; exact absurd hs (by decide)), decide_eq_false, Bool.or_false]
    rcases hs with rfl | rfl | rfl | rfl <;> decide
  | ignored hr h0 hq hs =>
    refine hfollows.key _ ?_
    rw [if_neg h0, decide_eq_false hq, Bool.or_false]
  | closes he =>
    obtain ⟨last, rfl⟩ := hpc
    rw [he] at hlog
    exact ⟨.head, after_append hlog rfl, .inl rfl, hclock, trivial⟩
  | waits he hw =>
    obtain ⟨last, rfl⟩ := hpc
    exact ⟨_, hlog, ⟨last, true, rfl, by simp [he]⟩, hclock, hstored⟩
  | @frame i y y' m s log he hw hy =>
    obtain ⟨last, rfl⟩ := hpc
    rw [he] at hlog
    change i.ck_timer_ticks = .ofNat 32 i.time at hclock
    have hspaced : ∀ t ∈ last, t + 50 ≤ i.time := by
      intro t ht
      rw [hclock] at hw
      exact due_later (hstored t ht) hw
    refine ⟨_, after_append hlog (if_pos hspaced), ⟨some i.time, false, ?_, by simp⟩, hclock, ?_⟩
    · rw [he]
    · intro t ht
      cases ht
      exact ⟨hclock, Nat.le_refl _⟩
  | halted => exact ⟨φ, hlog, hpc, hclock, trivial⟩

end Steps

/-- The monitor has read a `q` and then all there was, so it closes. -/
theorem Pc.Phased.closes {σ : State} {last : Option Nat} (h : σ.pc.Phased (.monitor last true true)) (fuel : Nat) :
    ∃ σ', σ.step fuel .run = some σ' ∧ σ'.log = σ.log ++ [.closed] := by
  obtain ⟨i, y, m, pc, log⟩ := σ
  cases pc with
  | start | reading | entered | halted => cases h
  | head => rcases h with h | h <;> cases h
  | draining s =>
    obtain ⟨_, _, he, hopen⟩ := h
    obtain ⟨-, hquit, hdrained⟩ := Phase.monitor.inj he
    exact absurd ⟨hquit.symm, hdrained.symm⟩ hopen
  | drained s =>
    obtain ⟨_, he⟩ := h
    obtain ⟨-, hquit, -⟩ := Phase.monitor.inj he
    exact ⟨_, if_pos hquit.symm, rfl⟩

end CheesecakeOS.Os
