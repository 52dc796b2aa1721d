import CheesecakeOS.Drivers.ReadChar
/-!
# Key repeat

When is a repeat the repeat of a key that is being held? `repeat_sound`: in
every run in which no key is pressed between the accesses of a call that would
then take the new key for the old one, and the clock does not tick between the
accesses of a call that is about to repeat, every repeat is of the key pressed
last, which has not been released, 500 ticks after its press and 50 after its
last repeat.

The accesses of a call do not belong together otherwise: `now` is older than
the press, and `now - held_key_time` wraps.
-/
open Lib

namespace CheesecakeOS.ReadChar

open Keyboard (IsMake)

/-! ## The property -/

/-- Key `k` was pressed at tick `t`, and since then no other key has been
pressed and `k` has not been released. -/
def LastPress (log : List Event) (k : U8) (t : Nat) : Prop :=
  ∃ before since, log = before ++ .irq k t :: since ∧
    ∀ c u, .irq c u ∈ since → ¬ IsMake c ∧ c ≠ k + 0x80#8

/-- What must be true when key `k` is repeated at tick `t`, `pre` being the log so far. -/
structure RepeatOk (pre : List Event) (k : U8) (t : Nat) : Prop where
  make : IsMake k
  press : ∃ u, LastPress pre k u ∧ u + 500 ≤ t
  interval : ∀ u, .repeated k u ∈ pre → u + 50 ≤ t

def RepeatsOk (log : List Event) : Prop := ∀ pre k t, pre ++ [.repeated k t] <+: log → RepeatOk pre k t

section Log
variable {log l : List Event} {k : U8} {t : Nat}

theorem LastPress.append (h : LastPress log k t) (hl : ∀ c u, .irq c u ∈ l → ¬ IsMake c ∧ c ≠ k + 0x80#8) :
    LastPress (log ++ l) k t := by
  obtain ⟨before, since, rfl, hsince⟩ := h
  refine ⟨before, since ++ l, by simp, fun c u hc => ?_⟩
  rcases List.mem_append.1 hc with hc | hc
  · exact hsince c u hc
  · exact hl c u hc

theorem RepeatsOk.concat {e : Event} (h : RepeatsOk log) (he : ∀ k t, e = .repeated k t → RepeatOk log k t) :
    RepeatsOk (log ++ [e]) := by
  intro pre k t hp
  rcases List.prefix_concat_iff.1 hp with heq | hp
  · obtain ⟨rfl, hlast⟩ := List.append_inj' heq rfl
    exact he k t (List.cons.inj hlast).1.symm
  · exact h pre k t hp

/-- Other events do not matter. -/
theorem RepeatsOk.append (h : RepeatsOk log) (hl : ∀ k t, .repeated k t ∉ l) : RepeatsOk (log ++ l) := by
  induction l using List.reverseRecOn with
  | nil => rwa [List.append_nil]
  | append_singleton l e ih =>
    rw [← List.append_assoc]
    apply (ih fun k t hm => hl k t (List.mem_append_left [e] hm)).concat
    rintro k t rfl
    exact absurd (List.mem_append_right l (List.mem_singleton_self _)) (hl k t)

end Log

/-! ## The condition -/

/-- The tests still to come let the call repeat the key that is held. -/
def Reader.Due (s : Keyboard) : Reader → Prop
  | .timed now => now - s.held_key_time ≥ CK_KEY_REPEAT_INITIAL_DELAY ∧ now - s.last_repeat_time ≥ CK_KEY_REPEAT_INTERVAL
  | .delayed now => now - s.last_repeat_time ≥ CK_KEY_REPEAT_INTERVAL
  | .due _ | .stored => True
  | _ => False

/-- The call under way is about to repeat a key. -/
def Sys.AboutToRepeat (σ : Sys) : Prop := σ.kbd.held_key ≠ 0#8 ∧ σ.reader.Due σ.kbd

/-- The call under way would not repeat a key pressed now. -/
def Reader.SafeToPress (ticks : U32) : Reader → Prop
  | .timed now => now - ticks < CK_KEY_REPEAT_INITIAL_DELAY
  | .delayed now => now - ticks < CK_KEY_REPEAT_INTERVAL
  | .due _ | .stored => False
  | _ => True

/-- No tick while a repeat is on its way, and no press that the call under way
would mistake. Code 0 is not a key to `held_key`. -/
def Timely (σ : Sys) : Action → Prop
  | .timer => ¬ σ.AboutToRepeat
  | .keyboard c => IsMake c → c ≠ 0#8 → σ.reader.SafeToPress σ.ck_timer_ticks
  | .read => True

instance (s : Keyboard) : ∀ r : Reader, Decidable (r.Due s)
  | .timed _ => inferInstanceAs (Decidable (_ ∧ _))
  | .delayed _ => inferInstanceAs (Decidable (_ ≥ _))
  | .due _ | .stored => inferInstanceAs (Decidable True)
  | .idle | .compared | .loaded _ | .nothing | .held | .found _ => inferInstanceAs (Decidable False)

instance (ticks : U32) : ∀ r : Reader, Decidable (r.SafeToPress ticks)
  | .timed _ | .delayed _ => inferInstanceAs (Decidable (_ < _))
  | .due _ | .stored => inferInstanceAs (Decidable False)
  | .idle | .compared | .loaded _ | .nothing | .held | .found _ => inferInstanceAs (Decidable True)

instance (σ : Sys) : ∀ a : Action, Decidable (Timely σ a)
  | .timer => inferInstanceAs (Decidable (¬ (_ ∧ _)))
  | .keyboard c => inferInstanceAs (Decidable (IsMake c → c ≠ 0#8 → σ.reader.SafeToPress σ.ck_timer_ticks))
  | .read => inferInstanceAs (Decidable True)

/-! ## The invariant -/

/-- While a key is held, the two times stored are those of its press and of
the last repeat, if there was one since. -/
structure Holding (σ : Sys) : Prop where
  make : IsMake σ.kbd.held_key
  press : ∃ t, LastPress σ.log σ.kbd.held_key t ∧ σ.kbd.held_key_time = .ofNat 32 t ∧ t ≤ σ.time
  repeats : ∃ t, σ.kbd.last_repeat_time = .ofNat 32 t ∧ t ≤ σ.time ∧ ∀ k u, .repeated k u ∈ σ.log → u ≤ t

/-- A call that goes on to repeat a key has read the clock as it is. -/
def Reader.Current (σ : Sys) : Reader → Prop
  | .timed now =>
    now = σ.ck_timer_ticks ∨ now - σ.kbd.held_key_time < CK_KEY_REPEAT_INITIAL_DELAY ∨
      now - σ.kbd.last_repeat_time < CK_KEY_REPEAT_INTERVAL
  | .delayed now =>
    (now = σ.ck_timer_ticks ∧ now - σ.kbd.held_key_time ≥ CK_KEY_REPEAT_INITIAL_DELAY) ∨
      now - σ.kbd.last_repeat_time < CK_KEY_REPEAT_INTERVAL
  | .due now =>
    now = σ.ck_timer_ticks ∧ now - σ.kbd.held_key_time ≥ CK_KEY_REPEAT_INITIAL_DELAY ∧
      now - σ.kbd.last_repeat_time ≥ CK_KEY_REPEAT_INTERVAL
  | .stored =>
    σ.kbd.last_repeat_time = σ.ck_timer_ticks ∧
      σ.ck_timer_ticks - σ.kbd.held_key_time ≥ CK_KEY_REPEAT_INITIAL_DELAY ∧
      ∀ k u, .repeated k u ∈ σ.log → u + 50 ≤ σ.time
  | _ => True

theorem Reader.Current.congr {σ σ' : Sys} {r : Reader} (h : r.Current σ)
    (hticks : σ'.ck_timer_ticks = σ.ck_timer_ticks) (htime : σ'.time = σ.time)
    (hheld : σ'.kbd.held_key_time = σ.kbd.held_key_time) (hlast : σ'.kbd.last_repeat_time = σ.kbd.last_repeat_time)
    (hlog : ∀ k u, .repeated k u ∈ σ'.log → .repeated k u ∈ σ.log) : r.Current σ' := by
  cases r with
  | timed now | delayed now | due now =>
    unfold Current at h ⊢
    rw [hticks, hheld, hlast]
    exact h
  | stored =>
    obtain ⟨hstored, hdelay, hrepeats⟩ := h
    refine ⟨by rw [hlast, hticks]; exact hstored, by rw [hticks, hheld]; exact hdelay, fun k u hu => ?_⟩
    rw [htime]
    exact hrepeats k u (hlog k u hu)
  | _ => trivial

structure Inv (σ : Sys) : Prop where
  clock : σ.ck_timer_ticks = .ofNat 32 σ.time
  past : ∀ k u, .repeated k u ∈ σ.log → u ≤ σ.time
  holding : σ.kbd.held_key ≠ 0#8 → Holding σ
  reader : σ.kbd.held_key ≠ 0#8 → σ.reader.Current σ
  log : RepeatsOk σ.log

/-- A difference of tick counts is at most the time that has passed. -/
theorem elapsed_le {t u : Nat} (h : u ≤ t) : (BitVec.ofNat 32 t - .ofNat 32 u).toNat ≤ t - u := by
  rw [BitVec.toNat_sub, BitVec.toNat_ofNat, BitVec.toNat_ofNat]
  omega

/-! ## Interrupts -/

/-- The handler and the key that is held. -/
theorem irq_held (s : Keyboard) (c : U8) (now : U32) :
    let s' := ck_keyboard_irq_handler s c now
    (IsMake c ∧ s'.held_key = c ∧ s'.held_key_time = now ∧ s'.last_repeat_time = now) ∨
      (¬ IsMake c ∧ s'.held_key_time = s.held_key_time ∧ s'.last_repeat_time = s.last_repeat_time ∧
        (s'.held_key = 0#8 ∨ (s'.held_key = s.held_key ∧ (IsMake s.held_key → c ≠ s.held_key + 0x80#8)))) := by
  have hcodes : ∀ k : U8, IsMake k → k + 0x80#8 ≠ 0x2A#8 ∧ k + 0x80#8 ≠ 0x36#8 ∧ k + 0x80#8 ≠ 0xAA#8 ∧
      k + 0x80#8 ≠ 0xB6#8 := by
    decide +kernel
  unfold ck_keyboard_irq_handler
  by_cases hshift : c = 0x2A#8 ∨ c = 0x36#8
  · have hn : ¬ IsMake c := fun h => hshift.elim h.2.1 h.2.2
    simp only [if_pos hshift]
    refine .inr ⟨hn, trivial, trivial, .inr ⟨trivial, fun hk he => ?_⟩⟩
    rw [he] at hshift
    exact hshift.elim (hcodes _ hk).1 (hcodes _ hk).2.1
  · by_cases hup : c = 0xAA#8 ∨ c = 0xB6#8
    · have hn : ¬ IsMake c := by rcases hup with rfl | rfl <;> decide
      simp only [if_neg hshift, if_pos hup]
      refine .inr ⟨hn, trivial, trivial, .inr ⟨trivial, fun hk he => ?_⟩⟩
      rw [he] at hup
      exact hup.elim (hcodes _ hk).2.2.1 (hcodes _ hk).2.2.2
    · by_cases hrel : c ≥ 0x80#8
      · have hn : ¬ IsMake c := fun h => BitVec.not_lt.2 hrel h.1
        simp only [if_neg hshift, if_neg hup, if_pos hrel]
        by_cases hheld : s.held_key = c - 0x80#8
        · rw [if_pos hheld]
          exact .inr ⟨hn, rfl, rfl, .inl rfl⟩
        · rw [if_neg hheld]
          refine .inr ⟨hn, rfl, rfl, .inr ⟨rfl, fun _ he => hheld ?_⟩⟩
          rw [he, BitVec.add_sub_cancel]
      · have hmake : IsMake c := ⟨BitVec.not_le.1 hrel, not_or.1 hshift⟩
        simp only [if_neg hshift, if_neg hup, if_neg hrel]
        split <;> exact .inl ⟨hmake, rfl, rfl, rfl⟩

theorem irqEvents_quiet (s s' : Keyboard) (c : U8) : (∀ k t, .repeated k t ∉ irqEvents s s' c) ∧
    ∀ d t, .irq d t ∉ irqEvents s s' c := by
  unfold irqEvents
  split
  · simp
  · split <;> simp

section Step
variable {σ : Sys}

theorem inv_timer (h : Inv σ) (hmay : ¬ σ.AboutToRepeat) : Inv (σ.step .timer) := by
  refine ⟨?_, fun k u hu => Nat.le_succ_of_le (h.past k u hu), fun hheld => ?_, fun hheld => ?_, h.log⟩
  · show σ.ck_timer_ticks + 1 = .ofNat 32 (σ.time + 1)
    rw [h.clock, BitVec.ofNat_add]
    rfl
  · obtain ⟨hmake, ⟨t, hpress, htime, ht⟩, u, hrepeat, hu, hrepeats⟩ := h.holding hheld
    exact ⟨hmake, ⟨t, hpress, htime, Nat.le_succ_of_le ht⟩, u, hrepeat, Nat.le_succ_of_le hu, hrepeats⟩
  · -- A call that is not about to repeat stays so.
    have hidle : ¬ σ.reader.Due σ.kbd := fun hdue => hmay ⟨hheld, hdue⟩
    show σ.reader.Current (σ.step .timer)
    cases hr : σ.reader with
    | timed now =>
      rw [hr] at hidle
      rcases not_and_or.1 hidle with hlt | hlt
      · exact .inr (.inl (BitVec.not_le.1 hlt))
      · exact .inr (.inr (BitVec.not_le.1 hlt))
    | delayed now =>
      rw [hr] at hidle
      exact .inr (BitVec.not_le.1 hidle)
    | due now =>
      rw [hr] at hidle
      exact absurd trivial hidle
    | stored =>
      rw [hr] at hidle
      exact absurd trivial hidle
    | _ => trivial

/-- What a handler activation adds to the log is no repeat. -/
theorem irq_no_repeat (s' : Keyboard) (c : U8) {k : U8} {u : Nat}
    (hm : .repeated k u ∈ σ.log ++ .irq c σ.time :: irqEvents σ.kbd s' c) : .repeated k u ∈ σ.log := by
  rcases List.mem_append.1 hm with hm | hm
  · exact hm
  · rcases List.mem_cons.1 hm with hm | hm
    · cases hm
    · exact absurd hm ((irqEvents_quiet _ _ _).1 k u)

theorem inv_keyboard (h : Inv σ) (c : U8) (hmay : IsMake c → c ≠ 0#8 → σ.reader.SafeToPress σ.ck_timer_ticks) :
    Inv (σ.step (.keyboard c)) := by
  have hcases := irq_held σ.kbd c σ.ck_timer_ticks
  have hevents := fun d u => (irqEvents_quiet σ.kbd (ck_keyboard_irq_handler σ.kbd c σ.ck_timer_ticks) c).2 d u
  have hrepeat := fun k u => irq_no_repeat (σ := σ) (ck_keyboard_irq_handler σ.kbd c σ.ck_timer_ticks) c (k := k) (u := u)
  have hlog : RepeatsOk (σ.log ++ .irq c σ.time :: irqEvents σ.kbd (ck_keyboard_irq_handler σ.kbd c σ.ck_timer_ticks) c) := by
    apply h.log.append
    intro k u hm
    rcases List.mem_cons.1 hm with hm | hm
    · cases hm
    · exact (irqEvents_quiet _ _ _).1 k u hm
  simp only [Sys.step]
  generalize ck_keyboard_irq_handler σ.kbd c σ.ck_timer_ticks = s' at hcases hevents hrepeat hlog ⊢
  refine ⟨h.clock, fun k u hm => h.past k u (hrepeat k u hm), fun hheld => ?_, fun hheld => ?_, hlog⟩
  · rcases hcases with ⟨hmake, hkey, htime, hlast⟩ | ⟨hmake, htime, hlast, hzero | ⟨hkey, hrelease⟩⟩
    · refine ⟨?_, ⟨σ.time, ?_, ?_, Nat.le_refl _⟩, σ.time, ?_, Nat.le_refl _, fun k u hm => h.past k u (hrepeat k u hm)⟩
      · exact hkey ▸ hmake
      · refine ⟨σ.log, irqEvents σ.kbd s' c, by rw [hkey], fun d u hm => absurd hm (hevents d u)⟩
      · exact htime.trans h.clock
      · exact hlast.trans h.clock
    · exact absurd hzero hheld
    · obtain ⟨hm, ⟨t, hpress, hpt, ht⟩, u, hu, hut, hrepeats⟩ := h.holding (hkey ▸ hheld)
      refine ⟨hkey ▸ hm, ⟨t, ?_, htime.trans hpt, ht⟩, u, hlast.trans hu, hut, fun k v hv => hrepeats k v (hrepeat k v hv)⟩
      dsimp only
      rw [hkey]
      apply hpress.append
      intro d v hv
      rcases List.mem_cons.1 hv with hv | hv
      · cases hv
        exact ⟨hmake, hrelease hm⟩
      · exact absurd hv (hevents d v)
  · dsimp only at hheld ⊢
    rcases hcases with ⟨hmake, hkey, htime, hlast⟩ | ⟨hmake, htime, hlast, hzero | ⟨hkey, hrelease⟩⟩
    · have hsafe := hmay hmake (hkey ▸ hheld)
      cases hr : σ.reader with
      | timed now =>
        rw [hr] at hsafe
        exact .inr (.inl (by dsimp only; rw [htime]; exact hsafe))
      | delayed now =>
        rw [hr] at hsafe
        exact .inr (by dsimp only; rw [hlast]; exact hsafe)
      | due now =>
        rw [hr] at hsafe
        exact hsafe.elim
      | stored =>
        rw [hr] at hsafe
        exact hsafe.elim
      | _ => trivial
    · exact absurd hzero hheld
    · exact (h.reader (hkey ▸ hheld)).congr rfl rfl htime hlast hrepeat

/-- An access that changes neither the clock nor what is known of the key held. -/
structure Quiet (σ σ' : Sys) (l : List Event) : Prop where
  ticks : σ'.ck_timer_ticks = σ.ck_timer_ticks
  time : σ'.time = σ.time
  key : σ'.kbd.held_key = σ.kbd.held_key
  pressed : σ'.kbd.held_key_time = σ.kbd.held_key_time
  last : σ'.kbd.last_repeat_time = σ.kbd.last_repeat_time
  log : σ'.log = σ.log ++ l
  noRepeat : ∀ k u, .repeated k u ∉ l
  noIrq : ∀ c u, .irq c u ∉ l

theorem Inv.quiet {σ' : Sys} {l : List Event} (h : Inv σ) (hq : Quiet σ σ' l)
    (hreader : σ.kbd.held_key ≠ 0#8 → σ'.reader.Current σ') : Inv σ' := by
  have hrepeat : ∀ k u, .repeated k u ∈ σ'.log → .repeated k u ∈ σ.log := by
    intro k u hm
    rw [hq.log] at hm
    exact (List.mem_append.1 hm).elim id fun hm => absurd hm (hq.noRepeat k u)
  refine ⟨?_, fun k u hm => ?_, fun hheld => ?_, fun hheld => hreader (hq.key ▸ hheld), ?_⟩
  · rw [hq.ticks, hq.time]
    exact h.clock
  · rw [hq.time]
    exact h.past k u (hrepeat k u hm)
  · obtain ⟨hmake, ⟨t, hpress, ht, hle⟩, u, hu, hule, hrepeats⟩ := h.holding (hq.key ▸ hheld)
    refine ⟨by rw [hq.key]; exact hmake, ⟨t, ?_, hq.pressed.trans ht, by rw [hq.time]; exact hle⟩, u, hq.last.trans hu,
      by rw [hq.time]; exact hule, fun k v hv => hrepeats k v (hrepeat k v hv)⟩
    rw [hq.log, hq.key]
    exact hpress.append fun c v hv => absurd hv (hq.noIrq c v)
  · rw [hq.log]
    exact h.log.append hq.noRepeat

theorem quiet_reader (r : Reader) : Quiet σ { σ with reader := r } [] :=
  ⟨rfl, rfl, rfl, rfl, rfl, by simp, by simp, by simp⟩

theorem quiet_none : Quiet σ σ.none [.returned 0] :=
  ⟨rfl, rfl, rfl, rfl, rfl, rfl, by simp, by simp⟩

theorem Inv.none (h : Inv σ) : Inv σ.none := h.quiet quiet_none fun _ => trivial

/-- The store of `last_repeat_time`. -/
theorem inv_due (h : Inv σ) {now : U32} (hr : σ.reader = .due now) :
    Inv { σ with kbd := { σ.kbd with last_repeat_time := now }, reader := .stored } := by
  have hcurrent := h.reader
  rw [hr] at hcurrent
  refine ⟨h.clock, h.past, fun hheld => ?_, fun hheld => ?_, h.log⟩
  · obtain ⟨hmake, hpress, -⟩ := h.holding hheld
    obtain ⟨hnow, -, -⟩ := hcurrent hheld
    exact ⟨hmake, hpress, σ.time, hnow.trans h.clock, Nat.le_refl _, h.past⟩
  · obtain ⟨-, -, t, ht, hle, hrepeats⟩ := h.holding hheld
    obtain ⟨hnow, hdelay, hinterval⟩ := hcurrent hheld
    refine ⟨hnow, by rw [← hnow]; exact hdelay, fun k u hu => ?_⟩
    have hpassed : 50 ≤ _ := BitVec.le_def.1 hinterval
    rw [hnow, h.clock, ht] at hpassed
    have helapsed := elapsed_le hle
    have hut := hrepeats k u hu
    show u + 50 ≤ σ.time
    omega

/-- The load of the key to repeat. -/
theorem inv_stored (h : Inv σ) (hr : σ.reader = .stored) (hheld : σ.kbd.held_key ≠ 0#8) :
    Inv { σ with reader := .found σ.kbd.held_key, log := σ.log ++ [.repeated σ.kbd.held_key σ.time] } := by
  obtain ⟨hmake, ⟨t, hpress, ht, hle⟩, -⟩ := h.holding hheld
  have hcurrent := h.reader hheld
  rw [hr] at hcurrent
  obtain ⟨hlast, hdelay, hrepeats⟩ := hcurrent
  have hok : RepeatOk σ.log σ.kbd.held_key σ.time := by
    refine ⟨hmake, ⟨t, hpress, ?_⟩, hrepeats σ.kbd.held_key⟩
    have hpassed : 500 ≤ _ := BitVec.le_def.1 hdelay
    rw [h.clock, ht] at hpassed
    have helapsed := elapsed_le hle
    omega
  have hpast : ∀ k u, .repeated k u ∈ σ.log ++ [.repeated σ.kbd.held_key σ.time] → u ≤ σ.time := by
    intro k u hm
    rcases List.mem_append.1 hm with hm | hm
    · exact h.past k u hm
    · cases List.mem_singleton.1 hm
      exact Nat.le_refl _
  refine ⟨h.clock, hpast, fun _ => ?_, fun _ => trivial, h.log.concat ?_⟩
  · exact ⟨hmake, ⟨t, hpress.append (by simp), ht, hle⟩, σ.time, hlast.trans h.clock, Nat.le_refl _, hpast⟩
  · rintro k u he
    cases he
    exact hok

theorem inv_read (h : Inv σ) : Inv (σ.step .read) := by
  have hcurrent := h.reader
  unfold Sys.step
  dsimp only
  cases hr : σ.reader with
  | idle => exact h.quiet (quiet_reader _) fun _ => by dsimp only; split <;> trivial
  | compared => exact h.quiet (quiet_reader _) fun _ => trivial
  | loaded c =>
    apply h.quiet (l := [])
    · exact ⟨rfl, rfl, rfl, rfl, rfl, (List.append_nil _).symm, by simp, by simp⟩
    · intro _
      dsimp only
      split <;> trivial
  | nothing =>
    dsimp only
    split
    · exact h.quiet (quiet_reader _) fun _ => trivial
    · exact h.none
  | held => exact h.quiet (quiet_reader _) fun _ => .inl rfl
  | timed now =>
    dsimp only
    split
    · next hdelay =>
      apply h.quiet (quiet_reader _)
      intro hheld
      rw [hr] at hcurrent
      rcases hcurrent hheld with hnow | hlt | hlt
      · exact .inl ⟨hnow, hdelay⟩
      · exact absurd hdelay (BitVec.not_le.2 hlt)
      · exact .inr hlt
    · exact h.none
  | delayed now =>
    dsimp only
    split
    · next hdue =>
      apply h.quiet (quiet_reader _)
      intro hheld
      rw [hr] at hcurrent
      rcases hcurrent hheld with ⟨hnow, hdelay⟩ | hlt
      · exact ⟨hnow, hdelay, hdue⟩
      · exact absurd hdue (BitVec.not_le.2 hlt)
    · exact h.none
  | due now => exact inv_due h hr
  | stored =>
    dsimp only
    split
    · exact h.none
    · next hheld => exact inv_stored h hr hheld
  | found c =>
    apply h.quiet (l := [.translated c σ.kbd.shift_pressed, .returned (ck_scancode_to_ascii c σ.kbd.shift_pressed)])
    · exact ⟨rfl, rfl, rfl, rfl, rfl, rfl, by simp, by simp⟩
    · exact fun _ => trivial

end Step

theorem inv_step (σ : Sys) (a : Action) (h : Inv σ) (hmay : Timely σ a) : Inv (σ.step a) := by
  cases a with
  | timer => exact inv_timer h hmay
  | keyboard c => exact inv_keyboard h c hmay
  | read => exact inv_read h

/-! ## Every run -/

theorem inv_start : Inv .start :=
  ⟨rfl, by simp [Sys.start], fun h => absurd rfl h, fun h => absurd rfl h, fun pre k t hp => by simp [Sys.start] at hp⟩

/-- In every run without a press or a tick between the accesses of a call that
would not notice it, every repeat is a repeat of a key that is held. -/
theorem repeat_sound (actions : List Action) (h : Allowed Sys.step Timely .start actions) :
    RepeatsOk (run actions).log :=
  (run_inv Sys.step Inv inv_step actions .start inv_start h).log

/-- Key A held for 500 ticks and read twice: the second call repeats it. -/
theorem repeat_sound_held :
    let actions := .keyboard 0x1E :: List.replicate 4 .read ++ List.replicate 500 .timer ++ List.replicate 7 .read
    Allowed Sys.step Timely .start actions ∧ .repeated 0x1E 500 ∈ (run actions).log ∧ RepeatsOk (run actions).log := by
  intro actions
  have hallowed : Allowed Sys.step Timely .start actions := by decide +kernel
  exact ⟨hallowed, by decide +kernel, repeat_sound actions hallowed⟩

/-- Key A held, a call reads the clock, and key B is pressed a tick later: the
call takes the time since the press of B for a very long one and repeats B. -/
theorem repeat_spurious :
    let actions := .keyboard 0x1E :: List.replicate 7 .read ++ [.timer, .keyboard 0x30] ++ List.replicate 4 .read
    ¬ RepeatsOk (run actions).log := by
  intro actions hok
  have hlog : ∃ pre, (run actions).log = pre ++ [.repeated 0x30 1] := by
    refine ⟨(run actions).log.dropLast, ?_⟩
    decide +kernel
  obtain ⟨pre, hpre⟩ := hlog
  obtain ⟨u, -, hu⟩ := (hok pre 0x30 1 (by rw [hpre])).press
  omega

end CheesecakeOS.ReadChar
