import CheesecakeOS.Drivers.ReadChar
/-!
# Typed text

Codes are put into the buffer by the interrupt handler and translated when
they are read, with the shift flag of that moment. So the text depends on how
the reads lie among the interrupts. `typed_text_iff`: two runs with the same
interrupts give the text as typed, each key under the shift flag of its press,
exactly when no read of a key that shift changes finds another shift flag than
its press did.
-/
open Lib

namespace CheesecakeOS.ReadChar

open Keyboard (IsMake)

/-! ## The text as typed -/

/-- The shift flag after a code. -/
def shiftAfter (shift c : U8) : U8 :=
  if c = 0x2A#8 ∨ c = 0x36#8 then 1 else if c = 0xAA#8 ∨ c = 0xB6#8 then 0 else shift

/-- Keys with the shift flag at their press, and the flag now. -/
structure Presses where
  keys : List (U8 × U8)
  shift : U8

def Presses.add (p : Presses) (c : U8) : Presses :=
  ⟨if IsMake c then p.keys ++ [(c, p.shift)] else p.keys, shiftAfter p.shift c⟩

def presses (codes : List U8) : Presses := codes.foldl Presses.add ⟨[], 0⟩

/-- The character of a key under a shift flag. -/
def keyChar (k : U8 × U8) : U8 := ck_scancode_to_ascii k.1 k.2

/-- The characters of keys, without those that have none. -/
def asText (keys : List (U8 × U8)) : List U8 := (keys.map keyChar).filter (· ≠ 0#8)

/-- The keyboard interrupts of a run. -/
def codes (actions : List Action) : List U8 :=
  actions.filterMap fun
    | .keyboard c => some c
    | _ => none

/-- The characters other than 0 that the calls returned. -/
def chars (log : List Event) : List U8 :=
  (log.filterMap fun
    | .returned c => some c
    | _ => none).filter (· ≠ 0#8)

def irqCodes (log : List Event) : List U8 :=
  log.filterMap fun
    | .irq c _ => some c
    | _ => none

def acceptedKeys (log : List Event) : List (U8 × U8) :=
  log.filterMap fun
    | .accepted c f => some (c, f)
    | _ => none

/-- Code 0 stands for no key when it is read. -/
def keysToRead (log : List Event) : List (U8 × U8) := (acceptedKeys log).filter (·.1 ≠ 0#8)

def translations (log : List Event) : List (U8 × U8) :=
  log.filterMap fun
    | .translated c f => some (c, f)
    | _ => none

/-- A key that shift changes is translated under the shift flag of its press. -/
def KeepsShift (σ : Sys) : Action → Prop
  | .read => ∀ c shift, σ.reader = .found c → (keysToRead σ.log)[(translations σ.log).length]? = some (c, shift) →
      ShiftMatters c → (σ.kbd.shift_pressed = 0#8 ↔ shift = 0#8)
  | _ => True

/-! ## Logs -/

section Log
variable (l l' : List Event)

theorem chars_append : chars (l ++ l') = chars l ++ chars l' := by simp [chars]

theorem irqCodes_append : irqCodes (l ++ l') = irqCodes l ++ irqCodes l' := List.filterMap_append ..

theorem acceptedKeys_append : acceptedKeys (l ++ l') = acceptedKeys l ++ acceptedKeys l' := List.filterMap_append ..

theorem keysToRead_append : keysToRead (l ++ l') = keysToRead l ++ keysToRead l' := by
  simp [keysToRead, acceptedKeys_append]

theorem translations_append : translations (l ++ l') = translations l ++ translations l' := List.filterMap_append ..

end Log

theorem asText_append (l l' : List (U8 × U8)) : asText (l ++ l') = asText l ++ asText l' := by simp [asText]

/-- Code 0 has no character. -/
theorem asText_keysToRead (log : List Event) : asText (keysToRead log) = asText (acceptedKeys log) := by
  have hzero : ∀ f, ck_scancode_to_ascii 0#8 f = 0#8 := by
    intro f
    unfold ck_scancode_to_ascii
    split <;> rfl
  unfold keysToRead
  induction acceptedKeys log with
  | nil => rfl
  | cons k keys ih =>
    by_cases hk : k.1 = 0#8
    · rw [List.filter_cons_of_neg (by simpa using hk), ih]
      simp [asText, keyChar, hk, hzero]
    · rw [List.filter_cons_of_pos (by simpa using hk)]
      simp only [asText, List.map_cons, List.filter_cons] at ih ⊢
      rw [ih]

/-- The shift flag matters only as zero or not, and only for keys that shift changes. -/
theorem to_ascii_eq_iff (c f g : U8) :
    ck_scancode_to_ascii c f = ck_scancode_to_ascii c g ↔ (ShiftMatters c → (f = 0#8 ↔ g = 0#8)) := by
  have hshift : ∀ f : U8, f ≠ 0#8 → ck_scancode_to_ascii c f = ck_scancode_to_ascii c 1#8 := by
    intro f hf
    unfold ck_scancode_to_ascii
    rw [if_pos hf, if_pos (by decide)]
  unfold ShiftMatters
  by_cases hf : f = 0#8
  · by_cases hg : g = 0#8
    · simp [hf, hg]
    · rw [hf, hshift g hg]
      simp [hg]
  · by_cases hg : g = 0#8
    · rw [hg, hshift f hf]
      simp [hf, eq_comm]
    · rw [hshift f hf, hshift g hg]
      simp [hf, hg]

/-! ## The invariant -/

/-- A call under way works on the front of the queue `q`. -/
def Reader.On : Reader → List U8 → Prop
  | .compared, q => ∃ c rest, q = c :: rest
  | .loaded c, q => ∃ rest, q = c :: rest
  | _, _ => True

theorem Reader.On.append {r : Reader} {q : List U8} (h : r.On q) (c : U8) : r.On (q ++ [c]) := by
  cases r with
  | compared =>
    obtain ⟨d, rest, rfl⟩ := h
    exact ⟨d, rest ++ [c], rfl⟩
  | loaded d =>
    obtain ⟨rest, rfl⟩ := h
    exact ⟨rest ++ [c], rfl⟩
  | _ => trivial

/-- A code taken out of the buffer and not translated yet. -/
def Reader.pending : Reader → List U8
  | .found c => [c]
  | _ => []

/-- The codes in the buffer are those accepted and not yet taken out. -/
structure Aligned (σ : Sys) (q : List U8) : Prop where
  ring : σ.kbd.Holds q
  reader : σ.reader.On q
  shift : σ.kbd.shift_pressed = (presses (irqCodes σ.log)).shift
  keys : (∀ c, .dropped c ∉ σ.log) → acceptedKeys σ.log = (presses (irqCodes σ.log)).keys
  order : (∀ k t, .repeated k t ∉ σ.log) → (keysToRead σ.log).map Prod.fst =
    (translations σ.log).map Prod.fst ++ σ.reader.pending ++ q.filter (· ≠ 0#8)
  chars : chars σ.log = asText (translations σ.log)

theorem aligned_start : Aligned .start [] :=
  ⟨Ring.Queue.empty _ (by decide), trivial, rfl, fun _ => rfl, fun _ => rfl, rfl⟩

theorem irq_shift (s : Keyboard) (c : U8) (now : U32) :
    (ck_keyboard_irq_handler s c now).shift_pressed = shiftAfter s.shift_pressed c := by
  unfold ck_keyboard_irq_handler shiftAfter
  by_cases hshift : c = 0x2A#8 ∨ c = 0x36#8
  · rw [if_pos hshift, if_pos hshift]
  · by_cases hup : c = 0xAA#8 ∨ c = 0xB6#8
    · rw [if_neg hshift, if_neg hshift, if_pos hup, if_pos hup]
    · rw [if_neg hshift, if_neg hshift, if_neg hup, if_neg hup]
      dsimp only
      repeat' split
      all_goals rfl

theorem presses_concat (cs : List U8) (c : U8) : presses (cs ++ [c]) = (presses cs).add c := by
  simp [presses]

section Step
variable {σ : Sys} {q : List U8}

/-- What an activation of the handler adds to the log. -/
theorem irq_log (log : List Event) (s s' : Keyboard) (c : U8) (time : Nat) :
    let log' := log ++ .irq c time :: irqEvents s s' c
    irqCodes log' = irqCodes log ++ [c] ∧ translations log' = translations log ∧ chars log' = chars log ∧
      acceptedKeys log' = acceptedKeys log ++ if s'.head ≠ s.head then [(c, s.shift_pressed)] else [] := by
  intro log'
  have hlog : log' = log ++ [.irq c time] ++ irqEvents s s' c := by simp [log']
  rw [hlog, irqCodes_append, irqCodes_append, translations_append, translations_append, chars_append, chars_append,
    acceptedKeys_append, acceptedKeys_append]
  unfold irqEvents
  split
  · simp [irqCodes, translations, chars, acceptedKeys]
  · split
    · simp [irqCodes, translations, chars, acceptedKeys]
    · simp [irqCodes, translations, chars, acceptedKeys]

theorem Aligned.keyboard (h : Aligned σ q) (c : U8) : ∃ q', Aligned (σ.step (.keyboard c)) q' := by
  have hcases := h.ring.irq c σ.ck_timer_ticks
  have hflag := irq_shift σ.kbd c σ.ck_timer_ticks
  simp only [Sys.step]
  generalize ck_keyboard_irq_handler σ.kbd c σ.ck_timer_ticks = s' at hcases hflag ⊢
  obtain ⟨hcodes, htranslations, hchars, haccepted⟩ := irq_log σ.log σ.kbd s' c σ.time
  have hshift : s'.shift_pressed = (presses (irqCodes σ.log ++ [c])).shift := by
    rw [hflag, h.shift, presses_concat]
    rfl
  rcases hcases with ⟨hh, hring, -⟩ | ⟨hh, hm, hring⟩
  · rw [if_neg (not_not.2 hh), List.append_nil] at haccepted
    refine ⟨q, hring, h.reader, by rw [hcodes]; exact hshift, fun hno => ?_, fun hno => ?_, ?_⟩
    · have hmake : ¬ IsMake c := fun hm => hno c (by simp [irqEvents, hh, hm])
      rw [haccepted, hcodes, presses_concat, h.keys fun d hd => hno d (List.mem_append_left _ hd)]
      exact (if_neg hmake).symm
    · dsimp only
      rw [keysToRead, haccepted, htranslations]
      exact h.order fun k t hk => hno k t (List.mem_append_left _ hk)
    · dsimp only
      rw [hchars, htranslations]
      exact h.chars
  · rw [if_pos hh] at haccepted
    refine ⟨q ++ [c], hring, h.reader.append c, by rw [hcodes]; exact hshift, fun hno => ?_, fun hno => ?_, ?_⟩
    · dsimp only
      rw [haccepted, hcodes, presses_concat, h.keys fun d hd => hno d (List.mem_append_left _ hd), h.shift]
      exact (if_pos hm).symm
    · have horder := h.order fun k t hk => hno k t (List.mem_append_left _ hk)
      have hkeys : ([(c, σ.kbd.shift_pressed)].filter (·.1 ≠ 0#8)).map Prod.fst = [c].filter (· ≠ 0#8) := by
        by_cases hc : c = 0#8 <;> simp [hc]
      dsimp only
      rw [keysToRead, haccepted, htranslations, List.filter_append, List.map_append, hkeys, List.filter_append,
        ← List.append_assoc, ← horder]
      rfl
    · dsimp only
      rw [hchars, htranslations]
      exact h.chars

/-- An access that takes no code out and translates none. -/
theorem Aligned.advance {σ' : Sys} {l : List Event} (h : Aligned σ q) (hring : σ'.kbd.Holds q)
    (hshift : σ'.kbd.shift_pressed = σ.kbd.shift_pressed) (hlog : σ'.log = σ.log ++ l)
    (hl : l = [] ∨ l = [.returned 0] ∨ ∃ k t, l = [.repeated k t]) (hreader : σ'.reader.On q)
    (hpending : (∀ k t, .repeated k t ∉ l) → σ'.reader.pending = σ.reader.pending) : Aligned σ' q := by
  have hviews : irqCodes l = [] ∧ acceptedKeys l = [] ∧ translations l = [] ∧ ReadChar.chars l = [] := by
    rcases hl with rfl | rfl | ⟨k, t, rfl⟩
    · exact ⟨rfl, rfl, rfl, rfl⟩
    · exact ⟨rfl, rfl, rfl, rfl⟩
    · exact ⟨rfl, rfl, rfl, rfl⟩
  obtain ⟨hcodes, haccepted, htranslations, hchars⟩ := hviews
  have hkeys : keysToRead l = [] := by rw [keysToRead, haccepted]; rfl
  refine ⟨hring, hreader, ?_, fun hno => ?_, fun hno => ?_, ?_⟩
  · rw [hshift, h.shift, hlog, irqCodes_append, hcodes, List.append_nil]
  · rw [hlog] at hno
    rw [hlog, acceptedKeys_append, haccepted, irqCodes_append, hcodes, List.append_nil, List.append_nil]
    exact h.keys fun c hc => hno c (List.mem_append_left l hc)
  · rw [hlog] at hno
    rw [hlog, keysToRead_append, hkeys, translations_append, htranslations, List.append_nil, List.append_nil,
      hpending fun k t hk => hno k t (List.mem_append_right σ.log hk)]
    exact h.order fun k t hk => hno k t (List.mem_append_left l hk)
  · rw [hlog, chars_append, hchars, translations_append, htranslations, List.append_nil, List.append_nil]
    exact h.chars

theorem Aligned.goto (h : Aligned σ q) (hpending : σ.reader.pending = []) {r : Reader} (hr : r.pending = [])
    (hon : r.On q) : Aligned { σ with reader := r } q :=
  h.advance h.ring rfl (List.append_nil _).symm (.inl rfl) hon fun _ => hr.trans hpending.symm

theorem Aligned.none (h : Aligned σ q) (hpending : σ.reader.pending = []) : Aligned σ.none q :=
  h.advance h.ring rfl rfl (.inr (.inl rfl)) trivial fun _ => hpending.symm

/-- The store of tail takes a code out. -/
theorem Aligned.loaded {c : U8} {rest : List U8} (h : Aligned σ (c :: rest)) (hr : σ.reader = .loaded c) :
    Aligned { σ with
      kbd := { σ.kbd with tail := next_index σ.kbd.tail }
      reader := if c = 0#8 then .nothing else .found c } rest := by
  have horder := h.order
  rw [hr] at horder
  refine ⟨h.ring.pop, ?_, h.shift, h.keys, fun hno => ?_, h.chars⟩
  · dsimp only
    split <;> trivial
  · dsimp only
    rw [horder hno]
    by_cases hc : c = 0#8
    · simp [Reader.pending, hc]
    · simp [Reader.pending, hc]

/-- The load of the shift flag. -/
theorem Aligned.found {c : U8} (h : Aligned σ q) (hr : σ.reader = .found c) :
    Aligned (σ.step .read) q := by
  have horder := h.order
  rw [hr] at horder
  simp only [Sys.step, hr]
  refine ⟨h.ring, trivial, ?_, fun hno => ?_, fun hno => ?_, ?_⟩
  · simpa [irqCodes_append, irqCodes] using h.shift
  · have hkeys := h.keys fun d hd => hno d (List.mem_append_left _ hd)
    simpa [irqCodes_append, acceptedKeys_append, irqCodes, acceptedKeys] using hkeys
  · have horder := horder fun k t hk => hno k t (List.mem_append_left _ hk)
    simpa [keysToRead_append, translations_append, keysToRead, acceptedKeys, translations, Reader.pending] using horder
  · dsimp only
    rw [chars_append, translations_append, asText_append, h.chars]
    rfl

theorem Aligned.read (h : Aligned σ q) : ∃ q', Aligned (σ.step .read) q' := by
  have hpending {r : Reader} (hr : σ.reader = r) (he : r.pending = []) : σ.reader.pending = [] := hr ▸ he
  have hon := h.reader
  cases hr : σ.reader with
  | found c => exact ⟨q, h.found hr⟩
  | loaded c =>
    rw [hr] at hon
    obtain ⟨rest, rfl⟩ := hon
    refine ⟨rest, ?_⟩
    simp only [Sys.step, hr]
    exact h.loaded hr
  | idle =>
    refine ⟨q, ?_⟩
    simp only [Sys.step, hr]
    by_cases hempty : σ.kbd.head = σ.kbd.tail
    · rw [if_pos hempty]
      exact h.goto (hpending hr rfl) rfl trivial
    · rw [if_neg hempty]
      exact h.goto (hpending hr rfl) rfl (List.exists_cons_of_ne_nil (mt h.ring.empty_iff.2 hempty))
  | compared =>
    rw [hr] at hon
    obtain ⟨c, rest, rfl⟩ := hon
    refine ⟨c :: rest, ?_⟩
    simp only [Sys.step, hr]
    exact h.goto (hpending hr rfl) rfl ⟨rest, by rw [h.ring.front]⟩
  | held =>
    refine ⟨q, ?_⟩
    simp only [Sys.step, hr]
    exact h.goto (hpending hr rfl) rfl trivial
  | nothing | timed now | delayed now =>
    refine ⟨q, ?_⟩
    simp only [Sys.step, hr]
    split
    · exact h.goto (hpending hr rfl) rfl trivial
    · exact h.none (hpending hr rfl)
  | due now =>
    refine ⟨q, ?_⟩
    simp only [Sys.step, hr]
    exact h.advance h.ring rfl (List.append_nil _).symm (.inl rfl) trivial fun _ => (hpending hr rfl).symm
  | stored =>
    refine ⟨q, ?_⟩
    simp only [Sys.step, hr]
    split
    · exact h.none (hpending hr rfl)
    · exact h.advance h.ring rfl rfl (.inr (.inr ⟨_, _, rfl⟩)) trivial fun hno =>
        absurd (List.mem_singleton_self _) (hno _ _)

theorem aligned_step (σ : Sys) (a : Action) (h : ∃ q, Aligned σ q) (_ : True) : ∃ q, Aligned (σ.step a) q := by
  obtain ⟨q, h⟩ := h
  cases a with
  | timer => exact ⟨q, h.ring, h.reader, h.shift, h.keys, h.order, h.chars⟩
  | keyboard c => exact h.keyboard c
  | read => exact h.read

end Step

theorem aligned_run (actions : List Action) : ∃ q, Aligned (run actions) q :=
  run_inv Sys.step (fun σ => ∃ q, Aligned σ q) aligned_step actions .start ⟨[], aligned_start⟩ (allowed_all _)

/-! ## The characters read so far -/

/-- What has been translated has the characters of its presses. -/
def Agrees (log : List Event) : Prop :=
  ((keysToRead log).take (translations log).length).map keyChar = (translations log).map keyChar

/-- The log only grows. -/
theorem log_grows (σ : Sys) (a : Action) : σ.log <+: (σ.step a).log := by
  cases a with
  | timer => exact List.prefix_refl _
  | keyboard c => exact List.prefix_append _ _
  | read =>
    unfold Sys.step Sys.none
    dsimp only
    repeat' split
    all_goals first | exact List.prefix_refl _ | exact List.prefix_append _ _

/-- Only the load of the shift flag translates. -/
theorem read_log {σ : Sys} (hr : ∀ c, σ.reader ≠ .found c) :
    translations (σ.step .read).log = translations σ.log ∧ keysToRead (σ.step .read).log = keysToRead σ.log := by
  cases h : σ.reader with
  | found c => exact absurd h (hr c)
  | nothing | timed now | delayed now | stored =>
    simp only [Sys.step, h, Sys.none]
    split
    · simp [translations, keysToRead, acceptedKeys]
    · simp [translations, keysToRead, acceptedKeys]
  | _ => simp only [Sys.step, h, and_self]

section Agrees
variable {σ : Sys} {q : List U8}

theorem Aligned.translated_le (h : Aligned σ q) (hno : ∀ k t, .repeated k t ∉ σ.log) :
    (translations σ.log).length ≤ (keysToRead σ.log).length := by
  have hlen := congrArg List.length (h.order hno)
  simp only [List.length_map, List.length_append] at hlen
  omega

/-- The key whose code is being translated. -/
theorem Aligned.next_key (h : Aligned σ q) (hno : ∀ k t, .repeated k t ∉ σ.log) {c : U8} (hr : σ.reader = .found c) :
    ∃ shift, (keysToRead σ.log)[(translations σ.log).length]? = some (c, shift) := by
  have horder := h.order hno
  rw [hr, Reader.pending, List.append_assoc] at horder
  have hcode : ((keysToRead σ.log).map Prod.fst)[(translations σ.log).length]? = some c := by
    rw [horder, List.getElem?_append_right (by simp)]
    simp
  rw [List.getElem?_map, Option.map_eq_some_iff] at hcode
  obtain ⟨⟨d, shift⟩, hkey, rfl⟩ := hcode
  exact ⟨shift, hkey⟩

theorem agrees_found (h : Aligned σ q) (hno : ∀ k t, .repeated k t ∉ σ.log) {c : U8} (hr : σ.reader = .found c) :
    Agrees (σ.step .read).log ↔ Agrees σ.log ∧ KeepsShift σ .read := by
  obtain ⟨shift, hkey⟩ := h.next_key hno hr
  have hkeys : keysToRead (σ.step .read).log = keysToRead σ.log := by
    simp [Sys.step, hr, keysToRead, acceptedKeys]
  have htranslations : translations (σ.step .read).log = translations σ.log ++ [(c, σ.kbd.shift_pressed)] := by
    simp [Sys.step, hr, translations]
  have hkeeps : KeepsShift σ .read ↔ keyChar (c, shift) = keyChar (c, σ.kbd.shift_pressed) := by
    rw [keyChar, keyChar, to_ascii_eq_iff]
    constructor
    · intro hk hm
      exact (hk c shift hr hkey hm).symm
    · intro hk d f hd hf hm
      rw [hr] at hd
      cases hd
      rw [hkey] at hf
      cases hf
      exact (hk hm).symm
  rw [hkeeps]
  unfold Agrees
  rw [hkeys, htranslations, List.length_append, List.length_singleton, List.take_add_one, hkey, List.map_append,
    List.map_append]
  constructor
  · intro heq
    obtain ⟨hfront, hlast⟩ := List.append_inj' heq rfl
    exact ⟨hfront, (List.cons.inj hlast).1⟩
  · rintro ⟨hfront, hlast⟩
    rw [hfront]
    simp [hlast]

theorem agrees_step (h : Aligned σ q) (hno : ∀ k t, .repeated k t ∉ σ.log) (a : Action) :
    Agrees (σ.step a).log ↔ Agrees σ.log ∧ KeepsShift σ a := by
  cases a with
  | timer => exact (and_iff_left trivial).symm
  | keyboard c =>
    apply Iff.trans _ (and_iff_left trivial).symm
    obtain ⟨-, htranslations, -⟩ := irq_log σ.log σ.kbd (ck_keyboard_irq_handler σ.kbd c σ.ck_timer_ticks) c σ.time
    unfold Agrees
    simp only [Sys.step]
    rw [htranslations, keysToRead_append, List.take_append_of_le_length (h.translated_le hno)]
  | read =>
    by_cases hfound : ∃ c, σ.reader = .found c
    · obtain ⟨c, hr⟩ := hfound
      exact agrees_found h hno hr
    · have hr : ∀ c, σ.reader ≠ .found c := fun c hc => hfound ⟨c, hc⟩
      obtain ⟨htranslations, hkeys⟩ := read_log hr
      unfold Agrees
      rw [htranslations, hkeys]
      exact (and_iff_left fun c _ hc => absurd hc (hr c)).symm

end Agrees

theorem run_concat (actions : List Action) (a : Action) : run (actions ++ [a]) = (run actions).step a := by
  simp [run]

/-- The condition is that the characters agree. -/
theorem agrees_run (actions : List Action) : (∀ k t, .repeated k t ∉ (run actions).log) →
    (Allowed Sys.step KeepsShift .start actions ↔ Agrees (run actions).log) := by
  induction actions using List.reverseRecOn with
  | nil => exact fun _ => ⟨fun _ => rfl, fun _ => allowed_nil _⟩
  | append_singleton actions a ih =>
    intro hno
    rw [run_concat] at hno ⊢
    have hbefore : ∀ k t, .repeated k t ∉ (run actions).log := fun k t hk => hno k t ((log_grows _ a).subset hk)
    obtain ⟨q, h⟩ := aligned_run actions
    rw [allowed_concat, ih hbefore, agrees_step h hbefore a]
    rfl

theorem irqCodes_run (actions : List Action) : irqCodes (run actions).log = codes actions := by
  induction actions using List.reverseRecOn with
  | nil => rfl
  | append_singleton actions a ih =>
    have hcodes : codes (actions ++ [a]) = codes actions ++ codes [a] := List.filterMap_append ..
    rw [run_concat, hcodes, ← ih]
    cases a with
    | timer => exact (List.append_nil _).symm
    | keyboard c => exact (irq_log _ _ _ c _).1
    | read =>
      apply Eq.trans _ (List.append_nil _).symm
      unfold Sys.step Sys.none
      dsimp only
      repeat' split
      all_goals simp [irqCodes]

/-! ## Two runs -/

/-- No code was dropped, no key repeated, and everything has been read. -/
structure Undisturbed (σ : Sys) : Prop where
  noDrop : ∀ c, .dropped c ∉ σ.log
  noRepeat : ∀ k t, .repeated k t ∉ σ.log
  idle : σ.reader = .idle
  drained : σ.kbd.head = σ.kbd.tail

/-- Neither a drop nor a repeat. -/
def Event.plain : Event → Bool
  | .dropped _ | .repeated _ _ => false
  | _ => true

instance (σ : Sys) : Decidable (Undisturbed σ) :=
  decidable_of_iff ((∀ e ∈ σ.log, e.plain = true) ∧ σ.reader = .idle ∧ σ.kbd.head = σ.kbd.tail) <| by
    constructor
    · rintro ⟨hplain, hidle, hdrained⟩
      exact ⟨fun c hc => Bool.noConfusion (hplain _ hc), fun k t hk => Bool.noConfusion (hplain _ hk), hidle, hdrained⟩
    · rintro ⟨hdrop, hrepeat, hidle, hdrained⟩
      refine ⟨fun e he => ?_, hidle, hdrained⟩
      cases e with
      | dropped c => exact absurd he (hdrop c)
      | repeated k t => exact absurd he (hrepeat k t)
      | _ => rfl

/-- Texts of the same keys are equal when their characters are. -/
theorem asText_inj : ∀ {l l' : List (U8 × U8)}, l.map Prod.fst = l'.map Prod.fst →
    (asText l = asText l' ↔ l.map keyChar = l'.map keyChar)
  | [], [], _ => by simp
  | [], _ :: _, h => by simp at h
  | _ :: _, [], h => by simp at h
  | (c, f) :: l, (d, g) :: l', h => by
    obtain ⟨rfl, hrest⟩ := List.cons.inj h
    have ih := asText_inj hrest
    have hzero : keyChar (c, f) = 0#8 ↔ keyChar (c, g) = 0#8 := to_ascii_eq_zero_iff c f g
    unfold asText at ih ⊢
    rw [List.map_cons, List.map_cons]
    by_cases hf : keyChar (c, f) = 0#8
    · rw [List.filter_cons_of_neg (by simpa using hf), List.filter_cons_of_neg (by simpa using hzero.1 hf), ih, hf,
        hzero.1 hf, List.cons_inj_right]
    · rw [List.filter_cons_of_pos (by simpa using hf), List.filter_cons_of_pos (by simpa using mt hzero.2 hf),
        List.cons_eq_cons, List.cons_eq_cons, ih]

/-- One run gives the text as typed exactly when it keeps the shift flags. -/
theorem text_iff {actions : List Action} (h : Undisturbed (run actions)) :
    chars (run actions).log = asText (presses (codes actions)).keys ↔ Allowed Sys.step KeepsShift .start actions := by
  obtain ⟨q, hq⟩ := aligned_run actions
  have hempty := hq.ring.empty_iff.1 h.drained
  have horder := hq.order h.noRepeat
  rw [h.idle, hempty, show Reader.idle.pending = [] from rfl, List.filter_nil, List.append_nil, List.append_nil] at horder
  have hlen : (translations (run actions).log).length = (keysToRead (run actions).log).length := by
    have hlen := congrArg List.length horder
    rw [List.length_map, List.length_map] at hlen
    exact hlen.symm
  rw [agrees_run actions h.noRepeat, hq.chars, ← irqCodes_run, ← hq.keys h.noDrop, ← asText_keysToRead,
    asText_inj horder.symm, Agrees, hlen, List.take_length]
  exact eq_comm

/-- Two runs with the same keyboard interrupts, however the reads lie among
them: the texts are equal and as typed exactly when in both no key that shift
changes is translated under another shift flag than that of its press. -/
theorem typed_text_iff (A B : List Action) (hcodes : codes A = codes B) (hA : Undisturbed (run A))
    (hB : Undisturbed (run B)) :
    (chars (run A).log = chars (run B).log ∧ chars (run A).log = asText (presses (codes A)).keys) ↔
      Allowed Sys.step KeepsShift .start A ∧ Allowed Sys.step KeepsShift .start B := by
  rw [← text_iff hA, ← text_iff hB, ← hcodes]
  constructor
  · rintro ⟨heq, htext⟩
    exact ⟨htext, heq ▸ htext⟩
  · rintro ⟨htextA, htextB⟩
    exact ⟨htextA.trans htextB.symm, htextA⟩

/-- Shift and A, read at once and read after a tick, shift still down. -/
theorem typed_text_iff_shifted :
    let A : List Action := [.keyboard 0x2A, .keyboard 0x1E] ++ List.replicate 4 .read ++ [.keyboard 0xAA]
    let B : List Action := [.keyboard 0x2A, .keyboard 0x1E, .timer] ++ List.replicate 4 .read ++ [.keyboard 0xAA]
    (codes A = codes B ∧ Undisturbed (run A) ∧ Undisturbed (run B)) ∧
      Allowed Sys.step KeepsShift .start A ∧ Allowed Sys.step KeepsShift .start B := by
  intro A B
  have hcodes : codes A = codes B := rfl
  have hA : Undisturbed (run A) := by decide +kernel
  have hB : Undisturbed (run B) := by decide +kernel
  exact ⟨⟨hcodes, hA, hB⟩, (typed_text_iff A B hcodes hA hB).1 ⟨by decide +kernel, by decide +kernel⟩⟩

/-- Shift and A, read before and after shift is released: the texts are `A` and `a`. -/
theorem text_depends_on_polling :
    let A : List Action := [.keyboard 0x2A, .keyboard 0x1E] ++ List.replicate 4 .read ++ [.keyboard 0xAA]
    let B : List Action := [.keyboard 0x2A, .keyboard 0x1E, .keyboard 0xAA] ++ List.replicate 4 .read
    codes A = codes B ∧ Undisturbed (run A) ∧ Undisturbed (run B) ∧
      chars (run A).log = [0x41] ∧ chars (run B).log = [0x61] ∧ chars (run A).log ≠ chars (run B).log := by
  decide +kernel

end CheesecakeOS.ReadChar
