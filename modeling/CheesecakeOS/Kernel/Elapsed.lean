import Mathlib.Data.Rat.Cast.Order
import Mathlib.Tactic.FieldSimp
import Mathlib.Tactic.Linarith
import CheesecakeOS.Kernel.Dispatch
/-!
# Elapsed time

What the shell shows of the tick count: in the status line, of which the first
part has `ck_shell_draw_status` with its buffer, and with the commands `time`
and `uptime`. The status line has no digit before the point in the first second
(`status_shown_iff`), and `time` no zeros behind it (`times_shown_iff`).
-/
open Lib

namespace CheesecakeOS.Shell

/-! ## The status line -/

namespace Scratch

/-- `VGA_BUFFER[pos] = (COLOR_YELLOW << 8) | c; pos++;` -/
def put (out : Screen × Nat) (c : U8) : Screen × Nat := (out.1.write out.2 (cell COLOR_YELLOW c), out.2 + 1)

/-- The zero is stored but not written: the loop that writes is in the other branch. -/
def writeSeconds (buf : Vector U8 16) (seconds : U32) (out : Screen × Nat) :
    Option (Vector U8 16 × Screen × Nat) :=
  if seconds = 0#32 then (store buf 0 0x30).map fun buf => (buf, out)
  else (digitLoop buf 0 seconds).map fun (buf, len) => (buf, readBack buf put len out)

/-- Padded to 3 digits, in the buffer of the seconds. -/
def writeMillis (buf : Vector U8 16) (ms : U32) (out : Screen × Nat) : Option (Screen × Nat) := do
  let buf ← store buf 0 (0x30#8 + (ms / 100 % 10).setWidth 8)
  let buf ← store buf 1 (0x30#8 + (ms / 10 % 10).setWidth 8)
  let buf ← store buf 2 (0x30#8 + (ms % 10).setWidth 8)
  return forRange 0 3 out fun out i => put out (buf[i]?.getD 0)

def ck_shell_draw_status (buf : Vector U8 16) (m : ShellState) (ticks : U32) : Option ShellState :=
  if ticks = m.last_ticks then some m
  else do
    let out := (utf8 "Time: ").foldl put (ck_vga_clear_line m.screen 0, 0)
    let (buf, out) ← writeSeconds buf (ticks / 1000) out
    let out := put out 0x2E
    let out ← writeMillis buf (ticks % 1000) out
    let out := (utf8 "s").foldl put out
    return { m with screen := out.1, last_ticks := ticks }

end Scratch

section Status
variable {buf : Vector U8 16} {out : Screen × Nat}

theorem writeSeconds_spec (buf : Vector U8 16) (seconds : U32) (out : Screen × Nat) :
    ∃ buf', Scratch.writeSeconds buf seconds out = some (buf', (secondsChars seconds).foldl Scratch.put out) := by
  unfold Scratch.writeSeconds secondsChars
  by_cases h : seconds = 0#32
  · obtain ⟨buf', hstore, -⟩ := store_spec (show [] <+: buf.toList from List.nil_prefix) (by decide) 0x30#8
    rw [if_pos h, if_pos h, show store buf 0 0x30 = some buf' from hstore]
    exact ⟨buf', rfl⟩
  · obtain ⟨buf', len, hloop, hread⟩ := digitLoop_readBack buf (n := seconds)
      ((digits_length seconds).trans (by decide)) Scratch.put out
    rw [if_neg h, if_neg h, hloop]
    exact ⟨buf', congrArg (fun out => some (buf', out)) hread⟩

theorem writeMillis_spec (buf : Vector U8 16) (ms : U32) (out : Screen × Nat) : Scratch.writeMillis buf ms out =
    some ([0x30#8 + (ms / 100 % 10).setWidth 8, 0x30#8 + (ms / 10 % 10).setWidth 8,
      0x30#8 + (ms % 10).setWidth 8].foldl Scratch.put out) := by
  unfold Scratch.writeMillis
  generalize 0x30#8 + (ms / 100 % 10).setWidth 8 = a
  generalize 0x30#8 + (ms / 10 % 10).setWidth 8 = b
  generalize 0x30#8 + (ms % 10).setWidth 8 = c
  obtain ⟨buf₁, h₁, hbuf₁⟩ := store_spec (show [] <+: buf.toList from List.nil_prefix) (by decide) a
  obtain ⟨buf₂, h₂, hbuf₂⟩ := store_spec hbuf₁ (by simp) b
  obtain ⟨buf₃, h₃, hbuf₃⟩ := store_spec hbuf₂ (by simp) c
  obtain ⟨rest, hrest⟩ := hbuf₃
  have hget : ∀ i < 3, buf₃[i]? = [a, b, c][i]? := fun i hi => by
    rw [← Vector.getElem?_toList, ← hrest, List.getElem?_append_left (by simpa using hi)]
    rfl
  show (store buf 0 a).bind _ = _
  rw [show store buf 0 a = some buf₁ from h₁, Option.bind_some]
  show (store buf₁ 1 b).bind _ = _
  rw [show store buf₁ 1 b = some buf₂ from h₂, Option.bind_some]
  show (store buf₂ 2 c).bind _ = _
  rw [show store buf₂ 2 c = some buf₃ from h₃, Option.bind_some]
  show some (Scratch.put (Scratch.put (Scratch.put out (buf₃[0]?.getD 0)) (buf₃[1]?.getD 0)) (buf₃[2]?.getD 0)) = _
  rw [hget 0 (by decide), hget 1 (by decide), hget 2 (by decide)]
  rfl

/-- Character by character from the first cell on. -/
theorem put_text (text : List U8) (s : Screen) : (text.foldl Scratch.put (s, 0)).1 =
    forRange 0 text.length s fun s pos => s.write pos (cell COLOR_YELLOW (text[pos]?.getD 0)) := by
  have hfrom : ∀ (rest done : List U8) (s : Screen), done ++ rest = text →
      (rest.foldl Scratch.put (s, done.length)).1 =
        forRange done.length text.length s fun s pos => s.write pos (cell COLOR_YELLOW (text[pos]?.getD 0)) := by
    intro rest
    induction rest with
    | nil =>
      intro done s h
      rw [← h, List.append_nil, forRange, Nat.sub_self]
      rfl
    | cons c rest ih =>
      intro done s h
      have hlen : text.length - done.length = text.length - (done.length + 1) + 1 := by
        rw [← h, List.length_append, List.length_cons]
        omega
      have hc : text[done.length]? = some c := by
        rw [← h, List.getElem?_append_right (Nat.le_refl _), Nat.sub_self]
        rfl
      have hnext := ih (done ++ [c]) (s.write done.length (cell COLOR_YELLOW c)) (by rw [List.append_assoc]; exact h)
      rw [List.length_append, List.length_singleton] at hnext
      rw [forRange, hlen, List.range'_succ, List.foldl_cons, List.foldl_cons, hc]
      exact hnext
  exact hfrom text [] s rfl

/-- The buffer of 16 bytes is not overrun, and the line is the one `Shell` has. -/
theorem draw_status_eq (buf : Vector U8 16) (m : ShellState) (ticks : U32) :
    Scratch.ck_shell_draw_status buf m ticks = some (ck_shell_draw_status m ticks) := by
  unfold Scratch.ck_shell_draw_status ck_shell_draw_status
  by_cases h : ticks = m.last_ticks
  · rw [if_pos h, if_pos h]
  · obtain ⟨buf', hseconds⟩ := writeSeconds_spec buf (ticks / 1000)
      ((utf8 "Time: ").foldl Scratch.put (ck_vga_clear_line m.screen 0, 0))
    rw [if_neg h, if_neg h]
    simp only [hseconds, writeMillis_spec, Option.bind_eq_bind, Option.bind_some]
    rw [← put_text]
    unfold statusChars
    dsimp only
    rw [List.foldl_append, List.foldl_append, List.foldl_append, List.foldl_append]
    rfl

theorem write_text_cells (text : List U8) (s : Screen) (i : Nat) :
    (forRange 0 text.length s fun s pos => s.write pos (cell COLOR_YELLOW (text[pos]?.getD 0))).cells i =
      (text[i]?).elim (s.cells i) (cell COLOR_YELLOW) := by
  have hloop : ∀ i, (forRange 0 text.length s fun s pos => s.write pos (cell COLOR_YELLOW (text[pos]?.getD 0))).cells i =
      if i < text.length then cell COLOR_YELLOW (text[i]?.getD 0) else s.cells i := by
    refine forRange_inv (fun k (u : Screen) => ∀ i, u.cells i =
      if i < k then cell COLOR_YELLOW (text[i]?.getD 0) else s.cells i) (Nat.zero_le _) ?_ ?_
    · exact fun i => (if_neg (Nat.not_lt_zero i)).symm
    · intro k u _ _ hu i
      show Function.update u.cells k _ i = _
      by_cases hik : i = k
      · rw [hik, Function.update_self, if_pos (Nat.lt_succ_self k)]
      · have hiff : i < k + 1 ↔ i < k := by omega
        rw [Function.update_of_ne hik, hu]
        simp only [hiff]
  rw [hloop]
  by_cases hi : i < text.length
  · rw [if_pos hi, List.getElem?_eq_getElem hi]
    rfl
  · rw [if_neg hi, List.getElem?_eq_none (by omega)]
    rfl

/-- The first row, cell by cell. -/
theorem draw_status_row {m : ShellState} {ticks : U32} (h : ticks ≠ m.last_ticks) {i : Nat} (hi : i < 80) :
    (ck_shell_draw_status m ticks).screen.cells i = ((statusChars ticks)[i]?).elim blank (cell COLOR_YELLOW) := by
  obtain ⟨hclear, -⟩ := fill_cells m.screen blank (Nat.zero_le 80)
  have hblank : (ck_vga_clear_line m.screen 0).cells i = blank := by
    unfold ck_vga_clear_line
    simp only [Nat.zero_mul, Nat.zero_add]
    exact (hclear i).trans (if_pos ⟨Nat.zero_le i, hi⟩)
  unfold ck_shell_draw_status
  rw [if_neg h]
  dsimp only
  rw [write_text_cells, hblank]

/-- What the line is to say: the seconds, a point, three digits of the rest. -/
def timeText (t : Nat) : List U8 :=
  utf8 "Time: " ++ numeral (t / 1000) ++ utf8 "." ++ (places (t % 1000) 3).map asciiDigit ++ utf8 "s"

theorem status_texts : (utf8 "Time: ").length = 6 ∧ utf8 "." = [0x2E] := by
  decide +kernel

theorem statusChars_eq {ticks : U32} (h : 1000 ≤ ticks.toNat) : statusChars ticks = timeText ticks.toNat := by
  have hdiv : (ticks / 1000).toNat = ticks.toNat / 1000 := BitVec.toNat_udiv
  have hne : ticks / 1000 ≠ 0#32 := fun h0 => by
    rw [h0, show (0#32).toNat = 0 from rfl] at hdiv
    omega
  have hplaces : places (ticks.toNat % 1000) 3 =
      [ticks.toNat % 1000 / 100 % 10, ticks.toNat % 1000 / 10 % 10, ticks.toNat % 1000 % 10] := by
    simp [places]
  unfold statusChars timeText secondsChars
  dsimp only
  rw [if_neg hne, digitChars_reverse hne, hdiv, status_texts.2, hplaces]
  rfl

end Status

/-- When the line is drawn it says what it is to say, and no other row changes,
exactly from the first second on. -/
theorem status_shown_iff (buf : Vector U8 16) (m : ShellState) (ticks : U32) (h : ticks ≠ m.last_ticks) :
    (∃ m', Scratch.ck_shell_draw_status buf m ticks = some m' ∧
      (∀ i < 80, m'.screen.cells i = ((timeText ticks.toNat)[i]?).elim blank (cell COLOR_YELLOW)) ∧
      ∀ i, 80 ≤ i → m'.screen.cells i = m.screen.cells i) ↔ 1000 ≤ ticks.toNat := by
  constructor
  · rintro ⟨m', hm', hrow, -⟩
    by_contra hlt
    obtain rfl := Option.some.inj ((draw_status_eq buf m ticks).symm.trans hm')
    -- In the seventh cell there is a point instead of the digit.
    have hzero : (timeText ticks.toNat)[6]? = some 0x30#8 := by
      rw [timeText, Nat.div_eq_of_lt (by omega), List.append_assoc, List.append_assoc, List.append_assoc,
        List.getElem?_append_right (by rw [status_texts.1]), status_texts.1]
      rfl
    have hpoint : (statusChars ticks)[6]? = some 0x2E#8 := by
      have hseconds : ticks / 1000 = 0#32 := BitVec.eq_of_toNat_eq (Nat.div_eq_of_lt (Nat.lt_of_not_le hlt))
      rw [statusChars, secondsChars, if_pos hseconds, List.append_nil, List.append_assoc, List.append_assoc,
        List.getElem?_append_right (by rw [status_texts.1]), status_texts.1]
      rfl
    have hcell := hrow 6 (by decide)
    rw [draw_status_row h (by decide), hzero, hpoint] at hcell
    exact absurd hcell (by decide)
  · intro hge
    refine ⟨_, draw_status_eq buf m ticks, fun i hi => ?_, (draw_status_spec m ticks).1.cells⟩
    rw [draw_status_row h hi, statusChars_eq hge]

theorem status_shown_later : ∃ m', Scratch.ck_shell_draw_status (.replicate 16 0) newShell 61005 = some m' ∧
    timeText 61005 = utf8 "Time: 61.005s" ∧
    ∀ i < 80, m'.screen.cells i = ((timeText 61005)[i]?).elim blank (cell COLOR_YELLOW) := by
  obtain ⟨m', hm', hrow, -⟩ := (status_shown_iff (.replicate 16 0) newShell 61005 (by decide)).2 (by decide)
  exact ⟨m', hm', by decide +kernel, hrow⟩

/-- Half a second after the start the line says `Time: .500s`. -/
theorem status_lacks_zero : statusChars 500 = utf8 "Time: .500s" ∧ timeText 500 = utf8 "Time: 0.500s" ∧
    ¬ ∃ m', Scratch.ck_shell_draw_status (.replicate 16 0) newShell 500 = some m' ∧
      ∀ i < 80, m'.screen.cells i = ((timeText 500)[i]?).elim blank (cell COLOR_YELLOW) := by
  refine ⟨by decide +kernel, by decide +kernel, ?_⟩
  rintro ⟨m', hm', hrow⟩
  obtain rfl := Option.some.inj ((draw_status_eq _ _ _).symm.trans hm')
  have hcell := hrow 6 (by decide)
  rw [draw_status_row (by decide) (by decide)] at hcell
  revert hcell
  decide +kernel

/-! ## The commands -/

variable {E : Type}

/-- The characters that are written. -/
def spoken (ops : List VgaOp) : List U8 :=
  (ops.flatMap VgaOp.outs).filterMap fun
    | .newline => none
    | .char c _ => some c

def isDigit (c : U8) : Bool := 0x30#8 ≤ c ∧ c ≤ 0x39#8

/-- The first number in a text, with what stands behind its point. -/
def readFraction (text : List U8) : ℚ :=
  let number := text.dropWhile fun c => !isDigit c
  let behind := number.dropWhile isDigit
  let fraction := if behind.head? = some 0x2E#8 then behind.tail.takeWhile isDigit else []
  readDecimal (number.takeWhile isDigit) + readDecimal fraction / 10 ^ fraction.length

/-- The number that `time` prints. -/
def timeShown (ticks : U32) : ℚ := readFraction (spoken (timeOps ticks))

/-- The number that `uptime` prints. -/
def uptimeShown (ticks : U32) : ℚ := readFraction (spoken (uptimeOps ticks))

section Spoken

theorem spoken_cons (op : VgaOp) (ops : List VgaOp) : spoken (op :: ops) = spoken [op] ++ spoken ops := by
  simp [spoken]

theorem spoken_number (num : U32) (color : U8) : spoken [.write_number num color] = numeral num.toNat := by
  have hchars : ∀ l : List U8, (l.map (Out.char · color)).filterMap (fun
      | .newline => none
      | .char c _ => some c) = l := fun l => by
    rw [List.filterMap_map]
    exact List.filterMap_some
  by_cases h : num = 0#32
  · rw [h]
    rfl
  · rw [spoken, List.flatMap_singleton, VgaOp.outs, if_neg h, hchars, digitChars_reverse h]

theorem isDigit_numeral {n : Nat} {c : U8} (hc : c ∈ numeral n) : isDigit c = true := by
  obtain ⟨d, hd, rfl⟩ := numeral_mem hc
  have hval := asciiDigit_toNat hd
  refine decide_eq_true ⟨BitVec.le_def.2 ?_, BitVec.le_def.2 ?_⟩
  · rw [hval]
    exact Nat.le_add_right 48 d
  · rw [hval]
    show 48 + d ≤ 57
    omega

/-- A fraction between texts, the first without digits and the second not starting with one. -/
theorem readFraction_eq {before after : List U8} (hbefore : ∀ c ∈ before, isDigit c = false)
    (hafter : after.head?.any isDigit = false) (a b : Nat) :
    readFraction (before ++ (numeral a ++ ([0x2E#8] ++ (numeral b ++ after)))) = a + b / 10 ^ (numeral b).length := by
  have hnumeral : ∀ n, ∀ c ∈ numeral n, isDigit c = true := fun n c hc => isDigit_numeral hc
  have hstart : (numeral a ++ ([0x2E#8] ++ (numeral b ++ after))).dropWhile (fun c => !isDigit c) =
      numeral a ++ ([0x2E#8] ++ (numeral b ++ after)) := by
    rcases hne : numeral a with _ | ⟨c, l⟩
    · exact absurd (List.map_eq_nil_iff.1 hne) Nat.toDigits_ne_nil
    · rw [List.cons_append, List.dropWhile_cons_of_neg]
      simp [hnumeral a c (by rw [hne]; exact List.mem_cons_self)]
  have hend : (numeral b ++ after).takeWhile isDigit = numeral b := by
    rw [List.takeWhile_append_of_pos (hnumeral b)]
    cases after with
    | nil => rw [List.takeWhile_nil, List.append_nil]
    | cons c l => rw [List.takeWhile_cons_of_neg (by simpa using hafter), List.append_nil]
  have hnot : ∀ c ∈ before, (!isDigit c) = true := fun c hc => by rw [hbefore c hc]; rfl
  unfold readFraction
  dsimp only
  rw [List.dropWhile_append_of_pos hnot, hstart, List.dropWhile_append_of_pos (hnumeral a),
    List.takeWhile_append_of_pos (hnumeral a)]
  rw [List.singleton_append, List.dropWhile_cons_of_neg (by decide), List.takeWhile_cons_of_neg (by decide),
    List.append_nil, List.head?_cons, if_pos rfl, List.tail_cons, hend, readDecimal_numeral, readDecimal_numeral]

/-- The texts around the two numbers of a command. -/
def Frames (before point after : VgaOp) : Prop :=
  (∀ c ∈ spoken [before], isDigit c = false) ∧ spoken [point] = [0x2E#8] ∧ (spoken [after]).head?.any isDigit = false

theorem readFraction_ops {before point after : VgaOp} (h : Frames before point after) (a b : U32) (color : U8) :
    readFraction (spoken [before, .write_number a color, point, .write_number b color, after]) =
      a.toNat + b.toNat / 10 ^ (numeral b.toNat).length := by
  obtain ⟨hbefore, hpoint, hafter⟩ := h
  rw [spoken_cons, spoken_cons _ (point :: _), spoken_cons point, spoken_cons _ [after], spoken_number, spoken_number,
    hpoint]
  exact readFraction_eq hbefore hafter _ _

theorem timeShown_eq (ticks : U32) : timeShown ticks = ((ticks.toNat / 1000 : ℕ) : ℚ) +
    ((ticks.toNat % 1000 : ℕ) : ℚ) / 10 ^ (numeral (ticks.toNat % 1000)).length :=
  readFraction_ops (by unfold Frames; decide +kernel) (ticks / 1000) (ticks % 1000) COLOR_WHITE

theorem uptimeShown_eq (ticks : U32) : uptimeShown ticks = ((ticks.toNat / 100 : ℕ) : ℚ) / 10 := by
  have hshown : uptimeShown ticks = ((ticks.toNat / 1000 : ℕ) : ℚ) +
      ((ticks.toNat % 1000 / 100 : ℕ) : ℚ) / 10 ^ (numeral (ticks.toNat % 1000 / 100)).length :=
    readFraction_ops (by unfold Frames; decide +kernel) (ticks / 1000) (ticks % 1000 / 100) COLOR_WHITE
  have hsplit : ticks.toNat / 100 = 10 * (ticks.toNat / 1000) + ticks.toNat % 1000 / 100 := by omega
  rw [hshown, numeral_of_lt (by omega), hsplit, List.length_singleton]
  push_cast
  ring

/-- A fraction of three digits, or none that counts. -/
def NoZerosLost (ticks : U32) : Prop := ticks.toNat % 1000 = 0 ∨ 100 ≤ ticks.toNat % 1000

theorem timeShown_iff (ticks : U32) : timeShown ticks = (ticks.toNat : ℚ) / 1000 ↔ NoZerosLost ticks := by
  have hsplit : (ticks.toNat : ℚ) = 1000 * (ticks.toNat / 1000 : ℕ) + (ticks.toNat % 1000 : ℕ) := by
    exact_mod_cast (Nat.div_add_mod ticks.toNat 1000).symm
  have hlt : ticks.toNat % 1000 < 1000 := Nat.mod_lt _ (by decide)
  rw [timeShown_eq, hsplit, NoZerosLost]
  generalize ticks.toNat / 1000 = s
  generalize ticks.toNat % 1000 = r at hlt
  -- A fraction of one or two digits counts for a hundred or ten times what it should.
  have hwrong : ∀ k : ℚ, k ≠ 1 / 1000 → r < 100 → ((s : ℚ) + r * k = (1000 * s + r) / 1000 ↔ r = 0 ∨ 100 ≤ r) := by
    intro k hk hr
    constructor
    · intro h
      have hzero : (r : ℚ) * (k - 1 / 1000) = 0 := by linarith
      rcases mul_eq_zero.1 hzero with h0 | h0
      · exact .inl (by exact_mod_cast h0)
      · exact absurd (sub_eq_zero.1 h0) hk
    · intro h
      obtain rfl : r = 0 := by omega
      push_cast
      ring
  rw [div_eq_mul_inv (r : ℚ)]
  rcases Nat.lt_or_ge r 10 with h1 | h1
  · rw [numeral_of_lt h1, List.length_singleton]
    exact hwrong _ (by norm_num) (by omega)
  rcases Nat.lt_or_ge r 100 with h2 | h2
  · rw [numeral_length_eq (k := 1) h1 h2]
    exact hwrong _ (by norm_num) h2
  · rw [numeral_length_eq (k := 2) h2 hlt]
    refine ⟨fun _ => .inr h2, fun _ => ?_⟩
    ring

end Spoken

/-- `time` and `uptime` print what has elapsed. -/
structure TimesTrue (ticks : U32) : Prop where
  time : timeShown ticks = (ticks.toNat : ℚ) / 1000
  uptime : uptimeShown ticks = ((ticks.toNat / 100 : ℕ) : ℚ) / 10

/-- The commands print the numbers looked at here. These are the elapsed times,
at two tick counts, and the later ones are not less, exactly if neither rest of
a second is from 1 to 99. -/
theorem times_shown_iff (t₁ t₂ : U32) (h : t₁ ≤ t₂) :
    (∀ (m : ShellState) (t : Turn E) (line : List U8),
      (firstWord line = Command.time.name → ck_shell_execute m t (cString line) =
        .ok ((tracked m (cString line)).print (timeOps t.kernel.ticks))) ∧
      (firstWord line = Command.uptime.name → ck_shell_execute m t (cString line) =
        .ok ((tracked m (cString line)).print (uptimeOps t.kernel.ticks)))) ∧
    ((TimesTrue t₁ ∧ TimesTrue t₂ ∧ timeShown t₁ ≤ timeShown t₂ ∧ uptimeShown t₁ ≤ uptimeShown t₂) ↔
      NoZerosLost t₁ ∧ NoZerosLost t₂) := by
  refine ⟨fun m t line => ⟨execute_command m t, execute_command m t⟩, ?_⟩
  constructor
  · rintro ⟨h₁, h₂, -⟩
    exact ⟨(timeShown_iff t₁).1 h₁.time, (timeShown_iff t₂).1 h₂.time⟩
  · rintro ⟨hn₁, hn₂⟩
    have ht₁ := (timeShown_iff t₁).2 hn₁
    have ht₂ := (timeShown_iff t₂).2 hn₂
    have hle : t₁.toNat ≤ t₂.toNat := BitVec.le_def.1 h
    refine ⟨⟨ht₁, uptimeShown_eq t₁⟩, ⟨ht₂, uptimeShown_eq t₂⟩, ?_, ?_⟩
    · rw [ht₁, ht₂]
      exact div_le_div_of_nonneg_right (by exact_mod_cast hle) (by norm_num)
    · rw [uptimeShown_eq, uptimeShown_eq]
      exact div_le_div_of_nonneg_right (by exact_mod_cast Nat.div_le_div_right hle) (by norm_num)

theorem times_shown_later : TimesTrue 61250 ∧ timeShown 61250 ≤ timeShown 62000 := by
  obtain ⟨-, hshown⟩ := times_shown_iff (E := Unit) 61250 62000 (by decide)
  obtain ⟨htrue, -, hle, -⟩ := hshown.2 ⟨.inr (by decide), .inl (by decide)⟩
  exact ⟨htrue, hle⟩

/-- After 1005 milliseconds `time` prints 1.5, and from one millisecond to the
next it goes from 1.99 to 1.100. -/
theorem time_goes_back : timeShown 1005 = 3 / 2 ∧ ¬ TimesTrue 1005 ∧ timeShown 1100 < timeShown 1099 := by
  have h₁ : timeShown 1005 = 3 / 2 := by
    rw [timeShown_eq, show (1005 : U32).toNat = 1005 from rfl, show (numeral (1005 % 1000)).length = 1 by decide +kernel]
    norm_num
  have h₂ : timeShown 1099 = 199 / 100 := by
    rw [timeShown_eq, show (1099 : U32).toNat = 1099 from rfl, show (numeral (1099 % 1000)).length = 2 by decide +kernel]
    norm_num
  have h₃ : timeShown 1100 = 11 / 10 := by
    rw [timeShown_eq, show (1100 : U32).toNat = 1100 from rfl, show (numeral (1100 % 1000)).length = 3 by decide +kernel]
    norm_num
  refine ⟨h₁, fun h => ?_, by rw [h₂, h₃]; norm_num⟩
  exact absurd ((timeShown_iff 1005).1 h.time) (by unfold NoZerosLost; decide)

end CheesecakeOS.Shell
