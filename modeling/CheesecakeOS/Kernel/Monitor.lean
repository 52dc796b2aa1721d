import Mathlib.Algebra.Order.BigOperators.Group.Finset
import Mathlib.Algebra.BigOperators.Ring.Finset
import CheesecakeOS.Lib.Decimal
import CheesecakeOS.Kernel.Visualizer
/-!
# The shares the task monitor shows

What a frame of the monitor puts on the screen for each task, and when it is
what the counters say. The sum of the deltas, a hundred times a delta and twenty
times a delta are all computed in 32 bits: the shares are right if none of them
wraps, and if the sum does not wrap then only then (`shares_shown_iff`).
-/
open Lib

namespace CheesecakeOS.Shell

variable {E : Type}

/-! ## What is on the screen -/

section Cells
variable {s : Screen} {row col : U16} {color : U8}

/-- The character of a text written at a place that cell `x` gets. -/
def lettered (row col : Nat) (text : List U8) (x : Nat) : Option U8 :=
  if row * 80 + col ≤ x ∧ x < row * 80 + 80 then text[x - (row * 80 + col)]? else none

theorem write_char_cells (hrow : row.toNat < 25) (hcol : col.toNat < 80) (c : U8) :
    (vga_write_char s row col c color).cells =
      Function.update s.cells (row.toNat * 80 + col.toNat) (cell color c) := by
  unfold vga_write_char
  rw [if_neg (by simp only [VGA_HEIGHT, VGA_WIDTH]; omega)]
  rfl

theorem write_string_cells (hrow : row.toNat < 25) (text : List U8) : ∀ (s : Screen) (col : U16), col.toNat ≤ 80 →
    ∀ x, (vga_write_string s row col text color).cells x =
      (lettered row.toNat col.toNat text x).elim (s.cells x) (cell color) := by
  induction text with
  | nil =>
    intro s col _ x
    simp [vga_write_string, lettered]
  | cons c rest ih =>
    intro s col hcol x
    unfold vga_write_string
    by_cases hin : col.toNat < 80
    · have hnext : (col + 1).toNat = col.toNat + 1 := by
        rw [BitVec.toNat_add, show (1 : U16).toNat = 1 from rfl]
        omega
      rw [if_pos hin, ih _ _ (by omega), write_char_cells hrow hin, hnext]
      unfold lettered
      by_cases hx : x = row.toNat * 80 + col.toNat
      · rw [if_neg (by omega), if_pos (by omega), hx, Function.update_self, Nat.sub_self]
        rfl
      · rw [Function.update_of_ne hx]
        by_cases hr : row.toNat * 80 + col.toNat ≤ x ∧ x < row.toNat * 80 + 80
        · rw [if_pos (by omega), if_pos hr,
            show x - (row.toNat * 80 + col.toNat) = x - (row.toNat * 80 + (col.toNat + 1)) + 1 by omega]
          rfl
        · rw [if_neg (by omega), if_neg hr]
    · rw [if_neg hin, lettered, if_neg (by omega)]
      rfl

theorem clear_row_cells (hrow : row.toNat < 25) (x : Nat) : (vga_clear_row s row color).cells x =
    if row.toNat * 80 ≤ x ∧ x < row.toNat * 80 + 80 then cell color 0x20 else s.cells x := by
  have hloop : ∀ x, (vga_clear_row s row color).cells x =
      if row.toNat * 80 ≤ x ∧ x < row.toNat * 80 + VGA_WIDTH then cell color 0x20 else s.cells x := by
    unfold vga_clear_row
    refine forRange_inv (fun k (u : Screen) => ∀ x, u.cells x =
      if row.toNat * 80 ≤ x ∧ x < row.toNat * 80 + k then cell color 0x20 else s.cells x) (Nat.zero_le _) ?_ ?_
    · intro x
      rw [if_neg (by omega)]
    · intro k u _ hk hu x
      have hcol : (BitVec.ofNat 16 k).toNat = k := by
        rw [BitVec.toNat_ofNat]
        exact Nat.mod_eq_of_lt (by simp only [VGA_WIDTH] at hk; omega)
      rw [write_char_cells hrow (by rw [hcol]; exact hk), hcol]
      by_cases hx : x = row.toNat * 80 + k
      · rw [hx, Function.update_self, if_pos (by omega)]
      · have hiff : (row.toNat * 80 ≤ x ∧ x < row.toNat * 80 + (k + 1)) ↔
            row.toNat * 80 ≤ x ∧ x < row.toNat * 80 + k := by omega
        rw [Function.update_of_ne hx, hu]
        simp only [hiff]
  exact hloop x

/-- Cells before a text, after it or in another row stay as they are. -/
theorem write_string_outside {text : List U8} {x : Nat} (hrow : row.toNat < 25) (hcol : col.toNat ≤ 80)
    (hx : x < row.toNat * 80 + col.toNat ∨ row.toNat * 80 + 80 ≤ x ∨
      row.toNat * 80 + col.toNat + text.length ≤ x) :
    (vga_write_string s row col text color).cells x = s.cells x := by
  have hnone : lettered row.toNat col.toNat text x = none := by
    unfold lettered
    split
    · exact List.getElem?_eq_none (by omega)
    · rfl
  rw [write_string_cells hrow text s col hcol x, hnone]
  rfl

theorem write_string_at {text : List U8} {x : Nat} (hrow : row.toNat < 25) (j : Nat)
    (hx : x = row.toNat * 80 + col.toNat + j) (hj : col.toNat + j < 80) :
    (vga_write_string s row col text color).cells x = (text[j]?).elim (s.cells x) (cell color) := by
  rw [write_string_cells hrow text s col (by omega), lettered, if_pos (by omega), hx, Nat.add_sub_cancel_left]

end Cells

/-! ## Numbers -/

section Digits

variable {num : U32}

/-- What the shell puts in its buffer, turned around. -/
theorem digitChars_reverse (h : num ≠ 0#32) : (digitChars num).reverse = numeral num.toNat := by
  rw [numeral_eq_digits (BitVec.toNat_pos_of_ne_zero h)]
  rfl

/-- What the monitor puts in its buffer. -/
theorem uintChars_eq (num : U32) : uintChars num = numeral num.toNat := by
  unfold uintChars
  by_cases h : num = 0#32
  · rw [if_pos h, h]
    rfl
  · rw [if_neg h, numeral_eq_places (BitVec.toNat_pos_of_ne_zero h) (k := 10) (by omega)]
    rfl

/-- The number that a text of digits stands for. -/
def readDecimal (text : List U8) : Nat := Nat.ofDigits 10 (text.reverse.map fun c => (c - 0x30#8).toNat)

/-- A numeral reads back as the number. -/
theorem readDecimal_numeral (n : Nat) : readDecimal (numeral n) = n := by
  by_cases h : n = 0
  · rw [h]
    rfl
  · rw [readDecimal, numeral_eq_digits (Nat.pos_of_ne_zero h), List.reverse_reverse, List.map_map]
    have hid : (Nat.digits 10 n).map ((fun c : U8 => (c - 0x30#8).toNat) ∘ asciiDigit) = Nat.digits 10 n := by
      refine (List.map_congr_left fun d hd => ?_).trans (List.map_id _)
      have hd10 : d < 10 := Nat.digits_lt_base (by decide) hd
      simp only [Function.comp_apply, asciiDigit, BitVec.add_comm 0x30#8, BitVec.add_sub_cancel, BitVec.toNat_ofNat]
      exact Nat.mod_eq_of_lt (by omega)
    rw [hid, Nat.ofDigits_digits]

theorem readDecimal_uintChars (num : U32) : readDecimal (uintChars num) = num.toNat := by
  rw [uintChars_eq, readDecimal_numeral]

theorem uintChars_length_le {k : Nat} (hk : 0 < k) : (uintChars num).length ≤ k ↔ num.toNat < 10 ^ k := by
  rw [uintChars_eq, numeral_length_le hk]

end Digits

/-! ## A row of the task list -/

/-- A row shows a percentage, in three cells before the sign, and a bar of
which a number of its 20 cells are filled. -/
structure TaskRow (s : Screen) (row percent filled : Nat) : Prop where
  bar : ∀ j < 20, s.cells (row * 80 + 23 + j) = cell VGA_COLOR_YELLOW (if j < filled then 0x23 else 0x2E)
  number : ∀ j < 3, s.cells (row * 80 + 49 + j) =
    ((uintChars (.ofNat 32 percent))[j]?).elim (cell VGA_COLOR_WHITE 0x20) (cell VGA_COLOR_YELLOW)

/-- `(deltas[i] * 100) / total_delta`. -/
def percentOf (total delta : U32) : U32 := delta * 100 / total

/-- `filled` in `draw_progress_bar`. -/
def filledOf (total delta : U32) : Nat := if total = 0#32 then 0 else min (delta * 20 / total).toNat 20

theorem label_lengths : (utf8 "Task ").length = 5 ∧ (utf8 " ").length = 1 ∧ (utf8 "CPU: ").length = 5 ∧
    (utf8 "Physics").length = 7 ∧ (utf8 "Input").length = 5 ∧ (utf8 "Render").length = 6 ∧
    (utf8 "Worker").length = 6 := by
  decide +kernel

theorem task_name_length (i : Nat) : (ck_task_name i).length ≤ 7 := by
  obtain ⟨-, -, -, hp, hi, hr, hw⟩ := label_lengths
  unfold ck_task_name
  split <;> omega

/-- The bar between its brackets. -/
theorem bar_cell (filled : Nat) {j : Nat} (hj : j < 20) :
    ([0x5B] ++ (List.range 20).map (fun i => if i < filled then 0x23#8 else 0x2E#8) ++ [0x5D])[1 + j]? =
      some (if j < filled then 0x23 else 0x2E) := by
  rw [List.append_assoc, List.getElem?_append_right (by simp), List.getElem?_append_left (by simp; omega)]
  simp [hj]

section Task
variable {k : Kernel E} {prev : Nat → U32} {total : U32} {s : Screen} {i : Nat}

theorem task_row_toNat (hi : i < 8) : (BitVec.ofNat 16 (12 + i)).toNat = 12 + i := by
  rw [BitVec.toNat_ofNat]
  omega

theorem drawTask_shows (hi : i < 8) (hc : i < (ck_scheduler_task_count k.scheduler).toNat) :
    TaskRow (drawTask k prev total s i) (12 + i) (percentOf total (taskDeltas k prev i)).toNat
      (filledOf total (taskDeltas k prev i)) := by
  have hrow := task_row_toNat hi
  have hid : (BitVec.ofNat 32 i).toNat = i := by
    rw [BitVec.toNat_ofNat]
    omega
  have hget : ∃ t, ck_scheduler_get_task k.scheduler (.ofNat 32 i) = some t := by
    unfold ck_scheduler_get_task
    rw [if_pos (BitVec.lt_def.2 (by rw [hid]; exact hc)), hid]
    exact ⟨_, Vector.getElem?_eq_getElem hi⟩
  obtain ⟨t, ht⟩ := hget
  obtain ⟨htask, hspace, hcpu, -⟩ := label_lengths
  have hname := task_name_length i
  have hnum : (uintChars (.ofNat 32 i)).length ≤ 10 := (uintChars_length_le (by decide)).2 (by omega)
  unfold drawTask
  rw [if_neg (by omega), ht]
  dsimp only
  generalize BitVec.ofNat 16 (12 + i) = row at hrow ⊢
  have hlt : row.toNat < 25 := by omega
  unfold vga_write_uint32 draw_progress_bar
  refine ⟨fun j hj => ?_, fun j hj => ?_⟩
  · -- Four texts stand behind the bar.
    iterate 4 rw [write_string_outside hlt (by decide) (.inl (by simp; omega))]
    rw [write_string_at hlt (1 + j) (by simp; omega) (by simp; omega), bar_cell _ hj]
    rfl
  · -- Two texts stand behind the number and six before it.
    iterate 2 rw [write_string_outside hlt (by decide) (.inl (by simp; omega))]
    rw [write_string_at hlt j (by simp; omega) (by simp; omega), BitVec.ofNat_toNat, BitVec.setWidth_eq]
    congr 1
    iterate 6 rw [write_string_outside hlt (by decide) (.inr (.inr (by simp; omega)))]
    rw [clear_row_cells hlt, if_pos (by omega)]

/-- The other rows stay as they are. -/
theorem drawTask_outside {x : Nat} (hi : i < 8) (hx : x < (12 + i) * 80 ∨ (12 + i) * 80 + 80 ≤ x) :
    (drawTask k prev total s i).cells x = s.cells x := by
  have hrow := task_row_toNat hi
  unfold drawTask
  rw [if_neg (by omega)]
  split
  · rfl
  · dsimp only
    generalize BitVec.ofNat 16 (12 + i) = row at hrow ⊢
    have hlt : row.toNat < 25 := by omega
    unfold vga_write_uint32 draw_progress_bar
    iterate 9 rw [write_string_outside hlt (by decide) (by omega)]
    rw [clear_row_cells hlt, if_neg (by omega)]

/-- `total_delta`, once it is not 0. -/
def totalDelta (k : Kernel E) (prev_counters : Nat → U32) : U32 :=
  let count := (ck_scheduler_task_count k.scheduler).toNat
  let sum := ((List.range count).map (taskDeltas k prev_counters)).foldl (· + ·) 0#32
  if sum = 0#32 then 1#32 else sum

theorem TaskRow.congr {s' : Screen} {row percent filled : Nat} (h : TaskRow s row percent filled)
    (hs : ∀ x, row * 80 ≤ x → x < row * 80 + 80 → s'.cells x = s.cells x) : TaskRow s' row percent filled := by
  refine ⟨fun j hj => ?_, fun j hj => ?_⟩
  · rw [hs _ (by omega) (by omega)]
    exact h.bar j hj
  · rw [hs _ (by omega) (by omega)]
    exact h.number j hj

theorem TaskRow.string {r percent filled : Nat} {row col : U16} {text : List U8} {color : U8} (hrow : row.toNat < 25)
    (hcol : col.toNat ≤ 80) (hne : row.toNat ≠ r) (h : TaskRow s r percent filled) :
    TaskRow (vga_write_string s row col text color) r percent filled :=
  h.congr fun _ _ _ => write_string_outside hrow hcol (by omega)

theorem TaskRow.clear {r percent filled : Nat} {row : U16} {color : U8} (hrow : row.toNat < 25)
    (hne : row.toNat ≠ r) (h : TaskRow s r percent filled) : TaskRow (vga_clear_row s row color) r percent filled :=
  h.congr fun _ _ _ => by rw [clear_row_cells hrow, if_neg (by omega)]

/-- A frame shows in each task's row what it computes for the task. -/
theorem drawFrame_shows (hn : (ck_scheduler_task_count k.scheduler).toNat ≤ 8)
    (hi : i < (ck_scheduler_task_count k.scheduler).toNat) :
    TaskRow (drawFrame k prev s) (12 + i) (percentOf (totalDelta k prev) (taskDeltas k prev i)).toNat
      (filledOf (totalDelta k prev) (taskDeltas k prev i)) := by
  have hloop : ∀ u, ∀ i < (ck_scheduler_task_count k.scheduler).toNat,
      TaskRow (forRange 0 (ck_scheduler_task_count k.scheduler).toNat u (drawTask k prev (totalDelta k prev)))
        (12 + i) (percentOf (totalDelta k prev) (taskDeltas k prev i)).toNat
        (filledOf (totalDelta k prev) (taskDeltas k prev i)) := by
    intro u
    refine forRange_inv (fun m (u : Screen) => ∀ i < m, TaskRow u (12 + i)
      (percentOf (totalDelta k prev) (taskDeltas k prev i)).toNat
      (filledOf (totalDelta k prev) (taskDeltas k prev i))) (Nat.zero_le _) ?_ ?_
    · intro i hi
      exact absurd hi (Nat.not_lt_zero i)
    · intro m u _ hm hu i hi
      obtain hlt | rfl := Nat.lt_succ_iff_lt_or_eq.1 hi
      · exact (hu i hlt).congr fun x _ _ => drawTask_outside (by omega) (by omega)
      · exact drawTask_shows (by omega) hm
  unfold drawFrame
  dsimp only
  -- The summary and the footer are further down.
  have h20 : (20 : U16).toNat ≠ 12 + i := by simp; omega
  have h23 : (23 : U16).toNat ≠ 12 + i := by simp; omega
  refine .string (by decide) (by decide) h23 (.clear (by decide) h23 ?_)
  refine .string (by decide) (by decide) h20 (.string (by decide) (by decide) h20 ?_)
  refine .string (by decide) (by decide) h20 (.string (by decide) (by decide) h20 (.clear (by decide) h20 ?_))
  exact hloop _ i hi

end Task

/-! ## What a row can show -/

theorem cell_inj {color c color' c' : U8} (h : cell color c = cell color' c') : color = color' ∧ c = c' := by
  have hsplit : ∀ color c : U8, (cell color c).extractLsb' 8 8 = color ∧ (cell color c).extractLsb' 0 8 = c :=
    fun _ _ => ⟨BitVec.extractLsb'_append_eq_left, BitVec.extractLsb'_append_eq_right⟩
  obtain ⟨h1, h2⟩ := hsplit color c
  rw [h] at h1 h2
  exact ⟨h1.symm.trans (hsplit color' c').1, h2.symm.trans (hsplit color' c').2⟩

/-- Digits in yellow on blanks in white can be told apart. -/
theorem padded_inj {a b : Option U8} (h : a.elim (cell VGA_COLOR_WHITE 0x20) (cell VGA_COLOR_YELLOW) =
    b.elim (cell VGA_COLOR_WHITE 0x20) (cell VGA_COLOR_YELLOW)) : a = b := by
  cases a with
  | none =>
    cases b with
    | none => rfl
    | some c => exact absurd (cell_inj h).1 (by decide)
  | some c =>
    cases b with
    | none => exact absurd (cell_inj h).1 (by decide)
    | some c' => rw [(cell_inj h).2]

section Unique
variable {s : Screen} {row percent percent' filled filled' : Nat}

theorem TaskRow.filled_eq (h : TaskRow s row percent filled) (h' : TaskRow s row percent' filled') (hf : filled ≤ 20)
    (hf' : filled' ≤ 20) : filled = filled' := by
  have hiff : ∀ j < 20, j < filled ↔ j < filled' := by
    intro j hj
    have hcell := (cell_inj ((h.bar j hj).symm.trans (h'.bar j hj))).2
    by_cases h1 : j < filled
    · by_cases h2 : j < filled'
      · exact ⟨fun _ => h2, fun _ => h1⟩
      · rw [if_pos h1, if_neg h2] at hcell
        exact absurd hcell (by decide)
    · by_cases h2 : j < filled'
      · rw [if_neg h1, if_pos h2] at hcell
        exact absurd hcell (by decide)
      · exact ⟨fun h => absurd h h1, fun h => absurd h h2⟩
  by_contra hne
  rcases Nat.lt_or_gt_of_ne hne with hlt | hlt
  · exact absurd ((hiff filled (by omega)).2 hlt) (Nat.lt_irrefl _)
  · exact absurd ((hiff filled' (by omega)).1 hlt) (Nat.lt_irrefl _)

/-- Three cells tell a number of three digits from any other such number, and
one of two digits from every other number. -/
theorem TaskRow.percent_eq (h : TaskRow s row percent filled) (h' : TaskRow s row percent' filled')
    (hp : percent < 2 ^ 32) (hlow : percent' < 100 ∨ percent' < 1000 ∧ percent < 1000) : percent = percent' := by
  have hcells : ∀ j < 3, (uintChars (.ofNat 32 percent))[j]? = (uintChars (.ofNat 32 percent'))[j]? := fun j hj =>
    padded_inj ((h.number j hj).symm.trans (h'.number j hj))
  have hv : (BitVec.ofNat 32 percent).toNat = percent := Nat.mod_eq_of_lt hp
  have hv' : (BitVec.ofNat 32 percent').toNat = percent' := Nat.mod_eq_of_lt (by omega)
  have hlen' : (uintChars (.ofNat 32 percent')).length ≤ 3 := (uintChars_length_le (by decide)).2 (by omega)
  have hlen : (uintChars (.ofNat 32 percent)).length ≤ 3 := by
    rcases hlow with hlow | ⟨-, hlow⟩
    · -- The third cell of a number below 100 is blank.
      have h2 : (uintChars (.ofNat 32 percent'))[2]? = none :=
        List.getElem?_eq_none ((uintChars_length_le (by decide)).2 (by omega))
      have := List.getElem?_eq_none_iff.1 ((hcells 2 (by decide)).trans h2)
      omega
    · exact (uintChars_length_le (by decide)).2 (by omega)
  have htext : uintChars (.ofNat 32 percent) = uintChars (.ofNat 32 percent') := by
    refine List.ext_getElem? fun j => ?_
    by_cases hj : j < 3
    · exact hcells j hj
    · rw [List.getElem?_eq_none (by omega), List.getElem?_eq_none (by omega)]
  rw [← hv, ← hv', ← readDecimal_uintChars, htext, readDecimal_uintChars]

end Unique

/-! ## Shares in 32 bits -/

section Shares
variable {n : Nat} {d : Nat → Nat}

/-- The whole of which the shares are taken, at least 1. -/
def whole (n : Nat) (d : Nat → Nat) : Nat := max 1 (∑ i ∈ Finset.range n, d i)

/-- The sum and a hundred times each part are 32-bit numbers. -/
def NothingWraps (n : Nat) (d : Nat → Nat) : Prop :=
  ∑ i ∈ Finset.range n, d i < 2 ^ 32 ∧ ∀ i < n, 100 * d i < 2 ^ 32

/-- What 32 bits leave of the whole, at least 1. -/
def wrapped (n : Nat) (d : Nat → Nat) : Nat := max 1 ((∑ i ∈ Finset.range n, d i) % 2 ^ 32)

/-- What 32 bits leave of `c` times a part lies in the same step of what they
leave of the whole as the product does of the whole. -/
def WrapsAlike (n : Nat) (d : Nat → Nat) (c i : Nat) : Prop :=
  c * d i / whole n d * wrapped n d ≤ c * d i % 2 ^ 32 ∧ c * d i % 2 ^ 32 < (c * d i / whole n d + 1) * wrapped n d

theorem whole_pos : 0 < whole n d := Nat.lt_of_lt_of_le Nat.one_pos (Nat.le_max_left _ _)

theorem wrapped_pos : 0 < wrapped n d := Nat.lt_of_lt_of_le Nat.one_pos (Nat.le_max_left _ _)

theorem wrapped_eq_whole (h : ∑ i ∈ Finset.range n, d i < 2 ^ 32) : wrapped n d = whole n d := by
  rw [wrapped, Nat.mod_eq_of_lt h, whole]

theorem part_le_whole {i : Nat} (hi : i < n) : d i ≤ whole n d :=
  (Finset.single_le_sum (fun _ _ => Nat.zero_le _) (Finset.mem_range.2 hi)).trans (Nat.le_max_right _ _)

/-- The shares of a whole add up to no more than all of it. -/
theorem sum_percent_le (n : Nat) (d : Nat → Nat) : ∑ i ∈ Finset.range n, 100 * d i / whole n d ≤ 100 := by
  refine Nat.le_of_mul_le_mul_left ?_ (whole_pos (n := n) (d := d))
  calc whole n d * ∑ i ∈ Finset.range n, 100 * d i / whole n d
      = ∑ i ∈ Finset.range n, whole n d * (100 * d i / whole n d) := Finset.mul_sum ..
    _ ≤ ∑ i ∈ Finset.range n, 100 * d i := Finset.sum_le_sum fun i _ => Nat.mul_div_le _ _
    _ = 100 * ∑ i ∈ Finset.range n, d i := (Finset.mul_sum ..).symm
    _ ≤ 100 * whole n d := Nat.mul_le_mul_left _ (Nat.le_max_right _ _)
    _ = whole n d * 100 := Nat.mul_comm _ _

/-- A product that wraps loses at least one step of a whole that does not. -/
theorem wrapped_share_iff {x D : Nat} (hD : 0 < D) (hlt : D < 2 ^ 32) : x % 2 ^ 32 / D = x / D ↔ x < 2 ^ 32 := by
  constructor
  · intro h
    by_contra hge
    have hlost : x % 2 ^ 32 + D ≤ x := by
      have := Nat.mod_add_div x (2 ^ 32)
      have : 1 ≤ x / 2 ^ 32 := Nat.div_pos (by omega) (by decide)
      omega
    have hstep := Nat.div_le_div_right (c := D) hlost
    rw [Nat.add_div_right _ hD] at hstep
    omega
  · intro h
    rw [Nat.mod_eq_of_lt h]

theorem div_eq_iff_step {x t q : Nat} (ht : 0 < t) : x / t = q ↔ q * t ≤ x ∧ x < (q + 1) * t := by
  rw [← Nat.le_div_iff_mul_le ht, ← Nat.div_lt_iff_lt_mul ht]
  omega

/-- When shares computed in 32 bits are right. -/
theorem shares_eq_iff (hd : ∀ i, d i < 2 ^ 32) :
    (∀ i < n, 100 * d i % 2 ^ 32 / wrapped n d = 100 * d i / whole n d ∧
      min (20 * d i % 2 ^ 32 / wrapped n d) 20 = 20 * d i / whole n d) ↔
    NothingWraps n d ∨
      2 ^ 32 ≤ ∑ i ∈ Finset.range n, d i ∧ ∀ i < n, WrapsAlike n d 100 i ∧ WrapsAlike n d 20 i := by
  by_cases hsum : ∑ i ∈ Finset.range n, d i < 2 ^ 32
  · have hlt : whole n d < 2 ^ 32 := Nat.max_lt.2 ⟨by decide, hsum⟩
    rw [wrapped_eq_whole hsum]
    constructor
    · intro h
      exact .inl ⟨hsum, fun i hi => (wrapped_share_iff whole_pos hlt).1 (h i hi).1⟩
    · rintro (⟨-, hsmall⟩ | ⟨hge, -⟩)
      · intro i hi
        have := hsmall i hi
        rw [Nat.mod_eq_of_lt this, Nat.mod_eq_of_lt (by omega)]
        refine ⟨rfl, Nat.min_eq_left (Nat.div_le_of_le_mul ?_)⟩
        have := part_le_whole (d := d) hi
        omega
      · exact absurd hsum (Nat.not_lt.2 hge)
  · have hge := Nat.not_lt.1 hsum
    have hw : whole n d = ∑ i ∈ Finset.range n, d i := Nat.max_eq_right (by omega)
    have hstep : ∀ i, (100 * d i % 2 ^ 32 / wrapped n d = 100 * d i / whole n d ∧
        min (20 * d i % 2 ^ 32 / wrapped n d) 20 = 20 * d i / whole n d) ↔
        WrapsAlike n d 100 i ∧ WrapsAlike n d 20 i := by
      intro i
      have hq : 20 * d i / whole n d < 20 := by
        rw [Nat.div_lt_iff_lt_mul (by omega), hw]
        have := hd i
        omega
      have hmin : ∀ y, min y 20 = 20 * d i / whole n d ↔ y = 20 * d i / whole n d := by omega
      rw [hmin, div_eq_iff_step wrapped_pos, div_eq_iff_step wrapped_pos]
      rfl
    constructor
    · intro h
      exact .inr ⟨hge, fun i hi => (hstep i).1 (h i hi)⟩
    · rintro (⟨hlt, -⟩ | ⟨-, h⟩)
      · exact absurd hlt hsum
      · exact fun i hi => (hstep i).2 (h i hi)

end Shares

/-! ## The monitor -/

/-- How far a task's counter went between two frames. -/
def delta (k : Kernel E) (prev_counters : Nat → U32) (i : Nat) : Nat := (taskDeltas k prev_counters i).toNat

theorem toNat_sum (f : Nat → U32) (n : Nat) : (((List.range n).map f).foldl (· + ·) 0#32).toNat =
    (∑ i ∈ Finset.range n, (f i).toNat) % 2 ^ 32 := by
  induction n with
  | zero => rfl
  | succ n ih =>
    rw [List.range_succ, List.map_append, List.foldl_append, Finset.sum_range_succ]
    show (_ + f n).toNat = _
    rw [BitVec.toNat_add, ih, Nat.mod_add_mod]

theorem toNat_totalDelta (k : Kernel E) (prev : Nat → U32) :
    (totalDelta k prev).toNat = wrapped (ck_scheduler_task_count k.scheduler).toNat (delta k prev) := by
  have hsum := toNat_sum (taskDeltas k prev) (ck_scheduler_task_count k.scheduler).toNat
  unfold totalDelta
  dsimp only
  generalize ((List.range (ck_scheduler_task_count k.scheduler).toNat).map (taskDeltas k prev)).foldl (· + ·) 0#32 = sum
    at hsum ⊢
  unfold wrapped delta
  rw [← hsum]
  by_cases h : sum = 0#32
  · rw [if_pos h, h]
    rfl
  · have hne : sum.toNat ≠ 0 := fun h0 => h (BitVec.eq_of_toNat_eq h0)
    rw [if_neg h]
    omega

theorem toNat_percentOf (total delta : U32) :
    (percentOf total delta).toNat = 100 * delta.toNat % 2 ^ 32 / total.toNat := by
  rw [percentOf, BitVec.toNat_udiv, BitVec.toNat_mul, Nat.mul_comm]
  rfl

theorem filledOf_eq {total : U32} (h : total ≠ 0#32) (delta : U32) :
    filledOf total delta = min (20 * delta.toNat % 2 ^ 32 / total.toNat) 20 := by
  rw [filledOf, if_neg h, BitVec.toNat_udiv, BitVec.toNat_mul, Nat.mul_comm]
  rfl

theorem monitor_last (frames : List (Kernel E)) (k : Kernel E) (prev : Nat → U32) (s : Screen) :
    ∃ u, (ck_visualizer_run_monitor (frames ++ [k]) prev s).1.cells =
      (drawFrame k (ck_visualizer_run_monitor frames prev s).2 u).cells := by
  unfold ck_visualizer_run_monitor
  dsimp only
  rw [List.foldl_append]
  exact ⟨_, rfl⟩

/-- The rows of the last frame, as computed. -/
theorem monitor_shows (frames : List (Kernel E)) (k : Kernel E) (prev : Nat → U32) (s : Screen)
    (hn : (ck_scheduler_task_count k.scheduler).toNat ≤ 8) {i : Nat}
    (hi : i < (ck_scheduler_task_count k.scheduler).toNat) :
    let n := (ck_scheduler_task_count k.scheduler).toNat
    let d := delta k (ck_visualizer_run_monitor frames prev s).2
    TaskRow (ck_visualizer_run_monitor (frames ++ [k]) prev s).1 (12 + i)
      (100 * d i % 2 ^ 32 / wrapped n d) (min (20 * d i % 2 ^ 32 / wrapped n d) 20) := by
  intro n d
  obtain ⟨u, hu⟩ := monitor_last frames k prev s
  have hrow : TaskRow (drawFrame k (ck_visualizer_run_monitor frames prev s).2 u) (12 + i) _ _ := drawFrame_shows hn hi
  have hne : totalDelta k (ck_visualizer_run_monitor frames prev s).2 ≠ 0#32 := by
    intro h0
    have htotal := toNat_totalDelta k (ck_visualizer_run_monitor frames prev s).2
    rw [h0] at htotal
    exact absurd htotal (Nat.ne_of_lt wrapped_pos)
  rw [toNat_percentOf, filledOf_eq hne, toNat_totalDelta] at hrow
  exact hrow.congr fun x _ _ => congrFun hu x

/-- What a row shows is right exactly if what was computed for it is. -/
theorem TaskRow.exact_iff {s : Screen} {row n i : Nat} {d : Nat → Nat} (hd : d i < 2 ^ 32) (hi : i < n)
    (h : TaskRow s row (100 * d i % 2 ^ 32 / wrapped n d) (min (20 * d i % 2 ^ 32 / wrapped n d) 20)) :
    TaskRow s row (100 * d i / whole n d) (20 * d i / whole n d) ↔
      100 * d i % 2 ^ 32 / wrapped n d = 100 * d i / whole n d ∧
      min (20 * d i % 2 ^ 32 / wrapped n d) 20 = 20 * d i / whole n d := by
  have hpart := part_le_whole (d := d) hi
  constructor
  · intro h'
    refine ⟨h.percent_eq h' ?_ ?_, h.filled_eq h' (Nat.min_le_right _ _) (Nat.div_le_of_le_mul (by omega))⟩
    · exact Nat.lt_of_le_of_lt (Nat.div_le_self _ _) (Nat.mod_lt _ (by decide))
    · by_cases hsum : ∑ i ∈ Finset.range n, d i < 2 ^ 32
      · -- A percentage of the whole, from a product that may have wrapped.
        right
        rw [wrapped_eq_whole hsum]
        have hle : 100 * d i / whole n d ≤ 100 := Nat.div_le_of_le_mul (by omega)
        have := Nat.div_le_div_right (c := whole n d) (Nat.mod_le (100 * d i) (2 ^ 32))
        omega
      · left
        have hw : whole n d = ∑ i ∈ Finset.range n, d i := Nat.max_eq_right (by omega)
        rw [Nat.div_lt_iff_lt_mul (by omega)]
        omega
  · rintro ⟨hp, hf⟩
    rwa [← hp, ← hf]

/-- After every frame of the monitor, the list shows each task its share of
what all tasks counted since the last frame, and the shares add up to at most
100, exactly if nothing wraps in computing them, or if the sum wraps and all the
rest wraps alike. -/
theorem shares_shown_iff (frames : List (Kernel E)) (k : Kernel E) (prev : Nat → U32) (s : Screen)
    (hn : (ck_scheduler_task_count k.scheduler).toNat ≤ 8) :
    let n := (ck_scheduler_task_count k.scheduler).toNat
    let d := delta k (ck_visualizer_run_monitor frames prev s).2
    ((∀ i < n, TaskRow (ck_visualizer_run_monitor (frames ++ [k]) prev s).1 (12 + i) (100 * d i / whole n d)
        (20 * d i / whole n d)) ∧ ∑ i ∈ Finset.range n, 100 * d i / whole n d ≤ 100) ↔
      NothingWraps n d ∨
        2 ^ 32 ≤ ∑ i ∈ Finset.range n, d i ∧ ∀ i < n, WrapsAlike n d 100 i ∧ WrapsAlike n d 20 i := by
  intro n d
  have hd : ∀ i, d i < 2 ^ 32 := fun i => (taskDeltas k _ i).isLt
  rw [and_iff_left (sum_percent_le n d), ← shares_eq_iff hd]
  exact forall₂_congr fun i hi => TaskRow.exact_iff (hd i) hi (monitor_shows frames k prev s hn hi)

/-- A kernel with one task, which has counted this far. -/
def oneTask (counter : U32) : Kernel Unit where
  scheduler := ⟨.replicate 8 (.zero Unit), 1, 0, 0, ⟨none, 0⟩, ⟨fun _ => 0, 0, 0, 0, 0, .zero⟩, fun _ => .zero Unit, []⟩
  ck_task_counter := (Vector.replicate 8 0).set 0 counter
  ck_game := ⟨0, 0, 0⟩
  ticks := 0

theorem shares_shown_small : TaskRow
    (ck_visualizer_run_monitor [oneTask 42949672] (fun _ => 0) ⟨fun _ => 0, 0, 0, fun _ => 0, 0⟩).1 12 100 20 := by
  have hshown := (shares_shown_iff [] (oneTask 42949672) (fun _ => 0) ⟨fun _ => 0, 0, 0, fun _ => 0, 0⟩ (by decide)).2
    (.inl ⟨by decide, by decide⟩)
  exact hshown.1 0 (by decide)

/-- One count more, and a task that had all of the time is shown with a full
bar and 0 percent. -/
theorem full_share_shown_zero :
    delta (oneTask 42949673) (fun _ => 0) 0 = 42949673 ∧ whole 1 (delta (oneTask 42949673) fun _ => 0) = 42949673 ∧
    TaskRow (ck_visualizer_run_monitor [oneTask 42949673] (fun _ => 0) ⟨fun _ => 0, 0, 0, fun _ => 0, 0⟩).1 12 0 20 ∧
    ¬ TaskRow (ck_visualizer_run_monitor [oneTask 42949673] (fun _ => 0) ⟨fun _ => 0, 0, 0, fun _ => 0, 0⟩).1 12
      (100 * 42949673 / 42949673) (20 * 42949673 / 42949673) := by
  have hshown := monitor_shows [] (oneTask 42949673) (fun _ => 0) ⟨fun _ => 0, 0, 0, fun _ => 0, 0⟩ (by decide)
    (i := 0) (by decide)
  refine ⟨by decide, by decide, hshown, fun h => ?_⟩
  exact absurd (hshown.percent_eq h (by decide) (by decide)) (by decide)

end CheesecakeOS.Shell
