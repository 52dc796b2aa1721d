import Mathlib.Data.List.DropRight
import CheesecakeOS.Kernel.ShellLine
/-!
# Command lines

What becomes of a line after Enter. The history is kept in ten rows of 64 bytes
that are written over again and again; read as C strings they are the entries
`Shell` has (`ck_history_add_entries`), and these are the last ten commands
(`history_kept`). `echo` gets its line in two buffers of other sizes than the
line's own (`echo_lossless_iff`).
-/
open Lib

namespace CheesecakeOS.Shell

variable {E : Type}

/-! ## The history, byte by byte -/

/-- `s[i]`, also for the zero behind the last character. -/
def charAt (s : List U8) (i : Nat) : U8 := s[i]?.getD 0#8

/-- `ck_history` and `ck_history_count`. -/
structure History where
  ck_history : Vector (Vector U8 64) 10
  ck_history_count : Nat

-- For the loop counters as indices.
instance neZero_rows : NeZero 10 := ⟨by decide⟩

instance neZero_columns : NeZero 64 := ⟨by decide⟩

namespace History

/-- `ck_history[r]`. -/
def row (h : History) (r : Fin 10) : Vector U8 64 := h.ck_history[r]

/-- `ck_history[r][j] = c;` -/
def put (h : History) (r : Fin 10) (j : Fin 64) (c : U8) : History :=
  { h with ck_history := h.ck_history.set r (h.ck_history[r].set j c) }

/-- The loop that copies a command to a row, and the zero behind it. -/
def copyLine (h : History) (r : Fin 10) (cmd : List U8) (i : Nat) : History :=
  if i < CK_HISTORY_LINE_SIZE - 1 ∧ charAt cmd i ≠ 0#8 then
    copyLine (h.put r (.ofNat 64 i) (charAt cmd i)) r cmd (i + 1)
  else h.put r (.ofNat 64 i) 0#8
termination_by CK_HISTORY_LINE_SIZE - 1 - i
decreasing_by
  simp only [CK_HISTORY_LINE_SIZE] at *
  omega

/-- Shift history up. -/
def shiftUp (h : History) : History :=
  forRange 0 (CK_HISTORY_SIZE - 1) h fun h i =>
    forRange 0 CK_HISTORY_LINE_SIZE h fun h j =>
      h.put (.ofNat 10 i) (.ofNat 64 j) (h.row (.ofNat 10 (i + 1)))[Fin.ofNat 64 j]

def ck_history_add (h : History) (cmd : List U8) : History :=
  if h.ck_history_count < CK_HISTORY_SIZE then
    let h := h.copyLine (.ofNat 10 h.ck_history_count) cmd 0
    { h with ck_history_count := h.ck_history_count + 1 }
  else h.shiftUp.copyLine (.ofNat 10 (CK_HISTORY_SIZE - 1)) cmd 0

/-- What `ck_shell_execute` does first. -/
def track (h : History) (cmd : List U8) : History :=
  if ck_strlen (cString cmd) > 0 then h.ck_history_add cmd else h

/-- The string in a row. -/
def string (h : History) (r : Fin 10) : List U8 := cString (h.row r).toList

/-- The strings in `ck_history[0..ck_history_count)`. -/
def entries (h : History) : List (List U8) := (List.ofFn h.string).take h.ck_history_count

end History

/-! ## Strings -/

section Scan
variable {p : U8 → Bool} {s : List U8}

/-- A scan for as long as `p` holds, which it does not for the zero at the end. -/
theorem charAt_takeWhile (hp : p 0#8 = false) : p (charAt s (s.takeWhile p).length) = false := by
  induction s with
  | nil => exact hp
  | cons c s ih =>
    by_cases hc : p c = true
    · rw [List.takeWhile_cons_of_pos hc]
      exact ih
    · rw [List.takeWhile_cons_of_neg hc]
      exact Bool.eq_false_iff.2 hc

theorem getElem?_takeWhile {i : Nat} (hi : i < (s.takeWhile p).length) :
    (s.takeWhile p)[i]? = some (charAt s i) ∧ p (charAt s i) = true := by
  have hpre : s.takeWhile p <+: s := List.takeWhile_prefix _
  have hget : s[i]? = some (s.takeWhile p)[i] := by
    rw [hpre.getElem hi]
    exact List.getElem?_eq_getElem (Nat.lt_of_lt_of_le hi hpre.length_le)
  rw [charAt, hget, List.getElem?_eq_getElem hi]
  exact ⟨rfl, List.mem_takeWhile_imp (List.getElem_mem hi)⟩

end Scan

theorem charAt_length (s : List U8) : charAt s (cString s).length = 0#8 := by
  have hstop := charAt_takeWhile (p := fun c => decide (c ≠ 0#8)) (s := s) (by decide)
  exact not_not.1 (of_decide_eq_false hstop)

theorem cString_ne_zero {s : List U8} {c : U8} (hc : c ∈ cString s) : c ≠ 0#8 := by
  have hpos := List.mem_takeWhile_imp hc
  exact of_decide_eq_true hpos

theorem getElem?_cString {s : List U8} {i : Nat} (hi : i < (cString s).length) :
    (cString s)[i]? = some (charAt s i) ∧ charAt s i ≠ 0#8 := by
  obtain ⟨hget, hne⟩ := getElem?_takeWhile hi
  exact ⟨hget, of_decide_eq_true hne⟩

/-- A zero stored behind some characters ends the string there. -/
theorem cString_set_zero {row : List U8} {i : Nat} (hi : i < row.length) (hrow : ∀ c ∈ row.take i, c ≠ 0#8) :
    cString (row.set i 0#8) = row.take i := by
  have hall : ∀ c ∈ row.take i, decide (c ≠ 0#8) = true := fun c hc => decide_eq_true (hrow c hc)
  rw [List.set_eq_take_append_cons_drop, if_pos hi, cString, List.takeWhile_append_of_pos hall,
    List.takeWhile_cons_of_neg (by decide), List.append_nil]

namespace History

/-! ## Rows -/

variable (h : History) (r : Fin 10)

theorem row_put (j : Fin 64) (c : U8) : (h.put r j c).row = Function.update h.row r ((h.row r).set j c) := by
  funext q
  by_cases hq : q = r
  · subst hq
    simp [row, put]
  · have hne : (r : Nat) ≠ q := fun heq => hq (Fin.ext heq.symm)
    rw [Function.update_of_ne hq]
    simp [row, put, hne]

/-- The loop from where it has copied `i` characters: it leaves the command in
its row, cut off at 63 characters, and a zero behind it. -/
theorem copyLine_spec (cmd : List U8) (i : Nat) (hi : i ≤ 63) (hlen : i ≤ (cString cmd).length)
    (hcopied : (h.row r).toList.take i = (cString cmd).take i) :
    ∃ row, (h.copyLine r cmd i).row = Function.update h.row r row ∧ cString row.toList = (cString cmd).take 63 ∧
      0#8 ∈ row.toList ∧ (h.copyLine r cmd i).ck_history_count = h.ck_history_count := by
  have hidx : (Fin.ofNat 64 i).val = i := Nat.mod_eq_of_lt (by omega)
  fun_induction copyLine h r cmd i with
  | case1 h i hgo ih =>
    obtain ⟨hlt, hc⟩ := hgo
    simp only [CK_HISTORY_LINE_SIZE] at hlt
    have hmore : i < (cString cmd).length := Nat.lt_of_le_of_ne hlen fun heq => hc (heq ▸ charAt_length cmd)
    have hnext : ((h.put r (.ofNat 64 i) (charAt cmd i)).row r).toList.take (i + 1) = (cString cmd).take (i + 1) := by
      rw [row_put, Function.update_self, Vector.toList_set, hidx, List.take_add_one, List.take_add_one,
        (getElem?_cString hmore).1, ← hcopied, List.take_set_of_le (Nat.le_refl i),
        List.getElem?_set_self (by simp; omega)]
    obtain ⟨row, hrow, hstring, hzero, hcount⟩ := ih (by omega) hmore hnext (Nat.mod_eq_of_lt (by omega))
    refine ⟨row, ?_, hstring, hzero, hcount⟩
    rw [hrow, row_put, Function.update_idem]
  | case2 h i hstop =>
    simp only [CK_HISTORY_LINE_SIZE] at hstop
    -- At the last column or at the end of the command.
    have hwhole : (cString cmd).take i = (cString cmd).take 63 := by
      by_cases hlt : i < 63
      · have hend : ¬ i < (cString cmd).length := fun hmore => hstop ⟨hlt, (getElem?_cString hmore).2⟩
        rw [List.take_of_length_le (by omega), List.take_of_length_le (by omega)]
      · rw [show i = 63 by omega]
    refine ⟨_, row_put h r _ _, ?_, ?_, rfl⟩
    · rw [Vector.toList_set, hidx, cString_set_zero (by simp; omega), hcopied, hwhole]
      rw [hcopied]
      exact fun c hc => cString_ne_zero (List.mem_of_mem_take hc)
    · rw [Vector.toList_set]
      exact List.mem_set (by rw [Vector.length_toList]; exact Fin.isLt _) _

/-- A row copied over another one, byte by byte. -/
theorem copyRow_spec {r q : Fin 10} (hne : q ≠ r) :
    let u := forRange 0 CK_HISTORY_LINE_SIZE h fun h j => h.put r (.ofNat 64 j) (h.row q)[Fin.ofNat 64 j]
    u.row = Function.update h.row r (h.row q) ∧ u.ck_history_count = h.ck_history_count := by
  intro u
  have hloop : (∀ p, p ≠ r → u.row p = h.row p) ∧ (∀ j : Fin 64, j.val < 64 → (u.row r)[j] = (h.row q)[j]) ∧
      u.ck_history_count = h.ck_history_count := by
    refine forRange_inv (fun k (u : History) => (∀ p, p ≠ r → u.row p = h.row p) ∧
      (∀ j : Fin 64, j.val < k → (u.row r)[j] = (h.row q)[j]) ∧ u.ck_history_count = h.ck_history_count)
      (Nat.zero_le _) ⟨fun _ _ => rfl, fun j hj => absurd hj (Nat.not_lt_zero _), rfl⟩ ?_
    rintro k u - hk ⟨hother, hcopied, hcount⟩
    simp only [CK_HISTORY_LINE_SIZE] at hk
    have hidx : (Fin.ofNat 64 k).val = k := Nat.mod_eq_of_lt hk
    refine ⟨fun p hp => ?_, fun j hj => ?_, hcount⟩
    · rw [row_put, Function.update_of_ne hp, hother p hp]
    · rw [row_put, Function.update_self, hother q hne]
      by_cases hjk : j = Fin.ofNat 64 k
      · rw [hjk]
        simp
      · have hval : j.val ≠ k := fun heq => hjk (Fin.ext (heq.trans hidx.symm))
        rw [← hcopied j (by omega)]
        simp only [Fin.getElem_fin]
        exact Vector.getElem_set_ne _ _ (by omega)
  obtain ⟨hother, hcopied, hcount⟩ := hloop
  refine ⟨?_, hcount⟩
  funext p
  by_cases hp : p = r
  · rw [hp, Function.update_self]
    exact Vector.ext fun j hj => hcopied ⟨j, hj⟩ hj
  · rw [Function.update_of_ne hp, hother p hp]

theorem shiftUp_spec : (∀ i : Fin 9, h.shiftUp.row i.castSucc = h.row i.succ) ∧
    h.shiftUp.ck_history_count = h.ck_history_count := by
  have hloop : (∀ p : Fin 10, h.shiftUp.row p = if p.val < 9 then h.row (.ofNat 10 (p.val + 1)) else h.row p) ∧
      h.shiftUp.ck_history_count = h.ck_history_count := by
    unfold shiftUp
    refine forRange_inv (fun k (u : History) => (∀ p : Fin 10, u.row p =
      if p.val < k then h.row (.ofNat 10 (p.val + 1)) else h.row p) ∧ u.ck_history_count = h.ck_history_count)
      (Nat.zero_le _) ⟨fun p => (if_neg (Nat.not_lt_zero _)).symm, rfl⟩ ?_
    rintro k u - hk ⟨hrows, hcount⟩
    simp only [CK_HISTORY_SIZE] at hk
    have hr : (Fin.ofNat 10 k).val = k := Nat.mod_eq_of_lt (by omega)
    have hq : (Fin.ofNat 10 (k + 1)).val = k + 1 := Nat.mod_eq_of_lt (by omega)
    have hne : Fin.ofNat 10 (k + 1) ≠ Fin.ofNat 10 k := fun heq => by
      have := congrArg Fin.val heq
      omega
    obtain ⟨hrow, hcount'⟩ := u.copyRow_spec hne
    refine ⟨fun p => ?_, hcount'.trans hcount⟩
    rw [hrow]
    by_cases hp : p = Fin.ofNat 10 k
    · -- The row below has not been written over yet.
      rw [hp, Function.update_self, hrows, if_neg (by omega), hr, if_pos (Nat.lt_succ_self k)]
    · have hval : p.val ≠ k := fun heq => hp (Fin.ext (heq.trans hr.symm))
      have hiff : p.val < k + 1 ↔ p.val < k := by omega
      rw [Function.update_of_ne hp, hrows]
      simp only [hiff]
  refine ⟨fun i => ?_, hloop.2⟩
  rw [hloop.1, if_pos (show i.castSucc.val < 9 from i.isLt)]
  exact congrArg h.row (Fin.ext (Nat.mod_eq_of_lt (by simp; omega)))

/-! ## Entries -/

/-- The count is that of the rows in use, and each of these holds a string. -/
structure WellKept (h : History) : Prop where
  count_le : h.ck_history_count ≤ 10
  terminated : ∀ r : Fin 10, r.val < h.ck_history_count → 0#8 ∈ (h.row r).toList

theorem entries_length (hc : h.ck_history_count ≤ 10) : h.entries.length = h.ck_history_count := by
  simp [entries, hc]

theorem take_ofFn_update {n : Nat} {f : Fin n → List U8} (i : Fin n) (line : List U8) :
    (List.ofFn (Function.update f i line)).take (i + 1) = (List.ofFn f).take i ++ [line] := by
  have hbefore : (List.ofFn (Function.update f i line)).take i = (List.ofFn f).take i := by
    refine List.ext_getElem (by simp) fun j h1 h2 => ?_
    have hj : j < i := by simp at h1; omega
    rw [List.getElem_take, List.getElem_take, List.getElem_ofFn, List.getElem_ofFn]
    exact Function.update_of_ne (fun heq => by rw [← heq] at hj; exact Nat.lt_irrefl _ hj) _ _
  rw [List.take_add_one, hbefore, List.getElem?_eq_getElem (by simp), List.getElem_ofFn, Fin.eta, Function.update_self,
    Option.toList_some]

/-- The two branches, by their rows. -/
theorem ck_history_add_cases (hc : h.ck_history_count ≤ 10) (cmd : List U8) :
    ∃ row, cString row.toList = (cString cmd).take 63 ∧ 0#8 ∈ row.toList ∧
      ((∃ hlt : h.ck_history_count < 10, (h.ck_history_add cmd).row = Function.update h.row ⟨_, hlt⟩ row ∧
        (h.ck_history_add cmd).ck_history_count = h.ck_history_count + 1) ∨
      (h.ck_history_count = 10 ∧ (∀ i : Fin 9, (h.ck_history_add cmd).row i.castSucc = h.row i.succ) ∧
        (h.ck_history_add cmd).row (Fin.last 9) = row ∧ (h.ck_history_add cmd).ck_history_count = 10)) := by
  unfold ck_history_add
  by_cases hlt : h.ck_history_count < 10
  · obtain ⟨row, hrow, hstring, hzero, hcount⟩ := h.copyLine_spec (.ofNat 10 h.ck_history_count) cmd 0
      (Nat.zero_le _) (Nat.zero_le _) (by rw [List.take_zero, List.take_zero])
    have hidx : Fin.ofNat 10 h.ck_history_count = ⟨_, hlt⟩ := Fin.ext (Nat.mod_eq_of_lt hlt)
    refine ⟨row, hstring, hzero, .inl ⟨hlt, ?_⟩⟩
    rw [if_pos hlt, ← hidx]
    exact ⟨hrow, congrArg (· + 1) hcount⟩
  · obtain ⟨row, hrow, hstring, hzero, hcount⟩ := h.shiftUp.copyLine_spec (.ofNat 10 (CK_HISTORY_SIZE - 1)) cmd 0
      (Nat.zero_le _) (Nat.zero_le _) (by rw [List.take_zero, List.take_zero])
    obtain ⟨hshift, hcount'⟩ := h.shiftUp_spec
    have hidx : Fin.ofNat 10 (CK_HISTORY_SIZE - 1) = Fin.last 9 := rfl
    refine ⟨row, hstring, hzero, .inr ⟨by omega, ?_⟩⟩
    rw [if_neg hlt, hcount, hcount', hrow, hidx]
    refine ⟨fun i => ?_, Function.update_self _ _ _, by omega⟩
    rw [Function.update_of_ne (Fin.castSucc_lt_last i).ne, hshift]

theorem wellKept_add (hk : WellKept h) (cmd : List U8) : WellKept (h.ck_history_add cmd) := by
  obtain ⟨row, -, hzero, ⟨hlt, hrow, hcount⟩ | ⟨hfull, hshift, hlast, hcount⟩⟩ := h.ck_history_add_cases hk.count_le cmd
  · refine ⟨by omega, fun r hr => ?_⟩
    rw [hrow]
    by_cases hrc : r = ⟨_, hlt⟩
    · rw [hrc, Function.update_self]
      exact hzero
    · have hval : r.val ≠ h.ck_history_count := fun heq => hrc (Fin.ext heq)
      rw [Function.update_of_ne hrc]
      exact hk.terminated r (by omega)
  · refine ⟨by omega, fun r _ => ?_⟩
    cases r using Fin.lastCases with
    | last =>
      rw [hlast]
      exact hzero
    | cast i =>
      rw [hshift]
      exact hk.terminated i.succ (by rw [hfull]; exact Fin.isLt _)

/-- On the strings in the rows, adding a command does what `Shell` has. -/
theorem ck_history_add_entries (hc : h.ck_history_count ≤ 10) (cmd : List U8) :
    (h.ck_history_add cmd).entries = Shell.ck_history_add h.entries (cString cmd) := by
  obtain ⟨row, hstring, -, ⟨hlt, hrow, hcount⟩ | ⟨hfull, hshift, hlast, hcount⟩⟩ := h.ck_history_add_cases hc cmd
  · have hstrings : (h.ck_history_add cmd).string = Function.update h.string ⟨_, hlt⟩ ((cString cmd).take 63) := by
      funext r
      by_cases hrc : r = ⟨_, hlt⟩
      · rw [hrc, string, hrow, Function.update_self, Function.update_self, hstring]
      · rw [string, hrow, Function.update_of_ne hrc, Function.update_of_ne hrc, string]
    rw [Shell.ck_history_add, h.entries_length hc, if_pos hlt, entries, hcount, hstrings]
    exact take_ofFn_update ⟨_, hlt⟩ _
  · have hshifted : (h.ck_history_add cmd).string = Fin.snoc (fun i => h.string i.succ) ((cString cmd).take 63) := by
      funext r
      cases r using Fin.lastCases with
      | last => rw [Fin.snoc_last, string, hlast, hstring]
      | cast i => rw [Fin.snoc_castSucc, string, hshift, string]
    have hfirst : h.entries.drop 1 = List.ofFn fun i : Fin 9 => h.string i.succ := by
      rw [entries, hfull, List.take_of_length_le (by simp), List.ofFn_succ, List.drop_one, List.tail_cons]
    rw [Shell.ck_history_add, h.entries_length hc, hfull, if_neg (Nat.lt_irrefl _), hfirst, entries, hcount,
      List.take_of_length_le (by simp), hshifted, List.ofFn_succ', List.concat_eq_append, Fin.snoc_last]
    simp only [Fin.snoc_castSucc]
    rfl

end History

/-! ## Commands -/

/-- The state a command leaves, whether or not it returns. -/
def left : Except ShellState ShellState → ShellState
  | .ok m => m
  | .error m => m

/-- Commands one after the other, each given by the bytes of its line. -/
def executeAll (m : ShellState) (calls : List (Turn E × List U8)) : ShellState :=
  calls.foldl (fun m call => left (ck_shell_execute m call.1 (cString call.2))) m

theorem print_history (m : ShellState) (ops : List VgaOp) : (m.print ops).ck_history = m.ck_history := rfl

theorem clear_history (m : ShellState) : (clear m).ck_history = m.ck_history := by
  unfold clear
  generalize ck_vga_clear_screen m.screen = s
  rfl

theorem draw_status_history (m : ShellState) (ticks : U32) :
    (ck_shell_draw_status m ticks).ck_history = m.ck_history := by
  unfold ck_shell_draw_status
  split <;> rfl

theorem taskmon_history (m : ShellState) (t : Turn E) : (taskmon m t).ck_history = m.ck_history := by
  unfold taskmon restart
  exact draw_status_history _ _

/-- No command touches the history again. -/
theorem execute_history (m : ShellState) (t : Turn E) (cmd : List U8) : (left (ck_shell_execute m t cmd)).ck_history =
    if ck_strlen cmd > 0 then ck_history_add m.ck_history cmd else m.ck_history := by
  have hadded : (if ck_strlen cmd > 0 then { m with ck_history := ck_history_add m.ck_history cmd } else m).ck_history =
      if ck_strlen cmd > 0 then ck_history_add m.ck_history cmd else m.ck_history := by
    split <;> rfl
  rw [← hadded]
  unfold ck_shell_execute
  generalize (if ck_strlen cmd > 0 then { m with ck_history := ck_history_add m.ck_history cmd } else m) = m₁
  have hok : ∀ m : ShellState, left (.ok m) = m := fun _ => rfl
  have herror : ∀ m : ShellState, left (.error m) = m := fun _ => rfl
  simp only [apply_ite left, apply_ite ShellState.ck_history, hok, herror, print_history, clear_history,
    taskmon_history, ite_self]

/-- The last ten lines, cut off at 63 characters. -/
def lastLines (lines : List (List U8)) : List (List U8) := (lines.rtake 10).map (·.take 63)

theorem lastLines_add (lines : List (List U8)) (line : List U8) :
    ck_history_add (lastLines lines) line = lastLines (lines ++ [line]) := by
  have hlen : (lastLines lines).length = min 10 lines.length := by
    rw [lastLines, List.length_map, List.rtake, List.length_drop]
    omega
  unfold ck_history_add
  dsimp only
  rw [hlen]
  by_cases hlt : lines.length < 10
  · have hall : ∀ l : List (List U8), l.length ≤ 10 → lastLines l = l.map (·.take 63) := fun l hl => by
      rw [lastLines, List.rtake, Nat.sub_eq_zero_of_le hl, List.drop_zero]
    rw [if_pos (by simp only [CK_HISTORY_SIZE]; omega), hall lines (by omega),
      hall (lines ++ [line]) (by rw [List.length_append]; exact hlt), List.map_append]
    rfl
  · have hdrop : (lines.rtake 10).drop 1 = lines.rtake 9 := by
      rw [List.rtake, List.rtake, List.drop_drop, show lines.length - 10 + 1 = lines.length - 9 by omega]
    rw [if_neg (by simp only [CK_HISTORY_SIZE]; omega), lastLines, lastLines, ← List.map_drop, hdrop,
      List.rtake_concat_succ, List.map_append]
    rfl

/-- The invariant of a run: rows and entries are those of the lines so far. -/
structure Records (lines : List (List U8)) (h : History) (m : ShellState) : Prop where
  kept : h.WellKept
  entries : h.entries = lastLines lines
  shell : m.ck_history = h.entries

theorem Records.step {lines : List (List U8)} {h : History} {m : ShellState} (hr : Records lines h m) (t : Turn E)
    (cmd : List U8) : Records (lines ++ [cString cmd].filter (· ≠ [])) (h.track cmd)
      (left (ck_shell_execute m t (cString cmd))) := by
  have hpos : ck_strlen (cString cmd) > 0 ↔ cString cmd ≠ [] := List.length_pos_iff
  have hshell := execute_history m t (cString cmd)
  unfold History.track
  by_cases hne : cString cmd ≠ []
  · have hentries := h.ck_history_add_entries hr.kept.count_le cmd
    rw [if_pos (hpos.2 hne)] at hshell ⊢
    rw [List.filter_cons_of_pos (by simpa using hne), List.filter_nil]
    refine ⟨h.wellKept_add hr.kept cmd, ?_, ?_⟩
    · rw [hentries, hr.entries, lastLines_add]
    · rw [hshell, hentries, hr.shell]
  · rw [if_neg (mt hpos.1 hne)] at hshell ⊢
    rw [List.filter_cons_of_neg (by simpa using hne), List.filter_nil, List.append_nil]
    exact ⟨hr.kept, hr.entries, hshell.trans hr.shell⟩

theorem Records.run (calls : List (Turn E × List U8)) : ∀ {lines : List (List U8)} {h : History} {m : ShellState},
    Records lines h m → Records (lines ++ (calls.map fun call => cString call.2).filter (· ≠ []))
      (calls.foldl (fun h call => h.track call.2) h) (executeAll m calls) := by
  induction calls with
  | nil =>
    intro lines h m hr
    rw [List.map_nil, List.filter_nil, List.append_nil]
    exact hr
  | cons call calls ih =>
    intro lines h m hr
    have hrun := ih (hr.step call.1 call.2)
    rw [List.append_assoc, ← List.filter_append] at hrun
    exact hrun

/-- For all commands, of any number and length: the rows in use are those of
the last ten commands that are not empty, in order and cut off at 63 characters,
each with a zero in its 64 bytes, whatever the rows held before; and they are
what the shell shows as its history. -/
theorem history_kept (rows : Vector (Vector U8 64) 10) (screen : Screen) (buffer : Vector U8 256)
    (calls : List (Turn E × List U8)) :
    let h := calls.foldl (fun h call => h.track call.2) (History.mk rows 0)
    let lines := (calls.map fun call => cString call.2).filter (· ≠ [])
    h.ck_history_count = min 10 lines.length ∧ h.entries = (lines.rtake 10).map (·.take 63) ∧
      (∀ r : Fin 10, r.val < h.ck_history_count → 0#8 ∈ (h.row r).toList) ∧
      (executeAll (.boot screen buffer) calls).ck_history = h.entries := by
  intro h lines
  have hstart : Records [] ⟨rows, 0⟩ (.boot screen buffer) :=
    ⟨⟨Nat.zero_le _, fun r hr => absurd hr (Nat.not_lt_zero _)⟩, rfl, rfl⟩
  have hrun : Records lines h (executeAll (.boot screen buffer) calls) := hstart.run calls
  have hcount := h.entries_length hrun.kept.count_le
  refine ⟨?_, hrun.entries, hrun.kept.terminated, hrun.shell⟩
  rw [← hcount, hrun.entries, lastLines, List.length_map, List.rtake, List.length_drop]
  omega

/-! ## Echo -/

/-- A line that is a word, spaces and a text. -/
def spaced (word : List U8) (spaces : Nat) (rest : List U8) : List U8 := word ++ List.replicate spaces 0x20#8 ++ rest

section Split
variable {word rest : List U8} {spaces max_len : Nat}

theorem get_first_word_spaced (hword : ∀ c ∈ word, c ≠ 0x20#8) :
    ck_get_first_word (spaced word (spaces + 1) rest) max_len = word.take (max_len - 1) := by
  have hall : ∀ c ∈ word, decide (c ≠ 0x20#8) = true := fun c hc => decide_eq_true (hword c hc)
  rw [ck_get_first_word, spaced, List.append_assoc, List.takeWhile_append_of_pos hall, List.replicate_succ,
    List.cons_append, List.takeWhile_cons_of_neg (by decide), List.append_nil]

theorem get_args_spaced (hword : ∀ c ∈ word, c ≠ 0x20#8) (hrest : rest.head? ≠ some 0x20#8) :
    ck_get_args (spaced word (spaces + 1) rest) max_len = rest.take (max_len - 1) := by
  have hall : ∀ c ∈ word, decide (c ≠ 0x20#8) = true := fun c hc => decide_eq_true (hword c hc)
  have hspaces : ∀ c ∈ List.replicate (spaces + 1) 0x20#8, decide (c = 0x20#8) = true := fun c hc =>
    decide_eq_true (List.eq_of_mem_replicate hc)
  have hstop : rest.dropWhile (fun c => decide (c = 0x20#8)) = rest := by
    cases rest with
    | nil => rfl
    | cons c rest => exact List.dropWhile_cons_of_neg (by simpa using hrest)
  rw [ck_get_args, spaced, List.append_assoc, List.dropWhile_append_of_pos hall, List.replicate_succ, List.cons_append,
    List.dropWhile_cons_of_neg (by decide), ← List.cons_append, ← List.replicate_succ,
    List.dropWhile_append_of_pos hspaces, hstop]

end Split

/-- The commands before `echo` are not `echo`, and it has no space in it. -/
theorem echo_name : ck_strcmp (utf8 "echo") (utf8 "help") ≠ 0 ∧ ck_strcmp (utf8 "echo") (utf8 "uptime") ≠ 0 ∧
    ck_strcmp (utf8 "echo") (utf8 "echo") = 0 ∧ (∀ c ∈ utf8 "echo", c ≠ 0x20#8) ∧
    (utf8 "echo").take 63 = utf8 "echo" := by
  decide +kernel

/-- What `echo` writes back, for all lines that name it. -/
theorem execute_echo {m : ShellState} (t : Turn E) {line : List U8} (hname : ck_get_first_word line 64 = utf8 "echo")
    (hline : line ≠ []) : ck_shell_execute m t line =
      .ok ({ m with ck_history := ck_history_add m.ck_history line }.print (echoOps (ck_get_args line 128))) := by
  obtain ⟨hhelp, huptime, hecho, -⟩ := echo_name
  have hpos : ck_strlen line > 0 := List.length_pos_iff.2 hline
  unfold ck_shell_execute
  dsimp only
  rw [hname, if_neg hhelp, if_neg huptime, if_pos hecho, if_pos hpos]

theorem echoOps_of_ne_nil {args : List U8} (h : args ≠ []) :
    echoOps args = [.write_string args COLOR_YELLOW, text "\n" COLOR_YELLOW] :=
  if_pos (List.length_pos_iff.2 h)

/-- A text of any characters is written back whole, and a newline after it,
exactly if it has at most 127: that is what the buffer for the arguments holds. -/
theorem echo_lossless_iff (m : ShellState) (t : Turn E) (spaces : Nat) (c : U8) (rest : List U8) (hc : c ≠ 0x20#8) :
    let line := spaced (utf8 "echo") (spaces + 1) (c :: rest)
    (ck_get_first_word line 64 = utf8 "echo" ∧ ck_get_args line 128 = c :: rest ∧
      ck_shell_execute m t line = .ok ({ m with ck_history := ck_history_add m.ck_history line }.print
        [.write_string (c :: rest) COLOR_YELLOW, text "\n" COLOR_YELLOW])) ↔ (c :: rest).length ≤ 127 := by
  intro line
  obtain ⟨-, -, -, hword, htake⟩ := echo_name
  have hname : ck_get_first_word line 64 = utf8 "echo" := (get_first_word_spaced hword).trans htake
  have hargs : ck_get_args line 128 = (c :: rest).take 127 := get_args_spaced hword (by simpa using hc)
  constructor
  · rintro ⟨-, hall, -⟩
    rw [hargs] at hall
    exact (List.take_eq_self_iff _).1 hall
  · intro hlen
    have hline : line ≠ [] := by simp [line, spaced]
    have hwhole : ck_get_args line 128 = c :: rest := hargs.trans (List.take_of_length_le hlen)
    refine ⟨hname, hwhole, ?_⟩
    rw [execute_echo t hname hline, hwhole, echoOps_of_ne_nil (by simp)]

/-- A shell that has just been entered. -/
def newShell : ShellState := .boot ⟨fun _ => 0, 0, 0, fun _ => 0, 0⟩ (.replicate 256 0)

theorem echo_lossless_hi :
    let line := spaced (utf8 "echo") 2 [0x68, 0x69]
    ck_get_args line 128 = [0x68, 0x69] ∧ ck_shell_execute newShell (idleTurn 0x0A) line =
      .ok ({ newShell with ck_history := ck_history_add newShell.ck_history line }.print
        [.write_string [0x68, 0x69] COLOR_YELLOW, text "\n" COLOR_YELLOW]) :=
  ((echo_lossless_iff newShell (idleTurn 0x0A) 1 0x68 [0x69] (by decide)).2 (by decide)).2

/-- A line of 133 characters that can be typed, and of which `echo` loses the last. -/
theorem echo_cuts_off :
    let line := spaced (utf8 "echo") 1 (List.replicate 128 0x61#8)
    typed line = line ∧ ck_get_args line 128 ≠ List.replicate 128 0x61#8 ∧
    ck_shell_execute newShell (idleTurn 0x0A) line =
      .ok ({ newShell with ck_history := ck_history_add newShell.ck_history line }.print
        [.write_string (List.replicate 127 0x61#8) COLOR_YELLOW, text "\n" COLOR_YELLOW]) := by
  intro line
  obtain ⟨-, -, -, hword, htake⟩ := echo_name
  have hname : ck_get_first_word line 64 = utf8 "echo" := (get_first_word_spaced hword).trans htake
  have hargs : ck_get_args line 128 = List.replicate 127 0x61#8 := get_args_spaced hword (by decide)
  refine ⟨by decide +kernel, by rw [hargs]; decide, ?_⟩
  rw [execute_echo _ hname (by simp [line, spaced]), hargs, echoOps_of_ne_nil (by decide)]

end CheesecakeOS.Shell
