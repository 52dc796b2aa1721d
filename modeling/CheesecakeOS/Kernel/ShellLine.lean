import Mathlib.Data.Nat.Digits.Lemmas
import CheesecakeOS.Kernel.Shell
/-!
# The line being edited

`line_shown`: at the head of every turn of the shell's loop the cells before
the cursor hold the input buffer, and what Enter hands to `ck_shell_execute` is
the line as typed. The invariant of the loop is `Editing`; while a command
writes, only `Room` is kept: the cursor has not gone so far past the bottom
that a newline would wrap its 16 bits, and the next character brings it back.
-/
open Lib

namespace CheesecakeOS.Shell

variable {E : Type}

/-! ## Output -/

/-- Below the status line and at most `n` rows past the bottom, and no cell
past the bottom has been written. -/
structure Room (n : Nat) (s : Screen) : Prop where
  low : 80 ≤ s.ck_cursor_pos.toNat
  high : s.ck_cursor_pos.toNat ≤ 2000 + 80 * n
  extent : s.extent ≤ 2000

/-- The newlines that a call writes. -/
def VgaOp.newlines : VgaOp → Nat
  | .write_string text _ => text.count 0x0A
  | .write_number _ _ => 0
  | .newline => 1

/-- Every text has at most two newlines. -/
def Terse (ops : List VgaOp) : Prop := ∀ op ∈ ops, op.newlines ≤ 2

namespace Room

variable {n m : Nat} {s : Screen}

theorem mono (h : Room n s) (hnm : n ≤ m) : Room m s :=
  ⟨h.low, by have := h.high; omega, h.extent⟩

theorem newline (h : Room n s) (hn : n < 790) : Room (n + 1) (ck_vga_newline s) := by
  have hlow := h.low
  have hhigh := h.high
  obtain ⟨-, hextent, hcur, -⟩ := newline_spec (s := s) (by omega)
  exact ⟨by rw [hcur]; omega, by rw [hcur]; omega, by rw [hextent]; exact h.extent⟩

/-- A character brings the cursor back on the screen. -/
theorem char (h : Room n s) (c color : U8) : Room 0 (ck_vga_write_char s c color) := by
  have hlow := h.low
  have hextent := h.extent
  by_cases hin : s.ck_cursor_pos.toNat < 2000
  · obtain ⟨-, he, hcur, -⟩ := write_char_inside hin c color
    exact ⟨by rw [hcur]; omega, by rw [hcur]; omega, by rw [he]; omega⟩
  · obtain ⟨-, he, hcur, -⟩ := write_char_scroll (Nat.le_of_not_lt hin) c color
    exact ⟨by rw [hcur]; decide, by rw [hcur]; decide, by omega⟩

theorem string (color : U8) (text : List U8) : ∀ {n : Nat} {s : Screen}, Room n s → n + text.count 0x0A ≤ 790 →
    Room (n + text.count 0x0A) (ck_vga_write_string s text color) := by
  induction text with
  | nil => intro n s h _; exact h
  | cons c text ih =>
    intro n s h hn
    rw [List.count_cons] at hn ⊢
    by_cases hc : c = 0x0A#8
    · rw [if_pos (by simpa using hc)] at hn ⊢
      rw [ck_vga_write_string, List.foldl_cons, if_pos hc]
      exact (ih (h.newline (by omega)) (by omega)).mono (by omega)
    · rw [if_neg (by simpa using hc)] at hn ⊢
      rw [ck_vga_write_string, List.foldl_cons, if_neg hc]
      exact (ih (h.char c color) (by omega)).mono (by omega)

/-- A number has a digit. -/
theorem number (h : Room n s) (num : U32) (color : U8) : Room 0 (ck_vga_write_number s num color) := by
  have hdigits : ∀ (cs : List U8) (s : Screen), Room 0 s →
      Room 0 (cs.foldl (fun s c => ck_vga_write_char s c color) s) := by
    intro cs
    induction cs with
    | nil => intro s h; exact h
    | cons c cs ih => intro s h; exact ih _ (h.char c color)
  unfold ck_vga_write_number
  split
  · exact h.char _ color
  · next hnum =>
    have hne : (digitChars num).reverse ≠ [] := by
      rw [Ne, List.reverse_eq_nil_iff, digitChars, List.map_eq_nil_iff, Nat.digits_eq_nil_iff_eq_zero]
      intro hzero
      exact hnum (BitVec.eq_of_toNat_eq hzero)
    obtain ⟨c, cs, hcs⟩ := List.exists_cons_of_ne_nil hne
    rw [hcs]
    exact hdigits cs _ (h.char c color)

theorem op (h : Room n s) (op : VgaOp) (hn : n + op.newlines ≤ 790) : Room (n + op.newlines) (op.run s) := by
  cases op with
  | write_string text color => exact string color text h hn
  | write_number num color => exact (h.number num color).mono (Nat.zero_le _)
  | newline => exact h.newline (by simp only [VgaOp.newlines] at hn; omega)

theorem ops (ops : List VgaOp) : ∀ {n : Nat} {s : Screen}, Room n s → Terse ops →
    n + 2 * ops.length ≤ 790 → Room (n + 2 * ops.length) (ops.foldl VgaOp.run s) := by
  induction ops with
  | nil => intro n s h _ _; exact h
  | cons op ops ih =>
    intro n s h hops hn
    obtain ⟨hop, hops⟩ := List.forall_mem_cons.1 hops
    rw [List.length_cons] at hn ⊢
    have hnext := (h.op op (by omega)).mono (m := n + 2) (by omega)
    exact (ih hnext hops (by omega)).mono (by omega)

/-- A loop whose body leaves as much room as it finds. -/
theorem loop {α : Type} {f : α → List VgaOp} (l : List α)
    (hf : ∀ a ∈ l, ∀ s, Room n s → Room n ((f a).foldl VgaOp.run s)) :
    ∀ {s : Screen}, Room n s → Room n ((l.flatMap f).foldl VgaOp.run s) := by
  induction l with
  | nil => intro s h; exact h
  | cons a l ih =>
    intro s h
    rw [List.flatMap_cons, List.foldl_append]
    exact ih (fun b hb => hf b (List.mem_cons_of_mem a hb)) (hf a List.mem_cons_self s h)

end Room

/-! ## The texts -/

theorem banner_terse : Terse bannerOps := by
  simp only [Terse, bannerOps, List.forall_mem_cons]
  and_intros <;> first | exact Nat.zero_le 2 | decide +kernel

/-- The texts of the commands are terse, and numbers have no newlines. -/
structure TerseTexts (k : Kernel E) : Prop where
  help : Terse helpOps
  uptime : Terse (uptimeOps k.ticks)
  echoWhat : Terse echoWhatOps
  info : Terse (infoOps k)
  psTitle : Terse psTitleOps
  psTask : ∀ i task, Terse (psTaskOps k i task)
  historyTitle : Terse historyTitleOps
  noHistory : Terse noHistoryOps
  time : Terse (timeOps k.ticks)
  memory : Terse (memoryOps k)
  tasksTitle : Terse (tasksTitleOps k)
  tasksTask : ∀ i task, Terse (tasksTaskOps k i task)
  taskmon : Terse taskmonOps
  clear : Terse clearOps
  unknown : Terse unknownOps
  colon : (text ": " COLOR_WHITE).newlines ≤ 2
  lineEnd : ∀ color, (text "\n" color).newlines ≤ 2

theorem terse_texts (k : Kernel E) : TerseTexts k := by
  have hend : (utf8 "\n").count 0x0A ≤ 2 := by decide +kernel
  constructor
  case psTask =>
    intro i task
    simp only [Terse, psTaskOps, List.forall_mem_cons]
    and_intros <;> first | exact Nat.zero_le 2 | decide +kernel
  case tasksTask =>
    intro i task
    simp only [Terse, tasksTaskOps, List.forall_mem_cons]
    and_intros <;> first | exact Nat.zero_le 2 | decide +kernel
  case colon => decide +kernel
  case lineEnd => exact fun _ => hend
  all_goals
    simp only [Terse, helpOps, uptimeOps, echoWhatOps, infoOps, psTitleOps, historyTitleOps, noHistoryOps, timeOps,
      memoryOps, tasksTitleOps, taskmonOps, clearOps, unknownOps, List.forall_mem_cons]
    and_intros <;> first | exact Nat.zero_le 2 | decide +kernel

/-! ## The status line -/

/-- Only cells of the first row have changed. -/
structure FirstRow (s s' : Screen) : Prop where
  cells : ∀ i, 80 ≤ i → s'.cells i = s.cells i
  extent : s'.extent ≤ max s.extent 80
  cursor : s'.ck_cursor_pos = s.ck_cursor_pos
  crtc : s'.crtc = s.crtc

theorem FirstRow.refl (s : Screen) : FirstRow s s := ⟨fun _ _ => rfl, Nat.le_max_left _ _, rfl, rfl⟩

theorem FirstRow.write {s s' : Screen} (h : FirstRow s s') {i : Nat} (hi : i < 80) (w : U16) :
    FirstRow s (s'.write i w) := by
  refine ⟨fun j hj => ?_, ?_, h.cursor, h.crtc⟩
  · show Function.update s'.cells i w j = _
    rw [Function.update_of_ne (by omega)]
    exact h.cells j hj
  · show max s'.extent (i + 1) ≤ _
    have hextent := h.extent
    omega

theorem FirstRow.loop {s s' : Screen} (h : FirstRow s s') {n : Nat} (hn : n ≤ 80) (w : Nat → U16) :
    FirstRow s (forRange 0 n s' fun s i => s.write i (w i)) :=
  forRange_inv (fun _ u => FirstRow s u) (Nat.zero_le n) h fun i _ _ hi hu => hu.write (by omega) (w i)

theorem seconds_length (n : U32) : (secondsChars n).length ≤ 10 := by
  unfold secondsChars digitChars
  split
  · exact Nat.zero_le 10
  · rw [List.length_reverse, List.length_map, Nat.digits_length_le_iff (by decide)]
    exact Nat.lt_of_lt_of_le n.isLt (by decide)

theorem status_length (ticks : U32) : (statusChars ticks).length ≤ 80 := by
  have hseconds := seconds_length (ticks / 1000)
  have htime : (utf8 "Time: ").length = 6 := by decide +kernel
  have hs : (utf8 "s").length = 1 := by decide +kernel
  simp only [statusChars, List.length_append, List.length_cons, List.length_nil]
  omega

/-- The status line goes to the first row and changes nothing that the line being edited needs. -/
theorem draw_status_spec (m : ShellState) (ticks : U32) : FirstRow m.screen (ck_shell_draw_status m ticks).screen ∧
    (ck_shell_draw_status m ticks).ck_history = m.ck_history ∧
    (ck_shell_draw_status m ticks).input_buffer = m.input_buffer ∧
    (ck_shell_draw_status m ticks).input_len = m.input_len := by
  unfold ck_shell_draw_status
  split
  · exact ⟨.refl m.screen, rfl, rfl, rfl⟩
  · refine ⟨?_, rfl, rfl, rfl⟩
    apply FirstRow.loop _ (status_length ticks)
    unfold ck_vga_clear_line
    simp only [Nat.zero_mul, Nat.zero_add]
    exact (FirstRow.refl m.screen).loop (Nat.le_refl 80) _

theorem Room.status {n : Nat} {m : ShellState} (h : Room n m.screen) (ticks : U32) :
    Room n (ck_shell_draw_status m ticks).screen := by
  obtain ⟨hrow, -⟩ := draw_status_spec m ticks
  have hextent := hrow.extent
  have hbefore := h.extent
  refine ⟨by rw [hrow.cursor]; exact h.low, by rw [hrow.cursor]; exact h.high, by omega⟩

/-! ## Commands -/

theorem write_char_hw (s : Screen) (c color : U8) :
    (ck_vga_write_char s c color).hwCursor = (ck_vga_write_char s c color).ck_cursor_pos := by
  by_cases hin : s.ck_cursor_pos.toNat < 2000
  · exact (write_char_inside hin c color).2.2.2
  · exact (write_char_scroll (Nat.le_of_not_lt hin) c color).2.2.2

/-- The prompt is two characters. -/
theorem prompt_spec {n : Nat} {m : ShellState} (h : Room n m.screen) : Room 0 (m.print promptOps).screen ∧
    (m.print promptOps).screen.hwCursor = (m.print promptOps).screen.ck_cursor_pos := by
  have htext : utf8 "> " = [0x3E, 0x20] := by decide +kernel
  have hrun : (m.print promptOps).screen =
      ck_vga_write_char (ck_vga_write_char m.screen 0x3E COLOR_YELLOW) 0x20 COLOR_YELLOW := by
    rw [ShellState.print, promptOps, text, htext]
    rfl
  rw [hrun]
  exact ⟨(h.char _ _).char _ _, write_char_hw _ _ _⟩

theorem Room.print {n : Nat} {m : ShellState} (h : Room n m.screen) {ops : List VgaOp} (hops : Terse ops)
    (hn : n + 2 * ops.length ≤ 790) : Room (n + 2 * ops.length) (m.print ops).screen :=
  Room.ops ops h hops hn

/-- The shell at its start. -/
theorem restart_spec {m : ShellState} (h : m.screen.extent ≤ 2000) (ticks : U32) :
    Room 0 (restart m ticks).screen ∧ (restart m ticks).screen.hwCursor = (restart m ticks).screen.ck_cursor_pos ∧
    (restart m ticks).ck_history = m.ck_history ∧ (restart m ticks).input_len = m.input_len := by
  obtain ⟨-, hclear, -, -⟩ := clear_screen_spec m.screen
  obtain ⟨hrow, hhistory, -, hlen⟩ := draw_status_spec { m with screen := ck_vga_clear_screen m.screen } ticks
  have hextent : _ ≤ max (ck_vga_clear_screen m.screen).extent 80 := hrow.extent
  unfold restart
  dsimp only
  generalize ck_shell_draw_status { m with screen := ck_vga_clear_screen m.screen } ticks = m₁ at *
  obtain ⟨-, he, hcur, -⟩ := update_hw_cursor_spec (m₁.setCursor (.ofNat 16 (2 * VGA_WIDTH))).screen
  have hpos : (m₁.setCursor (.ofNat 16 (2 * VGA_WIDTH))).screen.ck_cursor_pos = 160#16 := rfl
  have hroom : Room 0 (ck_vga_update_hw_cursor (m₁.setCursor (.ofNat 16 (2 * VGA_WIDTH))).screen) := by
    refine ⟨by rw [hcur, hpos]; decide, by rw [hcur, hpos]; decide, ?_⟩
    rw [he]
    show m₁.screen.extent ≤ 2000
    omega
  generalize ck_vga_update_hw_cursor (m₁.setCursor (.ofNat 16 (2 * VGA_WIDTH))).screen = s at hroom ⊢
  obtain ⟨hprompt, hhw⟩ := prompt_spec (Room.print (m := { m₁ with screen := s }) hroom banner_terse (by decide))
  exact ⟨hprompt, hhw, hhistory, hlen⟩

/-- Two strings without a zero byte compare equal only if they are. -/
theorem strcmp_eq (s : List U8) : ∀ {t : List U8}, (∀ c ∈ s, c ≠ 0#8) → (∀ c ∈ t, c ≠ 0#8) → ck_strcmp s t = 0 →
    s = t := by
  induction s with
  | nil =>
    intro t _ ht h
    cases t with
    | nil => rfl
    | cons b t =>
      have hzero : b.toInt = (0#8).toInt := Int.neg_eq_zero.1 h
      exact absurd (BitVec.toInt_inj.1 hzero) (ht b List.mem_cons_self)
  | cons a s ih =>
    intro t hs ht h
    cases t with
    | nil =>
      have hzero : a.toInt = (0#8).toInt := h
      exact absurd (BitVec.toInt_inj.1 hzero) (hs a List.mem_cons_self)
    | cons b t =>
      unfold ck_strcmp at h
      split at h
      · next hab =>
        rw [hab, ih (fun c hc => hs c (List.mem_cons_of_mem a hc)) (fun c hc => ht c (List.mem_cons_of_mem b hc)) h]
      · next hab => exact absurd (BitVec.toInt_inj.1 (Int.sub_eq_zero.1 h)) hab

section Loops
variable {n : Nat} {s : Screen}

theorem Room.forTasks (k : Kernel E) {ops : Nat → Task E → List VgaOp}
    (hops : ∀ i task s, Room n s → Room n ((ops i task).foldl VgaOp.run s)) (h : Room n s) :
    Room n ((forTasks k ops).foldl VgaOp.run s) := by
  apply Room.loop _ _ h
  intro i _ s hs
  split
  · exact hs
  · exact hops i _ s hs

/-- A line of a table starts with a number, so it has to go back to the screen. -/
theorem Room.line (h : Room n s) (num : U32) (color : U8) {ops : List VgaOp}
    (hops : Terse (.write_number num color :: ops)) (hlen : ops.length ≤ 50) :
    Room 100 ((.write_number num color :: ops).foldl VgaOp.run s) := by
  apply (Room.ops ops (h.number num color) (List.forall_mem_cons.1 hops).2 (by omega)).mono
  omega

variable {k : Kernel E} (htexts : TerseTexts k)
include htexts

theorem Room.ps (h : Room n s) (hn : n ≤ 2) : Room 100 ((psOps k).foldl VgaOp.run s) := by
  unfold psOps
  rw [List.foldl_append]
  apply Room.forTasks k
  · intro i task s hs
    exact hs.line _ _ (htexts.psTask i task) (Nat.le_add_left 3 47)
  · apply (Room.ops _ h htexts.psTitle _).mono
    · show n + 2 * 2 ≤ 100
      omega
    · show n + 2 * 2 ≤ 790
      omega

theorem Room.tasks (h : Room n s) (hn : n ≤ 2) : Room 100 ((tasksOps k).foldl VgaOp.run s) := by
  unfold tasksOps
  rw [List.foldl_append]
  apply Room.forTasks k
  · intro i task s hs
    obtain ⟨hfirst, hrest⟩ := List.forall_mem_cons.1 (htexts.tasksTask i task)
    unfold tasksTaskOps
    rw [List.foldl_cons]
    exact (hs.op _ (by omega)).line _ _ hrest (Nat.le_add_left 5 45)
  · apply (Room.ops _ h htexts.tasksTitle _).mono
    · show n + 2 * 4 ≤ 100
      omega
    · show n + 2 * 4 ≤ 790
      omega

theorem Room.history (h : Room n s) (hn : n ≤ 2) {history : List (List U8)}
    (hlines : ∀ line ∈ history, line.length ≤ 63) : Room 102 ((historyOps history).foldl VgaOp.run s) := by
  have hcolon := htexts.colon
  have hend := htexts.lineEnd COLOR_WHITE
  have hlist : Room 100 ((historyTitleOps ++
      history.zipIdx.flatMap fun entry => historyLineOps entry.1 entry.2).foldl VgaOp.run s) := by
    rw [List.foldl_append]
    apply Room.loop _ _ ((Room.ops historyTitleOps h htexts.historyTitle _).mono _)
    · rintro ⟨line, i⟩ hmem s hs
      have hline : line.count 0x0A ≤ 63 :=
        Nat.le_trans List.count_le_length (hlines line (List.fst_mem_of_mem_zipIdx hmem))
      have hnumber := (hs.number (.ofNat 32 (i + 1)) COLOR_YELLOW).op (text ": " COLOR_WHITE) (by omega)
      have hentry := Room.string COLOR_WHITE line hnumber (by omega)
      exact (hentry.op (text "\n" COLOR_WHITE) (by omega)).mono (by omega)
    · show n + 2 * 1 ≤ 790
      omega
    · show n + 2 * 1 ≤ 100
      omega
  unfold historyOps
  rw [List.foldl_append]
  split
  · exact Room.ops noHistoryOps hlist htexts.noHistory (Nat.le_add_left 102 688)
  · exact hlist.mono (by omega)

theorem Room.echo (h : Room n s) (hn : n ≤ 2) {args : List U8} (hargs : args.length ≤ 127) :
    Room 200 ((echoOps args).foldl VgaOp.run s) := by
  have hend := htexts.lineEnd COLOR_YELLOW
  have hcount : args.count 0x0A ≤ 127 := Nat.le_trans List.count_le_length hargs
  unfold echoOps
  split
  · rw [List.foldl_cons, List.foldl_cons, List.foldl_nil]
    have htext := Room.string COLOR_YELLOW args h (by omega)
    exact (htext.op (text "\n" COLOR_YELLOW) (by omega)).mono (by omega)
  · apply (Room.ops _ h htexts.echoWhat _).mono
    · show n + 2 * 1 ≤ 200
      omega
    · show n + 2 * 1 ≤ 790
      omega

end Loops

/-- The entries of the history fit in their 64 bytes. -/
def HistoryFits (m : ShellState) : Prop := ∀ line ∈ m.ck_history, line.length ≤ 63

theorem history_add_fits {history : List (List U8)} (h : ∀ line ∈ history, line.length ≤ 63) (cmd : List U8) :
    ∀ line ∈ ck_history_add history cmd, line.length ≤ 63 := by
  have hlast : ∀ line ∈ [cmd.take (CK_HISTORY_LINE_SIZE - 1)], line.length ≤ 63 := by
    intro line hline
    rw [List.mem_singleton.1 hline]
    exact List.length_take_le _ _
  intro line hline
  unfold ck_history_add at hline
  dsimp only at hline
  split at hline
  · exact (List.mem_append.1 hline).elim (h line) (hlast line)
  · exact (List.mem_append.1 hline).elim (fun hm => h line (List.mem_of_mem_drop hm)) (hlast line)

theorem Room.taskmon {m : ShellState} (h : Room 1 m.screen) (hfits : HistoryFits m) (t : Turn E) :
    Room 200 (taskmon m t).screen ∧ HistoryFits (taskmon m t) := by
  have htexts := terse_texts t.kernel
  have hprint := (h.print htexts.taskmon (Nat.le_add_left 3 787)).extent
  have hdrawn := (monitor_drawn t.frames m.prev_counters (m.print taskmonOps).screen).extent
  unfold Shell.taskmon
  dsimp only
  generalize hm : m.print taskmonOps = m₁ at hprint hdrawn ⊢
  obtain ⟨hroom, -, hhistory, -⟩ := restart_spec (m := { m₁ with
    screen := (ck_visualizer_run_monitor t.frames m.prev_counters m₁.screen).1
    prev_counters := (ck_visualizer_run_monitor t.frames m.prev_counters m₁.screen).2 }) (by dsimp only; omega)
    t.ticks_after
  have hprev : m₁.prev_counters = m.prev_counters := by rw [← hm]; rfl
  rw [hprev]
  refine ⟨hroom.mono (by decide), ?_⟩
  unfold HistoryFits
  rw [hhistory, ← hm]
  exact hfits

theorem Room.clear {m : ShellState} (h : Room 1 m.screen) (hfits : HistoryFits m) (htexts : Terse clearOps) :
    Room 200 (clear m).screen ∧ HistoryFits (clear m) := by
  obtain ⟨-, hextent, -, -⟩ := clear_screen_spec m.screen
  have hbefore := h.extent
  unfold Shell.clear
  dsimp only
  generalize ck_vga_clear_screen m.screen = s at hextent ⊢
  have hroom : Room 0 ({ m with screen := s }.setCursor (.ofNat 16 VGA_WIDTH)).screen := by
    refine ⟨Nat.le_refl 80, Nat.le_add_right 80 1920, ?_⟩
    show s.extent ≤ 2000
    omega
  exact ⟨(hroom.print htexts (Nat.le_add_left 2 788)).mono (Nat.le_add_left 2 198), hfits⟩

/-- A command has returned, with the cursor within reach of the screen. -/
def Returned (r : Except ShellState ShellState) : Prop := ∃ m, r = .ok m ∧ Room 200 m.screen ∧ HistoryFits m

theorem Returned.ok {n : Nat} {m : ShellState} (h : Room n m.screen) (hfits : HistoryFits m) (hn : n ≤ 200) :
    Returned (.ok m) :=
  ⟨m, rfl, h.mono hn, hfits⟩

theorem Returned.print {m : ShellState} (h : Room 1 m.screen) (hfits : HistoryFits m) {ops : List VgaOp}
    (hops : Terse ops) (hlen : ops.length ≤ 90) : Returned (.ok (m.print ops)) :=
  ok (h.print hops (by omega)) hfits (by omega)

theorem Returned.ite {p : Prop} [Decidable p] {a b : Except ShellState ShellState} (ha : p → Returned a)
    (hb : ¬ p → Returned b) : Returned (if p then a else b) := by
  split
  · exact ha ‹_›
  · exact hb ‹_›

/-- Every command but `reboot` returns. -/
theorem execute_spec {m : ShellState} (h : Room 1 m.screen) (hfits : HistoryFits m) (t : Turn E) {cmd : List U8}
    (hcmd : ∀ c ∈ cmd, c ≠ 0#8) (hname : ck_get_first_word cmd 64 ≠ utf8 "reboot") :
    Returned (ck_shell_execute m t cmd) := by
  have hbytes : ∀ c ∈ ck_get_first_word cmd 64, c ≠ 0#8 := fun c hc =>
    hcmd c (List.takeWhile_subset _ (List.mem_of_mem_take hc))
  have hreboot : ck_strcmp (ck_get_first_word cmd 64) (utf8 "reboot") ≠ 0 := fun hcmp =>
    hname (strcmp_eq _ hbytes (by decide +kernel) hcmp)
  have hadded : ∃ m₁ : ShellState, m₁ = (if ck_strlen cmd > 0 then
      { m with ck_history := ck_history_add m.ck_history cmd } else m) ∧ Room 1 m₁.screen ∧ HistoryFits m₁ := by
    refine ⟨_, rfl, ?_⟩
    split
    · exact ⟨h, history_add_fits hfits cmd⟩
    · exact ⟨h, hfits⟩
  obtain ⟨m₁, hm₁, hroom, hhistory⟩ := hadded
  have hargs : (ck_get_args cmd 128).length ≤ 127 := List.length_take_le _ _
  have htexts := terse_texts t.kernel
  have htaskmon := hroom.taskmon hhistory t
  have hclear := hroom.clear hhistory htexts.clear
  unfold ck_shell_execute
  rw [← hm₁]
  dsimp only
  refine .ite (fun _ => .print hroom hhistory htexts.help (Nat.le_of_ble_eq_true rfl)) fun _ => ?_
  refine .ite (fun _ => .print hroom hhistory htexts.uptime (Nat.le_of_ble_eq_true rfl)) fun _ => ?_
  refine .ite (fun _ => .ok (hroom.echo htexts (by decide) hargs) hhistory (by decide)) fun _ => ?_
  refine .ite (fun _ => .print hroom hhistory htexts.info (Nat.le_of_ble_eq_true rfl)) fun _ => ?_
  refine .ite (fun _ => .ok (hroom.ps htexts (by decide)) hhistory (by decide)) fun _ => ?_
  refine .ite (fun _ => .ok (hroom.history htexts (by decide) hhistory) hhistory (by decide)) fun _ => ?_
  refine .ite (fun _ => .print hroom hhistory htexts.time (Nat.le_of_ble_eq_true rfl)) fun _ => ?_
  refine .ite (fun _ => .print hroom hhistory htexts.memory (Nat.le_of_ble_eq_true rfl)) fun _ => ?_
  refine .ite (fun _ => .ok (hroom.tasks htexts (by decide)) hhistory (by decide)) fun _ => ?_
  refine .ite (fun _ => .ok htaskmon.1 htaskmon.2 (by decide)) fun _ => ?_
  refine .ite (fun _ => .ok hclear.1 hclear.2 (by decide)) fun _ => ?_
  refine .ite (fun hcmp => absurd hcmp hreboot) fun _ => ?_
  refine .ite (fun _ => .ok hroom hhistory (by decide)) fun _ => ?_
  exact .print hroom hhistory htexts.unknown (Nat.le_of_ble_eq_true rfl)

/-! ## Editing -/

/-- What a key does to the line. -/
def edit (l : List U8) (c : U8) : List U8 :=
  if c = 0x0A then []
  else if c = 0x08 then l.dropLast
  else if 32 ≤ c ∧ c < 127 then if l.length < 255 then l ++ [c] else l
  else l

/-- The line after some keys: those since the last Enter, applied in order. -/
def typed (keys : List U8) : List U8 := keys.foldl edit []

/-- The loop's invariant, for the line `l`. -/
structure Editing (l : List U8) (m : ShellState) : Prop where
  len : m.input_len = l.length
  bound : l.length ≤ 255
  bytes : ∀ c ∈ l, c ≠ 0#8
  buffer : m.input_buffer.toList.take l.length = l
  room : Room 0 m.screen
  low : 80 + l.length ≤ m.screen.ck_cursor_pos.toNat
  cells : ∀ i c, l[i]? = some c → m.screen.cells (m.screen.ck_cursor_pos.toNat - l.length + i) = cell COLOR_WHITE c
  hw : m.screen.hwCursor = m.screen.ck_cursor_pos
  history : HistoryFits m

namespace Editing

variable {l : List U8} {m : ShellState}

theorem empty (hlen : m.input_len = 0) (hroom : Room 0 m.screen) (hw : m.screen.hwCursor = m.screen.ck_cursor_pos)
    (hfits : HistoryFits m) : Editing [] m where
  len := hlen
  bound := by decide
  bytes := by simp
  buffer := rfl
  room := hroom
  low := hroom.low
  cells := by simp
  hw := hw
  history := hfits

theorem len_toNat (h : Editing l m) : m.input_len.toNat = l.length := by
  rw [h.len]
  rfl

/-- The buffer with a byte stored behind the line. -/
theorem stored (h : Editing l m) (c : U8) : (m.input_buffer.setIfInBounds m.input_len.toNat c).toList =
    l ++ c :: m.input_buffer.toList.drop (l.length + 1) := by
  have hbound := h.bound
  rw [Vector.toList_setIfInBounds, h.len_toNat, List.set_eq_take_append_cons_drop, if_pos, h.buffer]
  rw [Vector.length_toList]
  omega

/-- What Enter hands over. -/
theorem line (h : Editing l m) : m.line = l := by
  have hall : ∀ c ∈ l, decide (c ≠ 0#8) = true := fun c hc => decide_eq_true (h.bytes c hc)
  unfold ShellState.line cString
  rw [h.stored, List.takeWhile_append_of_pos hall, List.takeWhile_cons_of_neg (by decide), List.append_nil]

theorem status (h : Editing l m) (ticks : U32) : Editing l (ck_shell_draw_status m ticks) := by
  obtain ⟨hrow, hhistory, hbuffer, hlen⟩ := draw_status_spec m ticks
  have hlow := h.low
  refine ⟨hlen.trans h.len, h.bound, h.bytes, by rw [hbuffer]; exact h.buffer, h.room.status ticks,
    by rw [hrow.cursor]; exact hlow, fun i c hc => ?_, ?_, fun line hline => h.history line (hhistory ▸ hline)⟩
  · rw [hrow.cursor, hrow.cells _ (by omega)]
    exact h.cells i c hc
  · rw [hrow.cursor, Screen.hwCursor, hrow.crtc]
    exact h.hw

theorem concat_cases {c a : U8} {i : Nat} (h : (l ++ [c])[i]? = some a) :
    (i < l.length ∧ l[i]? = some a) ∨ (i = l.length ∧ c = a) := by
  have hi : i < l.length + 1 := by simpa using (List.getElem?_eq_some_iff.1 h).1
  rcases Nat.lt_succ_iff_lt_or_eq.1 hi with hlt | rfl
  · rw [List.getElem?_append_left hlt] at h
    exact .inl ⟨hlt, h⟩
  · rw [List.getElem?_concat_length] at h
    exact .inr ⟨rfl, Option.some.inj h⟩

/-- A character after the line, also when the screen scrolls. -/
theorem put_cells (h : Editing l m) (c : U8) :
    let s' := ck_vga_write_char m.screen c COLOR_WHITE
    80 + (l ++ [c]).length ≤ s'.ck_cursor_pos.toNat ∧
      ∀ i a, (l ++ [c])[i]? = some a →
        s'.cells (s'.ck_cursor_pos.toNat - (l ++ [c]).length + i) = cell COLOR_WHITE a := by
  intro s'
  have hlow := h.low
  have hhigh := h.room.high
  have hbound := h.bound
  have hlength : (l ++ [c]).length = l.length + 1 := by simp
  rw [hlength]
  by_cases hin : m.screen.ck_cursor_pos.toNat < 2000
  · obtain ⟨hcells, -, hcur, -⟩ := write_char_inside hin c COLOR_WHITE
    rw [hcur]
    refine ⟨by omega, fun i a hi => ?_⟩
    rw [hcells]
    rcases concat_cases hi with ⟨hilt, hi⟩ | ⟨rfl, rfl⟩
    · rw [Function.update_of_ne (by omega), ← h.cells i a hi]
      congr 1
      omega
    · rw [show m.screen.ck_cursor_pos.toNat + 1 - (l.length + 1) + l.length = m.screen.ck_cursor_pos.toNat by omega,
        Function.update_self]
  · obtain ⟨hcells, -, hcur, -⟩ := write_char_scroll (Nat.le_of_not_lt hin) c COLOR_WHITE
    rw [hcur]
    refine ⟨by omega, fun i a hi => ?_⟩
    rw [hcells]
    rcases concat_cases hi with ⟨hilt, hi⟩ | ⟨rfl, rfl⟩
    · rw [Function.update_of_ne (by omega), (scroll_spec m.screen).1 _ (by omega), ← h.cells i a hi]
      congr 1
      omega
    · rw [show 1921 - (l.length + 1) + l.length = 1920 by omega, Function.update_self]

theorem insert (h : Editing l m) {c : U8} (hc : c ≠ 0#8) :
    Editing (if l.length < 255 then l ++ [c] else l) (insert m c) := by
  have hlen := h.len
  unfold Shell.insert
  by_cases hfull : l.length < 255
  · rw [if_pos hfull, if_pos (by omega)]
    obtain ⟨hlow, hcells⟩ := h.put_cells c
    refine ⟨?_, ?_, ?_, ?_, h.room.char c COLOR_WHITE, hlow, hcells, write_char_hw _ _ _, h.history⟩
    · rw [List.length_append, hlen]
      rfl
    · rw [List.length_append]
      exact hfull
    · intro a ha
      rcases List.mem_append.1 ha with ha | ha
      · exact h.bytes a ha
      · rw [List.mem_singleton.1 ha]
        exact hc
    · dsimp only
      rw [h.stored, List.append_cons l c (m.input_buffer.toList.drop _)]
      exact List.take_left
  · rw [if_neg hfull, if_neg (by omega)]
    exact h

theorem erase (h : Editing l m) : Editing l.dropLast (erase m) := by
  have hlen := h.len
  have hbound := h.bound
  have hlow := h.low
  have hhigh := h.room.high
  have hextent := h.room.extent
  unfold Shell.erase
  by_cases hl : l.length = 0
  · rw [if_neg (by omega)]
    obtain rfl := List.eq_nil_of_length_eq_zero hl
    exact h
  · rw [if_pos (by omega)]
    dsimp only
    have hpos : (m.screen.ck_cursor_pos - 1).toNat = m.screen.ck_cursor_pos.toNat - 1 := by
      rw [BitVec.toNat_sub_of_le (by rw [BitVec.le_def]; show 1 ≤ _; omega)]
      rfl
    obtain ⟨hcells, he, hcur, hhw⟩ := update_hw_cursor_spec
      ({ m.screen with ck_cursor_pos := m.screen.ck_cursor_pos - 1 }.write (m.screen.ck_cursor_pos - 1).toNat blank)
    generalize ck_vga_update_hw_cursor _ = s at hcells he hcur hhw ⊢
    replace hcells : s.cells = Function.update m.screen.cells (m.screen.ck_cursor_pos.toNat - 1) blank := by
      rw [hcells, hpos]
      rfl
    replace he : s.extent = max m.screen.extent (m.screen.ck_cursor_pos.toNat - 1 + 1) := by
      rw [he, hpos]
      rfl
    replace hcur : s.ck_cursor_pos = m.screen.ck_cursor_pos - 1 := hcur
    refine ⟨?_, ?_, fun c hc => h.bytes c (List.mem_of_mem_dropLast hc), ?_, ⟨?_, ?_, ?_⟩, ?_, fun i c hc => ?_,
      hhw.trans hcur.symm, h.history⟩
    · dsimp only
      rw [List.length_dropLast]
      omega
    · rw [List.length_dropLast]
      omega
    · dsimp only
      rw [List.length_dropLast, List.dropLast_eq_take, ← h.buffer, List.take_take, List.length_take]
      congr 1
      rw [Vector.length_toList]
      omega
    · dsimp only
      rw [hcur, hpos]
      omega
    · dsimp only
      rw [hcur, hpos]
      omega
    · dsimp only
      rw [he]
      omega
    · dsimp only
      rw [hcur, hpos, List.length_dropLast]
      omega
    · dsimp only
      have hi := (List.getElem?_eq_some_iff.1 hc).1
      rw [List.length_dropLast] at hi ⊢
      rw [List.getElem?_dropLast, if_pos hi] at hc
      rw [hcells, hcur, hpos, Function.update_of_ne (by omega), ← h.cells i c hc]
      congr 1
      omega

theorem enter (h : Editing l m) (t : Turn E) (hname : ck_get_first_word l 64 ≠ utf8 "reboot") :
    ∃ m', enter m t = .ok m' ∧ Editing [] m' := by
  have hline := h.line
  unfold Shell.enter
  dsimp only
  rw [hline]
  obtain ⟨m₁, hm₁, hroom, hfits⟩ := execute_spec (m := { m with
    input_buffer := m.input_buffer.setIfInBounds m.input_len.toNat 0
    screen := ck_vga_newline m.screen }) (h.room.newline (by decide)) h.history t h.bytes hname
  obtain ⟨hprompt, hhw⟩ := prompt_spec (m := { m₁ with input_len := 0 }) hroom
  rw [hm₁]
  exact ⟨_, rfl, empty rfl hprompt hhw hfits⟩

/-- A turn of the loop does to the line what its key does. -/
theorem turn (h : Editing l m) (t : Turn E) (hname : t.c = 0x0A → ck_get_first_word l 64 ≠ utf8 "reboot") :
    ∃ m', turn m t = .ok m' ∧ Editing (edit l t.c) m' := by
  have hstatus := h.status t.ticks
  unfold Shell.turn edit
  dsimp only
  by_cases hzero : t.c = 0
  · rw [if_pos hzero, hzero]
    exact ⟨_, rfl, hstatus⟩
  · rw [if_neg hzero]
    by_cases henter : t.c = 0x0A
    · rw [if_pos henter, if_pos henter]
      exact hstatus.enter t (hname henter)
    · rw [if_neg henter, if_neg henter]
      by_cases hback : t.c = 0x08
      · rw [if_pos hback, if_pos hback]
        exact ⟨_, rfl, hstatus.erase⟩
      · rw [if_neg hback, if_neg hback]
        by_cases hprint : 32 ≤ t.c ∧ t.c < 127
        · rw [if_pos hprint, if_pos hprint]
          exact ⟨_, rfl, hstatus.insert hzero⟩
        · rw [if_neg hprint, if_neg hprint]
          exact ⟨_, rfl, hstatus⟩

end Editing

/-! ## Runs -/

/-- Enter never finds a line whose first word is `reboot`. -/
def NoReboot (keys : List U8) : Prop :=
  ∀ pre, pre ++ [0x0A] <+: keys → ck_get_first_word (typed pre) 64 ≠ utf8 "reboot"

theorem run_editing (screen : Screen) (buffer : Vector U8 256) (ticks : U32) (turns : List (Turn E)) :
    NoReboot (turns.map Turn.c) → ∃ m, ck_shell_run screen buffer ticks turns = .ok m ∧
      Editing (typed (turns.map Turn.c)) m := by
  induction turns using List.reverseRecOn with
  | nil =>
    intro _
    obtain ⟨hroom, hhw, hhistory, hlen⟩ := restart_spec (m := .boot screen buffer) (Nat.zero_le _) ticks
    refine ⟨_, rfl, .empty hlen hroom hhw ?_⟩
    unfold HistoryFits
    rw [hhistory]
    simp [ShellState.boot]
  | append_singleton turns t ih =>
    intro hno
    rw [List.map_append, List.map_singleton] at hno ⊢
    obtain ⟨m, hm, hediting⟩ := ih fun pre hpre => hno pre (hpre.trans (List.prefix_append _ _))
    obtain ⟨m', hm', hnext⟩ := hediting.turn t fun henter => hno _ (by rw [henter])
    refine ⟨m', ?_, ?_⟩
    · unfold ck_shell_run at hm ⊢
      rw [List.foldlM_append, hm]
      show (List.foldlM turn m [t]) = _
      rw [List.foldlM_cons, hm']
      rfl
    · unfold typed
      rw [List.foldl_append]
      exact hnext

/-- The screen shows the line being edited: the cells before the cursor are the
input buffer in white, below the status line, the adapter shows the cursor
there, and no cell past the bottom has been written. -/
structure LineShown (m : ShellState) : Prop where
  len : 0 ≤ m.input_len ∧ m.input_len ≤ 255
  below : 80 ≤ (m.screen.ck_cursor_pos.toNat : Int) - m.input_len
  onScreen : m.screen.ck_cursor_pos.toNat ≤ 2000
  cells : ∀ (i : Nat) (hi : i < 256), i < m.input_len →
    m.screen.cells (m.screen.ck_cursor_pos.toNat - m.input_len.toNat + i) = cell COLOR_WHITE m.input_buffer[i]
  hw : m.screen.hwCursor = m.screen.ck_cursor_pos
  extent : m.screen.extent ≤ 2000

theorem Editing.shown {l : List U8} {m : ShellState} (h : Editing l m) : LineShown m := by
  have hlen := h.len
  have hbound := h.bound
  have hlow := h.low
  refine ⟨by omega, by omega, h.room.high, fun i hi hlt => ?_, h.hw, h.room.extent⟩
  have hil : i < l.length := by omega
  have hget : l[i]? = some m.input_buffer[i] := by
    rw [← h.buffer, List.getElem?_take_of_lt hil, List.getElem?_eq_getElem (by rw [Vector.length_toList]; exact hi),
      Vector.getElem_toList]
  rw [h.len_toNat]
  exact h.cells i _ hget

/-- For every sequence of turns in which `reboot` is not entered, whatever they
read and whatever commands are entered, the loop comes back to its head, the
screen there shows the line being edited, and if the next character is Enter,
`ck_shell_execute` gets the line as typed. -/
theorem line_shown (screen : Screen) (buffer : Vector U8 256) (ticks : U32) (turns : List (Turn E))
    (hno : NoReboot (turns.map Turn.c)) :
    ∃ m, ck_shell_run screen buffer ticks turns = .ok m ∧ LineShown m ∧
      ∀ ticks', (ck_shell_draw_status m ticks').line = typed (turns.map Turn.c) := by
  obtain ⟨m, hm, hediting⟩ := run_editing screen buffer ticks turns hno
  exact ⟨m, hm, hediting.shown, fun ticks' => (hediting.status ticks').line⟩

/-- A key pressed while the kernel has no tasks. -/
def idleTurn (c : U8) : Turn Unit where
  ticks := 0
  c := c
  kernel :=
    { scheduler := ⟨.replicate 8 (.zero Unit), 0, 0, 0, ⟨none, 0⟩, ⟨fun _ => 0, 0, 0, 0, 0, .zero⟩, fun _ => .zero Unit, []⟩
      ck_task_counter := .replicate 8 0
      ck_game := ⟨0, 0, 0⟩
      ticks := 0 }
  frames := []
  ticks_after := 0

theorem line_shown_command : NoReboot [0x70, 0x73, 0x0A, 0x61] ∧
    ∃ m, ck_shell_run ⟨fun _ => 0, 0, 0, fun _ => 0, 0⟩ (.replicate 256 0) 0
        ([0x70, 0x73, 0x0A, 0x61].map idleTurn) = .ok m ∧
      LineShown m ∧ ∀ ticks', (ck_shell_draw_status m ticks').line = [0x61] := by
  have hno : NoReboot [0x70, 0x73, 0x0A, 0x61] := by
    have hprefixes : ∀ keys ∈ List.inits [0x70, 0x73, 0x0A, 0x61], keys.getLast? = some 0x0A →
        ck_get_first_word (typed keys.dropLast) 64 ≠ utf8 "reboot" := by
      decide +kernel
    intro pre hpre
    have hpre' := hprefixes _ ((List.mem_inits _ _).2 hpre) List.getLast?_concat
    rwa [List.dropLast_concat] at hpre'
  exact ⟨hno, line_shown _ _ 0 _ hno⟩

end CheesecakeOS.Shell
