import CheesecakeOS.Kernel.Numbers
/-!
# From a line to a command

`ck_shell_execute` copies the first word of the line into a buffer of 64 bytes,
cut off at 63 characters, and compares what it has there with the names of the
commands, one after the other. The copy and the comparison are given here byte
by byte; `dispatch_exact` says which branch is taken.
-/
open Lib

namespace CheesecakeOS.Shell

variable {E : Type}

/-- The commands, in the order of the tests. -/
inductive Command where
  | help
  | uptime
  | echo
  | info
  | ps
  | history
  | time
  | memory
  | tasks
  | taskmon
  | clear
  | reboot
deriving DecidableEq

namespace Command

def name : Command → List U8
  | .help => utf8 "help"
  | .uptime => utf8 "uptime"
  | .echo => utf8 "echo"
  | .info => utf8 "info"
  | .ps => utf8 "ps"
  | .history => utf8 "history"
  | .time => utf8 "time"
  | .memory => utf8 "memory"
  | .tasks => utf8 "tasks"
  | .taskmon => utf8 "taskmon"
  | .clear => utf8 "clear"
  | .reboot => utf8 "reboot"

/-- The body of the branch. -/
def run (m : ShellState) (t : Turn E) (cmd_args : List U8) : Command → Except ShellState ShellState
  | .help => .ok (m.print helpOps)
  | .uptime => .ok (m.print (uptimeOps t.kernel.ticks))
  | .echo => .ok (m.print (echoOps cmd_args))
  | .info => .ok (m.print (infoOps t.kernel))
  | .ps => .ok (m.print (psOps t.kernel))
  | .history => .ok (m.print (historyOps m.ck_history))
  | .time => .ok (m.print (timeOps t.kernel.ticks))
  | .memory => .ok (m.print (memoryOps t.kernel))
  | .tasks => .ok (m.print (tasksOps t.kernel))
  | .taskmon => .ok (Shell.taskmon m t)
  | .clear => .ok (Shell.clear m)
  | .reboot => .error (m.print rebootOps)

end Command

/-- The branches of `ck_shell_execute`. -/
inductive Branch where
  | command (c : Command)
  | empty
  | unknown
deriving DecidableEq

def Branch.run (m : ShellState) (t : Turn E) (cmd_args : List U8) : Branch → Except ShellState ShellState
  | .command c => c.run m t cmd_args
  | .empty => .ok m
  | .unknown => .ok (m.print unknownOps)

/-- The chain of tests, given the comparison with each name and the length of the word. -/
def branchOf (cmp : Command → Int) (len : Nat) : Branch :=
  if cmp .help = 0 then .command .help
  else if cmp .uptime = 0 then .command .uptime
  else if cmp .echo = 0 then .command .echo
  else if cmp .info = 0 then .command .info
  else if cmp .ps = 0 then .command .ps
  else if cmp .history = 0 then .command .history
  else if cmp .time = 0 then .command .time
  else if cmp .memory = 0 then .command .memory
  else if cmp .tasks = 0 then .command .tasks
  else if cmp .taskmon = 0 then .command .taskmon
  else if cmp .clear = 0 then .command .clear
  else if cmp .reboot = 0 then .command .reboot
  else if len = 0 then .empty
  else .unknown

namespace Scratch

def ck_strcmp (a b : List U8) (i : Nat) : Int :=
  if charAt a i ≠ 0#8 ∧ charAt b i ≠ 0#8 ∧ charAt a i = charAt b i then ck_strcmp a b (i + 1)
  else (charAt a i).toInt - (charAt b i).toInt
termination_by a.length - i
decreasing_by
  rename_i h
  have hlt : i < a.length := Nat.lt_of_not_le fun hle => h.1 (by rw [charAt, List.getElem?_eq_none hle]; rfl)
  omega

/-- `ck_get_first_word` from index `i` on. -/
def ck_get_first_word (s : List U8) (word : Vector U8 64) (max_len i : Nat) : Option (Vector U8 64) :=
  if i < max_len - 1 ∧ charAt s i ≠ 0#8 ∧ charAt s i ≠ 0x20#8 then do
    let word ← store word i (charAt s i)
    ck_get_first_word s word max_len (i + 1)
  else store word i 0#8
termination_by max_len - 1 - i

/-- The branch that is taken for what stands in `cmd_name`. -/
def branch (cmd_name : Vector U8 64) : Branch :=
  branchOf (fun c => ck_strcmp cmd_name.toList c.name 0) (ck_strlen (cString cmd_name.toList))

end Scratch

/-! ## Strings -/

theorem strcmp_refl (s : List U8) : ck_strcmp s s = 0 := by
  induction s with
  | nil => rfl
  | cons c s ih => rw [ck_strcmp, if_pos rfl, ih]

theorem strcmp_eq_zero_iff {s t : List U8} (hs : ∀ c ∈ s, c ≠ 0#8) (ht : ∀ c ∈ t, c ≠ 0#8) :
    ck_strcmp s t = 0 ↔ s = t :=
  ⟨strcmp_eq s hs ht, fun h => h ▸ strcmp_refl s⟩

/-- All of them. -/
def Command.all : List Command :=
  [.help, .uptime, .echo, .info, .ps, .history, .time, .memory, .tasks, .taskmon, .clear, .reboot]

theorem Command.mem_all (c : Command) : c ∈ all := by
  cases c <;> decide

theorem name_injective : Function.Injective Command.name := by
  have hall : (Command.all.map Command.name).Nodup := by decide +kernel
  exact fun c c' h => List.inj_on_of_nodup_map hall c.mem_all c'.mem_all h

/-- The names are no longer than the buffer, and the words they are compared with are cut off later. -/
theorem name_spec (c : Command) : c.name ≠ [] ∧ c.name.length < 63 ∧ ∀ a ∈ c.name, a ≠ 0#8 := by
  have hall : ∀ c ∈ Command.all, c.name ≠ [] ∧ c.name.length < 63 ∧ 0#8 ∉ c.name := by decide +kernel
  obtain ⟨hne, hlen, h0⟩ := hall c c.mem_all
  exact ⟨hne, hlen, fun a ha hz => h0 (hz ▸ ha)⟩

/-- What is left of a string at an index that is not behind its end. -/
theorem drop_cString {s : List U8} {i : Nat} (hi : i ≤ (cString s).length) :
    (charAt s i = 0#8 ∧ (cString s).drop i = []) ∨
    (charAt s i ≠ 0#8 ∧ i < (cString s).length ∧ (cString s).drop i = charAt s i :: (cString s).drop (i + 1)) := by
  by_cases hlt : i < (cString s).length
  · obtain ⟨hget, hne⟩ := getElem?_cString hlt
    refine .inr ⟨hne, hlt, ?_⟩
    rw [List.drop_eq_getElem_cons hlt, (List.getElem?_eq_some_iff.1 hget).2]
  · obtain rfl : i = (cString s).length := by omega
    exact .inl ⟨charAt_length s, List.drop_length⟩

/-- The comparison of two strings in memory. -/
theorem strcmp_bytes {a b : List U8} {i : Nat} (ha : i ≤ (cString a).length) (hb : i ≤ (cString b).length) :
    Scratch.ck_strcmp a b i = ck_strcmp ((cString a).drop i) ((cString b).drop i) := by
  fun_induction Scratch.ck_strcmp a b i with
  | case1 i h ih =>
    obtain ⟨ha0, hb0, heq⟩ := h
    obtain ⟨h0, -⟩ | ⟨-, hla, hda⟩ := drop_cString ha
    · exact absurd h0 ha0
    obtain ⟨h0, -⟩ | ⟨-, hlb, hdb⟩ := drop_cString hb
    · exact absurd h0 hb0
    rw [ih hla hlb, hda, hdb, heq, ck_strcmp, if_pos rfl]
  | case2 i h =>
    obtain ⟨ha0, hda⟩ | ⟨ha0, -, hda⟩ := drop_cString ha <;> obtain ⟨hb0, hdb⟩ | ⟨hb0, -, hdb⟩ := drop_cString hb
    · rw [hda, hdb, ha0, hb0]
      rfl
    · rw [hda, hdb, ha0, ck_strcmp]
      simp
    · rw [hda, hdb, hb0, ck_strcmp]
      simp
    · rw [hda, hdb, ck_strcmp, if_neg fun heq => h ⟨ha0, hb0, heq⟩]

/-- Up to the first space. -/
def firstWord (bytes : List U8) : List U8 := (cString bytes).takeWhile (· ≠ 0x20#8)

theorem firstWord_eq (bytes : List U8) : firstWord bytes = bytes.takeWhile fun c => decide (c ≠ 0#8 ∧ c ≠ 0x20#8) := by
  rw [firstWord, cString, List.takeWhile_takeWhile]
  congr 1
  funext c
  simp [and_comm]

theorem firstWord_ne_zero {bytes : List U8} {c : U8} (hc : c ∈ firstWord bytes) : c ≠ 0#8 :=
  cString_ne_zero ((List.takeWhile_sublist _).mem hc)

/-- The copy from where it has `i` characters: it does not leave its buffer and
ends as a string, the first word cut off at 63 characters. -/
theorem get_first_word_spec {bytes : List U8} {word : Vector U8 64} {i : Nat} (hi : i ≤ 63)
    (hlen : i ≤ (firstWord bytes).length) (hcopied : (firstWord bytes).take i <+: word.toList) :
    ∃ word', Scratch.ck_get_first_word bytes word 64 i = some word' ∧
      cString word'.toList = (firstWord bytes).take 63 := by
  have hwhole := firstWord_eq bytes
  have htake : ((firstWord bytes).take i).length = i := by rw [List.length_take, Nat.min_eq_left hlen]
  fun_induction Scratch.ck_get_first_word bytes word 64 i with
  | case1 word i hgo ih =>
    obtain ⟨hlt, hc⟩ := hgo
    have hmore : i < (firstWord bytes).length := Nat.lt_of_le_of_ne hlen fun heq => by
      have hstop := charAt_takeWhile (p := fun c => decide (c ≠ 0#8 ∧ c ≠ 0x20#8)) (s := bytes) (by decide)
      rw [← hwhole, ← heq] at hstop
      exact of_decide_eq_false hstop hc
    have hnext : (firstWord bytes).take i ++ [charAt bytes i] = (firstWord bytes).take (i + 1) := by
      rw [List.take_add_one, hwhole] at *
      rw [(getElem?_takeWhile hmore).1]
      rfl
    obtain ⟨word₁, hstore, hword₁⟩ := store_spec hcopied (by omega) (charAt bytes i)
    rw [htake] at hstore
    rw [hnext] at hword₁
    rw [hstore]
    exact ih word₁ (by omega) hmore hword₁ (by rw [List.length_take, Nat.min_eq_left hmore])
  | case2 word i hstop =>
    have hcut : (firstWord bytes).take i = (firstWord bytes).take 63 := by
      by_cases hlt : i < 63
      · have hend : ¬ i < (firstWord bytes).length := fun hmore => by
          rw [hwhole] at hmore
          exact hstop ⟨hlt, of_decide_eq_true (getElem?_takeWhile hmore).2⟩
        rw [List.take_of_length_le (by omega), List.take_of_length_le (by omega)]
      · rw [show i = 63 by omega]
    obtain ⟨word', hstore, hstring⟩ := cString_store hcopied (by omega) fun c hc =>
      firstWord_ne_zero (List.mem_of_mem_take hc)
    rw [htake] at hstore
    exact ⟨word', hstore, hstring.trans hcut⟩

/-- The state with the command in the history. -/
def tracked (m : ShellState) (cmd : List U8) : ShellState :=
  if ck_strlen cmd > 0 then { m with ck_history := ck_history_add m.ck_history cmd } else m

theorem execute_branch (m : ShellState) (t : Turn E) (cmd : List U8) : ck_shell_execute m t cmd =
    (branchOf (fun c => ck_strcmp (ck_get_first_word cmd 64) c.name) (ck_strlen (ck_get_first_word cmd 64))).run
      (tracked m cmd) t (ck_get_args cmd 128) := by
  unfold branchOf
  simp only [apply_ite (Branch.run (tracked m cmd) t (ck_get_args cmd 128))]
  rfl

/-! ## The chain of tests -/

section Chain
variable {cmp : Command → Int} {len : Nat}

theorem branchOf_command {c : Command} (hc : cmp c = 0) (hother : ∀ c', c' ≠ c → cmp c' ≠ 0) :
    branchOf cmp len = .command c := by
  cases c <;> simp [branchOf, hc, hother]

theorem branchOf_none (hnone : ∀ c, cmp c ≠ 0) : branchOf cmp len = if len = 0 then .empty else .unknown := by
  simp [branchOf, hnone]

/-- If the comparisons tell exactly whether the word is the name, the chain
takes the branch of the word. -/
theorem branchOf_spec {w : List U8} (hcmp : ∀ c, cmp c = 0 ↔ w = c.name) :
    (∀ c, branchOf cmp w.length = .command c ↔ w = c.name) ∧ (branchOf cmp w.length = .empty ↔ w = []) ∧
      (branchOf cmp w.length = .unknown ↔ w ≠ [] ∧ ∀ c : Command, w ≠ c.name) := by
  by_cases hname : ∃ c : Command, w = c.name
  · obtain ⟨c, hc⟩ := hname
    have hbranch : branchOf cmp w.length = .command c := branchOf_command ((hcmp c).2 hc) fun c' hne h0 =>
      hne (name_injective (((hcmp c').1 h0).symm.trans hc))
    rw [hbranch, hc]
    refine ⟨fun c' => ?_, ?_, ?_⟩
    · rw [name_injective.eq_iff, Branch.command.injEq]
    · simp [(name_spec c).1]
    · simp
  · have hnone : ∀ c : Command, w ≠ c.name := fun c hc => hname ⟨c, hc⟩
    rw [branchOf_none fun c h0 => hnone c ((hcmp c).1 h0)]
    by_cases hw : w = []
    · rw [if_pos (List.length_eq_zero_iff.2 hw)]
      simp [hw, (name_spec _).1.symm]
    · rw [if_neg (mt List.length_eq_zero_iff.1 hw)]
      simp [hw, hnone]

end Chain

/-- A word that is cut off is longer than any name. -/
theorem take_eq_name_iff (w : List U8) (c : Command) : w.take 63 = c.name ↔ w = c.name := by
  obtain ⟨-, hlen, -⟩ := name_spec c
  constructor
  · intro h
    have hshort : w.length ≤ 63 := by
      have htake := congrArg List.length h
      rw [List.length_take] at htake
      omega
    rwa [List.take_of_length_le hshort] at h
  · intro h
    rw [h, List.take_of_length_le (by omega)]

/-- A line whose first word is the name of a command. -/
theorem execute_command (m : ShellState) (t : Turn E) {bytes : List U8} {c : Command} (h : firstWord bytes = c.name) :
    ck_shell_execute m t (cString bytes) = c.run (tracked m (cString bytes)) t (ck_get_args (cString bytes) 128) := by
  have hname : ck_get_first_word (cString bytes) 64 = c.name := (take_eq_name_iff _ c).2 h
  rw [execute_branch, hname, branchOf_command (strcmp_refl c.name) fun c' hne h0 => ?_]
  · rfl
  · exact hne (name_injective ((strcmp_eq_zero_iff (name_spec c).2.2 (name_spec c').2.2).1 h0).symm)

/-- For all lines, of any length, and whatever stood in the buffer: the first
word is copied without leaving the buffer, and the branch taken is the one of
the command that the whole first word names, the empty one if there is no word,
and the one for unknown commands otherwise. -/
theorem dispatch_exact (m : ShellState) (t : Turn E) (bytes : List U8) (cmd_name : Vector U8 64) :
    ∃ word, Scratch.ck_get_first_word bytes cmd_name 64 0 = some word ∧
      ck_shell_execute m t (cString bytes) =
        (Scratch.branch word).run (tracked m (cString bytes)) t (ck_get_args (cString bytes) 128) ∧
      (∀ c, Scratch.branch word = .command c ↔ firstWord bytes = c.name) ∧
      (Scratch.branch word = .empty ↔ firstWord bytes = []) ∧
      (Scratch.branch word = .unknown ↔ firstWord bytes ≠ [] ∧ ∀ c : Command, firstWord bytes ≠ c.name) := by
  obtain ⟨word, hword, hstring⟩ := get_first_word_spec (Nat.zero_le 63) (Nat.zero_le (firstWord bytes).length)
    (show _ <+: cmd_name.toList from List.nil_prefix)
  have hcmp : ∀ c : Command, Scratch.ck_strcmp word.toList c.name 0 = ck_strcmp ((firstWord bytes).take 63) c.name := by
    intro c
    have hname : cString c.name = c.name := List.takeWhile_eq_self_iff.2 fun a ha =>
      decide_eq_true ((name_spec c).2.2 a ha)
    rw [strcmp_bytes (Nat.zero_le _) (Nat.zero_le _), hstring, hname, List.drop_zero, List.drop_zero]
  have hbranch : Scratch.branch word =
      branchOf (fun c => ck_strcmp ((firstWord bytes).take 63) c.name) ((firstWord bytes).take 63).length := by
    unfold Scratch.branch
    rw [funext hcmp, hstring, ck_strlen]
  have hzero : ∀ c : Command, ck_strcmp ((firstWord bytes).take 63) c.name = 0 ↔ (firstWord bytes).take 63 = c.name :=
    fun c => strcmp_eq_zero_iff (fun a ha => firstWord_ne_zero (List.mem_of_mem_take ha)) (name_spec c).2.2
  have hempty : (firstWord bytes).take 63 = [] ↔ firstWord bytes = [] := by simp
  obtain ⟨hcommand, hnone, hunknown⟩ := branchOf_spec hzero
  rw [hempty] at hnone
  simp only [take_eq_name_iff, ne_eq, hempty] at hcommand hunknown
  refine ⟨word, hword, ?_, ?_, ?_, ?_⟩
  · rw [hbranch]
    exact execute_branch m t (cString bytes)
  · rw [hbranch]
    exact hcommand
  · rw [hbranch]
    exact hnone
  · rw [hbranch]
    exact hunknown

end CheesecakeOS.Shell
