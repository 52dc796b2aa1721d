import CheesecakeOS.Kernel.Visualizer
/-!
# The shell

`kernel/shell.c` without the output functions, which `Vga` has. A turn of the
shell's loop gets from outside what it reads: the tick count, the character
from the keyboard, and what a command finds in the kernel. A C string is the
list of its bytes. A command that stops the machine answers
`error` with the state it leaves.
-/
open Lib

namespace CheesecakeOS.Shell

abbrev CK_HISTORY_SIZE : Nat := 10
abbrev CK_HISTORY_LINE_SIZE : Nat := 64

/-- The statics of `shell.c` and of the monitor, and the locals of `ck_shell_run`. -/
structure ShellState where
  screen : Screen
  /-- The entries in use. -/
  ck_history : List (List U8)
  last_ticks : U32
  prev_counters : Nat → U32
  input_buffer : Vector U8 256
  input_len : Int

/-- What one turn of the loop reads. -/
structure Turn (E : Type) where
  ticks : U32
  c : U8
  kernel : Kernel E
  /-- The kernel at each frame of the monitor. -/
  frames : List (Kernel E)
  /-- The tick count after the monitor. -/
  ticks_after : U32

variable {E : Type}

/-! ## Strings -/

/-- The bytes before the first zero. -/
def cString (bytes : List U8) : List U8 := bytes.takeWhile (· ≠ 0#8)

def ck_strlen (s : List U8) : Nat := s.length

def ck_strcmp : List U8 → List U8 → Int
  | [], [] => 0
  | a :: _, [] => a.toInt
  | [], b :: _ => -b.toInt
  | a :: s, b :: t => if a = b then ck_strcmp s t else a.toInt - b.toInt

def ck_get_first_word (s : List U8) (max_len : Nat) : List U8 := (s.takeWhile (· ≠ 0x20#8)).take (max_len - 1)

def ck_get_args (s : List U8) (max_len : Nat) : List U8 :=
  ((s.dropWhile (· ≠ 0x20#8)).dropWhile (· = 0x20#8)).take (max_len - 1)

def ck_history_add (history : List (List U8)) (cmd : List U8) : List (List U8) :=
  let line := cmd.take (CK_HISTORY_LINE_SIZE - 1)
  if history.length < CK_HISTORY_SIZE then history ++ [line] else history.drop 1 ++ [line]

/-! ## The status line -/

/-- No digit for less than a second: the loop that copies the digits is in the other branch. -/
def secondsChars (seconds : U32) : List U8 := if seconds = 0#32 then [] else (digitChars seconds).reverse

def statusChars (ticks : U32) : List U8 :=
  let ms := ticks % 1000
  let digit (n : U32) : U8 := 0x30#8 + (n % 10).setWidth 8
  utf8 "Time: " ++ secondsChars (ticks / 1000) ++ [0x2E] ++ [digit (ms / 100), digit (ms / 10), digit ms] ++ utf8 "s"

/-- `last_ticks` is a static. -/
def ck_shell_draw_status (m : ShellState) (ticks : U32) : ShellState :=
  if ticks = m.last_ticks then m
  else
    let text := statusChars ticks
    let s := ck_vga_clear_line m.screen 0
    let s := forRange 0 text.length s fun s pos => s.write pos (cell COLOR_YELLOW (text[pos]?.getD 0))
    { m with screen := s, last_ticks := ticks }

/-! ## The commands -/

/-- `ck_vga_write_string` on a literal. -/
def text (s : String) (color : U8) : VgaOp := .write_string (utf8 s) color

def ShellState.print (m : ShellState) (ops : List VgaOp) : ShellState := { m with screen := ops.foldl VgaOp.run m.screen }

/-- `ck_cursor_pos = pos;` -/
def ShellState.setCursor (m : ShellState) (pos : U16) : ShellState := { m with screen := { m.screen with ck_cursor_pos := pos } }

def bannerOps : List VgaOp :=
  [text "\n" COLOR_GREEN,
   text "  +====================================+\n" COLOR_GREEN,
   text "  | CheesecakeOS - Multitasking v1.0 |\n" COLOR_GREEN,
   text "  |    Ready to serve! (May 2026)    |\n" COLOR_GREEN,
   text "  +====================================+\n" COLOR_GREEN,
   text "\n" COLOR_WHITE,
   text "Type 'help' for commands | Try 'taskmon' for live demo\n" COLOR_YELLOW,
   text "\n" COLOR_WHITE]

def promptOps : List VgaOp := [text "> " COLOR_YELLOW]

def helpOps : List VgaOp :=
  [text "That's grated of you to ask! Here are my flavors:\n" COLOR_GREEN,
   text "  help    - the crust of the matter\n" COLOR_WHITE,
   text "  uptime  - how long kernel has been baking\n" COLOR_WHITE,
   text "  time    - this kernel is on a ROLL (no time to waste)\n" COLOR_WHITE,
   text "  echo    - repeat what I tell you\n" COLOR_WHITE,
   text "  info    - kernel details (what's in the mix)\n" COLOR_WHITE,
   text "  ps      - process list (the kitchen crew)\n" COLOR_WHITE,
   text "  memory  - see the cream filling (memory stats)\n" COLOR_WHITE,
   text "  tasks   - detailed task counters\n" COLOR_WHITE,
   text "  taskmon - live scheduler + mini game (A/D move, Q quit)\n" COLOR_WHITE,
   text "  history - show command history\n" COLOR_WHITE,
   text "  clear   - clean slate? Un-beet-able!\n" COLOR_WHITE,
   text "  reboot  - let's make a fresh bake\n" COLOR_WHITE]

def uptimeOps (ticks : U32) : List VgaOp :=
  let seconds := ticks / 1000
  let millis := ticks % 1000
  [text "System uptime: " COLOR_GREEN,
   .write_number seconds COLOR_WHITE,
   text "." COLOR_WHITE,
   .write_number (millis / 100) COLOR_WHITE,
   text " seconds (baked to perfection!)\n" COLOR_GREEN]

def echoWhatOps : List VgaOp := [text "(echo what?)\n" COLOR_YELLOW]

def echoOps (args : List U8) : List VgaOp :=
  if ck_strlen args > 0 then [.write_string args COLOR_YELLOW, text "\n" COLOR_YELLOW] else echoWhatOps

def infoOps (k : Kernel E) : List VgaOp :=
  let heap := k.scheduler.heap
  let total_mem := ck_pmem_get_total_memory heap.pmem
  let used_pages := ck_pmem_get_used_pages heap.pmem
  let heap_used := ck_heap_get_total_allocated heap - ck_heap_get_total_freed heap
  let num_tasks := ck_scheduler_task_count k.scheduler
  [text "CheesecakeOS v1.0 - Multitasking x86 Kernel\n" COLOR_GREEN,
   text "Architecture: 32-bit x86 (i686) Protected Mode\n" COLOR_WHITE,
   text "Bootloader: GRUB Multiboot2\n" COLOR_WHITE,
   text "Memory: " COLOR_WHITE,
   .write_number (total_mem / 1048576) COLOR_WHITE,
   text " MB | " COLOR_WHITE,
   .write_number used_pages COLOR_WHITE,
   text " pages used\n" COLOR_WHITE,
   text "Heap: " COLOR_WHITE,
   .write_number (heap_used / 1024) COLOR_WHITE,
   text " KB allocated\n" COLOR_WHITE,
   text "Interrupts: 32 exceptions + 16 IRQs (PIC remapped)\n" COLOR_WHITE,
   text "Timer: 1 kHz PIT (Intel 8254)\n" COLOR_WHITE,
   text "Input: PS/2 keyboard\n" COLOR_WHITE,
   text "Tasks: " COLOR_WHITE,
   .write_number num_tasks COLOR_WHITE,
   text " running | " COLOR_WHITE,
   .write_number (ck_scheduler_get_context_switches k.scheduler) COLOR_WHITE,
   text " context switches\n" COLOR_WHITE]

/-- A loop over the tasks of the table. -/
def forTasks (k : Kernel E) (ops : Nat → Task E → List VgaOp) : List VgaOp :=
  (List.range (ck_scheduler_task_count k.scheduler).toNat).flatMap fun i =>
    match ck_scheduler_get_task k.scheduler (.ofNat 32 i) with
    | none => []
    | some task => ops i task

def psTaskOps (k : Kernel E) (i : Nat) (_ : Task E) : List VgaOp :=
  [.write_number (.ofNat 32 i) COLOR_YELLOW,
   text "    READY     " COLOR_WHITE,
   .write_number (k.counter i) COLOR_YELLOW,
   text "\n" COLOR_WHITE]

def psTitleOps : List VgaOp :=
  [text "PID  STATE    COUNTER\n" COLOR_GREEN,
   text "---  --------  -----------\n" COLOR_WHITE]

def psOps (k : Kernel E) : List VgaOp := psTitleOps ++ forTasks k (psTaskOps k)

def historyLineOps (line : List U8) (i : Nat) : List VgaOp :=
  [.write_number (.ofNat 32 (i + 1)) COLOR_YELLOW,
   text ": " COLOR_WHITE,
   .write_string line COLOR_WHITE,
   text "\n" COLOR_WHITE]

def historyTitleOps : List VgaOp := [text "Command History:\n" COLOR_GREEN]

def noHistoryOps : List VgaOp := [text "(no commands yet)\n" COLOR_YELLOW]

def historyOps (history : List (List U8)) : List VgaOp :=
  historyTitleOps ++ history.zipIdx.flatMap (fun (line, i) => historyLineOps line i) ++
  if history.length = 0 then noHistoryOps else []

def timeOps (ticks : U32) : List VgaOp :=
  [text "Baking time: " COLOR_GREEN,
   .write_number (ticks / 1000) COLOR_WHITE,
   text "." COLOR_WHITE,
   .write_number (ticks % 1000) COLOR_WHITE,
   text " seconds (looking gouda!)\n" COLOR_WHITE]

def memoryOps (k : Kernel E) : List VgaOp :=
  let heap := k.scheduler.heap
  let total_mem := ck_pmem_get_total_memory heap.pmem
  [text "Memory Status - A Creamy Filling:\n" COLOR_GREEN,
   text "Total memory: " COLOR_WHITE,
   .write_number (total_mem / 1048576) COLOR_WHITE,
   text " MB (" COLOR_WHITE,
   .write_number (total_mem / 4096) COLOR_WHITE,
   text " pages)\n" COLOR_WHITE,
   text "Used pages: " COLOR_WHITE,
   .write_number (ck_pmem_get_used_pages heap.pmem) COLOR_WHITE,
   text " | Free pages: " COLOR_WHITE,
   .write_number (ck_pmem_get_free_pages heap.pmem) COLOR_WHITE,
   text "\n" COLOR_WHITE,
   text "Heap allocated: " COLOR_WHITE,
   .write_number (ck_heap_get_total_allocated heap) COLOR_WHITE,
   text " bytes | Freed: " COLOR_WHITE,
   .write_number (ck_heap_get_total_freed heap) COLOR_WHITE,
   text " bytes\n" COLOR_WHITE]

def tasksTaskOps (k : Kernel E) (i : Nat) (task : Task E) : List VgaOp :=
  [text "Task #" COLOR_YELLOW,
   .write_number (.ofNat 32 i) COLOR_YELLOW,
   text ": Counter = " COLOR_WHITE,
   .write_number (k.counter i) COLOR_WHITE,
   text " (runs: " COLOR_WHITE,
   .write_number task.times_run COLOR_WHITE,
   text ")\n" COLOR_WHITE]

def tasksTitleOps (k : Kernel E) : List VgaOp :=
  [text "Running Kernel Tasks - The Kitchen Crew:\n" COLOR_GREEN,
   text "Total tasks: " COLOR_WHITE,
   .write_number (ck_scheduler_task_count k.scheduler) COLOR_WHITE,
   text "\n\n" COLOR_WHITE]

def tasksOps (k : Kernel E) : List VgaOp := tasksTitleOps k ++ forTasks k (tasksTaskOps k)

def taskmonOps : List VgaOp := [text "Entering live task monitor... (press 'q' to exit)\n" COLOR_YELLOW]

def clearOps : List VgaOp := [text "Fresh and crumbly, just like a new kernel!\n" COLOR_GREEN]

def rebootOps : List VgaOp := [text "Time to serve this kernel... it's reached peak temp!\n" COLOR_RED]

def unknownOps : List VgaOp := [text "🍪 That command is crumbly... try 'help' for the menu.\n" COLOR_RED]

/-- The start of the shell, which `taskmon` repeats when the monitor has ended. -/
def restart (m : ShellState) (ticks : U32) : ShellState :=
  let m := { m with screen := ck_vga_clear_screen m.screen }
  let m := ck_shell_draw_status m ticks
  let m := m.setCursor (.ofNat 16 (2 * VGA_WIDTH))
  let m := { m with screen := ck_vga_update_hw_cursor m.screen }
  (m.print bannerOps).print promptOps

def taskmon (m : ShellState) (t : Turn E) : ShellState :=
  let m := m.print taskmonOps
  let (s, prev_counters) := ck_visualizer_run_monitor t.frames m.prev_counters m.screen
  restart { m with screen := s, prev_counters := prev_counters } t.ticks_after

/-- The cursor goes to the second row; the registers get it with the text. -/
def clear (m : ShellState) : ShellState :=
  let m := { m with screen := ck_vga_clear_screen m.screen }
  let m := m.setCursor (.ofNat 16 VGA_WIDTH)
  m.print clearOps

def ck_shell_execute (m : ShellState) (t : Turn E) (cmd : List U8) : Except ShellState ShellState :=
  let m := if ck_strlen cmd > 0 then { m with ck_history := ck_history_add m.ck_history cmd } else m
  let cmd_name := ck_get_first_word cmd 64
  let cmd_args := ck_get_args cmd 128
  let k := t.kernel
  if ck_strcmp cmd_name (utf8 "help") = 0 then .ok (m.print helpOps)
  else if ck_strcmp cmd_name (utf8 "uptime") = 0 then .ok (m.print (uptimeOps k.ticks))
  else if ck_strcmp cmd_name (utf8 "echo") = 0 then .ok (m.print (echoOps cmd_args))
  else if ck_strcmp cmd_name (utf8 "info") = 0 then .ok (m.print (infoOps k))
  else if ck_strcmp cmd_name (utf8 "ps") = 0 then .ok (m.print (psOps k))
  else if ck_strcmp cmd_name (utf8 "history") = 0 then .ok (m.print (historyOps m.ck_history))
  else if ck_strcmp cmd_name (utf8 "time") = 0 then .ok (m.print (timeOps k.ticks))
  else if ck_strcmp cmd_name (utf8 "memory") = 0 then .ok (m.print (memoryOps k))
  else if ck_strcmp cmd_name (utf8 "tasks") = 0 then .ok (m.print (tasksOps k))
  else if ck_strcmp cmd_name (utf8 "taskmon") = 0 then .ok (taskmon m t)
  else if ck_strcmp cmd_name (utf8 "clear") = 0 then .ok (clear m)
  else if ck_strcmp cmd_name (utf8 "reboot") = 0 then .error (m.print rebootOps)
  else if ck_strlen cmd_name = 0 then .ok m
  else .ok (m.print unknownOps)

/-! ## The loop -/

/-- `input_buffer` with the zero that ends it, as `ck_shell_execute` gets it. -/
def ShellState.line (m : ShellState) : List U8 :=
  cString (m.input_buffer.setIfInBounds m.input_len.toNat 0).toList

/-- The newline character. -/
def enter (m : ShellState) (t : Turn E) : Except ShellState ShellState := do
  let cmd := m.line
  let m := { m with input_buffer := m.input_buffer.setIfInBounds m.input_len.toNat 0
                    screen := ck_vga_newline m.screen }
  let m ← ck_shell_execute m t cmd
  return { m with input_len := 0 }.print promptOps

/-- The backspace character. -/
def erase (m : ShellState) : ShellState :=
  if m.input_len > 0 then
    let pos := m.screen.ck_cursor_pos - 1
    let s := { m.screen with ck_cursor_pos := pos }
    let s := s.write pos.toNat blank
    { m with screen := ck_vga_update_hw_cursor s, input_len := m.input_len - 1 }
  else m

/-- A printable character. -/
def insert (m : ShellState) (c : U8) : ShellState :=
  if m.input_len < 256 - 1 then
    { m with
      input_buffer := m.input_buffer.setIfInBounds m.input_len.toNat c
      input_len := m.input_len + 1
      screen := ck_vga_write_char m.screen c COLOR_WHITE }
  else m

/-- One turn of the loop, after `ck_scheduler_run_tasks`. -/
def turn (m : ShellState) (t : Turn E) : Except ShellState ShellState :=
  let m := ck_shell_draw_status m t.ticks
  if t.c = 0 then .ok m
  else if t.c = 0x0A then enter m t
  else if t.c = 0x08 then .ok (erase m)
  else if 32 ≤ t.c ∧ t.c < 127 then .ok (insert m t.c)
  else .ok m

/-- The shell is entered once, with its statics zero. The buffer is not
initialised, and nothing has been written to the screen. -/
def ShellState.boot (screen : Screen) (input_buffer : Vector U8 256) : ShellState :=
  { screen := { screen with extent := 0 }
    ck_history := []
    last_ticks := 0
    prev_counters := fun _ => 0
    input_buffer := input_buffer
    input_len := 0 }

/-- The state at the head of the loop after the given turns; `ticks` is the tick count at the start. -/
def ck_shell_run (screen : Screen) (input_buffer : Vector U8 256) (ticks : U32) (turns : List (Turn E)) :
    Except ShellState ShellState :=
  turns.foldlM turn (restart (.boot screen input_buffer) ticks)

end CheesecakeOS.Shell
