import CheesecakeOS.Memory.HeapStats
import CheesecakeOS.Kernel.SchedulerRuns
import CheesecakeOS.Kernel.Tasks
/-!
# The tasks that the kernel starts with

The end of `ck_main`: on the heap of `ck_heap_init` the three demo tasks are
created, each with a stack of 4096 bytes. A stack with its header is more than a
page and takes a new one; the registers are cut from a free block. There is room
for all of them (`tasks_created`).
-/
open Lib

namespace CheesecakeOS

namespace Heap

/-! ## Room after `ck_heap_init` -/

variable {s s' : Heap} {n : U32} {pages cut : Nat}

/-- The heap has at most `pages` pages, and a free block is a page without at
most `cut` bytes. -/
def Early (pages cut : Nat) (s : Heap) : Prop :=
  ∃ live B, Layout boot.pmem s live B ∧ Links.Ends s.next 0#32 s.freelist ∧
    (heapPages boot.pmem s.pmem).card ≤ pages ∧ ∀ b ∈ B, s.IsFree b → 4096 ≤ s.size b + cut

theorem early_start : Early 1 0 (ck_heap_init boot) := by
  obtain ⟨-, -, hend, -⟩ := ending_start boot
  obtain ⟨B, hl, hcases⟩ := init_layout boot
  refine ⟨[], B, hl, hend, ?_, fun b hb _ => ?_⟩
  · have htotal := hl.geometry.total
    rw [boot_start.heap_size] at htotal
    simp at htotal
    omega
  · rcases hcases with ⟨rfl, -⟩ | ⟨a, rfl, hh, -, -⟩
    · simp at hb
    · rw [Finset.mem_singleton.1 hb, size, hh]
      rfl

/-- A heap of a few pages may grow. -/
theorem Early.canExpand (h : Early pages cut s) (hp : pages ≤ 1000) {t : U32} (ht : t.toNat ≤ 8192) : CanExpand s t := by
  obtain ⟨live, B, hl, -, hcard, -⟩ := h
  have hboot : boot.pmem.allocated = Finset.range 384 := (Pmem.init_spec .zero).1
  have hbase := hl.geometry.base
  have htotal := hl.geometry.total
  have hmax : CK_HEAP_MAX_SIZE.toNat = 2 ^ 28 := by decide
  refine ⟨?_, hbase (by rw [hboot]; decide), ?_⟩
  · rw [gt_iff_lt, BitVec.lt_def, BitVec.toNat_add_of_lt (by omega)]
    omega
  · by_contra hfull
    push Not at hfull
    have hsub : Finset.Ico 384 65536 ⊆ heapPages boot.pmem s.pmem := by
      intro q hq
      obtain ⟨hge, hlt⟩ := Finset.mem_Ico.1 hq
      refine mem_heapPages.2 ⟨by omega, hfull q hlt, ?_⟩
      rw [hboot, Finset.mem_range]
      omega
    have hle := Finset.card_le_card hsub
    rw [Nat.card_Ico] at hle
    omega

/-- A request of more than a page, or one that leaves enough of every free block,
is served. -/
theorem Early.malloc (h : Early pages cut s) (cut' : Nat) (hp : pages ≤ 1000) (h0 : n ≠ 0#32) (hn : n.toNat + 12 ≤ 8192)
    (hfit : 4096 < n.toNat + 12 ∨ n.toNat + 24 + cut ≤ 4096)
    (hcut : cut' = cut + if 4096 < n.toNat + 12 then 0 else n.toNat + 12) :
    ∃ fuel s' p, ck_malloc fuel s n = some (s', p) ∧ p ≠ 0#32 ∧ Early (pages + 1) cut' s' := by
  have ht : (n + CK_HEAP_HEADER_SIZE).toNat = n.toNat + 12 := total_toNat (by omega)
  have hcan : CanExpand s (n + CK_HEAP_HEADER_SIZE) := h.canExpand hp (by omega)
  obtain ⟨live, B, hl, hend, hcard, hfree⟩ := h
  obtain ⟨fuel, ⟨s', p⟩, hm⟩ := (terminates_of_ends hend).returns n
  have hsplit : SplitsCleanly s n := by
    refine ⟨fun c hc => ?_, fun _ => by omega⟩
    obtain ⟨hcf, hle⟩ := suitable_iff.1 hc.2
    have hcB := hl.linked.listed_mem hc.1.on
    have hsmall := hl.geometry.small c hcB hcf
    have hlarge := hfree c hcB hcf
    omega
  obtain ⟨B', he⟩ := malloc_effect hl.geometry hl.linked (fun _ => hsplit) hm
  refine ⟨fuel, s', p, hm, ?_, addLive live n p, B', he.layout hl, he.ends hl.linked hl.geometry hend,
    Nat.le_trans he.card_pages (by omega), fun b hb hbf => ?_⟩
  · rcases malloc_paths hm with ⟨hz, -⟩ | ⟨-, c, hc, hr⟩ | ⟨-, -, hr⟩
    · exact absurd hz h0
    · have hpointer : p = c + CK_HEAP_HEADER_SIZE := congrArg Prod.snd hr
      rw [hpointer]
      exact hl.geometry.pointer_ne_zero (hl.linked.listed_mem hc.1.on)
    · have hpointer : p = (ck_malloc_expand s (n + CK_HEAP_HEADER_SIZE)).2 := congrArg Prod.snd hr
      rw [hpointer, Ne, malloc_expand_null_iff]
      rcases expand_cases s (n + CK_HEAP_HEADER_SIZE) with ⟨hnot, -⟩ | ⟨-, hne, -⟩
      · exact absurd hcan hnot
      · exact hne
  · obtain ⟨z, hz, hsize⟩ := he.free_size hb hbf
    have hle : 4096 ≤ z + cut ∧ z ≤ 4096 := by
      rcases hz with rfl | ⟨c, hc, hcf, rfl⟩
      · omega
      · exact ⟨hfree c hc hcf, hl.geometry.small c hc hcf⟩
    split at hcut <;> omega

end Heap

namespace Scheduler

open Heap

variable {E : Type}

/-- The heap serves a stack and the registers. -/
theorem create_served {pages cut : Nat} {s : Scheduler E} {task : U32} {entry : Option E} (h : Early pages cut s.heap)
    (hp : pages ≤ 999) (hcut : cut + 56 ≤ 4096) (hcan : CanCreate s task entry 4096) :
    ∃ fuel heap t, t.entry = entry ∧ t.state = .ready ∧ Early (pages + 2) (cut + 44) heap ∧
      ∀ fuel' ≥ fuel, ck_task_create fuel' s task entry 4096 =
        some (ck_task_enter s heap task t, (s.ck_task_count.toNat : Int)) := by
  obtain ⟨fuel₁, heap₁, stack, hm₁, hstack, h₁⟩ := h.malloc (n := 4096) cut (by omega) (by decide) (by decide)
    (.inl (by decide)) rfl
  obtain ⟨fuel₂, heap₂, regs, hm₂, hregs, h₂⟩ := h₁.malloc (n := 32) (cut + 44) (by omega) (by decide) (by decide)
    (.inr (by simp; omega)) rfl
  obtain ⟨hroom, htask, hentry, hn⟩ := hcan
  have hargs : ¬ (task = 0#32 ∨ entry.isNone ∨ (4096 : U32) = 0#32) := by
    rintro (h | h | h)
    · exact htask h
    · rw [Option.isNone_iff_eq_none] at h
      rw [h] at hentry
      cases hentry
    · exact hn h
  refine ⟨max fuel₁ fuel₂, heap₂, ⟨s.ck_task_count, .ready, entry, regs, stack, 4096, 0, 0, 0⟩, rfl, rfl, h₂, ?_⟩
  intro fuel' hle
  unfold ck_task_create
  rw [if_neg (BitVec.not_le.2 hroom), if_neg hargs, malloc_mono (by omega) hm₁]
  show (if stack = 0#32 then _ else _) = _
  rw [if_neg hstack, malloc_mono (by omega) hm₂]
  show (if regs = 0#32 then _ else _) = _
  rw [if_neg hregs]

end Scheduler

namespace Game

open Heap Scheduler

/-! ## `ck_main` -/

/-- The addresses of the task structures on the stack of `ck_main`. -/
structure Locals where
  task1 : U32
  task2 : U32
  task3 : U32
  nonnull : task1 ≠ 0#32 ∧ task2 ≠ 0#32 ∧ task3 ≠ 0#32

/-- From `ck_scheduler_init` on to the shell. -/
def ck_main_tasks (fuel : Nat) (l : Locals) (s : Scheduler Demo) : Option (Scheduler Demo) := do
  let s := ck_scheduler_init s
  let (s, _) ← ck_task_create fuel s l.task1 (some .demo_1) 4096
  let (s, _) ← ck_task_create fuel s l.task2 (some .demo_2) 4096
  let (s, _) ← ck_task_create fuel s l.task3 (some .demo_3) 4096
  some s

/-- The first `k` demo tasks are the tasks of the scheduler, and ready. -/
structure Tabled (k : Nat) (s : Scheduler Demo) : Prop where
  count : s.ck_task_count.toNat = k
  task : ∀ d : Demo, d.index.val < k → (s.task d.index).entry = some d ∧ (s.task d.index).state = .ready

/-- A task is entered behind the others. -/
theorem Tabled.enter {k : Nat} {s : Scheduler Demo} (h : Tabled k s) {d : Demo} (hd : d.index.val = k) {heap : Heap}
    {task : U32} {t : Task Demo} (he : t.entry = some d) (hs : t.state = .ready) :
    Tabled (k + 1) (ck_task_enter s heap task t) := by
  have hlt : s.ck_task_count.toNat < 8 := by
    rw [h.count, ← hd]
    exact d.index.isLt
  have hidx : (⟨s.ck_task_count.toNat, hlt⟩ : Fin 8) = d.index := Fin.ext (h.count.trans hd.symm)
  have htask := task_enter s heap task t hlt
  rw [hidx] at htask
  have hinj : ∀ d' : Demo, d'.index = d.index → d' = d := by
    intro d' hd'
    cases d <;> cases d' <;> first | rfl | cases hd'
  refine ⟨by rw [count_enter s heap task t hlt, h.count], fun d' hd' => ?_⟩
  rw [htask]
  by_cases hsame : d'.index = d.index
  · rw [hsame, Function.update_self, hinj d' hsame]
    exact ⟨he, hs⟩
  · have hne : d'.index.val ≠ d.index.val := fun hv => hsame (Fin.ext hv)
    rw [Function.update_of_ne hsame]
    exact h.task d' (by omega)

/-- With `k` tasks created. -/
def Booting (k : Nat) (s : Scheduler Demo) : Prop := Tabled k s ∧ Early (1 + 2 * k) (44 * k) s.heap

theorem Booting.create {k : Nat} {s : Scheduler Demo} (h : Booting k s) {d : Demo} (hd : d.index.val = k) {task : U32}
    (ht : task ≠ 0#32) : ∃ fuel s', Booting (k + 1) s' ∧
      ∀ fuel' ≥ fuel, ck_task_create fuel' s task (some d) 4096 = some (s', (k : Int)) := by
  obtain ⟨htab, hearly⟩ := h
  have hcount := htab.count
  have hk : k < 8 := by
    rw [← hd]
    exact d.index.isLt
  have hcan : CanCreate s task (some d) 4096 := by
    refine ⟨?_, ht, rfl, by decide⟩
    rw [BitVec.lt_def, hcount]
    exact hk
  obtain ⟨fuel, heap, t, he, hs, hheap, hc⟩ := create_served hearly (by omega) (by omega) hcan
  rw [hcount] at hc
  exact ⟨fuel, _, ⟨htab.enter hd he hs, hheap⟩, hc⟩

/-- The shell starts with the three tasks. -/
theorem tasks_created (l : Locals) (structs : U32 → Task Demo) :
    ∃ fuel s, (∀ fuel' ≥ fuel, ck_main_tasks fuel' l (Scheduler.zero (ck_heap_init boot) structs) = some s) ∧
      Tabled 3 s := by
  obtain ⟨h1, h2, h3⟩ := l.nonnull
  have hinit : Booting 0 (ck_scheduler_init (Scheduler.zero (ck_heap_init boot) structs)) :=
    ⟨⟨rfl, fun d hd => absurd hd (Nat.not_lt_zero _)⟩, early_start⟩
  obtain ⟨fuel₁, s₁, hb₁, hc₁⟩ := hinit.create (d := .demo_1) rfl h1
  obtain ⟨fuel₂, s₂, hb₂, hc₂⟩ := hb₁.create (d := .demo_2) rfl h2
  obtain ⟨fuel₃, s₃, hb₃, hc₃⟩ := hb₂.create (d := .demo_3) rfl h3
  refine ⟨max fuel₁ (max fuel₂ fuel₃), s₃, fun fuel hle => ?_, hb₃.1⟩
  unfold ck_main_tasks
  dsimp only
  rw [hc₁ fuel (by omega)]
  show (ck_task_create fuel s₁ l.task2 (some .demo_2) 4096).bind _ = _
  rw [hc₂ fuel (by omega)]
  show (ck_task_create fuel s₂ l.task3 (some .demo_3) 4096).bind _ = _
  rw [hc₃ fuel (by omega)]
  rfl

end Game

end CheesecakeOS
