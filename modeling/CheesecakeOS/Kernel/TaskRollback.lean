import CheesecakeOS.Kernel.SchedulerRuns
import CheesecakeOS.Memory.HeapFull
/-!
# Task creation that fails

`ck_task_create` may fail after it has changed the heap: the request for the
registers fails when the one for the stack was served, and the stack is freed
again. `create_rolls_back`: in every state of the heap reached by calls that
leave room for headers, a call that fails and whose stack leaves room for
headers changes neither the scheduler nor what is allocated. Otherwise the
header of what remains behind the stack may land in a live block, and no
`ck_free` takes that back (`rollback_frees_live`).
-/
open Lib

namespace CheesecakeOS

open Heap Scheduler

namespace Heap

/-- The allocations as the headers have them: blocks that are not free, with
their sizes. -/
def allocations (start : Pmem) (σ : Sys) : Set (U32 × U32) :=
  {l | HeapBlock start σ (l.1 - CK_HEAP_HEADER_SIZE) ∧ ¬ σ.heap.IsFree (l.1 - CK_HEAP_HEADER_SIZE) ∧
    σ.heap.size (l.1 - CK_HEAP_HEADER_SIZE) = l.2.toNat + 12}

variable {start : Pmem} {s s' : Heap} {B : Finset U32} {live : List (U32 × U32)} {n p : U32} {fuel : Nat}

/-- The headers show the live allocations and no others. -/
theorem allocations_eq (ht : Tiling 4096 12 (heapPages start s.pmem) B BitVec.toNat s.extent) (hk : Linked s B)
    (ho : Owned s live B) : allocations start ⟨s, live⟩ = {l | l ∈ live} := by
  ext l
  constructor
  · rintro ⟨hb, hnf, hsz⟩
    obtain ⟨m, hm⟩ := ho.live _ (hb.mem ht hk ho) hnf
    have hsz' := (ho.block _ hm).2.2
    rw [sub_header_add] at hm hsz'
    have he : m = l.2 := BitVec.eq_of_toNat_eq (by simp only at hsz hsz'; omega)
    rwa [he] at hm
  · intro hl
    exact ⟨.live hl, (ho.block l hl).2⟩

theorem Layout.allocations (hl : Layout start s live B) : allocations start ⟨s, live⟩ = {l | l ∈ live} :=
  allocations_eq hl.geometry.tiling hl.linked hl.owned

/-- A request that is refused changes nothing but the page allocator. -/
theorem malloc_null (hl : Layout start s live B) (h : ck_malloc fuel s n = some (s', 0#32)) :
    Layout start s' live B ∧ s'.mem = s.mem ∧ s'.total_allocated = s.total_allocated ∧
      s'.total_freed = s.total_freed := by
  obtain ⟨hfreed, htotal⟩ := malloc_totals hl.geometry hl.linked h
  rw [if_pos rfl] at htotal
  refine and_assoc.1 ⟨?_, htotal.trans (BitVec.add_zero _), hfreed⟩
  have refused : ∀ {u : Heap}, Effect start s B n u B 0#32 → Layout start u live B := fun he => he.layout hl
  rcases malloc_paths h with ⟨-, rfl, -⟩ | ⟨-, c, hfit, he⟩ | ⟨-, -, he⟩
  · exact ⟨hl, rfl⟩
  · exact absurd (congrArg Prod.snd he).symm (hl.geometry.pointer_ne_zero (hl.linked.listed_mem hfit.1.on))
  · have e1 : s' = (ck_malloc_expand s (n + CK_HEAP_HEADER_SIZE)).1 := congrArg Prod.fst he
    have e2 : 0#32 = (ck_malloc_expand s (n + CK_HEAP_HEADER_SIZE)).2 := congrArg Prod.snd he
    rcases malloc_expand_cases hl.geometry (n + CK_HEAP_HEADER_SIZE) with ⟨hr, hmem, hfl, hsz, hb, hp⟩ |
      ⟨-, a, page, hae, ha0, -⟩
    · rw [e1, hr]
      exact ⟨refused (.refused hmem hfl hsz hb hp), hmem⟩
    · exact absurd (hae.symm.trans ((malloc_expand_null_iff s _).1 e2.symm)) ha0

theorem free_same (s : Heap) (p : U32) : Same s.mem (ck_free s p).mem (p - CK_HEAP_HEADER_SIZE) 12 := by
  unfold ck_free
  split
  · exact fun _ _ => rfl
  · dsimp only
    split
    · exact fun _ _ => rfl
    · exact (set_allocated_same _ _ _).trans (set_next_same _ _ _)

/-- A request that is served and given back. -/
theorem freed_allocations (hl : Layout start s ((p, n) :: live) B) :
    allocations start ⟨ck_free s p, live⟩ = {l | l ∈ live} := by
  have hp : (p, n) ∈ (p, n) :: live := List.mem_cons_self
  have hf := hl.freed hp
  have ho := hf.owned hl.owned hp
  rw [List.erase_cons_head] at ho
  exact allocations_eq (hf.tiling hl.geometry.tiling) (hf.linked hl.linked) ho

end Heap

namespace Scheduler

variable {E : Type}

/-- A call that failed has left the scheduler and the caller's structures as they
were, and the heap with the same allocations and statistics. -/
structure RolledBack (start : Pmem) (live : List (U32 × U32)) (s s' : Scheduler E) : Prop where
  table : s'.ck_task_table = s.ck_task_table
  count : s'.ck_task_count = s.ck_task_count
  current : s'.ck_current_task_id = s.ck_current_task_id
  switches : s'.ck_context_switches = s.ck_context_switches
  structs : s'.structs = s.structs
  live : allocations start ⟨s'.heap, live⟩ = allocations start ⟨s.heap, live⟩
  totals : ck_heap_get_total_allocated s'.heap - ck_heap_get_total_freed s'.heap =
    ck_heap_get_total_allocated s.heap - ck_heap_get_total_freed s.heap

theorem RolledBack.heap {start : Pmem} {live : List (U32 × U32)} {s : Scheduler E} {heap : Heap}
    (h : allocations start ⟨heap, live⟩ = allocations start ⟨s.heap, live⟩)
    (ht : heap.total_allocated - heap.total_freed = s.heap.total_allocated - s.heap.total_freed) :
    RolledBack start live s { s with heap := heap } :=
  ⟨rfl, rfl, rfl, rfl, rfl, h, ht⟩

/-- The stack of the new task leaves room for the headers its request writes. -/
def CleanStack (s : Scheduler E) (task : U32) (entry : Option E) (stack_size : U32) : Prop :=
  CanCreate s task entry stack_size → SplitsCleanly s.heap stack_size

theorem rolled_back {start : Pmem} {B : Finset U32} {live : List (U32 × U32)} {fuel : Nat} {s s' : Scheduler E}
    {task stack_size : U32} {entry : Option E} (hl : Layout start s.heap live B)
    (hclean : CleanStack s task entry stack_size)
    (hc : ck_task_create fuel s task entry stack_size = some (s', -1)) : RolledBack start live s s' := by
  rcases create_paths hc with ⟨-, rfl⟩ | ⟨-, heap, hm, rfl⟩ | ⟨-, hcan, heap, stack, heap', hm, hstack, hm', rfl⟩ |
    ⟨heap, t, -, hr, -⟩
  · exact ⟨rfl, rfl, rfl, rfl, rfl, rfl, rfl⟩
  · obtain ⟨hl', -, ha, hf⟩ := malloc_null hl hm
    exact .heap (hl'.allocations.trans hl.allocations.symm) (by rw [ha, hf])
  · -- Served, then refused, then given back.
    obtain ⟨B', he⟩ := malloc_effect hl.geometry hl.linked (fun _ => hclean hcan) hm
    obtain ⟨hf₁, ha₁⟩ := malloc_totals hl.geometry hl.linked hm
    have hl₁ := he.layout hl
    rw [addLive, if_neg hstack] at hl₁
    obtain ⟨hl₂, -, ha₂, hf₂⟩ := malloc_null hl₁ hm'
    have hp : (stack, stack_size) ∈ (stack, stack_size) :: live := List.mem_cons_self
    obtain ⟨ha₃, hf₃⟩ := free_totals hstack (hl₂.owned.block _ hp).2.1
    refine .heap ((freed_allocations hl₂).trans hl.allocations.symm) ?_
    rw [ha₃, hf₃, hl₂.owned.header_size hp, ha₂, hf₂, ha₁, hf₁, if_neg hstack]
    grind
  · omega

/-- In every state of the heap reached by requests that leave room for headers
and by freeing blocks that fit in a page, a call of `ck_task_create` that fails,
and whose stack leaves room for headers, rolls back. -/
theorem create_rolls_back (h₀ : Heap) (σ : Books) (h : Reaches Books.Step FreesInPage (.start h₀) σ) (s s' : Scheduler E)
    (hs : s.heap = σ.heap) (fuel : Nat) (task : U32) (entry : Option E) (stack_size : U32)
    (hclean : CleanStack s task entry stack_size)
    (hc : ck_task_create fuel s task entry stack_size = some (s', -1)) :
    allocations h₀.pmem ⟨s.heap, σ.live⟩ = {l | l ∈ σ.live} ∧ RolledBack h₀.pmem σ.live s s' := by
  obtain ⟨B, hl, -, -⟩ := h.inv (Balanced h₀.pmem) (balanced_start h₀) balanced_step
  rw [← hs] at hl
  exact ⟨hl.allocations, rolled_back hl hclean hc⟩

/-! ## Requests that fail late -/

/-- The stack is served, and there is no page and no block for the registers. -/
theorem create_fails_late {s : Scheduler E} {task n stack : U32} {entry : Option E} {heap : Heap}
    (hcan : CanCreate s task entry n) (hm : ∀ k, ck_malloc (k + 1) s.heap n = some (heap, stack)) (hstack : stack ≠ 0#32)
    (hno : heap.NoFit (32 + CK_HEAP_HEADER_SIZE)) (hp : heap.pmem.allocated = Finset.range 65536) :
    ∃ fuel heap', ck_task_create fuel s task entry n = some ({ s with heap := ck_free heap' stack }, -1) ∧
      heap'.mem = heap.mem := by
  obtain ⟨hroom, htask, hentry, hn⟩ := hcan
  have hz := expand_refused hp (32 + CK_HEAP_HEADER_SIZE)
  have hrefused : ck_malloc_expand heap (32 + CK_HEAP_HEADER_SIZE) =
      ((ck_heap_expand heap (32 + CK_HEAP_HEADER_SIZE)).1, 0#32) := by
    simp only [ck_malloc_expand, hz, if_true]
  have hargs : ¬ (task = 0#32 ∨ entry.isNone ∨ n = 0#32) := by
    rintro (h | h | h)
    · exact htask h
    · rw [Option.isNone_iff_eq_none] at h
      rw [h] at hentry
      cases hentry
    · exact hn h
  obtain ⟨fuel, hm'⟩ := hno.malloc (n := 32) (by decide)
  rw [hrefused] at hm'
  cases fuel with
  | zero =>
    rw [malloc_eq (by decide)] at hm'
    cases hm'
  | succ k =>
    refine ⟨k + 1, (ck_heap_expand heap (32 + CK_HEAP_HEADER_SIZE)).1, ?_, (heap_expand_statics heap _).1⟩
    unfold ck_task_create
    rw [if_neg (BitVec.not_le.2 hroom), if_neg hargs, hm k]
    show (if stack = 0#32 then _ else _) = _
    rw [if_neg hstack, hm']
    rfl

/-- Without tasks, there is room for one. -/
theorem canCreate_zero (heap : Heap) (structs : U32 → Task E) {task n : U32} {e : E} (ht : task ≠ 0#32) (hn : n ≠ 0#32) :
    CanCreate (zero heap structs) task (some e) n :=
  ⟨show 0#32 < CK_SCHEDULER_MAX_TASKS by decide, ht, rfl, hn⟩

/-- With 244 bytes of stack the call fails late and rolls back. -/
theorem create_rolls_back_late : ∃ (σ : Books) (s s' : Scheduler Unit) (fuel : Nat),
    Reaches Books.Step FreesInPage (.start boot) σ ∧ (0xFFFF10C#32, 20#32) ∈ σ.live ∧ s.heap = σ.heap ∧
      ck_task_create fuel s 0x9000#32 (some ()) 244#32 = some (s', -1) ∧ RolledBack boot.pmem σ.live s s' := by
  obtain ⟨σ, f, hrun, hpacked, hlive⟩ := packed_reached
  obtain ⟨hsplit, hno⟩ := hpacked.take_whole
  have hcan : CanCreate (zero σ.heap fun _ => .zero Unit) 0x9000#32 (some ()) 244#32 :=
    canCreate_zero _ _ (by decide) (by decide)
  obtain ⟨fuel, heap', hc, -⟩ := create_fails_late hcan (hpacked.malloc (by decide) (by decide)) (by decide) hno
    hpacked.pages
  have hback := create_rolls_back boot σ hrun (zero σ.heap fun _ => .zero Unit) _ rfl fuel 0x9000#32 (some ()) 244#32
    (fun _ => hsplit) hc
  exact ⟨σ, _, _, fuel, hrun, hlive, rfl, hc, hback.2⟩

/-- With 240 bytes of stack the call fails late too, but the live block behind the
stack is free afterwards: the header of the four bytes that remain was written
over its own. -/
theorem rollback_frees_live : ∃ (σ : Books) (s s' : Scheduler Unit) (fuel : Nat),
    Reaches Books.Step FreesInPage (.start boot) σ ∧ (0xFFFF10C#32, 20#32) ∈ σ.live ∧
      s = zero σ.heap (fun _ => .zero Unit) ∧
      ck_task_create fuel s 0x9000#32 (some ()) 240#32 = some (s', -1) ∧ ¬ s.heap.IsFree 0xFFFF100#32 ∧
      s'.heap.IsFree 0xFFFF100#32 ∧ ¬ RolledBack boot.pmem σ.live s s' := by
  obtain ⟨σ, f, hrun, hpacked, hlive⟩ := packed_reached
  obtain ⟨hfree, hno⟩ := hpacked.take_over
  have hcan : CanCreate (zero σ.heap fun _ => .zero Unit) 0x9000#32 (some ()) 240#32 :=
    canCreate_zero _ _ (by decide) (by decide)
  obtain ⟨fuel, heap', hc, hmem⟩ := create_fails_late hcan (hpacked.malloc (by decide) (by decide)) (by decide) hno
    hpacked.pages
  have hafter : (ck_free heap' 0xFFFF00C#32).IsFree 0xFFFF100#32 := by
    have hh := header_of_apart (h := 0xFFFF100#32) (free_same heap' 0xFFFF00C#32) (by decide) (by decide) (by decide)
      (by decide)
    rw [IsFree, hh, hmem]
    exact hfree
  have hbefore : ¬ σ.heap.IsFree 0xFFFF100#32 := by simp [IsFree, hpacked.second]
  refine ⟨σ, _, _, fuel, hrun, hlive, rfl, hc, hbefore, hafter, fun hback => ?_⟩
  obtain ⟨B, hl⟩ := CleanRun.layout hrun
  have hshown : (0xFFFF10C#32, 20#32) ∈ allocations boot.pmem ⟨σ.heap, σ.live⟩ := by
    rw [hl.allocations]
    exact hlive
  rw [show allocations boot.pmem ⟨σ.heap, σ.live⟩ = _ from hback.live.symm] at hshown
  exact hshown.2.1 hafter

end Scheduler

end CheesecakeOS
