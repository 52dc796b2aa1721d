import CheesecakeOS.Kernel.Boot
/-!
# Where the tasks are

`ck_main` creates its tasks on a heap of one page, so the addresses of their
stacks and registers are known, and what the allocators have counted
(`boot_laid`). A stack and its header are 12 bytes more than a page, of which
the heap takes one: the end of each stack lies in the next page, where the header
of the next stack is.
-/
open Lib

namespace CheesecakeOS.Heap

/-! ## The heap while the tasks are created -/

/-- The first register block that is still free. -/
def restAt (r : Nat) : U32 := .ofNat 32 (0x180000 + 44 * r)

/-- An allocated block, before the free rest of the first page or on one of the stack pages. -/
def Placed (k r : Nat) (s : Heap) (b : U32) : Prop :=
  ¬ s.IsFree b ∧ (b.toNat + 12 ≤ 0x180000 + 44 * r ∨ 0x181000 ≤ b.toNat ∧ b.toNat + 12 ≤ (385 + k) * 4096)

/-- With these stacks and register blocks handed out. The list has them all before the rest of the first page. -/
structure Stage (k r : Nat) (s : Heap) : Prop where
  pages : s.pmem.allocated = Finset.range (385 + k)
  used : s.pmem.used_pages = .ofNat 32 (385 + k)
  total : s.pmem.total_pages = .ofNat 32 CK_MAX_PAGES
  heap_size : s.heap_size.toNat = 4096 * (1 + k)
  allocated : s.total_allocated = .ofNat 32 (4108 * k + 44 * r)
  freed : s.total_freed = 0
  list : Links.Path s.next 0#32 (fun b => ¬ Placed k r s b) s.freelist (restAt r)
  rest : header s.mem (restAt r) = ⟨.ofNat 32 (4096 - 44 * r), 0, 0⟩

variable {k r : Nat} {s : Heap}

/-- An address is not the null pointer. -/
theorem address_ne_zero {a : Nat} (h : 0 < a) (hlt : a < 2 ^ 32) : BitVec.ofNat 32 a ≠ 0#32 := by
  intro h0
  have hnat := congrArg BitVec.toNat h0
  rw [BitVec.toNat_ofNat, Nat.mod_eq_of_lt hlt] at hnat
  exact absurd hnat (Nat.ne_of_gt h)

theorem restAt_toNat (h : r ≤ 90) : (restAt r).toNat = 0x180000 + 44 * r := by
  rw [restAt, BitVec.toNat_ofNat]
  exact Nat.mod_eq_of_lt (by omega)

theorem restAt_ne_zero (h : r ≤ 90) : restAt r ≠ 0#32 := address_ne_zero (by omega) (by omega)

theorem Placed.not_suitable (h : Placed k r s b) (total : U32) : suitable s.mem total b = false := by
  rw [← Bool.not_eq_true, suitable_iff]
  exact fun hs => h.1 hs.1

/-- What a header that stays tells. -/
theorem Placed.congr {s' : Heap} (h : Placed k r s b) (hh : header s'.mem b = header s.mem b) :
    Placed k r s' b :=
  ⟨fun hf => h.1 ((isFree_congr hh).1 hf), h.2⟩

theorem Placed.mono {k' r' : Nat} (h : Placed k r s b) (hs : k ≤ k') (hb : r ≤ r') :
    Placed k' r' s b :=
  ⟨h.1, by have := h.2; omega⟩

/-- A page more is counted. -/
theorem expand_counts {n : U32} (hmax : ¬ s.heap_size + n > CK_HEAP_MAX_SIZE) (h : s.pmem.allocated = Finset.range k)
    (hk : k < 65536) : (ck_heap_expand s n).1.pmem.used_pages = s.pmem.used_pages + 1 ∧
      (ck_heap_expand s n).1.pmem.total_pages = s.pmem.total_pages := by
  rcases he : ck_pmem_alloc_page s.pmem with ⟨pm, a⟩
  have hcounts : pm.used_pages = s.pmem.used_pages + 1 ∧ pm.total_pages = s.pmem.total_pages := by
    rcases Pmem.alloc_cases s.pmem with ⟨page, -, -, -, -, -, htotal, hused⟩ | ⟨hfull, -⟩
    · rw [he] at htotal hused
      exact ⟨hused, htotal⟩
    · have hmem := Finset.mem_range.2 hk
      rw [← hfull, h, Finset.mem_range] at hmem
      exact absurd hmem (Nat.lt_irrefl k)
  rw [heap_expand_eq hmax he]
  split <;> exact hcounts

theorem init_pmem (s : Heap) : (ck_heap_init s).pmem = (ck_heap_expand s.cleared 4096).1.pmem := by
  rcases he : ck_heap_expand s.cleared 4096 with ⟨s₁, a⟩
  rw [init_eq he]
  split <;> rfl

/-- The page that `ck_heap_init` has taken. -/
theorem stage_start : Stage 0 0 (ck_heap_init boot) := by
  obtain ⟨hhead, hheader, hsize, hpages⟩ := boot_start
  obtain ⟨ha, hf⟩ := init_totals boot
  obtain ⟨hinit, htotal, hused⟩ := Pmem.init_spec .zero
  have hpmem := init_pmem boot
  have hcounts := expand_counts (s := boot.cleared) (n := 4096) (k := 384) (by decide) hinit (by decide)
  have hboot : boot.cleared.pmem = ck_pmem_init .zero := rfl
  rw [hboot, hused, htotal] at hcounts
  refine ⟨hpages, ?_, ?_, by rw [hsize]; rfl, ha, hf, ?_, hheader⟩
  · rw [hpmem, hcounts.1]
    rfl
  · rw [hpmem, hcounts.2]
  · rw [hhead]
    exact .here (by decide)

section Stage
variable (h : Stage k r s) (hr : r ≤ 90)
include h hr

/-- The blocks on the list are handed out, or the rest of the first page. -/
theorem Stage.listed : Links.Each s.next 0#32 (fun b => b = restAt r ∨ Placed k r s b) s.freelist := by
  refine h.list.each (fun b hb => .inr hb) (.cons (restAt_ne_zero hr) (.inl rfl) ?_)
  rw [next, h.rest]
  exact ⟨.nil, fun b hb => absurd rfl hb.ne_nil⟩

/-- No block serves more than a page. -/
theorem Stage.noFit : s.NoFit (4096 + CK_HEAP_HEADER_SIZE) := by
  obtain ⟨hends, hall⟩ := h.listed hr
  refine ⟨hends, fun b hb => ?_⟩
  rcases hall b hb with rfl | hplaced
  · rw [← Bool.not_eq_true, suitable_iff, size, h.rest]
    rintro ⟨-, hle⟩
    have hle' : 4108 ≤ (4096 - 44 * r) % 2 ^ 32 := hle
    rw [Nat.mod_eq_of_lt (by omega)] at hle'
    omega
  · exact hplaced.not_suitable _

/-- A stack takes the next page. -/
theorem Stage.stack (hk : k ≤ 1000) : ∃ fuel s', ck_malloc fuel s 4096 = some (s', .ofNat 32 ((385 + k) * 4096 + 12)) ∧
    Stage (k + 1) r s' := by
  have hno := h.noFit hr
  have hsize := h.heap_size
  have hmaxv : CK_HEAP_MAX_SIZE.toNat = 2 ^ 28 := by decide
  have htotal : (4096 + CK_HEAP_HEADER_SIZE : U32).toNat = 4108 := by decide
  have hmax : ¬ s.heap_size + (4096 + CK_HEAP_HEADER_SIZE) > CK_HEAP_MAX_SIZE := by
    rw [gt_iff_lt, BitVec.lt_def, BitVec.toNat_add_of_lt (by omega)]
    omega
  obtain ⟨hpage, hheap, hpages⟩ := expand_range hmax h.pages (by omega) (by omega)
  obtain ⟨hused, htotalp⟩ := expand_counts hmax h.pages (by omega)
  generalize hat : (ck_heap_expand s (4096 + CK_HEAP_HEADER_SIZE)).2 = a at hpage
  have ha : a ≠ 0#32 := by
    rintro rfl
    simp at hpage
  obtain ⟨hsame, hheader, hfree, hp⟩ := expand_whole s (by decide) hat ha
  obtain ⟨hheap', hpmem'⟩ := malloc_expand_statics s (4096 + CK_HEAP_HEADER_SIZE)
  obtain ⟨hfreed, halloc⟩ := malloc_expand_totals s (4096 + CK_HEAP_HEADER_SIZE)
  obtain ⟨fuel, hm⟩ := hno.malloc (n := 4096) (by decide)
  generalize ck_malloc_expand s (4096 + CK_HEAP_HEADER_SIZE) = res at hm hsame hheader hfree hp hheap' hpmem' hfreed halloc
  obtain ⟨s', p⟩ := res
  dsimp only at hsame hheader hfree hp hheap' hpmem' hfreed halloc
  have hpointer : p = .ofNat 32 ((385 + k) * 4096 + 12) := by
    rw [hp, BitVec.ofNat_add, ← hpage, BitVec.ofNat_toNat, BitVec.setWidth_eq]
  -- The new header is behind all others.
  have hkept : ∀ b, b = restAt r ∨ Placed k r s b → header s'.mem b = header s.mem b := by
    intro b hb
    have hbelow : b.toNat + 12 ≤ (385 + k) * 4096 := by
      rcases hb with rfl | hplaced
      · have hat := restAt_toNat hr
        omega
      · have hwhere := hplaced.2
        omega
    exact header_of_apart hsame (by omega) (by omega) (by decide) (.inr (by omega))
  rw [← hpointer]
  refine ⟨fuel, s', hm, by rw [hpmem', hpages, Nat.add_assoc], ?_, by rw [hpmem', htotalp, h.total], ?_, ?_, by rw [hfreed, h.freed], ?_,
    ?_⟩
  · rw [hpmem', hused, h.used]
    exact (BitVec.ofNat_add ..).symm
  · rw [hheap', hheap, BitVec.toNat_add_of_lt (by simp; omega), hsize]
    simp
    omega
  · have hne : p ≠ 0#32 := by
      rw [hpointer]
      exact address_ne_zero (by omega) (by omega)
    have hsum : 4108 * k + 44 * r + 4108 = 4108 * (k + 1) + 44 * r := by omega
    rw [halloc, if_neg hne, h.allocated, show (4096 + CK_HEAP_HEADER_SIZE : U32) = .ofNat 32 4108 by decide,
      ← BitVec.ofNat_add, hsum]
  · have hpath : Links.Path s'.next 0#32 (fun b => ¬ Placed (k + 1) r s' b) s.freelist (restAt r) := by
      refine (h.list.congr fun x _ hx => next_congr (hkept x (.inr (not_not.1 hx)))).imp fun x hx hplaced => hx ?_
      exact (hplaced.congr (hkept x (.inr hplaced))).mono (Nat.le_succ k) (Nat.le_refl r)
    rw [hfree]
    refine .link ha (not_not.2 ⟨by simp [IsFree, hheader], .inr ⟨by omega, by omega⟩⟩) ?_
    rw [next, hheader]
    exact hpath
  · rw [hkept _ (.inl rfl)]
    exact h.rest

/-- Registers are cut from the rest of the first page. -/
theorem Stage.regs (hk : k ≤ 1000) (hlt : r < 90) : ∃ fuel s', ck_malloc fuel s 32 = some (s', .ofNat 32 (0x18000C + 44 * r)) ∧
    Stage k (r + 1) s' := by
  have hrest := h.rest
  have hat := restAt_toNat hr
  have hat' := restAt_toNat (r := r + 1) hlt
  have hsz : (header s.mem (restAt r)).size.toNat = 4096 - 44 * r := by
    rw [hrest]
    exact Nat.mod_eq_of_lt (by omega)
  have htotal : (32 + CK_HEAP_HEADER_SIZE : U32).toNat = 44 := by decide
  have hnext : restAt r + (32 + CK_HEAP_HEADER_SIZE) = restAt (r + 1) := by
    apply BitVec.eq_of_toNat_eq
    rw [BitVec.toNat_add_of_lt (by omega), hat, htotal, hat']
    omega
  have hfit : s.FirstFit (32 + CK_HEAP_HEADER_SIZE) (restAt r) := by
    refine ⟨h.list.imp fun x hx hplaced => ?_, suitable_iff.2 ⟨by simp [IsFree, hrest], ?_⟩⟩
    · rw [hplaced.not_suitable] at hx
      cases hx
    · rw [size, hsz, htotal]
      omega
  obtain ⟨hsame, hcut, hleft⟩ := take_split s (32 + CK_HEAP_HEADER_SIZE) (restAt r) (by decide) (by omega) (by omega)
  obtain ⟨fuel, hm⟩ := hfit.malloc (n := 32) (by decide)
  have hpointer : restAt r + CK_HEAP_HEADER_SIZE = .ofNat 32 (0x18000C + 44 * r) := by
    apply BitVec.eq_of_toNat_eq
    rw [BitVec.toNat_add_of_lt (by simp; omega), hat, BitVec.toNat_ofNat, Nat.mod_eq_of_lt (by omega)]
    simp
    omega
  rw [hnext] at hcut hleft
  -- The rest lies between the blocks before it and the pages of the stacks.
  have hkept : ∀ b, Placed k r s b → header (ck_malloc_take s (32 + CK_HEAP_HEADER_SIZE) (restAt r)).1.mem b =
      header s.mem b := by
    intro b hb
    have hwhere := hb.2
    exact header_of_apart hsame (by omega) (by omega) (by omega) (by omega)
  refine ⟨fuel, (ck_malloc_take s (32 + CK_HEAP_HEADER_SIZE) (restAt r)).1, ?_, h.pages, h.used, h.total, h.heap_size, ?_,
    h.freed, ?_, ?_⟩
  · rw [hm, ← hpointer]
    rfl
  · have hsum : 4108 * k + 44 * r + 44 = 4108 * k + 44 * (r + 1) := by omega
    show s.total_allocated + (32 + CK_HEAP_HEADER_SIZE) = _
    rw [h.allocated, show (32 + CK_HEAP_HEADER_SIZE : U32) = .ofNat 32 44 by decide, ← BitVec.ofNat_add, hsum]
  · refine Links.Path.snoc (b := restAt r) ?_ (not_not.2 ⟨?_, .inl ?_⟩) ?_ (restAt_ne_zero hlt)
    · refine (h.list.congr fun x _ hx => next_congr (hkept x (not_not.1 hx))).imp fun x hx hplaced => hx ?_
      exact (hplaced.congr (hkept x hplaced)).mono (Nat.le_refl k) (Nat.le_succ r)
    · rw [IsFree, hcut]
      simp
    · omega
    · rw [next, hcut]
  · rw [hleft, hrest]
    have hsize : BitVec.ofNat 32 (4096 - 44 * r) - (32 + CK_HEAP_HEADER_SIZE) = .ofNat 32 (4096 - 44 * (r + 1)) := by
      have hbefore : (BitVec.ofNat 32 (4096 - 44 * r)).toNat = 4096 - 44 * r := Nat.mod_eq_of_lt (by omega)
      have hafter : (BitVec.ofNat 32 (4096 - 44 * (r + 1))).toNat = 4096 - 44 * (r + 1) := Nat.mod_eq_of_lt (by omega)
      apply BitVec.eq_of_toNat_eq
      rw [BitVec.toNat_sub_of_le (BitVec.le_def.2 (by omega)), hbefore, hafter, htotal]
      omega
    rw [hsize]

end Stage

end CheesecakeOS.Heap

namespace CheesecakeOS.Game

open Heap Scheduler

/-! ## The tasks -/

/-- The task structures of the table: the stack of task `i` is behind a header at
the start of page 385 + `i`, its registers in the first page. -/
structure Laid (k : Nat) (s : Scheduler Demo) : Prop where
  stage : Stage k k s.heap
  count : s.ck_task_count.toNat = k
  switches : s.ck_context_switches = 0
  task : ∀ d : Demo, d.index.val < k → s.task d.index =
    { id := .ofNat 32 d.index, state := .ready, entry := some d, regs := .ofNat 32 (0x18000C + 44 * d.index)
      stack := .ofNat 32 (0x18100C + 4096 * d.index), stack_size := 4096
      ticks_remaining := 0, times_run := 0, total_ticks := 0 }

theorem index_inj {d d' : Demo} (h : d'.index = d.index) : d' = d := by
  cases d <;> cases d' <;> first | rfl | cases h

theorem Laid.create {k : Nat} {s : Scheduler Demo} (h : Laid k s) {d : Demo} (hd : d.index.val = k) {task : U32}
    (ht : task ≠ 0#32) : ∃ fuel s', Laid (k + 1) s' ∧
      ∀ fuel' ≥ fuel, ck_task_create fuel' s task (some d) 4096 = some (s', (k : Int)) := by
  have hk : k < 3 := by
    rw [← hd]
    cases d <;> decide
  have hcount := h.count
  have hfull : ¬ s.ck_task_count ≥ CK_SCHEDULER_MAX_TASKS := by
    rw [ge_iff_le, BitVec.le_def, hcount]
    show ¬ 8 ≤ k
    omega
  have hargs : ¬ (task = 0#32 ∨ (some d).isNone ∨ (4096 : U32) = 0#32) := by
    rintro (h | h | h)
    · exact ht h
    · cases h
    · cases h
  obtain ⟨fuel₁, heap₁, hm₁, hstage₁⟩ := h.stage.stack (by omega) (by omega)
  obtain ⟨fuel₂, heap₂, hm₂, hstage₂⟩ := hstage₁.regs (by omega) (by omega) (by omega)
  have hstack : BitVec.ofNat 32 ((385 + k) * 4096 + 12) ≠ 0#32 := address_ne_zero (by omega) (by omega)
  have hregs : BitVec.ofNat 32 (0x18000C + 44 * k) ≠ 0#32 := address_ne_zero (by omega) (by omega)
  refine ⟨max fuel₁ fuel₂, ck_task_enter s heap₂ task ⟨s.ck_task_count, .ready, some d, .ofNat 32 (0x18000C + 44 * k),
    .ofNat 32 ((385 + k) * 4096 + 12), 4096, 0, 0, 0⟩, ?_, fun fuel' hle => ?_⟩
  · have hlt : s.ck_task_count.toNat < 8 := by omega
    have hidx : (⟨s.ck_task_count.toNat, hlt⟩ : Fin 8) = d.index := Fin.ext (hcount.trans hd.symm)
    refine ⟨hstage₂, by rw [count_enter _ _ _ _ hlt, hcount], h.switches, fun d' hd' => ?_⟩
    rw [task_enter _ _ _ _ hlt, hidx]
    by_cases hsame : d'.index = d.index
    · have hid : s.ck_task_count = .ofNat 32 k := by
        rw [← hcount, BitVec.ofNat_toNat, BitVec.setWidth_eq]
      have haddr : (385 + k) * 4096 + 12 = 0x18100C + 4096 * k := by omega
      rw [hsame, Function.update_self, index_inj hsame, hd, hid, haddr]
    · have hne : d'.index.val ≠ d.index.val := fun hv => hsame (Fin.ext hv)
      rw [Function.update_of_ne hsame]
      exact h.task d' (by omega)
  · unfold ck_task_create
    rw [if_neg hfull, if_neg hargs, malloc_mono (by omega) hm₁]
    show (if BitVec.ofNat 32 ((385 + k) * 4096 + 12) = 0#32 then _ else _) = _
    rw [if_neg hstack, malloc_mono (by omega) hm₂]
    show (if BitVec.ofNat 32 (0x18000C + 44 * k) = 0#32 then _ else _) = _
    rw [if_neg hregs, hcount]

/-- What `ck_main` leaves to the shell. -/
theorem boot_laid (l : Locals) (structs : U32 → Task Demo) :
    ∃ fuel s, (∀ fuel' ≥ fuel, ck_main_tasks fuel' l (Scheduler.zero (ck_heap_init boot) structs) = some s) ∧ Laid 3 s := by
  obtain ⟨h1, h2, h3⟩ := l.nonnull
  have hinit : Laid 0 (ck_scheduler_init (Scheduler.zero (ck_heap_init boot) structs)) :=
    ⟨stage_start, rfl, rfl, fun d hd => absurd hd (Nat.not_lt_zero _)⟩
  obtain ⟨fuel₁, s₁, hb₁, hc₁⟩ := hinit.create (d := .demo_1) rfl h1
  obtain ⟨fuel₂, s₂, hb₂, hc₂⟩ := hb₁.create (d := .demo_2) rfl h2
  obtain ⟨fuel₃, s₃, hb₃, hc₃⟩ := hb₂.create (d := .demo_3) rfl h3
  refine ⟨max fuel₁ (max fuel₂ fuel₃), s₃, fun fuel hle => ?_, hb₃⟩
  unfold ck_main_tasks
  dsimp only
  rw [hc₁ fuel (by omega)]
  show (ck_task_create fuel s₁ l.task2 (some .demo_2) 4096).bind _ = _
  rw [hc₂ fuel (by omega)]
  show (ck_task_create fuel s₂ l.task3 (some .demo_3) 4096).bind _ = _
  rw [hc₃ fuel (by omega)]
  rfl

theorem create_mono {E : Type} {fuel fuel' : Nat} (hle : fuel ≤ fuel') {s : Scheduler E} {task : U32} {entry : Option E}
    {size : U32} {r : Scheduler E × Int} (h : ck_task_create fuel s task entry size = some r) :
    ck_task_create fuel' s task entry size = some r := by
  unfold ck_task_create at h ⊢
  split
  · next hfull =>
    rw [if_pos hfull] at h
    exact h
  · next hfull =>
    rw [if_neg hfull] at h
    split
    · next hbad =>
      rw [if_pos hbad] at h
      exact h
    · next hbad =>
      rw [if_neg hbad] at h
      obtain ⟨⟨heap, stack⟩, hm, h⟩ := Option.bind_eq_some_iff.1 h
      rw [Heap.malloc_mono hle hm]
      dsimp only [Option.bind_eq_bind, Option.bind_some] at h ⊢
      split
      · next hz =>
        rw [if_pos hz] at h
        exact h
      · next hz =>
        rw [if_neg hz] at h
        obtain ⟨⟨heap', regs⟩, hm', h⟩ := Option.bind_eq_some_iff.1 h
        rw [Heap.malloc_mono hle hm']
        exact h

theorem main_tasks_mono {fuel fuel' : Nat} (hle : fuel ≤ fuel') {l : Locals} {s s' : Scheduler Demo}
    (h : ck_main_tasks fuel l s = some s') : ck_main_tasks fuel' l s = some s' := by
  unfold ck_main_tasks at h ⊢
  dsimp only at h ⊢
  obtain ⟨r₁, h₁, h⟩ := Option.bind_eq_some_iff.1 h
  obtain ⟨r₂, h₂, h⟩ := Option.bind_eq_some_iff.1 h
  obtain ⟨r₃, h₃, h⟩ := Option.bind_eq_some_iff.1 h
  rw [create_mono hle h₁]
  show (ck_task_create fuel' r₁.1 l.task2 (some .demo_2) 4096).bind _ = _
  rw [create_mono hle h₂]
  show (ck_task_create fuel' r₂.1 l.task3 (some .demo_3) 4096).bind _ = _
  rw [create_mono hle h₃]
  exact h

/-- `ck_main` leaves this scheduler to the shell. -/
def Booted (s : Scheduler Demo) : Prop :=
  ∃ fuel l structs, ck_main_tasks fuel l (Scheduler.zero (ck_heap_init boot) structs) = some s

theorem Booted.laid {s : Scheduler Demo} (h : Booted s) : Laid 3 s := by
  obtain ⟨fuel, l, structs, h⟩ := h
  obtain ⟨fuel', s', hs', hlaid⟩ := boot_laid l structs
  have heq := (main_tasks_mono (Nat.le_max_left fuel fuel') h).symm.trans (hs' _ (Nat.le_max_right fuel fuel'))
  cases heq
  exact hlaid

theorem Laid.tabled {k : Nat} {s : Scheduler Demo} (h : Laid k s) : Tabled k s := by
  refine ⟨h.count, fun d hd => ?_⟩
  rw [h.task d hd]
  exact ⟨rfl, rfl⟩

end CheesecakeOS.Game
