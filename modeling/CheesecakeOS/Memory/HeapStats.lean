import Mathlib.Algebra.BigOperators.Group.List.Basic
import Mathlib.Data.BitVec
import CheesecakeOS.Memory.HeapRuns
/-!
# The statistics of the heap

`ck_heap_get_total_allocated() - ck_heap_get_total_freed()`, which the shell
shows, against the live allocations. A request adds what it asked for with its
header; `ck_free` subtracts what the header says by then. Besides live pointers
the runs here free null pointers, and pointers once more whose block has not
been handed out again.

`statistics_exact`: the two agree as long as requests leave room for headers
and no block is freed that claims more than its page. They part when the header
of a small remainder is written over the header of the block behind it.
-/
open Lib

namespace CheesecakeOS.Heap

/-- The heap, its live allocations, and the pointers freed and not handed out
since. -/
structure Books where
  heap : Heap
  live : List (U32 × U32)
  dead : Finset U32

inductive Books.Step : Books → HeapOp → Books → Prop
  | malloc {σ : Books} {fuel : Nat} {size p : U32} {s' : Heap} : ck_malloc fuel σ.heap size = some (s', p) →
      Step σ (.malloc size) ⟨s', addLive σ.live size p, σ.dead.erase p⟩
  | freeNull {σ : Books} : Step σ (.free 0#32) { σ with heap := ck_free σ.heap 0#32 }
  | freeLive {σ : Books} {p size : U32} : (p, size) ∈ σ.live →
      Step σ (.free p) ⟨ck_free σ.heap p, σ.live.erase (p, size), insert p σ.dead⟩
  | freeDead {σ : Books} {p : U32} : p ∈ σ.dead → Step σ (.free p) { σ with heap := ck_free σ.heap p }

theorem Books.Step.served {σ : Books} {fuel : Nat} {size p : U32} {s' : Heap}
    (h : ck_malloc fuel σ.heap size = some (s', p)) (hp : p ≠ 0#32) :
    Step σ (.malloc size) ⟨s', (p, size) :: σ.live, σ.dead.erase p⟩ := by
  have hstep := Step.malloc (σ := σ) h
  rwa [addLive, if_neg hp] at hstep

/-- After `ck_heap_init`, from any earlier state. -/
def Books.start (h₀ : Heap) : Books := ⟨ck_heap_init h₀, [], ∅⟩

/-- The requests with their headers, modulo 2^32. -/
def liveBytes (live : List (U32 × U32)) : U32 := (live.map fun l => l.2 + CK_HEAP_HEADER_SIZE).sum

/-- The statistics are those of the live allocations. -/
def Books.Exact (σ : Books) : Prop :=
  ck_heap_get_total_allocated σ.heap - ck_heap_get_total_freed σ.heap = liveBytes σ.live

/-! ## What a call adds -/

section Totals
variable {start : Pmem} {s s' : Heap} {B : Finset U32} {live : List (U32 × U32)} {n p : U32}

theorem expand_totals (s : Heap) (n : U32) :
    (ck_heap_expand s n).1.total_allocated = s.total_allocated ∧
      (ck_heap_expand s n).1.total_freed = s.total_freed := by
  by_cases hmax : s.heap_size + n > CK_HEAP_MAX_SIZE
  · rw [ck_heap_expand, if_pos hmax]
    exact ⟨rfl, rfl⟩
  · rcases he : ck_pmem_alloc_page s.pmem with ⟨pm, a⟩
    rw [heap_expand_eq hmax he]
    split <;> exact ⟨rfl, rfl⟩

theorem init_totals (s : Heap) : (ck_heap_init s).total_allocated = 0#32 ∧ (ck_heap_init s).total_freed = 0#32 := by
  obtain ⟨ha, hf⟩ := expand_totals s.cleared 4096
  rcases he : ck_heap_expand s.cleared 4096 with ⟨s₁, a⟩
  rw [he] at ha hf
  rw [init_eq he]
  split <;> exact ⟨ha, hf⟩

/-- A page address is far from the end of the address space. -/
theorem expand_pointer_ne_zero (s : Heap) (n : U32) : (ck_heap_expand s n).2 + CK_HEAP_HEADER_SIZE ≠ 0#32 := by
  have hlt : (ck_heap_expand s n).2.toNat < 2 ^ 28 := by
    rcases expand_cases s n with ⟨-, h0, -⟩ | ⟨-, -, page, -, hlt, -, ha, -⟩
    · rw [h0]
      decide
    · rw [ha]
      omega
  generalize (ck_heap_expand s n).2 = a at hlt ⊢
  intro h
  have hnat := congrArg BitVec.toNat h
  rw [toNat_add_of_le (n := 2 ^ 28) (by omega) (by decide)] at hnat
  simp at hnat

/-- A block is served exactly if there is a page. -/
theorem malloc_expand_null_iff (s : Heap) (t : U32) :
    (ck_malloc_expand s t).2 = 0#32 ↔ (ck_heap_expand s t).2 = 0#32 := by
  have hne := expand_pointer_ne_zero s t
  unfold ck_malloc_expand
  generalize ck_heap_expand s t = r at hne ⊢
  dsimp only
  split
  · simp [*]
  · split <;> simp [*]

theorem malloc_expand_totals (s : Heap) (t : U32) :
    (ck_malloc_expand s t).1.total_freed = s.total_freed ∧
      (ck_malloc_expand s t).1.total_allocated = s.total_allocated + if (ck_malloc_expand s t).2 = 0#32 then 0 else t := by
  obtain ⟨ha, hf⟩ := expand_totals s t
  have hne := expand_pointer_ne_zero s t
  unfold ck_malloc_expand
  generalize ck_heap_expand s t = r at ha hf hne ⊢
  dsimp only
  split
  · exact ⟨hf, by rw [if_pos rfl, ha]; exact (BitVec.add_zero _).symm⟩
  · split <;> exact ⟨hf, congrArg (· + t) ha⟩

/-- A request that is served adds its size with the header. -/
theorem malloc_totals {fuel : Nat} (hg : Geometry start s B) (hl : Linked s B)
    (h : ck_malloc fuel s n = some (s', p)) :
    s'.total_freed = s.total_freed ∧
      s'.total_allocated = s.total_allocated + if p = 0#32 then 0 else n + CK_HEAP_HEADER_SIZE := by
  rcases malloc_paths h with ⟨-, rfl, rfl⟩ | ⟨-, c, hfit, he⟩ | ⟨-, -, he⟩
  · exact ⟨rfl, by rw [if_pos rfl]; exact (BitVec.add_zero _).symm⟩
  · obtain ⟨rfl, rfl⟩ := Prod.mk.inj he
    have hne := hg.pointer_ne_zero (hl.listed_mem hfit.1.on)
    exact ⟨rfl, by rw [if_neg hne]⟩
  · have e1 : s' = (ck_malloc_expand s (n + CK_HEAP_HEADER_SIZE)).1 := congrArg Prod.fst he
    have e2 : p = (ck_malloc_expand s (n + CK_HEAP_HEADER_SIZE)).2 := congrArg Prod.snd he
    rw [e1, e2]
    exact malloc_expand_totals s _

theorem free_totals (hp : p ≠ 0#32) (ha : (header s.mem (p - CK_HEAP_HEADER_SIZE)).allocated ≠ 0#8) :
    (ck_free s p).total_allocated = s.total_allocated ∧
      (ck_free s p).total_freed = s.total_freed + (header s.mem (p - CK_HEAP_HEADER_SIZE)).size := by
  simp only [ck_free, if_neg hp, if_neg ha, header_set_allocated]
  exact ⟨trivial, trivial⟩

theorem free_of_free (h : s.IsFree (p - CK_HEAP_HEADER_SIZE)) : ck_free s p = s := by
  unfold ck_free
  split
  · rfl
  · exact if_pos h

/-- The header of a live block has the request in it. -/
theorem Owned.header_size (ho : Owned s live B) (hp : (p, n) ∈ live) :
    (header s.mem (p - CK_HEAP_HEADER_SIZE)).size = n + CK_HEAP_HEADER_SIZE := by
  have hsz := (ho.block _ hp).2.2
  have hlt : s.size (p - CK_HEAP_HEADER_SIZE) < 2 ^ 32 := (header s.mem (p - CK_HEAP_HEADER_SIZE)).size.isLt
  simp only at hsz
  apply BitVec.eq_of_toNat_eq
  rw [total_toNat (by omega)]
  exact hsz

theorem liveBytes_addLive (live : List (U32 × U32)) (n p : U32) :
    liveBytes (addLive live n p) = liveBytes live + if p = 0#32 then 0 else n + CK_HEAP_HEADER_SIZE := by
  unfold addLive
  split
  · exact (BitVec.add_zero _).symm
  · rw [liveBytes, List.map_cons, List.sum_cons, BitVec.add_comm]
    rfl

theorem liveBytes_erase (hp : (p, n) ∈ live) :
    liveBytes live = n + CK_HEAP_HEADER_SIZE + liveBytes (live.erase (p, n)) := by
  have hperm := (List.perm_cons_erase hp).map fun l => l.2 + CK_HEAP_HEADER_SIZE
  rw [liveBytes, hperm.sum_eq, List.map_cons, List.sum_cons]
  rfl

end Totals

/-! ## Runs -/

/-- What keeps the books exact: requests leave room for headers, and no live
block is freed that claims more than its page. -/
def FreesInPage : Books → HeapOp → Prop
  | σ, .malloc n => n ≠ 0#32 → SplitsCleanly σ.heap n
  | σ, .free p => ∀ n, (p, n) ∈ σ.live → n.toNat + 12 ≤ 4096

/-- The layout of the blocks; a dead pointer's block is still one, and the books are exact. -/
def Balanced (start : Pmem) (σ : Books) : Prop :=
  ∃ B, Layout start σ.heap σ.live B ∧ (∀ p ∈ σ.dead, p - CK_HEAP_HEADER_SIZE ∈ B ∧ ∀ n, (p, n) ∉ σ.live) ∧ σ.Exact

theorem exact_nothing {s : Heap} (ha : s.total_allocated = 0#32) (hf : s.total_freed = 0#32) :
    Books.Exact ⟨s, [], ∅⟩ := by
  unfold Books.Exact ck_heap_get_total_allocated ck_heap_get_total_freed
  rw [ha, hf]
  rfl

theorem balanced_start (h₀ : Heap) : Balanced h₀.pmem (.start h₀) := by
  obtain ⟨B, hl, -⟩ := init_layout h₀
  obtain ⟨ha, hf⟩ := init_totals h₀
  rw [Books.start]
  generalize ck_heap_init h₀ = s at hl ha hf ⊢
  exact ⟨B, hl, fun p hp => absurd hp (Finset.notMem_empty p), exact_nothing ha hf⟩

/-- A block stays one through a request. -/
theorem Effect.mem {start : Pmem} {s s' : Heap} {B B' : Finset U32} {n p : U32} (h : Effect start s B n s' B' p)
    {b : U32} (hb : b ∈ B) : b ∈ B' := by
  cases h with
  | refused => exact hb
  | whole => exact hb
  | split => exact Finset.mem_insert_of_mem hb
  | page => exact Finset.mem_insert_of_mem hb
  | pageSplit => exact Finset.mem_insert_of_mem (Finset.mem_insert_of_mem hb)

theorem balanced_step {start : Pmem} (σ : Books) (op : HeapOp) (σ' : Books) (h : Balanced start σ)
    (hop : FreesInPage σ op) (hs : Books.Step σ op σ') : Balanced start σ' := by
  obtain ⟨B, hl, hdead, hexact⟩ := h
  unfold Books.Exact ck_heap_get_total_allocated ck_heap_get_total_freed at hexact
  cases hs with
  | @malloc fuel n p s' hm =>
    obtain ⟨B', he⟩ := malloc_effect hl.geometry hl.linked hop hm
    obtain ⟨hf, ha⟩ := malloc_totals hl.geometry hl.linked hm
    refine ⟨B', he.layout hl, fun q hq => ?_, ?_⟩
    · obtain ⟨hne, hq⟩ := Finset.mem_erase.1 hq
      obtain ⟨hB, hnot⟩ := hdead q hq
      refine ⟨he.mem hB, fun m hm => ?_⟩
      simp only [addLive] at hm
      split at hm
      · exact hnot m hm
      · rcases List.mem_cons.1 hm with heq | hm
        · exact hne (Prod.mk.inj heq).1
        · exact hnot m hm
    · unfold Books.Exact ck_heap_get_total_allocated ck_heap_get_total_freed
      rw [hf, ha, liveBytes_addLive, ← hexact]
      grind
  | freeNull => exact ⟨B, hl, hdead, hexact⟩
  | @freeLive p n hp =>
    obtain ⟨hB, hnf, hsz⟩ := hl.owned.block _ hp
    have hp0 : p ≠ 0#32 := by
      have h0 := hl.geometry.pointer_ne_zero hB
      rwa [sub_header_add] at h0
    obtain ⟨ha, hf⟩ := free_totals hp0 hnf
    have hfit := hop n hp
    refine ⟨B, hl.free hp (by simp only at hsz; omega), fun q hq => ?_, ?_⟩
    · rcases Finset.mem_insert.1 hq with rfl | hq
      · exact ⟨hB, fun m hm => (hl.owned.ne_of_mem_erase hp hm).2 rfl⟩
      · exact ⟨(hdead q hq).1, fun m hm => (hdead q hq).2 m (List.mem_of_mem_erase hm)⟩
    · unfold Books.Exact ck_heap_get_total_allocated ck_heap_get_total_freed
      rw [liveBytes_erase hp] at hexact
      rw [ha, hf, hl.owned.header_size hp]
      grind
  | @freeDead p hp =>
    obtain ⟨hB, hnot⟩ := hdead p hp
    -- Not live, so free: the header says so, and `ck_free` returns at once.
    have hfree : σ.heap.IsFree (p - CK_HEAP_HEADER_SIZE) := by
      by_contra hnf
      obtain ⟨n, hn⟩ := hl.owned.live _ hB hnf
      rw [sub_header_add] at hn
      exact hnot n hn
    rw [free_of_free hfree]
    exact ⟨B, hl, hdead, hexact⟩

/-- The statistics are those of the live allocations in every state reached by
requests that leave room for headers and by freeing blocks that fit in a page. -/
theorem statistics_exact (h₀ : Heap) (σ : Books) (h : Reaches Books.Step FreesInPage (.start h₀) σ) : σ.Exact := by
  obtain ⟨B, -, -, hexact⟩ := h.inv (Balanced h₀.pmem) (balanced_start h₀) balanced_step
  exact hexact

/-- A block is freed, freed again, and a null pointer is freed; then the rest behind the block is used. -/
theorem statistics_exact_freeing : ∃ σ₁ σ₂ σ₃ σ₄ σ₅ σ₆ : Books, Books.Step (.start boot) (.malloc 4084#32) σ₁ ∧
    Books.Step σ₁ (.malloc 100#32) σ₂ ∧ Books.Step σ₂ (.free 0x18100C#32) σ₃ ∧ Books.Step σ₃ (.free 0x18100C#32) σ₄ ∧
    Books.Step σ₄ (.free 0#32) σ₅ ∧ Books.Step σ₅ (.malloc 200#32) σ₆ ∧
    Reaches Books.Step FreesInPage (.start boot) σ₆ ∧
    σ₆.live = [(0x18107C#32, 200#32), (0x18000C#32, 4084#32)] ∧ σ₆.Exact := by
  obtain ⟨s₁, hm₁, ⟨hsplit₁, -⟩, hwhole⟩ := boot_start.malloc_all
  obtain ⟨fuel, s₂, hm₂, hsplit₂, hcut⟩ := hwhole.malloc
  have hcut₃ := hcut.free
  obtain ⟨s₆, hm₆, hsplit₆, -⟩ := hcut₃.malloc
  have hsame : ck_free (ck_free s₂ 0x18100C#32) 0x18100C#32 = ck_free s₂ 0x18100C#32 :=
    free_of_free (congrArg HeapHeader.allocated hcut₃.block)
  have h₁ : Books.Step (.start boot) (.malloc 4084#32) ⟨s₁, [(0x18000C#32, 4084#32)], ∅⟩ := .served hm₁ (by decide)
  have h₂ : Books.Step ⟨s₁, [(0x18000C#32, 4084#32)], ∅⟩ (.malloc 100#32)
      ⟨s₂, [(0x18100C#32, 100#32), (0x18000C#32, 4084#32)], ∅⟩ := .served hm₂ (by decide)
  have h₃ : Books.Step ⟨s₂, [(0x18100C#32, 100#32), (0x18000C#32, 4084#32)], ∅⟩ (.free 0x18100C#32)
      ⟨ck_free s₂ 0x18100C#32, [(0x18000C#32, 4084#32)], {0x18100C#32}⟩ :=
    .freeLive (show (0x18100C#32, 100#32) ∈ _ from List.mem_cons_self ..)
  have h₄ : Books.Step ⟨ck_free s₂ 0x18100C#32, [(0x18000C#32, 4084#32)], {0x18100C#32}⟩ (.free 0x18100C#32)
      ⟨ck_free (ck_free s₂ 0x18100C#32) 0x18100C#32, [(0x18000C#32, 4084#32)], {0x18100C#32}⟩ :=
    .freeDead (Finset.mem_singleton_self _)
  rw [hsame] at h₄
  have h₅ : Books.Step ⟨ck_free s₂ 0x18100C#32, [(0x18000C#32, 4084#32)], {0x18100C#32}⟩ (.free 0#32)
      ⟨ck_free s₂ 0x18100C#32, [(0x18000C#32, 4084#32)], {0x18100C#32}⟩ := .freeNull
  have h₆ : Books.Step ⟨ck_free s₂ 0x18100C#32, [(0x18000C#32, 4084#32)], {0x18100C#32}⟩ (.malloc 200#32)
      ⟨s₆, [(0x18107C#32, 200#32), (0x18000C#32, 4084#32)], _⟩ := .served hm₆ (by decide)
  have hmay₁ : FreesInPage (.start boot) (.malloc 4084#32) := fun _ => hsplit₁
  have hmay₂ : FreesInPage ⟨s₁, [(0x18000C#32, 4084#32)], ∅⟩ (.malloc 100#32) := fun _ => hsplit₂
  have hmay₆ : FreesInPage ⟨ck_free s₂ 0x18100C#32, [(0x18000C#32, 4084#32)], {0x18100C#32}⟩ (.malloc 200#32) :=
    fun _ => hsplit₆
  -- The first `ck_free` is of a live block of 112 bytes, the other two are of none.
  have hlive : FreesInPage ⟨s₂, [(0x18100C#32, 100#32), (0x18000C#32, 4084#32)], ∅⟩ (.free 0x18100C#32) := by
    intro n hn
    obtain rfl : n = 100#32 := by simpa using hn
    decide
  have hdead : ∀ p, p ≠ 0x18000C#32 →
      FreesInPage ⟨ck_free s₂ 0x18100C#32, [(0x18000C#32, 4084#32)], {0x18100C#32}⟩ (.free p) := by
    intro p hp n hn
    exact absurd (congrArg Prod.fst (List.mem_singleton.1 hn)) hp
  have hrun := (((((Reaches.init.step hmay₁ h₁).step hmay₂ h₂).step hlive h₃).step (hdead _ (by decide)) h₄).step
    (hdead _ (by decide)) h₅).step hmay₆ h₆
  exact ⟨_, _, _, _, _, _, h₁, h₂, h₃, h₄, h₅, h₆, hrun, rfl, statistics_exact boot _ hrun⟩

/-! ## A remainder over a header -/

/-- Two blocks of 100 bytes, the first one also the head of the list. -/
structure TwoBlocks (s : Heap) (allocated : U8) (next freed : U32) : Prop where
  head : s.freelist = 0x180000#32
  first : header s.mem 0x180000#32 = ⟨112, allocated, next⟩
  second : header s.mem 0x180070#32 = ⟨112, 1, 0x1800E0#32⟩
  total_allocated : s.total_allocated = 224
  total_freed : s.total_freed = freed

/-- A second request after `boot_malloc`. -/
theorem second_malloc {s : Heap} (hf : s.freelist = 0x180000#32) (h1 : header s.mem 0x180000#32 = ⟨112, 1, 0x180070#32⟩)
    (h2 : header s.mem 0x180070#32 = ⟨3984, 0, 0⟩) (ha : s.total_allocated = 112) (hfr : s.total_freed = 0) :
    ∃ s', ck_malloc 2 s 100#32 = some (s', 0x18007C#32) ∧ TwoBlocks s' 1 0x180070#32 0 := by
  have hno : ¬ suitable s.mem (100#32 + CK_HEAP_HEADER_SIZE) 0x180000#32 = true := by rw [suitable, h1]; decide
  have hyes : suitable s.mem (100#32 + CK_HEAP_HEADER_SIZE) 0x180070#32 = true := by rw [suitable, h2]; decide
  have hnext : s.next 0x180000#32 = 0x180070#32 := by rw [next, h1]
  have hm := (serves_second hf (by decide) hnext (by decide) (by decide) hno hyes).2 0
  obtain ⟨hsame, hhead, -⟩ := take_split s (100#32 + CK_HEAP_HEADER_SIZE) 0x180070#32 (by decide)
    (by rw [h2]; decide) (by rw [h2]; decide)
  have hfirst : header (ck_malloc_take s (100#32 + CK_HEAP_HEADER_SIZE) 0x180070#32).1.mem 0x180000#32 = _ :=
    header_of_apart hsame (by rw [h2]; decide) (by decide) (by rw [h2]; decide)
      (.inr (by decide))
  refine ⟨_, hm, ⟨hf, hfirst.trans h1, hhead, ?_, hfr⟩⟩
  show s.total_allocated + _ = _
  rw [ha]
  rfl

theorem boot_two : ∃ s₁ s₂, ck_malloc 1 (ck_heap_init boot) 100#32 = some (s₁, 0x18000C#32) ∧
    s₁.freelist = 0x180000#32 ∧ header s₁.mem 0x180000#32 = ⟨112, 1, 0x180070#32⟩ ∧
    header s₁.mem 0x180070#32 = ⟨3984, 0, 0⟩ ∧ ck_malloc 2 s₁ 100#32 = some (s₂, 0x18007C#32) ∧
    TwoBlocks s₂ 1 0x180070#32 0 := by
  obtain ⟨B, hlayout, -⟩ := init_layout boot
  obtain ⟨ha₀, hf₀⟩ := init_totals boot
  obtain ⟨s₁, hm₁, hhead, -, hfirst, hrest⟩ := boot_start.malloc
  obtain ⟨hf₁, ha₁⟩ := malloc_totals hlayout.geometry hlayout.linked hm₁
  obtain ⟨s₂, hm₂, htwo⟩ := second_malloc hhead hfirst hrest (by rw [ha₁, ha₀]; rfl) (by rw [hf₁, hf₀]; rfl)
  exact ⟨s₁, s₂, hm₁, hhead, hfirst, hrest, hm₂, htwo⟩

/-- Freed, the first block links to itself. -/
theorem TwoBlocks.free {s : Heap} (h : TwoBlocks s 1 0x180070#32 0) :
    TwoBlocks (ck_free s 0x18000C#32) 0 0x180000#32 112 := by
  have hsub : 0x18000C#32 - CK_HEAP_HEADER_SIZE = 0x180000#32 := by decide
  have hne : 0x18000C#32 ≠ 0#32 := by decide
  have hnf : (header s.mem (0x18000C#32 - CK_HEAP_HEADER_SIZE)).allocated ≠ 0#8 := by rw [hsub, h.first]; decide
  obtain ⟨hsame, hh, hf⟩ := free_header s hne hnf
  obtain ⟨ha, hfr⟩ := free_totals hne hnf
  rw [hsub] at hsame hh hf hfr
  rw [h.first, h.head] at hh
  have hsecond := header_of_apart (h := 0x180070#32) hsame (by decide) (by decide) (by decide) (by decide)
  refine ⟨hf, hh, hsecond.trans h.second, ha.trans h.total_allocated, ?_⟩
  rw [hfr, h.total_freed, h.first]
  rfl

/-- A request for 96 bytes cuts four bytes off the first block; the remainder's
header clears the second block's `allocated` byte. -/
theorem TwoBlocks.overwrite {s : Heap} (h : TwoBlocks s 0 0x180000#32 112) :
    ∃ s', ck_malloc 1 s 96#32 = some (s', 0x18000C#32) ∧ s'.IsFree 0x180070#32 ∧ s'.total_allocated = 332 ∧
      s'.total_freed = 112 := by
  have hyes : suitable s.mem (96#32 + CK_HEAP_HEADER_SIZE) 0x180000#32 = true := by rw [suitable, h.first]; decide
  have hm := (serves_head (n := 96#32) h.head (by decide) (by decide) hyes).2 0
  obtain ⟨-, -, hrest⟩ := take_cut s (96#32 + CK_HEAP_HEADER_SIZE) 0x180000#32 (by decide) (by rw [h.first]; decide)
    (by decide)
  rw [h.first] at hrest
  refine ⟨_, hm, ?_, ?_, h.total_freed⟩
  · -- The byte is the lowest one of the remainder's link.
    have hlow := load32_low (ck_malloc_take s (96#32 + CK_HEAP_HEADER_SIZE) 0x180000#32).1.mem (0x18006C#32 + 8)
    rw [show load32 _ (0x18006C#32 + 8) = 0x180000#32 from congrArg HeapHeader.next hrest] at hlow
    exact hlow.symm
  · show s.total_allocated + _ = _
    rw [h.total_allocated]
    rfl

/-- Two blocks of 100 bytes, the first freed and used for 96 bytes; freeing the
second then counts nothing. The statistics show 220 bytes in use, and the one
live allocation has 108. -/
theorem statistics_drift : ∃ σ₁ σ₂ σ₃ σ₄ σ₅ : Books, Books.Step (.start boot) (.malloc 100#32) σ₁ ∧
    Books.Step σ₁ (.malloc 100#32) σ₂ ∧ Books.Step σ₂ (.free 0x18000C#32) σ₃ ∧ Books.Step σ₃ (.malloc 96#32) σ₄ ∧
    Books.Step σ₄ (.free 0x18007C#32) σ₅ ∧ σ₅.live = [(0x18000C#32, 96#32)] ∧
    ck_heap_get_total_allocated σ₅.heap - ck_heap_get_total_freed σ₅.heap = 220 ∧ ¬ σ₅.Exact := by
  obtain ⟨s₁, s₂, hm₁, -, -, -, hm₂, htwo⟩ := boot_two
  obtain ⟨s₄, hm₄, hfree, ha₄, hf₄⟩ := htwo.free.overwrite
  have hdiff : s₄.total_allocated - s₄.total_freed = 220 := by rw [ha₄, hf₄]; rfl
  have hsame : ck_free s₄ 0x18007C#32 = s₄ := free_of_free hfree
  refine ⟨_, _, _, _, _, .served hm₁ (by decide), .served hm₂ (by decide),
    .freeLive (show (0x18000C#32, 100#32) ∈ _ by simp), .served hm₄ (by decide),
    .freeLive (show (0x18007C#32, 100#32) ∈ _ by simp [Books.start]), rfl, ?_, fun hexact => ?_⟩
  · rw [hsame]
    exact hdiff
  unfold Books.Exact at hexact
  rw [hsame] at hexact
  have hsum : s₄.total_allocated - s₄.total_freed = 108 := hexact
  rw [hdiff] at hsum
  exact absurd hsum (by decide)

end CheesecakeOS.Heap
