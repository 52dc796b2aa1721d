import CheesecakeOS.Lib.Runs
import CheesecakeOS.Memory.HeapLayout
/-!
# Runs of the heap

`ck_heap_init` followed by any calls of `ck_malloc` and of `ck_free` on live
pointers. A call that never returns has no step. Three properties, each with
the condition on the calls under which it holds in every state reached:

- `live_sound`: live allocations lie in the heap's pages and overlap neither
  each other nor a header;
- `search_ends`: the free list ends, so `ck_malloc` returns;
- `memory_conserved`: live and listed free blocks add up to the heap.

None holds of every run. `ck_heap_expand` adds one page however much was
asked for, a split may leave a remainder too small for its header, and blocks
stay on the list while allocated, so freeing one that is listed links it twice.
-/
open Lib

namespace CheesecakeOS.Heap

/-- The heap and its live allocations: pointer and requested size. -/
structure Sys where
  heap : Heap
  live : List (U32 × U32)

inductive HeapOp where
  | malloc (size : U32)
  | free (ptr : U32)

inductive Step : Sys → HeapOp → Sys → Prop
  | malloc {σ : Sys} {fuel : Nat} {size p : U32} {s' : Heap} : ck_malloc fuel σ.heap size = some (s', p) →
      Step σ (.malloc size) ⟨s', addLive σ.live size p⟩
  | free {σ : Sys} {p size : U32} : (p, size) ∈ σ.live →
      Step σ (.free p) ⟨ck_free σ.heap p, σ.live.erase (p, size)⟩

theorem Step.malloc_live {σ : Sys} {fuel : Nat} {size p : U32} {s' : Heap} {live : List (U32 × U32)}
    (h : ck_malloc fuel σ.heap size = some (s', p)) (hl : addLive σ.live size p = live) :
    Step σ (.malloc size) ⟨s', live⟩ :=
  hl ▸ .malloc h

/-- After `ck_heap_init`, from any earlier state. -/
def Sys.start (h₀ : Heap) : Sys := ⟨ck_heap_init h₀, []⟩

/-- The states reached by calls that `may` allows. -/
abbrev Run (may : Sys → HeapOp → Prop) (h₀ : Heap) : Sys → Prop := Reaches Step may (.start h₀)

/-! ## The heap after boot -/

/-- Zeroed statics and memory, and the page allocator after `ck_pmem_init`. -/
def boot : Heap := ⟨fun _ => 0#8, 0#32, 0#32, 0#32, 0#32, ck_pmem_init .zero⟩

theorem expand_range {s : Heap} {k : Nat} {n : U32} (hmax : ¬ s.heap_size + n > CK_HEAP_MAX_SIZE)
    (h : s.pmem.allocated = Finset.range k) (h0 : 0 < k) (hk : k < 65536) :
    (ck_heap_expand s n).2.toNat = k * 4096 ∧ (ck_heap_expand s n).1.heap_size = s.heap_size + 4096 ∧
      (ck_heap_expand s n).1.pmem.allocated = Finset.range (k + 1) := by
  have hrange := Pmem.alloc_range h hk
  rcases he : ck_pmem_alloc_page s.pmem with ⟨pm, a⟩
  rw [he] at hrange
  obtain ⟨hr, ha⟩ := hrange
  have hne : a ≠ 0#32 := by
    rintro rfl
    simp at hr
    omega
  rw [heap_expand_eq hmax he, if_neg hne]
  exact ⟨hr, rfl, ha⟩

/-- The heap is one free page, number 384. -/
structure OnePage (s : Heap) : Prop where
  head : s.freelist = 0x180000#32
  header : header s.mem 0x180000#32 = ⟨4096, 0, 0⟩
  heap_size : s.heap_size = 4096
  pages : s.pmem.allocated = Finset.range 385

theorem boot_start : OnePage (ck_heap_init boot) := by
  have hinit : boot.pmem.allocated = Finset.range 384 := (Pmem.init_spec .zero).1
  have hx := expand_range (s := boot.cleared) (n := 4096) (k := 384) (by decide) hinit (by decide) (by decide)
  generalize he : ck_heap_expand boot.cleared 4096 = r at hx
  obtain ⟨s₁, a⟩ := r
  obtain ⟨hr, hs, ha⟩ := hx
  obtain rfl : a = 0x180000#32 := BitVec.eq_of_toNat_eq hr
  obtain ⟨hf, hh, hsz, hpm⟩ := init_of_page he (by decide)
  exact ⟨hf, hh, hsz.trans hs, hpm ▸ ha⟩

section OnePage
variable {s : Heap} (h : OnePage s)
include h

theorem OnePage.suitable_iff {total : U32} : suitable s.mem total 0x180000#32 = true ↔ total.toNat ≤ 4096 := by
  rw [Heap.suitable_iff, IsFree, size, h.header]
  simp

/-- `ck_malloc(100)` splits the page. -/
theorem OnePage.malloc : ∃ s', ck_malloc 1 s 100#32 = some (s', 0x18000C#32) ∧ s'.freelist = 0x180000#32 ∧
    s'.heap_size = 4096 ∧ CheesecakeOS.header s'.mem 0x180000#32 = ⟨112, 1, 0x180070#32⟩ ∧
    CheesecakeOS.header s'.mem 0x180070#32 = ⟨3984, 0, 0⟩ := by
  have hsuit : suitable s.mem (100#32 + CK_HEAP_HEADER_SIZE) 0x180000#32 = true := h.suitable_iff.2 (by decide)
  have hh := h.header
  obtain ⟨-, h1, h2⟩ := take_split s (100#32 + CK_HEAP_HEADER_SIZE) 0x180000#32 (by decide)
    (by rw [hh]; decide) (by rw [hh]; decide)
  rw [hh] at h2
  exact ⟨_, (serves_head h.head (by decide) (by decide) hsuit).2 0, h.head, h.heap_size, h1, h2⟩

/-- `ck_malloc(4096)` takes page 385. -/
theorem OnePage.malloc_page : ∃ s', ck_malloc 2 s 4096#32 = some (s', 0x18100C#32) ∧
    s'.pmem.allocated = Finset.range 386 := by
  have hno : ¬ suitable s.mem (4096#32 + CK_HEAP_HEADER_SIZE) 0x180000#32 = true := fun hs =>
    absurd (h.suitable_iff.1 hs) (by decide)
  have hmax : ¬ s.heap_size + (4096#32 + CK_HEAP_HEADER_SIZE) > CK_HEAP_MAX_SIZE := by rw [h.heap_size]; decide
  obtain ⟨hr, -, hpages⟩ := expand_range hmax h.pages (by decide) (by decide)
  have hat : (ck_heap_expand s (4096#32 + CK_HEAP_HEADER_SIZE)).2 = 0x181000#32 := BitVec.eq_of_toNat_eq hr
  obtain ⟨-, -, -, hp⟩ := expand_whole s (by decide) hat (by decide)
  have hfind : Links.find s.next 0#32 (suitable s.mem (4096#32 + CK_HEAP_HEADER_SIZE)) 2 0x180000#32 = some none := by
    simp [Links.find, hno, next, h.header]
  have hpm := (malloc_expand_statics s (4096#32 + CK_HEAP_HEADER_SIZE)).2
  generalize he : ck_malloc_expand s (4096#32 + CK_HEAP_HEADER_SIZE) = r at hp hpm
  obtain ⟨s', p⟩ := r
  obtain rfl : p = 0x18100C#32 := hp.trans (by decide)
  refine ⟨s', ?_, by rw [← hpages, ← hpm]⟩
  rw [malloc_eq (by decide), h.head, hfind, Option.map_some, Option.elim_none, he]

/-- A request that leaves room behind it splits the page cleanly. -/
theorem OnePage.splitsCleanly {n : U32} (h0 : n ≠ 0#32) (hn : n.toNat + 24 ≤ 4096) :
    SplitsCleanly s n ∧ ¬ NeedsPage s n := by
  have hsuit : suitable s.mem (n + CK_HEAP_HEADER_SIZE) 0x180000#32 = true :=
    h.suitable_iff.2 (by rw [total_toNat (by omega)]; omega)
  refine (serves_head h.head (by decide) h0 hsuit).1.splitsCleanly (.inr ?_)
  rw [size, h.header]
  exact hn

end OnePage

theorem boot_malloc : ∃ s', Step (.start boot) (.malloc 100#32) ⟨s', [(0x18000C#32, 100#32)]⟩ ∧
    s'.freelist = 0x180000#32 ∧ s'.heap_size = 4096 ∧ header s'.mem 0x180000#32 = ⟨112, 1, 0x180070#32⟩ ∧
    header s'.mem 0x180070#32 = ⟨3984, 0, 0⟩ := by
  obtain ⟨s', hm, hrest⟩ := boot_start.malloc
  exact ⟨s', .malloc_live hm rfl, hrest⟩

/-- Freeing the block again links it to itself and drops the rest of the page. -/
theorem boot_free : ∃ s₁ s₂, Step (.start boot) (.malloc 100#32) ⟨s₁, [(0x18000C#32, 100#32)]⟩ ∧
    Step ⟨s₁, [(0x18000C#32, 100#32)]⟩ (.free 0x18000C#32) ⟨s₂, []⟩ ∧
    s₂.freelist = 0x180000#32 ∧ s₂.heap_size = 4096 ∧ header s₂.mem 0x180000#32 = ⟨112, 0, 0x180000#32⟩ := by
  obtain ⟨s₁, hstep, hf, hs, hh, -⟩ := boot_malloc
  have hsub : 0x18000C#32 - CK_HEAP_HEADER_SIZE = 0x180000#32 := by decide
  have hne : 0x18000C#32 ≠ 0#32 := by decide
  obtain ⟨-, hh', hf'⟩ := free_header s₁ hne (by rw [hsub, hh]; decide)
  rw [hsub] at hh' hf'
  rw [hf, hh] at hh'
  have hfree := Step.free (σ := ⟨s₁, [(0x18000C#32, 100#32)]⟩) (List.mem_singleton_self _)
  rw [show [(0x18000C#32, 100#32)].erase (0x18000C#32, 100#32) = [] from rfl] at hfree
  exact ⟨s₁, _, hstep, hfree, hf', (free_statics s₁ _).1.trans hs, hh'⟩

/-! ## A page handed out, and another one cut -/

/-- `ck_malloc(4084)` has taken all of the first page. -/
structure WholePage (s : Heap) : Prop where
  head : s.freelist = 0x180000#32
  header : header s.mem 0x180000#32 = ⟨4096, 1, 0⟩
  heap_size : s.heap_size = 4096
  pages : s.pmem.allocated = Finset.range 385

/-- Then a block of 100 bytes at the start of the second page, and the rest of it. -/
structure TwoPages (s : Heap) (head : U32) (block : HeapHeader) : Prop where
  head : s.freelist = head
  whole : header s.mem 0x180000#32 = ⟨4096, 1, 0⟩
  block : header s.mem 0x181000#32 = block
  rest : header s.mem 0x181070#32 = ⟨3984, 0, 0x180000#32⟩

theorem OnePage.malloc_all {s : Heap} (h : OnePage s) : ∃ s', ck_malloc 1 s 4084#32 = some (s', 0x18000C#32) ∧
    (SplitsCleanly s 4084#32 ∧ ¬ NeedsPage s 4084#32) ∧ WholePage s' := by
  have hh := h.header
  have hsuit : suitable s.mem (4084#32 + CK_HEAP_HEADER_SIZE) 0x180000#32 = true := h.suitable_iff.2 (by decide)
  obtain ⟨hfit, hm⟩ := serves_head (n := 4084#32) h.head (by decide) (by decide) hsuit
  obtain ⟨-, hh'⟩ := take_exact s (4084#32 + CK_HEAP_HEADER_SIZE) 0x180000#32 (by rw [hh]; rfl)
  rw [hh] at hh'
  refine ⟨_, hm 0, hfit.splitsCleanly (.inl ?_), h.head, hh', h.heap_size, h.pages⟩
  rw [size, hh]
  rfl

section WholePage
variable {s : Heap} (h : WholePage s)
include h

/-- Its block is the only one on the list. -/
theorem WholePage.each {P : U32 → Prop} (hp : P 0x180000#32) : Links.Each s.next 0#32 P s.freelist := by
  rw [h.head]
  refine .cons (by decide) hp ?_
  rw [next, h.header]
  exact ⟨.nil, fun b hb => absurd rfl hb.ne_nil⟩

theorem WholePage.noFit (total : U32) : s.NoFit total := by
  refine h.each (P := fun b => suitable s.mem total b = false) ?_
  simp [suitable, h.header]

theorem WholePage.malloc : ∃ fuel s', ck_malloc fuel s 100#32 = some (s', 0x18100C#32) ∧ SplitsCleanly s 100#32 ∧
    TwoPages s' 0x181070#32 ⟨112, 1, 0x181070#32⟩ := by
  have hno := h.noFit (100#32 + CK_HEAP_HEADER_SIZE)
  have hmax : ¬ s.heap_size + (100#32 + CK_HEAP_HEADER_SIZE) > CK_HEAP_MAX_SIZE := by
    rw [h.heap_size]
    decide
  obtain ⟨hr, -, -⟩ := expand_range hmax h.pages (by decide) (by decide)
  have hat : (ck_heap_expand s (100#32 + CK_HEAP_HEADER_SIZE)).2 = 0x181000#32 := BitVec.eq_of_toNat_eq hr
  obtain ⟨hs, hblock, hrest, hf, hp⟩ := expand_split s (by decide) (by decide) hat (by decide) (by decide)
  rw [h.head] at hrest
  have hwhole := header_of_apart (h := 0x180000#32) hs (by decide) (by decide) (by decide) (by decide)
  obtain ⟨fuel, hm⟩ := hno.malloc (n := 100#32) (by decide)
  generalize ck_malloc_expand s (100#32 + CK_HEAP_HEADER_SIZE) = r at hm hblock hrest hf hp hwhole
  obtain ⟨s', p⟩ := r
  obtain rfl : p = 0x18100C#32 := hp
  exact ⟨fuel, s', hm, hno.splitsCleanly (by decide) (.inr (by decide)), hf, hwhole.trans h.header, hblock, hrest⟩

end WholePage

section TwoPages
variable {s : Heap} {n : U32}

/-- The block is not on the list: it was cut from a new page. -/
theorem TwoPages.listed (h : TwoPages s 0x181070#32 ⟨112, 1, n⟩) {b : U32} (hb : s.Listed b) :
    b = 0x181070#32 ∨ b = 0x180000#32 := by
  refine Links.On.mem (S := fun b => b = 0x181070#32 ∨ b = 0x180000#32) ?_ (.inr (.inl h.head)) hb
  rintro x (rfl | rfl)
  · exact .inr (.inr (congrArg HeapHeader.next h.rest))
  · exact .inl (congrArg HeapHeader.next h.whole)

theorem TwoPages.free (h : TwoPages s 0x181070#32 ⟨112, 1, n⟩) :
    TwoPages (ck_free s 0x18100C#32) 0x181000#32 ⟨112, 0, 0x181070#32⟩ := by
  have hsub : 0x18100C#32 - CK_HEAP_HEADER_SIZE = 0x181000#32 := by decide
  have hne : 0x18100C#32 ≠ 0#32 := by decide
  obtain ⟨hs, hh, hf⟩ := free_header s hne (by simp [hsub, h.block])
  rw [hsub] at hs hh hf
  rw [h.block, h.head] at hh
  have hwhole := header_of_apart (h := 0x180000#32) hs (by decide) (by decide) (by decide) (by decide)
  have hrest := header_of_apart (h := 0x181070#32) hs (by decide) (by decide) (by decide) (by decide)
  exact ⟨hf, hwhole.trans h.whole, hh, hrest.trans h.rest⟩

/-- The free block does not serve 200 bytes, and the rest behind it does. -/
theorem TwoPages.malloc (h : TwoPages s 0x181000#32 ⟨112, 0, 0x181070#32⟩) :
    ∃ s', ck_malloc 2 s 200#32 = some (s', 0x18107C#32) ∧ SplitsCleanly s 200#32 ∧ ¬ NeedsPage s 200#32 := by
  have hno : ¬ suitable s.mem (200#32 + CK_HEAP_HEADER_SIZE) 0x181000#32 = true := by rw [suitable, h.block]; decide
  have hyes : suitable s.mem (200#32 + CK_HEAP_HEADER_SIZE) 0x181070#32 = true := by rw [suitable, h.rest]; decide
  have hnext : s.next 0x181000#32 = 0x181070#32 := by rw [next, h.block]
  obtain ⟨hfit, hm⟩ := serves_second h.head (by decide) hnext (by decide) (by decide) hno hyes
  refine ⟨_, hm 0, hfit.splitsCleanly (.inr ?_)⟩
  rw [size, h.rest]
  decide

end TwoPages

/-- Four calls after boot, one of them of `ck_free`, and what they find. -/
structure Freeing (s₁ s₂ s₃ s₄ : Heap) : Prop where
  first : Step (.start boot) (.malloc 4084#32) ⟨s₁, [(0x18000C#32, 4084#32)]⟩
  second : Step ⟨s₁, [(0x18000C#32, 4084#32)]⟩ (.malloc 100#32) ⟨s₂, [(0x18100C#32, 100#32), (0x18000C#32, 4084#32)]⟩
  free : Step ⟨s₂, [(0x18100C#32, 100#32), (0x18000C#32, 4084#32)]⟩ (.free 0x18100C#32) ⟨s₃, [(0x18000C#32, 4084#32)]⟩
  third : Step ⟨s₃, [(0x18000C#32, 4084#32)]⟩ (.malloc 200#32) ⟨s₄, [(0x18107C#32, 200#32), (0x18000C#32, 4084#32)]⟩
  splits : SplitsCleanly (ck_heap_init boot) 4084#32 ∧ SplitsCleanly s₁ 100#32 ∧ SplitsCleanly s₃ 200#32
  needs : ¬ NeedsPage (ck_heap_init boot) 4084#32 ∧ ¬ NeedsPage s₃ 200#32
  cut : TwoPages s₂ 0x181070#32 ⟨112, 1, 0x181070#32⟩

theorem boot_freeing : ∃ s₁ s₂ s₃ s₄, Freeing s₁ s₂ s₃ s₄ := by
  obtain ⟨s₁, hm₁, ⟨hsplit₁, hneed₁⟩, hwhole⟩ := boot_start.malloc_all
  obtain ⟨fuel, s₂, hm₂, hsplit₂, hcut⟩ := hwhole.malloc
  obtain ⟨s₄, hm₄, hsplit₄, hneed₄⟩ := hcut.free.malloc
  have hfree : Step ⟨s₂, [(0x18100C#32, 100#32), (0x18000C#32, 4084#32)]⟩ (.free 0x18100C#32)
      ⟨ck_free s₂ 0x18100C#32, [(0x18000C#32, 4084#32)]⟩ :=
    .free (show (0x18100C#32, 100#32) ∈ _ from List.mem_cons_self ..)
  exact ⟨s₁, s₂, _, s₄, .malloc_live hm₁ rfl, .malloc_live hm₂ rfl, hfree, .malloc_live hm₄ rfl,
    ⟨hsplit₁, hsplit₂, hsplit₄⟩, ⟨hneed₁, hneed₄⟩, hcut⟩

theorem Freeing.run {s₁ s₂ s₃ s₄ : Heap} (h : Freeing s₁ s₂ s₃ s₄) {may : Sys → HeapOp → Prop}
    (h₁ : may (.start boot) (.malloc 4084#32)) (h₂ : may ⟨s₁, [(0x18000C#32, 4084#32)]⟩ (.malloc 100#32))
    (h₃ : may ⟨s₂, [(0x18100C#32, 100#32), (0x18000C#32, 4084#32)]⟩ (.free 0x18100C#32))
    (h₄ : may ⟨s₃, [(0x18000C#32, 4084#32)]⟩ (.malloc 200#32)) :
    Run may boot ⟨s₄, [(0x18107C#32, 200#32), (0x18000C#32, 4084#32)]⟩ :=
  (((Reaches.init.step h₁ h.first).step h₂ h.second).step h₃ h.free).step h₄ h.third

/-! ## Live allocations -/

/-- Byte `x` belongs to the allocation `l`. -/
def Covers (l : U32 × U32) (x : Nat) : Prop := l.1.toNat ≤ x ∧ x < l.1.toNat + l.2.toNat

/-- The blocks of the heap, however one gets at them: at the start of each of
its pages, behind another block of the page, on the free list, or before a
live pointer. -/
inductive HeapBlock (start : Pmem) (σ : Sys) : U32 → Prop
  | first {b : U32} {page : Nat} : page ∈ heapPages start σ.heap.pmem → b.toNat = page * 4096 → HeapBlock start σ b
  | next {b c : U32} : HeapBlock start σ b → b.toNat % 4096 + σ.heap.size b < 4096 →
      c.toNat = b.toNat + σ.heap.size b → HeapBlock start σ c
  | listed {b : U32} : σ.heap.Listed b → HeapBlock start σ b
  | live {l : U32 × U32} : l ∈ σ.live → HeapBlock start σ (l.1 - CK_HEAP_HEADER_SIZE)

/-- Every live allocation lies in pages the heap got, and shares no byte with
another one or with a header. -/
structure Sound (start : Pmem) (σ : Sys) : Prop where
  inside : ∀ l ∈ σ.live, ∀ x, Covers l x → x / 4096 ∈ heapPages start σ.heap.pmem
  apart : σ.live.Pairwise fun l k => ∀ x, ¬ (Covers l x ∧ Covers k x)
  headers : ∀ l ∈ σ.live, ∀ b, HeapBlock start σ b → ∀ x, ¬ (Covers l x ∧ b.toNat ≤ x ∧ x < b.toNat + 12)

/-- The blocks are those of a tiling that the links and the live pointers stay in. -/
theorem HeapBlock.mem {start : Pmem} {σ : Sys} {B : Finset U32} {b : U32} (h : HeapBlock start σ b)
    (ht : Tiling 4096 12 (heapPages start σ.heap.pmem) B BitVec.toNat σ.heap.extent) (hk : Linked σ.heap B)
    (ho : Owned σ.heap σ.live B) : b ∈ B := by
  induction h with
  | @first b page hp hb =>
    obtain ⟨c, hc, he⟩ := ht.first page hp
    rwa [BitVec.eq_of_toNat_eq (hb.trans he.symm)]
  | @next b c _ hlt hc ih =>
    have hext : σ.heap.extent b = σ.heap.size b := Nat.min_eq_left (by omega)
    rcases ht.tile b ih with ⟨p, hp, he⟩ | ⟨d, hd, he⟩
    · have hroom := ht.room b ih
      omega
    · rwa [BitVec.eq_of_toNat_eq (hc.trans (hext ▸ he.symm))]
  | listed hb => exact hk.listed_mem hb
  | live hmem => exact (ho.block _ hmem).1

section Sound
variable {start : Pmem} {σ : Sys} {B : Finset U32} (hsz : ∀ b ∈ B, σ.heap.size b ≤ 4096)
include hsz

theorem extent_eq_size {b : U32} (hb : b ∈ B) : σ.heap.extent b = σ.heap.size b := Nat.min_eq_left (hsz b hb)

variable (hl : Layout start σ.heap σ.live B)
include hl

/-- A live allocation is its block without the header. -/
theorem Layout.pointer {l : U32 × U32} (hmem : l ∈ σ.live) :
    l.1.toNat = (l.1 - CK_HEAP_HEADER_SIZE).toNat + 12 ∧
      σ.heap.extent (l.1 - CK_HEAP_HEADER_SIZE) = l.2.toNat + 12 := by
  obtain ⟨hB, -, hs⟩ := hl.owned.block l hmem
  refine ⟨?_, by rw [extent_eq_size hsz hB, hs]⟩
  have hb := hl.geometry.bounds hB
  have h : (l.1 - CK_HEAP_HEADER_SIZE + CK_HEAP_HEADER_SIZE).toNat = (l.1 - CK_HEAP_HEADER_SIZE).toNat + 12 :=
    toNat_add_of_le (n := 4096) (by omega) (by decide)
  rwa [sub_header_add] at h

theorem Layout.sound : Sound start σ := by
  refine ⟨fun l hmem x hx => ?_, ?_, fun l hmem b hb x hx => ?_⟩
  · obtain ⟨hp, he⟩ := Layout.pointer hsz hl hmem
    obtain ⟨hpage, hfit⟩ := hl.geometry.page (hl.owned.block l hmem).1
    obtain ⟨h1, h2⟩ := hx
    have hdiv : x / 4096 = (l.1 - CK_HEAP_HEADER_SIZE).toNat / 4096 := by omega
    rwa [hdiv]
  · have hne := List.pairwise_map.1 hl.owned.nodup
    refine hne.imp_of_mem fun {l k} hlm hkm hne x hx => ?_
    obtain ⟨hp, he⟩ := Layout.pointer hsz hl hlm
    obtain ⟨hp', he'⟩ := Layout.pointer hsz hl hkm
    have hbne : l.1 - CK_HEAP_HEADER_SIZE ≠ k.1 - CK_HEAP_HEADER_SIZE := fun e => by
      rw [← sub_header_add l.1, e, sub_header_add] at hne
      exact hne rfl
    have hap := hl.geometry.tiling.apart _ (hl.owned.block l hlm).1 _ (hl.owned.block k hkm).1 hbne
    obtain ⟨⟨h1, h2⟩, h3, h4⟩ := hx
    omega
  · obtain ⟨hp, he⟩ := Layout.pointer hsz hl hmem
    have hB := (hl.owned.block l hmem).1
    have hb' := hb.mem hl.geometry.tiling hl.linked hl.owned
    obtain ⟨⟨h1, h2⟩, h3, h4⟩ := hx
    by_cases hbe : b = l.1 - CK_HEAP_HEADER_SIZE
    · rw [hbe] at h3 h4
      omega
    · have hap := hl.geometry.tiling.apart b hb' _ hB hbe
      have hroom := hl.geometry.tiling.room b hb'
      omega

end Sound

/-- A layout whose blocks lie in one page each. -/
def Paged (start : Pmem) (σ : Sys) : Prop :=
  ∃ B, Layout start σ.heap σ.live B ∧ ∀ b ∈ B, σ.heap.size b ≤ 4096

theorem paged_start (h₀ : Heap) : Paged h₀.pmem (.start h₀) := by
  simp only [Paged, Sys.start]
  obtain ⟨B, hl, ⟨rfl, -⟩ | ⟨a, rfl, hh, -, -⟩⟩ := init_layout h₀
  · exact ⟨∅, hl, by simp⟩
  · refine ⟨{a}, hl, fun b hb => ?_⟩
    rw [Finset.mem_singleton.1 hb]
    simp [size, hh]

/-- What a request needs: the block or page it is cut from is used up exactly
or leaves room for a header, and a new page is large enough. -/
def Fits : Sys → HeapOp → Prop
  | σ, .malloc n => n ≠ 0#32 → SplitsCleanly σ.heap n ∧ (NeedsPage σ.heap n → n.toNat + 12 ≤ 4096)
  | _, .free _ => True

theorem paged_step {start : Pmem} (σ : Sys) (op : HeapOp) (σ' : Sys) (h : Paged start σ) (hop : Fits σ op)
    (hs : Step σ op σ') : Paged start σ' := by
  obtain ⟨B, hl, hsz⟩ := h
  cases hs with
  | @malloc fuel n p s' hm =>
    obtain ⟨B', he⟩ := malloc_effect hl.geometry hl.linked (fun h0 => (hop h0).1) hm
    refine ⟨B', he.layout hl, he.size_le hl.geometry (fun hneed => ?_) hsz⟩
    by_cases h0 : n = 0#32
    · rw [h0]; decide
    · exact (hop h0).2 hneed
  | @free p n hp =>
    refine ⟨B, hl.free hp (hsz _ (hl.owned.block _ hp).1), fun b hb => ?_⟩
    rw [(hl.freed hp).size_eq hb]
    exact hsz b hb

/-- Live allocations are sound in every state reached by requests that fit. -/
theorem live_sound (h₀ : Heap) (σ : Sys) (h : Run Fits h₀ σ) : Sound h₀.pmem σ := by
  obtain ⟨B, hl, hsz⟩ := h.inv (Paged h₀.pmem) (paged_start h₀) paged_step
  exact Layout.sound hsz hl

/-- Two allocations in different pages, one of them from the rest behind a block that was freed. -/
theorem live_sound_freeing : ∃ s₁ s₂ s₃ s₄, Freeing s₁ s₂ s₃ s₄ ∧
    Run Fits boot ⟨s₄, [(0x18107C#32, 200#32), (0x18000C#32, 4084#32)]⟩ ∧
    Sound boot.pmem ⟨s₄, [(0x18107C#32, 200#32), (0x18000C#32, 4084#32)]⟩ := by
  obtain ⟨s₁, s₂, s₃, s₄, h⟩ := boot_freeing
  obtain ⟨hsplit₁, hsplit₂, hsplit₄⟩ := h.splits
  obtain ⟨hneed₁, hneed₄⟩ := h.needs
  have hrun : Run Fits boot ⟨s₄, [(0x18107C#32, 200#32), (0x18000C#32, 4084#32)]⟩ :=
    h.run (fun _ => ⟨hsplit₁, fun hneed => absurd hneed hneed₁⟩) (fun _ => ⟨hsplit₂, fun _ => by decide⟩) trivial
      (fun _ => ⟨hsplit₄, fun hneed => absurd hneed hneed₄⟩)
  exact ⟨s₁, s₂, s₃, s₄, h, hrun, live_sound boot _ hrun⟩

/-- A 4096-byte request gets one page, and its last bytes lie on the next. -/
theorem stack_leaves_page : ∃ s', Step (.start boot) (.malloc 4096#32) ⟨s', [(0x18100C#32, 4096#32)]⟩ ∧
    ¬ Sound boot.pmem ⟨s', [(0x18100C#32, 4096#32)]⟩ := by
  obtain ⟨s', hm, hpages⟩ := boot_start.malloc_page
  refine ⟨s', .malloc_live hm rfl, fun hsound => ?_⟩
  have hlast := hsound.inside _ (List.mem_singleton_self _) (0x18100C + 4095) ⟨by decide, by decide⟩
  rw [mem_heapPages, hpages, Finset.mem_range] at hlast
  exact absurd hlast.2.1 (by decide)

/-! ## Termination -/

/-- The free list ends, so every request returns. -/
structure Terminates (s : Heap) : Prop where
  ends : Links.Ends s.next 0#32 s.freelist
  returns : ∀ size, ∃ fuel r, ck_malloc fuel s size = some r

theorem terminates_of_ends {s : Heap} (h : Links.Ends s.next 0#32 s.freelist) : Terminates s := by
  refine ⟨h, fun size => ?_⟩
  by_cases h0 : size = 0#32
  · exact ⟨0, (s, 0#32), by rw [ck_malloc, if_pos h0]⟩
  · obtain ⟨fuel, found, hf⟩ := h.find (p := suitable s.mem (size + CK_HEAP_HEADER_SIZE))
    exact ⟨fuel, _, by rw [malloc_eq h0, hf]; rfl⟩

/-- The list ends; a block that claims more than its page is on it, so it is
not freed. -/
def Ending (start : Pmem) (σ : Sys) : Prop :=
  ∃ B, Layout start σ.heap σ.live B ∧ Links.Ends σ.heap.next 0#32 σ.heap.freelist ∧
    ∀ b ∈ B, 4096 < σ.heap.size b → σ.heap.Listed b

theorem ending_start (h₀ : Heap) : Ending h₀.pmem (.start h₀) := by
  simp only [Ending, Sys.start]
  obtain ⟨B, hl, ⟨rfl, hf⟩ | ⟨a, rfl, hh, hf, ha⟩⟩ := init_layout h₀
  · exact ⟨∅, hl, by rw [hf]; exact .nil, by simp⟩
  · refine ⟨{a}, hl, ?_, fun b hb hlt => ?_⟩
    · rw [hf]
      apply Links.Ends.link ha
      rw [next, hh]
      exact .nil
    · rw [Finset.mem_singleton.1 hb] at hlt
      simp [size, hh] at hlt

/-- What keeps the list ending: requests leave room for headers, and no block
on the list is freed. -/
def FreesUnlisted : Sys → HeapOp → Prop
  | σ, .malloc n => n ≠ 0#32 → SplitsCleanly σ.heap n
  | σ, .free p => ¬ σ.heap.Listed (p - CK_HEAP_HEADER_SIZE)

theorem ending_step {start : Pmem} (σ : Sys) (op : HeapOp) (σ' : Sys) (h : Ending start σ) (hop : FreesUnlisted σ op)
    (hs : Step σ op σ') : Ending start σ' := by
  obtain ⟨B, hl, hend, hbig⟩ := h
  cases hs with
  | @malloc fuel n p s' hm =>
    obtain ⟨B', he⟩ := malloc_effect hl.geometry hl.linked hop hm
    refine ⟨B', he.layout hl, he.ends hl.linked hl.geometry hend, fun b hb hlt => ?_⟩
    rcases he.blocks hl.linked hl.geometry hb with hlist | ⟨-, hle⟩ | ⟨hB, hh⟩
    · exact hlist
    · exact absurd hlt (Nat.not_lt.2 hle)
    · rw [size_congr hh] at hlt
      exact he.listed hl.linked hl.geometry (hbig b hB hlt)
  | @free p n hp =>
    have hB := (hl.owned.block _ hp).1
    have h0 := hl.geometry.ne_zero hB
    have hle : σ.heap.size (p - CK_HEAP_HEADER_SIZE) ≤ 4096 := Nat.not_lt.1 fun hlt => hop (hbig _ hB hlt)
    refine ⟨B, hl.free hp hle, ((hl.freed hp).ends_iff hl.linked h0 hend).2 hop, fun b hb hlt => ?_⟩
    rw [(hl.freed hp).size_eq hb] at hlt
    exact (hl.freed hp).listed hl.linked h0 ((hbig b hb hlt).around hop)

/-- `ck_malloc` returns in every state reached by freeing unlisted blocks. -/
theorem search_ends (h₀ : Heap) (σ : Sys) (h : Run FreesUnlisted h₀ σ) : Terminates σ.heap := by
  obtain ⟨B, -, hend, -⟩ := h.inv (Ending h₀.pmem) (ending_start h₀) ending_step
  exact terminates_of_ends hend

/-- The block that is freed is not on the list, and the list ends. -/
theorem search_ends_freeing : ∃ s₁ s₂ s₃ s₄, Freeing s₁ s₂ s₃ s₄ ∧
    Run FreesUnlisted boot ⟨s₄, [(0x18107C#32, 200#32), (0x18000C#32, 4084#32)]⟩ ∧ Terminates s₄ := by
  obtain ⟨s₁, s₂, s₃, s₄, h⟩ := boot_freeing
  obtain ⟨hsplit₁, hsplit₂, hsplit₄⟩ := h.splits
  have hunlisted : ¬ s₂.Listed (0x18100C#32 - CK_HEAP_HEADER_SIZE) := fun hb => absurd (h.cut.listed hb) (by decide)
  have hrun : Run FreesUnlisted boot ⟨s₄, [(0x18107C#32, 200#32), (0x18000C#32, 4084#32)]⟩ :=
    h.run (fun _ => hsplit₁) (fun _ => hsplit₂) hunlisted (fun _ => hsplit₄)
  exact ⟨s₁, s₂, s₃, s₄, h, hrun, search_ends boot _ hrun⟩

/-- After one `ck_malloc(100)` and its `ck_free`, `ck_malloc(200)` never
returns. -/
theorem free_closes_cycle : ∃ s₁ s₂, Step (.start boot) (.malloc 100#32) ⟨s₁, [(0x18000C#32, 100#32)]⟩ ∧
    Step ⟨s₁, [(0x18000C#32, 100#32)]⟩ (.free 0x18000C#32) ⟨s₂, []⟩ ∧
    ¬ Terminates s₂ ∧ ∀ fuel, ck_malloc fuel s₂ 200#32 = none := by
  obtain ⟨s₁, s₂, h1, h2, hf, -, hh⟩ := boot_free
  have hloop : s₂.next 0x180000#32 = 0x180000#32 := by rw [next, hh]
  have hno : suitable s₂.mem (200#32 + CK_HEAP_HEADER_SIZE) 0x180000#32 = false := by
    rw [suitable, hh]; decide
  have hnever : ∀ fuel, ck_malloc fuel s₂ 200#32 = none := by
    intro fuel
    rw [malloc_eq (by decide), hf, Links.find_self_loop (by decide) hloop hno]
    rfl
  refine ⟨s₁, s₂, h1, h2, fun ht => ?_, hnever⟩
  obtain ⟨fuel, r, hr⟩ := ht.returns 200#32
  rw [hnever fuel] at hr
  cases hr

/-! ## Conservation -/

instance (s : Heap) : DecidablePred s.IsFree := fun b => inferInstanceAs (Decidable ((header s.mem b).allocated = 0#8))

/-- Live blocks and listed free blocks add up to the heap; every free block is
listed and no live one is free. -/
structure Conserved (start : Pmem) (σ : Sys) : Prop where
  total : ∃ F : Finset U32, (∀ b, b ∈ F ↔ σ.heap.Listed b ∧ σ.heap.IsFree b) ∧
    (σ.live.map fun l => σ.heap.size (l.1 - CK_HEAP_HEADER_SIZE)).sum + ∑ b ∈ F, σ.heap.size b =
      σ.heap.heap_size.toNat
  kept : ∀ b, HeapBlock start σ b → σ.heap.IsFree b → σ.heap.Listed b
  once : ∀ l ∈ σ.live, ¬ σ.heap.IsFree (l.1 - CK_HEAP_HEADER_SIZE)

/-- The blocks lie in one page each, and every free one is listed. -/
def Listing (start : Pmem) (σ : Sys) : Prop :=
  ∃ B, Layout start σ.heap σ.live B ∧ (∀ b ∈ B, σ.heap.size b ≤ 4096) ∧ ∀ b ∈ B, σ.heap.IsFree b → σ.heap.Listed b

theorem listing_start (h₀ : Heap) : Listing h₀.pmem (.start h₀) := by
  simp only [Listing, Sys.start]
  obtain ⟨B, hl, ⟨rfl, hf⟩ | ⟨a, rfl, hh, hf, ha⟩⟩ := init_layout h₀
  · exact ⟨∅, hl, by simp, by simp⟩
  · refine ⟨{a}, hl, fun b hb => ?_, fun b hb _ => ?_⟩
    · rw [Finset.mem_singleton.1 hb]
      simp [size, hh]
    · rw [Finset.mem_singleton.1 hb, Listed, hf]
      exact .here ha

/-- What keeps the sum: requests of at most a page that leave room for
headers, and no free block is listed behind a block that is freed. -/
def NoneBehind : Sys → HeapOp → Prop
  | σ, .malloc n => n.toNat + 12 ≤ 4096 ∧ (n ≠ 0#32 → SplitsCleanly σ.heap n)
  | σ, .free p => ∀ b, σ.heap.Listed b → σ.heap.IsFree b →
      Links.Path σ.heap.next 0#32 (· = p - CK_HEAP_HEADER_SIZE) σ.heap.freelist b

theorem listing_step {start : Pmem} (σ : Sys) (op : HeapOp) (σ' : Sys) (h : Listing start σ) (hop : NoneBehind σ op)
    (hs : Step σ op σ') : Listing start σ' := by
  obtain ⟨B, hl, hsz, hlist⟩ := h
  cases hs with
  | @malloc fuel n p s' hm =>
    obtain ⟨B', he⟩ := malloc_effect hl.geometry hl.linked hop.2 hm
    refine ⟨B', he.layout hl, he.size_le hl.geometry (fun _ => hop.1) hsz, fun b hb hfree => ?_⟩
    rcases he.blocks hl.linked hl.geometry hb with hb' | ⟨hnf, -⟩ | ⟨hB, hh⟩
    · exact hb'
    · exact absurd hfree hnf
    · exact he.listed hl.linked hl.geometry (hlist b hB ((isFree_congr hh).1 hfree))
  | @free p n hp =>
    have hB := (hl.owned.block _ hp).1
    have h0 := hl.geometry.ne_zero hB
    have hfr := hl.freed hp
    refine ⟨B, hl.free hp (hsz _ hB), fun b hb => ?_, fun b hb hfree => ?_⟩
    · rw [hfr.size_eq hb]; exact hsz b hb
    · by_cases hbh : b = p - CK_HEAP_HEADER_SIZE
      · subst hbh
        unfold Listed
        rw [hfr.head]
        exact .here h0
      · have hfree' := (isFree_congr (hfr.keeps b hb hbh)).1 hfree
        exact hfr.listed hl.linked h0 (hop b (hlist b hb hfree') hfree')

/-- The sizes of the live blocks. -/
theorem Owned.sum_live {s : Heap} {live : List (U32 × U32)} {B : Finset U32} (ho : Owned s live B) :
    (live.map fun l => s.size (l.1 - CK_HEAP_HEADER_SIZE)).sum = ∑ b ∈ B with ¬ s.IsFree b, s.size b := by
  have hnd : (live.map fun l => l.1 - CK_HEAP_HEADER_SIZE).Nodup := by
    have h := ho.nodup.map (f := fun p => p - CK_HEAP_HEADER_SIZE) fun p q e => by
      rw [← sub_header_add p, ← sub_header_add q]
      exact congrArg (· + CK_HEAP_HEADER_SIZE) e
    rwa [List.map_map] at h
  have hset : (live.map fun l => l.1 - CK_HEAP_HEADER_SIZE).toFinset = B.filter fun b => ¬ s.IsFree b := by
    ext b
    rw [List.mem_toFinset, List.mem_map, Finset.mem_filter]
    constructor
    · rintro ⟨l, hl, rfl⟩
      exact ⟨(ho.block l hl).1, (ho.block l hl).2.1⟩
    · rintro ⟨hB, hf⟩
      obtain ⟨n, hn⟩ := ho.live b hB hf
      exact ⟨_, hn, add_header_sub b⟩
  rw [← hset, List.sum_toFinset _ hnd, List.map_map]
  rfl

theorem Listing.conserved {start : Pmem} {σ : Sys} (h : Listing start σ) : Conserved start σ := by
  obtain ⟨B, hl, hsz, hlist⟩ := h
  refine ⟨⟨B.filter σ.heap.IsFree, fun b => ?_, ?_⟩, fun b hb hf => ?_, fun l hmem => (hl.owned.block l hmem).2.1⟩
  · rw [Finset.mem_filter]
    exact ⟨fun ⟨hB, hf⟩ => ⟨hlist b hB hf, hf⟩, fun ⟨hb, hf⟩ => ⟨hl.linked.listed_mem hb, hf⟩⟩
  · have hsum := hl.geometry.tiling.total
    rw [← hl.geometry.total, Finset.sum_congr rfl fun b hb => extent_eq_size hsz hb] at hsum
    rw [hl.owned.sum_live, Nat.add_comm, Finset.sum_filter_add_sum_filter_not]
    exact hsum
  · exact hlist b (hb.mem hl.geometry.tiling hl.linked hl.owned) hf

/-- Heap memory is conserved in every state reached by frees that drop no free
block from the list. -/
theorem memory_conserved (h₀ : Heap) (σ : Sys) (h : Run NoneBehind h₀ σ) : Conserved h₀.pmem σ :=
  (h.inv (Listing h₀.pmem) (listing_start h₀) listing_step).conserved

/-- A block is freed that is not on the list, in front of the free rest of its page. -/
theorem memory_conserved_freeing : ∃ s₁ s₂ s₃ s₄, Freeing s₁ s₂ s₃ s₄ ∧
    Run NoneBehind boot ⟨s₄, [(0x18107C#32, 200#32), (0x18000C#32, 4084#32)]⟩ ∧
    Conserved boot.pmem ⟨s₄, [(0x18107C#32, 200#32), (0x18000C#32, 4084#32)]⟩ := by
  obtain ⟨s₁, s₂, s₃, s₄, h⟩ := boot_freeing
  obtain ⟨hsplit₁, hsplit₂, hsplit₄⟩ := h.splits
  have hunlisted : ¬ s₂.Listed (0x18100C#32 - CK_HEAP_HEADER_SIZE) := fun hb => absurd (h.cut.listed hb) (by decide)
  have hrun : Run NoneBehind boot ⟨s₄, [(0x18107C#32, 200#32), (0x18000C#32, 4084#32)]⟩ :=
    h.run ⟨by decide, fun _ => hsplit₁⟩ ⟨by decide, fun _ => hsplit₂⟩ (fun _ hb _ => Links.On.around hb hunlisted)
      ⟨by decide, fun _ => hsplit₄⟩
  exact ⟨s₁, s₂, s₃, s₄, h, hrun, memory_conserved boot _ hrun⟩

/-- After one `ck_malloc(100)` and its `ck_free`, 112 of the 4096 bytes are on
the list. -/
theorem free_loses_remainder : ∃ s₁ s₂, Step (.start boot) (.malloc 100#32) ⟨s₁, [(0x18000C#32, 100#32)]⟩ ∧
    Step ⟨s₁, [(0x18000C#32, 100#32)]⟩ (.free 0x18000C#32) ⟨s₂, []⟩ ∧ ¬ Conserved boot.pmem ⟨s₂, []⟩ := by
  obtain ⟨s₁, s₂, h1, h2, hf, hs, hh⟩ := boot_free
  refine ⟨s₁, s₂, h1, h2, fun hc => ?_⟩
  obtain ⟨F, hF, hsum⟩ := hc.total
  have honly : F = {0x180000#32} := by
    refine Finset.eq_singleton_iff_unique_mem.2 ⟨(hF _).2 ⟨?_, ?_⟩, fun b hb => ?_⟩
    · rw [Listed, hf]
      exact .here (by decide)
    · simp only [IsFree, hh]; rfl
    · refine Links.On.mem (S := (· = 0x180000#32)) (fun x hx => ?_) (.inr hf) ((hF b).1 hb).1
      right
      rw [hx, next, hh]
  rw [honly, Finset.sum_singleton, hs, size, hh] at hsum
  simp at hsum

end CheesecakeOS.Heap
