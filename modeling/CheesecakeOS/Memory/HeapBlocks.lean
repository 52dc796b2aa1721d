import CheesecakeOS.Lib.Tiling
import CheesecakeOS.Memory.Heap
/-!
# The blocks of the heap

Above the bytes the heap is a set of blocks. `Geometry` says they tile the
pages taken so far, `Linked` that every link leads to a block, `Owned` that the
live pointers are exactly the allocated blocks. `Effect` lists all that a call
of `ck_malloc` can do to the blocks when the request leaves room for the
headers it writes (`malloc_effect`); the three invariants are then case
analyses over it.

A request above one page still gets one page (`ck_heap_expand` adds exactly
one), so a block may claim more bytes than it has: `extent` is the part that is
really its own.
-/
open Lib

namespace CheesecakeOS.Heap

section Views
variable (s : Heap)

def next (b : U32) : U32 := (header s.mem b).next
def size (b : U32) : Nat := (header s.mem b).size.toNat
def IsFree (b : U32) : Prop := (header s.mem b).allocated = 0#8

/-- The bytes of its page that a block has. -/
def extent (b : U32) : Nat := min (s.size b) 4096

/-- `b` is reached from `ck_heap_freelist`. -/
def Listed (b : U32) : Prop := Links.On s.next 0#32 s.freelist b

/-- `b` is the first block on the list that serves `total` bytes. -/
def FirstFit (total b : U32) : Prop :=
  Links.Path s.next 0#32 (fun x => suitable s.mem total x = true) s.freelist b ∧ suitable s.mem total b = true

/-- The list ends and no block on it serves `total` bytes. -/
def NoFit (total : U32) : Prop :=
  Links.Ends s.next 0#32 s.freelist ∧ ∀ b, s.Listed b → suitable s.mem total b = false

end Views

theorem suitable_iff {s : Heap} {total b : U32} :
    suitable s.mem total b = true ↔ s.IsFree b ∧ total.toNat ≤ s.size b := by
  simp [suitable, IsFree, size, BitVec.le_def]

/-- A request is the search, then one of two ways on. -/
theorem malloc_eq {fuel : Nat} {s : Heap} {n : U32} (h0 : n ≠ 0#32) : ck_malloc fuel s n =
    (Links.find s.next 0#32 (suitable s.mem (n + CK_HEAP_HEADER_SIZE)) fuel s.freelist).map fun found =>
      found.elim (ck_malloc_expand s (n + CK_HEAP_HEADER_SIZE)) (ck_malloc_take s (n + CK_HEAP_HEADER_SIZE)) := by
  have hn : s.next = fun h => (header s.mem h).next := rfl
  simp only [ck_malloc, if_neg h0]
  rw [hn]
  cases Links.find (fun h => (header s.mem h).next) 0#32 (suitable s.mem (n + CK_HEAP_HEADER_SIZE)) fuel
    s.freelist with
  | none => rfl
  | some found => cases found <;> rfl

/-- A request served by the block the search finds. -/
theorem malloc_take {fuel : Nat} {s : Heap} {n c : U32} (h0 : n ≠ 0#32)
    (hf : Links.find s.next 0#32 (suitable s.mem (n + CK_HEAP_HEADER_SIZE)) fuel s.freelist = some (some c)) :
    ck_malloc fuel s n = some ((ck_malloc_take s (n + CK_HEAP_HEADER_SIZE) c).1, c + CK_HEAP_HEADER_SIZE) := by
  rw [malloc_eq h0, hf]
  rfl

theorem malloc_mono {s : Heap} {n : U32} {r : Heap × U32} {fuel fuel' : Nat} (hle : fuel ≤ fuel')
    (h : ck_malloc fuel s n = some r) : ck_malloc fuel' s n = some r := by
  by_cases h0 : n = 0#32
  · rw [ck_malloc, if_pos h0] at h ⊢
    exact h
  · rw [malloc_eq h0, Option.map_eq_some_iff] at h ⊢
    obtain ⟨found, hf, hr⟩ := h
    exact ⟨found, Links.find_mono hle hf, hr⟩

/-- Which way a call goes, by the first-fit search. -/
theorem malloc_paths {fuel : Nat} {s s' : Heap} {n p : U32} (h : ck_malloc fuel s n = some (s', p)) :
    (n = 0#32 ∧ s' = s ∧ p = 0#32) ∨
    (n ≠ 0#32 ∧ ∃ c, s.FirstFit (n + CK_HEAP_HEADER_SIZE) c ∧
      (s', p) = ck_malloc_take s (n + CK_HEAP_HEADER_SIZE) c) ∨
    (n ≠ 0#32 ∧ s.NoFit (n + CK_HEAP_HEADER_SIZE) ∧ (s', p) = ck_malloc_expand s (n + CK_HEAP_HEADER_SIZE)) := by
  by_cases h0 : n = 0#32
  · rw [ck_malloc, if_pos h0, Option.some.injEq, Prod.mk.injEq] at h
    exact .inl ⟨h0, h.1.symm, h.2.symm⟩
  · right
    rw [malloc_eq h0, Option.map_eq_some_iff] at h
    obtain ⟨found, hf, hr⟩ := h
    rcases Links.find_spec hf with ⟨c, rfl, hpath, hc⟩ | ⟨rfl, hend, hno⟩
    · exact .inl ⟨h0, c, ⟨hpath, hc⟩, hr.symm⟩
    · exact .inr ⟨h0, ⟨hend, hno⟩, hr.symm⟩

section Fit
variable {s : Heap} {total b c n : U32}

theorem FirstFit.unique (h : s.FirstFit total b) (h' : s.FirstFit total c) : b = c := h.1.first_unique h.2 h'.1 h'.2

theorem NoFit.not_firstFit (h : s.NoFit total) : ¬ s.FirstFit total c := fun hc => by
  have hno := h.2 c hc.1.on
  rw [hc.2] at hno
  cases hno

/-- A request for which there is a block takes it. -/
theorem FirstFit.malloc (h : s.FirstFit (n + CK_HEAP_HEADER_SIZE) c) (h0 : n ≠ 0#32) :
    ∃ fuel, ck_malloc fuel s n = some (ck_malloc_take s (n + CK_HEAP_HEADER_SIZE) c) := by
  obtain ⟨fuel, hf⟩ := h.1.find h.2
  exact ⟨fuel, by rw [malloc_eq h0, hf]; rfl⟩

/-- A request for which there is none asks for a page. -/
theorem NoFit.malloc (h : s.NoFit (n + CK_HEAP_HEADER_SIZE)) (h0 : n ≠ 0#32) :
    ∃ fuel, ck_malloc fuel s n = some (ck_malloc_expand s (n + CK_HEAP_HEADER_SIZE)) := by
  obtain ⟨fuel, found, hf⟩ := h.1.find (p := suitable s.mem (n + CK_HEAP_HEADER_SIZE))
  rcases Links.find_spec hf with ⟨c, -, hpath, hc⟩ | ⟨rfl, -, -⟩
  · exact absurd ⟨hpath, hc⟩ h.not_firstFit
  · exact ⟨fuel, by rw [malloc_eq h0, hf]; rfl⟩

/-- The head of the list serves a request. -/
theorem serves_head (hf : s.freelist = b) (hb : b ≠ 0#32) (h0 : n ≠ 0#32)
    (hs : suitable s.mem (n + CK_HEAP_HEADER_SIZE) b = true) : s.FirstFit (n + CK_HEAP_HEADER_SIZE) b ∧
      ∀ k, ck_malloc (k + 1) s n =
        some ((ck_malloc_take s (n + CK_HEAP_HEADER_SIZE) b).1, b + CK_HEAP_HEADER_SIZE) := by
  refine ⟨⟨?_, hs⟩, fun k => malloc_take h0 ?_⟩
  · rw [hf]
    exact .here hb
  · rw [hf, Links.find, if_neg hb, if_pos hs]

/-- The block behind the head does. -/
theorem serves_second (hf : s.freelist = b) (hb : b ≠ 0#32) (hnext : s.next b = c) (hc : c ≠ 0#32) (h0 : n ≠ 0#32)
    (hno : ¬ suitable s.mem (n + CK_HEAP_HEADER_SIZE) b = true)
    (hs : suitable s.mem (n + CK_HEAP_HEADER_SIZE) c = true) : s.FirstFit (n + CK_HEAP_HEADER_SIZE) c ∧
      ∀ k, ck_malloc (k + 2) s n =
        some ((ck_malloc_take s (n + CK_HEAP_HEADER_SIZE) c).1, c + CK_HEAP_HEADER_SIZE) := by
  refine ⟨⟨?_, hs⟩, fun k => malloc_take h0 ?_⟩
  · rw [hf]
    refine .link hb hno ?_
    rw [hnext]
    exact .here hc
  · rw [hf, Links.find, if_neg hb, if_neg hno, hnext, Links.find, if_neg hc, if_pos hs]

end Fit

/-! ## Invariants -/

/-- The blocks tile the pages taken since `start`, which `heap_size` counts; a
free block lies in one. -/
structure Geometry (start : Pmem) (s : Heap) (B : Finset U32) : Prop where
  base : start.allocated ⊆ s.pmem.allocated
  total : s.heap_size.toNat = (heapPages start s.pmem).card * 4096
  tiling : Tiling 4096 12 (heapPages start s.pmem) B BitVec.toNat s.extent
  small : ∀ b ∈ B, s.IsFree b → s.size b ≤ 4096

/-- The list and every link stay among the blocks. -/
structure Linked (s : Heap) (B : Finset U32) : Prop where
  head : s.freelist = 0#32 ∨ s.freelist ∈ B
  next : ∀ b ∈ B, s.next b = 0#32 ∨ s.next b ∈ B

/-- The live pointers (with their requests) are the allocated blocks. -/
structure Owned (s : Heap) (live : List (U32 × U32)) (B : Finset U32) : Prop where
  nodup : (live.map Prod.fst).Nodup
  block : ∀ l ∈ live, l.1 - CK_HEAP_HEADER_SIZE ∈ B ∧ ¬ s.IsFree (l.1 - CK_HEAP_HEADER_SIZE) ∧
    s.size (l.1 - CK_HEAP_HEADER_SIZE) = l.2.toNat + 12
  live : ∀ b ∈ B, ¬ s.IsFree b → ∃ n, (b + CK_HEAP_HEADER_SIZE, n) ∈ live

theorem heapPages_lt {start now : Pmem} {p : Nat} (h : p ∈ heapPages start now) : p < 65536 ∧ p ≠ 0 :=
  ⟨(Pmem.mem_allocated.1 (mem_heapPages.1 h).2.1).1, (mem_heapPages.1 h).1⟩

section Geometry
variable {start : Pmem} {s : Heap} {B : Finset U32} (h : Geometry start s B) {b : U32} (hb : b ∈ B)
include h hb

theorem Geometry.page : b.toNat / 4096 ∈ heapPages start s.pmem ∧ b.toNat % 4096 + s.extent b ≤ 4096 := by
  obtain ⟨p, hp, h1, h2⟩ := h.tiling.page b hb
  have hr := h.tiling.room b hb
  have hdiv : b.toNat / 4096 = p := by omega
  exact ⟨hdiv ▸ hp, by omega⟩

theorem Geometry.bounds : 4096 ≤ b.toNat ∧ b.toNat + s.extent b ≤ 2 ^ 28 := by
  obtain ⟨hp, hf⟩ := h.page hb
  have hlt := heapPages_lt hp
  omega

theorem Geometry.ne_zero : b ≠ 0#32 := by
  rintro rfl
  have := (h.bounds hb).1
  simp at this

theorem Geometry.extent_of_free (hf : s.IsFree b) : s.extent b = s.size b :=
  Nat.min_eq_left (h.small b hb hf)

end Geometry

theorem Linked.listed_mem {s : Heap} {B : Finset U32} (h : Linked s B) {b : U32} (hb : s.Listed b) : b ∈ B :=
  Links.On.mem (S := (· ∈ B)) h.next h.head hb

/-! ## What `ck_malloc` can do -/

/-- A call of `ck_malloc(n)` takes a new page. -/
def NeedsPage (s : Heap) (n : U32) : Prop := s.NoFit (n + CK_HEAP_HEADER_SIZE) ∧ CanExpand s (n + CK_HEAP_HEADER_SIZE)

/-- The request leaves room for the headers the call writes: what remains of
the block or the page it is cut from is nothing or at least a header, and the
request with its header is a 32-bit number. A request of a page or more takes
a page of its own. -/
def SplitsCleanly (s : Heap) (n : U32) : Prop :=
  (∀ c, s.FirstFit (n + CK_HEAP_HEADER_SIZE) c → n.toNat + 12 = s.size c ∨ n.toNat + 24 ≤ s.size c) ∧
  (NeedsPage s n → n.toNat + 12 < 2 ^ 32 ∧ (4096 ≤ n.toNat + 12 ∨ n.toNat + 24 ≤ 4096))

theorem FirstFit.splitsCleanly {s : Heap} {n b : U32} (h : s.FirstFit (n + CK_HEAP_HEADER_SIZE) b)
    (hroom : n.toNat + 12 = s.size b ∨ n.toNat + 24 ≤ s.size b) : SplitsCleanly s n ∧ ¬ NeedsPage s n := by
  have hneed : ¬ NeedsPage s n := fun hneed => hneed.1.not_firstFit h
  exact ⟨⟨fun c hc => h.unique hc ▸ hroom, fun hneed' => absurd hneed' hneed⟩, hneed⟩

theorem NoFit.splitsCleanly {s : Heap} {n : U32} (h : s.NoFit (n + CK_HEAP_HEADER_SIZE)) (hn : n.toNat + 12 < 2 ^ 32)
    (hroom : 4096 ≤ n.toNat + 12 ∨ n.toNat + 24 ≤ 4096) : SplitsCleanly s n :=
  ⟨fun _ hc => absurd hc h.not_firstFit, fun _ => ⟨hn, hroom⟩⟩

/-- The headers of `B` are as before, that of `c` apart. -/
def Keeps (s s' : Heap) (B : Finset U32) (c : U32) : Prop := ∀ b ∈ B, b ≠ c → header s'.mem b = header s.mem b

/-- Nothing but memory and the statistics changed. -/
def SameList (s s' : Heap) : Prop := s'.freelist = s.freelist ∧ s'.heap_size = s.heap_size ∧ s'.pmem = s.pmem

/-- One more page, number `page`. -/
def Grown (start : Pmem) (s s' : Heap) (page : Nat) : Prop :=
  page ∉ heapPages start s.pmem ∧ s'.heap_size = s.heap_size + 4096 ∧ start.allocated ⊆ s'.pmem.allocated ∧
    heapPages start s'.pmem = insert page (heapPages start s.pmem)

/-- What a call of `ck_malloc(n)` does to the blocks `B`: the heap and the
blocks after it, and the pointer returned. -/
inductive Effect (start : Pmem) (s : Heap) (B : Finset U32) (n : U32) : Heap → Finset U32 → U32 → Prop
  | refused {s' : Heap} : s'.mem = s.mem → s'.freelist = s.freelist → s'.heap_size = s.heap_size →
      start.allocated ⊆ s'.pmem.allocated → heapPages start s'.pmem = heapPages start s.pmem →
      Effect start s B n s' B 0#32
  | whole {s' : Heap} {c : U32} : c ∈ B → s.IsFree c → s.Listed c → s.size c = n.toNat + 12 →
      header s'.mem c = { header s.mem c with allocated := 1 } → Keeps s s' B c → SameList s s' →
      Effect start s B n s' B (c + CK_HEAP_HEADER_SIZE)
  | split {s' : Heap} {c r : U32} : c ∈ B → s.IsFree c → s.Listed c → n.toNat + 24 ≤ s.size c →
      r.toNat = c.toNat + (n.toNat + 12) → header s'.mem c = ⟨n + CK_HEAP_HEADER_SIZE, 1, r⟩ →
      header s'.mem r = ⟨(header s.mem c).size - (n + CK_HEAP_HEADER_SIZE), 0, s.next c⟩ →
      Keeps s s' B c → SameList s s' → Effect start s B n s' (insert r B) (c + CK_HEAP_HEADER_SIZE)
  | page {s' : Heap} {a : U32} {page : Nat} : NeedsPage s n → a.toNat = page * 4096 → Grown start s s' page →
      n.toNat + 12 < 2 ^ 32 → 4096 ≤ n.toNat + 12 →
      header s'.mem a = ⟨n + CK_HEAP_HEADER_SIZE, 1, s.freelist⟩ → (∀ b ∈ B, header s'.mem b = header s.mem b) →
      s'.freelist = a → Effect start s B n s' (insert a B) (a + CK_HEAP_HEADER_SIZE)
  | pageSplit {s' : Heap} {a r : U32} {page : Nat} : NeedsPage s n → a.toNat = page * 4096 → Grown start s s' page →
      n.toNat + 24 ≤ 4096 → r.toNat = a.toNat + (n.toNat + 12) →
      header s'.mem a = ⟨n + CK_HEAP_HEADER_SIZE, 1, r⟩ →
      header s'.mem r = ⟨4096 - (n + CK_HEAP_HEADER_SIZE), 0, s.freelist⟩ →
      (∀ b ∈ B, header s'.mem b = header s.mem b) → s'.freelist = r →
      Effect start s B n s' (insert r (insert a B)) (a + CK_HEAP_HEADER_SIZE)

theorem total_toNat {n : U32} (h : n.toNat + 12 < 2 ^ 32) : (n + CK_HEAP_HEADER_SIZE).toNat = n.toNat + 12 := by
  rw [BitVec.toNat_add, show CK_HEAP_HEADER_SIZE.toNat = 12 from rfl, Nat.mod_eq_of_lt h]

theorem malloc_expand_statics (s : Heap) (t : U32) :
    (ck_malloc_expand s t).1.heap_size = (ck_heap_expand s t).1.heap_size ∧
      (ck_malloc_expand s t).1.pmem = (ck_heap_expand s t).1.pmem := by
  simp only [ck_malloc_expand]
  split <;> [exact ⟨rfl, rfl⟩; split <;> exact ⟨rfl, rfl⟩]

section Effects
variable {start : Pmem} {s : Heap} {B : Finset U32} (hg : Geometry start s B)
include hg

/-- A change inside one block leaves the headers of the others alone. -/
theorem Geometry.keeps {s' : Heap} {c : U32} {k : Nat} (hc : c ∈ B) (hs : Same s.mem s'.mem c k) (hk : 0 < k)
    (hle : k ≤ s.extent c) : Keeps s s' B c := by
  intro b hb hne
  have h1 := hg.bounds hb
  have h2 := hg.bounds hc
  have h3 := hg.tiling.room b hb
  have h4 := hg.tiling.apart c hc b hb (Ne.symm hne)
  exact header_of_apart hs (by omega) (by omega) hk (by omega)

/-- A change inside a page the heap does not have leaves its headers alone. -/
theorem Geometry.keeps_page {m' : Mem} {a : U32} {page k : Nat} (ha : a.toNat = page * 4096)
    (hp : page ∉ heapPages start s.pmem) (hs : Same s.mem m' a k) (hk : 0 < k) (hle : k ≤ 4096) (hlt : page < 65536) :
    ∀ b ∈ B, header m' b = header s.mem b := by
  intro b hb
  have h1 := hg.bounds hb
  have h2 := hg.tiling.room b hb
  have h3 := hg.tiling.apart_page hp hb
  exact header_of_apart hs (by omega) (by omega) hk (by omega)

theorem take_effect {n c : U32} (hl : Linked s B) (hfit : s.FirstFit (n + CK_HEAP_HEADER_SIZE) c)
    (hn : n.toNat + 12 = s.size c ∨ n.toNat + 24 ≤ s.size c) :
    ∃ B', Effect start s B n (ck_malloc_take s (n + CK_HEAP_HEADER_SIZE) c).1 B' (c + CK_HEAP_HEADER_SIZE) := by
  have hlist : s.Listed c := hfit.1.on
  have hc : c ∈ B := hl.listed_mem hlist
  obtain ⟨hfree, -⟩ := suitable_iff.1 hfit.2
  have hext := hg.extent_of_free hc hfree
  have hb := hg.bounds hc
  have hroom := hg.tiling.room c hc
  have ht := total_toNat (n := n) (by omega)
  rcases hn with hn | hn
  · obtain ⟨hs, hh⟩ := take_exact s (n + CK_HEAP_HEADER_SIZE) c
      (BitVec.eq_of_toNat_eq (by rw [ht]; exact hn.symm))
    exact ⟨B, .whole hc hfree hlist hn.symm hh (hg.keeps hc hs (by decide) hroom) ⟨rfl, rfl, rfl⟩⟩
  · obtain ⟨hs, hh, hr⟩ := take_split s (n + CK_HEAP_HEADER_SIZE) c (by omega)
      (by rw [ht]; exact Nat.le_trans (by omega) hn) (by change c.toNat + s.size c ≤ _; omega)
    have hrn : (c + (n + CK_HEAP_HEADER_SIZE)).toNat = c.toNat + (n.toNat + 12) := by
      rw [toNat_add_of_le (n := s.size c) (by omega) (by omega), ht]
    exact ⟨_, .split hc hfree hlist hn hrn hh hr (hg.keeps hc hs (by change 0 < s.size c; omega) hext.ge) ⟨rfl, rfl, rfl⟩⟩

/-- The heap is as before, or has one more page that changed. -/
theorem malloc_expand_cases (total : U32) :
    (ck_malloc_expand s total = ((ck_heap_expand s total).1, 0#32) ∧
      (ck_heap_expand s total).1.mem = s.mem ∧ (ck_heap_expand s total).1.freelist = s.freelist ∧
      (ck_heap_expand s total).1.heap_size = s.heap_size ∧
      start.allocated ⊆ (ck_heap_expand s total).1.pmem.allocated ∧
      heapPages start (ck_heap_expand s total).1.pmem = heapPages start s.pmem) ∨
    (CanExpand s total ∧ ∃ a page, (ck_heap_expand s total).2 = a ∧ a ≠ 0#32 ∧ a.toNat = page * 4096 ∧ page < 65536 ∧
      Grown start s (ck_malloc_expand s total).1 page) := by
  rcases expand_cases s total with ⟨-, h0, hsz, h1, h2⟩ | ⟨hcan, ha0, page, hp0, hlt, hpn, ha, hsz, hpm⟩
  · left
    obtain ⟨hmem, hfl⟩ := heap_expand_statics s total
    refine ⟨?_, hmem, hfl, hsz, hg.base.trans h1, heapPages_refused h1 h2⟩
    simp only [ck_malloc_expand, h0, if_true]
  · right
    obtain ⟨hsz', hpm'⟩ := malloc_expand_statics s total
    refine ⟨hcan, _, page, rfl, ha0, ha, hlt, fun h => hpn (mem_heapPages.1 h).2.1, hsz'.trans hsz, ?_, ?_⟩
    · rw [hpm', hpm]
      exact hg.base.trans (Finset.subset_insert _ _)
    · rw [hpm']
      exact heapPages_grown hg.base hp0 hpn hpm

theorem expand_effect {n : U32} (hno : s.NoFit (n + CK_HEAP_HEADER_SIZE))
    (hn : NeedsPage s n → n.toNat + 12 < 2 ^ 32 ∧ (4096 ≤ n.toNat + 12 ∨ n.toNat + 24 ≤ 4096)) :
    ∃ B', Effect start s B n (ck_malloc_expand s (n + CK_HEAP_HEADER_SIZE)).1 B'
      (ck_malloc_expand s (n + CK_HEAP_HEADER_SIZE)).2 := by
  rcases malloc_expand_cases hg (n + CK_HEAP_HEADER_SIZE) with ⟨he, hmem, hfl, hsz, hb, hp⟩ |
    ⟨hcan, a, page, hae, ha0, ha, hlt, hgrow⟩
  · rw [he]
    exact ⟨B, .refused hmem hfl hsz hb hp⟩
  · obtain ⟨hlt32, hn⟩ := hn ⟨hno, hcan⟩
    have ht := total_toNat hlt32
    rcases hn with hn | hn
    · obtain ⟨hs, hh, hf, hr⟩ := expand_whole s (by omega) hae ha0
      rw [hr]
      exact ⟨_, .page ⟨hno, hcan⟩ ha hgrow hlt32 hn hh (hg.keeps_page ha hgrow.1 hs (by decide) (by decide) hlt) hf⟩
    · obtain ⟨hs, hh, hhr, hf, hr⟩ := expand_split s (by omega) (by omega) hae ha0 (by omega)
      have hrn : (a + (n + CK_HEAP_HEADER_SIZE)).toNat = a.toNat + (n.toNat + 12) := by
        rw [toNat_add_of_le (n := 4096) (by omega) (by omega), ht]
      rw [hr]
      exact ⟨_, .pageSplit ⟨hno, hcan⟩ ha hgrow hn hrn hh hhr (hg.keeps_page ha hgrow.1 hs (by decide) (by decide) hlt) hf⟩

/-- Every call that leaves room for headers has one of the five effects. -/
theorem malloc_effect {fuel : Nat} {s' : Heap} {n p : U32} (hl : Linked s B) (hn : n ≠ 0#32 → SplitsCleanly s n)
    (h : ck_malloc fuel s n = some (s', p)) : ∃ B', Effect start s B n s' B' p := by
  rcases malloc_paths h with ⟨-, rfl, rfl⟩ | ⟨h0, c, hfit, he⟩ | ⟨h0, hno, he⟩
  · exact ⟨B, .refused rfl rfl rfl hg.base rfl⟩
  · obtain ⟨rfl, rfl⟩ := Prod.mk.inj he
    exact take_effect hg hl hfit ((hn h0).1 c hfit)
  · have e1 : s' = (ck_malloc_expand s (n + CK_HEAP_HEADER_SIZE)).1 := congrArg Prod.fst he
    have e2 : p = (ck_malloc_expand s (n + CK_HEAP_HEADER_SIZE)).2 := congrArg Prod.snd he
    rw [e1, e2]
    exact expand_effect hg hno (hn h0).2

end Effects

end CheesecakeOS.Heap
