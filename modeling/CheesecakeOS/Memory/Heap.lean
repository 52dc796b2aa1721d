import CheesecakeOS.Lib.Bytes
import CheesecakeOS.Lib.Links
import CheesecakeOS.Memory.Pmem
/-!
# The kernel heap

`memory/heap.c` over byte-addressed memory. A block starts with a 12-byte
header; `header` reads one, `set_size`, `set_allocated` and `set_next` write
its fields (nothing writes the padding), in the order the source does, so a
header that overlaps another one is read and written as it would be.

The first-fit search follows `next` links and may not end, so `ck_malloc`
takes fuel and answers `none` when it runs out. The first half of the file is
the source; the second half is what the three writing paths do to headers.
-/
open Lib

namespace CheesecakeOS

abbrev CK_HEAP_HEADER_SIZE : U32 := 12#32
abbrev CK_HEAP_MAX_SIZE : U32 := 256#32 * 1024#32 * 1024#32

/-- `struct ck_heap_header`, without its padding. -/
structure HeapHeader where
  size : U32
  allocated : U8
  next : U32

/-- The header at `h`. -/
def header (m : Mem) (h : U32) : HeapHeader := ⟨load32 m h, m (h + 4), load32 m (h + 8)⟩

def set_size (m : Mem) (h v : U32) : Mem := store32 m h v
def set_allocated (m : Mem) (h : U32) (v : U8) : Mem := store8 m (h + 4) v
def set_next (m : Mem) (h v : U32) : Mem := store32 m (h + 8) v

/-- The statics of `heap.c`, the memory it works on and the page allocator it
calls. The pages are used at their physical addresses. -/
structure Heap where
  mem : Mem
  freelist : U32
  heap_size : U32
  total_allocated : U32
  total_freed : U32
  pmem : Pmem

/-! ## The source -/

/-- One page, whatever `needed_size` is; 0 if the heap may not grow. -/
def ck_heap_expand (s : Heap) (needed_size : U32) : Heap × U32 :=
  if s.heap_size + needed_size > CK_HEAP_MAX_SIZE then (s, 0#32)
  else
    let res := ck_pmem_alloc_page s.pmem
    let s := { s with pmem := res.1 }
    if res.2 = 0#32 then (s, 0#32) else ({ s with heap_size := s.heap_size + 4096 }, res.2)

def ck_heap_init (s : Heap) : Heap :=
  let s := { s with freelist := 0#32, heap_size := 0#32, total_allocated := 0#32, total_freed := 0#32 }
  let res := ck_heap_expand s 4096
  let s := res.1
  let first_page := res.2
  if first_page = 0#32 then s
  else
    let m := set_size s.mem first_page 4096
    let m := set_allocated m first_page 0
    let m := set_next m first_page 0
    { s with mem := m, freelist := first_page }

/-- `!current->allocated && current->size >= total_size`. -/
def suitable (m : Mem) (total_size current : U32) : Bool :=
  (header m current).allocated = 0#8 ∧ total_size ≤ (header m current).size

/-- The body of the search loop once `current` is suitable. -/
def ck_malloc_take (s : Heap) (total_size current : U32) : Heap × U32 :=
  let m := s.mem
  let m :=
    if (header m current).size > total_size then
      let new_block := current + total_size
      let m := set_size m new_block ((header m current).size - total_size)
      let m := set_allocated m new_block 0
      let m := set_next m new_block (header m current).next
      let m := set_size m current total_size
      set_next m current new_block
    else m
  let m := set_allocated m current 1
  ({ s with mem := m, total_allocated := s.total_allocated + total_size }, current + CK_HEAP_HEADER_SIZE)

/-- After the search loop: a block at the start of a new page. -/
def ck_malloc_expand (s : Heap) (total_size : U32) : Heap × U32 :=
  let res := ck_heap_expand s total_size
  let s := res.1
  let new_heap := res.2
  if new_heap = 0#32 then (s, 0#32)
  else
    let m := set_size s.mem new_heap total_size
    let m := set_allocated m new_heap 1
    let total_allocated := s.total_allocated + total_size
    if 4096#32 > total_size then
      let remaining := new_heap + total_size
      let m := set_size m remaining (4096 - total_size)
      let m := set_allocated m remaining 0
      let m := set_next m remaining s.freelist
      let m := set_next m new_heap remaining
      ({ s with mem := m, freelist := remaining, total_allocated }, new_heap + CK_HEAP_HEADER_SIZE)
    else
      let m := set_next m new_heap s.freelist
      ({ s with mem := m, freelist := new_heap, total_allocated }, new_heap + CK_HEAP_HEADER_SIZE)

/-- `none` if the search did not end within `fuel` tests. -/
def ck_malloc (fuel : Nat) (s : Heap) (size : U32) : Option (Heap × U32) :=
  if size = 0#32 then some (s, 0#32)
  else
    let total_size := size + CK_HEAP_HEADER_SIZE
    match Links.find (fun h => (header s.mem h).next) 0#32 (suitable s.mem total_size) fuel s.freelist with
    | none => none
    | some (some current) => some (ck_malloc_take s total_size current)
    | some none => some (ck_malloc_expand s total_size)

def ck_free (s : Heap) (ptr : U32) : Heap :=
  if ptr = 0#32 then s
  else
    let h := ptr - CK_HEAP_HEADER_SIZE
    if (header s.mem h).allocated = 0#8 then s
    else
      let m := set_allocated s.mem h 0
      let total_freed := s.total_freed + (header m h).size
      { s with mem := set_next m h s.freelist, freelist := h, total_freed }

def ck_heap_get_total_allocated (s : Heap) : U32 := s.total_allocated

def ck_heap_get_total_freed (s : Heap) : U32 := s.total_freed

/-! ## Headers in memory -/

section Headers
variable {m m' : Mem} {a h : U32} {n : Nat}

theorem set_size_same (m : Mem) (h v : U32) : Same m (set_size m h v) h 12 :=
  (store32_same m h v).mono (by decide)

theorem set_allocated_same (m : Mem) (h : U32) (v : U8) : Same m (set_allocated m h v) h 12 :=
  (store8_same m (h + 4) v).widen (by decide)

theorem set_next_same (m : Mem) (h v : U32) : Same m (set_next m h v) h 12 :=
  (store32_same m (h + 8) v).widen (by decide)

/-- A header outside the bytes that may differ. -/
theorem header_of_same (hs : Same m m' a n) (h1 : n ≤ (h - a).toNat) (h2 : 12 ≤ (a - h).toNat) :
    header m' h = header m h := by
  have e4 := outside_add (k := (4 : U32)) (j := 1) h1 h2 (by decide) (by decide)
  have e8 := outside_add (k := (8 : U32)) (j := 4) h1 h2 (by decide) (by decide)
  unfold header
  rw [hs.load32 h1 (by omega), hs.load32 e8.1 e8.2, hs _ e4.1]

/-- A header apart from the `n` bytes at `a`, as numbers. -/
theorem header_of_apart (hs : Same m m' a n) (ha : a.toNat + n ≤ 2 ^ 32) (hh : h.toNat + 12 ≤ 2 ^ 32) (hn : 0 < n)
    (h' : a.toNat + n ≤ h.toNat ∨ h.toNat + 12 ≤ a.toNat) : header m' h = header m h := by
  obtain ⟨h1, h2⟩ := outside_of_apart ha hh hn (by decide) h'
  exact header_of_same hs h1 h2

@[simp] theorem header_set_size (m : Mem) (h v : U32) : header (set_size m h v) h = { header m h with size := v } := by
  have hs := store32_same m h v
  have e4 : h + 4 - h = 4#32 := by grind
  have e8 : h + 8 - h = 8#32 := by grind
  have e8' : h - (h + 8) = -8#32 := by grind
  unfold header set_size
  rw [load32_store32, hs _ (by rw [e4]; decide), hs.load32 (by rw [e8]; decide) (by rw [e8']; decide)]

@[simp] theorem header_set_allocated (m : Mem) (h : U32) (v : U8) :
    header (set_allocated m h v) h = { header m h with allocated := v } := by
  have hs := store8_same m (h + 4) v
  have e0 : h - (h + 4) = -4#32 := by grind
  have e0' : h + 4 - h = 4#32 := by grind
  have e8 : h + 8 - (h + 4) = 4#32 := by grind
  have e8' : h + 4 - (h + 8) = -4#32 := by grind
  unfold header set_allocated
  rw [store8_self, hs.load32 (by rw [e0]; decide) (by rw [e0']; decide),
    hs.load32 (by rw [e8]; decide) (by rw [e8']; decide)]

@[simp] theorem header_set_next (m : Mem) (h v : U32) : header (set_next m h v) h = { header m h with next := v } := by
  have hs := store32_same m (h + 8) v
  have e0 : h - (h + 8) = -8#32 := by grind
  have e0' : h + 8 - h = 8#32 := by grind
  have e4 : h + 4 - (h + 8) = -4#32 := by grind
  unfold header set_next
  rw [load32_store32, hs _ (by rw [e4]; decide), hs.load32 (by rw [e0]; decide) (by rw [e0']; decide)]

/-- Two headers that share no byte, as numbers. -/
def HeadersApart (h h' : U32) : Prop :=
  h.toNat + 12 ≤ 2 ^ 32 ∧ h'.toNat + 12 ≤ 2 ^ 32 ∧ (h.toNat + 12 ≤ h'.toNat ∨ h'.toNat + 12 ≤ h.toNat)

theorem HeadersApart.symm {h h' : U32} (ha : HeadersApart h h') : HeadersApart h' h := ⟨ha.2.1, ha.1, ha.2.2.symm⟩

theorem header_apart {h h' : U32} (ha : HeadersApart h h') (hs : Same m m' h 12) : header m' h' = header m h' :=
  header_of_apart hs ha.1 ha.2.1 (by decide) ha.2.2

theorem set_size_apart {h h' : U32} (ha : HeadersApart h h') (v : U32) : header (set_size m h v) h' = header m h' :=
  header_apart ha (set_size_same m h v)

theorem set_allocated_apart {h h' : U32} (ha : HeadersApart h h') (v : U8) :
    header (set_allocated m h v) h' = header m h' :=
  header_apart ha (set_allocated_same m h v)

theorem set_next_apart {h h' : U32} (ha : HeadersApart h h') (v : U32) : header (set_next m h v) h' = header m h' :=
  header_apart ha (set_next_same m h v)

end Headers

/-! ## What the writing paths do to headers -/

/-- A block taken whole: only its `allocated` byte changes. -/
theorem take_exact (s : Heap) (total c : U32) (h : (header s.mem c).size = total) :
    Same s.mem (ck_malloc_take s total c).1.mem c 12 ∧
      header (ck_malloc_take s total c).1.mem c = { header s.mem c with allocated := 1 } := by
  have hn : ¬ (header s.mem c).size > total := by rw [h]; exact BitVec.lt_irrefl total
  simp only [ck_malloc_take, if_neg hn]
  exact ⟨set_allocated_same _ _ _, header_set_allocated _ _ _⟩

theorem toNat_add_of_le {c total : U32} {n : Nat} (hn : c.toNat + n ≤ 2 ^ 32) (h : total.toNat < n) :
    (c + total).toNat = c.toNat + total.toNat := by
  rw [BitVec.toNat_add, Nat.mod_eq_of_lt (by omega)]

/-- A block cut in two: both headers are new. The second one is written whether
or not the block has room for it. -/
theorem take_cut (s : Heap) (total c : U32) (h12 : 12 ≤ total.toNat) (hsz : total.toNat < (header s.mem c).size.toNat)
    (hc : c.toNat + (total.toNat + 12) ≤ 2 ^ 32) :
    Same s.mem (ck_malloc_take s total c).1.mem c (total.toNat + 12) ∧
      header (ck_malloc_take s total c).1.mem c = ⟨total, 1, c + total⟩ ∧
      header (ck_malloc_take s total c).1.mem (c + total) =
        ⟨(header s.mem c).size - total, 0, (header s.mem c).next⟩ := by
  have hgt : (header s.mem c).size > total := BitVec.lt_def.2 hsz
  have hnb : (c + total).toNat = c.toNat + total.toNat := toNat_add_of_le hc (by omega)
  have hap : HeadersApart c (c + total) := ⟨by omega, by omega, by omega⟩
  have hap' := hap.symm
  have widen : ∀ {m m' : Mem}, Same m m' (c + total) 12 → Same m m' c (total.toNat + 12) :=
    fun hs => hs.widen (Nat.le_refl _)
  have mono : ∀ {m m' : Mem}, Same m m' c 12 → Same m m' c (total.toNat + 12) := fun hs => hs.mono (by omega)
  simp only [ck_malloc_take, if_pos hgt]
  refine ⟨?_, ?_, ?_⟩
  · refine Same.trans ?_ (mono (set_allocated_same _ _ _))
    refine Same.trans ?_ (mono (set_next_same _ _ _))
    refine Same.trans ?_ (mono (set_size_same _ _ _))
    refine Same.trans ?_ (widen (set_next_same _ _ _))
    refine Same.trans ?_ (widen (set_allocated_same _ _ _))
    exact widen (set_size_same _ _ _)
  · simp
  · simp [set_size_apart hap, set_allocated_apart hap, set_next_apart hap, set_size_apart hap', set_allocated_apart hap']

/-- Cutting a block leaves the padding of the second header alone. -/
theorem take_padding (s : Heap) {total c x : U32} (hsz : (header s.mem c).size > total) (h : 12 ≤ (x - c).toNat)
    (h0 : 4 ≤ (x - (c + total)).toNat) (h4 : 1 ≤ (x - (c + total + 4)).toNat) (h8 : 4 ≤ (x - (c + total + 8)).toNat) :
    (ck_malloc_take s total c).1.mem x = s.mem x := by
  simp only [ck_malloc_take, if_pos hsz]
  rw [set_allocated_same _ _ _ _ h, set_next_same _ _ _ _ h, set_size_same _ _ _ _ h]
  unfold set_next set_allocated set_size
  rw [store32_same _ _ _ _ h8, store8_same _ _ _ _ h4, store32_same _ _ _ _ h0]

/-- A block with room for a second header: nothing outside it changes. -/
theorem take_split (s : Heap) (total c : U32) (h12 : 12 ≤ total.toNat)
    (hsz : total.toNat + 12 ≤ (header s.mem c).size.toNat)
    (hc : c.toNat + (header s.mem c).size.toNat ≤ 2 ^ 32) :
    Same s.mem (ck_malloc_take s total c).1.mem c (header s.mem c).size.toNat ∧
      header (ck_malloc_take s total c).1.mem c = ⟨total, 1, c + total⟩ ∧
      header (ck_malloc_take s total c).1.mem (c + total) =
        ⟨(header s.mem c).size - total, 0, (header s.mem c).next⟩ := by
  obtain ⟨hs, h1, h2⟩ := take_cut s total c h12 (by omega) (by omega)
  exact ⟨hs.mono hsz, h1, h2⟩

/-- Below the limit, with the result of the page allocator named. -/
theorem heap_expand_eq {s : Heap} {n a : U32} {pm : Pmem} (hmax : ¬ s.heap_size + n > CK_HEAP_MAX_SIZE)
    (he : ck_pmem_alloc_page s.pmem = (pm, a)) :
    ck_heap_expand s n = if a = 0#32 then ({ s with pmem := pm }, 0#32)
      else ({ s with pmem := pm, heap_size := s.heap_size + 4096 }, a) := by
  rw [ck_heap_expand, if_neg hmax, he]

theorem heap_expand_statics (s : Heap) (n : U32) :
    (ck_heap_expand s n).1.mem = s.mem ∧ (ck_heap_expand s n).1.freelist = s.freelist := by
  by_cases hmax : s.heap_size + n > CK_HEAP_MAX_SIZE
  · rw [ck_heap_expand, if_pos hmax]
    exact ⟨rfl, rfl⟩
  · rcases he : ck_pmem_alloc_page s.pmem with ⟨pm, a⟩
    rw [heap_expand_eq hmax he]
    split <;> exact ⟨rfl, rfl⟩

/-- The block and the remainder a new page is cut into. -/
theorem expand_split (s : Heap) {total a : U32} (h12 : 12 ≤ total.toNat) (hsz : total.toNat + 12 ≤ 4096)
    (he : (ck_heap_expand s total).2 = a) (ha : a ≠ 0#32) (hp : a.toNat + 4096 ≤ 2 ^ 32) :
    Same s.mem (ck_malloc_expand s total).1.mem a 4096 ∧
      header (ck_malloc_expand s total).1.mem a = ⟨total, 1, a + total⟩ ∧
      header (ck_malloc_expand s total).1.mem (a + total) = ⟨4096 - total, 0, s.freelist⟩ ∧
      (ck_malloc_expand s total).1.freelist = a + total ∧ (ck_malloc_expand s total).2 = a + CK_HEAP_HEADER_SIZE := by
  have hlt : 4096#32 > total := BitVec.lt_def.2 (by simp; omega)
  have hnb : (a + total).toNat = a.toNat + total.toNat := toNat_add_of_le hp (by omega)
  have hap : HeadersApart a (a + total) := ⟨by omega, by omega, by omega⟩
  have hap' := hap.symm
  have widen : ∀ {m m' : Mem}, Same m m' (a + total) 12 → Same m m' a 4096 := fun hs => hs.widen hsz
  have mono : ∀ {m m' : Mem}, Same m m' a 12 → Same m m' a 4096 := fun hs => hs.mono (by decide)
  obtain ⟨hmem, hfree⟩ := heap_expand_statics s total
  simp only [ck_malloc_expand, he, if_neg ha, if_pos hlt, hmem, hfree]
  refine ⟨?_, ?_, ?_, trivial, trivial⟩
  · refine Same.trans ?_ (mono (set_next_same _ _ _))
    refine Same.trans ?_ (widen (set_next_same _ _ _))
    refine Same.trans ?_ (widen (set_allocated_same _ _ _))
    refine Same.trans ?_ (widen (set_size_same _ _ _))
    refine Same.trans ?_ (mono (set_allocated_same _ _ _))
    exact mono (set_size_same _ _ _)
  · simp [set_size_apart hap', set_allocated_apart hap', set_next_apart hap']
  · simp [set_next_apart hap]

/-- A new page taken by one block, which goes on the list. -/
theorem expand_whole (s : Heap) {total a : U32} (hsz : 4096 ≤ total.toNat) (he : (ck_heap_expand s total).2 = a)
    (ha : a ≠ 0#32) :
    Same s.mem (ck_malloc_expand s total).1.mem a 12 ∧
      header (ck_malloc_expand s total).1.mem a = ⟨total, 1, s.freelist⟩ ∧
      (ck_malloc_expand s total).1.freelist = a ∧ (ck_malloc_expand s total).2 = a + CK_HEAP_HEADER_SIZE := by
  have hge : ¬ 4096#32 > total := by
    rw [gt_iff_lt, BitVec.lt_def]; simp; omega
  obtain ⟨hmem, hfree⟩ := heap_expand_statics s total
  simp only [ck_malloc_expand, he, if_neg ha, if_neg hge, hmem, hfree]
  refine ⟨?_, ?_, trivial, trivial⟩
  · refine Same.trans ?_ (set_next_same _ _ _)
    exact (set_size_same _ _ _).trans (set_allocated_same _ _ _)
  · simp

/-- A free block at the head of the list. -/
theorem free_header (s : Heap) {ptr : U32} (hp : ptr ≠ 0#32)
    (ha : (header s.mem (ptr - CK_HEAP_HEADER_SIZE)).allocated ≠ 0#8) :
    let h := ptr - CK_HEAP_HEADER_SIZE
    Same s.mem (ck_free s ptr).mem h 12 ∧
      header (ck_free s ptr).mem h = ⟨(header s.mem h).size, 0, s.freelist⟩ ∧ (ck_free s ptr).freelist = h := by
  intro h
  simp only [ck_free, if_neg hp, if_neg ha]
  refine ⟨?_, ?_, rfl⟩
  · exact (set_allocated_same _ _ _).trans (set_next_same _ _ _)
  · simp [h]

/-! ## Growing by a page -/

/-- The pages (by number) taken from the page allocator since it was in state
`start`. Page 0 is never used: its address reads as failure. -/
def heapPages (start now : Pmem) : Finset Nat := (now.allocated \ start.allocated).erase 0

/-- The heap may grow: the limit test passes, and the lowest free page exists
and is not page 0. -/
def CanExpand (s : Heap) (n : U32) : Prop :=
  ¬ s.heap_size + n > CK_HEAP_MAX_SIZE ∧ 0 ∈ s.pmem.allocated ∧ ∃ p, p < CK_MAX_PAGES ∧ p ∉ s.pmem.allocated

/-- `ck_heap_expand` refuses, taking at most page 0, or takes a page that was
free. -/
theorem expand_cases (s : Heap) (n : U32) :
    (¬ CanExpand s n ∧ (ck_heap_expand s n).2 = 0#32 ∧ (ck_heap_expand s n).1.heap_size = s.heap_size ∧
      s.pmem.allocated ⊆ (ck_heap_expand s n).1.pmem.allocated ∧
      (ck_heap_expand s n).1.pmem.allocated ⊆ insert 0 s.pmem.allocated) ∨
    (CanExpand s n ∧ (ck_heap_expand s n).2 ≠ 0#32 ∧ ∃ page, page ≠ 0 ∧ page < 65536 ∧ page ∉ s.pmem.allocated ∧
      (ck_heap_expand s n).2.toNat = page * 4096 ∧
      (ck_heap_expand s n).1.heap_size = s.heap_size + 4096 ∧
      (ck_heap_expand s n).1.pmem.allocated = insert page s.pmem.allocated) := by
  unfold CanExpand
  by_cases hmax : s.heap_size + n > CK_HEAP_MAX_SIZE
  · rw [ck_heap_expand, if_pos hmax]
    exact .inl ⟨fun h => h.1 hmax, rfl, rfl, Finset.Subset.refl _, Finset.subset_insert _ _⟩
  · have hcases := Pmem.alloc_cases s.pmem
    rcases he : ck_pmem_alloc_page s.pmem with ⟨pm, a⟩
    rw [he] at hcases
    rw [heap_expand_eq hmax he]
    rcases hcases with ⟨page, hlt, hn, hlow, hr, ha, -, -⟩ | ⟨hfull, hsame⟩
    · by_cases h0 : page = 0
      · subst h0
        have hz : a = 0#32 := BitVec.eq_of_toNat_eq (by simpa using hr)
        rw [if_pos hz]
        refine .inl ⟨fun h => hn h.2.1, rfl, rfl, ?_, ?_⟩
        · rw [ha]; exact Finset.subset_insert _ _
        · rw [ha]
      · have hz : a ≠ 0#32 := by
          intro hz
          rw [hz, BitVec.toNat_ofNat] at hr
          simp only [CK_PAGE_SIZE] at hr
          omega
        rw [if_neg hz]
        exact .inr ⟨⟨hmax, hlow 0 (Nat.pos_of_ne_zero h0), page, hlt, hn⟩, hz, page, h0, hlt, hn, hr, rfl, ha⟩
    · obtain ⟨rfl, rfl⟩ := Prod.mk.inj hsame
      rw [if_pos rfl]
      refine .inl ⟨?_, rfl, rfl, Finset.Subset.refl _, Finset.subset_insert _ _⟩
      rintro ⟨-, -, p, hp, hpn⟩
      rw [hfull] at hpn
      exact hpn (Finset.mem_range.2 hp)

theorem mem_heapPages {start now : Pmem} {p : Nat} :
    p ∈ heapPages start now ↔ p ≠ 0 ∧ p ∈ now.allocated ∧ p ∉ start.allocated := by
  simp [heapPages]

theorem heapPages_refused {start now now' : Pmem} (h1 : now.allocated ⊆ now'.allocated)
    (h2 : now'.allocated ⊆ insert 0 now.allocated) : heapPages start now' = heapPages start now := by
  ext p
  simp only [mem_heapPages]
  refine and_congr_right fun hp => and_congr_left fun _ => ⟨fun h => ?_, fun h => h1 h⟩
  exact (Finset.mem_insert.1 (h2 h)).resolve_left hp

theorem heapPages_grown {start now now' : Pmem} {page : Nat} (hb : start.allocated ⊆ now.allocated) (h0 : page ≠ 0)
    (hn : page ∉ now.allocated) (ha : now'.allocated = insert page now.allocated) :
    heapPages start now' = insert page (heapPages start now) := by
  ext p
  simp only [mem_heapPages, ha, Finset.mem_insert]
  by_cases hp : p = page
  · subst hp
    have hs : p ∉ start.allocated := fun h => hn (hb h)
    simp [h0, hs]
  · simp [hp]

end CheesecakeOS
