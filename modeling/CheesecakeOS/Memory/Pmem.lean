import CheesecakeOS.Lib.Words
import Mathlib.Data.Finset.Card
import Mathlib.Data.Finset.Range
/-!
# The physical page allocator

`memory/pmem.c`: one bit per 4 KB page, packed eight to a byte, and two
counters kept beside the bitmap. `Pmem` is the file's statics; the functions
below are its functions, from the bit operations up.

Above them `allocated` is what the bitmap stands for, the set of pages whose
bit is set. Each function gets one lemma saying what it does to that set, and
nothing after this file looks at a byte of the bitmap again.
-/
open Lib

namespace CheesecakeOS

abbrev CK_PAGE_SIZE : Nat := 4096
abbrev CK_MAX_PAGES : Nat := 65536
abbrev CK_BITMAP_SIZE : Nat := CK_MAX_PAGES / 8

/-- Pages `[0, 384)` are what `ck_pmem_init` marks as used. -/
abbrev reservedPages : Nat := 384

/-- The statics of `pmem.c`. -/
structure Pmem where
  bitmap : Vector U8 CK_BITMAP_SIZE
  total_pages : U32
  used_pages : U32

/-- The statics before any code runs. -/
def Pmem.zero : Pmem := ⟨Vector.replicate _ 0#8, 0#32, 0#32⟩

theorem byte_idx_lt {page : Nat} (h : page < CK_MAX_PAGES) : page / 8 < CK_BITMAP_SIZE := by
  simp only [CK_MAX_PAGES, CK_BITMAP_SIZE] at h ⊢; omega

/-! ## The source -/

def ck_pmem_set_bit (s : Pmem) (page : U32) : Pmem :=
  if h : page.toNat < CK_MAX_PAGES then
    have := byte_idx_lt h
    { s with bitmap := s.bitmap.set (page.toNat / 8) (s.bitmap[page.toNat / 8] ||| (1#8 <<< (page.toNat % 8))) }
  else s

def ck_pmem_clear_bit (s : Pmem) (page : U32) : Pmem :=
  if h : page.toNat < CK_MAX_PAGES then
    have := byte_idx_lt h
    { s with bitmap := s.bitmap.set (page.toNat / 8) (s.bitmap[page.toNat / 8] &&& ~~~(1#8 <<< (page.toNat % 8))) }
  else s

/-- 1 if allocated, 0 if free. -/
def ck_pmem_test_bit (s : Pmem) (page : U32) : U32 :=
  if h : page.toNat < CK_MAX_PAGES then
    have := byte_idx_lt h
    ((s.bitmap[page.toNat / 8] >>> (page.toNat % 8)) &&& 1#8).setWidth 32
  else 1#32 -- out of range counts as allocated

/-- The boot argument `multiboot_info` is not looked at. -/
def ck_pmem_init (s : Pmem) : Pmem :=
  let bitmap := forRange 0 CK_BITMAP_SIZE s.bitmap fun b i => b.setIfInBounds i 0#8
  let s := { s with bitmap := bitmap, total_pages := 0#32, used_pages := 0#32 }
  let s := forRange 0 reservedPages s fun s page =>
    let s := ck_pmem_set_bit s (.ofNat 32 page)
    { s with total_pages := s.total_pages + 1, used_pages := s.used_pages + 1 }
  forRange reservedPages CK_MAX_PAGES s fun s page =>
    let s := ck_pmem_clear_bit s (.ofNat 32 page)
    { s with total_pages := s.total_pages + 1 }

/-- The page found first, marked and counted, and its physical address; 0 if
no page is free. -/
def ck_pmem_alloc_page (s : Pmem) : Pmem × U32 :=
  match (List.range CK_MAX_PAGES).find? (fun page => ck_pmem_test_bit s (.ofNat 32 page) = 0#32) with
  | some page =>
    let s := ck_pmem_set_bit s (.ofNat 32 page)
    ({ s with used_pages := s.used_pages + 1 }, .ofNat 32 page * .ofNat 32 CK_PAGE_SIZE)
  | none => (s, 0#32)

def ck_pmem_free_page (s : Pmem) (addr : U32) : Pmem :=
  if addr % .ofNat 32 CK_PAGE_SIZE ≠ 0#32 then s else
    let page := addr / .ofNat 32 CK_PAGE_SIZE
    if ck_pmem_test_bit s page ≠ 0#32 then
      let s := ck_pmem_clear_bit s page
      { s with used_pages := s.used_pages - 1 }
    else s

def ck_pmem_get_total_memory (s : Pmem) : U32 := s.total_pages * .ofNat 32 CK_PAGE_SIZE

def ck_pmem_get_free_pages (s : Pmem) : U32 := s.total_pages - s.used_pages

def ck_pmem_get_used_pages (s : Pmem) : U32 := s.used_pages

/-! ## What the bitmap stands for -/

namespace Pmem

/-- Page `p`'s bit. -/
def bit (s : Pmem) (p : Nat) : Bool := (s.bitmap[p / 8]?.getD 0#8).getLsbD (p % 8)

/-- The pages marked allocated. -/
def allocated (s : Pmem) : Finset Nat := (Finset.range CK_MAX_PAGES).filter fun p => s.bit p = true

theorem mem_allocated {s : Pmem} {p : Nat} : p ∈ s.allocated ↔ p < CK_MAX_PAGES ∧ s.bit p = true := by
  simp [allocated]

theorem allocated_subset (s : Pmem) : s.allocated ⊆ Finset.range CK_MAX_PAGES := Finset.filter_subset _ _

@[simp] theorem allocated_counters (s : Pmem) (t u : U32) : Pmem.allocated ⟨s.bitmap, t, u⟩ = s.allocated := rfl

/-- Writing one byte of the bitmap, read back as bits. -/
theorem bit_set_byte (b : Vector U8 CK_BITMAP_SIZE) (t u : U32) (i : Nat) (h : i < CK_BITMAP_SIZE) (v : U8) (q : Nat) :
    bit ⟨b.set i v, t, u⟩ q = if q / 8 = i then v.getLsbD (q % 8) else bit ⟨b, t, u⟩ q := by
  simp only [bit, Vector.getElem?_set]
  by_cases hq : q / 8 = i
  · simp [hq]
  · simp [hq, Ne.symm hq]

theorem bit_eq (s : Pmem) {p i : Nat} (hi : i < CK_BITMAP_SIZE) (e : p / 8 = i) :
    s.bit p = s.bitmap[i].getLsbD (p % 8) := by
  simp [bit, e, hi]

theorem mod_eq_iff {p q : Nat} (h : q / 8 = p / 8) : q % 8 = p % 8 ↔ q = p := by omega

/-- One byte operation that changes flag `page % 8` as `f` says changes page
`page`'s bit that way and no other. -/
theorem bit_update (s : Pmem) {page : Nat} (h : page < CK_MAX_PAGES) (v : U8) (f : Bool → Bool)
    (hv : ∀ b, s.bitmap[page / 8]? = some b → ∀ j, j < 8 →
      v.getLsbD j = if j = page % 8 then f (b.getLsbD j) else b.getLsbD j) (q : Nat) (t u : U32) :
    bit ⟨s.bitmap.set (page / 8) v (byte_idx_lt h), t, u⟩ q = if q = page then f (s.bit q) else s.bit q := by
  have hb := byte_idx_lt h
  rw [bit_set_byte]
  by_cases hq : q / 8 = page / 8
  · rw [if_pos hq, hv _ (Vector.getElem?_eq_getElem hb) _ (Nat.mod_lt q (by decide)), bit_eq s hb hq]
    simp only [mod_eq_iff hq]
  · rw [if_neg hq, if_neg (fun e => hq (by rw [e]))]
    rfl

theorem bit_set_bit (s : Pmem) {page : U32} (h : page.toNat < CK_MAX_PAGES) (q : Nat) :
    (ck_pmem_set_bit s page).bit q = if q = page.toNat then true else s.bit q := by
  simp only [ck_pmem_set_bit, h, dite_true]
  refine bit_update s h _ (fun _ => true) (fun b hb j hj => ?_) q _ _
  rw [Vector.getElem?_eq_getElem (byte_idx_lt h), Option.some.injEq] at hb
  rw [hb, getLsbD_or_shift _ _ _ hj]
  split <;> simp_all

theorem bit_clear_bit (s : Pmem) {page : U32} (h : page.toNat < CK_MAX_PAGES) (q : Nat) :
    (ck_pmem_clear_bit s page).bit q = if q = page.toNat then false else s.bit q := by
  simp only [ck_pmem_clear_bit, h, dite_true]
  refine bit_update s h _ (fun _ => false) (fun b hb j hj => ?_) q _ _
  rw [Vector.getElem?_eq_getElem (byte_idx_lt h), Option.some.injEq] at hb
  rw [hb, getLsbD_and_not_shift _ _ _ hj]
  split <;> simp_all

theorem allocated_set_bit (s : Pmem) {page : U32} (h : page.toNat < CK_MAX_PAGES) :
    (ck_pmem_set_bit s page).allocated = insert page.toNat s.allocated := by
  ext q
  rw [Finset.mem_insert, mem_allocated, mem_allocated, bit_set_bit s h]
  by_cases hq : q = page.toNat <;> simp [hq, h]

/-- Out of range, clearing does nothing; neither does erasing. -/
theorem allocated_clear_bit (s : Pmem) (page : U32) :
    (ck_pmem_clear_bit s page).allocated = s.allocated.erase page.toNat := by
  by_cases h : page.toNat < CK_MAX_PAGES
  · ext q
    rw [Finset.mem_erase, mem_allocated, mem_allocated, bit_clear_bit s h]
    by_cases hq : q = page.toNat <;> simp [hq]
  · rw [Finset.erase_eq_of_notMem (fun hm => h (mem_allocated.1 hm).1)]
    simp [ck_pmem_clear_bit, h]

theorem test_bit_ne_zero (s : Pmem) (page : U32) :
    ck_pmem_test_bit s page ≠ 0#32 ↔ CK_MAX_PAGES ≤ page.toNat ∨ page.toNat ∈ s.allocated := by
  by_cases h : page.toNat < CK_MAX_PAGES
  · have hb := byte_idx_lt h
    have e : ∀ x : U8, x.setWidth 32 ≠ 0#32 ↔ x ≠ 0#8 := by
      intro x
      rw [ne_eq, ne_eq, ← BitVec.toNat_inj, ← BitVec.toNat_inj, BitVec.toNat_setWidth]
      simp only [BitVec.toNat_ofNat]
      have := x.isLt
      omega
    simp only [ck_pmem_test_bit, h, dite_true, e, shift_and_one_ne_zero, mem_allocated, true_and,
      bit_eq s hb rfl, Nat.not_le.2 h, false_or]
  · simp [ck_pmem_test_bit, h, Nat.not_lt.1 h]

/-! ## What each function does to that set -/

@[simp] theorem set_bit_total (s : Pmem) (page : U32) : (ck_pmem_set_bit s page).total_pages = s.total_pages := by
  unfold ck_pmem_set_bit; split <;> rfl

@[simp] theorem set_bit_used (s : Pmem) (page : U32) : (ck_pmem_set_bit s page).used_pages = s.used_pages := by
  unfold ck_pmem_set_bit; split <;> rfl

@[simp] theorem clear_bit_total (s : Pmem) (page : U32) : (ck_pmem_clear_bit s page).total_pages = s.total_pages := by
  unfold ck_pmem_clear_bit; split <;> rfl

@[simp] theorem clear_bit_used (s : Pmem) (page : U32) : (ck_pmem_clear_bit s page).used_pages = s.used_pages := by
  unfold ck_pmem_clear_bit; split <;> rfl

theorem page_toNat {page : Nat} (h : page < CK_MAX_PAGES) : (BitVec.ofNat 32 page).toNat = page := by
  rw [BitVec.toNat_ofNat]; exact Nat.mod_eq_of_lt (by simp only [CK_MAX_PAGES] at h; omega)

theorem ofNat_succ (i : Nat) : BitVec.ofNat 32 i + 1#32 = BitVec.ofNat 32 (i + 1) := by
  rw [BitVec.ofNat_add]

/-- The loop that clears the bitmap byte by byte leaves no bit set. -/
theorem allocated_cleared (b : Vector U8 CK_BITMAP_SIZE) (t u : U32) :
    allocated ⟨forRange 0 CK_BITMAP_SIZE b fun b i => b.setIfInBounds i 0#8, t, u⟩ = ∅ := by
  have h : ∀ j, j < CK_BITMAP_SIZE →
      (forRange 0 CK_BITMAP_SIZE b fun b i => b.setIfInBounds i 0#8)[j]? = some 0#8 := by
    refine forRange_inv (fun i (v : Vector U8 CK_BITMAP_SIZE) => ∀ j, j < i → v[j]? = some 0#8)
      (Nat.zero_le _) (by simp) ?_
    intro i v _ hi hv j hj
    rw [Vector.getElem?_setIfInBounds]
    by_cases hij : i = j
    · simp [hij, hij ▸ hi]
    · rw [if_neg hij]
      exact hv j (by omega)
  ext p
  simp only [mem_allocated, Finset.notMem_empty, iff_false, not_and, bit]
  intro hp
  simp [h _ (byte_idx_lt hp)]

/-- After `ck_pmem_init`: the first 384 pages are marked, and the counters
say so. -/
theorem init_spec (s : Pmem) :
    (ck_pmem_init s).allocated = Finset.range reservedPages ∧
      (ck_pmem_init s).total_pages = .ofNat 32 CK_MAX_PAGES ∧
      (ck_pmem_init s).used_pages = .ofNat 32 reservedPages := by
  unfold ck_pmem_init
  refine forRange_inv (fun i (t : Pmem) => t.allocated = Finset.range reservedPages ∧
    t.total_pages = .ofNat 32 i ∧ t.used_pages = .ofNat 32 reservedPages) (by decide) ?_ ?_
  · -- the reserving loop: after `i` rounds exactly the pages below `i` are marked
    refine forRange_inv (fun i (t : Pmem) => t.allocated = Finset.range i ∧
      t.total_pages = .ofNat 32 i ∧ t.used_pages = .ofNat 32 i) (by decide) ?_ ?_
    · exact ⟨by simp [allocated_cleared], rfl, rfl⟩
    · rintro i t - hi ⟨ha, ht, hu⟩
      have hlt : i < CK_MAX_PAGES := Nat.lt_trans hi (by decide)
      have hi' : (BitVec.ofNat 32 i).toNat = i := page_toNat hlt
      refine ⟨?_, by simp [ht, ofNat_succ], by simp [hu, ofNat_succ]⟩
      rw [allocated_counters, allocated_set_bit t (by rw [hi']; exact hlt), hi', ha,
        Finset.range_add_one]
  · rintro i t hlo hi ⟨ha, ht, hu⟩
    refine ⟨?_, by simp [ht, ofNat_succ], by simp [hu]⟩
    rw [allocated_counters, allocated_clear_bit, page_toNat hi, ha]
    exact Finset.erase_eq_of_notMem (by simpa using hlo)

/-- `ck_pmem_alloc_page` marks the lowest free page and returns its address,
or finds every page marked and changes nothing. -/
theorem alloc_cases (s : Pmem) :
    (∃ page, page < CK_MAX_PAGES ∧ page ∉ s.allocated ∧ (∀ q, q < page → q ∈ s.allocated) ∧
      (ck_pmem_alloc_page s).2.toNat = page * CK_PAGE_SIZE ∧
      (ck_pmem_alloc_page s).1.allocated = insert page s.allocated ∧
      (ck_pmem_alloc_page s).1.total_pages = s.total_pages ∧
      (ck_pmem_alloc_page s).1.used_pages = s.used_pages + 1) ∨
    (s.allocated = Finset.range CK_MAX_PAGES ∧ ck_pmem_alloc_page s = (s, 0#32)) := by
  have ht : ∀ q, q < CK_MAX_PAGES → (ck_pmem_test_bit s (.ofNat 32 q) = 0#32 ↔ q ∉ s.allocated) := by
    intro q hq
    have h := test_bit_ne_zero s (.ofNat 32 q)
    rw [page_toNat hq] at h
    rw [← not_iff_not, not_not, ← ne_eq, h]
    simp [Nat.not_le.2 hq]
  unfold ck_pmem_alloc_page
  cases hf : (List.range CK_MAX_PAGES).find? (fun page => ck_pmem_test_bit s (.ofNat 32 page) = 0#32) with
  | some page =>
    left
    rw [List.find?_range_eq_some] at hf
    obtain ⟨hz, hm, hlow⟩ := hf
    have hp : page < CK_MAX_PAGES := List.mem_range.1 hm
    refine ⟨page, hp, (ht page hp).1 (by simpa using hz), ?_, ?_, ?_, by simp, by simp⟩
    · intro q hq
      by_contra hn
      have h0 := (ht q (by omega)).2 hn
      have := hlow q hq
      simp [h0] at this
    · rw [BitVec.toNat_mul, page_toNat hp, BitVec.toNat_ofNat]
      simp only [CK_MAX_PAGES, CK_PAGE_SIZE] at hp ⊢
      omega
    · have hpn := page_toNat hp
      rw [allocated_counters, allocated_set_bit s (by rw [hpn]; exact hp), hpn]
  | none =>
    right
    refine ⟨Finset.Subset.antisymm s.allocated_subset fun q hq => ?_, rfl⟩
    rw [List.find?_eq_none] at hf
    by_contra hn
    have hlt := Finset.mem_range.1 hq
    exact hf q (List.mem_range.2 hlt) (by simpa using (ht q hlt).2 hn)

/-- With exactly the pages below `k` taken, page `k` is next. -/
theorem alloc_range {s : Pmem} {k : Nat} (h : s.allocated = Finset.range k) (hk : k < CK_MAX_PAGES) :
    (ck_pmem_alloc_page s).2.toNat = k * CK_PAGE_SIZE ∧
      (ck_pmem_alloc_page s).1.allocated = Finset.range (k + 1) := by
  rcases alloc_cases s with ⟨page, -, hn, hlow, hr, ha, -, -⟩ | ⟨hfull, -⟩
  · rw [h, Finset.mem_range] at hn
    have hle : ¬ k < page := fun hlt => by
      have hmem := hlow k hlt
      rw [h, Finset.mem_range] at hmem
      omega
    obtain rfl : page = k := by omega
    rw [ha, h, Finset.range_add_one]
    exact ⟨hr, rfl⟩
  · have hmem := Finset.mem_range.2 hk
    rw [← hfull, h, Finset.mem_range] at hmem
    exact absurd hmem (Nat.lt_irrefl k)

/-- `addr` is page-aligned and names page `p`. -/
def Names (addr : U32) (p : Nat) : Prop := addr.toNat = p * CK_PAGE_SIZE

/-- `ck_pmem_free_page` ignores an unaligned address and a free page. It
unmarks an allocated page and counts it; for a page past the end of the
bitmap it only counts. -/
theorem free_cases (s : Pmem) (addr : U32) :
    (ck_pmem_free_page s addr = s ∧
      ∀ p, Names addr p → p < CK_MAX_PAGES ∧ p ∉ s.allocated) ∨
    (∃ p, Names addr p ∧ (CK_MAX_PAGES ≤ p ∨ p ∈ s.allocated) ∧
      (ck_pmem_free_page s addr).allocated = s.allocated.erase p ∧
      (ck_pmem_free_page s addr).total_pages = s.total_pages ∧
      (ck_pmem_free_page s addr).used_pages = s.used_pages - 1) := by
  have hmod : addr % .ofNat 32 CK_PAGE_SIZE = 0#32 ↔ addr.toNat % 4096 = 0 := by
    rw [← BitVec.toNat_inj, BitVec.toNat_umod, BitVec.toNat_ofNat, BitVec.toNat_ofNat]; rfl
  have hdiv : (addr / .ofNat 32 CK_PAGE_SIZE).toNat = addr.toNat / 4096 := by
    rw [BitVec.toNat_udiv, BitVec.toNat_ofNat]; rfl
  unfold ck_pmem_free_page Names
  by_cases hal : addr.toNat % 4096 = 0
  · rw [if_neg (by rw [ne_eq, not_not, hmod]; exact hal)]
    have ht := test_bit_ne_zero s (addr / .ofNat 32 CK_PAGE_SIZE)
    rw [hdiv] at ht
    by_cases hb : CK_MAX_PAGES ≤ addr.toNat / 4096 ∨ addr.toNat / 4096 ∈ s.allocated
    · right
      refine ⟨addr.toNat / 4096, by simp only [CK_PAGE_SIZE]; omega, hb, ?_⟩
      simp only [ht.2 hb, ne_eq, not_false_iff, if_true]
      refine ⟨?_, by simp, by simp⟩
      rw [allocated_counters, allocated_clear_bit, hdiv]
    · left
      simp only [not_iff_not.2 ht |>.2 hb, if_false]
      refine ⟨trivial, fun p hp => ?_⟩
      have : p = addr.toNat / 4096 := by simp only [CK_PAGE_SIZE] at hp; omega
      rw [this]
      rw [not_or, Nat.not_le] at hb
      exact hb
  · left
    rw [if_pos (by rw [ne_eq, hmod]; exact hal)]
    refine ⟨rfl, fun p hp => absurd ?_ hal⟩
    simp only [CK_PAGE_SIZE] at hp
    omega

end Pmem

-- From here on the three functions are known by `init_spec`, `alloc_cases` and
-- `free_cases` only; unfolding them would mean running loops of 65536 rounds.
attribute [irreducible] ck_pmem_init ck_pmem_alloc_page ck_pmem_free_page

end CheesecakeOS
