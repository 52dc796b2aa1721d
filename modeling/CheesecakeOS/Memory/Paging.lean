import CheesecakeOS.Lib.TwoLevel
import CheesecakeOS.Lib.Words
/-!
# Paging

`memory/paging.c`: one page directory and a pool of 256 page tables. A
directory entry holds the address of its table, so finding the table means
following a pointer: `PagingLayout` says where the linker put the pool and
`tableAt` turns an address back into a table of it. A pointer that leads
nowhere in the pool makes the functions answer `none`.

`ck_paging_flush_tlb` changes nothing that is modelled here.
-/
open Lib

namespace CheesecakeOS

abbrev CK_PAGE_TABLE_COUNT : U32 := 256#32
abbrev CK_PAGE_PRESENT : U32 := 0x001#32
abbrev CK_PAGE_WRITE : U32 := 0x002#32
abbrev CK_PAGE_KERNEL : U32 := CK_PAGE_PRESENT ||| CK_PAGE_WRITE

/-- Where the directory and the tables are: the tables are page-aligned and do
not run over the end of the address space. -/
structure PagingLayout where
  page_directory : U32
  page_tables : U32
  aligned : page_tables.toNat % 4096 = 0
  fits : page_tables.toNat + 256 * 4096 ≤ 2 ^ 32

/-- The statics of `paging.c`. -/
structure Paging where
  page_directory : Vector U32 1024
  page_tables : Vector (Vector U32 1024) 256
  page_table_count : U32

/-- The control registers that `ck_paging_enable` sets. -/
structure ControlRegs where
  cr0 : U32
  cr3 : U32

/-- Zero-initialised statics. -/
def Paging.zero : Paging := ⟨.replicate _ 0#32, .replicate _ (.replicate _ 0#32), 0#32⟩

/-- `&ck_page_tables[t]`. -/
def PagingLayout.table (L : PagingLayout) (t : U32) : U32 := L.page_tables + t * 4096

/-- The table a pointer leads to. -/
def PagingLayout.tableAt (L : PagingLayout) (addr : U32) : Option (Fin 256) :=
  let offset := (addr - L.page_tables).toNat
  if h : offset % 4096 = 0 ∧ offset / 4096 < 256 then some ⟨offset / 4096, h.2⟩ else none

namespace Paging

/-- `ck_page_directory[i]`. -/
def pde (s : Paging) (i : Fin 1024) : U32 := s.page_directory[i]

/-- `ck_page_tables[t][j]`. -/
def tab (s : Paging) (t : Fin 256) (j : Fin 1024) : U32 := s.page_tables[t][j]

def set_pde (s : Paging) (i : Fin 1024) (e : U32) : Paging := { s with page_directory := s.page_directory.set i e }

def set_pte (s : Paging) (t : Fin 256) (i : Fin 1024) (e : U32) : Paging :=
  { s with page_tables := s.page_tables.set t (s.page_tables[t].set i e) }

/-- `ck_page_table_count++;` -/
def count_table (s : Paging) : Paging := { s with page_table_count := s.page_table_count + 1 }

-- For the loop counters as indices.
instance neZero_tables : NeZero 256 := ⟨by decide⟩

instance neZero_entries : NeZero 1024 := ⟨by decide⟩

/-- `for (i = 0; i < 1024; i++) ck_page_tables[t][i] = e(i);` -/
def fill_table (s : Paging) (t : Fin 256) (e : Nat → U32) : Paging :=
  forRange 0 1024 s fun s i => s.set_pte t (.ofNat 1024 i) (e i)

end Paging

/-! ## The source -/

def ck_paging_get_pd_index (vaddr : U32) : U32 := (vaddr >>> 22) &&& 0x3FF#32

def ck_paging_get_pt_index (vaddr : U32) : U32 := (vaddr >>> 12) &&& 0x3FF#32

def ck_paging_create_pde (pt_address flags : U32) : U32 := (pt_address &&& 0xFFFFF000#32) ||| (flags &&& 0xFFF#32)

def ck_paging_create_pte (page_address flags : U32) : U32 := (page_address &&& 0xFFFFF000#32) ||| (flags &&& 0xFFF#32)

theorem and_3FF_lt (x : U32) : (x &&& 0x3FF#32).toNat < 1024 := by
  rw [BitVec.toNat_and]
  exact Nat.lt_of_le_of_lt Nat.and_le_right (by decide)

/-- The directory index of an address, as an index. -/
def pd_idx (vaddr : U32) : Fin 1024 := ⟨(ck_paging_get_pd_index vaddr).toNat, and_3FF_lt _⟩

/-- The table index of an address, as an index. -/
def pt_idx (vaddr : U32) : Fin 1024 := ⟨(ck_paging_get_pt_index vaddr).toNat, and_3FF_lt _⟩

def ck_paging_enable (L : PagingLayout) (c : ControlRegs) : ControlRegs :=
  { cr3 := L.page_directory, cr0 := c.cr0 ||| 0x80000000#32 }

/-- One round of the loop of `ck_paging_init`: a table of identity mappings. -/
def ck_paging_identity_table (L : PagingLayout) (s : Paging) (pt : Nat) : Paging :=
  let s := s.fill_table (.ofNat 256 pt) fun _ => 0
  let pt_base_addr := L.table (.ofNat 32 pt)
  let s := s.fill_table (.ofNat 256 pt) fun pte =>
    ck_paging_create_pte (.ofNat 32 pt * 1024 * 4096 + .ofNat 32 pte * 4096) CK_PAGE_KERNEL
  let s := s.set_pde (.ofNat 1024 pt) (ck_paging_create_pde pt_base_addr CK_PAGE_KERNEL)
  s.count_table

def ck_paging_init (L : PagingLayout) (s : Paging) (c : ControlRegs) : Paging × ControlRegs :=
  let s := forRange 0 1024 s fun s i => s.set_pde (.ofNat 1024 i) 0
  let s := { s with page_table_count := 0#32 }
  let s := forRange 0 256 s (ck_paging_identity_table L)
  (s, ck_paging_enable L c)

/-- The table of `vaddr`, through its directory entry. -/
def ck_paging_table_of (L : PagingLayout) (s : Paging) (vaddr : U32) : Option (Fin 256) :=
  L.tableAt (s.pde (pd_idx vaddr) &&& 0xFFFFF000#32)

/-- The next table of the pool, cleared, for `vaddr`'s directory entry. -/
def ck_paging_new_table (L : PagingLayout) (s : Paging) (vaddr : U32) : Paging :=
  let pt_addr := L.table s.page_table_count
  let s := s.fill_table (.ofNat 256 s.page_table_count.toNat) fun _ => 0
  let s := s.set_pde (pd_idx vaddr) (ck_paging_create_pde pt_addr CK_PAGE_KERNEL)
  s.count_table

/-- The branch for an absent directory entry: `none` if out of page tables. -/
def ck_paging_ensure_table (L : PagingLayout) (s : Paging) (vaddr : U32) : Option Paging :=
  if s.pde (pd_idx vaddr) &&& CK_PAGE_PRESENT = 0#32 then
    if s.page_table_count ≥ CK_PAGE_TABLE_COUNT then none else some (ck_paging_new_table L s vaddr)
  else some s

def ck_paging_map_page (L : PagingLayout) (s : Paging) (vaddr paddr flags : U32) : Option (Paging × U32) :=
  match ck_paging_ensure_table L s vaddr with
  | none => some (s, 0#32)
  | some s =>
    (ck_paging_table_of L s vaddr).map fun pt =>
      (s.set_pte pt (pt_idx vaddr) (ck_paging_create_pte paddr flags), 1#32)

def ck_paging_unmap_page (L : PagingLayout) (s : Paging) (vaddr : U32) : Option Paging :=
  if s.pde (pd_idx vaddr) &&& CK_PAGE_PRESENT = 0#32 then some s
  else (ck_paging_table_of L s vaddr).map fun pt => s.set_pte pt (pt_idx vaddr) 0

def ck_paging_virt_to_phys (L : PagingLayout) (s : Paging) (vaddr : U32) : Option U32 :=
  let page_offset := vaddr &&& 0xFFF#32
  if s.pde (pd_idx vaddr) &&& CK_PAGE_PRESENT = 0#32 then some 0#32
  else (ck_paging_table_of L s vaddr).map fun pt =>
    let pte := s.tab pt (pt_idx vaddr)
    if pte &&& CK_PAGE_PRESENT = 0#32 then 0#32 else (pte &&& 0xFFFFF000#32) ||| page_offset

/-! ## Words -/

/-- `x & 0xFFFFF000` is the page of `x`. -/
theorem toNat_and_page (x : U32) : (x &&& 0xFFFFF000#32).toNat = x.toNat / 4096 * 4096 := by
  have e : x &&& 0xFFFFF000#32 = (x >>> 12) <<< 12 := by
    apply BitVec.eq_of_getLsbD_eq
    intro i hi
    have hmask : ∀ i < 32, (0xFFFFF000#32).getLsbD i = decide (12 ≤ i) := by decide
    rw [BitVec.getLsbD_and, hmask i hi, BitVec.getLsbD_shiftLeft, BitVec.getLsbD_ushiftRight]
    by_cases h12 : 12 ≤ i
    · rw [Nat.add_sub_of_le h12]
      simp [h12, hi]
    · simp [h12, hi]
  rw [e, BitVec.toNat_shiftLeft, BitVec.toNat_ushiftRight, Nat.shiftRight_eq_div_pow, Nat.shiftLeft_eq]
  exact Nat.mod_eq_of_lt (by omega)

/-- A table's address survives being packed with flags. -/
theorem create_pde_and_page {a flags : U32} (ha : a.toNat % 4096 = 0) :
    ck_paging_create_pde a flags &&& 0xFFFFF000#32 = a := by
  have hlow : (flags &&& 0xFFF#32) &&& 0xFFFFF000#32 = 0#32 := by
    rw [BitVec.and_assoc]
    simp
  have hhigh : a &&& 0xFFFFF000#32 = a := BitVec.eq_of_toNat_eq (by rw [toNat_and_page]; omega)
  rw [ck_paging_create_pde, BitVec.and_or_distrib_right, hlow, BitVec.or_zero, hhigh, hhigh]

theorem create_pde_present (a : U32) : ck_paging_create_pde a CK_PAGE_KERNEL &&& CK_PAGE_PRESENT ≠ 0#32 := by
  have hmask : 0xFFFFF000#32 &&& CK_PAGE_PRESENT = 0#32 := by decide
  have hhigh : (a &&& 0xFFFFF000#32) &&& CK_PAGE_PRESENT = 0#32 := by
    rw [BitVec.and_assoc, hmask, BitVec.and_zero]
  rw [ck_paging_create_pde, BitVec.and_or_distrib_right, hhigh]
  decide

theorem toNat_pd_index (v : U32) : (ck_paging_get_pd_index v).toNat = v.toNat / 2 ^ 22 := by
  rw [ck_paging_get_pd_index, BitVec.toNat_and, BitVec.toNat_ushiftRight, Nat.shiftRight_eq_div_pow]
  exact (Nat.and_two_pow_sub_one_eq_mod _ 10).trans (Nat.mod_eq_of_lt (by omega))

theorem toNat_pt_index (v : U32) : (ck_paging_get_pt_index v).toNat = v.toNat / 4096 % 1024 := by
  rw [ck_paging_get_pt_index, BitVec.toNat_and, BitVec.toNat_ushiftRight, Nat.shiftRight_eq_div_pow]
  exact Nat.and_two_pow_sub_one_eq_mod _ 10

/-! ## Tables -/

namespace Paging

section Frame
variable (s : Paging) (t : Fin 256) (i : Fin 1024) (e : U32)

@[simp] theorem tab_set_pde : (s.set_pde i e).tab = s.tab := rfl
@[simp] theorem count_set_pde : (s.set_pde i e).page_table_count = s.page_table_count := rfl
@[simp] theorem tab_count_table : s.count_table.tab = s.tab := rfl
@[simp] theorem pde_count_table : s.count_table.pde = s.pde := rfl
@[simp] theorem count_count_table : s.count_table.page_table_count = s.page_table_count + 1 := rfl
@[simp] theorem pde_with_count (c : U32) : pde { s with page_table_count := c } = s.pde := rfl

end Frame

theorem tab_set_pte (s : Paging) (t : Fin 256) (i : Fin 1024) (e : U32) :
    (s.set_pte t i e).tab = Function.update s.tab t (Function.update (s.tab t) i e) := by
  funext a b
  by_cases hat : a = t
  · subst hat
    by_cases hbi : b = i
    · subst hbi
      simp [tab, set_pte]
    · have hne : (i : Nat) ≠ b := fun h => hbi (Fin.ext h.symm)
      rw [Function.update_self, Function.update_of_ne hbi]
      simp [tab, set_pte, hne]
  · have hne : (t : Nat) ≠ a := fun h => hat (Fin.ext h.symm)
    rw [Function.update_of_ne hat]
    simp [tab, set_pte, hne]

/-- The table after `k` rounds of filling it. -/
theorem fill_rounds (s : Paging) (t : Fin 256) (e : Nat → U32) {k : Nat} (hk : k ≤ 1024) :
    let u := forRange 0 k s fun s i => s.set_pte t (.ofNat 1024 i) (e i)
    u.tab = Function.update s.tab t (fun j => if j.val < k then e j else s.tab t j) ∧
      u.pde = s.pde ∧ u.page_table_count = s.page_table_count := by
  refine forRange_inv (fun k (u : Paging) =>
    u.tab = Function.update s.tab t (fun j => if j.val < k then e j else s.tab t j) ∧
      u.pde = s.pde ∧ u.page_table_count = s.page_table_count) (Nat.zero_le k) ?_ ?_
  · refine ⟨?_, rfl, rfl⟩
    simp only [Nat.not_lt_zero, if_false]
    exact (Function.update_eq_self t s.tab).symm
  · rintro i u - hik ⟨hu, hd, hc⟩
    have hi : (Fin.ofNat 1024 i).val = i := Nat.mod_eq_of_lt (by omega)
    refine ⟨?_, hd, hc⟩
    rw [tab_set_pte, hu, Function.update_idem, Function.update_self]
    congr 1
    funext j
    by_cases hj : j = Fin.ofNat 1024 i
    · rw [hj, Function.update_self, hi, if_pos (Nat.lt_succ_self i)]
    · have hji : j.val ≠ i := fun h => hj (Fin.ext (h.trans hi.symm))
      have hlt : j.val < i + 1 ↔ j.val < i := by omega
      rw [Function.update_of_ne hj]
      simp only [hlt]

/-- Filling a table changes nothing else. -/
theorem fill_table_spec (s : Paging) (t : Fin 256) (e : Nat → U32) :
    (s.fill_table t e).tab = Function.update s.tab t (fun j => e j) ∧
      (s.fill_table t e).pde = s.pde ∧ (s.fill_table t e).page_table_count = s.page_table_count := by
  obtain ⟨htab, hrest⟩ := fill_rounds s t e (Nat.le_refl 1024)
  refine ⟨htab.trans ?_, hrest⟩
  congr 1
  funext j
  exact if_pos j.isLt

-- Known by `fill_table_spec` from here on: unfolding it means running the loop.
attribute [irreducible] fill_table

theorem pde_set_pde (s : Paging) (i : Fin 1024) (e : U32) : (s.set_pde i e).pde = Function.update s.pde i e := by
  funext a
  by_cases ha : a = i
  · subst ha
    simp [pde, set_pde]
  · have hne : (i : Nat) ≠ a := fun h => ha (Fin.ext h.symm)
    rw [Function.update_of_ne ha]
    simp [pde, set_pde, hne]

theorem clear_directory (s : Paging) {k : Nat} (hk : k ≤ 1024) :
    ∀ i : Fin 1024, i.val < k → (forRange 0 k s fun s i => s.set_pde (.ofNat 1024 i) 0).pde i = 0#32 := by
  refine forRange_inv (fun k (u : Paging) => ∀ i : Fin 1024, i.val < k → u.pde i = 0#32) (Nat.zero_le k) ?_ ?_
  · intro i hi
    exact absurd hi (Nat.not_lt_zero _)
  · intro n u _ hn hu i hi
    have hv : (Fin.ofNat 1024 n).val = n := Nat.mod_eq_of_lt (by omega)
    rw [pde_set_pde]
    by_cases hin : i = Fin.ofNat 1024 n
    · rw [hin, Function.update_self]; rfl
    · have hne : i.val ≠ n := fun h => hin (Fin.ext (h.trans hv.symm))
      rw [Function.update_of_ne hin]
      exact hu i (by omega)

/-- The entry `ck_paging_init` makes for entry `j` of table `t`. -/
def identityEntry (t : Fin 256) (j : Fin 1024) : U32 :=
  ck_paging_create_pte (.ofNat 32 t * 1024 * 4096 + .ofNat 32 j * 4096) CK_PAGE_KERNEL

theorem identity_table_spec (L : PagingLayout) (s : Paging) (t : Fin 256) :
    (ck_paging_identity_table L s t).tab = Function.update s.tab t (identityEntry t) ∧
    (ck_paging_identity_table L s t).pde = Function.update s.pde (.ofNat 1024 t)
      (ck_paging_create_pde (L.table (.ofNat 32 t)) CK_PAGE_KERNEL) ∧
    (ck_paging_identity_table L s t).page_table_count = s.page_table_count + 1 := by
  have ht : Fin.ofNat 256 t = t := Fin.ext (Nat.mod_eq_of_lt t.isLt)
  simp only [ck_paging_identity_table, ht]
  obtain ⟨htab₀, hdir₀, hcnt₀⟩ := fill_table_spec s t fun _ => 0
  -- The two loops are kept out of sight, so that nothing below runs them.
  generalize (s.fill_table t fun _ => 0) = u at htab₀ hdir₀ hcnt₀ ⊢
  obtain ⟨htab, hdir, hcnt⟩ := fill_table_spec u t fun pte =>
    ck_paging_create_pte (.ofNat 32 t * 1024 * 4096 + .ofNat 32 pte * 4096) CK_PAGE_KERNEL
  generalize (u.fill_table t fun pte =>
    ck_paging_create_pte (.ofNat 32 t * 1024 * 4096 + .ofNat 32 pte * 4096) CK_PAGE_KERNEL) = w at htab hdir hcnt ⊢
  rw [tab_count_table, tab_set_pde, htab, htab₀, Function.update_idem, pde_count_table, pde_set_pde, hdir, hdir₀,
    count_count_table, count_set_pde, hcnt, hcnt₀]
  exact ⟨rfl, rfl, rfl⟩

/-- What `ck_paging_init` leaves: the first `k` directory entries point to the
tables in order, and every entry of these tables maps its page to itself. -/
structure Identity (L : PagingLayout) (k : Nat) (s : Paging) : Prop where
  pde : ∀ i, s.pde i = if i.val < k then ck_paging_create_pde (L.table (.ofNat 32 i)) CK_PAGE_KERNEL else 0#32
  tab : ∀ t j, t.val < k → s.tab t j = identityEntry t j
  count : s.page_table_count = .ofNat 32 k

theorem identity_step {L : PagingLayout} {k : Nat} {s : Paging} (hk : k < 256) (h : Identity L k s) :
    Identity L (k + 1) (ck_paging_identity_table L s k) := by
  obtain ⟨htab, hdir, hcnt⟩ := identity_table_spec L s ⟨k, hk⟩
  have hk' : (Fin.ofNat 1024 k).val = k := Nat.mod_eq_of_lt (by omega)
  refine ⟨fun i => ?_, fun t j ht => ?_, ?_⟩
  · rw [hdir]
    by_cases hik : i = Fin.ofNat 1024 k
    · rw [hik, Function.update_self, hk', if_pos (Nat.lt_succ_self k)]
    · have hne : i.val ≠ k := fun h => hik (Fin.ext (h.trans hk'.symm))
      have hlt : i.val < k + 1 ↔ i.val < k := by omega
      rw [Function.update_of_ne hik, h.pde i]
      simp only [hlt]
  · rw [htab]
    by_cases htk : t = ⟨k, hk⟩
    · rw [htk, Function.update_self]
    · have hne : t.val ≠ k := fun h => htk (Fin.ext h)
      rw [Function.update_of_ne htk]
      exact h.tab t j (by omega)
  · rw [hcnt, h.count]
    exact BitVec.eq_of_toNat_eq (by simp)

theorem identity_loop {L : PagingLayout} {s : Paging} (h : Identity L 0 s) :
    Identity L 256 (forRange 0 256 s (ck_paging_identity_table L)) :=
  forRange_inv (Identity L) (Nat.zero_le 256) h fun _ _ _ hk h => identity_step hk h

theorem init_spec (L : PagingLayout) (s : Paging) (c : ControlRegs) : Identity L 256 (ck_paging_init L s c).1 := by
  have hclear := clear_directory s (Nat.le_refl 1024)
  unfold ck_paging_init
  generalize (forRange 0 1024 s fun s i => s.set_pde (.ofNat 1024 i) 0) = u at hclear ⊢
  have hzero : Identity L 0 { u with page_table_count := 0#32 } := by
    refine ⟨fun i => ?_, fun t j ht => absurd ht (Nat.not_lt_zero _), rfl⟩
    rw [pde_with_count, if_neg (Nat.not_lt_zero _)]
    exact hclear i i.isLt
  dsimp only
  exact identity_loop hzero

end Paging

end CheesecakeOS
