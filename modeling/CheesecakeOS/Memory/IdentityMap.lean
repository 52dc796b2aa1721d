import CheesecakeOS.Memory.PageMap
import CheesecakeOS.Memory.PmemRuns
/-!
# Pages at their own address

`ck_heap_expand` uses a page at the physical address `ck_pmem_alloc_page`
returned. That works because `ck_paging_init` maps the first gigabyte to
itself, writable: `identity_mapped` for every byte of every page the allocator
can return, and for the kernel's megabyte.
-/
open Lib

namespace CheesecakeOS.Paging

/-- `v` is mapped to itself, present and writable in the directory entry and
in the table entry. -/
structure IdentityMapped (L : PagingLayout) (s : Paging) (v : U32) : Prop where
  phys : ck_paging_virt_to_phys L s v = some v
  pde : s.pde (pd_idx v) &&& CK_PAGE_KERNEL = CK_PAGE_KERNEL
  pte : ∃ t, ck_paging_table_of L s v = some t ∧ s.tab t (pt_idx v) &&& CK_PAGE_KERNEL = CK_PAGE_KERNEL

/-- The flags survive being packed with an address. -/
theorem create_pte_and_kernel (a : U32) : ck_paging_create_pte a CK_PAGE_KERNEL &&& CK_PAGE_KERNEL = CK_PAGE_KERNEL := by
  have hmask : 0xFFFFF000#32 &&& CK_PAGE_KERNEL = 0#32 := by decide
  have hhigh : (a &&& 0xFFFFF000#32) &&& CK_PAGE_KERNEL = 0#32 := by
    rw [BitVec.and_assoc, hmask, BitVec.and_zero]
  rw [ck_paging_create_pte, BitVec.and_or_distrib_right, hhigh, BitVec.zero_or]
  decide

/-- Page and offset put together again. -/
theorem page_or_offset (v : U32) : (v &&& 0xFFFFF000#32) ||| (v &&& 0xFFF#32) = v := by
  rw [← BitVec.and_or_distrib_left]
  have hall : 0xFFFFF000#32 ||| 0xFFF#32 = BitVec.allOnes 32 := by decide
  rw [hall, BitVec.and_allOnes]

section Identity
variable {L : PagingLayout} {s : Paging} (h : Identity L 256 s) {v : U32} (hv : v.toNat < 2 ^ 30)
include h hv

/-- The table of an address below a gigabyte. -/
theorem Identity.table_of : ∃ ht : v.toNat / 2 ^ 22 < 256, ck_paging_table_of L s v = some ⟨v.toNat / 2 ^ 22, ht⟩ ∧
    s.pde (pd_idx v) = ck_paging_create_pde (L.table (.ofNat 32 (v.toNat / 2 ^ 22))) CK_PAGE_KERNEL := by
  have ht : v.toNat / 2 ^ 22 < 256 := by omega
  have hidx : (pd_idx v).val = v.toNat / 2 ^ 22 := toNat_pd_index v
  have hpde := h.pde (pd_idx v)
  rw [hidx, if_pos ht] at hpde
  have hval : (BitVec.ofNat 32 (v.toNat / 2 ^ 22)).toNat = v.toNat / 2 ^ 22 := by
    rw [BitVec.toNat_ofNat]
    omega
  have hd := dir_create_pde (L := L) (by omega) hpde
  have hp := present_of_dir hd
  rw [dir_of_present hp] at hd
  exact ⟨ht, hd.trans (congrArg some (Fin.ext hval)), hpde⟩

theorem Identity.mapped : IdentityMapped L s v := by
  obtain ⟨ht, htab, hpde⟩ := h.table_of hv
  have hent := h.tab ⟨v.toNat / 2 ^ 22, ht⟩ (pt_idx v) ht
  have hj : (pt_idx v).val = v.toNat / 4096 % 1024 := toNat_pt_index v
  -- The address the entry was made for is the page of `v`.
  have hpage : (BitVec.ofNat 32 (v.toNat / 2 ^ 22) * 1024 * 4096 + .ofNat 32 (pt_idx v) * 4096 : U32) =
      v &&& 0xFFFFF000#32 := by
    apply BitVec.eq_of_toNat_eq
    rw [toNat_and_page, hj]
    simp only [BitVec.toNat_add, BitVec.toNat_mul, BitVec.toNat_ofNat, BitVec.ofNat_eq_ofNat]
    omega
  have hkernel := create_pte_and_kernel (v &&& 0xFFFFF000#32)
  simp only [identityEntry, hpage] at hent
  have hpresent : ck_paging_create_pte (v &&& 0xFFFFF000#32) CK_PAGE_KERNEL &&& CK_PAGE_PRESENT ≠ 0#32 :=
    create_pde_present _
  have hframe : ck_paging_create_pte (v &&& 0xFFFFF000#32) CK_PAGE_KERNEL &&& 0xFFFFF000#32 = v &&& 0xFFFFF000#32 :=
    create_pde_and_page (by rw [toNat_and_page]; omega)
  refine ⟨?_, ?_, ⟨_, htab, by rw [hent]; exact hkernel⟩⟩
  · have hp : s.pde (pd_idx v) &&& CK_PAGE_PRESENT ≠ 0#32 := by rw [hpde]; exact create_pde_present _
    rw [ck_paging_virt_to_phys, if_neg hp, htab, Option.map_some, hent, if_neg hpresent, hframe, page_or_offset]
  · rw [hpde]
    exact create_pte_and_kernel _

end Identity

/-- After `ck_pmem_init` and `ck_paging_init`, whatever pages are allocated and
freed: every byte of a page handed out, and of the kernel's megabyte, is mapped
to itself and writable. -/
theorem identity_mapped (L : PagingLayout) (s : Paging) (c : ControlRegs) (s₀ : Pmem) (ops : List Pmem.PmemOp) :
    (∀ k, k < 4096 → IdentityMapped L (ck_paging_init L s c).1
      ((ck_pmem_alloc_page (Pmem.run s₀ ops).mem).2 + .ofNat 32 k)) ∧
    ∀ v : U32, 0x100000 ≤ v.toNat → v.toNat < 0x200000 → IdentityMapped L (ck_paging_init L s c).1 v := by
  have hid := init_spec L s c
  generalize (ck_paging_init L s c).1 = u at hid ⊢
  refine ⟨fun k hk => hid.mapped ?_, fun v _ hv => hid.mapped (by omega)⟩
  have haddr : (ck_pmem_alloc_page (Pmem.run s₀ ops).mem).2.toNat ≤ 65535 * 4096 := by
    rcases Pmem.alloc_cases (Pmem.run s₀ ops).mem with ⟨page, hlt, -, -, hr, -⟩ | ⟨-, he⟩
    · rw [hr]
      exact Nat.mul_le_mul_right _ (Nat.le_of_lt_succ hlt)
    · rw [he]
      exact Nat.zero_le _
  rw [BitVec.toNat_add, BitVec.toNat_ofNat]
  omega

end CheesecakeOS.Paging
