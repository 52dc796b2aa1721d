import CheesecakeOS.Lib.Runs
import CheesecakeOS.Memory.PageMap
/-!
# What mapping a page achieves

Two things a caller of `ck_paging_map_page` asks for. The access rights: they
are those of the directory entry and of the table entry together, and directory
entries are made for the kernel only, so a page is writable as asked for and
never open to user mode (`rights_kept`). And the mapping itself: after
`ck_paging_init` every table of the pool is in use, so it is there exactly for
addresses in the first gigabyte (`mapped_iff`).
-/
open Lib

namespace CheesecakeOS

abbrev CK_PAGE_USER : U32 := 0x004#32

namespace Paging

variable {L : PagingLayout} {s s' : Paging} {v p f : U32}

/-! ## The directory -/

theorem pde_set_pte (s : Paging) (t : Fin 256) (i : Fin 1024) (e : U32) : (s.set_pte t i e).pde = s.pde := rfl

theorem new_table_pde (L : PagingLayout) (s : Paging) (v : U32) : (ck_paging_new_table L s v).pde =
    Function.update s.pde (pd_idx v) (ck_paging_create_pde (L.table s.page_table_count) CK_PAGE_KERNEL) := by
  simp only [ck_paging_new_table]
  obtain ⟨-, hpde, -⟩ := fill_table_spec s (.ofNat 256 s.page_table_count.toNat) fun _ => 0
  generalize (s.fill_table (.ofNat 256 s.page_table_count.toNat) fun _ => 0) = u at hpde ⊢
  rw [pde_count_table, pde_set_pde, hpde]

-- The loop that clears the table plays no part in what follows.
attribute [local irreducible] ck_paging_new_table

/-- What a mapping does to the directory: nothing, or an entry for the kernel
is made from a table of the pool. -/
theorem map_page_pde {r : U32} (h : ck_paging_map_page L s v p f = some (s', r)) :
    (s'.pde = s.pde ∧ s'.page_table_count = s.page_table_count) ∨
      (¬ s.Present (pd_idx v) ∧ s.page_table_count < CK_PAGE_TABLE_COUNT ∧ ∃ a, s'.pde =
        Function.update s.pde (pd_idx v) (ck_paging_create_pde a CK_PAGE_KERNEL)) := by
  unfold ck_paging_map_page ck_paging_ensure_table at h
  split at h
  · cases h
    exact .inl ⟨rfl, rfl⟩
  · next u hu =>
    obtain ⟨t, -, ht⟩ := Option.map_eq_some_iff.1 h
    have hs' : s' = u.set_pte t (pt_idx v) (ck_paging_create_pte p f) := (congrArg Prod.fst ht).symm
    split at hu
    · next hab =>
      split at hu
      · cases hu
      · next hlt =>
        right
        refine ⟨not_not.2 hab, BitVec.not_le.1 hlt, L.table s.page_table_count, ?_⟩
        rw [hs', pde_set_pte, ← Option.some.inj hu, new_table_pde]
    · cases hu
      rw [hs']
      exact .inl ⟨rfl, rfl⟩

theorem unmap_page_pde (h : ck_paging_unmap_page L s v = some s') :
    s'.pde = s.pde ∧ s'.page_table_count = s.page_table_count := by
  unfold ck_paging_unmap_page at h
  split at h
  · cases h
    exact ⟨rfl, rfl⟩
  · obtain ⟨t, -, ht⟩ := Option.map_eq_some_iff.1 h
    cases ht
    exact ⟨rfl, rfl⟩

/-- Directory entries are for the kernel. -/
def KernelDir (s : Paging) : Prop := ∀ i, s.Present i → s.pde i &&& 0xFFF#32 = CK_PAGE_KERNEL

theorem create_pde_flags (a f : U32) : ck_paging_create_pde a f &&& 0xFFF#32 = f &&& 0xFFF#32 := by
  have hhigh : (a &&& 0xFFFFF000#32) &&& 0xFFF#32 = 0#32 := by
    rw [BitVec.and_assoc]
    exact BitVec.and_zero
  rw [ck_paging_create_pde, BitVec.and_or_distrib_right, hhigh, BitVec.zero_or, BitVec.and_assoc, BitVec.and_self]

theorem Start.kernelDir {s₀ : Paging} (h : Start L s₀) : KernelDir s₀ := by
  cases h with
  | zero =>
    intro i hi
    simp [Present, pde, Paging.zero] at hi
  | init s c =>
    have hid := init_spec L s c
    generalize (ck_paging_init L s c).1 = u at hid ⊢
    intro i hi
    by_cases hlt : i.val < 256
    · rw [hid.pde i, if_pos hlt, create_pde_flags]
      rfl
    · rw [Present, hid.pde i, if_neg hlt] at hi
      exact absurd rfl hi

theorem KernelDir.map_page {r : U32} (h : KernelDir s) (hm : ck_paging_map_page L s v p f = some (s', r)) :
    KernelDir s' := by
  obtain ⟨he, -⟩ | ⟨-, -, a, he⟩ := map_page_pde hm
  · intro i hi
    rw [Present, he] at hi
    rw [he]
    exact h i hi
  · intro i hi
    by_cases hiv : i = pd_idx v
    · rw [he, hiv, Function.update_self, create_pde_flags]
      rfl
    · rw [Present, he, Function.update_of_ne hiv] at hi
      rw [he, Function.update_of_ne hiv]
      exact h i hi

theorem KernelDir.unmap_page (h : KernelDir s) (hm : ck_paging_unmap_page L s v = some s') : KernelDir s' := by
  intro i hi
  rw [Present, (unmap_page_pde hm).1] at hi
  rw [(unmap_page_pde hm).1]
  exact h i hi

/-! ## Rights -/

/-- What the processor lets a program do with the page of `v`: both levels have
to allow it. -/
def rights (L : PagingLayout) (s : Paging) (v : U32) : U32 :=
  (s.pde (pd_idx v) &&& s.entries L (vpn v)) &&& (CK_PAGE_WRITE ||| CK_PAGE_USER)

/-- An entry of the map is as writable as it says, and for the kernel only. -/
theorem KernelDir.rights_eq (h : KernelDir s) (he : s.entries L (vpn v) ≠ 0#32) :
    rights L s v = s.entries L (vpn v) &&& CK_PAGE_WRITE := by
  have hp : s.Present (pd_idx v) := not_not.1 fun hab => he (entries_of_absent hab)
  have hmask : CK_PAGE_WRITE ||| CK_PAGE_USER = 0xFFF#32 &&& (CK_PAGE_WRITE ||| CK_PAGE_USER) := by decide
  have hkernel : CK_PAGE_KERNEL &&& (CK_PAGE_WRITE ||| CK_PAGE_USER) = CK_PAGE_WRITE := by decide
  calc rights L s v
      = s.entries L (vpn v) &&& ((s.pde (pd_idx v) &&& 0xFFF#32) &&& (CK_PAGE_WRITE ||| CK_PAGE_USER)) := by
        rw [rights, BitVec.and_comm (s.pde _), BitVec.and_assoc, BitVec.and_assoc, ← hmask]
    _ = s.entries L (vpn v) &&& CK_PAGE_WRITE := by
        rw [h _ hp, hkernel]

/-- A low flag of a table entry is that of the flags it was made with. -/
theorem create_pte_and {m : U32} (hm : 0xFFF#32 &&& m = m) : ck_paging_create_pte p f &&& m = f &&& m := by
  calc ck_paging_create_pte p f &&& m
      = (ck_paging_create_pde p f &&& 0xFFF#32) &&& m := by rw [BitVec.and_assoc, hm]; rfl
    _ = f &&& m := by rw [create_pde_flags, BitVec.and_assoc, hm]

namespace PagingOp

/-- The address a call is about. -/
def vaddr : PagingOp → U32
  | .map v _ _ => v
  | .unmap v => v

end PagingOp

/-- A call about another page leaves the entry of a page alone. -/
theorem step_entry {op : PagingOp} (hap : TablesApart L s) (hop : vpn op.vaddr ≠ vpn v)
    (h : step L s op = some s') : s'.entries L (vpn v) = s.entries L (vpn v) := by
  cases op with
  | map w p f =>
    obtain ⟨⟨u, r⟩, hm, rfl⟩ := Option.map_eq_some_iff.1 h
    obtain ⟨-, -, he⟩ | ⟨-, s', he, -, hent⟩ := map_page_spec hap w p f
    · cases hm.symm.trans he
      rfl
    · cases hm.symm.trans he
      rw [hent]
      exact Function.update_of_ne hop.symm _ _
  | unmap w =>
    obtain ⟨s₁, he, -, hent, -⟩ := unmap_page_spec hap w
    cases h.symm.trans he
    rw [hent]
    exact Function.update_of_ne hop.symm _ _

theorem KernelDir.step {op : PagingOp} (hk : KernelDir s) (h : step L s op = some s') : KernelDir s' := by
  cases op with
  | map w p f =>
    obtain ⟨⟨u, r⟩, hm, rfl⟩ := Option.map_eq_some_iff.1 h
    exact hk.map_page hm
  | unmap w => exact hk.unmap_page h

/-- Calls about other pages leave the entry of a page, and its rights, alone. -/
theorem entry_run (later : List PagingOp) : ∀ s, TablesApart L s → KernelDir s →
    (∀ op ∈ later, vpn op.vaddr ≠ vpn v) →
    ∃ s', later.foldlM (step L) s = some s' ∧ KernelDir s' ∧ s'.entries L (vpn v) = s.entries L (vpn v) := by
  induction later with
  | nil => intro s _ hk _; exact ⟨s, rfl, hk, rfl⟩
  | cons op later ih =>
    intro s hap hk hother
    obtain ⟨u, hu, hap'⟩ := tablesApart_step hap op
    obtain ⟨s', hs', hk', he⟩ := ih u hap' (hk.step hu) fun o ho => hother o (List.mem_cons_of_mem op ho)
    refine ⟨s', by rw [List.foldlM_cons, hu]; exact hs', hk', he.trans ?_⟩
    exact step_entry hap (hother op List.mem_cons_self) hu

theorem KernelDir.rights_after (hap : TablesApart L s) (hk : KernelDir s) (hf : f &&& CK_PAGE_PRESENT ≠ 0#32)
    (hm : ck_paging_map_page L s v p f = some (s', 1#32)) (later : List PagingOp)
    (hother : ∀ op ∈ later, vpn op.vaddr ≠ vpn v) :
    ∃ s'', later.foldlM (Paging.step L) s' = some s'' ∧ rights L s'' v = f &&& CK_PAGE_WRITE := by
  obtain ⟨-, -, he⟩ | ⟨-, s₁, he, hap', hent⟩ := map_page_spec hap v p f
  · cases hm.symm.trans he
  · cases hm.symm.trans he
    have hentry : s'.entries L (vpn v) = ck_paging_create_pte p f := by
      rw [hent]
      exact Function.update_self _ _ _
    obtain ⟨s'', hs'', hk'', he''⟩ := entry_run later s' hap' (hk.map_page hm) hother
    rw [hentry] at he''
    -- The entry says that the page is present, so it is not 0.
    have hne : s''.entries L (vpn v) ≠ 0#32 := by
      intro h0
      have hflag : ck_paging_create_pte p f &&& CK_PAGE_PRESENT = f &&& CK_PAGE_PRESENT := create_pte_and (by decide)
      rw [← he'', h0, BitVec.zero_and] at hflag
      exact hf hflag.symm
    refine ⟨s'', hs'', ?_⟩
    rw [hk''.rights_eq hne, he'']
    exact create_pte_and (by decide)

/-- A page that was mapped is writable exactly if that was asked for, and is
never open to user mode, until it is mapped again or unmapped: directory
entries are all made with `CK_PAGE_KERNEL`. -/
theorem rights_kept (L : PagingLayout) (s₀ : Paging) (h₀ : Start L s₀) (ops : List PagingOp) (s : Paging)
    (hs : ops.foldlM (step L) s₀ = some s) (v p f : U32) (hf : f &&& CK_PAGE_PRESENT ≠ 0#32) (s' : Paging)
    (hm : ck_paging_map_page L s v p f = some (s', 1#32)) (later : List PagingOp)
    (hother : ∀ op ∈ later, vpn op.vaddr ≠ vpn v) :
    ∃ s'', later.foldlM (step L) s' = some s'' ∧ rights L s'' v = f &&& CK_PAGE_WRITE := by
  obtain ⟨u, hu, hap⟩ := tablesApart_run ops s₀ h₀.tablesApart
  cases hs.symm.trans hu
  have hk := foldlM_inv KernelDir (fun _ _ _ hk h => hk.step h) ops s₀ s h₀.kernelDir hs
  exact hk.rights_after hap hf hm later hother

/-- The first mapping of all finds a table. -/
theorem map_page_zero (L : PagingLayout) (v p f : U32) :
    ∃ s', ck_paging_map_page L .zero v p f = some (s', 1#32) := by
  obtain ⟨-, hfull, -⟩ | ⟨-, s', he, -, -⟩ := map_page_spec (tablesApart_zero L) v p f
  · cases hfull
  · exact ⟨s', he⟩

theorem rights_kept_user : ∃ s' s'',
    ck_paging_map_page someLayout .zero 0xD0000000#32 0x180000#32 (CK_PAGE_KERNEL ||| CK_PAGE_USER) =
      some (s', 1#32) ∧
    [PagingOp.map 0xD0001000#32 0x181000#32 CK_PAGE_PRESENT, .unmap 0xD0002000#32].foldlM (step someLayout) s' =
      some s'' ∧ rights someLayout s'' 0xD0000000#32 = CK_PAGE_WRITE := by
  obtain ⟨s', hm⟩ := map_page_zero someLayout 0xD0000000#32 0x180000#32 (CK_PAGE_KERNEL ||| CK_PAGE_USER)
  obtain ⟨s'', hs'', hr⟩ := rights_kept someLayout .zero .zero [] .zero rfl _ _ _ (by decide) s' hm
    [.map 0xD0001000#32 0x181000#32 CK_PAGE_PRESENT, .unmap 0xD0002000#32] (by decide)
  exact ⟨s', s'', hm, hs'', hr⟩

/-- User access that was asked for is not given, though the mapping succeeds. -/
theorem user_denied : ∃ s',
    ck_paging_map_page someLayout .zero 0xD0000000#32 0x180000#32 (CK_PAGE_KERNEL ||| CK_PAGE_USER) =
      some (s', 1#32) ∧
    rights someLayout s' 0xD0000000#32 ≠ (CK_PAGE_KERNEL ||| CK_PAGE_USER) &&& (CK_PAGE_WRITE ||| CK_PAGE_USER) := by
  obtain ⟨s', hm⟩ := map_page_zero someLayout 0xD0000000#32 0x180000#32 (CK_PAGE_KERNEL ||| CK_PAGE_USER)
  obtain ⟨s'', hs'', hr⟩ := (Start.zero (L := someLayout)).kernelDir.rights_after (tablesApart_zero someLayout)
    (by decide) hm [] (by simp)
  cases hs''
  refine ⟨s', hm, ?_⟩
  rw [hr]
  decide

/-! ## New regions -/

/-- The state after `ck_paging_init`: every table of the pool is taken, and the
directory covers the first gigabyte with them. -/
structure PoolUsed (s : Paging) : Prop where
  count : s.page_table_count = CK_PAGE_TABLE_COUNT
  present : ∀ i, s.Present i ↔ i.val < 256

theorem poolUsed_init (L : PagingLayout) (s : Paging) (c : ControlRegs) : PoolUsed (ck_paging_init L s c).1 := by
  have hid := init_spec L s c
  generalize (ck_paging_init L s c).1 = u at hid ⊢
  refine ⟨hid.count, fun i => ?_⟩
  rw [Present, hid.pde i]
  by_cases hlt : i.val < 256
  · rw [if_pos hlt]
    exact ⟨fun _ => hlt, fun _ => create_pde_present _⟩
  · rw [if_neg hlt]
    exact ⟨fun h => absurd rfl h, fun h => absurd h hlt⟩

theorem PoolUsed.congr (h : PoolUsed s) (hp : s'.pde = s.pde) (hc : s'.page_table_count = s.page_table_count) :
    PoolUsed s' := by
  refine ⟨hc.trans h.count, fun i => ?_⟩
  rw [Present, hp]
  exact h.present i

theorem PoolUsed.step {op : PagingOp} (hu : PoolUsed s) (h : step L s op = some s') : PoolUsed s' := by
  cases op with
  | map w p f =>
    obtain ⟨⟨u, r⟩, hm, rfl⟩ := Option.map_eq_some_iff.1 h
    obtain ⟨hp, hc⟩ | ⟨-, hlt, -⟩ := map_page_pde hm
    · exact hu.congr hp hc
    · rw [hu.count] at hlt
      exact absurd hlt (BitVec.lt_irrefl _)
  | unmap w => exact hu.congr (unmap_page_pde h).1 (unmap_page_pde h).2

theorem pd_idx_lt (v : U32) : (pd_idx v).val < 256 ↔ v.toNat < 2 ^ 30 := by
  rw [show (pd_idx v).val = v.toNat / 2 ^ 22 from toNat_pd_index v]
  omega

/-- With the pool used up, an address is mapped if it has a table already. -/
theorem PoolUsed.map_page (hu : PoolUsed s) (hap : TablesApart L s) (v p f : U32) :
    (v.toNat < 2 ^ 30 ∧ ∃ s', ck_paging_map_page L s v p f = some (s', 1#32) ∧ TablesApart L s' ∧
      s'.entries L = (s.entries L).map v p f) ∨
    (¬ v.toNat < 2 ^ 30 ∧ ck_paging_map_page L s v p f = some (s, 0#32)) := by
  have hp := (hu.present (pd_idx v)).trans (pd_idx_lt v)
  obtain ⟨hab, -, he⟩ | ⟨hor, s', he, hap', hent⟩ := map_page_spec hap v p f
  · exact .inr ⟨mt hp.2 hab, he⟩
  · have hfull : s.page_table_count.toNat = 256 := by rw [hu.count]; rfl
    exact .inl ⟨hp.1 (hor.resolve_right (not_not.2 hfull)), s', he, hap', hent⟩

theorem translate_map {M : PageMap} (hf : f &&& CK_PAGE_PRESENT ≠ 0#32) :
    (M.map v p f).translate v = (p &&& 0xFFFFF000#32) ||| (v &&& 0xFFF#32) := by
  have hentry : M.map v p f (vpn v) = ck_paging_create_pte p f := Function.update_self _ _ _
  have hflag : ck_paging_create_pte p f &&& CK_PAGE_PRESENT = f &&& CK_PAGE_PRESENT := create_pte_and (by decide)
  have hpage : ck_paging_create_pte p f &&& 0xFFFFF000#32 = p &&& 0xFFFFF000#32 := by
    have hlow : (f &&& 0xFFF#32) &&& 0xFFFFF000#32 = 0#32 := by
      rw [BitVec.and_assoc]
      exact BitVec.and_zero
    rw [ck_paging_create_pte, BitVec.and_or_distrib_right, hlow, BitVec.or_zero, BitVec.and_assoc, BitVec.and_self]
  rw [PageMap.translate, hentry, hflag, if_neg hf, hpage]

/-- After `ck_paging_init` and any calls, a page can be mapped exactly if it
lies in the first gigabyte: the tables for it are the whole pool. -/
theorem mapped_iff (L : PagingLayout) (s₀ : Paging) (c : ControlRegs) (ops : List PagingOp) (s : Paging)
    (hs : ops.foldlM (step L) (ck_paging_init L s₀ c).1 = some s) (v p f : U32)
    (hf : f &&& CK_PAGE_PRESENT ≠ 0#32) :
    (∃ s', ck_paging_map_page L s v p f = some (s', 1#32) ∧
      ck_paging_virt_to_phys L s' v = some ((p &&& 0xFFFFF000#32) ||| (v &&& 0xFFF#32))) ↔ v.toNat < 2 ^ 30 := by
  obtain ⟨u, hrun, hap⟩ := tablesApart_run ops _ (tablesApart_init L s₀ c)
  cases hs.symm.trans hrun
  have hu := foldlM_inv PoolUsed (fun _ _ _ hu h => hu.step h) ops _ s (poolUsed_init L s₀ c) hs
  obtain ⟨hlow, s', he, hap', hent⟩ | ⟨hhigh, he⟩ := hu.map_page hap v p f
  · refine ⟨fun _ => hlow, fun _ => ⟨s', he, ?_⟩⟩
    rw [virt_to_phys_spec hap', hent, translate_map hf]
  · refine ⟨?_, fun h => absurd h hhigh⟩
    rintro ⟨s', he', -⟩
    cases he.symm.trans he'

theorem mapped_iff_unmapped : ∃ s,
    [PagingOp.unmap 0x1000#32].foldlM (step someLayout) (ck_paging_init someLayout .zero ⟨0#32, 0#32⟩).1 = some s ∧
    ∃ s', ck_paging_map_page someLayout s 0x3FFFF000#32 0x180000#32 CK_PAGE_KERNEL = some (s', 1#32) ∧
      ck_paging_virt_to_phys someLayout s' 0x3FFFF000#32 = some 0x180000#32 := by
  obtain ⟨s, hs, -⟩ := tablesApart_run [PagingOp.unmap 0x1000#32] _
    (tablesApart_init someLayout .zero ⟨0#32, 0#32⟩)
  exact ⟨s, hs, (mapped_iff someLayout .zero ⟨0#32, 0#32⟩ _ s hs 0x3FFFF000#32 0x180000#32 CK_PAGE_KERNEL
    (by decide)).2 (by decide)⟩

/-- The first page above the first gigabyte cannot be mapped, right after
`ck_paging_init`. -/
theorem pool_used_up :
    (ck_paging_map_page someLayout (ck_paging_init someLayout .zero ⟨0#32, 0#32⟩).1 0x40000000#32 0x180000#32
      CK_PAGE_KERNEL).map Prod.snd = some 0#32 := by
  have hu := poolUsed_init someLayout .zero ⟨0#32, 0#32⟩
  have hap := tablesApart_init someLayout .zero ⟨0#32, 0#32⟩
  generalize (ck_paging_init someLayout .zero ⟨0#32, 0#32⟩).1 = s at hu hap ⊢
  obtain ⟨hlow, -⟩ | ⟨-, he⟩ := hu.map_page hap 0x40000000#32 0x180000#32 CK_PAGE_KERNEL
  · exact absurd hlow (by decide)
  · rw [he]
    rfl

end Paging

end CheesecakeOS
