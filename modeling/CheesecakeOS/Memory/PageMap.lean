import CheesecakeOS.Memory.Paging
/-!
# The page tables as a map

Seen from outside, the directory and its tables are one map from virtual page
numbers to page table entries, 0 where there is none. `entries` reads that map
off the tables. The representation invariant `TablesApart` says that present
directory entries lead to different tables of the pool, all of them already
counted; then the calls do to `entries` what `PageMap.map`, `PageMap.unmap` and
`PageMap.translate` say, and never follow a pointer out of the pool.
-/
open Lib

namespace CheesecakeOS

/-- An entry for every virtual page number. -/
abbrev PageMap := BitVec 20 → U32

/-- `vaddr >> 12`. -/
def vpn (vaddr : U32) : BitVec 20 := vaddr.extractLsb' 12 20

namespace PageMap

def map (M : PageMap) (vaddr paddr flags : U32) : PageMap :=
  Function.update M (vpn vaddr) ((paddr &&& 0xFFFFF000#32) ||| (flags &&& 0xFFF#32))

def unmap (M : PageMap) (vaddr : U32) : PageMap := Function.update M (vpn vaddr) 0#32

def translate (M : PageMap) (vaddr : U32) : U32 :=
  if M (vpn vaddr) &&& CK_PAGE_PRESENT = 0#32 then 0#32
  else (M (vpn vaddr) &&& 0xFFFFF000#32) ||| (vaddr &&& 0xFFF#32)

end PageMap

/-- A virtual page number as directory index and table index. -/
def splitVpn (p : BitVec 20) : Fin 1024 × Fin 1024 :=
  (⟨p.toNat / 1024, by omega⟩, ⟨p.toNat % 1024, by omega⟩)

theorem splitVpn_injective : Function.Injective splitVpn := by
  intro p q h
  have h1 := congrArg (fun x => x.1.val) h
  have h2 := congrArg (fun x => x.2.val) h
  simp only [splitVpn] at h1 h2
  exact BitVec.eq_of_toNat_eq (by omega)

theorem splitVpn_vpn (v : U32) : splitVpn (vpn v) = (pd_idx v, pt_idx v) := by
  have hv : (vpn v).toNat = v.toNat / 4096 := by
    rw [vpn, BitVec.extractLsb'_toNat, Nat.shiftRight_eq_div_pow]
    exact Nat.mod_eq_of_lt (by omega)
  refine Prod.ext (Fin.ext ?_) (Fin.ext ?_)
  · simp only [splitVpn, pd_idx, hv, toNat_pd_index]
    omega
  · simp only [splitVpn, pt_idx, hv, toNat_pt_index]

theorem toNat_table (L : PagingLayout) {t : U32} (ht : t.toNat < 256) :
    (L.table t).toNat = L.page_tables.toNat + t.toNat * 4096 := by
  have hfit := L.fits
  rw [PagingLayout.table, BitVec.toNat_add, BitVec.toNat_mul, show (4096 : U32).toNat = 4096 from rfl]
  omega

/-- The address of a table leads back to it. -/
theorem tableAt_table (L : PagingLayout) {t : U32} (ht : t.toNat < 256) :
    L.tableAt (L.table t) = some ⟨t.toNat, ht⟩ := by
  have hoff : (L.table t - L.page_tables).toNat = t.toNat * 4096 := by
    rw [BitVec.toNat_sub_of_le (BitVec.le_def.2 (by rw [toNat_table L ht]; omega)), toNat_table L ht]
    omega
  simp only [PagingLayout.tableAt, hoff]
  rw [dif_pos ⟨by omega, by omega⟩]
  simp

namespace Paging

/-- The directory entry of index `i` is present. -/
def Present (s : Paging) (i : Fin 1024) : Prop := s.pde i &&& CK_PAGE_PRESENT ≠ 0#32

/-- The table a directory index has. -/
def dir (L : PagingLayout) (s : Paging) (i : Fin 1024) : Option (Fin 256) :=
  if s.pde i &&& CK_PAGE_PRESENT = 0#32 then none else L.tableAt (s.pde i &&& 0xFFFFF000#32)

/-- The map the tables stand for. -/
def entries (L : PagingLayout) (s : Paging) : PageMap := TwoLevel.lookup 0#32 (s.dir L) s.tab ∘ splitVpn

/-- Present directory entries lead to different tables of the pool, all taken. -/
structure TablesApart (L : PagingLayout) (s : Paging) : Prop where
  count_le : s.page_table_count.toNat ≤ 256
  points : ∀ i, s.Present i →
    ∃ t, L.tableAt (s.pde i &&& 0xFFFFF000#32) = some t ∧ t.val < s.page_table_count.toNat
  apart : ∀ i j, s.Present i → s.Present j →
    L.tableAt (s.pde i &&& 0xFFFFF000#32) = L.tableAt (s.pde j &&& 0xFFFFF000#32) → i = j

section Dir
variable {L : PagingLayout} {s : Paging} {i : Fin 1024} {t : Fin 256}

theorem dir_of_present (h : s.Present i) : s.dir L i = L.tableAt (s.pde i &&& 0xFFFFF000#32) := if_neg h

theorem dir_of_absent (h : ¬ s.Present i) : s.dir L i = none := if_pos (not_not.1 h)

theorem present_of_dir (h : s.dir L i = some t) : s.Present i := by
  by_contra hn
  rw [dir_of_absent hn] at h
  cases h

/-- Without a table there is no entry. -/
theorem entries_of_absent {v : U32} (h : ¬ s.Present (pd_idx v)) : s.entries L (vpn v) = 0#32 := by
  rw [entries, Function.comp_apply, splitVpn_vpn]
  exact TwoLevel.lookup_none (dir_of_absent h)

theorem TablesApart.separate (h : TablesApart L s) : TwoLevel.Separate (s.dir L) := by
  intro i j t hi hj
  have hpi := present_of_dir hi
  have hpj := present_of_dir hj
  rw [dir_of_present hpi] at hi
  rw [dir_of_present hpj] at hj
  exact h.apart i j hpi hpj (hi.trans hj.symm)

theorem TablesApart.dir_lt (h : TablesApart L s) (hd : s.dir L i = some t) : t.val < s.page_table_count.toNat := by
  have hp := present_of_dir hd
  obtain ⟨u, hu, hlt⟩ := h.points i hp
  rw [dir_of_present hp, hu] at hd
  cases hd
  exact hlt

/-- The invariant, by way of `dir`. -/
theorem tablesApart_of_dir (hc : s.page_table_count.toNat ≤ 256)
    (hd : ∀ i, s.Present i → ∃ t, s.dir L i = some t ∧ t.val < s.page_table_count.toNat)
    (hs : TwoLevel.Separate (s.dir L)) : TablesApart L s := by
  refine ⟨hc, fun i hi => ?_, fun i j hi hj he => ?_⟩
  · obtain ⟨t, ht, hlt⟩ := hd i hi
    exact ⟨t, (dir_of_present hi).symm.trans ht, hlt⟩
  · obtain ⟨t, ht, -⟩ := hd i hi
    apply hs i j t ht
    rw [dir_of_present hj, ← he, ← dir_of_present hi]
    exact ht

/-- A directory entry made for table `t` leads to it. -/
theorem dir_create_pde {t : U32} (ht : t.toNat < 256)
    (h : s.pde i = ck_paging_create_pde (L.table t) CK_PAGE_KERNEL) : s.dir L i = some ⟨t.toNat, ht⟩ := by
  have hal : (L.table t).toNat % 4096 = 0 := by
    have := L.aligned
    rw [toNat_table L ht]
    omega
  have hp : s.Present i := by rw [Present, h]; exact create_pde_present _
  rw [dir_of_present hp, h, create_pde_and_page hal, tableAt_table L ht]

end Dir

/-! ## The start -/

theorem tablesApart_zero (L : PagingLayout) : TablesApart L .zero := by
  have hnone : ∀ i, ¬ Present .zero i := by simp [Present, pde, zero]
  exact ⟨by decide, fun i hi => absurd hi (hnone i), fun i j hi => absurd hi (hnone i)⟩

theorem tablesApart_init (L : PagingLayout) (s : Paging) (c : ControlRegs) :
    TablesApart L (ck_paging_init L s c).1 := by
  have hid := init_spec L s c
  generalize (ck_paging_init L s c).1 = u at hid ⊢
  have hcnt : u.page_table_count.toNat = 256 := by rw [hid.count]; rfl
  -- Directory index `i` has table `i`.
  have hdir : ∀ i, u.Present i → ∃ h : i.val < 256, u.dir L i = some ⟨i.val, h⟩ := by
    intro i hi
    by_cases hlt : i.val < 256
    · have hv : (BitVec.ofNat 32 i.val).toNat = i.val := by rw [BitVec.toNat_ofNat]; omega
      have hd := dir_create_pde (L := L) (t := .ofNat 32 i) (by omega) ((hid.pde i).trans (if_pos hlt))
      exact ⟨hlt, hd.trans (congrArg some (Fin.ext hv))⟩
    · rw [Present, hid.pde i, if_neg hlt] at hi
      exact absurd rfl hi
  refine tablesApart_of_dir (Nat.le_of_eq hcnt) (fun i hi => ?_) fun i j t hi hj => ?_
  · obtain ⟨h, hd⟩ := hdir i hi
    exact ⟨_, hd, by rw [hcnt]; exact h⟩
  · obtain ⟨h, hd⟩ := hdir i (present_of_dir hi)
    obtain ⟨h', hd'⟩ := hdir j (present_of_dir hj)
    have hti := Option.some.inj (hi.symm.trans hd)
    have htj := Option.some.inj (hj.symm.trans hd')
    have hval := congrArg (fun x : Fin 256 => x.val) (hti.symm.trans htj)
    exact Fin.ext hval

/-! ## One call -/

section Calls
variable {L : PagingLayout} {s : Paging} (h : TablesApart L s)
include h

/-- Writing the table entry of `v` changes that entry of the map. -/
theorem set_pte_spec {v : U32} {t : Fin 256} (ht : s.dir L (pd_idx v) = some t) (e : U32) :
    TablesApart L (s.set_pte t (pt_idx v) e) ∧
      (s.set_pte t (pt_idx v) e).entries L = Function.update (s.entries L) (vpn v) e := by
  refine ⟨⟨h.count_le, h.points, h.apart⟩, ?_⟩
  unfold entries
  rw [tab_set_pte, show (s.set_pte t (pt_idx v) e).dir L = s.dir L from rfl, TwoLevel.lookup_write h.separate ht,
    ← splitVpn_vpn, Function.update_comp_eq_of_injective _ splitVpn_injective]

/-- Taking a new table leaves the map as it is. -/
theorem new_table_spec {v : U32} (hab : ¬ s.Present (pd_idx v)) (hlt : s.page_table_count.toNat < 256) :
    TablesApart L (ck_paging_new_table L s v) ∧ (ck_paging_new_table L s v).entries L = s.entries L ∧
      ∃ t, (ck_paging_new_table L s v).dir L (pd_idx v) = some t := by
  have hidx : Fin.ofNat 256 s.page_table_count.toNat = ⟨s.page_table_count.toNat, hlt⟩ :=
    Fin.ext (Nat.mod_eq_of_lt hlt)
  simp only [ck_paging_new_table, hidx]
  obtain ⟨htab, hpde, hcnt⟩ := fill_table_spec s ⟨s.page_table_count.toNat, hlt⟩ fun _ => 0
  generalize (s.fill_table ⟨s.page_table_count.toNat, hlt⟩ fun _ => 0) = u at htab hpde hcnt ⊢
  generalize hn : (u.set_pde (pd_idx v) (ck_paging_create_pde (L.table s.page_table_count) CK_PAGE_KERNEL)).count_table = n
  have hntab : n.tab = Function.update s.tab ⟨s.page_table_count.toNat, hlt⟩ fun _ => 0 := by
    rw [← hn, tab_count_table, tab_set_pde, htab]
  have hnpde : n.pde = Function.update s.pde (pd_idx v)
      (ck_paging_create_pde (L.table s.page_table_count) CK_PAGE_KERNEL) := by
    rw [← hn, pde_count_table, pde_set_pde, hpde]
  have hncnt : n.page_table_count.toNat = s.page_table_count.toNat + 1 := by
    rw [← hn, count_count_table, count_set_pde, hcnt, BitVec.toNat_add]
    exact Nat.mod_eq_of_lt (by simp; omega)
  have hdir : n.dir L = Function.update (s.dir L) (pd_idx v) (some ⟨s.page_table_count.toNat, hlt⟩) := by
    funext i
    by_cases hi : i = pd_idx v
    · rw [hi, Function.update_self]
      exact dir_create_pde hlt (by rw [hnpde, Function.update_self])
    · rw [Function.update_of_ne hi]
      simp only [dir, hnpde, Function.update_of_ne hi]
  have hfresh : ∀ i, s.dir L i ≠ some ⟨s.page_table_count.toNat, hlt⟩ := fun i hi =>
    absurd (h.dir_lt hi) (Nat.lt_irrefl _)
  refine ⟨tablesApart_of_dir (by omega) (fun i hi => ?_) ?_, ?_, _, by rw [hdir, Function.update_self]⟩
  · by_cases hiv : i = pd_idx v
    · exact ⟨_, by rw [hdir, hiv, Function.update_self], by rw [hncnt]; exact Nat.lt_succ_self _⟩
    · have hp : s.Present i := by rwa [Present, hnpde, Function.update_of_ne hiv] at hi
      obtain ⟨t, ht, hlt'⟩ := h.points i hp
      exact ⟨t, by rw [hdir, Function.update_of_ne hiv, dir_of_present hp, ht], by omega⟩
  · rw [hdir]
    exact h.separate.take hfresh
  · unfold entries
    rw [hdir, hntab]
    exact congrArg (· ∘ splitVpn) (TwoLevel.lookup_take (dir_of_absent hab) hfresh)

theorem table_of_eq {v : U32} (hp : s.Present (pd_idx v)) :
    ∃ t, s.dir L (pd_idx v) = some t ∧ ck_paging_table_of L s v = some t := by
  obtain ⟨t, ht, -⟩ := h.points _ hp
  exact ⟨t, (dir_of_present hp).trans ht, ht⟩

/-- `ck_paging_map_page` fails without a trace when the directory entry is
absent and the pool is used up, and only then. -/
theorem map_page_spec (v p f : U32) :
    (¬ s.Present (pd_idx v) ∧ s.page_table_count.toNat = 256 ∧ ck_paging_map_page L s v p f = some (s, 0#32)) ∨
    ((s.Present (pd_idx v) ∨ s.page_table_count.toNat ≠ 256) ∧
      ∃ s', ck_paging_map_page L s v p f = some (s', 1#32) ∧ TablesApart L s' ∧
        s'.entries L = (s.entries L).map v p f) := by
  -- What remains once the directory entry is present.
  have store : ∀ u : Paging, TablesApart L u → u.Present (pd_idx v) → u.entries L = s.entries L →
      ∃ s', (ck_paging_table_of L u v).map (fun pt =>
        (u.set_pte pt (pt_idx v) (ck_paging_create_pte p f), 1#32)) = some (s', 1#32) ∧ TablesApart L s' ∧
        s'.entries L = (s.entries L).map v p f := by
    intro u hu hp he
    obtain ⟨t, hd, ht⟩ := table_of_eq hu hp
    obtain ⟨hap, hent⟩ := set_pte_spec hu hd (ck_paging_create_pte p f)
    refine ⟨_, by rw [ht]; rfl, hap, ?_⟩
    rw [hent, he]
    rfl
  have hge : s.page_table_count ≥ CK_PAGE_TABLE_COUNT ↔ s.page_table_count.toNat = 256 := by
    have := h.count_le
    rw [ge_iff_le, BitVec.le_def]
    simp
    omega
  unfold ck_paging_map_page ck_paging_ensure_table
  by_cases hp : s.Present (pd_idx v)
  · right
    rw [if_neg hp]
    exact ⟨.inl hp, store s h hp rfl⟩
  · rw [if_pos (not_not.1 hp)]
    by_cases hfull : s.page_table_count.toNat = 256
    · left
      rw [if_pos (hge.2 hfull)]
      exact ⟨hp, hfull, rfl⟩
    · right
      rw [if_neg (mt hge.1 hfull)]
      obtain ⟨hap, hent, t, ht⟩ := new_table_spec h hp (by have := h.count_le; omega)
      exact ⟨.inr hfull, store _ hap (present_of_dir ht) hent⟩

/-- `ck_paging_unmap_page` clears one entry and touches nothing else. -/
theorem unmap_page_spec (v : U32) : ∃ s', ck_paging_unmap_page L s v = some s' ∧ TablesApart L s' ∧
    s'.entries L = (s.entries L).unmap v ∧ s'.page_directory = s.page_directory ∧
    s'.page_table_count = s.page_table_count := by
  unfold ck_paging_unmap_page
  by_cases hp : s.Present (pd_idx v)
  · rw [if_neg hp]
    obtain ⟨t, hd, ht⟩ := table_of_eq h hp
    obtain ⟨hap, hent⟩ := set_pte_spec h hd 0
    exact ⟨_, by rw [ht]; rfl, hap, hent, rfl, rfl⟩
  · rw [if_pos (not_not.1 hp)]
    refine ⟨s, rfl, h, ?_, rfl, rfl⟩
    -- There was no entry to remove.
    rw [PageMap.unmap, ← entries_of_absent (L := L) hp, Function.update_eq_self]

theorem virt_to_phys_spec (v : U32) : ck_paging_virt_to_phys L s v = some ((s.entries L).translate v) := by
  unfold ck_paging_virt_to_phys PageMap.translate
  rw [entries, Function.comp_apply, splitVpn_vpn]
  by_cases hp : s.Present (pd_idx v)
  · obtain ⟨t, hd, ht⟩ := table_of_eq h hp
    rw [TwoLevel.lookup_some hd, ht]
    exact if_neg hp
  · rw [TwoLevel.lookup_none (dir_of_absent hp)]
    exact if_pos (not_not.1 hp)

end Calls

/-! ## Runs -/

inductive PagingOp where
  | map (vaddr paddr flags : U32)
  | unmap (vaddr : U32)

def step (L : PagingLayout) (s : Paging) : PagingOp → Option Paging
  | .map v p f => (ck_paging_map_page L s v p f).map Prod.fst
  | .unmap v => ck_paging_unmap_page L s v

/-- Where runs start: zero-initialised statics, or after `ck_paging_init`. -/
inductive Start (L : PagingLayout) : Paging → Prop
  | zero : Start L .zero
  | init (s : Paging) (c : ControlRegs) : Start L (ck_paging_init L s c).1

theorem tablesApart_step {L : PagingLayout} {s : Paging} (h : TablesApart L s) (op : PagingOp) :
    ∃ s', step L s op = some s' ∧ TablesApart L s' := by
  cases op with
  | map v p f =>
    rcases map_page_spec h v p f with ⟨-, -, he⟩ | ⟨-, s', he, hap, -⟩
    · exact ⟨s, by simp [step, he], h⟩
    · exact ⟨s', by simp [step, he], hap⟩
  | unmap v =>
    obtain ⟨s', he, hap, -⟩ := unmap_page_spec h v
    exact ⟨s', he, hap⟩

theorem tablesApart_run {L : PagingLayout} (ops : List PagingOp) :
    ∀ s, TablesApart L s → ∃ s', ops.foldlM (step L) s = some s' ∧ TablesApart L s' := by
  induction ops with
  | nil => intro s h; exact ⟨s, rfl, h⟩
  | cons op ops ih =>
    intro s h
    obtain ⟨u, hu, hap⟩ := tablesApart_step h op
    obtain ⟨s', hs', hap'⟩ := ih u hap
    exact ⟨s', by rw [List.foldlM_cons, hu]; exact hs', hap'⟩

theorem Start.tablesApart {L : PagingLayout} {s : Paging} (h : Start L s) : TablesApart L s := by
  cases h with
  | zero => exact tablesApart_zero L
  | init s c => exact tablesApart_init L s c

/-- Every run stays within the tables, and in the state it reaches the tables
are apart and the calls act on the page map as they should. -/
theorem page_map_refined (L : PagingLayout) (s₀ : Paging) (h₀ : Start L s₀) (ops : List PagingOp) :
    ∃ s, ops.foldlM (step L) s₀ = some s ∧ TablesApart L s ∧
      (∀ v p f, ∃ s' r, ck_paging_map_page L s v p f = some (s', r) ∧
        (r = 0#32 ↔ ¬ s.Present (pd_idx v) ∧ s.page_table_count.toNat = 256) ∧ (r = 0#32 → s' = s) ∧
        (r ≠ 0#32 → r = 1#32 ∧ s'.entries L = (s.entries L).map v p f)) ∧
      (∀ v, ∃ s', ck_paging_unmap_page L s v = some s' ∧ s'.entries L = (s.entries L).unmap v) ∧
      ∀ v, ck_paging_virt_to_phys L s v = some ((s.entries L).translate v) := by
  obtain ⟨s, hs, hap⟩ := tablesApart_run ops s₀ h₀.tablesApart
  refine ⟨s, hs, hap, fun v p f => ?_, fun v => ?_, fun v => virt_to_phys_spec hap v⟩
  · rcases map_page_spec hap v p f with ⟨hab, hfull, he⟩ | ⟨hno, s', he, -, hent⟩
    · exact ⟨s, 0#32, he, ⟨fun _ => ⟨hab, hfull⟩, fun _ => rfl⟩, fun _ => rfl, fun hr => absurd rfl hr⟩
    · refine ⟨s', 1#32, he, ⟨fun hr => absurd hr (by decide), fun ⟨hab, hfull⟩ => ?_⟩,
        fun hr => absurd hr (by decide), fun _ => ⟨rfl, hent⟩⟩
      exact absurd (hno.resolve_left hab) (not_not.2 hfull)
  · obtain ⟨s', he, -, hent, -⟩ := unmap_page_spec hap v
    exact ⟨s', he, hent⟩

/-- Tables right behind a directory at the start of the image. -/
def someLayout : PagingLayout := ⟨0x101000#32, 0x102000#32, by decide, by decide⟩

theorem page_map_refined_zero : Start someLayout .zero ∧
    ∃ s, [PagingOp.map 0xD0000000#32 0x180000#32 CK_PAGE_KERNEL].foldlM (step someLayout) .zero = some s ∧
      TablesApart someLayout s ∧ ∀ v, ck_paging_virt_to_phys someLayout s v = some ((s.entries someLayout).translate v) := by
  obtain ⟨s, hs, hap, -, -, hv⟩ := page_map_refined someLayout .zero .zero
    [.map 0xD0000000#32 0x180000#32 CK_PAGE_KERNEL]
  exact ⟨.zero, s, hs, hap, hv⟩

end Paging

end CheesecakeOS
