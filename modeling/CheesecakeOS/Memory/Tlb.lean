import CheesecakeOS.Lib.Caching
import CheesecakeOS.Memory.PageMap
/-!
# Cached translations

The functions of `memory/paging.c` store by store, next to a processor that may
cache the translation of any page that has one, at any moment. What is cached
is the pair of entries the walk found. `invlpg` drops what is cached for its
page, a load of CR3 everything.

The stores of a function are listed from the state it is called in;
`exec_initStores`, `exec_mapStores` and `exec_unmapStores` say that they add up
to the functions as modelled in `Paging`.
-/
open Lib Lib.Caching

namespace CheesecakeOS.Paging

/-- One step of a paging function that the processor or the tables can tell. -/
inductive Store where
  /-- `ck_page_directory[i] = e;` -/
  | pde (i : Fin 1024) (e : U32)
  /-- `ck_page_tables[t][i] = e;` -/
  | pte (t : Fin 256) (i : Fin 1024) (e : U32)
  /-- `ck_page_table_count = 0;` -/
  | reset_count
  /-- `ck_page_table_count++;` -/
  | count_table
  /-- `ck_paging_flush_tlb(vaddr);` -/
  | flush_tlb (vaddr : U32)
  /-- `ck_paging_enable();` -/
  | enable

def exec (s : Paging) : Store → Paging
  | .pde i e => s.set_pde i e
  | .pte t i e => s.set_pte t i e
  | .reset_count => { s with page_table_count := 0#32 }
  | .count_table => s.count_table
  | .flush_tlb _ => s
  | .enable => s

def flushes : Store → BitVec 20 → Prop
  | .flush_tlb vaddr, p => p = vpn vaddr
  | .enable, _ => True
  | _, _ => False

/-- What the processor finds for a page: a directory entry and a table entry, both present. -/
def walk (L : PagingLayout) (s : Paging) (p : BitVec 20) : Option (U32 × U32) :=
  (s.dir L (splitVpn p).1).bind fun t =>
    let e := s.tab t (splitVpn p).2
    if e &&& CK_PAGE_PRESENT = 0#32 then none else some (s.pde (splitVpn p).1, e)

/-! ## The stores of each function -/

def fillStores (t : Fin 256) (e : Nat → U32) : List Store :=
  (List.range' 0 1024).map fun i => .pte t (.ofNat 1024 i) (e i)

def identityStores (L : PagingLayout) (pt : Nat) : List Store :=
  fillStores (.ofNat 256 pt) (fun _ => 0) ++
    fillStores (.ofNat 256 pt) (fun pte =>
      ck_paging_create_pte (.ofNat 32 pt * 1024 * 4096 + .ofNat 32 pte * 4096) CK_PAGE_KERNEL) ++
    [.pde (.ofNat 1024 pt) (ck_paging_create_pde (L.table (.ofNat 32 pt)) CK_PAGE_KERNEL), .count_table]

def initStores (L : PagingLayout) : List Store :=
  (List.range' 0 1024).map (fun i => .pde (.ofNat 1024 i) 0) ++ [.reset_count] ++
    (List.range' 0 256).flatMap (identityStores L) ++ [.enable]

def newTableStores (L : PagingLayout) (s : Paging) (vaddr : U32) : List Store :=
  fillStores (.ofNat 256 s.page_table_count.toNat) (fun _ => 0) ++
    [.pde (pd_idx vaddr) (ck_paging_create_pde (L.table s.page_table_count) CK_PAGE_KERNEL), .count_table,
      .flush_tlb vaddr]

/-- The stores before the table entry: none if the table is there. -/
def ensureStores (L : PagingLayout) (s : Paging) (vaddr : U32) : List Store :=
  if s.pde (pd_idx vaddr) &&& CK_PAGE_PRESENT = 0#32 then newTableStores L s vaddr else []

/-- The stores of `ck_paging_map_page`; `none` if a pointer leads out of the pool. -/
def mapStores (L : PagingLayout) (s : Paging) (vaddr paddr flags : U32) : Option (List Store) :=
  match ck_paging_ensure_table L s vaddr with
  | none => some []
  | some u => (ck_paging_table_of L u vaddr).map fun pt =>
      ensureStores L s vaddr ++ [.pte pt (pt_idx vaddr) (ck_paging_create_pte paddr flags), .flush_tlb vaddr]

def unmapStores (L : PagingLayout) (s : Paging) (vaddr : U32) : Option (List Store) :=
  if s.pde (pd_idx vaddr) &&& CK_PAGE_PRESENT = 0#32 then some []
  else (ck_paging_table_of L s vaddr).map fun pt => [.pte pt (pt_idx vaddr) 0, .flush_tlb vaddr]

inductive TlbOp where
  | init
  | map (vaddr paddr flags : U32)
  | unmap (vaddr : U32)

def stores (L : PagingLayout) (s : Paging) : TlbOp → Option (List Store)
  | .init => some (initStores L)
  | .map v p f => mapStores L s v p f
  | .unmap v => unmapStores L s v

/-! ## They add up to the functions -/

theorem exec_fillStores (s : Paging) (t : Fin 256) (e : Nat → U32) :
    (fillStores t e).foldl exec s = s.fill_table t e := by
  unfold fillStores fill_table forRange
  rw [List.foldl_map]
  rfl

theorem exec_identityStores (L : PagingLayout) (s : Paging) (pt : Nat) :
    (identityStores L pt).foldl exec s = ck_paging_identity_table L s pt := by
  unfold identityStores ck_paging_identity_table
  rw [List.foldl_append, List.foldl_append, exec_fillStores, exec_fillStores]
  rfl

theorem exec_initStores (L : PagingLayout) (s : Paging) (c : ControlRegs) :
    (initStores L).foldl exec s = (ck_paging_init L s c).1 := by
  unfold initStores ck_paging_init forRange
  rw [List.foldl_append, List.foldl_append, List.foldl_append, List.foldl_map, List.foldl_flatMap]
  simp only [exec_identityStores, List.foldl_cons, List.foldl_nil, exec, Nat.sub_zero]

theorem exec_ensureStores {L : PagingLayout} {s u : Paging} {v : U32} (h : ck_paging_ensure_table L s v = some u) :
    (ensureStores L s v).foldl exec s = u := by
  unfold ck_paging_ensure_table at h
  unfold ensureStores
  split at h
  · next hab =>
    rw [if_pos hab]
    split at h
    · cases h
    · rw [← Option.some.inj h, newTableStores, List.foldl_append, exec_fillStores]
      rfl
  · next hp =>
    rw [if_neg hp]
    exact Option.some.inj h

theorem exec_mapStores (L : PagingLayout) (s : Paging) (v p f : U32) :
    (mapStores L s v p f).map (·.foldl exec s) = (ck_paging_map_page L s v p f).map Prod.fst := by
  unfold mapStores ck_paging_map_page
  cases he : ck_paging_ensure_table L s v with
  | none => rfl
  | some u =>
    dsimp only
    rw [Option.map_map, Option.map_map]
    congr 1
    funext pt
    rw [Function.comp_apply, List.foldl_append, exec_ensureStores he]
    rfl

theorem exec_unmapStores (L : PagingLayout) (s : Paging) (v : U32) :
    (unmapStores L s v).map (·.foldl exec s) = ck_paging_unmap_page L s v := by
  unfold unmapStores ck_paging_unmap_page
  split
  · rfl
  · rw [Option.map_map]
    rfl

/-! ## What a store changes -/

section Walks
variable {L : PagingLayout} {s : Paging}

theorem walk_congr {s' : Paging} (hp : s'.pde = s.pde) (ht : s'.tab = s.tab) : walk L s' = walk L s := by
  funext p
  have hd : s'.dir L = s.dir L := by
    funext i
    simp only [dir, hp]
  simp only [walk, hp, ht, hd]

/-- A table in use by nobody. -/
def Unused (L : PagingLayout) (t : Fin 256) (s : Paging) : Prop := ∀ i, s.dir L i ≠ some t

theorem walk_unused {t : Fin 256} (h : Unused L t s) (i : Fin 1024) (e : U32) :
    walk L (s.set_pte t i e) = walk L s := by
  funext p
  simp only [walk, show (s.set_pte t i e).dir L = s.dir L from rfl, show (s.set_pte t i e).pde = s.pde from rfl]
  cases hd : s.dir L (splitVpn p).1 with
  | none => rfl
  | some u =>
    have hu : u ≠ t := fun he => h _ (he ▸ hd)
    simp only [Option.bind_some, tab_set_pte, Function.update_of_ne hu]

/-- A directory entry for an index that had none. -/
theorem keeps_absent {i : Fin 1024} (h : ¬ s.Present i) (e : U32) (p : BitVec 20) :
    Keeps (walk L) exec s (.pde i e) p := by
  intro w hw
  have hpi : (splitVpn p).1 ≠ i := by
    intro he
    simp only [walk, he, dir_of_absent h] at hw
    cases hw
  have hpde : (s.set_pde i e).pde (splitVpn p).1 = s.pde (splitVpn p).1 := by
    rw [pde_set_pde, Function.update_of_ne hpi]
  rw [← hw]
  simp only [walk, exec, dir, hpde, tab_set_pde]

/-- The entry of one page: other pages keep theirs. -/
theorem keeps_other (h : TablesApart L s) {v : U32} {t : Fin 256} (ht : s.dir L (pd_idx v) = some t) (e : U32)
    {p : BitVec 20} (hp : p ≠ vpn v) : Keeps (walk L) exec s (.pte t (pt_idx v) e) p := by
  intro w hw
  rw [← hw]
  simp only [walk, exec, show (s.set_pte t (pt_idx v) e).dir L = s.dir L from rfl,
    show (s.set_pte t (pt_idx v) e).pde = s.pde from rfl]
  cases hd : s.dir L (splitVpn p).1 with
  | none => rfl
  | some u =>
    have htab : (s.set_pte t (pt_idx v) e).tab u (splitVpn p).2 = s.tab u (splitVpn p).2 := by
      rw [tab_set_pte]
      by_cases hu : u = t
      · subst hu
        -- The same table, so the same directory index: the table index differs.
        have hi := h.separate _ _ _ hd ht
        have hj : (splitVpn p).2 ≠ pt_idx v := by
          intro he
          apply hp
          apply splitVpn_injective
          rw [splitVpn_vpn]
          exact Prod.ext hi he
        rw [Function.update_self, Function.update_of_ne hj]
      · rw [Function.update_of_ne hu]
    simp only [Option.bind_some, htab]

end Walks

/-! ## Each function settles its doubts -/

section Settle
variable {L : PagingLayout} {s : Paging}

/-- A page's entry is written, then the page flushed. -/
theorem settles_write (h : TablesApart L s) {v : U32} {t : Fin 256} (ht : s.dir L (pd_idx v) = some t) (e : U32) :
    Settles (walk L) exec flushes (TablesApart L) [.pte t (pt_idx v) e, .flush_tlb v] ∅ s := by
  apply Settles.change (k := vpn v)
  · intro p hp
    exact keeps_other h ht e hp
  · rfl
  · intro p w hw
    exact hw
  · exact ⟨rfl, (set_pte_spec h ht e).1⟩

/-- Before that, a table is cleared and entered in the directory; no lookup changes. -/
theorem settles_new_table (h : TablesApart L s) {v : U32} (hab : ¬ s.Present (pd_idx v))
    (hlt : s.page_table_count.toNat < 256) {ms : List Store}
    (hms : Settles (walk L) exec flushes (TablesApart L) ms ∅ (ck_paging_new_table L s v)) :
    Settles (walk L) exec flushes (TablesApart L) (newTableStores L s v ++ ms) ∅ s := by
  have hunused : Unused L (.ofNat 256 s.page_table_count.toNat) s := by
    intro i hi
    have hlt' := h.dir_lt hi
    rw [show (Fin.ofNat 256 s.page_table_count.toNat).val = _ from Nat.mod_eq_of_lt hlt] at hlt'
    exact Nat.lt_irrefl _ hlt'
  unfold newTableStores
  rw [List.append_assoc]
  -- While the table is cleared, nobody uses it and the directory stays.
  apply Settles.quiets (I := fun u => u.pde = s.pde ∧ Unused L (.ofNat 256 s.page_table_count.toNat) u)
  · intro u hu m hm
    obtain ⟨i, -, rfl⟩ := List.mem_map.1 hm
    exact hu
  · intro u hu m hm p w hw
    obtain ⟨i, -, rfl⟩ := List.mem_map.1 hm
    rw [← hw]
    exact congrFun (walk_unused hu.2 _ _) p
  · exact ⟨rfl, hunused⟩
  · rw [exec_fillStores]
    have hfill := (fill_table_spec s (.ofNat 256 s.page_table_count.toNat) fun _ => 0).2.1
    unfold ck_paging_new_table at hms
    dsimp only at hms
    generalize (s.fill_table (.ofNat 256 s.page_table_count.toNat) fun _ => 0) = u at hfill hms ⊢
    have habu : ¬ u.Present (pd_idx v) := by rwa [Present, hfill]
    apply Settles.quiet
    · intro p
      exact keeps_absent habu _ p
    apply Settles.quiet
    · intro p w hw
      rw [← hw]
      exact congrFun (walk_congr rfl rfl) p
    apply Settles.quiet
    · intro p w hw
      exact hw
    exact hms

theorem settles_map (h : TablesApart L s) {v p f : U32} {ms : List Store} (hms : mapStores L s v p f = some ms) :
    Settles (walk L) exec flushes (TablesApart L) ms ∅ s := by
  unfold mapStores ck_paging_ensure_table at hms
  unfold ensureStores at hms
  by_cases hp : s.Present (pd_idx v)
  · rw [if_neg hp, if_neg hp] at hms
    obtain ⟨t, hd, ht⟩ := table_of_eq h hp
    simp only [ht, Option.map_some, List.nil_append, Option.some.injEq] at hms
    rw [← hms]
    exact settles_write h hd _
  · rw [if_pos (not_not.1 hp), if_pos (not_not.1 hp)] at hms
    by_cases hfull : s.page_table_count ≥ CK_PAGE_TABLE_COUNT
    · rw [if_pos hfull] at hms
      rw [← Option.some.inj hms]
      exact ⟨rfl, h⟩
    · have hlt : s.page_table_count.toNat < 256 := by
        rw [ge_iff_le, BitVec.le_def] at hfull
        exact Nat.lt_of_not_le hfull
      rw [if_neg hfull] at hms
      obtain ⟨hap, -, t, hd⟩ := new_table_spec h hp hlt
      obtain ⟨t', hd', ht'⟩ := table_of_eq hap (present_of_dir hd)
      simp only [ht', Option.map_some, Option.some.injEq] at hms
      rw [← hms]
      exact settles_new_table h hp hlt (settles_write hap hd' _)

theorem settles_unmap (h : TablesApart L s) {v : U32} {ms : List Store} (hms : unmapStores L s v = some ms) :
    Settles (walk L) exec flushes (TablesApart L) ms ∅ s := by
  unfold unmapStores at hms
  by_cases hp : s.Present (pd_idx v)
  · rw [if_neg hp] at hms
    obtain ⟨t, hd, ht⟩ := table_of_eq h hp
    simp only [ht, Option.map_some, Option.some.injEq] at hms
    rw [← hms]
    exact settles_write h hd _
  · rw [if_pos (not_not.1 hp)] at hms
    rw [← Option.some.inj hms]
    exact ⟨rfl, h⟩

/-- Whatever is cached while the tables are built, the load of CR3 drops it. -/
theorem settles_init (L : PagingLayout) (s : Paging) :
    Settles (walk L) exec flushes (TablesApart L) (initStores L) ∅ s := by
  have hgood := tablesApart_init L s ⟨0, 0⟩
  rw [← exec_initStores] at hgood
  unfold initStores at hgood ⊢
  apply settles_flush
  · intro p
    exact trivial
  · intro u p w hw
    exact hw
  · exact hgood

theorem settles_op (h : TablesApart L s) (op : TlbOp) {ms : List Store} (hms : stores L s op = some ms) :
    Settles (walk L) exec flushes (TablesApart L) ms ∅ s := by
  cases op with
  | init =>
    rw [← Option.some.inj hms]
    exact settles_init L s
  | map v p f => exact settles_map h hms
  | unmap v => exact settles_unmap h hms

/-- No function follows a pointer out of the pool. -/
theorem stores_some (h : TablesApart L s) (op : TlbOp) : ∃ ms, stores L s op = some ms := by
  cases op with
  | init => exact ⟨_, rfl⟩
  | map v p f =>
    apply Option.isSome_iff_exists.1
    have he := congrArg Option.isSome (exec_mapStores L s v p f)
    obtain ⟨s', hs', -⟩ := tablesApart_step h (.map v p f)
    rw [Option.isSome_map] at he
    rw [stores, he, show (ck_paging_map_page L s v p f).map Prod.fst = some s' from hs']
    rfl
  | unmap v =>
    apply Option.isSome_iff_exists.1
    have he := congrArg Option.isSome (exec_unmapStores L s v)
    obtain ⟨s', hs', -⟩ := unmap_page_spec h v
    rw [Option.isSome_map] at he
    rw [stores, he, hs']
    rfl

end Settle

/-! ## Runs -/

/-- The tables, the TLB, and what remains of the function being executed. -/
abbrev Tlb := System Paging (BitVec 20) (U32 × U32) Store

/-- Zero-initialised tables and nothing cached. -/
def Tlb.boot : Tlb := ⟨.zero, ∅, []⟩

def Tlb.Step (L : PagingLayout) : Tlb → Act TlbOp (BitVec 20) → Tlb → Prop :=
  Caching.Step (walk L) exec flushes (stores L)

/-- However the calls, their stores and the processor's lookups follow each
other: whenever no paging function is being executed, every cached translation
is the one the tables give, and every function can be called. -/
theorem tlb_never_stale (L : PagingLayout) (c : Tlb) (h : Reaches (Tlb.Step L) (fun _ _ => True) Tlb.boot c)
    (hidle : c.pending = []) :
    (∀ p w, (p, w) ∈ c.cache → walk L c.state p = some w) ∧ ∀ op, ∃ ms, stores L c.state op = some ms := by
  obtain ⟨hgood, hcache⟩ := never_stale (fun s op ms hs hms => settles_op hs op hms) (tablesApart_zero L) h hidle
  exact ⟨fun p w hw => hcache (p, w) hw, stores_some hgood⟩

/-- A page with a present entry can be looked up. -/
theorem walk_of_entries {L : PagingLayout} {s : Paging} {p : BitVec 20}
    (h : s.entries L p &&& CK_PAGE_PRESENT ≠ 0#32) : ∃ w, walk L s p = some w := by
  unfold entries TwoLevel.lookup at h
  rw [Function.comp_apply] at h
  unfold walk
  cases hd : s.dir L (splitVpn p).1 with
  | none => simp [hd] at h
  | some t =>
    simp only [hd, Option.elim_some] at h
    exact ⟨_, if_neg h⟩

/-- A page mapped at boot, and looked up by the processor. -/
theorem tlb_never_stale_mapped : ∃ (c : Tlb) (w : U32 × U32),
    Reaches (Tlb.Step someLayout) (fun _ _ => True) Tlb.boot c ∧ c.pending = [] ∧
    (vpn 0xD0000000#32, w) ∈ c.cache ∧ walk someLayout c.state (vpn 0xD0000000#32) = some w := by
  have hzero := tablesApart_zero someLayout
  obtain ⟨ms, hms⟩ := stores_some hzero (.map 0xD0000000#32 0x180000#32 CK_PAGE_KERNEL)
  have hstart : Reaches (Tlb.Step someLayout) (fun _ _ => True) Tlb.boot ⟨.zero, ∅, ms⟩ :=
    Reaches.init.step trivial (.start hms)
  obtain ⟨C, hmapped⟩ := reaches_idle (fun _ => trivial) ms _ _ hstart
  have hexec := exec_mapStores someLayout .zero 0xD0000000#32 0x180000#32 CK_PAGE_KERNEL
  rw [show mapStores someLayout .zero 0xD0000000#32 0x180000#32 CK_PAGE_KERNEL = some ms from hms] at hexec
  have hentry : (ms.foldl exec .zero).entries someLayout (vpn 0xD0000000#32) &&& CK_PAGE_PRESENT ≠ 0#32 := by
    rcases map_page_spec hzero 0xD0000000#32 0x180000#32 CK_PAGE_KERNEL with ⟨-, hfull, -⟩ | ⟨-, s', he, -, hent⟩
    · exact absurd hfull (by decide)
    · rw [he] at hexec
      have hstate : ms.foldl exec .zero = s' := Option.some.inj hexec
      rw [hstate, hent, PageMap.map, Function.update_self]
      decide
  obtain ⟨w, hw⟩ := walk_of_entries hentry
  have hfilled := hmapped.step trivial (.fill hw)
  have hin : (vpn 0xD0000000#32, w) ∈ insert (vpn 0xD0000000#32, w) C := Set.mem_insert _ _
  exact ⟨_, w, hfilled, rfl, hin, (tlb_never_stale someLayout _ hfilled rfl).1 _ _ hin⟩

end CheesecakeOS.Paging
