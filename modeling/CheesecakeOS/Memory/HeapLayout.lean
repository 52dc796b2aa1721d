import CheesecakeOS.Memory.HeapBlocks
/-!
# The layout of the heap is kept

`ck_heap_init` establishes the invariants of `HeapBlocks` and the calls keep
them: one lemma per invariant for the effects of `ck_malloc`, one for
`ck_free`. The free list is treated apart, because a call of `ck_free` may
break it: `Effect.listed` and `Effect.ends` say that `ck_malloc` never does.
-/
open Lib

namespace CheesecakeOS.Heap

variable {start : Pmem} {s s' : Heap} {B B' : Finset U32} {live : List (U32 × U32)} {n p : U32}

/-- All three invariants, for the blocks `B` and the live pointers `live`. -/
structure Layout (start : Pmem) (s : Heap) (live : List (U32 × U32)) (B : Finset U32) : Prop where
  geometry : Geometry start s B
  linked : Linked s B
  owned : Owned s live B

/-! ## Views of equal headers -/

section Views
variable {b : U32} (h : header s'.mem b = header s.mem b)
include h

theorem size_congr : s'.size b = s.size b := by simp only [size, h]
theorem extent_congr : s'.extent b = s.extent b := by simp only [extent, size, h]
theorem next_congr : s'.next b = s.next b := by simp only [next, h]
theorem isFree_congr : s'.IsFree b ↔ s.IsFree b := by simp only [IsFree, h]

end Views

/-! ## Geometry -/

/-- The same blocks with the same sizes on the same pages. -/
theorem Geometry.congr (hg : Geometry start s B) (hb : start.allocated ⊆ s'.pmem.allocated)
    (hp : heapPages start s'.pmem = heapPages start s.pmem) (hh : s'.heap_size = s.heap_size)
    (hs : ∀ b ∈ B, s'.size b = s.size b) (hf : ∀ b ∈ B, s'.IsFree b → s'.size b ≤ 4096) : Geometry start s' B where
  base := hb
  total := by rw [hh, hp]; exact hg.total
  tiling := by
    rw [hp]
    exact hg.tiling.congr fun b hb => by simp only [extent, hs b hb]
  small := hf

theorem card_heapPages_le (start now : Pmem) : (heapPages start now).card ≤ 65535 := by
  have hsub : heapPages start now ⊆ (Finset.range 65536).erase 0 := fun p hp =>
    Finset.mem_erase.2 ⟨(heapPages_lt hp).2, Finset.mem_range.2 (heapPages_lt hp).1⟩
  simpa using Finset.card_le_card hsub

/-- The byte count of a heap that has grown by a page does not wrap. -/
theorem Grown.total (hg : Geometry start s B) {page : Nat} (hgr : Grown start s s' page) :
    s'.heap_size.toNat = (heapPages start s'.pmem).card * 4096 := by
  obtain ⟨hn, hh, -, hp⟩ := hgr
  have hle := card_heapPages_le start s'.pmem
  rw [hp, Finset.card_insert_of_notMem hn] at hle ⊢
  rw [hh, BitVec.toNat_add, hg.total, show (4096 : U32).toNat = 4096 from rfl]
  omega

theorem Effect.geometry (h : Effect start s B n s' B' p) (hg : Geometry start s B) : Geometry start s' B' := by
  cases h with
  | refused hm hf hh hb hp =>
    exact hg.congr hb hp hh (fun b _ => by simp only [size, hm]) fun b hb hfree =>
      by simpa only [size, hm] using hg.small b hb (by simpa only [IsFree, hm] using hfree)
  | @whole c hc hfree hl hsz hh hk hsame =>
    obtain ⟨-, hhs, hpm⟩ := hsame
    have hsize : ∀ b ∈ B, s'.size b = s.size b := by
      intro b hb
      by_cases hbc : b = c
      · simp only [hbc, size, hh]
      · exact size_congr (hk b hb hbc)
    refine hg.congr (hpm ▸ hg.base) (by rw [hpm]) hhs hsize fun b hb hf => ?_
    by_cases hbc : b = c
    · rw [hbc, hsize c hc]; exact hg.small c hc hfree
    · rw [hsize b hb]; exact hg.small b hb ((isFree_congr (hk b hb hbc)).1 hf)
  | @split c r hc hfree hl hsz hr hh hhr hk hsame =>
    obtain ⟨-, hhs, hpm⟩ := hsame
    have hle := hg.small c hc hfree
    have ht := total_toNat (n := n) (by omega)
    have hext := hg.extent_of_free hc hfree
    have hc' : s'.extent c = n.toNat + 12 := by simp only [extent, size, hh, ht]; omega
    have hsr : s'.size r = s.size c - (n.toNat + 12) := by
      simp only [size, hhr]
      rw [BitVec.toNat_sub_of_le (BitVec.le_def.2 (by rw [ht]; exact Nat.le_trans (by omega) hsz)), ht]
    have hr' : s'.extent r = s.size c - (n.toNat + 12) := by simp only [extent, hsr]; omega
    refine ⟨hpm ▸ hg.base, by rw [hhs, hpm]; exact hg.total, ?_, fun b hb hf => ?_⟩
    · rw [hpm]
      exact hg.tiling.split hc (by omega) (by omega) (by omega) (by omega) (fun b hb hne => extent_congr (hk b hb hne))
        (by decide)
    · rcases Finset.mem_insert.1 hb with rfl | hb
      · omega
      · by_cases hbc : b = c
        · simp [IsFree, hbc, hh] at hf
        · rw [size_congr (hk b hb hbc)]; exact hg.small b hb ((isFree_congr (hk b hb hbc)).1 hf)
  | @page a pg hneed ha hgr hlt hsz hh hk hf =>
    have hext : s'.extent a = 4096 := by simp only [extent, size, hh, total_toNat hlt]; omega
    refine ⟨hgr.2.2.1, hgr.total hg, ?_, fun b hb hfree => ?_⟩
    · rw [hgr.2.2.2]
      exact hg.tiling.newPage hgr.1 ha hext (fun b hb => extent_congr (hk b hb)) (by decide) (by decide)
    · rcases Finset.mem_insert.1 hb with rfl | hb
      · simp [IsFree, hh] at hfree
      · rw [size_congr (hk b hb)]; exact hg.small b hb ((isFree_congr (hk b hb)).1 hfree)
  | @pageSplit a r pg hneed ha hgr hsz hr hh hhr hk hf =>
    have ht := total_toNat (n := n) (by omega)
    have haB := hg.tiling.newPage_notMem hgr.1 ha (by decide) (by decide)
    have hsr : s'.size r = 4096 - (n.toNat + 12) := by
      simp only [size, hhr]
      rw [BitVec.toNat_sub_of_le (BitVec.le_def.2 (by rw [ht]; simp; omega)), ht]
      rfl
    have hea : s'.extent a = n.toNat + 12 := by simp only [extent, size, hh, ht]; omega
    have her : s'.extent r = 4096 - (n.toNat + 12) := by simp only [extent, hsr]; omega
    -- First the page as one block, then the cut.
    have hnew : Tiling 4096 12 (heapPages start s'.pmem) (insert a B) BitVec.toNat (Function.update s.extent a 4096) := by
      rw [hgr.2.2.2]
      refine hg.tiling.newPage hgr.1 ha (by simp) (fun b hb => ?_) (by decide) (by decide)
      exact Function.update_of_ne (fun e : b = a => haB (e ▸ hb)) _ _
    refine ⟨hgr.2.2.1, hgr.total hg, ?_, fun b hb hfree => ?_⟩
    · refine hnew.split (Finset.mem_insert_self _ _) (by omega) (by simp; omega) (by omega) (by omega)
        (fun b hb hne => ?_) (by decide)
      rw [Function.update_of_ne hne]
      exact extent_congr (hk b (Finset.mem_of_mem_insert_of_ne hb hne))
    · rcases Finset.mem_insert.1 hb with rfl | hb
      · omega
      · rcases Finset.mem_insert.1 hb with rfl | hb
        · simp [IsFree, hh] at hfree
        · rw [size_congr (hk b hb)]; exact hg.small b hb ((isFree_congr (hk b hb)).1 hfree)

/-- Blocks stay within a page if the request does. -/
theorem Effect.size_le (h : Effect start s B n s' B' p) (hg : Geometry start s B) (hn : NeedsPage s n → n.toNat + 12 ≤ 4096)
    (hsz : ∀ b ∈ B, s.size b ≤ 4096) : ∀ b ∈ B', s'.size b ≤ 4096 := by
  have hsmall := (h.geometry hg).small
  intro b hb
  by_cases hfree : s'.IsFree b
  · exact hsmall b hb hfree
  cases h with
  | refused hm hf hh hb' hp => simpa only [size, hm] using hsz b hb
  | @whole c hc hfr hlist hs hh hk hsame =>
    by_cases hbc : b = c
    · simp only [hbc, size, hh]; exact hsz c hc
    · rw [size_congr (hk b hb hbc)]; exact hsz b hb
  | @split c r hc hfr hlist hs hr hh hhr hk hsame =>
    have hle := hsz c hc
    rcases Finset.mem_insert.1 hb with rfl | hb
    · simp [IsFree, hhr] at hfree
    · by_cases hbc : b = c
      · simp only [hbc, size, hh]; rw [total_toNat (by omega)]; omega
      · rw [size_congr (hk b hb hbc)]; exact hsz b hb
  | @page a pg hneed ha hgr hlt hs hh hk hf =>
    rcases Finset.mem_insert.1 hb with rfl | hb
    · simp only [size, hh]; rw [total_toNat hlt]; exact hn hneed
    · rw [size_congr (hk b hb)]; exact hsz b hb
  | @pageSplit a r pg hneed ha hgr hs hr hh hhr hk hf =>
    rcases Finset.mem_insert.1 hb with rfl | hb
    · simp [IsFree, hhr] at hfree
    · rcases Finset.mem_insert.1 hb with rfl | hb
      · simp only [size, hh]; rw [total_toNat (by omega)]; omega
      · rw [size_congr (hk b hb)]; exact hsz b hb

/-- A call takes one page at most. -/
theorem Effect.card_pages (h : Effect start s B n s' B' p) :
    (heapPages start s'.pmem).card ≤ (heapPages start s.pmem).card + 1 := by
  have grown : ∀ {page : Nat}, Grown start s s' page →
      (heapPages start s'.pmem).card ≤ (heapPages start s.pmem).card + 1 := by
    intro page hgr
    rw [hgr.2.2.2]
    exact Finset.card_insert_le page _
  cases h with
  | refused _ _ _ _ hp =>
    rw [hp]
    exact Nat.le_succ _
  | whole _ _ _ _ _ _ hsame =>
    rw [hsame.2.2]
    exact Nat.le_succ _
  | split _ _ _ _ _ _ _ _ hsame =>
    rw [hsame.2.2]
    exact Nat.le_succ _
  | page _ _ hgr => exact grown hgr
  | pageSplit _ _ hgr => exact grown hgr

/-- A free block was free before, or is what remains of a free block or of a page. -/
theorem Effect.free_size (h : Effect start s B n s' B' p) {b : U32} (hb : b ∈ B') (hf : s'.IsFree b) :
    ∃ z, (z = 4096 ∨ ∃ c ∈ B, s.IsFree c ∧ s.size c = z) ∧
      (s'.size b = z ∨ (n.toNat + 24 ≤ z ∧ s'.size b + (n.toNat + 12) = z)) := by
  have old : ∀ {b : U32}, b ∈ B → header s'.mem b = header s.mem b → s'.IsFree b →
      ∃ z, (z = 4096 ∨ ∃ c ∈ B, s.IsFree c ∧ s.size c = z) ∧
        (s'.size b = z ∨ (n.toNat + 24 ≤ z ∧ s'.size b + (n.toNat + 12) = z)) := by
    intro b hb hh hf
    exact ⟨s.size b, .inr ⟨b, hb, (isFree_congr hh).1 hf, rfl⟩, .inl (size_congr hh)⟩
  cases h with
  | refused hm => exact old hb (by rw [hm]) hf
  | @whole c hc _ _ _ hh hk =>
    by_cases hbc : b = c
    · simp [IsFree, hbc, hh] at hf
    · exact old hb (hk b hb hbc) hf
  | @split c r hc hfree _ hsz _ hh hhr hk =>
    rcases Finset.mem_insert.1 hb with rfl | hb
    · have ht := total_toNat (n := n) (by have := (header s.mem c).size.isLt; unfold size at hsz; omega)
      refine ⟨s.size c, .inr ⟨c, hc, hfree, rfl⟩, .inr ⟨hsz, ?_⟩⟩
      simp only [size, hhr] at hsz ⊢
      rw [BitVec.toNat_sub_of_le (BitVec.le_def.2 (by omega)), ht]
      omega
    · by_cases hbc : b = c
      · simp [IsFree, hbc, hh] at hf
      · exact old hb (hk b hb hbc) hf
  | @page a _ _ _ _ _ _ hh hk =>
    rcases Finset.mem_insert.1 hb with rfl | hb
    · simp [IsFree, hh] at hf
    · exact old hb (hk b hb) hf
  | @pageSplit a r _ _ _ _ hsz _ hh hhr hk =>
    rcases Finset.mem_insert.1 hb with rfl | hb
    · have ht := total_toNat (n := n) (by omega)
      refine ⟨4096, .inl rfl, .inr ⟨hsz, ?_⟩⟩
      simp only [size, hhr]
      rw [BitVec.toNat_sub_of_le (BitVec.le_def.2 (by rw [ht]; simp; omega)), ht]
      simp
      omega
    · rcases Finset.mem_insert.1 hb with rfl | hb
      · simp [IsFree, hh] at hf
      · exact old hb (hk b hb) hf

/-! ## Links -/

theorem Effect.linked (h : Effect start s B n s' B' p) (hl : Linked s B) : Linked s' B' := by
  have grow : ∀ {x b : U32} {C : Finset U32}, x = 0#32 ∨ x ∈ C → x = 0#32 ∨ x ∈ insert b C :=
    fun h => h.imp_right Finset.mem_insert_of_mem
  cases h with
  | refused hm hf hh hb hp =>
    refine ⟨hf ▸ hl.head, fun b hb => ?_⟩
    simpa only [Heap.next, hm] using hl.next b hb
  | @whole c hc hfree hlist hsz hh hk hsame =>
    refine ⟨hsame.1 ▸ hl.head, fun b hb => ?_⟩
    by_cases hbc : b = c
    · have e : s'.next b = s.next b := by simp only [hbc, Heap.next, hh]
      rw [e]; exact hl.next b hb
    · rw [next_congr (hk b hb hbc)]; exact hl.next b hb
  | @split c r hc hfree hlist hsz hr hh hhr hk hsame =>
    refine ⟨grow (hsame.1 ▸ hl.head), fun b hb => ?_⟩
    rcases Finset.mem_insert.1 hb with rfl | hb
    · have e : s'.next b = s.next c := by rw [Heap.next, hhr]
      rw [e]; exact grow (hl.next c hc)
    · by_cases hbc : b = c
      · have e : s'.next b = r := by rw [Heap.next, hbc, hh]
        rw [e]; exact .inr (Finset.mem_insert_self _ _)
      · rw [next_congr (hk b hb hbc)]; exact grow (hl.next b hb)
  | @page a pg hneed ha hgr hlt hsz hh hk hf =>
    refine ⟨.inr (hf ▸ Finset.mem_insert_self _ _), fun b hb => ?_⟩
    rcases Finset.mem_insert.1 hb with rfl | hb
    · have e : s'.next b = s.freelist := by rw [Heap.next, hh]
      rw [e]; exact grow hl.head
    · rw [next_congr (hk b hb)]; exact grow (hl.next b hb)
  | @pageSplit a r pg hneed ha hgr hsz hr hh hhr hk hf =>
    refine ⟨.inr (hf ▸ Finset.mem_insert_self _ _), fun b hb => ?_⟩
    rcases Finset.mem_insert.1 hb with rfl | hb
    · have e : s'.next b = s.freelist := by rw [Heap.next, hhr]
      rw [e]; exact grow (grow hl.head)
    · rcases Finset.mem_insert.1 hb with rfl | hb
      · have e : s'.next b = r := by rw [Heap.next, hh]
        rw [e]; exact .inr (Finset.mem_insert_self _ _)
      · rw [next_congr (hk b hb)]; exact grow (grow (hl.next b hb))

/-! ## Live pointers -/

theorem add_header_sub (b : U32) : b + CK_HEAP_HEADER_SIZE - CK_HEAP_HEADER_SIZE = b := BitVec.add_sub_cancel _ _

theorem sub_header_add (q : U32) : q - CK_HEAP_HEADER_SIZE + CK_HEAP_HEADER_SIZE = q := BitVec.sub_add_cancel _ _

/-- The live pointers after a call of `ck_malloc(n)` that returned `p`. -/
def addLive (live : List (U32 × U32)) (n p : U32) : List (U32 × U32) :=
  if p = 0#32 then live else (p, n) :: live

/-- A block that was free or did not exist becomes live; any other new block
is free. -/
theorem Owned.alloc {c : U32} (ho : Owned s live B) (hc : c ∈ B') (hnew : c ∉ B ∨ s.IsFree c)
    (hfree : ¬ s'.IsFree c) (hsz : s'.size c = n.toNat + 12)
    (hk : ∀ b ∈ B, b ≠ c → b ∈ B' ∧ header s'.mem b = header s.mem b)
    (hrest : ∀ b ∈ B', b ∉ B → b ≠ c → s'.IsFree b) : Owned s' ((c + CK_HEAP_HEADER_SIZE, n) :: live) B' := by
  have hne : ∀ l ∈ live, l.1 - CK_HEAP_HEADER_SIZE ≠ c := by
    rintro l hl rfl
    obtain ⟨hB, hf, -⟩ := ho.block l hl
    exact hnew.elim (fun h => h hB) hf
  refine ⟨?_, fun l hl => ?_, fun b hb hf => ?_⟩
  · rw [List.map_cons, List.nodup_cons]
    refine ⟨fun hmem => ?_, ho.nodup⟩
    obtain ⟨l, hl, he⟩ := List.mem_map.1 hmem
    exact hne l hl (by rw [he]; exact add_header_sub c)
  · rcases List.mem_cons.1 hl with rfl | hl
    · rw [add_header_sub]; exact ⟨hc, hfree, hsz⟩
    · obtain ⟨hB, hf, hs⟩ := ho.block l hl
      obtain ⟨hB', hh⟩ := hk _ hB (hne l hl)
      rw [isFree_congr hh, size_congr hh]
      exact ⟨hB', hf, hs⟩
  · by_cases hbc : b = c
    · exact ⟨n, by simp [hbc]⟩
    · by_cases hbB : b ∈ B
      · obtain ⟨-, hh⟩ := hk b hbB hbc
        obtain ⟨m, hm⟩ := ho.live b hbB (mt (isFree_congr hh).2 hf)
        exact ⟨m, List.mem_cons_of_mem _ hm⟩
      · exact absurd (hrest b hb hbB hbc) hf

theorem Geometry.pointer_ne_zero (hg : Geometry start s B) {c : U32} (hc : c ∈ B) : c + CK_HEAP_HEADER_SIZE ≠ 0#32 := by
  have hb := hg.bounds hc
  intro h
  have h' := congrArg BitVec.toNat h
  rw [toNat_add_of_le (n := 2 ^ 32 - c.toNat) (by omega) (by simp; omega)] at h'
  simp at h'

theorem Effect.owned (h : Effect start s B n s' B' p) (hg : Geometry start s B) (ho : Owned s live B) :
    Owned s' (addLive live n p) B' := by
  have hg' := h.geometry hg
  cases h with
  | refused hm hf hh hb hp =>
    rw [addLive, if_pos rfl]
    refine ⟨ho.nodup, fun l hl => ?_, fun b hb hf => ?_⟩
    · simpa only [IsFree, size, hm] using ho.block l hl
    · exact ho.live b hb (by simpa only [IsFree, hm] using hf)
  | @whole c hc hfree hlist hsz hh hk hsame =>
    rw [addLive, if_neg (hg.pointer_ne_zero hc)]
    refine ho.alloc hc (.inr hfree) (by simp [IsFree, hh]) (by rw [← hsz]; simp only [size, hh])
      (fun b hb hne => ⟨hb, hk b hb hne⟩) fun b hb hnb => absurd hb hnb
  | @split c r hc hfree hlist hsz hr hh hhr hk hsame =>
    rw [addLive, if_neg (hg.pointer_ne_zero hc)]
    have hle := hg.small c hc hfree
    refine ho.alloc (Finset.mem_insert_of_mem hc) (.inr hfree) (by simp [IsFree, hh]) ?_
      (fun b hb hne => ⟨Finset.mem_insert_of_mem hb, hk b hb hne⟩) fun b hb hnb _ => ?_
    · simp only [size, hh]; exact total_toNat (by omega)
    · obtain rfl := (Finset.mem_insert.1 hb).resolve_right hnb
      simp [IsFree, hhr]
  | @page a pg hneed ha hgr hlt hsz hh hk hf =>
    rw [addLive, if_neg (hg'.pointer_ne_zero (Finset.mem_insert_self _ _))]
    refine ho.alloc (Finset.mem_insert_self _ _) (.inl (hg.tiling.newPage_notMem hgr.1 ha (by decide) (by decide)))
      (by simp [IsFree, hh]) ?_ (fun b hb _ => ⟨Finset.mem_insert_of_mem hb, hk b hb⟩) fun b hb hnb hne => ?_
    · simp only [size, hh]; exact total_toNat hlt
    · exact absurd ((Finset.mem_insert.1 hb).resolve_left hne) hnb
  | @pageSplit a r pg hneed ha hgr hsz hr hh hhr hk hf =>
    rw [addLive, if_neg (hg'.pointer_ne_zero (Finset.mem_insert_of_mem (Finset.mem_insert_self _ _)))]
    refine ho.alloc (Finset.mem_insert_of_mem (Finset.mem_insert_self _ _))
      (.inl (hg.tiling.newPage_notMem hgr.1 ha (by decide) (by decide))) (by simp [IsFree, hh]) ?_
      (fun b hb _ => ⟨Finset.mem_insert_of_mem (Finset.mem_insert_of_mem hb), hk b hb⟩) fun b hb hnb hne => ?_
    · simp only [size, hh]; exact total_toNat (by omega)
    · rcases Finset.mem_insert.1 hb with rfl | hb
      · simp [IsFree, hhr]
      · exact absurd ((Finset.mem_insert.1 hb).resolve_left hne) hnb

/-- `ck_malloc` keeps the layout. -/
theorem Effect.layout (h : Effect start s B n s' B' p) (hl : Layout start s live B) :
    Layout start s' (addLive live n p) B' :=
  ⟨h.geometry hl.geometry, h.linked hl.linked, h.owned hl.geometry hl.owned⟩

/-! ## `ck_free` and `ck_heap_init` -/

/-- What `ck_free` does with the block `h` of a live pointer. -/
structure Freed (s s' : Heap) (B : Finset U32) (h : U32) : Prop where
  mem : h ∈ B
  header : header s'.mem h = ⟨(header s.mem h).size, 0, s.freelist⟩
  keeps : Keeps s s' B h
  head : s'.freelist = h
  heap_size : s'.heap_size = s.heap_size
  pmem : s'.pmem = s.pmem

theorem free_statics (s : Heap) (p : U32) :
    (ck_free s p).heap_size = s.heap_size ∧ (ck_free s p).pmem = s.pmem := by
  simp only [ck_free]
  split <;> [exact ⟨rfl, rfl⟩; split <;> exact ⟨rfl, rfl⟩]

theorem Layout.freed (hl : Layout start s live B) (hp : (p, n) ∈ live) :
    Freed s (ck_free s p) B (p - CK_HEAP_HEADER_SIZE) := by
  obtain ⟨hB, hf, -⟩ := hl.owned.block _ hp
  have hp0 : p ≠ 0#32 := by
    have h := hl.geometry.pointer_ne_zero hB
    rwa [sub_header_add] at h
  obtain ⟨hs, hh, hhead⟩ := free_header s hp0 hf
  obtain ⟨hsize, hpm⟩ := free_statics s p
  exact ⟨hB, hh, hl.geometry.keeps hB hs (by decide) (hl.geometry.tiling.room _ hB), hhead, hsize, hpm⟩

theorem Freed.size_eq {h b : U32} (hf : Freed s s' B h) (hb : b ∈ B) : s'.size b = s.size b := by
  by_cases hbh : b = h
  · simp only [hbh, size, hf.header]
  · exact size_congr (hf.keeps b hb hbh)

theorem Freed.next_eq {h b : U32} (hf : Freed s s' B h) (hb : b ∈ B) (hbh : b ≠ h) : s'.next b = s.next b :=
  next_congr (hf.keeps b hb hbh)

theorem Freed.next_self {h : U32} (hf : Freed s s' B h) : s'.next h = s.freelist := by rw [next, hf.header]

/-- The list of live pointers has at most one entry for a pointer. -/
theorem Owned.ne_of_mem_erase (ho : Owned s live B) (hp : (p, n) ∈ live) {l : U32 × U32} (hl : l ∈ live.erase (p, n)) :
    l ∈ live ∧ l.1 ≠ p := by
  obtain ⟨hne, hl⟩ := (List.Nodup.mem_erase_iff (List.Nodup.of_map _ ho.nodup)).1 hl
  exact ⟨hl, fun e => hne (List.inj_on_of_nodup_map ho.nodup hl hp e)⟩

theorem Freed.tiling {h : U32} (hf : Freed s s' B h)
    (ht : Tiling 4096 12 (heapPages start s.pmem) B BitVec.toNat s.extent) :
    Tiling 4096 12 (heapPages start s'.pmem) B BitVec.toNat s'.extent := by
  rw [hf.pmem]
  exact ht.congr fun b hb => by simp only [extent, hf.size_eq hb]

theorem Freed.linked {h : U32} (hf : Freed s s' B h) (hl : Linked s B) : Linked s' B := by
  refine ⟨.inr (hf.head ▸ hf.mem), fun b hb => ?_⟩
  by_cases hbh : b = h
  · rw [hbh, hf.next_self]; exact hl.head
  · rw [hf.next_eq hb hbh]; exact hl.next b hb

/-- The pointer that is freed is live no more. -/
theorem Freed.owned (hf : Freed s s' B (p - CK_HEAP_HEADER_SIZE)) (ho : Owned s live B) (hp : (p, n) ∈ live) :
    Owned s' (live.erase (p, n)) B := by
  refine ⟨ho.nodup.sublist (List.Sublist.map _ (List.erase_sublist)), fun l hle => ?_, fun b hb hnf => ?_⟩
  · obtain ⟨hlm, hne⟩ := ho.ne_of_mem_erase hp hle
    obtain ⟨hB, hnf, hs⟩ := ho.block l hlm
    have hlh : l.1 - CK_HEAP_HEADER_SIZE ≠ p - CK_HEAP_HEADER_SIZE := fun e =>
      hne (by rw [← sub_header_add l.1, e, sub_header_add])
    rw [isFree_congr (hf.keeps _ hB hlh), hf.size_eq hB]
    exact ⟨hB, hnf, hs⟩
  · have hbh : b ≠ p - CK_HEAP_HEADER_SIZE := by
      rintro rfl
      simp [IsFree, hf.header] at hnf
    obtain ⟨m, hm⟩ := ho.live b hb (mt (isFree_congr (hf.keeps b hb hbh)).2 hnf)
    refine ⟨m, (List.mem_erase_of_ne ?_).2 hm⟩
    intro e
    exact hbh (by rw [← (Prod.mk.inj e).1]; exact (add_header_sub b).symm)

/-- `ck_free` of a live block of at most a page keeps the layout. -/
theorem Layout.free (hl : Layout start s live B) (hp : (p, n) ∈ live)
    (hsz : s.size (p - CK_HEAP_HEADER_SIZE) ≤ 4096) : Layout start (ck_free s p) (live.erase (p, n)) B := by
  have hfr := hl.freed hp
  refine ⟨?_, hfr.linked hl.linked, hfr.owned hl.owned hp⟩
  refine hl.geometry.congr (hfr.pmem ▸ hl.geometry.base) (by rw [hfr.pmem]) hfr.heap_size (fun b hb => hfr.size_eq hb)
    fun b hb hf => ?_
  rw [hfr.size_eq hb]
  by_cases hbh : b = p - CK_HEAP_HEADER_SIZE
  · rwa [hbh]
  · exact hl.geometry.small b hb ((isFree_congr (hfr.keeps b hb hbh)).1 hf)

/-- The statics as `ck_heap_init` first sets them. -/
def cleared (s : Heap) : Heap :=
  { s with freelist := 0#32, heap_size := 0#32, total_allocated := 0#32, total_freed := 0#32 }

theorem init_eq {s s₁ : Heap} {a : U32} (h : ck_heap_expand s.cleared 4096 = (s₁, a)) : ck_heap_init s =
    if a = 0#32 then s₁
    else { s₁ with mem := set_next (set_allocated (set_size s₁.mem a 4096) a 0) a 0, freelist := a } := by
  simp only [cleared] at h
  simp only [ck_heap_init, h]

/-- `ck_heap_init` makes the page it gets one free block. -/
theorem init_of_page {s s₁ : Heap} {a : U32} (h : ck_heap_expand s.cleared 4096 = (s₁, a)) (ha : a ≠ 0#32) :
    (ck_heap_init s).freelist = a ∧ header (ck_heap_init s).mem a = ⟨4096, 0, 0⟩ ∧
      (ck_heap_init s).heap_size = s₁.heap_size ∧ (ck_heap_init s).pmem = s₁.pmem := by
  rw [init_eq h, if_neg ha]
  simp

/-- `ck_heap_init` gets no page, or one page that is one free block. -/
theorem init_cases (s : Heap) : let s' := ck_heap_init s
    s.pmem.allocated ⊆ s'.pmem.allocated ∧
    ((s'.freelist = 0#32 ∧ s'.heap_size = 0#32 ∧ heapPages s.pmem s'.pmem = ∅) ∨
      ∃ a page, a.toNat = page * 4096 ∧ a ≠ 0#32 ∧ header s'.mem a = ⟨4096, 0, 0⟩ ∧ s'.freelist = a ∧
        s'.heap_size = 4096 ∧ heapPages s.pmem s'.pmem = {page}) := by
  intro s'
  have hnone : heapPages s.pmem s.pmem = ∅ := by simp [heapPages]
  have hcases := expand_cases s.cleared 4096
  generalize he : ck_heap_expand s.cleared 4096 = r at hcases
  obtain ⟨s₁, a⟩ := r
  rcases hcases with ⟨-, h0, hsz, h1, h2⟩ | ⟨-, ha0, page, hp0, hlt, hn, ha, hsz, hpm⟩
  · have hs' : s' = s₁ := (init_eq he).trans (if_pos h0)
    have hfl : s₁.freelist = 0#32 := by
      have h := (heap_expand_statics s.cleared 4096).2
      rwa [he] at h
    rw [hs']
    exact ⟨h1, .inl ⟨hfl, hsz, (heapPages_refused h1 h2).trans hnone⟩⟩
  · obtain ⟨hf, hh, hsz', hpm'⟩ := init_of_page he ha0
    refine ⟨?_, .inr ⟨a, page, ha, ha0, hh, hf, ?_, ?_⟩⟩
    · rw [hpm', hpm]; exact Finset.subset_insert _ _
    · rw [hsz', hsz]; rfl
    · have hgrown : heapPages s.pmem s₁.pmem = insert page (heapPages s.pmem s.pmem) :=
        heapPages_grown (Finset.Subset.refl _) hp0 hn hpm
      rw [hpm', hgrown, hnone]; rfl

/-- The layout after `ck_heap_init`. -/
theorem init_layout (s : Heap) : ∃ B, Layout s.pmem (ck_heap_init s) [] B ∧
    ((B = ∅ ∧ (ck_heap_init s).freelist = 0#32) ∨
      ∃ a, B = {a} ∧ header (ck_heap_init s).mem a = ⟨4096, 0, 0⟩ ∧ (ck_heap_init s).freelist = a ∧ a ≠ 0#32) := by
  obtain ⟨hb, ⟨hf, hsz, hp⟩ | ⟨a, page, ha, ha0, hh, hf, hsz, hp⟩⟩ := init_cases s
  · refine ⟨∅, ⟨⟨hb, ?_, ?_, by simp⟩, ⟨.inl hf, by simp⟩, ⟨by simp, by simp, by simp⟩⟩, .inl ⟨rfl, hf⟩⟩
    · rw [hsz, hp]; rfl
    · rw [hp]; exact Tiling.empty
  · have hext : (ck_heap_init s).extent a = 4096 := by simp [extent, size, hh]
    refine ⟨{a}, ⟨⟨hb, ?_, ?_, ?_⟩, ⟨.inr (by simp [hf]), ?_⟩, ⟨by simp, by simp, ?_⟩⟩, .inr ⟨a, rfl, hh, hf, ha0⟩⟩
    · rw [hsz, hp, Finset.card_singleton]; rfl
    · have hnone : Tiling 4096 12 ∅ ∅ BitVec.toNat (ck_heap_init s).extent := Tiling.empty
      rw [hp]
      exact hnone.newPage (Finset.notMem_empty page) ha hext (fun _ _ => rfl) (by decide) (by decide)
    · intro b hb' _
      rw [Finset.mem_singleton.1 hb']
      simp [size, hh]
    · intro b hb'
      rw [Finset.mem_singleton.1 hb']
      exact .inl (by simp [next, hh])
    · intro b hb' hfree
      rw [Finset.mem_singleton.1 hb'] at hfree
      simp [IsFree, hh] at hfree

/-! ## The free list -/

section FreeList
variable (hl : Linked s B)
include hl

/-- The links of the listed blocks, if those of all blocks are as before. -/
theorem Linked.listed_next (hk : ∀ b ∈ B, s'.next b = s.next b) :
    ∀ x, Links.On s.next 0#32 s.freelist x → s'.next x = s.next x :=
  fun x hx => hk x (hl.listed_mem hx)

/-- A block put in front of the list. -/
theorem Linked.listed_push {h b : U32} (hk : ∀ b ∈ B, s'.next b = s.next b) (hh : h ≠ 0#32) (hf : s'.freelist = h)
    (hn : s'.next h = s.freelist) (hb : s.Listed b) : s'.Listed b := by
  unfold Listed
  rw [hf]
  apply Links.On.link hh
  rw [hn]
  exact Links.Path.congr hb fun x hx _ => hl.listed_next hk x hx

/-- `ck_malloc` loses no block of the list. -/
theorem Effect.listed (h : Effect start s B n s' B' p) (hg : Geometry start s B) {b : U32} (hb : s.Listed b) :
    s'.Listed b := by
  have hg' := h.geometry hg
  cases h with
  | refused hm hf hh hb' hp =>
    unfold Listed
    rw [hf]
    exact Links.Path.congr hb fun x _ _ => by simp only [Heap.next, hm]
  | @whole c hc hfree hlist hsz hh hk hsame =>
    unfold Listed
    rw [hsame.1]
    apply Links.Path.congr hb
    intro x hx _
    by_cases hxc : x = c
    · simp only [hxc, Heap.next, hh]
    · exact next_congr (hk x (hl.listed_mem hx) hxc)
  | @split c r hc hfree hlist hsz hr hh hhr hk hsame =>
    unfold Listed
    rw [hsame.1]
    exact Links.On.insert (hg'.ne_zero (Finset.mem_insert_self _ _)) (by rw [Heap.next, hh]) (by rw [Heap.next, hhr]) hb
      fun x hx hxc => next_congr (hk x (hl.listed_mem hx) hxc)
  | @page a pg hneed ha hgr hlt hsz hh hk hf =>
    exact hl.listed_push (fun b hb => next_congr (hk b hb)) (hg'.ne_zero (Finset.mem_insert_self _ _)) hf
      (by rw [Heap.next, hh]) hb
  | @pageSplit a r pg hneed ha hgr hsz hr hh hhr hk hf =>
    exact hl.listed_push (fun b hb => next_congr (hk b hb)) (hg'.ne_zero (Finset.mem_insert_self _ _)) hf
      (by rw [Heap.next, hhr]) hb

/-- `ck_malloc` keeps the list ending. -/
theorem Effect.ends (h : Effect start s B n s' B' p) (hg : Geometry start s B)
    (he : Links.Ends s.next 0#32 s.freelist) : Links.Ends s'.next 0#32 s'.freelist := by
  have hg' := h.geometry hg
  cases h with
  | refused hm hf hh hb hp =>
    rw [hf]
    exact he.congr fun x _ => by simp only [Heap.next, hm]
  | @whole c hc hfree hlist hsz hh hk hsame =>
    rw [hsame.1]
    apply he.congr
    intro x hx
    by_cases hxc : x = c
    · simp only [hxc, Heap.next, hh]
    · exact next_congr (hk x (hl.listed_mem hx) hxc)
  | @split c r hc hfree hlist hsz hr hh hhr hk hsame =>
    rw [hsame.1]
    exact he.insert (hg'.ne_zero (Finset.mem_insert_self _ _)) (by rw [Heap.next, hh]) (by rw [Heap.next, hhr])
      fun x hx hxc => next_congr (hk x (hl.listed_mem hx) hxc)
  | @page a pg hneed ha hgr hlt hsz hh hk hf =>
    rw [hf]
    exact he.push (hg'.ne_zero (Finset.mem_insert_self _ _)) (by rw [Heap.next, hh])
      (hl.listed_next fun b hb => next_congr (hk b hb))
  | @pageSplit a r pg hneed ha hgr hsz hr hh hhr hk hf =>
    rw [hf]
    exact he.push (hg'.ne_zero (Finset.mem_insert_self _ _)) (by rw [Heap.next, hhr])
      (hl.listed_next fun b hb => next_congr (hk b hb))

/-- Every block a call touches is on the list after it, the live block cut
from a new page apart. -/
theorem Effect.blocks (h : Effect start s B n s' B' p) (hg : Geometry start s B) {b : U32} (hb : b ∈ B') :
    s'.Listed b ∨ (¬ s'.IsFree b ∧ s'.size b ≤ 4096) ∨ (b ∈ B ∧ header s'.mem b = header s.mem b) := by
  have hg' := h.geometry hg
  have hlisted := fun b hb => h.listed hl hg (b := b) hb
  cases h with
  | refused hm hf hh hb' hp => exact .inr (.inr ⟨hb, by rw [hm]⟩)
  | @whole c hc hfree hlist hsz hh hk hsame =>
    by_cases hbc : b = c
    · exact .inl (hbc ▸ hlisted c hlist)
    · exact .inr (.inr ⟨hb, hk b hb hbc⟩)
  | @split c r hc hfree hlist hsz hr hh hhr hk hsame =>
    rcases Finset.mem_insert.1 hb with rfl | hb
    · left
      have hnext : s'.next c = b := by rw [Heap.next, hh]
      have htail := Links.On.tail (hlisted c hlist) (by rw [hnext]; exact hg'.ne_zero (Finset.mem_insert_self _ _))
      rwa [hnext] at htail
    · by_cases hbc : b = c
      · exact .inl (hbc ▸ hlisted c hlist)
      · exact .inr (.inr ⟨hb, hk b hb hbc⟩)
  | @page a pg hneed ha hgr hlt hsz hh hk hf =>
    rcases Finset.mem_insert.1 hb with rfl | hb'
    · exact .inl (hf ▸ .here (hf.symm ▸ hg'.ne_zero hb))
    · exact .inr (.inr ⟨hb', hk b hb'⟩)
  | @pageSplit a r pg hneed ha hgr hsz hr hh hhr hk hf =>
    rcases Finset.mem_insert.1 hb with rfl | hb'
    · exact .inl (hf ▸ .here (hf.symm ▸ hg'.ne_zero hb))
    · rcases Finset.mem_insert.1 hb' with rfl | hb'
      · refine .inr (.inl ⟨by simp [IsFree, hh], ?_⟩)
        simp only [size, hh]
        rw [total_toNat (by omega)]
        omega
      · exact .inr (.inr ⟨hb', hk b hb'⟩)

/-- `ck_free` keeps on the list what can be reached without passing the freed
block. -/
theorem Freed.listed {h b : U32} (hf : Freed s s' B h) (hh : h ≠ 0#32)
    (hb : Links.Path s.next 0#32 (· = h) s.freelist b) : s'.Listed b := by
  unfold Listed
  rw [hf.head]
  exact hb.push hh hf.next_self fun x hx hne => hf.next_eq (hl.listed_mem hx) hne

/-- `ck_free` keeps the list ending if the freed block is not on it, and only
then. -/
theorem Freed.ends_iff {h : U32} (hf : Freed s s' B h) (hh : h ≠ 0#32) (he : Links.Ends s.next 0#32 s.freelist) :
    Links.Ends s'.next 0#32 s'.freelist ↔ ¬ s.Listed h := by
  rw [hf.head]
  constructor
  · intro hend hon
    exact Links.not_ends_push hf.next_self (fun x hx hne => hf.next_eq (hl.listed_mem hx) hne) hon hend
  · intro hn
    refine he.push hh hf.next_self fun x hx => hf.next_eq (hl.listed_mem hx) ?_
    rintro rfl
    exact hn hx

end FreeList

end CheesecakeOS.Heap
