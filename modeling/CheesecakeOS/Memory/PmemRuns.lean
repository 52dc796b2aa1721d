import CheesecakeOS.Lib.Runs
import CheesecakeOS.Memory.Pmem
/-!
# Runs of the page allocator

A run is `ck_pmem_init` and then any sequence of allocations and frees. It
keeps, beside the allocator's statics, the addresses handed out so far and
those of them not freed since. The theorems are case analyses over
`alloc_cases` and `free_cases`; none of them looks at the bitmap.

Two frees go wrong. A page-aligned address past 256 MB is counted as freed
although no bit is cleared (`counts_match_iff`), and a reserved page can be
freed like any other, after which the allocator hands it out, page 0 as the
failure code 0 (`reserved_kept_iff`). Callers that only free what they were
given meet neither (`alloc_sound`).
-/
open Lib

namespace CheesecakeOS.Pmem

/-- A call of the allocator. -/
inductive PmemOp
  | alloc
  | free (addr : U32)

/-- The allocator's statics, the outstanding addresses, and every address
handed out. -/
structure Run where
  mem : Pmem
  out : List U32
  ret : List U32

/-- A failed allocation (result 0) hands out nothing. -/
def Run.step (r : Run) : PmemOp → Run
  | .alloc =>
    let res := ck_pmem_alloc_page r.mem
    if res.2 = 0#32 then { r with mem := res.1 } else ⟨res.1, res.2 :: r.out, res.2 :: r.ret⟩
  | .free a => ⟨ck_pmem_free_page r.mem a, r.out.erase a, r.ret⟩

/-- Right after `ck_pmem_init`, whatever the statics held before. -/
def Run.start (s₀ : Pmem) : Run := ⟨ck_pmem_init s₀, [], []⟩

def run (s₀ : Pmem) (ops : List PmemOp) : Run := ops.foldl Run.step (.start s₀)

/-- An allocation step, with the result of the allocation named. -/
theorem step_alloc {r : Run} {mem : Pmem} {a : U32} (he : ck_pmem_alloc_page r.mem = (mem, a)) :
    r.step .alloc = if a = 0#32 then { r with mem } else ⟨mem, a :: r.out, a :: r.ret⟩ := by
  rw [Run.step, he]

@[simp] theorem step_alloc_mem (r : Run) : (r.step .alloc).mem = (ck_pmem_alloc_page r.mem).1 := by
  rcases he : ck_pmem_alloc_page r.mem with ⟨mem, a⟩
  rw [step_alloc he]
  split <;> rfl

theorem step_alloc_out {r : Run} {a : U32} (ha : (ck_pmem_alloc_page r.mem).2 = a) (h0 : a ≠ 0#32) :
    (r.step .alloc).out = a :: r.out := by
  subst ha
  rw [Run.step, if_neg h0]

@[simp] theorem step_free_out (r : Run) (a : U32) : (r.step (.free a)).out = r.out.erase a := rfl

/-! ## Page counts -/

/-- The pages marked free. -/
def freePages (s : Pmem) : Finset Nat := (Finset.range CK_MAX_PAGES).filter fun p => s.bit p = false

theorem card_allocated_add_free (s : Pmem) : s.allocated.card + s.freePages.card = CK_MAX_PAGES := by
  have h := Finset.card_filter_add_card_filter_not (s := Finset.range CK_MAX_PAGES) fun p => s.bit p = true
  simpa [allocated, freePages] using h

/-- The counters agree with the bitmap, and subtracting them cannot wrap. -/
structure CountsMatch (s : Pmem) : Prop where
  used : (ck_pmem_get_used_pages s).toNat = s.allocated.card
  free : (ck_pmem_get_free_pages s).toNat = s.freePages.card
  le : s.used_pages.toNat ≤ s.total_pages.toNat
  sum : (ck_pmem_get_used_pages s).toNat + (ck_pmem_get_free_pages s).toNat = CK_MAX_PAGES

/-- What carries `CountsMatch` through a run. -/
def Counted (s : Pmem) : Prop := s.total_pages = .ofNat 32 CK_MAX_PAGES ∧ s.used_pages.toNat = s.allocated.card

theorem Counted.countsMatch {s : Pmem} (h : Counted s) : CountsMatch s := by
  obtain ⟨ht, hu⟩ := h
  have hc := card_allocated_add_free s
  have htn : s.total_pages.toNat = CK_MAX_PAGES := by rw [ht]; rfl
  have hle : s.used_pages.toNat ≤ s.total_pages.toNat := by omega
  have hf : (ck_pmem_get_free_pages s).toNat = s.freePages.card := by
    rw [ck_pmem_get_free_pages, BitVec.toNat_sub_of_le (BitVec.le_def.2 hle)]; omega
  exact ⟨hu, hf, hle, by rw [hf]; simp only [ck_pmem_get_used_pages]; omega⟩

theorem counted_init (s : Pmem) : Counted (ck_pmem_init s) := by
  obtain ⟨ha, ht, hu⟩ := init_spec s
  exact ⟨ht, by rw [hu, ha, Finset.card_range]; rfl⟩

theorem card_allocated_le (s : Pmem) : s.allocated.card ≤ CK_MAX_PAGES := by
  have := card_allocated_add_free s; omega

theorem counted_alloc {s : Pmem} (h : Counted s) : Counted (ck_pmem_alloc_page s).1 := by
  obtain ⟨ht, hu⟩ := h
  rcases alloc_cases s with ⟨page, -, hn, -, -, ha, ht', hu'⟩ | ⟨-, he⟩
  · refine ⟨ht'.trans ht, ?_⟩
    have hle := card_allocated_le s
    simp only [CK_MAX_PAGES] at hle
    rw [hu', ha, Finset.card_insert_of_notMem hn, BitVec.toNat_add, hu, show (1 : U32).toNat = 1 from rfl]
    omega
  · rw [he]; exact ⟨ht, hu⟩

/-- The frees that keep the counts: unaligned ones, and those below 256 MB. -/
def InRange : PmemOp → Prop
  | .alloc => True
  | .free addr => addr.toNat % CK_PAGE_SIZE = 0 → addr.toNat < CK_MAX_PAGES * CK_PAGE_SIZE

theorem counted_free {s : Pmem} (h : Counted s) {addr : U32} (ha : InRange (.free addr)) :
    Counted (ck_pmem_free_page s addr) := by
  obtain ⟨ht, hu⟩ := h
  rcases free_cases s addr with ⟨he, -⟩ | ⟨p, hp, hb, hal, ht', hu'⟩
  · rw [he]; exact ⟨ht, hu⟩
  · refine ⟨ht'.trans ht, ?_⟩
    simp only [Names, InRange, CK_PAGE_SIZE, CK_MAX_PAGES] at hp hb ha
    have hm : p ∈ s.allocated := by
      rcases hb with hb | hb
      · have := ha (by omega); omega
      · exact hb
    have hpos := Finset.card_pos.2 ⟨p, hm⟩
    rw [hu', hal, Finset.card_erase_of_mem hm, BitVec.toNat_sub_of_le (BitVec.le_def.2 (by simp; omega)), hu]
    rfl

/-- A free past the end of the bitmap takes one off the count and nothing off
the bitmap. -/
theorem free_out_of_range {s : Pmem} (h : Counted s) {addr : U32} (ha : ¬ InRange (.free addr)) :
    ¬ CountsMatch (ck_pmem_free_page s addr) := by
  simp only [InRange, CK_PAGE_SIZE, CK_MAX_PAGES] at ha
  push Not at ha
  obtain ⟨hal, hge⟩ := ha
  have hlt := addr.isLt
  rcases free_cases s addr with ⟨-, hn⟩ | ⟨p, hp, -, hal', -, hu'⟩
  · have := (hn (addr.toNat / 4096) (by simp only [Names, CK_PAGE_SIZE]; omega)).1
    simp only [CK_MAX_PAGES] at this
    omega
  · intro hc
    simp only [Names, CK_PAGE_SIZE] at hp
    have hm : p ∉ s.allocated := fun hm => by
      have := (mem_allocated.1 hm).1
      simp only [CK_MAX_PAGES] at this
      omega
    have hu := hc.used
    rw [ck_pmem_get_used_pages, hu', hal', Finset.erase_eq_of_notMem hm, ← h.2, BitVec.toNat_sub,
      show (1 : U32).toNat = 1 from rfl] at hu
    have := s.used_pages.isLt
    omega

/-- The counts match in every state of a run exactly when the run frees no
page-aligned address at or past 256 MB. -/
theorem counts_match_iff (s₀ : Pmem) (ops : List PmemOp) :
    (∀ pre, pre <+: ops → CountsMatch (run s₀ pre).mem) ↔ ∀ op ∈ ops, InRange op := by
  refine forall_prefix_iff Run.step (fun r => Counted r.mem) (fun r h => h.countsMatch) ?_ ?_ ops _ (counted_init s₀)
  · intro r op h hop
    cases op with
    | alloc => rw [step_alloc_mem]; exact counted_alloc h
    | free addr => exact counted_free h hop
  · intro r op h hop
    cases op with
    | alloc => exact absurd trivial hop
    | free addr => exact free_out_of_range h hop

/-- Right after `ck_pmem_init`, freeing the first page past 256 MB leaves 384
set bits counted as 383. -/
theorem counts_break_past_the_end : ¬ CountsMatch (run .zero [.free 0x10000000#32]).mem := by
  apply free_out_of_range (counted_init _)
  simp [InRange, CK_PAGE_SIZE, CK_MAX_PAGES]

/-! ## Reserved pages -/

/-- Pages below 0x180000 are marked, and the next allocation respects it: it
hands out a page from 0x180000 up, or returns 0 having taken none. -/
structure ReservedKept (s : Pmem) : Prop where
  marked : ∀ p, p < reservedPages → s.bit p = true
  above : (ck_pmem_alloc_page s).2 ≠ 0#32 → 0x180000 ≤ (ck_pmem_alloc_page s).2.toNat
  zero : (ck_pmem_alloc_page s).2 = 0#32 →
    (ck_pmem_alloc_page s).1.used_pages = s.used_pages ∧ (ck_pmem_alloc_page s).1.bitmap = s.bitmap

/-- What carries `ReservedKept` through a run. -/
def Reserved (s : Pmem) : Prop := Finset.range reservedPages ⊆ s.allocated

theorem Reserved.le_of_notMem {s : Pmem} (h : Reserved s) {p : Nat} (hp : p ∉ s.allocated) : reservedPages ≤ p := by
  by_contra hn
  exact hp (h (Finset.mem_range.2 (Nat.lt_of_not_le hn)))

theorem reserved_init (s : Pmem) : Reserved (ck_pmem_init s) := by
  rw [Reserved, (init_spec s).1]

/-- The first allocation after boot returns page 384. -/
theorem alloc_init (s : Pmem) : (ck_pmem_alloc_page (ck_pmem_init s)).2 = 0x180000#32 :=
  BitVec.eq_of_toNat_eq (alloc_range (init_spec s).1 (by decide)).1

theorem reserved_alloc {s : Pmem} (h : Reserved s) : Reserved (ck_pmem_alloc_page s).1 := by
  rcases alloc_cases s with ⟨page, -, -, -, -, ha, -, -⟩ | ⟨-, he⟩
  · rw [Reserved, ha]; exact h.trans (Finset.subset_insert _ _)
  · rw [he]; exact h

theorem Reserved.kept {s : Pmem} (h : Reserved s) : ReservedKept s := by
  have hm : ∀ p, p < reservedPages → s.bit p = true := fun p hp => (mem_allocated.1 (h (Finset.mem_range.2 hp))).2
  rcases alloc_cases s with ⟨page, -, hn, -, hr, -, -, -⟩ | ⟨-, he⟩
  · have hge := h.le_of_notMem hn
    simp only [reservedPages, CK_PAGE_SIZE] at hge hr
    refine ⟨hm, fun _ => by omega, fun h0 => ?_⟩
    rw [h0, BitVec.toNat_ofNat] at hr
    omega
  · refine ⟨hm, fun hne => absurd (by rw [he]) hne, fun _ => ?_⟩
    rw [he]
    exact ⟨rfl, rfl⟩

/-- The frees that keep the reserved pages: unaligned ones, and those from
0x180000 up. -/
def AboveReserved : PmemOp → Prop
  | .alloc => True
  | .free addr => addr.toNat % CK_PAGE_SIZE = 0 → reservedPages * CK_PAGE_SIZE ≤ addr.toNat

theorem reserved_free {s : Pmem} (h : Reserved s) {addr : U32} (ha : AboveReserved (.free addr)) :
    Reserved (ck_pmem_free_page s addr) := by
  rcases free_cases s addr with ⟨he, -⟩ | ⟨p, hp, -, hal, -, -⟩
  · rw [he]; exact h
  · rw [Reserved, hal]
    intro q hq
    simp only [Names, AboveReserved, CK_PAGE_SIZE, reservedPages] at hp ha
    have := ha (by omega)
    have := Finset.mem_range.1 hq
    simp only [reservedPages] at this
    exact Finset.mem_erase.2 ⟨by omega, h hq⟩

/-- Freeing a reserved page clears its bit. -/
theorem free_reserved {s : Pmem} (h : Reserved s) {addr : U32} (ha : ¬ AboveReserved (.free addr)) :
    ¬ ReservedKept (ck_pmem_free_page s addr) := by
  simp only [AboveReserved, CK_PAGE_SIZE, reservedPages] at ha
  push Not at ha
  obtain ⟨hal, hlt⟩ := ha
  have hn : Names addr (addr.toNat / 4096) := by simp only [Names, CK_PAGE_SIZE]; omega
  have hm : addr.toNat / 4096 ∈ s.allocated := h (Finset.mem_range.2 (by simp only [reservedPages]; omega))
  rcases free_cases s addr with ⟨-, he⟩ | ⟨p, hp, -, hal', -, -⟩
  · exact absurd hm (he _ hn).2
  · intro hk
    have hp' : p = addr.toNat / 4096 := by simp only [Names, CK_PAGE_SIZE] at hp; omega
    have hb := hk.marked p (by simp only [reservedPages]; omega)
    have : p ∈ (ck_pmem_free_page s addr).allocated := mem_allocated.2 ⟨by simp only [CK_MAX_PAGES]; omega, hb⟩
    rw [hal'] at this
    exact absurd rfl (Finset.mem_erase.1 this).1

theorem reserved_step {r : Run} (h : Reserved r.mem) {op : PmemOp} (hop : AboveReserved op) :
    Reserved (r.step op).mem := by
  cases op with
  | alloc => rw [step_alloc_mem]; exact reserved_alloc h
  | free addr => exact reserved_free h hop

/-- The reserved pages stay reserved in every state of a run exactly when the
run frees no page-aligned address below 0x180000. -/
theorem reserved_kept_iff (s₀ : Pmem) (ops : List PmemOp) :
    (∀ pre, pre <+: ops → ReservedKept (run s₀ pre).mem) ↔ ∀ op ∈ ops, AboveReserved op := by
  refine forall_prefix_iff Run.step (fun r => Reserved r.mem) (fun r h => h.kept) (fun r op h hop => reserved_step h hop)
    ?_ ops _ (reserved_init s₀)
  intro r op h hop
  cases op with
  | alloc => exact absurd trivial hop
  | free addr => exact free_reserved h hop

/-- After `ck_pmem_free_page(0)` page 0 is free, and the next allocation takes
it and returns 0. -/
theorem page_zero_handed_out :
    ¬ ReservedKept (run .zero [.free 0#32]).mem ∧
      (ck_pmem_alloc_page (run .zero [.free 0#32]).mem).2 = 0#32 ∧
      0 ∈ (ck_pmem_alloc_page (run .zero [.free 0#32]).mem).1.allocated := by
  have hr : (run .zero [.free 0#32]).mem = ck_pmem_free_page (ck_pmem_init .zero) 0#32 := rfl
  rw [hr]
  refine ⟨free_reserved (reserved_init _) (by simp [AboveReserved, CK_PAGE_SIZE, reservedPages]), ?_⟩
  generalize hs : ck_pmem_free_page (ck_pmem_init .zero) 0#32 = s
  have hz : 0 ∉ s.allocated := by
    rcases free_cases (ck_pmem_init .zero) 0#32 with ⟨-, hn⟩ | ⟨p, hp, -, ha, -, -⟩
    · have := (hn 0 (by simp [Names])).2
      rw [(init_spec _).1] at this
      simp [reservedPages] at this
    · have : p = 0 := by simpa [Names, CK_PAGE_SIZE] using hp.symm
      rw [← hs, ha, this]
      exact fun h => absurd rfl (Finset.mem_erase.1 h).1
  rcases alloc_cases s with ⟨page, -, -, hlow, hret, ha, -, -⟩ | ⟨hfull, -⟩
  · have hp : page = 0 := by
      by_contra hne
      exact hz (hlow 0 (Nat.pos_of_ne_zero hne))
    subst hp
    exact ⟨BitVec.eq_of_toNat_eq (by simpa using hret), by rw [ha]; exact Finset.mem_insert_self _ _⟩
  · rw [hfull] at hz
    exact absurd (Finset.mem_range.2 (by decide)) hz

/-! ## Callers that free what they were given -/

/-- The addresses of pages the allocator may hand out. -/
def IsPage (a : U32) : Prop :=
  a.toNat % CK_PAGE_SIZE = 0 ∧ reservedPages * CK_PAGE_SIZE ≤ a.toNat ∧ a.toNat < CK_MAX_PAGES * CK_PAGE_SIZE

/-- Only outstanding addresses are freed. -/
def FreesOutstanding (r : Run) : PmemOp → Prop
  | .alloc => True
  | .free a => a ∈ r.out

/-- The marked pages are the reserved ones and the outstanding ones. -/
structure Tracks (r : Run) : Prop where
  nodup : r.out.Nodup
  pages : ∀ a ∈ r.out, IsPage a
  marked : r.mem.allocated = Finset.range reservedPages ∪ (r.out.map fun a => a.toNat / CK_PAGE_SIZE).toFinset

theorem IsPage.names {a : U32} (h : IsPage a) : Names a (a.toNat / CK_PAGE_SIZE) := by
  have := h.1
  simp only [Names, CK_PAGE_SIZE] at *
  omega

theorem IsPage.inj {a b : U32} (ha : IsPage a) (hb : IsPage b) (h : a.toNat / CK_PAGE_SIZE = b.toNat / CK_PAGE_SIZE) :
    a = b :=
  BitVec.eq_of_toNat_eq (by rw [ha.names, hb.names, h])

theorem Tracks.mem_iff {r : Run} (h : Tracks r) {a : U32} (ha : IsPage a) :
    a.toNat / CK_PAGE_SIZE ∈ r.mem.allocated ↔ a ∈ r.out := by
  rw [h.marked, Finset.mem_union, Finset.mem_range, List.mem_toFinset, List.mem_map]
  constructor
  · rintro (hlt | ⟨b, hb, he⟩)
    · have := ha.2.1
      simp only [reservedPages, CK_PAGE_SIZE] at *
      omega
    · exact (h.pages b hb).inj ha he ▸ hb
  · exact fun hm => .inr ⟨a, hm, rfl⟩

theorem tracks_start (s₀ : Pmem) : Tracks (.start s₀) := by
  refine ⟨List.nodup_nil, by simp [Run.start], ?_⟩
  simp [Run.start, (init_spec s₀).1]

/-- The reserved and the outstanding pages do not overlap, so they add up. -/
theorem Tracks.card {r : Run} (h : Tracks r) : r.mem.allocated.card = reservedPages + r.out.length := by
  have hd : Disjoint (Finset.range reservedPages) (r.out.map fun a => a.toNat / CK_PAGE_SIZE).toFinset := by
    rw [Finset.disjoint_left]
    intro p hp hm
    obtain ⟨a, ha, rfl⟩ := List.mem_map.1 (List.mem_toFinset.1 hm)
    have := (h.pages a ha).2.1
    have := Finset.mem_range.1 hp
    simp only [reservedPages, CK_PAGE_SIZE] at *
    omega
  have hn : (r.out.map fun a => a.toNat / CK_PAGE_SIZE).Nodup :=
    List.Nodup.map_on (fun a ha b hb he => (h.pages a ha).inj (h.pages b hb) he) h.nodup
  rw [h.marked, Finset.card_union_of_disjoint hd, Finset.card_range, List.toFinset_card_of_nodup hn, List.length_map]

/-- What an allocation does in a run that tracks its pages. -/
theorem Tracks.alloc {r : Run} (h : Tracks r) :
    (IsPage (ck_pmem_alloc_page r.mem).2 ∧ (ck_pmem_alloc_page r.mem).2 ∉ r.out ∧ (ck_pmem_alloc_page r.mem).2 ≠ 0#32 ∧
      (∀ p, p < (ck_pmem_alloc_page r.mem).2.toNat / CK_PAGE_SIZE → p ∈ r.mem.allocated) ∧
      (ck_pmem_alloc_page r.mem).1.allocated =
        insert ((ck_pmem_alloc_page r.mem).2.toNat / CK_PAGE_SIZE) r.mem.allocated ∧
      r.out.length < CK_MAX_PAGES - reservedPages) ∨
    (r.out.length = CK_MAX_PAGES - reservedPages ∧ ck_pmem_alloc_page r.mem = (r.mem, 0#32)) := by
  have hc := h.card
  rcases alloc_cases r.mem with ⟨page, hlt, hn, hlow, hr, ha, -, -⟩ | ⟨hfull, he⟩
  · left
    have hge : reservedPages ≤ page := by
      by_contra hlt'
      apply hn
      rw [h.marked]
      exact Finset.mem_union_left _ (Finset.mem_range.2 (by omega))
    have hcard := card_allocated_le (ck_pmem_alloc_page r.mem).1
    rw [ha, Finset.card_insert_of_notMem hn] at hcard
    generalize (ck_pmem_alloc_page r.mem).2 = a at *
    have hdiv : a.toNat / CK_PAGE_SIZE = page := by simp only [CK_PAGE_SIZE] at hr ⊢; omega
    have hpg : IsPage a := by
      simp only [IsPage, CK_PAGE_SIZE, reservedPages, CK_MAX_PAGES] at *
      omega
    rw [hdiv]
    refine ⟨hpg, fun hm => hn (hdiv ▸ (h.mem_iff hpg).2 hm), ?_, hlow, ha, by omega⟩
    rintro rfl
    have := hpg.2.1
    simp [reservedPages, CK_PAGE_SIZE] at this
  · right
    rw [hfull, Finset.card_range] at hc
    exact ⟨by omega, he⟩

theorem tracks_step (r : Run) (op : PmemOp) (h : Tracks r) (hop : FreesOutstanding r op) : Tracks (r.step op) := by
  cases op with
  | alloc =>
    have halloc := h.alloc
    rcases he : ck_pmem_alloc_page r.mem with ⟨mem, a⟩
    rw [he] at halloc
    rw [step_alloc he]
    rcases halloc with ⟨hpg, hn, h0, -, ha, -⟩ | ⟨-, hsame⟩
    · rw [if_neg h0]
      refine ⟨List.nodup_cons.2 ⟨hn, h.nodup⟩, ?_, ?_⟩
      · intro b hb
        rcases List.mem_cons.1 hb with rfl | hb
        · exact hpg
        · exact h.pages b hb
      · rw [ha, h.marked, List.map_cons, List.toFinset_cons, Finset.union_insert]
    · obtain ⟨rfl, rfl⟩ := Prod.mk.inj hsame
      exact h
  | free a =>
    have hpg := h.pages a hop
    have hm := (h.mem_iff hpg).2 hop
    rcases free_cases r.mem a with ⟨-, hn⟩ | ⟨p, hp, -, ha, -, -⟩
    · exact absurd hm (hn _ hpg.names).2
    · have hpa : p = a.toNat / CK_PAGE_SIZE := by simp only [Names, CK_PAGE_SIZE] at hp ⊢; omega
      refine ⟨h.nodup.erase a, fun b hb => h.pages b (List.mem_of_mem_erase hb), ?_⟩
      show (ck_pmem_free_page r.mem a).allocated = _
      rw [ha, h.marked, hpa]
      ext q
      simp only [Run.step, Finset.mem_erase, Finset.mem_union, Finset.mem_range, List.mem_toFinset, List.mem_map,
        h.nodup.mem_erase_iff]
      constructor
      · rintro ⟨hne, hq | ⟨b, hb, rfl⟩⟩
        · exact .inl hq
        · exact .inr ⟨b, ⟨fun e => hne (by rw [e]), hb⟩, rfl⟩
      · rintro (hq | ⟨b, ⟨hne, hb⟩, rfl⟩)
        · have := hpg.2.1
          simp only [reservedPages, CK_PAGE_SIZE] at *
          exact ⟨by omega, .inl hq⟩
        · exact ⟨fun e => hne ((h.pages b hb).inj hpg e), .inr ⟨b, hb, rfl⟩⟩

theorem tracks_run {s₀ : Pmem} {ops : List PmemOp} (h : Allowed Run.step FreesOutstanding (.start s₀) ops) :
    Tracks (run s₀ ops) :=
  run_inv Run.step Tracks tracks_step ops _ (tracks_start s₀) h

/-- In a run that frees only outstanding pages, a successful allocation
returns the lowest free page, an aligned address in the managed range that is
not outstanding. It fails exactly when all 65152 pages are outstanding, and
then changes nothing. -/
theorem alloc_sound (s₀ : Pmem) (ops : List PmemOp) (h : Allowed Run.step FreesOutstanding (.start s₀) ops) :
    let r := run s₀ ops
    let res := ck_pmem_alloc_page r.mem
    r.out.Nodup ∧
    (res.2 ≠ 0#32 → IsPage res.2 ∧ res.2 ∉ r.out ∧ r.mem.bit (res.2.toNat / CK_PAGE_SIZE) = false ∧
      (∀ p, p < res.2.toNat / CK_PAGE_SIZE → r.mem.bit p = true) ∧
      ∀ b, IsPage b → b ∉ r.out → res.2.toNat ≤ b.toNat) ∧
    (res.2 = 0#32 ↔ r.out.length = 65152) ∧
    (res.2 = 0#32 → res.1 = r.mem) := by
  intro r res
  have ht : Tracks r := tracks_run h
  have halloc := ht.alloc
  rcases he : res with ⟨mem, a⟩
  rw [show ck_pmem_alloc_page r.mem = (mem, a) from he] at halloc
  refine ⟨ht.nodup, ?_⟩
  rcases halloc with ⟨hpg, hn, h0, hlow, -, hlen⟩ | ⟨hlen, hsame⟩
  · refine ⟨fun _ => ⟨hpg, hn, ?_, fun p hp => (mem_allocated.1 (hlow p hp)).2, fun b hb hbn => ?_⟩, ?_, ?_⟩
    · by_contra hbit
      refine hn ((ht.mem_iff hpg).1 (mem_allocated.2 ⟨?_, by simpa using hbit⟩))
      have := hpg.2.2
      simp only [CK_PAGE_SIZE, CK_MAX_PAGES] at *
      omega
    · by_contra hlt
      apply hbn
      apply (ht.mem_iff hb).1
      apply hlow
      have hpb := hb.names
      have hpa := hpg.names
      simp only [Names, CK_PAGE_SIZE] at *
      omega
    · constructor
      · exact fun e => absurd e h0
      · intro e
        rw [e] at hlen
        exact absurd hlen (by decide)
    · exact fun e => absurd e h0
  · obtain ⟨rfl, rfl⟩ := Prod.mk.inj hsame
    exact ⟨fun hne => absurd rfl hne, iff_of_true rfl hlen, fun _ => rfl⟩

/-- Two pages are taken and the first of them is given back. The other one is
still outstanding, and the next allocation returns the one given back. -/
theorem alloc_sound_given_back :
    Allowed Run.step FreesOutstanding (.start .zero) [.alloc, .alloc, .free 0x180000#32] ∧
      (run .zero [.alloc, .alloc, .free 0x180000#32]).out = [0x181000#32] ∧
      (ck_pmem_alloc_page (run .zero [.alloc, .alloc, .free 0x180000#32]).mem).2 = 0x180000#32 := by
  have hfirst : (Run.step (.start .zero) .alloc).out = [0x180000#32] := step_alloc_out (alloc_init .zero) (by decide)
  have hmarked : (Run.step (.start .zero) .alloc).mem.allocated = Finset.range 385 := by
    rw [step_alloc_mem]
    exact (alloc_range (init_spec .zero).1 (by decide)).2
  have hnext : (ck_pmem_alloc_page (Run.step (.start .zero) .alloc).mem).2 = 0x181000#32 :=
    BitVec.eq_of_toNat_eq (alloc_range hmarked (by decide)).1
  have hsecond : (Run.step (Run.step (.start .zero) .alloc) .alloc).out = [0x181000#32, 0x180000#32] := by
    rw [step_alloc_out hnext (by decide), hfirst]
  have hr : (run .zero [.alloc, .alloc, .free 0x180000#32]).out = [0x181000#32] := by
    rw [run, List.foldl_cons, List.foldl_cons, List.foldl_cons, List.foldl_nil, step_free_out, hsecond]
    rfl
  have h : Allowed Run.step FreesOutstanding (.start .zero) [.alloc, .alloc, .free 0x180000#32] := by
    refine (allowed_cons _).2 ⟨trivial, (allowed_cons _).2 ⟨trivial, (allowed_cons _).2 ⟨?_, allowed_nil _⟩⟩⟩
    rw [FreesOutstanding, hsecond]
    simp
  obtain ⟨-, hnext, hfail, -⟩ := alloc_sound .zero _ h
  rw [hr] at hnext hfail
  obtain ⟨hpage, -, -, -, hlowest⟩ := hnext fun h0 => absurd (hfail.1 h0) (by decide)
  have hle := hlowest 0x180000#32 (by simp [IsPage, CK_PAGE_SIZE, reservedPages, CK_MAX_PAGES]) (by decide)
  have hge := hpage.2.1
  exact ⟨h, hr, BitVec.eq_of_toNat_eq (Nat.le_antisymm hle hge)⟩

end CheesecakeOS.Pmem
