import CheesecakeOS.Memory.HeapStats
/-!
# A heap without room

Requests of a page each take one page after the other until none is left
(`full_reached`). On the last page two blocks are cut, and the first of them is
freed again (`Packed`): it is then the only free block of the heap, and a
request that it does not serve is refused.
-/
open Lib

namespace CheesecakeOS.Heap

/-- Below `top`, and allocated. -/
def TakenBelow (top : Nat) (s : Heap) (b : U32) : Prop := ¬ s.IsFree b ∧ b.toNat + 12 ≤ top

/-- The list from `f` has only allocated blocks below `top`. -/
def AllTaken (top : Nat) (s : Heap) (f : U32) : Prop := Links.Each s.next 0#32 (TakenBelow top s) f

section Taken
variable {s s' : Heap} {top k : Nat} {f c n : U32}

theorem AllTaken.unfit (h : AllTaken top s f) (total : U32) :
    Links.Each s.next 0#32 (fun b => suitable s.mem total b = false) f :=
  h.imp fun b hb => by
    rw [← Bool.not_eq_true, suitable_iff]
    exact fun hs => hb.1 hs.1

theorem AllTaken.noFit (h : AllTaken top s s.freelist) (total : U32) : s.NoFit total := h.unfit total

/-- A change from `top` on. -/
theorem AllTaken.same {j : Nat} (h : AllTaken top s f) (hs : Same s.mem s'.mem c j) (hj : 0 < j)
    (hc : c.toNat + j ≤ 2 ^ 32) (htop : top ≤ c.toNat) : AllTaken top s' f := by
  have hh : ∀ b, TakenBelow top s b → header s'.mem b = header s.mem b := fun b hb => by
    have hb' := hb.2
    exact header_of_apart hs hc (by omega) hj (by omega)
  refine (h.congr fun b hb => next_congr (hh b hb)).imp fun b hb => ⟨?_, hb.2⟩
  rw [isFree_congr (hh b hb)]
  exact hb.1

/-- The heap has the pages from 384 to `k`, all of them in use. -/
structure Full (k : Nat) (s : Heap) : Prop where
  pages : s.pmem.allocated = Finset.range k
  heap_size : s.heap_size.toNat + 384 * 4096 = k * 4096
  list : AllTaken (k * 4096) s s.freelist

theorem Full.below_limit (h : Full k s) (hk : k < 65536) {total : U32} (ht : total.toNat ≤ 4096) :
    ¬ s.heap_size + total > CK_HEAP_MAX_SIZE := by
  have hsz := h.heap_size
  have hmax : CK_HEAP_MAX_SIZE.toNat = 2 ^ 28 := by decide
  rw [gt_iff_lt, BitVec.lt_def, BitVec.toNat_add_of_lt (by omega)]
  omega

/-- A request of a page takes the next one. -/
theorem Full.grow (h : Full k s) (h0 : 384 < k) (hk : k < 65536) :
    ∃ fuel s' p, ck_malloc fuel s 4084#32 = some (s', p) ∧ SplitsCleanly s 4084#32 ∧ Full (k + 1) s' := by
  have hno := h.list.noFit (4084#32 + CK_HEAP_HEADER_SIZE)
  have hmax : ¬ s.heap_size + (4084#32 + CK_HEAP_HEADER_SIZE) > CK_HEAP_MAX_SIZE := h.below_limit hk (by decide)
  obtain ⟨hr, hsz, hpm⟩ := expand_range hmax h.pages (by omega) hk
  generalize he : (ck_heap_expand s (4084#32 + CK_HEAP_HEADER_SIZE)).2 = a at hr
  have ha : a ≠ 0#32 := by
    rintro rfl
    simp at hr
    omega
  obtain ⟨hs, hh, hf, hp⟩ := expand_whole s (by decide) he ha
  obtain ⟨hsz', hpm'⟩ := malloc_expand_statics s (4084#32 + CK_HEAP_HEADER_SIZE)
  obtain ⟨fuel, hm⟩ := hno.malloc (n := 4084#32) (by decide)
  generalize ck_malloc_expand s (4084#32 + CK_HEAP_HEADER_SIZE) = r at hm hs hh hf hp hsz' hpm'
  obtain ⟨s', p⟩ := r
  dsimp only at hs hh hf hsz' hpm'
  refine ⟨fuel, s', p, hm, hno.splitsCleanly (by decide) (.inl (by decide)), ?_⟩
  have hheap := h.heap_size
  refine ⟨by rw [hpm', hpm], ?_, ?_⟩
  · rw [hsz', hsz, BitVec.toNat_add_of_lt (by simp; omega)]
    simp
    omega
  · have hrest : AllTaken (k * 4096) s' s.freelist := h.list.same hs (by decide) (by omega) (by omega)
    unfold AllTaken
    rw [hf]
    refine Links.Each.cons ha ⟨by simp [IsFree, hh], by omega⟩ ?_
    rw [next, hh]
    exact hrest.imp fun b hb => ⟨hb.1, Nat.le_trans hb.2 (by omega)⟩

end Taken

/-! ## Runs that take every page -/

theorem WholePage.full {s : Heap} (h : WholePage s) : Full 385 s := by
  refine ⟨h.pages, by rw [h.heap_size]; rfl, h.each ⟨?_, by decide⟩⟩
  simp [IsFree, h.header]

/-- The states reached by requests that leave room for headers and by freeing
blocks that fit in a page. -/
abbrev CleanRun : Books → Prop := Reaches Books.Step FreesInPage (.start boot)

theorem CleanRun.malloc {σ : Books} {fuel : Nat} {n p : U32} {s' : Heap} (h : CleanRun σ)
    (hsplit : SplitsCleanly σ.heap n) (hm : ck_malloc fuel σ.heap n = some (s', p)) :
    CleanRun ⟨s', addLive σ.live n p, σ.dead.erase p⟩ := by
  have hmay : FreesInPage σ (.malloc n) := fun _ => hsplit
  exact h.step hmay (.malloc hm)

theorem CleanRun.layout {σ : Books} (h : CleanRun σ) : ∃ B, Layout boot.pmem σ.heap σ.live B := by
  obtain ⟨B, hl, -⟩ := h.inv (Balanced boot.pmem) (balanced_start boot) balanced_step
  exact ⟨B, hl⟩

theorem CleanRun.free {σ : Books} {n p : U32} (h : CleanRun σ) (hp : (p, n) ∈ σ.live) (hn : n.toNat + 12 ≤ 4096) :
    CleanRun ⟨ck_free σ.heap p, σ.live.erase (p, n), insert p σ.dead⟩ := by
  obtain ⟨B, hl⟩ := h.layout
  have hmay : FreesInPage σ (.free p) := fun m hm => by
    have he := List.inj_on_of_nodup_map hl.owned.nodup hm hp rfl
    rwa [(Prod.mk.inj he).2]
  exact h.step hmay (.freeLive hp)

theorem full_reached (m : Nat) (hm : m ≤ 65151) : ∃ σ : Books, CleanRun σ ∧ Full (385 + m) σ.heap := by
  induction m with
  | zero =>
    obtain ⟨s, hmalloc, ⟨hsplit, -⟩, hwhole⟩ := boot_start.malloc_all
    have hinit : CleanRun (.start boot) := .init
    exact ⟨_, hinit.malloc hsplit hmalloc, hwhole.full⟩
  | succ m ih =>
    obtain ⟨σ, hrun, hfull⟩ := ih (by omega)
    obtain ⟨fuel, s, p, hmalloc, hsplit, hfull'⟩ := hfull.grow (by omega) (by omega)
    exact ⟨_, hrun.malloc hsplit hmalloc, hfull'⟩

/-- Without a free page the heap does not grow. -/
theorem expand_refused {s : Heap} (h : s.pmem.allocated = Finset.range 65536) (t : U32) :
    (ck_heap_expand s t).2 = 0#32 := by
  rcases expand_cases s t with ⟨-, h0, -⟩ | ⟨-, -, page, -, hlt, hn, -⟩
  · exact h0
  · rw [h, Finset.mem_range] at hn
    exact absurd hlt hn

/-! ## The last page -/

/-- The last page, 65535, with the headers of three blocks on it. The list goes on
to the blocks of the other pages at `f`. -/
structure LastPage (s : Heap) (f head : U32) (x y z : HeapHeader) : Prop where
  head : s.freelist = head
  first : header s.mem 0xFFFF000#32 = x
  second : header s.mem 0xFFFF100#32 = y
  third : header s.mem 0xFFFF120#32 = z
  rest : AllTaken 0xFFFF000 s f
  pages : s.pmem.allocated = Finset.range 65536

section LastPage
variable {s : Heap} {f head : U32} {x y z : HeapHeader}

/-- `ck_malloc(244)` adds the last page. -/
theorem Full.malloc_last (h : Full 65535 s) : ∃ fuel s' z, ck_malloc fuel s 244#32 = some (s', 0xFFFF00C#32) ∧
    SplitsCleanly s 244#32 ∧
    LastPage s' s.freelist 0xFFFF100#32 ⟨256, 1, 0xFFFF100#32⟩ ⟨3840, 0, s.freelist⟩ z := by
  have hno := h.list.noFit (244#32 + CK_HEAP_HEADER_SIZE)
  have hmax : ¬ s.heap_size + (244#32 + CK_HEAP_HEADER_SIZE) > CK_HEAP_MAX_SIZE := h.below_limit (by decide) (by decide)
  obtain ⟨hr, -, hpm⟩ := expand_range hmax h.pages (by decide) (by decide)
  have hat : (ck_heap_expand s (244#32 + CK_HEAP_HEADER_SIZE)).2 = 0xFFFF000#32 := BitVec.eq_of_toNat_eq hr
  obtain ⟨hs, hh, hhr, hf, hp⟩ := expand_split s (by decide) (by decide) hat (by decide) (by decide)
  obtain ⟨-, hpm'⟩ := malloc_expand_statics s (244#32 + CK_HEAP_HEADER_SIZE)
  obtain ⟨fuel, hm⟩ := hno.malloc (n := 244#32) (by decide)
  generalize ck_malloc_expand s (244#32 + CK_HEAP_HEADER_SIZE) = r at hm hs hh hhr hf hp hpm'
  obtain ⟨s', p⟩ := r
  obtain rfl : p = 0xFFFF00C#32 := hp
  exact ⟨fuel, s', _, hm, hno.splitsCleanly (by decide) (.inr (by decide)), hf, hh, hhr, rfl,
    h.list.same hs (by decide) (by decide) (by decide), by rw [hpm', hpm]⟩

/-- `ck_malloc(20)` cuts the second block. -/
theorem LastPage.malloc_second (h : LastPage s f 0xFFFF100#32 x ⟨3840, 0, f⟩ z) :
    ∃ s', ck_malloc 1 s 20#32 = some (s', 0xFFFF10C#32) ∧ SplitsCleanly s 20#32 ∧
      LastPage s' f 0xFFFF100#32 x ⟨32, 1, 0xFFFF120#32⟩ ⟨3808, 0, f⟩ := by
  have hh := h.second
  have hsz : (header s.mem 0xFFFF100#32).size = 3840#32 := by rw [hh]; rfl
  have hsuit : suitable s.mem (20#32 + CK_HEAP_HEADER_SIZE) 0xFFFF100#32 = true := by
    simp only [suitable, hh]
    decide
  obtain ⟨hfit, hm⟩ := serves_head (n := 20#32) h.head (by decide) (by decide) hsuit
  obtain ⟨hs, h1, h2⟩ := take_split s (20#32 + CK_HEAP_HEADER_SIZE) 0xFFFF100#32 (by decide) (by rw [hsz]; decide)
    (by rw [hsz]; decide)
  rw [hsz] at hs h2
  rw [hh] at h2
  have hx := header_of_apart (h := 0xFFFF000#32) hs (by decide) (by decide) (by decide) (by decide)
  refine ⟨_, hm 0, (hfit.splitsCleanly (.inr ?_)).1, h.head, hx.trans h.first, h1, h2,
    h.rest.same hs (by decide) (by decide) (by decide), h.pages⟩
  rw [size, hsz]
  decide

/-- `ck_malloc(3796)` takes what remains. -/
theorem LastPage.malloc_third (h : LastPage s f 0xFFFF100#32 x ⟨32, 1, 0xFFFF120#32⟩ ⟨3808, 0, f⟩) :
    ∃ s', ck_malloc 2 s 3796#32 = some (s', 0xFFFF12C#32) ∧ SplitsCleanly s 3796#32 ∧
      LastPage s' f 0xFFFF100#32 x ⟨32, 1, 0xFFFF120#32⟩ ⟨3808, 1, f⟩ := by
  have hh := h.third
  have hno : ¬ suitable s.mem (3796#32 + CK_HEAP_HEADER_SIZE) 0xFFFF100#32 = true := by simp [suitable, h.second]
  have hsuit : suitable s.mem (3796#32 + CK_HEAP_HEADER_SIZE) 0xFFFF120#32 = true := by
    simp only [suitable, hh]
    decide
  have hnext : s.next 0xFFFF100#32 = 0xFFFF120#32 := by rw [next, h.second]
  obtain ⟨hfit, hm⟩ := serves_second h.head (by decide) hnext (by decide) (by decide) hno hsuit
  obtain ⟨hs, h1⟩ := take_exact s (3796#32 + CK_HEAP_HEADER_SIZE) 0xFFFF120#32 (by rw [hh]; rfl)
  rw [hh] at h1
  have hx := header_of_apart (h := 0xFFFF000#32) hs (by decide) (by decide) (by decide) (by decide)
  have hy := header_of_apart (h := 0xFFFF100#32) hs (by decide) (by decide) (by decide) (by decide)
  refine ⟨_, hm 0, (hfit.splitsCleanly (.inl ?_)).1, h.head, hx.trans h.first, hy.trans h.second, h1,
    h.rest.same hs (by decide) (by decide) (by decide), h.pages⟩
  rw [size, hh]
  rfl

/-- The first block is freed. -/
theorem LastPage.free_first {n : U32} (h : LastPage s f head ⟨256, 1, n⟩ y z) :
    LastPage (ck_free s 0xFFFF00C#32) f 0xFFFF000#32 ⟨256, 0, head⟩ y z := by
  have hsub : 0xFFFF00C#32 - CK_HEAP_HEADER_SIZE = 0xFFFF000#32 := by decide
  have hne : 0xFFFF00C#32 ≠ 0#32 := by decide
  obtain ⟨hs, hh, hf⟩ := free_header s hne (by simp [hsub, h.first])
  rw [hsub] at hs hh hf
  rw [h.first, h.head] at hh
  have hy := header_of_apart (h := 0xFFFF100#32) hs (by decide) (by decide) (by decide) (by decide)
  have hz := header_of_apart (h := 0xFFFF120#32) hs (by decide) (by decide) (by decide) (by decide)
  exact ⟨hf, hh, hy.trans h.second, hz.trans h.third, h.rest.same hs (by decide) (by decide) (by decide),
    (free_statics s _).2 ▸ h.pages⟩

end LastPage

/-- No page is left, and the one free block has 256 bytes. The block behind it is
that of a live allocation of 20 bytes. -/
abbrev Packed (s : Heap) (f : U32) : Prop :=
  LastPage s f 0xFFFF000#32 ⟨256, 0, 0xFFFF100#32⟩ ⟨32, 1, 0xFFFF120#32⟩ ⟨3808, 1, f⟩

theorem packed_reached : ∃ (σ : Books) (f : U32), CleanRun σ ∧ Packed σ.heap f ∧ (0xFFFF10C#32, 20#32) ∈ σ.live := by
  obtain ⟨σ, hrun, hfull⟩ := full_reached 65150 (by decide)
  obtain ⟨fuel, s₁, z, hm₁, hsplit₁, h₁⟩ := hfull.malloc_last
  obtain ⟨s₂, hm₂, hsplit₂, h₂⟩ := h₁.malloc_second
  obtain ⟨s₃, hm₃, hsplit₃, h₃⟩ := h₂.malloc_third
  have hrun₁ := hrun.malloc hsplit₁ hm₁
  have hrun₂ := CleanRun.malloc hrun₁ hsplit₂ hm₂
  have hrun₃ := CleanRun.malloc hrun₂ hsplit₃ hm₃
  have hfree := CleanRun.free (p := 0xFFFF00C#32) (n := 244#32) hrun₃ (by simp [addLive]) (by decide)
  exact ⟨_, _, hfree, h₃.free_first, (List.mem_erase_of_ne (by simp)).2 (by simp [addLive])⟩

section Packed
variable {s s' : Heap} {f : U32}

/-- The free block serves up to 244 bytes, at the first test of the search. -/
theorem Packed.malloc (h : Packed s f) {n : U32} (h0 : n ≠ 0#32) (hn : (n + CK_HEAP_HEADER_SIZE).toNat ≤ 256) (k : Nat) :
    ck_malloc (k + 1) s n =
      some ((ck_malloc_take s (n + CK_HEAP_HEADER_SIZE) 0xFFFF000#32).1, 0xFFFF00C#32) := by
  have hsuit : suitable s.mem (n + CK_HEAP_HEADER_SIZE) 0xFFFF000#32 = true :=
    suitable_iff.2 ⟨by simp [IsFree, h.first], by rw [size, h.first]; exact hn⟩
  exact (serves_head h.head (by decide) h0 hsuit).2 k

/-- A block that does not serve a request, in front of a list that does not. -/
theorem unfit_cons {total b : U32} {x : HeapHeader} (hx : header s.mem b = x) (hb : b ≠ 0#32)
    (hs : x.allocated = 0#8 → x.size < total)
    (hc : Links.Each s.next 0#32 (fun b => suitable s.mem total b = false) x.next) :
    Links.Each s.next 0#32 (fun b => suitable s.mem total b = false) b := by
  subst hx
  refine .cons hb ?_ hc
  rw [suitable, decide_eq_false_iff_not]
  exact fun h => BitVec.not_lt.2 h.2 (hs h.1)

theorem noFit_of_head {total b : U32} (hb : s.freelist = b)
    (h : Links.Each s.next 0#32 (fun b => suitable s.mem total b = false) b) : s.NoFit total := by
  subst hb
  exact h

/-- 244 bytes use the block up, and nothing is left to serve 32 more. -/
theorem Packed.take_whole (h : Packed s f) : SplitsCleanly s 244#32 ∧
    (ck_malloc_take s (244#32 + CK_HEAP_HEADER_SIZE) 0xFFFF000#32).1.NoFit (32 + CK_HEAP_HEADER_SIZE) := by
  have hsuit : suitable s.mem (244#32 + CK_HEAP_HEADER_SIZE) 0xFFFF000#32 = true := by rw [suitable, h.first]; decide
  have hfit := (serves_head (n := 244#32) h.head (by decide) (by decide) hsuit).1
  constructor
  · refine (hfit.splitsCleanly (.inl ?_)).1
    rw [size, h.first]
    rfl
  · obtain ⟨hs, hh⟩ := take_exact s (244#32 + CK_HEAP_HEADER_SIZE) 0xFFFF000#32 (by rw [h.first]; rfl)
    rw [h.first] at hh
    have hy := (header_of_apart (h := 0xFFFF100#32) hs (by decide) (by decide) (by decide) (by decide)).trans h.second
    have hz := (header_of_apart (h := 0xFFFF120#32) hs (by decide) (by decide) (by decide) (by decide)).trans h.third
    have hrest := (h.rest.same hs (by decide) (by decide) (by decide)).unfit (32 + CK_HEAP_HEADER_SIZE)
    have hthird := unfit_cons hz (by decide) (by simp) hrest
    have hsecond := unfit_cons hy (by decide) (by simp) hthird
    have hfirst := unfit_cons hh (by decide) (by simp) hsecond
    exact noFit_of_head h.head hfirst

/-- 240 bytes leave four. The header of these clears the size and the `allocated`
byte of the block behind, and again nothing is left to serve 32 bytes. -/
theorem Packed.take_over (h : Packed s f) :
    (ck_malloc_take s (240#32 + CK_HEAP_HEADER_SIZE) 0xFFFF000#32).1.IsFree 0xFFFF100#32 ∧
    (ck_malloc_take s (240#32 + CK_HEAP_HEADER_SIZE) 0xFFFF000#32).1.NoFit (32 + CK_HEAP_HEADER_SIZE) := by
  have hsz : (header s.mem 0xFFFF000#32).size = 256#32 := by rw [h.first]; rfl
  have hgt : (header s.mem 0xFFFF000#32).size > 240#32 + CK_HEAP_HEADER_SIZE := by rw [hsz]; decide
  obtain ⟨hs, hh, hr⟩ := take_cut s (240#32 + CK_HEAP_HEADER_SIZE) 0xFFFF000#32 (by decide) (by rw [hsz]; decide)
    (by decide)
  have hhead : (ck_malloc_take s (240#32 + CK_HEAP_HEADER_SIZE) 0xFFFF000#32).1.freelist = 0xFFFF000#32 := h.head
  have hpad : ∀ x ∈ [0xFFFF103#32, 0xFFFF102#32, 0xFFFF101#32],
      (ck_malloc_take s (240#32 + CK_HEAP_HEADER_SIZE) 0xFFFF000#32).1.mem x = s.mem x := by
    intro x hx
    obtain rfl | rfl | rfl : x = 0xFFFF103#32 ∨ x = 0xFFFF102#32 ∨ x = 0xFFFF101#32 := by simpa using hx
    all_goals exact take_padding s hgt (by decide) (by decide) (by decide) (by decide)
  rw [h.first] at hr
  generalize (ck_malloc_take s (240#32 + CK_HEAP_HEADER_SIZE) 0xFFFF000#32).1 = t at hs hh hr hhead hpad ⊢
  -- The `allocated` byte is the lowest one of the remainder's link, which is the address of the block.
  have hlink : load32 t.mem (0xFFFF0FC#32 + 8) = 0xFFFF100#32 := congrArg HeapHeader.next hr
  have hfree : t.mem (0xFFFF100#32 + 4) = 0#8 := by
    have hlow := load32_low t.mem (0xFFFF0FC#32 + 8)
    rw [hlink] at hlow
    exact hlow.symm
  -- Of the size the lowest byte is the remainder's `allocated`, the others are as they were.
  have hzero : t.mem 0xFFFF100#32 = 0#8 := congrArg HeapHeader.allocated hr
  have hhigh : t.mem (0xFFFF100#32 + 3) ++ t.mem (0xFFFF100#32 + 2) ++ t.mem (0xFFFF100#32 + 1) = 0#24 := by
    have hold := load32_high s.mem 0xFFFF100#32
    rw [show load32 s.mem 0xFFFF100#32 = 32#32 from congrArg HeapHeader.size h.second] at hold
    rw [hpad _ (by decide), hpad _ (by decide), hpad _ (by decide)]
    exact hold.symm
  have hnext : load32 t.mem (0xFFFF100#32 + 8) = 0xFFFF120#32 :=
    (hs.load32 (by decide) (by decide)).trans (congrArg HeapHeader.next h.second)
  have hy : header t.mem 0xFFFF100#32 = ⟨0, 0, 0xFFFF120#32⟩ := by
    have hsize : load32 t.mem 0xFFFF100#32 = 0#32 := by
      rw [load32, hhigh, hzero]
      rfl
    rw [header, hsize, hfree, hnext]
    rfl
  have hz := (header_of_apart (h := 0xFFFF120#32) hs (by decide) (by decide) (by decide) (by decide)).trans h.third
  have hrest := (h.rest.same hs (by decide) (by decide) (by decide)).unfit (32 + CK_HEAP_HEADER_SIZE)
  have hthird := unfit_cons hz (by decide) (by simp) hrest
  have hsecond := unfit_cons hy (by decide) (by decide) hthird
  have hremainder := unfit_cons hr (by decide) (by decide) hsecond
  have hfirst := unfit_cons hh (by decide) (by simp) hremainder
  exact ⟨hfree, noFit_of_head hhead hfirst⟩

end Packed

end CheesecakeOS.Heap
