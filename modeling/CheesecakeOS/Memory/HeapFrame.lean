import CheesecakeOS.Memory.HeapStats
/-!
# What a request writes

The bytes that a call of `ck_malloc` may change: those of the free block it
takes, or those of the page it adds. `malloc_framed` holds in every run of
requests that leave room for headers. A remainder shorter than a header is not
checked for: its header is written into the block behind it (`remainder_reaches`).
-/
open Lib

namespace CheesecakeOS.Heap

section Bytes
variable {start : Pmem} {s : Heap} {B : Finset U32}

/-- A change of the `n` bytes at `a`, as numbers. -/
theorem same_outside {m m' : Mem} {a x : U32} {n : Nat} (hs : Same m m' a n) (ha : a.toNat + n ≤ 2 ^ 32) (hn : 0 < n)
    (hx : x.toNat < a.toNat ∨ a.toNat + n ≤ x.toNat) : m' x = m x := by
  have hlt := x.isLt
  exact hs x (outside_of_apart ha (w := 1) (by omega) hn (by decide) (by omega)).1

/-- A block that is taken is changed within its own bytes. -/
theorem take_same (hg : Geometry start s B) (hl : Linked s B) {n c : U32} (hfit : s.FirstFit (n + CK_HEAP_HEADER_SIZE) c)
    (hn : n.toNat + 12 = s.size c ∨ n.toNat + 24 ≤ s.size c) :
    Same s.mem (ck_malloc_take s (n + CK_HEAP_HEADER_SIZE) c).1.mem c (s.size c) := by
  have hc : c ∈ B := hl.listed_mem hfit.1.on
  have hsmall := hg.small c hc (suitable_iff.1 hfit.2).1
  have hb := hg.bounds hc
  have hext := hg.extent_of_free hc (suitable_iff.1 hfit.2).1
  have ht := total_toNat (n := n) (by omega)
  rcases hn with hn | hn
  · obtain ⟨hs, -⟩ := take_exact s (n + CK_HEAP_HEADER_SIZE) c (BitVec.eq_of_toNat_eq (by rw [ht]; exact hn.symm))
    exact hs.mono (by omega)
  · exact (take_split s (n + CK_HEAP_HEADER_SIZE) c (by omega) (by rw [ht]; exact hn)
      (by change c.toNat + s.size c ≤ _; omega)).1

/-- A page that is added is the only one that changes. -/
theorem expand_same (hg : Geometry start s B) {n : U32} (hno : s.NoFit (n + CK_HEAP_HEADER_SIZE))
    (hn : NeedsPage s n → n.toNat + 12 < 2 ^ 32 ∧ (4096 ≤ n.toNat + 12 ∨ n.toNat + 24 ≤ 4096)) :
    ((ck_malloc_expand s (n + CK_HEAP_HEADER_SIZE)).1.mem = s.mem ∧
      heapPages start (ck_malloc_expand s (n + CK_HEAP_HEADER_SIZE)).1.pmem = heapPages start s.pmem) ∨
      ∃ (a : U32) (page : Nat), a.toNat = page * 4096 ∧ page < 65536 ∧ page ∉ heapPages start s.pmem ∧
        heapPages start (ck_malloc_expand s (n + CK_HEAP_HEADER_SIZE)).1.pmem = insert page (heapPages start s.pmem) ∧
        Same s.mem (ck_malloc_expand s (n + CK_HEAP_HEADER_SIZE)).1.mem a 4096 := by
  rcases malloc_expand_cases hg (n + CK_HEAP_HEADER_SIZE) with ⟨he, hmem, -, -, -, hp⟩ |
    ⟨hcan, a, page, hae, ha0, ha, hlt, hnew, -, -, hpages⟩
  · left
    rw [he]
    exact ⟨hmem, hp⟩
  · right
    obtain ⟨hlt32, hn⟩ := hn ⟨hno, hcan⟩
    have ht := total_toNat hlt32
    refine ⟨a, page, ha, hlt, hnew, hpages, ?_⟩
    rcases hn with hn | hn
    · exact (expand_whole s (by omega) hae ha0).1.mono (by decide)
    · exact (expand_split s (by omega) (by omega) hae ha0 (by omega)).1

end Bytes

/-! ## Runs -/

/-- The bytes a call of `ck_malloc(n)` leaves alone: those outside the block it
takes from the list, those outside the page it adds, and the header and bytes of
every live allocation. -/
structure Framed (start : Pmem) (σ : Sys) (n : U32) (s' : Heap) : Prop where
  taken : ∀ c, σ.heap.FirstFit (n + CK_HEAP_HEADER_SIZE) c → ∀ x : U32,
    x.toNat < c.toNat ∨ c.toNat + σ.heap.size c ≤ x.toNat → s'.mem x = σ.heap.mem x
  expanded : σ.heap.NoFit (n + CK_HEAP_HEADER_SIZE) →
    ∃ page, heapPages start s'.pmem \ heapPages start σ.heap.pmem ⊆ {page} ∧
      ∀ x : U32, x.toNat / 4096 ∉ heapPages start s'.pmem \ heapPages start σ.heap.pmem → s'.mem x = σ.heap.mem x
  live : ∀ l ∈ σ.live, ∀ x : U32,
    (l.1 - CK_HEAP_HEADER_SIZE).toNat ≤ x.toNat → x.toNat < l.1.toNat + l.2.toNat → s'.mem x = σ.heap.mem x

theorem Framed.of_same {start : Pmem} {σ : Sys} {n : U32} {s' : Heap} (hm : s'.mem = σ.heap.mem)
    (hp : heapPages start s'.pmem = heapPages start σ.heap.pmem) : Framed start σ n s' :=
  ⟨fun _ _ _ _ => by rw [hm], fun _ => ⟨0, by simp [hp], fun _ _ => by rw [hm]⟩, fun _ _ _ _ _ => by rw [hm]⟩

theorem Paged.framed {start : Pmem} {σ : Sys} {n p : U32} {fuel : Nat} {s' : Heap} (h : Paged start σ)
    (hop : Fits σ (.malloc n)) (hm : ck_malloc fuel σ.heap n = some (s', p)) : Framed start σ n s' := by
  obtain ⟨B, hl, hsz⟩ := h
  rcases malloc_paths hm with ⟨-, rfl, -⟩ | ⟨h0, c, hfit, he⟩ | ⟨h0, hno, he⟩
  · exact .of_same rfl rfl
  · obtain ⟨rfl, rfl⟩ := Prod.mk.inj he
    have hc : c ∈ B := hl.linked.listed_mem hfit.1.on
    have hfree := (suitable_iff.1 hfit.2).1
    have hb := hl.geometry.bounds hc
    have hroom := hl.geometry.tiling.room c hc
    rw [extent_eq_size hsz hc] at hb hroom
    have houtside : ∀ x : U32, x.toNat < c.toNat ∨ c.toNat + σ.heap.size c ≤ x.toNat → _ = σ.heap.mem x := fun x hx =>
      same_outside (take_same hl.geometry hl.linked hfit ((hop h0).1.1 c hfit)) (by omega) (by omega) hx
    refine ⟨fun d hd => ?_, fun hno => absurd hfit hno.not_firstFit, fun l hmem x h1 h2 => houtside x ?_⟩
    · rw [← hfit.unique hd]
      exact houtside
    · obtain ⟨hB, hnf, -⟩ := hl.owned.block l hmem
      obtain ⟨hp, hext⟩ := Layout.pointer hsz hl hmem
      have hap := hl.geometry.tiling.apart c hc _ hB fun e => hnf (e ▸ hfree)
      rw [extent_eq_size hsz hc] at hap
      omega
  · have e1 : s' = (ck_malloc_expand σ.heap (n + CK_HEAP_HEADER_SIZE)).1 := congrArg Prod.fst he
    subst e1
    rcases expand_same hl.geometry hno (hop h0).1.2 with ⟨hmem, hpages⟩ | ⟨a, page, ha, hlt, hnew, hpages, hs⟩
    · exact .of_same hmem hpages
    · have hdiff : heapPages start (ck_malloc_expand σ.heap (n + CK_HEAP_HEADER_SIZE)).1.pmem \
          heapPages start σ.heap.pmem = {page} := by
        rw [hpages]
        exact Finset.insert_sdiff_cancel hnew
      have houtside : ∀ x : U32, x.toNat / 4096 ≠ page → _ = σ.heap.mem x := fun x hx =>
        same_outside hs (by omega) (by decide) (by omega)
      refine ⟨fun d hd => absurd hd hno.not_firstFit, fun _ => ⟨page, hdiff.subset, fun x hx => houtside x ?_⟩,
        fun l hmem x h1 h2 => houtside x ?_⟩
      · rwa [hdiff, Finset.mem_singleton] at hx
      · obtain ⟨hB, -, -⟩ := hl.owned.block l hmem
        obtain ⟨hp, hext⟩ := Layout.pointer hsz hl hmem
        obtain ⟨hpage, hfit⟩ := hl.geometry.page hB
        rintro rfl
        have hdiv : x.toNat / 4096 = (l.1 - CK_HEAP_HEADER_SIZE).toNat / 4096 := by omega
        rw [hdiv] at hnew
        exact hnew hpage

/-- In every state reached by requests that fit, one more that fits changes
bytes only of the block it takes or of the page it adds, and none of a live
allocation. -/
theorem malloc_framed (h₀ : Heap) (σ : Sys) (h : Run Fits h₀ σ) (n : U32) (hn : Fits σ (.malloc n)) (fuel : Nat)
    (s' : Heap) (p : U32) (hm : ck_malloc fuel σ.heap n = some (s', p)) : Framed h₀.pmem σ n s' :=
  (h.inv (Paged h₀.pmem) (paged_start h₀) paged_step).framed hn hm

/-- A second request of 100 bytes finds the rest of the page. -/
theorem second_fits {σ : Sys} (hf : σ.heap.freelist = 0x180000#32)
    (h1 : header σ.heap.mem 0x180000#32 = ⟨112, 1, 0x180070#32⟩) (h2 : header σ.heap.mem 0x180070#32 = ⟨3984, 0, 0⟩) :
    Fits σ (.malloc 100#32) := by
  have hno : ¬ suitable σ.heap.mem (100#32 + CK_HEAP_HEADER_SIZE) 0x180000#32 = true := by rw [suitable, h1]; decide
  have hyes : suitable σ.heap.mem (100#32 + CK_HEAP_HEADER_SIZE) 0x180070#32 = true := by rw [suitable, h2]; decide
  have hnext : σ.heap.next 0x180000#32 = 0x180070#32 := by rw [next, h1]
  obtain ⟨hsplit, hneed⟩ := (serves_second hf (by decide) hnext (by decide) (by decide) hno hyes).1.splitsCleanly
    (.inr (by rw [size, h2]; decide))
  exact fun _ => ⟨hsplit, fun h => absurd h hneed⟩

theorem malloc_framed_second : ∃ σ : Sys, ∃ s', Run Fits boot σ ∧ σ.live = [(0x18000C#32, 100#32)] ∧
    ck_malloc 2 σ.heap 100#32 = some (s', 0x18007C#32) ∧ Framed boot.pmem σ 100#32 s' := by
  obtain ⟨s₁, s₂, hm, hf, h1, h2, hm₂, -⟩ := boot_two
  obtain ⟨hsplit, hneed⟩ := boot_start.splitsCleanly (n := 100#32) (by decide) (by decide)
  have hmay : Fits (.start boot) (.malloc 100#32) := fun _ => ⟨hsplit, fun h => absurd h hneed⟩
  have hrun : Run Fits boot ⟨s₁, [(0x18000C#32, 100#32)]⟩ := .step .init hmay (.malloc_live hm rfl)
  exact ⟨_, s₂, hrun, rfl, hm₂, malloc_framed boot _ hrun _ (second_fits hf h1 h2) 2 _ _ hm₂⟩

/-- Two blocks of 100 bytes, the first freed and used for 96 bytes: the header of
the four bytes that remain is written over that of the second block, which is
live. Its `allocated` byte goes from 1 to 0. -/
theorem remainder_reaches : ∃ σ₁ σ₂ σ₃ : Sys, ∃ s', Step (.start boot) (.malloc 100#32) σ₁ ∧
    Step σ₁ (.malloc 100#32) σ₂ ∧ Step σ₂ (.free 0x18000C#32) σ₃ ∧
    ck_malloc 1 σ₃.heap 96#32 = some (s', 0x18000C#32) ∧ σ₃.live = [(0x18007C#32, 100#32)] ∧
    σ₃.heap.mem 0x180074#32 = 1#8 ∧ s'.mem 0x180074#32 = 0#8 ∧ ¬ Framed boot.pmem σ₃ 96#32 s' := by
  obtain ⟨s₁, s₂, hm, -, -, -, hm₂, htwo⟩ := boot_two
  obtain ⟨s₄, hm₄, hfree, -, -⟩ := htwo.free.overwrite
  have hat : 0x180070#32 + 4 = 0x180074#32 := by decide
  have hbefore : (ck_free s₂ 0x18000C#32).mem 0x180074#32 = 1#8 := by
    rw [← hat]
    exact congrArg HeapHeader.allocated htwo.free.second
  have hafter : s₄.mem 0x180074#32 = 0#8 := by
    rw [← hat]
    exact hfree
  refine ⟨⟨s₁, [(0x18000C#32, 100#32)]⟩, ⟨s₂, [(0x18007C#32, 100#32), (0x18000C#32, 100#32)]⟩,
    ⟨_, [(0x18007C#32, 100#32)]⟩, s₄, .malloc_live hm rfl, .malloc_live hm₂ rfl,
    .free (show (0x18000C#32, 100#32) ∈ _ by simp), hm₄, rfl, hbefore, hafter, fun h => ?_⟩
  have hsame := h.live (0x18007C#32, 100#32) (by simp) 0x180074#32 (by decide) (by decide)
  rw [hafter] at hsame
  exact absurd (hsame.trans hbefore) (by decide)

end CheesecakeOS.Heap
