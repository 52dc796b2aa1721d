import CheesecakeOS.Memory.HeapStats
/-!
# The sizes a request is served with

`ck_malloc` adds the header to the request and `ck_heap_expand` adds that to
the size of the heap, both in 32 bits. `sizes_hold_iff` says exactly when the
sums are the ones meant: the first must not wrap where a block of the list is
taken, the second where a page is added. A request just below 2^32 otherwise
passes for a small one.
-/
open Lib

namespace CheesecakeOS.Heap

variable {s : Heap} {n total a c : U32}

/-- A block that is served has room for the request and its header, and the
heap grows only below its limit; the sums are sums of numbers. -/
def SizesHold (s : Heap) (n : U32) : Prop :=
  ∀ fuel s' p, ck_malloc fuel s n = some (s', p) → p ≠ 0#32 →
    n.toNat + 12 ≤ s'.size (p - CK_HEAP_HEADER_SIZE) ∧
      (s'.heap_size ≠ s.heap_size → s.heap_size.toNat + n.toNat + 12 ≤ CK_HEAP_MAX_SIZE.toNat)

/-- The sums that the call compares are below 2^32. -/
def Unwrapped (s : Heap) (n : U32) : Prop :=
  n ≠ 0#32 →
    (∀ c, s.FirstFit (n + CK_HEAP_HEADER_SIZE) c → c + CK_HEAP_HEADER_SIZE ≠ 0#32 → n.toNat + 12 < 2 ^ 32) ∧
    (NeedsPage s n → s.heap_size.toNat + n.toNat + 12 < 2 ^ 32)

/-- A block that is taken has the size asked for: it is written last. -/
theorem take_size (h : suitable s.mem total c = true) :
    (header (ck_malloc_take s total c).1.mem c).size = total := by
  obtain ⟨-, hle⟩ := suitable_iff.1 h
  simp only [ck_malloc_take]
  split
  · simp
  · rename_i hgt
    rw [gt_iff_lt, BitVec.lt_def] at hgt
    rw [header_set_allocated]
    exact BitVec.eq_of_toNat_eq (Nat.le_antisymm (Nat.not_lt.1 hgt) hle)

/-- So has a block at the start of a page: the header of what remains is behind
its own. -/
theorem expand_size (h12 : 12 ≤ total.toNat) (he : (ck_heap_expand s total).2 = a) (ha : a ≠ 0#32)
    (hp : a.toNat + 8192 ≤ 2 ^ 32) :
    (header (ck_malloc_expand s total).1.mem a).size = total ∧
      (ck_malloc_expand s total).2 = a + CK_HEAP_HEADER_SIZE := by
  simp only [ck_malloc_expand, he, if_neg ha]
  split
  · rename_i hlt
    rw [gt_iff_lt, BitVec.lt_def] at hlt
    simp only [BitVec.toNat_ofNat, Nat.reducePow, Nat.reduceMod] at hlt
    have hnb : (a + total).toNat = a.toNat + total.toNat := toNat_add_of_le hp (by omega)
    have hap : HeadersApart (a + total) a := ⟨by omega, by omega, by omega⟩
    refine ⟨?_, rfl⟩
    simp [set_size_apart hap, set_allocated_apart hap, set_next_apart hap]
  · exact ⟨by simp, rfl⟩

/-- Where the heap may grow it does, by a page that lies well below the end of
the address space. -/
theorem expand_grows (h : CanExpand s total) : ∃ a, (ck_heap_expand s total).2 = a ∧ a ≠ 0#32 ∧
    a.toNat + 8192 ≤ 2 ^ 32 ∧ (ck_malloc_expand s total).1.heap_size = s.heap_size + 4096 := by
  obtain ⟨hn, -⟩ | ⟨-, ha0, page, -, hlt, -, ha, hsz, -⟩ := expand_cases s total
  · exact absurd h hn
  · exact ⟨_, rfl, ha0, by omega, (malloc_expand_statics s total).1.trans hsz⟩

theorem add_page_ne (a : U32) : a + 4096 ≠ a := by grind

/-- A page is added below the limit if the sum did not wrap. -/
theorem expand_within (h : CanExpand s (n + CK_HEAP_HEADER_SIZE)) (hn : s.heap_size.toNat + n.toNat + 12 < 2 ^ 32) :
    s.heap_size.toNat + n.toNat + 12 ≤ CK_HEAP_MAX_SIZE.toNat := by
  have hle := h.1
  have ht := total_toNat (n := n) (by omega)
  rw [gt_iff_lt, BitVec.lt_def, BitVec.toNat_add_of_lt (by omega), ht] at hle
  omega

theorem Unwrapped.sizesHold (h : Unwrapped s n) : SizesHold s n := by
  intro fuel s' p hm hp
  rcases malloc_paths hm with ⟨-, -, rfl⟩ | ⟨h0, c, hfit, he⟩ | ⟨h0, hno, he⟩
  · exact absurd rfl hp
  · obtain ⟨rfl, rfl⟩ := Prod.mk.inj he
    have hlt := (h h0).1 c hfit hp
    have hsz := congrArg BitVec.toNat (take_size hfit.2)
    rw [total_toNat hlt] at hsz
    refine ⟨?_, fun hne => absurd rfl hne⟩
    rw [add_header_sub]
    exact hsz.ge
  · have e1 : s' = (ck_malloc_expand s (n + CK_HEAP_HEADER_SIZE)).1 := congrArg Prod.fst he
    have e2 : p = (ck_malloc_expand s (n + CK_HEAP_HEADER_SIZE)).2 := congrArg Prod.snd he
    by_cases hcan : CanExpand s (n + CK_HEAP_HEADER_SIZE)
    · have hlt := (h h0).2 ⟨hno, hcan⟩
      have ht := total_toNat (n := n) (by omega)
      obtain ⟨a, ha, ha0, hpage, -⟩ := expand_grows hcan
      obtain ⟨hsz, hr⟩ := expand_size (by omega) ha ha0 hpage
      refine ⟨?_, fun _ => expand_within hcan hlt⟩
      rw [e1, e2, hr, add_header_sub, size, hsz, ht]
    · obtain ⟨-, hz, -⟩ | ⟨hcan', -⟩ := expand_cases s (n + CK_HEAP_HEADER_SIZE)
      · exact absurd (e2.trans ((malloc_expand_null_iff s _).2 hz)) hp
      · exact absurd hcan' hcan

theorem SizesHold.unwrapped (h : SizesHold s n) : Unwrapped s n := by
  refine fun h0 => ⟨fun c hfit hc => ?_, fun hneed => ?_⟩
  · obtain ⟨fuel, hm⟩ := hfit.malloc h0
    -- No 32-bit size has room for more.
    have hsz := (h fuel _ _ hm hc).1
    have hlt := (header (ck_malloc_take s (n + CK_HEAP_HEADER_SIZE) c).1.mem (c + CK_HEAP_HEADER_SIZE -
      CK_HEAP_HEADER_SIZE)).size.isLt
    exact Nat.lt_of_le_of_lt hsz hlt
  · obtain ⟨fuel, hm⟩ := hneed.1.malloc h0
    obtain ⟨a, ha, ha0, -, hgrown⟩ := expand_grows hneed.2
    have hr : (ck_malloc_expand s (n + CK_HEAP_HEADER_SIZE)).2 ≠ 0#32 := by
      rw [ne_eq, malloc_expand_null_iff, ha]
      exact ha0
    have hne : (ck_malloc_expand s (n + CK_HEAP_HEADER_SIZE)).1.heap_size ≠ s.heap_size := by
      rw [hgrown]
      exact add_page_ne _
    have hle := (h fuel _ _ hm hr).2 hne
    have hmax : CK_HEAP_MAX_SIZE.toNat = 2 ^ 28 := by decide
    omega

/-- The sizes are right exactly for the requests whose sums do not wrap. -/
theorem sizes_hold_iff (s : Heap) (n : U32) : SizesHold s n ↔ Unwrapped s n :=
  ⟨SizesHold.unwrapped, Unwrapped.sizesHold⟩

theorem OnePage.noFit (h : OnePage s) (hn : 4096 < total.toNat) : s.NoFit total := by
  have hnil : s.next 0x180000#32 = 0#32 := by rw [next, h.header]; rfl
  refine ⟨?_, fun b hb => ?_⟩
  · rw [h.head]
    apply Links.Ends.link (by decide)
    rw [hnil]
    exact .nil
  · have hb' : b = 0x180000#32 := Links.On.mem (S := (· = 0x180000#32)) (fun x hx => .inl (hx ▸ hnil)) (.inr h.head) hb
    rw [hb', ← Bool.not_eq_true, h.suitable_iff]
    omega

/-- `ck_malloc(0xFFFFFFFF)` gets a block of 11 bytes, less than its header, and
`ck_malloc(0xFFFFEFF4)` adds a page to a heap of one page. -/
theorem huge_requests_served : ∃ fuel s₁ s₂, ck_malloc 1 (ck_heap_init boot) 0xFFFFFFFF#32 = some (s₁, 0x18000C#32) ∧
    s₁.size 0x180000#32 = 11 ∧ ¬ SizesHold (ck_heap_init boot) 0xFFFFFFFF#32 ∧
    ck_malloc fuel (ck_heap_init boot) 0xFFFFEFF4#32 = some (s₂, 0x18100C#32) ∧ s₂.heap_size = 8192 ∧
    ¬ SizesHold (ck_heap_init boot) 0xFFFFEFF4#32 := by
  have h := boot_start
  generalize ck_heap_init boot = s at h ⊢
  have hsuit : suitable s.mem (0xFFFFFFFF#32 + CK_HEAP_HEADER_SIZE) 0x180000#32 = true := h.suitable_iff.2 (by decide)
  have hm₁ : ck_malloc 1 s 0xFFFFFFFF#32 =
      some (ck_malloc_take s (0xFFFFFFFF#32 + CK_HEAP_HEADER_SIZE) 0x180000#32) :=
    (serves_head h.head (by decide) (by decide) hsuit).2 0
  have hsz₁ := congrArg BitVec.toNat (take_size hsuit)
  have hno : s.NoFit (0xFFFFEFF4#32 + CK_HEAP_HEADER_SIZE) := h.noFit (by decide)
  obtain ⟨fuel, hm₂⟩ := hno.malloc (by decide)
  have hmax : ¬ s.heap_size + (0xFFFFEFF4#32 + CK_HEAP_HEADER_SIZE) > CK_HEAP_MAX_SIZE := by rw [h.heap_size]; decide
  obtain ⟨hr, hgrown, -⟩ := expand_range hmax h.pages (by decide) (by decide)
  have hat : (ck_heap_expand s (0xFFFFEFF4#32 + CK_HEAP_HEADER_SIZE)).2 = 0x181000#32 := BitVec.eq_of_toNat_eq hr
  obtain ⟨-, -, -, hp⟩ := expand_whole s (by decide) hat (by decide)
  have hgrown' := (malloc_expand_statics s (0xFFFFEFF4#32 + CK_HEAP_HEADER_SIZE)).1.trans hgrown
  rw [h.heap_size] at hgrown'
  generalize ck_malloc_expand s (0xFFFFEFF4#32 + CK_HEAP_HEADER_SIZE) = r at hm₂ hp hgrown'
  obtain ⟨s₂, p⟩ := r
  obtain rfl : p = 0x18100C#32 := hp.trans (by decide)
  refine ⟨fuel, _, s₂, hm₁, hsz₁, fun hold => ?_, hm₂, hgrown', fun hold => ?_⟩
  · have hle := (hold _ _ _ hm₁ (by decide)).1.trans_eq hsz₁
    exact absurd hle (by decide)
  · have hle := (hold _ _ _ hm₂ (by decide)).2 (by rw [h.heap_size, show s₂.heap_size = 4096 + 4096 from hgrown']; decide)
    exact absurd hle (by rw [h.heap_size]; decide)

end CheesecakeOS.Heap
