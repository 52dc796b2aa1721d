import Mathlib.Algebra.BigOperators.Group.Finset.Basic
import Mathlib.Tactic.Linarith
import Mathlib.Tactic.Ring
/-!
# Blocks that tile pages

Blocks are values of any type with a position and a length. `Tiling` says that
they fill a set of pages of `N` bytes without gaps or overlaps, none shorter
than `k`, and that their lengths add up to the pages. Two changes keep that:
cutting a block in two (`split`) and adding a page as one block (`newPage`).
-/
namespace Lib

variable {α : Type} {N k : Nat} {pages : Finset Nat} {B : Finset α} {pos len len' : α → Nat}

/-- The blocks `B` tile the pages numbered in `pages`. -/
structure Tiling (N k : Nat) (pages : Finset Nat) (B : Finset α) (pos len : α → Nat) : Prop where
  page : ∀ b ∈ B, ∃ p ∈ pages, p * N ≤ pos b ∧ pos b + len b ≤ p * N + N
  room : ∀ b ∈ B, k ≤ len b
  apart : ∀ b ∈ B, ∀ c ∈ B, b ≠ c → pos b + len b ≤ pos c ∨ pos c + len c ≤ pos b
  tile : ∀ b ∈ B, (∃ p ∈ pages, pos b + len b = p * N + N) ∨ ∃ c ∈ B, pos c = pos b + len b
  first : ∀ p ∈ pages, ∃ b ∈ B, pos b = p * N
  total : ∑ b ∈ B, len b = pages.card * N

namespace Tiling

theorem empty : Tiling N k ∅ (∅ : Finset α) pos len :=
  ⟨by simp, by simp, by simp, by simp, by simp, by simp⟩

/-- Only the lengths of the blocks matter. -/
theorem congr (h : Tiling N k pages B pos len) (he : ∀ b ∈ B, len' b = len b) : Tiling N k pages B pos len' where
  page b hb := by rw [he b hb]; exact h.page b hb
  room b hb := by rw [he b hb]; exact h.room b hb
  apart b hb c hc hne := by rw [he b hb, he c hc]; exact h.apart b hb c hc hne
  tile b hb := by rw [he b hb]; exact h.tile b hb
  first := h.first
  total := by rw [Finset.sum_congr rfl he]; exact h.total

section Split
variable {c r : α} (h : Tiling N k pages B pos len) (hc : c ∈ B) (hpos : pos r = pos c + len' c)
  (hlen : len' c + len' r = len c) (hkc : k ≤ len' c) (hkr : k ≤ len' r)
  (he : ∀ b ∈ B, b ≠ c → len' b = len b)
include h hc hpos hlen hkc hkr he

/-- The second half is a new block. -/
theorem split_notMem (hk : 0 < k) : r ∉ B := by
  intro hr
  have hne : r ≠ c := by rintro rfl; omega
  have := h.apart r hr c hc hne
  have := h.room r hr
  omega

variable [DecidableEq α]

/-- Cutting a block keeps the total length. -/
theorem sum_split (hk : 0 < k) : ∑ b ∈ insert r B, len' b = ∑ b ∈ B, len b := by
  have hr := split_notMem h hc hpos hlen hkc hkr he hk
  have hrest : ∑ b ∈ B.erase c, len' b = ∑ b ∈ B.erase c, len b :=
    Finset.sum_congr rfl fun b hb => he b (Finset.mem_of_mem_erase hb) (Finset.ne_of_mem_erase hb)
  rw [Finset.sum_insert hr, ← Finset.add_sum_erase B len' hc, ← Finset.add_sum_erase B len hc, hrest]
  omega

/-- Cutting block `c` in two. -/
theorem split (hk : 0 < k) : Tiling N k pages (insert r B) pos len' := by
  have hr := split_notMem h hc hpos hlen hkc hkr he hk
  have hrc : r ≠ c := fun e => hr (e ▸ hc)
  -- A block other than the two halves is apart from the whole, so from both.
  have far : ∀ b ∈ B, b ≠ c → pos b + len b ≤ pos c ∨ pos c + len c ≤ pos b := fun b hb hne => h.apart b hb c hc hne
  refine ⟨fun b hb => ?_, fun b hb => ?_, fun b hb d hd hne => ?_, fun b hb => ?_, fun p hp => ?_,
    (sum_split h hc hpos hlen hkc hkr he hk).trans h.total⟩
  · rcases Finset.mem_insert.1 hb with rfl | hb
    · obtain ⟨p, hp, h1, h2⟩ := h.page c hc
      exact ⟨p, hp, by omega, by omega⟩
    · by_cases hbc : b = c
      · subst hbc
        obtain ⟨p, hp, h1, h2⟩ := h.page b hb
        exact ⟨p, hp, h1, by omega⟩
      · rw [he b hb hbc]; exact h.page b hb
  · rcases Finset.mem_insert.1 hb with rfl | hb
    · exact hkr
    · by_cases hbc : b = c
      · rw [hbc]; exact hkc
      · rw [he b hb hbc]; exact h.room b hb
  · -- Lengths after the cut add up to at most those before it, on the same side.
    rcases Finset.mem_insert.1 hb with hbr | hbB
    · subst hbr
      have hdB := Finset.mem_of_mem_insert_of_ne hd (Ne.symm hne)
      by_cases hdc : d = c
      · subst hdc; right; omega
      · have := far d hdB hdc
        rw [he d hdB hdc]
        omega
    · rcases Finset.mem_insert.1 hd with hdr | hdB
      · subst hdr
        by_cases hbc : b = c
        · subst hbc; left; omega
        · have := far b hbB hbc
          rw [he b hbB hbc]
          omega
      · by_cases hbc : b = c
        · subst hbc
          have := far d hdB (Ne.symm hne)
          rw [he d hdB (Ne.symm hne)]
          omega
        · by_cases hdc : d = c
          · subst hdc
            have := far b hbB hbc
            rw [he b hbB hbc]
            omega
          · rw [he b hbB hbc, he d hdB hdc]; exact h.apart b hbB d hdB hne
  · rcases Finset.mem_insert.1 hb with rfl | hb
    · rw [hpos, Nat.add_assoc, hlen]
      rcases h.tile c hc with ht | ⟨d, hd, ht⟩
      · exact .inl ht
      · exact .inr ⟨d, Finset.mem_insert_of_mem hd, ht⟩
    · by_cases hbc : b = c
      · subst hbc
        exact .inr ⟨r, Finset.mem_insert_self _ _, hpos⟩
      · rw [he b hb hbc]
        rcases h.tile b hb with ht | ⟨d, hd, ht⟩
        · exact .inl ht
        · exact .inr ⟨d, Finset.mem_insert_of_mem hd, ht⟩
  · obtain ⟨b, hb, hp⟩ := h.first p hp
    exact ⟨b, Finset.mem_insert_of_mem hb, hp⟩

end Split

section NewPage
variable {a : α} {p : Nat} (h : Tiling N k pages B pos len) (hp : p ∉ pages) (ha : pos a = p * N) (hlen : len' a = N)
  (he : ∀ b ∈ B, len' b = len b)

/-- Different pages share no byte. -/
theorem page_le {p q : Nat} (h : p ≠ q) : p * N + N ≤ q * N ∨ q * N + N ≤ p * N := by
  rcases Nat.lt_or_gt_of_ne h with h | h
  · left; nlinarith [Nat.mul_le_mul_right N h]
  · right; nlinarith [Nat.mul_le_mul_right N h]

include h hp in
/-- Blocks are apart from a page they do not tile. -/
theorem apart_page {b : α} (hb : b ∈ B) : pos b + len b ≤ p * N ∨ p * N + N ≤ pos b := by
  obtain ⟨q, hq, h1, h2⟩ := h.page b hb
  have hne : q ≠ p := fun e => hp (e ▸ hq)
  rcases page_le (N := N) hne with h3 | h3 <;> omega

include h hp ha in
theorem newPage_notMem (hk : 0 < k) (hkN : k ≤ N) : a ∉ B := by
  intro hb
  have h1 := h.apart_page hp hb
  have h2 := h.room a hb
  omega

variable [DecidableEq α]

include h hp ha hlen he in
/-- Adding a page as one block. -/
theorem newPage (hk : 0 < k) (hkN : k ≤ N) : Tiling N k (insert p pages) (insert a B) pos len' := by
  have far : ∀ b ∈ B, pos b + len' b ≤ pos a ∨ pos a + len' a ≤ pos b := fun b hb => by
    rw [he b hb, ha, hlen]; exact h.apart_page hp hb
  refine ⟨fun b hb => ?_, fun b hb => ?_, fun b hb d hd hne => ?_, fun b hb => ?_, fun q hq => ?_, ?_⟩
  · rcases Finset.mem_insert.1 hb with rfl | hb
    · exact ⟨p, Finset.mem_insert_self _ _, by omega, by omega⟩
    · obtain ⟨q, hq, hh⟩ := h.page b hb
      rw [he b hb]
      exact ⟨q, Finset.mem_insert_of_mem hq, hh⟩
  · rcases Finset.mem_insert.1 hb with rfl | hb
    · omega
    · rw [he b hb]; exact h.room b hb
  · rcases Finset.mem_insert.1 hb with hba | hbB
    · subst hba
      exact (far d (Finset.mem_of_mem_insert_of_ne hd (Ne.symm hne))).symm
    · rcases Finset.mem_insert.1 hd with hda | hdB
      · subst hda; exact far b hbB
      · rw [he b hbB, he d hdB]; exact h.apart b hbB d hdB hne
  · rcases Finset.mem_insert.1 hb with rfl | hb
    · exact .inl ⟨p, Finset.mem_insert_self _ _, by omega⟩
    · rw [he b hb]
      rcases h.tile b hb with ⟨q, hq, ht⟩ | ⟨d, hd, ht⟩
      · exact .inl ⟨q, Finset.mem_insert_of_mem hq, ht⟩
      · exact .inr ⟨d, Finset.mem_insert_of_mem hd, ht⟩
  · rcases Finset.mem_insert.1 hq with rfl | hq
    · exact ⟨a, Finset.mem_insert_self _ _, ha⟩
    · obtain ⟨b, hb, hh⟩ := h.first q hq
      exact ⟨b, Finset.mem_insert_of_mem hb, hh⟩
  · rw [Finset.sum_insert (h.newPage_notMem hp ha hk hkN), hlen, Finset.sum_congr rfl he, h.total,
      Finset.card_insert_of_notMem hp]
    ring

end NewPage

end Tiling

end Lib
