import Mathlib.Data.Nat.Bitwise
import Mathlib.Tactic.IntervalCases
/-!
# Fixed-width words

C's unsigned types as bit vectors, the bit operations on a byte that holds
eight flags, and the split of an address into a page and an offset. Counting
loops are `forRange`; `forRange_inv` is the one rule proofs about them use.
-/
namespace Lib

abbrev U8 := BitVec 8
abbrev U16 := BitVec 16
abbrev U32 := BitVec 32

/-! ## Flags packed in bytes -/

section Flags

theorem getLsbD_one_shift (k j : Nat) (hj : j < 8) : (1#8 <<< k).getLsbD j = decide (j = k) := by
  rw [BitVec.getLsbD_shiftLeft, BitVec.getLsbD_one, Bool.eq_iff_iff]
  simp only [Bool.and_eq_true, Bool.not_eq_true', decide_eq_false_iff_not, decide_eq_true_eq]
  omega

/-- `b | (1 << k)` raises flag `k` and leaves the other seven alone. -/
theorem getLsbD_or_shift (b : U8) (k j : Nat) (hj : j < 8) :
    (b ||| (1#8 <<< k)).getLsbD j = (b.getLsbD j || decide (j = k)) := by
  rw [BitVec.getLsbD_or, getLsbD_one_shift k j hj]

/-- `b & ~(1 << k)` lowers flag `k` and leaves the other seven alone. -/
theorem getLsbD_and_not_shift (b : U8) (k j : Nat) (hj : j < 8) :
    (b &&& ~~~(1#8 <<< k)).getLsbD j = (b.getLsbD j && !decide (j = k)) := by
  rw [BitVec.getLsbD_and, BitVec.getLsbD_not, getLsbD_one_shift k j hj, decide_eq_true hj, Bool.true_and]

/-- `(b >> k) & 1` reads flag `k`. -/
theorem shift_and_one_ne_zero (b : U8) (k : Nat) : (b >>> k) &&& 1#8 ≠ 0#8 ↔ b.getLsbD k = true := by
  constructor
  · intro h
    by_contra hk
    refine h (BitVec.eq_of_getLsbD_eq fun i hi => ?_)
    rcases Nat.eq_zero_or_pos i with rfl | hi0
    · simpa [BitVec.getLsbD_ushiftRight] using hk
    · simp [BitVec.getLsbD_one]; omega
  · intro h h0
    have := congrArg (fun x : U8 => x.getLsbD 0) h0
    simp [h] at this

end Flags

/-! ## Counting loops -/

/-- `for (i = lo; i < hi; i++) s = body(s, i)`. -/
def forRange {σ : Type} (lo hi : Nat) (s : σ) (body : σ → Nat → σ) : σ :=
  (List.range' lo (hi - lo)).foldl body s

/-- An invariant indexed by the counter holds after the loop. -/
theorem forRange_inv {σ : Type} {lo hi : Nat} {s : σ} {body : σ → Nat → σ} (I : Nat → σ → Prop)
    (hle : lo ≤ hi) (h0 : I lo s) (hs : ∀ i t, lo ≤ i → i < hi → I i t → I (i + 1) (body t i)) :
    I hi (forRange lo hi s body) := by
  obtain ⟨n, rfl⟩ := Nat.exists_eq_add_of_le hle
  unfold forRange
  rw [Nat.add_sub_cancel_left]
  clear hle
  induction n generalizing lo s with
  | zero => exact h0
  | succ n ih =>
    rw [List.range'_succ, List.foldl_cons]
    have h := @ih (lo + 1) (body s lo) (hs lo s (Nat.le_refl _) (by omega) h0)
      (fun i t h1 h2 => hs i t (by omega) (by omega))
    rwa [show lo + 1 + n = lo + (n + 1) by omega] at h

end Lib
