import CheesecakeOS.Lib.Bytes
/-!
# Words on a stack

`Holds m a ws`: the words `ws` lie at `a`, `a + 4`, and so on. The stack grows
down, so pushing a word puts it in front (`Holds.push`); addresses may wrap
around as long as the words do not reach their own start again.
-/
namespace Lib

/-- The words from address `a` on. -/
def Holds (m : Mem) (a : U32) (ws : List U32) : Prop :=
  ∀ k w, ws[k]? = some w → load32 m (a + .ofNat 32 (4 * k)) = w

theorem Holds.nil (m : Mem) (a : U32) : Holds m a [] := by
  intro k w h
  simp at h

/-- Pushing a word. -/
theorem Holds.push {m : Mem} {a w : U32} {ws : List U32} (h : Holds m a ws) (hlen : 4 * ws.length + 4 ≤ 2 ^ 32) :
    Holds (store32 m (a - 4) w) (a - 4) (w :: ws) := by
  intro k x hk
  cases k with
  | zero =>
    rw [List.getElem?_cons_zero] at hk
    cases hk
    rw [Nat.mul_zero, BitVec.add_zero]
    exact load32_store32 m (a - 4) w
  | succ k =>
    rw [List.getElem?_cons_succ] at hk
    obtain ⟨hlt, -⟩ := List.getElem?_eq_some_iff.1 hk
    rw [← h k x hk]
    have hnext : BitVec.ofNat 32 (4 * (k + 1)) = .ofNat 32 (4 * k) + 4 := by
      rw [Nat.mul_succ, BitVec.ofNat_add]
      rfl
    have e : a - 4 + .ofNat 32 (4 * (k + 1)) = a + .ofNat 32 (4 * k) := by rw [hnext]; grind
    rw [e]
    apply (store32_same m (a - 4) w).load32
    · -- up from the new word
      have e1 : a + .ofNat 32 (4 * k) - (a - 4) = .ofNat 32 (4 * (k + 1)) := by rw [hnext]; grind
      rw [e1, BitVec.toNat_ofNat, Nat.mod_eq_of_lt (by omega)]
      omega
    · -- and around to it again
      have e2 : a - 4 - (a + .ofNat 32 (4 * k)) = - .ofNat 32 (4 * (k + 1)) := by rw [hnext]; grind
      rw [e2, BitVec.toNat_neg, BitVec.toNat_ofNat, Nat.mod_eq_of_lt (by omega : 4 * (k + 1) < 2 ^ 32)]
      omega

end Lib
