import CheesecakeOS.Lib.Words
/-!
# Byte-addressed memory

A 32-bit address space of bytes with little-endian words. Addresses wrap
around, so "`x` is outside the `n` bytes at `a`" is `n ≤ (x - a).toNat`. A
store changes only its own bytes (`Same`), and a load of bytes that did not
change reads what it read before.
-/
namespace Lib

/-- The bytes at every address. -/
abbrev Mem := U32 → U8

def store8 (m : Mem) (a : U32) (v : U8) : Mem := fun x => if x = a then v else m x

/-- The word at `a`, low byte first. -/
def load32 (m : Mem) (a : U32) : U32 := m (a + 3) ++ m (a + 2) ++ m (a + 1) ++ m a

def store32 (m : Mem) (a : U32) (v : U32) : Mem :=
  fun x => if (x - a).toNat < 4 then v.extractLsb' (8 * (x - a).toNat) 8 else m x

/-- `m` and `m'` differ at most in the `n` bytes at `a`. -/
def Same (m m' : Mem) (a : U32) (n : Nat) : Prop := ∀ x, n ≤ (x - a).toNat → m' x = m x

theorem Same.trans {m m' m'' : Mem} {a : U32} {n : Nat} (h : Same m m' a n) (h' : Same m' m'' a n) :
    Same m m'' a n :=
  fun x hx => (h' x hx).trans (h x hx)

/-- The `k` bytes at `a + d` are among the `n` bytes at `a`. -/
theorem Same.widen {m m' : Mem} {a d : U32} {k n : Nat} (h : Same m m' (a + d) k) (hd : d.toNat + k ≤ n) :
    Same m m' a n := by
  intro x hx
  apply h x
  have e : (x - a).toNat = ((x - (a + d)) + d).toNat := by congr 1; grind
  rw [e, BitVec.toNat_add] at hx
  omega

theorem Same.mono {m m' : Mem} {a : U32} {k n : Nat} (h : Same m m' a k) (hk : k ≤ n) : Same m m' a n :=
  fun x hx => h x (Nat.le_trans hk hx)

theorem store8_same (m : Mem) (a : U32) (v : U8) : Same m (store8 m a v) a 1 := by
  intro x hx
  have : x ≠ a := by rintro rfl; simp at hx
  simp [store8, this]

theorem store32_same (m : Mem) (a : U32) (v : U32) : Same m (store32 m a v) a 4 := by
  intro x hx
  unfold store32
  rw [if_neg (Nat.not_lt.2 hx)]

@[simp] theorem store8_self (m : Mem) (a : U32) (v : U8) : store8 m a v a = v := by simp [store8]

/-- A word read where every byte is as before. -/
theorem load32_congr {m m' : Mem} {a : U32} (h : ∀ x, (x - a).toNat < 4 → m' x = m x) : load32 m' a = load32 m a := by
  have e : ∀ k : U32, k.toNat < 4 → m' (a + k) = m (a + k) := fun k hk => h _ (by
    rwa [show a + k - a = k by grind])
  unfold load32
  rw [e 3 (by decide), e 2 (by decide), e 1 (by decide), h a (by simp)]

theorem load32_store32 (m : Mem) (a : U32) (v : U32) : load32 (store32 m a v) a = v := by
  have e : ∀ k : U32, k.toNat < 4 → store32 m a v (a + k) = v.extractLsb' (8 * k.toNat) 8 := fun k hk => by
    unfold store32
    rw [show a + k - a = k by grind, if_pos hk]
  have e0 : store32 m a v a = v.extractLsb' 0 8 := by simp [store32]
  unfold load32
  rw [e 3 (by decide), e 2 (by decide), e 1 (by decide), e0]
  -- The four bytes of `v`, put back together from the top.
  have join : ∀ {s s' n : Nat}, s' = s + 8 → v.extractLsb' s' n ++ v.extractLsb' s 8 = v.extractLsb' s (n + 8) :=
    fun h => BitVec.extractLsb'_append_extractLsb'_eq_extractLsb' h
  rw [join (by decide), join (by decide), join (by decide)]
  exact BitVec.extractLsb'_eq_self

theorem load32_low (m : Mem) (a : U32) : (load32 m a).extractLsb' 0 8 = m a := BitVec.extractLsb'_append_eq_right

theorem load32_high (m : Mem) (a : U32) : (load32 m a).extractLsb' 8 24 = m (a + 3) ++ m (a + 2) ++ m (a + 1) :=
  BitVec.extractLsb'_append_eq_left

/-- A word outside the bytes that may differ. -/
theorem Same.load32 {m m' : Mem} {a b : U32} {n : Nat} (h : Same m m' a n) (h1 : n ≤ (b - a).toNat)
    (h2 : 4 ≤ (a - b).toNat) : load32 m' b = load32 m b := by
  apply load32_congr
  intro x hx
  apply h x
  -- Going round from `a` to `b` and from there to `x` stays short of one turn.
  have e : (x - a).toNat = ((x - b) + (b - a)).toNat := by congr 1; grind
  have hab : (a - b).toNat = (-(b - a)).toNat := by congr 1; grind
  rw [BitVec.toNat_neg] at hab
  rw [e, BitVec.toNat_add, Nat.mod_eq_of_lt (by omega)]
  omega

/-- The part at offset `k` of something outside is outside. -/
theorem outside_add {a b k : U32} {n w j : Nat} (h1 : n ≤ (b - a).toNat) (h2 : w ≤ (a - b).toNat)
    (hk : k.toNat + j ≤ w) (hj : 0 < j) : n ≤ (b + k - a).toNat ∧ j ≤ (a - (b + k)).toNat := by
  have e1 : b + k - a = (b - a) + k := by grind
  have e2 : a - (b + k) = -((b - a) + k) := by grind
  have e3 : a - b = -(b - a) := by grind
  rw [e3, BitVec.toNat_neg] at h2
  rw [e2, e1, BitVec.toNat_neg, BitVec.toNat_add]
  have := (b - a).isLt
  rw [Nat.mod_eq_of_lt (by omega : (b - a).toNat + k.toNat < 2 ^ 32)]
  omega

/-- Ranges that do not wrap around and do not meet lie outside each other. -/
theorem outside_of_apart {a b : U32} {n w : Nat} (ha : a.toNat + n ≤ 2 ^ 32) (hb : b.toNat + w ≤ 2 ^ 32) (hn : 0 < n)
    (hw : 0 < w) (h : a.toNat + n ≤ b.toNat ∨ b.toNat + w ≤ a.toNat) : n ≤ (b - a).toNat ∧ w ≤ (a - b).toNat := by
  rw [BitVec.toNat_sub, BitVec.toNat_sub]
  omega

end Lib
