import Mathlib.Data.List.Basic
import Mathlib.Logic.Function.Basic
/-!
# Ring buffers

A ring of `N` cells with a write index `head` and a read index `tail`. `Queue`
says which values, oldest first, the cells between the two hold. One cell
stays free, so that equal indices mean an empty ring: `N - 1` values fit.
-/
namespace Lib.Ring

variable {α : Type} {N head tail : Nat} {buf : Nat → α} {q : List α}

/-- The ring holds the queue `q`. -/
structure Queue (N : Nat) (buf : Nat → α) (head tail : Nat) (q : List α) : Prop where
  head_lt : head < N
  tail_lt : tail < N
  room : q.length < N
  index : head = (tail + q.length) % N
  cell : ∀ i c, q[i]? = some c → buf ((tail + i) % N) = c

/-- Going on by less than a turn wraps around at most once. -/
theorem add_mod_cases {a b : Nat} (ha : a < N) (hb : b ≤ N) :
    ((a + b) % N = a + b ∧ a + b < N) ∨ ((a + b) % N + N = a + b ∧ N ≤ a + b) := by
  by_cases h : a + b < N
  · exact .inl ⟨Nat.mod_eq_of_lt h, h⟩
  · right
    rw [Nat.mod_eq_sub_mod (Nat.le_of_not_lt h), Nat.mod_eq_of_lt (by omega)]
    omega

theorem add_mod_inj {a i j : Nat} (ha : a < N) (hi : i < N) (hj : j < N) (h : (a + i) % N = (a + j) % N) : i = j := by
  rcases add_mod_cases ha (Nat.le_of_lt hi) with h1 | h1
  · rcases add_mod_cases ha (Nat.le_of_lt hj) with h2 | h2 <;> omega
  · rcases add_mod_cases ha (Nat.le_of_lt hj) with h2 | h2 <;> omega

theorem Queue.empty (buf : Nat → α) (h : tail < N) : Queue N buf tail tail [] :=
  ⟨h, h, Nat.lt_of_le_of_lt (Nat.zero_le _) h, (Nat.mod_eq_of_lt h).symm, by simp⟩

theorem Queue.head_eq_tail_iff (h : Queue N buf head tail q) : head = tail ↔ q = [] := by
  constructor
  · intro he
    have h0 : (tail + q.length) % N = (tail + 0) % N := by
      rw [← h.index, he, Nat.add_zero, Nat.mod_eq_of_lt h.tail_lt]
    exact List.length_eq_zero_iff.1 (add_mod_inj h.tail_lt h.room (Nat.lt_of_le_of_lt (Nat.zero_le _) h.room) h0)
  · rintro rfl
    rw [h.index, List.length_nil, Nat.add_zero, Nat.mod_eq_of_lt h.tail_lt]

theorem Queue.next_head (h : Queue N buf head tail q) : (head + 1) % N = (tail + (q.length + 1)) % N := by
  rw [h.index, Nat.mod_add_mod, Nat.add_assoc]

/-- The ring is full when the next write would make the indices meet. -/
theorem Queue.full_iff (h : Queue N buf head tail q) : (head + 1) % N = tail ↔ q.length + 1 = N := by
  have hcases := add_mod_cases (b := q.length + 1) h.tail_lt h.room
  rw [h.next_head]
  have := h.tail_lt
  constructor
  · intro he
    rcases hcases with hc | hc <;> omega
  · intro he
    rcases hcases with hc | hc <;> omega

/-- Writing at `head`. -/
theorem Queue.push (h : Queue N buf head tail q) (hfull : (head + 1) % N ≠ tail) (c : α) :
    Queue N (Function.update buf head c) ((head + 1) % N) tail (q ++ [c]) := by
  have hroom : q.length + 1 < N := by
    have := mt h.full_iff.2 hfull
    have := h.room
    omega
  have hpos : 0 < N := by omega
  refine ⟨Nat.mod_lt _ hpos, h.tail_lt, by simpa using hroom, by simpa using h.next_head, fun i x hi => ?_⟩
  by_cases hlt : i < q.length
  · rw [List.getElem?_append_left hlt] at hi
    -- An old cell: not the one written.
    have hne : (tail + i) % N ≠ head := by
      intro he
      rw [h.index] at he
      have := add_mod_inj h.tail_lt (by omega) h.room he
      omega
    rw [Function.update_of_ne hne]
    exact h.cell i x hi
  · have hie : i = q.length := by
      obtain ⟨hl, -⟩ := List.getElem?_eq_some_iff.1 hi
      rw [List.length_append, List.length_singleton] at hl
      omega
    subst hie
    rw [List.getElem?_append_right (Nat.le_refl _), Nat.sub_self, List.getElem?_cons_zero] at hi
    cases hi
    rw [← h.index, Function.update_self]

/-- Reading at `tail`. -/
theorem Queue.front {c : α} {q : List α} (h : Queue N buf head tail (c :: q)) : buf tail = c := by
  have hc := h.cell 0 c rfl
  rwa [Nat.add_zero, Nat.mod_eq_of_lt h.tail_lt] at hc

theorem Queue.pop {c : α} {q : List α} (h : Queue N buf head tail (c :: q)) : Queue N buf head ((tail + 1) % N) q := by
  have hroom := h.room
  rw [List.length_cons] at hroom
  have hpos : 0 < N := by omega
  have hidx := h.index
  rw [List.length_cons] at hidx
  refine ⟨h.head_lt, Nat.mod_lt _ hpos, by omega, ?_, fun i x hi => ?_⟩
  · rw [Nat.mod_add_mod, hidx]
    congr 1
    omega
  · rw [Nat.mod_add_mod, Nat.add_assoc, Nat.add_comm 1 i]
    apply h.cell (i + 1) x
    rw [List.getElem?_cons_succ]
    exact hi

end Lib.Ring
