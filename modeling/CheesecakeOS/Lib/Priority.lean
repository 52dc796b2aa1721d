import Mathlib.Data.Finset.Max
/-!
# Requests by priority

Requests wait until they are taken up, the least of them first, and then are in
service until they are finished. A request is taken up only if it goes before all
that are in service.
-/
namespace Lib

variable {α : Type} [LinearOrder α]

/-- The least of some requests. -/
def first (t : Finset α) : Option α := if h : t.Nonempty then some (t.min' h) else none

/-- All but the least. -/
def dropFirst (t : Finset α) : Finset α := (first t).elim t t.erase

/-- The requests that wait, and those in service. -/
structure Lines (α : Type) where
  irr : Finset α
  isr : Finset α

namespace Lines

variable (s : Lines α) (p : α → Bool)

/-- Those that could be taken up, where `p` lets them through. -/
def ready : Finset α := s.irr.filter fun l => p l ∧ ∀ k ∈ s.isr, l < k

/-- The one that is taken up next. -/
def next : Option α := first (s.ready p)

def raise (l : α) : Lines α := { s with irr := insert l s.irr }

/-- The request goes away by itself. -/
def withdraw (l : α) : Lines α := { s with irr := s.irr.erase l }

def take (l : α) : Lines α := ⟨s.irr.erase l, insert l s.isr⟩

/-- The one in service that goes before all others is finished. -/
def finish : Lines α := { s with isr := dropFirst s.isr }

end Lines

section First
variable {t : Finset α} {l k : α}

theorem first_eq_none : first t = none ↔ t = ∅ := by
  unfold first
  split
  · next h => simp [h.ne_empty]
  · next h => simpa using h

theorem first_mem (h : first t = some l) : l ∈ t := by
  unfold first at h
  split at h
  · cases h
    exact t.min'_mem _
  · cases h

theorem first_le (h : first t = some l) (hk : k ∈ t) : l ≤ k := by
  unfold first at h
  split at h
  · cases h
    exact t.min'_le k hk
  · cases h

theorem first_isSome (hk : k ∈ t) : ∃ l, first t = some l := by
  refine Option.ne_none_iff_exists'.1 fun hnone => ?_
  rw [first_eq_none.1 hnone] at hk
  cases hk

theorem dropFirst_singleton (l : α) : dropFirst {l} = ∅ := by
  obtain ⟨k, hk⟩ := first_isSome (Finset.mem_singleton_self l)
  have hmem := first_mem hk
  rw [Finset.mem_singleton] at hmem
  unfold dropFirst
  rw [hk, hmem]
  exact Finset.erase_singleton l

end First

namespace Lines

variable {s : Lines α} {p : α → Bool} {l k : α}

/-- With nothing in service, every request that waits can be taken up. -/
theorem mem_ready (h : s.isr = ∅) : l ∈ s.ready p ↔ l ∈ s.irr ∧ p l = true := by
  simp [ready, h]

end Lines

end Lib
