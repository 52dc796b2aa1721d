import Mathlib.Data.Set.Function
/-!
# Painting an area

An operation paints an area if it leaves there what it leaves in every state, and
leaves everything else alone.
-/
namespace Lib

variable {σ ι α : Type} {view : σ → ι → α} {A B : Set ι} {f g : σ → σ}

structure Paints (view : σ → ι → α) (A : Set ι) (f : σ → σ) : Prop where
  inside : ∀ s s', Set.EqOn (view (f s)) (view (f s')) A
  outside : ∀ s, Set.EqOn (view (f s)) (view s) Aᶜ

namespace Paints

theorem nothing : Paints view ∅ fun s => s := ⟨fun _ _ _ h => h.elim, fun _ _ _ => rfl⟩

/-- One after the other. -/
theorem comp (hf : Paints view A f) (hg : Paints view B g) : Paints view (A ∪ B) fun s => g (f s) := by
  refine ⟨fun s s' x hx => ?_, fun s x hx => ?_⟩
  · by_cases hB : x ∈ B
    · exact hg.inside _ _ hB
    · have hA := hx.resolve_right hB
      calc view (g (f s)) x = view (f s) x := hg.outside _ hB
        _ = view (f s') x := hf.inside _ _ hA
        _ = view (g (f s')) x := (hg.outside _ hB).symm
  · obtain ⟨hA, hB⟩ := not_or.1 hx
    exact (hg.outside _ hB).trans (hf.outside _ hA)

/-- Painting within what has been painted. -/
theorem within (hf : Paints view A f) (hg : Paints view B g) (h : B ⊆ A) : Paints view A fun s => g (f s) := by
  have hboth := hf.comp hg
  rwa [Set.union_eq_self_of_subset_right h] at hboth

end Paints

end Lib
