import Mathlib.Logic.Function.Basic
/-!
# Two-level tables

A directory sends an index to a table of a pool, or to none; the entry at
`(i, j)` is entry `j` of the table of `i`, or the default `e₀`. As long as no
table serves two indices, writing an entry of a table changes one entry of the
whole (`lookup_write`), and giving an index a cleared table that nobody uses
changes none (`lookup_take`).
-/
namespace Lib.TwoLevel

variable {I J T E : Type} {e₀ : E} {dir : I → Option T} {tab : T → J → E} {i : I} {j : J} {t : T}

/-- The entry at a pair of indices. -/
def lookup (e₀ : E) (dir : I → Option T) (tab : T → J → E) (p : I × J) : E :=
  (dir p.1).elim e₀ fun t => tab t p.2

/-- No table serves two indices. -/
def Separate (dir : I → Option T) : Prop := ∀ i i' t, dir i = some t → dir i' = some t → i = i'

theorem lookup_some (h : dir i = some t) : lookup e₀ dir tab (i, j) = tab t j := by simp [lookup, h]

theorem lookup_none (h : dir i = none) : lookup e₀ dir tab (i, j) = e₀ := by simp [lookup, h]

variable [DecidableEq I]

theorem Separate.take (hs : Separate dir) (ht : ∀ a, dir a ≠ some t) : Separate (Function.update dir i (some t)) := by
  intro a b u ha hb
  by_cases hai : a = i
  · by_cases hbi : b = i
    · exact hai.trans hbi.symm
    · rw [hai, Function.update_self] at ha
      rw [Function.update_of_ne hbi] at hb
      exact absurd (hb.trans ha.symm) (ht b)
  · rw [Function.update_of_ne hai] at ha
    by_cases hbi : b = i
    · rw [hbi, Function.update_self] at hb
      exact absurd (ha.trans hb.symm) (ht a)
    · rw [Function.update_of_ne hbi] at hb
      exact hs a b u ha hb

variable [DecidableEq T]

/-- Taking an unused table, cleared, for an index without one changes nothing. -/
theorem lookup_take (hi : dir i = none) (ht : ∀ a, dir a ≠ some t) :
    lookup e₀ (Function.update dir i (some t)) (Function.update tab t fun _ => e₀) = lookup e₀ dir tab := by
  funext ⟨a, b⟩
  by_cases ha : a = i
  · subst ha
    rw [lookup_none hi, lookup_some (Function.update_self _ _ _), Function.update_self]
  · have hd : Function.update dir i (some t) a = dir a := Function.update_of_ne ha _ _
    cases hda : dir a with
    | none => rw [lookup_none hda, lookup_none (hd.trans hda)]
    | some u =>
      have hu : u ≠ t := fun e => ht a (e ▸ hda)
      rw [lookup_some hda, lookup_some (hd.trans hda), Function.update_of_ne hu]

variable [DecidableEq J]

/-- A write to a table in use changes one entry. -/
theorem lookup_write (hs : Separate dir) (hi : dir i = some t) (e : E) :
    lookup e₀ dir (Function.update tab t (Function.update (tab t) j e)) =
      Function.update (lookup e₀ dir tab) (i, j) e := by
  funext ⟨a, b⟩
  by_cases hp : (a, b) = (i, j)
  · cases hp
    simp [lookup_some hi]
  · rw [Function.update_of_ne hp]
    cases ha : dir a with
    | none => rw [lookup_none ha, lookup_none ha]
    | some u =>
      rw [lookup_some ha, lookup_some ha]
      by_cases hu : u = t
      · subst hu
        -- The same table, so the same index: the entry differs.
        have hai := hs a i u ha hi
        have hbj : b ≠ j := fun e => hp (by rw [hai, e])
        rw [Function.update_self, Function.update_of_ne hbj]
      · rw [Function.update_of_ne hu]

end Lib.TwoLevel
