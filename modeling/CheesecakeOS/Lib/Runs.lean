import Mathlib.Data.List.Basic
import Mathlib.Data.List.Infix
/-!
# Runs of operations

A run is a fold of a step function over the operations performed. `run_inv`
is the induction over a run whose operations are allowed in the states they
meet; `forall_prefix_iff` says when a property holds in every state of a run,
for properties that one bad operation breaks at once. `foldlM_isSome_iff` says
when a run of operations that may fail does not, `AllowedM` is `Allowed` for
these and `foldlM_rel` is about two runs of them. `Reaches` is for operations
that may fail to return, given by a step relation.
-/
namespace Lib

variable {σ Op : Type} (step : σ → Op → σ)

/-- The operations of `ops` are each allowed by `may` in the state they meet. -/
def Allowed (may : σ → Op → Prop) (s : σ) (ops : List Op) : Prop :=
  ∀ pre op, pre ++ [op] <+: ops → may (pre.foldl step s) op

theorem allowed_nil {may : σ → Op → Prop} {s : σ} : Allowed step may s [] := by
  intro pre op hp
  simp at hp

theorem allowed_all {s : σ} {ops : List Op} : Allowed step (fun _ _ => True) s ops := fun _ _ _ => trivial

theorem allowed_cons {may : σ → Op → Prop} {s : σ} {op : Op} {ops : List Op} :
    Allowed step may s (op :: ops) ↔ may s op ∧ Allowed step may (step s op) ops := by
  constructor
  · intro h
    exact ⟨h [] op ⟨ops, rfl⟩, fun pre op' hp => h (op :: pre) op' (by simpa using hp)⟩
  · rintro ⟨h0, h⟩ pre op' hp
    rcases pre with _ | ⟨x, pre⟩
    · obtain ⟨t, ht⟩ := hp
      cases ht
      exact h0
    · obtain ⟨rfl, hp'⟩ := List.cons_prefix_cons.1 (by simpa using hp)
      exact h pre op' hp'

theorem allowed_concat {may : σ → Op → Prop} {s : σ} {ops : List Op} {op : Op} :
    Allowed step may s (ops ++ [op]) ↔ Allowed step may s ops ∧ may (ops.foldl step s) op := by
  constructor
  · intro h
    exact ⟨fun pre o hp => h pre o (hp.trans (List.prefix_append ops [op])), h ops op (List.prefix_refl _)⟩
  · rintro ⟨h, hlast⟩ pre o hp
    rcases List.prefix_concat_iff.1 hp with heq | hp
    · obtain ⟨rfl, ho⟩ := List.append_inj' heq rfl
      cases ho
      exact hlast
    · exact h pre o hp

instance decidableAllowed (may : σ → Op → Prop) [∀ s op, Decidable (may s op)] :
    ∀ (ops : List Op) (s : σ), Decidable (Allowed step may s ops)
  | [], _ => .isTrue (allowed_nil step)
  | op :: ops, s =>
    have := decidableAllowed may ops (step s op)
    decidable_of_iff _ (allowed_cons step).symm

/-- An invariant kept by every allowed operation holds after the run. -/
theorem run_inv {may : σ → Op → Prop} (I : σ → Prop) (hs : ∀ s op, I s → may s op → I (step s op))
    (ops : List Op) : ∀ s, I s → Allowed step may s ops → I (ops.foldl step s) := by
  induction ops with
  | nil => intro s h _; exact h
  | cons op ops ih =>
    intro s h ha
    obtain ⟨h0, ha⟩ := (allowed_cons step).1 ha
    exact ih _ (hs s op h h0) ha

/-- If good operations keep `I`, which gives `P`, and a bad operation breaks
`P` at once, then `P` holds in every state of a run exactly when the run has
no bad operation. -/
theorem forall_prefix_iff {Good : Op → Prop} {P : σ → Prop} (I : σ → Prop) (hP : ∀ s, I s → P s)
    (hgood : ∀ s op, I s → Good op → I (step s op)) (hbad : ∀ s op, I s → ¬ Good op → ¬ P (step s op))
    (ops : List Op) : ∀ s, I s → ((∀ pre, pre <+: ops → P (pre.foldl step s)) ↔ ∀ op ∈ ops, Good op) := by
  induction ops with
  | nil => intro s h; simpa using hP s h
  | cons op ops ih =>
    intro s h
    constructor
    · intro hall
      have hop : Good op := by
        by_contra hn
        exact hbad s op h hn (hall [op] ⟨ops, rfl⟩)
      have hrest := (ih _ (hgood s op h hop)).1 fun pre hp => hall (op :: pre) (by simpa using hp)
      intro o ho
      rcases List.mem_cons.1 ho with rfl | ho
      · exact hop
      · exact hrest o ho
    · intro hall pre hp
      rcases List.prefix_cons_iff.1 hp with rfl | ⟨pre', rfl, hp'⟩
      · exact hP s h
      · exact (ih _ (hgood s op h (hall op (by simp)))).2 (fun o ho => hall o (by simp [ho])) pre' hp'

/-- The same for operations that may fail. -/
theorem foldlM_inv {f : σ → Op → Option σ} (I : σ → Prop) (hs : ∀ s op s', I s → f s op = some s' → I s')
    (ops : List Op) : ∀ s s', I s → ops.foldlM f s = some s' → I s' := by
  induction ops with
  | nil => intro s s' h he; exact Option.some.inj he ▸ h
  | cons op ops ih =>
    intro s s' h he
    rw [List.foldlM_cons] at he
    obtain ⟨u, hu, he⟩ := Option.bind_eq_some_iff.1 he
    exact ih u s' (hs s op u h hu) he

/-- Two runs of the same operations that stay related, until both fail. -/
theorem foldlM_rel {τ : Type*} {f : σ → Op → Option σ} {g : τ → Op → Option τ} (R : σ → τ → Prop)
    (hs : ∀ s t op, R s t → Option.Rel R (f s op) (g t op)) (ops : List Op) :
    ∀ {s t}, R s t → Option.Rel R (ops.foldlM f s) (ops.foldlM g t) := by
  induction ops with
  | nil => intro s t h; exact .some h
  | cons op ops ih =>
    intro s t h
    have hstep := hs s t op h
    rw [List.foldlM_cons, List.foldlM_cons]
    generalize f s op = s' at hstep ⊢
    generalize g t op = t' at hstep ⊢
    cases hstep with
    | some hnext => exact ih hnext
    | none => exact .none

/-- A run that another system can follow, so that its trace keeps in step: an operation is some actions of the other. -/
theorem foldlM_trace {τ Act : Type*} {f : σ → Op → Option σ} {g : τ → Act → Option τ} (view : σ → τ)
    (I : List Op → List Act → σ → Prop)
    (hs : ∀ ops acts s op s', I ops acts s → f s op = some s' →
      ∃ new, I (ops ++ [op]) (acts ++ new) s' ∧ new.foldlM g (view s) = some (view s'))
    {s : σ} (h : I [] [] s) (ops : List Op) :
    ∀ s', ops.foldlM f s = some s' → ∃ acts, I ops acts s' ∧ acts.foldlM g (view s) = some (view s') := by
  induction ops using List.reverseRecOn with
  | nil =>
    intro s' he
    cases he
    exact ⟨[], h, rfl⟩
  | append_singleton ops op ih =>
    intro s' he
    rw [List.foldlM_append] at he
    obtain ⟨u, hu, he⟩ := Option.bind_eq_some_iff.1 he
    obtain ⟨acts, hI, hview⟩ := ih u hu
    obtain ⟨new, hnew, hviews⟩ := hs ops acts u op s' hI (by simpa using he)
    exact ⟨acts ++ new, hnew, by rw [List.foldlM_append, hview]; exact hviews⟩

/-- `Allowed` for operations that may fail. -/
def AllowedM (f : σ → Op → Option σ) (may : σ → Op → Prop) (s : σ) (ops : List Op) : Prop :=
  ∀ pre op s', pre ++ [op] <+: ops → pre.foldlM f s = some s' → may s' op

theorem allowedM_nil {f : σ → Op → Option σ} {may : σ → Op → Prop} {s : σ} : AllowedM f may s [] := by
  intro pre op s' hp
  simp at hp

theorem allowedM_cons {f : σ → Op → Option σ} {may : σ → Op → Prop} {s : σ} {op : Op} {ops : List Op} :
    AllowedM f may s (op :: ops) ↔ may s op ∧ ∀ s', f s op = some s' → AllowedM f may s' ops := by
  constructor
  · intro h
    refine ⟨h [] op s ⟨ops, rfl⟩ rfl, fun s' hs pre op' s'' hp hpre => h (op :: pre) op' s'' (by simpa using hp) ?_⟩
    rw [List.foldlM_cons, hs]
    exact hpre
  · rintro ⟨h0, h⟩ pre op' s'' hp hpre
    rcases pre with _ | ⟨x, pre⟩
    · obtain ⟨t, ht⟩ := hp
      cases ht
      cases hpre
      exact h0
    · obtain ⟨rfl, hp'⟩ := List.cons_prefix_cons.1 (by simpa using hp)
      rw [List.foldlM_cons] at hpre
      obtain ⟨s', hs, hpre⟩ := Option.bind_eq_some_iff.1 hpre
      exact h s' hs pre op' s'' hp' hpre

instance decidableAllowedM (f : σ → Op → Option σ) (may : σ → Op → Prop) [∀ s op, Decidable (may s op)] :
    ∀ (ops : List Op) (s : σ), Decidable (AllowedM f may s ops)
  | [], _ => .isTrue allowedM_nil
  | op :: ops, s =>
    have : Decidable (∀ s', f s op = some s' → AllowedM f may s' ops) :=
      match f s op with
      | none => .isTrue fun _ hs => nomatch hs
      | some s' =>
        have := decidableAllowedM f may ops s'
        decidable_of_iff (AllowedM f may s' ops) ⟨fun h _ hs => Option.some.inj hs ▸ h, fun h => h s' rfl⟩
    decidable_of_iff _ allowedM_cons.symm

section Follows
variable {τ : Type} {f : σ → Op → Option σ} {g : τ → Op → τ} (Good : τ → Prop) (R : τ → σ → Prop)
  (hgood : ∀ n s op, R n s → Good (g n op) → ∃ s', f s op = some s' ∧ R (g n op) s')
include hgood

/-- A run that may fail, followed by a run of an abstract state: it does not fail
while the abstract state is good. -/
theorem foldlM_follows (ops : List Op) : ∀ n s, R n s → (∀ pre, pre <+: ops → Good (pre.foldl g n)) →
    ∃ s', ops.foldlM f s = some s' ∧ R (ops.foldl g n) s' := by
  induction ops with
  | nil => intro n s h _; exact ⟨s, rfl, h⟩
  | cons op ops ih =>
    intro n s h hall
    obtain ⟨s₁, hs, h₁⟩ := hgood n s op h (hall [op] (List.cons_prefix_cons.2 ⟨rfl, List.nil_prefix⟩))
    obtain ⟨s', hs', h'⟩ := ih (g n op) s₁ h₁ fun pre hp => hall (op :: pre) (List.cons_prefix_cons.2 ⟨rfl, hp⟩)
    refine ⟨s', ?_, h'⟩
    rw [List.foldlM_cons, hs]
    exact hs'

/-- If it fails as soon as the abstract state is not good, it fails just then. -/
theorem foldlM_isSome_iff (hbad : ∀ n s op, R n s → Good n → ¬ Good (g n op) → f s op = none) (ops : List Op) :
    ∀ n s, R n s → Good n → ((ops.foldlM f s).isSome ↔ ∀ pre, pre <+: ops → Good (pre.foldl g n)) := by
  intro n s h hn
  constructor
  · induction ops generalizing n s with
    | nil =>
      intro _ pre hp
      rw [List.prefix_nil.1 hp]
      exact hn
    | cons op ops ih =>
      intro hsome pre hp
      rw [List.foldlM_cons] at hsome
      have hop : Good (g n op) := by
        by_contra hop
        rw [hbad n s op h hn hop] at hsome
        cases hsome
      obtain ⟨s₁, hs, h₁⟩ := hgood n s op h hop
      rw [hs] at hsome
      rcases List.prefix_cons_iff.1 hp with rfl | ⟨pre', rfl, hp'⟩
      · exact hn
      · exact ih (g n op) s₁ h₁ hop hsome pre' hp'
  · intro hall
    obtain ⟨s', hs, -⟩ := foldlM_follows Good R hgood ops n s h hall
    rw [hs]
    rfl

end Follows

/-- The states that steps of a relation reach, each step allowed by `may` in
the state it leaves. -/
inductive Reaches (Step : σ → Op → σ → Prop) (may : σ → Op → Prop) (init : σ) : σ → Prop
  | init : Reaches Step may init init
  | step {s s' : σ} {op : Op} : Reaches Step may init s → may s op → Step s op s' → Reaches Step may init s'

/-- An invariant of the first state kept by every allowed step holds in every
state reached. -/
theorem Reaches.inv {Step : σ → Op → σ → Prop} {may : σ → Op → Prop} {init s : σ} (I : σ → Prop) (h0 : I init)
    (hs : ∀ s op s', I s → may s op → Step s op s' → I s') (h : Reaches Step may init s) : I s := by
  induction h with
  | init => exact h0
  | step _ hmay hstep ih => exact hs _ _ _ ih hmay hstep

end Lib
