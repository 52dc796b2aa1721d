import Mathlib.Logic.Basic
/-!
# Linked lists given by a `next` function

Nodes are values of any type, `next x` is the node `x` links to and `nil` ends
a list. Nothing says the links make a list: they may run into a cycle, so
`Ends` (the walk from a node reaches `nil`) is a property, not a given.

`Path stop c b` walks from `c` to `b` over nodes none of which, `b` apart, is
in `stop`. Reachability, reachability around a node and the first node with a
property are all paths. `find` is the search loop over such links, with fuel.
-/
namespace Lib.Links

variable {α : Type}

section Defs
variable (next : α → α) (nil : α)

/-- Following the links from a node reaches `nil`. -/
inductive Ends : α → Prop
  | nil : Ends nil
  | link {c : α} : c ≠ nil → Ends (next c) → Ends c

/-- From the first node to the second, over nodes outside `stop`. -/
inductive Path (stop : α → Prop) : α → α → Prop
  | here {b : α} : b ≠ nil → Path stop b b
  | link {c b : α} : c ≠ nil → ¬ stop c → Path stop (next c) b → Path stop c b

/-- `b` is on the list that starts at `c`. -/
def On (c b : α) : Prop := Path next nil (fun _ => False) c b

/-- `while (c != nil) { if (p(c)) return c; c = c->next; } return nil;` with
`some none` for running off the end and `none` for running out of fuel. -/
def find [DecidableEq α] (p : α → Bool) : Nat → α → Option (Option α)
  | 0, _ => none
  | k + 1, c => if c = nil then some none else if p c then some (some c) else find p k (next c)

end Defs

variable {next next' : α → α} {nil : α} {stop : α → Prop}

/-! ## Walks -/

theorem Path.ne_nil {c b : α} (h : Path next nil stop c b) : c ≠ nil := by
  cases h with
  | here h => exact h
  | link h _ _ => exact h

theorem Path.end_ne_nil {c b : α} (h : Path next nil stop c b) : b ≠ nil := by
  induction h with
  | here h => exact h
  | link _ _ _ ih => exact ih

theorem Path.on {c b : α} (h : Path next nil stop c b) : On next nil c b := by
  induction h with
  | here h => exact .here h
  | link h _ _ ih => exact .link h id ih

theorem On.link {c b : α} (hc : c ≠ nil) (h : On next nil (next c) b) : On next nil c b :=
  Path.link hc id h

/-- The node behind one on the list is on the list. -/
theorem On.tail {c b : α} (h : On next nil c b) (hb : next b ≠ nil) : On next nil c (next b) := by
  unfold On at h ⊢
  induction h with
  | here h => exact .link h id (.here hb)
  | link hc _ _ ih => exact .link hc id (ih hb)

/-- A walk to `b` can be cut at its first visit of `b`. -/
theorem On.first {c b : α} (h : On next nil c b) : Path next nil (· = b) c b := by
  unfold On at h
  induction h with
  | here h => exact .here h
  | @link c b hc _ _ ih =>
    by_cases hcb : c = b
    · subst hcb; exact .here hc
    · exact .link hc hcb ih

/-- A walk over a list that `h` is not on passes `h` by. -/
theorem On.around {c b h : α} (hb : On next nil c b) (hh : ¬ On next nil c h) : Path next nil (· = h) c b := by
  unfold On at hb
  induction hb with
  | here hb => exact .here hb
  | @link c b hc _ _ ih =>
    exact .link hc (fun e => hh (e ▸ .here hc)) (ih fun h' => hh (h'.link hc))

/-- There is one first node in `stop`. -/
theorem Path.first_unique {c b b' : α} (h : Path next nil stop c b) (hb : stop b) (h' : Path next nil stop c b')
    (hb' : stop b') : b = b' := by
  induction h with
  | here _ =>
    cases h' with
    | here _ => rfl
    | link _ hs _ => exact absurd hb hs
  | link _ hs _ ih =>
    cases h' with
    | here _ => exact absurd hb' hs
    | link _ _ h' => exact ih hb h'

/-- A walk stays in a set closed under `next`. -/
theorem On.mem {c b : α} {S : α → Prop} (hS : ∀ x, S x → next x = nil ∨ S (next x)) (hc : c = nil ∨ S c)
    (h : On next nil c b) : S b := by
  unfold On at h
  induction h with
  | here hb => exact hc.resolve_left hb
  | link hne _ _ ih => exact ih (hS _ (hc.resolve_left hne))

/-- A walk depends only on the links of the nodes it leaves. -/
theorem Path.congr {c b : α} (h : Path next nil stop c b)
    (he : ∀ x, On next nil c x → ¬ stop x → next' x = next x) : Path next' nil stop c b := by
  induction h with
  | here h => exact .here h
  | link hc hs _ ih =>
    apply Path.link hc hs
    rw [he _ (.here hc) hs]
    exact ih fun x hx => he x (hx.link hc)

/-- A walk that stops at less. -/
theorem Path.imp {stop' : α → Prop} {c b : α} (h : Path next nil stop c b) (hs : ∀ x, stop' x → stop x) :
    Path next nil stop' c b := by
  induction h with
  | here h => exact .here h
  | link hc hn _ ih => exact .link hc (fun h => hn (hs _ h)) ih

/-- One node further. -/
theorem Path.snoc {c b b' : α} (h : Path next nil stop c b) (hb : ¬ stop b) (hn : next b = b') (hb' : b' ≠ nil) :
    Path next nil stop c b' := by
  induction h with
  | here hne =>
    apply Path.link hne hb
    rw [hn]
    exact .here hb'
  | link hc hs _ ih => exact .link hc hs (ih hb hn)

theorem Ends.congr {c : α} (h : Ends next nil c) (he : ∀ x, On next nil c x → next' x = next x) :
    Ends next' nil c := by
  induction h with
  | nil => exact .nil
  | link hc _ ih =>
    apply Ends.link hc
    rw [he _ (.here hc)]
    exact ih fun x hx => he x (hx.link hc)

/-- A node of a list that ends does not lead back to itself. -/
theorem Ends.acyclic {c : α} (h : Ends next nil c) : ∀ b, On next nil c b → ¬ On next nil (next b) b := by
  induction h with
  | nil => intro b hb; exact absurd rfl hb.ne_nil
  | link hc _ ih =>
    intro b hb
    cases hb with
    | here _ => exact fun h => ih _ h h
    | link _ _ hb => exact ih b hb

/-! ## Lists whose nodes all have a property -/

/-- The list from `c` ends and its nodes all have `P`. -/
def Each (next : α → α) (nil : α) (P : α → Prop) (c : α) : Prop := Ends next nil c ∧ ∀ b, On next nil c b → P b

section Each
variable {P Q : α → Prop} {c : α}

theorem Each.cons (hc : c ≠ nil) (hP : P c) (h : Each next nil P (next c)) : Each next nil P c := by
  refine ⟨.link hc h.1, fun b hb => ?_⟩
  cases hb with
  | here _ => exact hP
  | link _ _ hb => exact h.2 b hb

theorem Each.imp (h : Each next nil P c) (hi : ∀ b, P b → Q b) : Each next nil Q c := ⟨h.1, fun b hb => hi b (h.2 b hb)⟩

/-- Links that are the same at all nodes with `P`. -/
theorem Each.congr (h : Each next nil P c) (he : ∀ b, P b → next' b = next b) : Each next' nil P c := by
  obtain ⟨hend, hP⟩ := h
  have hsame : ∀ x, On next nil c x → next' x = next x := fun x hx => he x (hP x hx)
  have hback : ∀ b, On next' nil c b → On next nil c b := by
    intro b hb
    refine On.mem (S := On next nil c) (fun x hx => ?_) ?_ hb
    · rw [hsame x hx]
      exact Classical.or_iff_not_imp_left.2 hx.tail
    · exact Classical.or_iff_not_imp_left.2 .here
  exact ⟨hend.congr hsame, fun b hb => hP b (hback b hb)⟩

/-- The nodes of a walk, and those behind it. -/
theorem Path.each {b : α} (h : Path next nil (fun x => ¬ P x) c b) (hQ : ∀ x, P x → Q x) (hb : Each next nil Q b) :
    Each next nil Q c := by
  induction h with
  | here _ => exact hb
  | link hc hs _ ih => exact .cons hc (hQ _ (Classical.not_not.1 hs)) (ih hb)

end Each

/-! ## Changing links -/

/-- Pushing a node that is not on the list keeps the list ending. -/
theorem Ends.push {c h : α} (hc : Ends next nil c) (hh : h ≠ nil) (hl : next' h = c)
    (he : ∀ x, On next nil c x → next' x = next x) : Ends next' nil h := by
  apply Ends.link hh
  rw [hl]
  exact hc.congr he

/-- Pushing a node that is on the list already closes a cycle. -/
theorem not_ends_push {c h : α} (hl : next' h = c) (he : ∀ x, On next nil c x → x ≠ h → next' x = next x)
    (hon : On next nil c h) : ¬ Ends next' nil h := by
  intro hend
  have hback : On next' nil (next' h) h := by
    rw [hl]
    exact (hon.first.congr he).on
  exact hend.acyclic h (.here hon.end_ne_nil) hback

section Insert
variable {cur new : α} (hnew : new ≠ nil) (hcur : next' cur = new) (hlink : next' new = next cur)
include hnew hcur hlink

/-- Inserting a node behind `cur` keeps the list ending. -/
theorem Ends.insert {c : α} (h : Ends next nil c) (he : ∀ x, On next nil c x → x ≠ cur → next' x = next x) :
    Ends next' nil c := by
  induction h with
  | nil => exact .nil
  | @link c hc _ ih =>
    have ih' := ih fun x hx => he x (hx.link hc)
    apply Ends.link hc
    by_cases hcc : c = cur
    · subst hcc
      rw [hcur]
      apply Ends.link hnew
      rwa [hlink]
    · rwa [he c (.here hc) hcc]

/-- Inserting a node behind `cur` keeps every node on the list. -/
theorem On.insert {c b : α} (h : On next nil c b) (he : ∀ x, On next nil c x → x ≠ cur → next' x = next x) :
    On next' nil c b := by
  unfold On at h
  induction h with
  | here h => exact .here h
  | @link c b hc _ _ ih =>
    have ih' := ih fun x hx => he x (hx.link hc)
    by_cases hcc : c = cur
    · subst hcc
      apply On.link hc
      rw [hcur]
      apply On.link hnew
      rwa [hlink]
    · apply On.link hc
      rwa [he c (.here hc) hcc]

end Insert

/-- Pushing `h` keeps what could be reached without passing through `h`. -/
theorem Path.push {c h b : α} (hp : Path next nil (· = h) c b) (hh : h ≠ nil) (hl : next' h = c)
    (he : ∀ x, On next nil c x → x ≠ h → next' x = next x) : On next' nil h b := by
  apply Path.link hh id
  rw [hl]
  exact (hp.congr he).on

/-! ## The search loop -/

section Find
variable [DecidableEq α] {p : α → Bool}

/-- What the search finds: the first node with `p`, or that the list ends
without one. -/
theorem find_spec {k : Nat} : ∀ {c : α} {r : Option α}, find next nil p k c = some r →
    (∃ b, r = some b ∧ Path next nil (fun x => p x = true) c b ∧ p b = true) ∨
    (r = none ∧ Ends next nil c ∧ ∀ b, On next nil c b → p b = false) := by
  induction k with
  | zero => intro c r h; cases h
  | succ k ih =>
    intro c r h
    simp only [find] at h
    split at h
    · subst_vars
      cases h
      exact .inr ⟨rfl, .nil, fun b hb => absurd rfl hb.ne_nil⟩
    · split at h
      · cases h
        exact .inl ⟨c, rfl, .here ‹_›, ‹_›⟩
      · rcases ih h with ⟨b, hr, hb, hpb⟩ | ⟨hr, hend, hno⟩
        · exact .inl ⟨b, hr, .link ‹_› ‹_› hb, hpb⟩
        · refine .inr ⟨hr, .link ‹_› hend, fun b hb => ?_⟩
          cases hb with
          | here _ => simpa using ‹¬ p c = true›
          | link _ _ hb => exact hno b hb

/-- On a list that ends the search ends. -/
theorem Ends.find {c : α} (h : Ends next nil c) : ∃ k r, find next nil p k c = some r := by
  induction h with
  | nil => exact ⟨1, none, by simp [Links.find]⟩
  | @link c hc _ ih =>
    obtain ⟨k, r, hk⟩ := ih
    by_cases hp : p c = true
    · exact ⟨1, some c, by simp [Links.find, hc, hp]⟩
    · exact ⟨k + 1, r, by simp [Links.find, hc, hp, hk]⟩

/-- The search ends at the first node with `p`. -/
theorem Path.find {c b : α} (h : Path next nil (fun x => p x = true) c b) (hb : p b = true) :
    ∃ k, Links.find next nil p k c = some (some b) := by
  induction h with
  | here hne => exact ⟨1, by simp [Links.find, hne, hb]⟩
  | @link c b hc hp _ ih =>
    obtain ⟨k, hk⟩ := ih hb
    exact ⟨k + 1, by simp [Links.find, hc, hp, hk]⟩

/-- A node without `p` that links to itself is never left. -/
theorem find_self_loop {c : α} (hc : c ≠ nil) (hl : next c = c) (hp : p c = false) (k : Nat) :
    find next nil p k c = none := by
  induction k with
  | zero => rfl
  | succ k ih => simp [find, hc, hp, hl, ih]

/-- A search that has ended ends with more fuel too. -/
theorem find_mono {r : Option α} {k k' : Nat} (hk : k ≤ k') : ∀ {c : α}, find next nil p k c = some r →
    find next nil p k' c = some r := by
  induction k generalizing k' with
  | zero => intro c h; cases h
  | succ k ih =>
    intro c h
    obtain ⟨k', rfl⟩ : ∃ n, k' = n + 1 := ⟨k' - 1, by omega⟩
    simp only [find] at h ⊢
    split
    · rwa [if_pos ‹_›] at h
    · rw [if_neg ‹_›] at h
      split
      · rwa [if_pos ‹_›] at h
      · rw [if_neg ‹_›] at h
        exact ih (by omega) h

end Find

end Lib.Links
