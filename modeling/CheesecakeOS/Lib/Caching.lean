import Mathlib.Data.Set.Insert
import CheesecakeOS.Lib.Runs
/-!
# A cache beside a state that changes store by store

Lookups in a state are cached by someone who may look at any time, also in the
middle of an operation. An operation is a list of stores, carried out one at a
time; a store may flush keys from the cache. What is cached for a key agrees
with the state or the key is in a set of doubtful ones. `Settles` follows
that set through the stores that remain: a store may make keys doubtful by
changing their lookup, and settles those that it flushes. If every operation
ends with no key in doubt, the cache is right whenever none is under way
(`never_stale`).
-/
namespace Lib.Caching

variable {S K V M Op : Type} (lookup : S → K → Option V) (exec : S → M → S) (flushes : M → K → Prop)

/-- The state, what is cached, and the stores that remain of the operation under way. -/
structure System (S K V M : Type) where
  state : S
  cache : Set (K × V)
  pending : List M

inductive Act (Op K : Type) where
  | start (op : Op)
  | store
  | fill (k : K)

/-- `stores s op` are the stores of `op` begun in state `s`. -/
inductive Step (stores : S → Op → Option (List M)) : System S K V M → Act Op K → System S K V M → Prop
  | start {s : S} {C : Set (K × V)} {op : Op} {ms : List M} : stores s op = some ms →
      Step stores ⟨s, C, []⟩ (.start op) ⟨s, C, ms⟩
  | store {s : S} {C : Set (K × V)} {m : M} {ms : List M} :
      Step stores ⟨s, C, m :: ms⟩ .store ⟨exec s m, {e ∈ C | ¬ flushes m e.1}, ms⟩
  | fill {s : S} {C : Set (K × V)} {ms : List M} {k : K} {v : V} : lookup s k = some v →
      Step stores ⟨s, C, ms⟩ (.fill k) ⟨s, insert (k, v) C, ms⟩

/-- The keys whose lookup a store leaves as it is, where there is one. -/
def Keeps (s : S) (m : M) (k : K) : Prop := ∀ v, lookup s k = some v → lookup (exec s m) k = some v

/-- With the keys of `D` in doubt, the stores end with none in doubt and in a good state. -/
def Settles (Good : S → Prop) : List M → Set K → S → Prop
  | [], D, s => D = ∅ ∧ Good s
  | m :: ms, D, s => ∃ D', (∀ k ∉ D', (k ∈ D → flushes m k) ∧ Keeps lookup exec s m k) ∧ Settles Good ms D' (exec s m)

/-- Every cached lookup is right or in doubt, and the doubts will be settled. -/
def Settling (Good : S → Prop) (c : System S K V M) : Prop :=
  ∃ D, Settles lookup exec flushes Good c.pending D c.state ∧ ∀ e ∈ c.cache, e.1 ∈ D ∨ lookup c.state e.1 = some e.2

section Rules
variable {lookup exec flushes} {Good : S → Prop} {s : S} {m : M} {ms : List M} {D : Set K}

/-- A store that changes no lookup. -/
theorem Settles.quiet (hm : ∀ k, Keeps lookup exec s m k) (h : Settles lookup exec flushes Good ms D (exec s m)) :
    Settles lookup exec flushes Good (m :: ms) D s :=
  ⟨D, fun k hk => ⟨fun hk' => absurd hk' hk, hm k⟩, h⟩

/-- Stores that change no lookup, as long as `I` holds. -/
theorem Settles.quiets {I : S → Prop} {us : List M} (hI : ∀ s, I s → ∀ m ∈ us, I (exec s m))
    (hm : ∀ s, I s → ∀ m ∈ us, ∀ k, Keeps lookup exec s m k) :
    ∀ s, I s → Settles lookup exec flushes Good ms D (us.foldl exec s) →
      Settles lookup exec flushes Good (us ++ ms) D s := by
  induction us with
  | nil => intro s _ h; exact h
  | cons u us ih =>
    intro s hs h
    apply Settles.quiet (hm s hs u List.mem_cons_self)
    apply ih (fun s hs m hu => hI s hs m (List.mem_cons_of_mem u hu))
      (fun s hs m hu => hm s hs m (List.mem_cons_of_mem u hu)) _ (hI s hs u List.mem_cons_self) h

/-- A store to one key, flushed at once. -/
theorem Settles.change {u f : M} {k : K} (hu : ∀ k', k' ≠ k → Keeps lookup exec s u k') (hf : flushes f k)
    (hq : ∀ k', Keeps lookup exec (exec s u) f k') (h : Settles lookup exec flushes Good ms ∅ (exec (exec s u) f)) :
    Settles lookup exec flushes Good (u :: f :: ms) ∅ s := by
  refine ⟨{k}, fun k' hk' => ⟨fun h' => absurd h' (Set.notMem_empty k'), hu k' hk'⟩, ∅, fun k' _ => ⟨?_, hq k'⟩, h⟩
  rintro rfl
  exact hf

/-- A last store that flushes all there is. -/
theorem settles_flush {f : M} (hf : ∀ k, flushes f k) (hq : ∀ s k, Keeps lookup exec s f k) (us : List M) :
    ∀ (s : S) (D : Set K), Good ((us ++ [f]).foldl exec s) → Settles lookup exec flushes Good (us ++ [f]) D s := by
  induction us with
  | nil => intro s D h; exact ⟨∅, fun k _ => ⟨fun _ => hf k, hq s k⟩, rfl, h⟩
  | cons u us ih =>
    intro s D h
    exact ⟨Set.univ, fun k hk => absurd (Set.mem_univ k) hk, ih _ _ h⟩

end Rules

section Steps
variable {lookup exec flushes} {stores : S → Op → Option (List M)} {Good : S → Prop}

theorem settling_step (hops : ∀ s op ms, Good s → stores s op = some ms → Settles lookup exec flushes Good ms ∅ s)
    {c c' : System S K V M} {a : Act Op K} (h : Settling lookup exec flushes Good c)
    (hstep : Step lookup exec flushes stores c a c') : Settling lookup exec flushes Good c' := by
  obtain ⟨D, hD, hC⟩ := h
  cases hstep with
  | start hms =>
    obtain ⟨rfl, hgood⟩ := hD
    exact ⟨∅, hops _ _ _ hgood hms, hC⟩
  | store =>
    obtain ⟨D', hkeep, hD'⟩ := hD
    refine ⟨D', hD', fun e he => ?_⟩
    by_cases hk : e.1 ∈ D'
    · exact .inl hk
    · -- Not flushed, so not in doubt before; and the store keeps its lookup.
      obtain ⟨hflush, hkeeps⟩ := hkeep e.1 hk
      have hold := (hC e he.1).resolve_left fun hd => he.2 (hflush hd)
      exact .inr (hkeeps e.2 hold)
  | fill hv =>
    refine ⟨D, hD, fun e he => ?_⟩
    rcases Set.mem_insert_iff.1 he with rfl | he
    · exact .inr hv
    · exact hC e he

theorem settling_run (hops : ∀ s op ms, Good s → stores s op = some ms → Settles lookup exec flushes Good ms ∅ s)
    {s₀ : S} (h₀ : Good s₀) {c : System S K V M}
    (h : Reaches (Step lookup exec flushes stores) (fun _ _ => True) ⟨s₀, ∅, []⟩ c) :
    Settling lookup exec flushes Good c := by
  apply h.inv (Settling lookup exec flushes Good)
  · exact ⟨∅, ⟨rfl, h₀⟩, fun e he => absurd he (Set.notMem_empty e)⟩
  · intro c a c' hc _ hstep
    exact settling_step hops hc hstep

/-- Between operations the state is good and what is cached is right. -/
theorem never_stale (hops : ∀ s op ms, Good s → stores s op = some ms → Settles lookup exec flushes Good ms ∅ s)
    {s₀ : S} (h₀ : Good s₀) {c : System S K V M}
    (h : Reaches (Step lookup exec flushes stores) (fun _ _ => True) ⟨s₀, ∅, []⟩ c) (hidle : c.pending = []) :
    Good c.state ∧ ∀ e ∈ c.cache, lookup c.state e.1 = some e.2 := by
  obtain ⟨D, hD, hC⟩ := settling_run hops h₀ h
  rw [hidle] at hD
  obtain ⟨rfl, hgood⟩ := hD
  exact ⟨hgood, fun e he => (hC e he).resolve_left (Set.notMem_empty e.1)⟩

/-- The stores under way can be carried out to the end. -/
theorem reaches_idle {may : System S K V M → Act Op K → Prop} (hmay : ∀ c, may c .store) {c₀ : System S K V M}
    (ms : List M) : ∀ (s : S) (C : Set (K × V)), Reaches (Step lookup exec flushes stores) may c₀ ⟨s, C, ms⟩ →
      ∃ C', Reaches (Step lookup exec flushes stores) may c₀ ⟨ms.foldl exec s, C', []⟩ := by
  induction ms with
  | nil => intro s C h; exact ⟨C, h⟩
  | cons m ms ih =>
    intro s C h
    exact ih _ _ (h.step (hmay _) .store)

end Steps

end Lib.Caching
