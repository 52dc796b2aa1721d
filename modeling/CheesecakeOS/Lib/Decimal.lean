import Mathlib.Data.Nat.Digits.Lemmas
import CheesecakeOS.Lib.Words
/-!
# Decimal numerals

The numeral of a number in ASCII, and the two loops that C programs print it
with. `digitLoop` divides by ten until nothing is left and stores the last digit
first; `placeLoop` goes down the powers of ten and stores nothing before the
first digit that is not 0. Both store in a buffer of a fixed size and answer
`none` at a store that misses it; both leave the numeral (`digitLoop_spec`,
`placeLoop_spec`).
-/
namespace Lib

/-- The character of a digit. -/
def asciiDigit (d : Nat) : U8 := 0x30#8 + .ofNat 8 d

/-- Without leading zeros, first digit first. -/
def numeral (n : Nat) : List U8 := (Nat.toDigits 10 n).map fun c => .ofNat 8 c.toNat

/-! ## Numerals -/

section Numerals
variable {n : Nat}

theorem digitChar_ascii (h : n < 10) : BitVec.ofNat 8 n.digitChar.toNat = asciiDigit n := by
  interval_cases n <;> rfl

theorem numeral_of_lt (h : n < 10) : numeral n = [asciiDigit n] := by
  rw [numeral, Nat.toDigits_of_lt_base h, List.map_singleton, digitChar_ascii h]

theorem numeral_of_le (h : 10 ≤ n) : numeral n = numeral (n / 10) ++ [asciiDigit (n % 10)] := by
  rw [numeral, Nat.toDigits_of_base_le (by decide) h, List.map_append, List.map_singleton,
    digitChar_ascii (Nat.mod_lt n (by decide))]
  rfl

/-- The digits last one first, turned around. -/
theorem numeral_eq_digits (h : 0 < n) : numeral n = ((Nat.digits 10 n).map asciiDigit).reverse := by
  induction n using Nat.strong_induction_on with
  | _ n ih =>
    rw [Nat.digits_def' (by decide) h, List.map_cons, List.reverse_cons]
    by_cases hlt : n < 10
    · rw [numeral_of_lt hlt, Nat.div_eq_of_lt hlt, Nat.mod_eq_of_lt hlt]
      rfl
    · rw [numeral_of_le (by omega), ih (n / 10) (by omega) (by omega)]

theorem numeral_length_le {k : Nat} (hk : 0 < k) : (numeral n).length ≤ k ↔ n < 10 ^ k := by
  rw [numeral, List.length_map, Nat.length_toDigits_le_iff (by decide) hk]

theorem numeral_length_eq {k : Nat} (hlow : 10 ^ k ≤ n) (hhigh : n < 10 ^ (k + 1)) : (numeral n).length = k + 1 := by
  refine Nat.le_antisymm ((numeral_length_le (Nat.succ_pos k)).2 hhigh) (Nat.lt_of_not_le fun hle => ?_)
  rcases Nat.eq_zero_or_pos k with rfl | hk
  · rw [numeral, List.length_map] at hle
    exact absurd Nat.length_toDigits_pos (Nat.not_lt.2 hle)
  · exact absurd ((numeral_length_le hk).1 hle) (Nat.not_lt.2 hlow)

theorem asciiDigit_toNat (h : n < 10) : (asciiDigit n).toNat = 48 + n := by
  interval_cases n <;> rfl

theorem numeral_mem {c : U8} (hc : c ∈ numeral n) : ∃ d < 10, c = asciiDigit d := by
  by_cases h : n = 0
  · rw [h, numeral_of_lt (by decide), List.mem_singleton] at hc
    exact ⟨0, by decide, hc⟩
  · rw [numeral_eq_digits (Nat.pos_of_ne_zero h), List.mem_reverse] at hc
    obtain ⟨d, hd, rfl⟩ := List.mem_map.1 hc
    exact ⟨d, Nat.digits_lt_base (by decide) hd, rfl⟩

end Numerals

/-! ## Places -/

section Places
variable (n : Nat)

/-- The digits at the `k` lowest places, highest first. -/
def places : Nat → List Nat
  | 0 => []
  | k + 1 => n / 10 ^ k % 10 :: places k

theorem ofDigits_places (k : Nat) : Nat.ofDigits 10 (places n k).reverse = n % 10 ^ k := by
  have hlen : ∀ k, (places n k).length = k := fun k => by
    induction k with
    | zero => rfl
    | succ k ih => rw [places, List.length_cons, ih]
  induction k with
  | zero => simp [places, Nat.mod_one]
  | succ k ih =>
    rw [places, List.reverse_cons, Nat.ofDigits_append, ih, List.length_reverse, hlen, Nat.ofDigits_singleton,
      Nat.mod_pow_succ]

theorem places_lt {d k : Nat} (hd : d ∈ places n k) : d < 10 := by
  induction k with
  | zero => cases hd
  | succ k ih =>
    rcases List.mem_cons.1 hd with rfl | hd
    · exact Nat.mod_lt _ (by decide)
    · exact ih hd

/-- Leading zeros add nothing. -/
theorem ofDigits_dropWhile (l : List Nat) :
    Nat.ofDigits 10 (l.dropWhile (· = 0)).reverse = Nat.ofDigits 10 l.reverse := by
  have hzero : l.takeWhile (· = 0) = List.replicate (l.takeWhile (· = 0)).length 0 := by
    refine List.eq_replicate_of_mem fun x hx => ?_
    simpa using List.all_eq_true.1 List.all_takeWhile x hx
  have hl : l.reverse = (l.dropWhile (· = 0)).reverse ++ List.replicate (l.takeWhile (· = 0)).length 0 := by
    rw [← List.reverse_replicate, ← hzero, ← List.reverse_append, List.takeWhile_append_dropWhile]
  rw [hl, Nat.ofDigits_append_replicate_zero]

/-- The places from the first digit that is not 0 are the numeral. -/
theorem numeral_eq_places {n k : Nat} (h : 0 < n) (hk : n < 10 ^ k) :
    numeral n = ((places n k).dropWhile (· = 0)).map asciiDigit := by
  have hval : Nat.ofDigits 10 ((places n k).dropWhile (· = 0)).reverse = n := by
    rw [ofDigits_dropWhile, ofDigits_places, Nat.mod_eq_of_lt hk]
  have hdigits := Nat.digits_ofDigits 10 (by decide) ((places n k).dropWhile (· = 0)).reverse ?_ ?_
  · rw [hval] at hdigits
    rw [numeral_eq_digits h, hdigits, ← List.map_reverse, List.reverse_reverse]
  · intro d hd
    exact places_lt n ((List.dropWhile_sublist _).mem (List.mem_reverse.1 hd))
  · intro hne
    rw [List.getLast_reverse]
    have hhead := List.head_dropWhile_not (fun d => decide (d = 0)) (List.reverse_eq_nil_iff.not.1 hne)
    exact of_decide_eq_false hhead

end Places

/-! ## Buffers -/

section Buffers
variable {size : Nat} {buf : Vector U8 size} {text : List U8}

/-- `buf[i] = c;`, or `none` behind the end. -/
def store (buf : Vector U8 size) (i : Nat) (c : U8) : Option (Vector U8 size) :=
  if h : i < size then some (buf.set i c) else none

theorem store_spec (hbuf : text <+: buf.toList) (hlt : text.length < size) (c : U8) :
    ∃ buf', store buf text.length c = some buf' ∧ text ++ [c] <+: buf'.toList := by
  refine ⟨buf.set text.length c, dif_pos hlt, ?_⟩
  have htake := List.prefix_iff_eq_take.1 hbuf
  rw [Vector.toList_set, List.set_eq_take_append_cons_drop, if_pos (by simpa using hlt), ← htake]
  exact ⟨_, List.append_assoc text [c] _⟩

/-- `for (i = len - 1; i >= 0; i--) s = f(s, buf[i]);` -/
def readBack {σ : Type} (buf : Vector U8 size) (f : σ → U8 → σ) : Nat → σ → σ
  | 0, s => s
  | len + 1, s => readBack buf f len (f s (buf[len]?.getD 0))

theorem readBack_spec {σ : Type} {f : σ → U8 → σ} {s : σ} (hbuf : text <+: buf.toList) :
    readBack buf f text.length s = text.reverse.foldl f s := by
  induction text using List.reverseRecOn generalizing s with
  | nil => rfl
  | append_singleton text c ih =>
    have hlast : buf[text.length]? = some c := by
      have hget := hbuf.getElem (i := text.length) (by simp)
      rw [List.getElem_concat_length rfl] at hget
      rw [hget, Vector.getElem_toList]
      exact Vector.getElem?_eq_getElem _
    rw [List.length_append, List.length_singleton, readBack, hlast, Option.getD_some,
      ih ((List.prefix_append text [c]).trans hbuf), List.reverse_concat, List.foldl_cons]

/-- `while (n > 0) { buf[len++] = '0' + (n % 10); n /= 10; }` -/
def digitLoop (buf : Vector U8 size) (len : Nat) (n : U32) : Option (Vector U8 size × Nat) :=
  if n = 0#32 then some (buf, len)
  else do
    let buf ← store buf len (0x30#8 + (n % 10#32).setWidth 8)
    digitLoop buf (len + 1) (n / 10#32)
termination_by n.toNat
decreasing_by
  rename_i h
  rw [BitVec.toNat_udiv]
  exact Nat.div_lt_self (BitVec.toNat_pos_of_ne_zero h) (by decide)

/-- The last digit of a word as a character. -/
theorem ascii_mod (n : U32) : 0x30#8 + (n % 10#32).setWidth 8 = asciiDigit (n.toNat % 10) := rfl

theorem digitLoop_spec {n : U32} (hbuf : text <+: buf.toList)
    (hlen : text.length + (Nat.digits 10 n.toNat).length ≤ size) :
    ∃ buf', digitLoop buf text.length n = some (buf', text.length + (Nat.digits 10 n.toNat).length) ∧
      text ++ (Nat.digits 10 n.toNat).map asciiDigit <+: buf'.toList := by
  induction hn : n.toNat using Nat.strong_induction_on generalizing n buf text with
  | _ k ih =>
    subst hn
    unfold digitLoop
    by_cases h : n = 0#32
    · rw [if_pos h, h]
      exact ⟨buf, rfl, by simpa using hbuf⟩
    · have hpos : 0 < n.toNat := BitVec.toNat_pos_of_ne_zero h
      have hdiv : (n / 10#32).toNat = n.toNat / 10 := BitVec.toNat_udiv
      rw [Nat.digits_def' (by decide) hpos] at hlen ⊢
      rw [List.length_cons] at hlen ⊢
      obtain ⟨buf₁, hstore, hbuf₁⟩ := store_spec hbuf (by omega) (asciiDigit (n.toNat % 10))
      obtain ⟨buf', hloop, hbuf'⟩ := ih (n.toNat / 10) (Nat.div_lt_self hpos (by decide)) hbuf₁
        (by rw [List.length_append, List.length_singleton, hdiv]; omega) hdiv
      rw [List.length_append, List.length_singleton] at hloop
      rw [if_neg h, ascii_mod, hstore]
      refine ⟨buf', ?_, ?_⟩
      · rw [Nat.add_comm (Nat.digits 10 (n.toNat / 10)).length, ← Nat.add_assoc]
        exact hloop
      · rw [List.append_assoc] at hbuf'
        exact hbuf'

/-- The digits of a number, stored from the last one on and read back from the first one on. -/
theorem digitLoop_readBack {σ : Type} {n : U32} (buf : Vector U8 size) (hlen : (Nat.digits 10 n.toNat).length ≤ size)
    (f : σ → U8 → σ) (s : σ) : ∃ buf' len, digitLoop buf 0 n = some (buf', len) ∧
      readBack buf' f len s = ((Nat.digits 10 n.toNat).map asciiDigit).reverse.foldl f s := by
  obtain ⟨buf', hloop, hbuf⟩ := digitLoop_spec (n := n) (show [] <+: buf.toList from List.nil_prefix)
    (by rw [List.length_nil]; omega)
  have hread := readBack_spec (f := f) (s := s) hbuf
  rw [List.nil_append, List.length_map] at hread
  rw [List.length_nil, Nat.zero_add] at hloop
  exact ⟨buf', _, hloop, hread⟩

/-- `while (div > 0) { digit = (n / div) % 10; if (digit || started) { buf[pos++] = '0' + digit; started = 1; }
div /= 10; }` -/
def placeLoop (n : U32) (buf : Vector U8 size) (pos : Nat) (started : Bool) (div : U32) :
    Option (Vector U8 size × Nat) :=
  if div = 0#32 then some (buf, pos)
  else
    let digit := n / div % 10#32
    if digit ≠ 0#32 ∨ started then do
      let buf ← store buf pos (0x30#8 + digit.setWidth 8)
      placeLoop n buf (pos + 1) true (div / 10#32)
    else placeLoop n buf pos started (div / 10#32)
termination_by div.toNat
decreasing_by
  all_goals
    rw [BitVec.toNat_udiv]
    exact Nat.div_lt_self (BitVec.toNat_pos_of_ne_zero ‹¬ div = 0#32›) (by decide)

/-- What the scan stores from a place on. -/
def scanned (n k : Nat) (started : Bool) : List Nat :=
  if started then places n k else (places n k).dropWhile (· = 0)

theorem scanned_succ (n k : Nat) (started : Bool) : scanned n (k + 1) started =
    if n / 10 ^ k % 10 ≠ 0 ∨ started then n / 10 ^ k % 10 :: scanned n k true else scanned n k false := by
  have hplaces : places n (k + 1) = n / 10 ^ k % 10 :: places n k := rfl
  unfold scanned
  rw [hplaces]
  cases started with
  | true => simp
  | false =>
    by_cases hd : n / 10 ^ k % 10 = 0
    · rw [List.dropWhile_cons_of_pos (by simp [hd])]
      simp [hd]
    · rw [List.dropWhile_cons_of_neg (by simp [hd])]
      simp [hd]

theorem placeLoop_spec {n div : U32} {k : Nat} (started : Bool) (hbuf : text <+: buf.toList)
    (hdiv : div.toNat = 10 ^ k / 10) (hlen : text.length + (scanned n.toNat k started).length ≤ size) :
    ∃ buf', placeLoop n buf text.length started div = some (buf', text.length + (scanned n.toNat k started).length) ∧
      text ++ (scanned n.toNat k started).map asciiDigit <+: buf'.toList := by
  induction k generalizing div buf text started with
  | zero =>
    have hnone : scanned n.toNat 0 started = [] := by cases started <;> rfl
    unfold placeLoop
    rw [if_pos (BitVec.eq_of_toNat_eq hdiv), hnone]
    exact ⟨buf, rfl, by simpa using hbuf⟩
  | succ k ih =>
    rw [Nat.pow_succ, Nat.mul_div_cancel _ (by decide)] at hdiv
    have hne : div ≠ 0#32 := fun h => by
      rw [h] at hdiv
      exact absurd hdiv (Nat.pow_pos (by decide)).ne
    have hnext : (div / 10#32).toNat = 10 ^ k / 10 := by rw [BitVec.toNat_udiv, hdiv]; rfl
    have hdigit : (n / div).toNat = n.toNat / 10 ^ k := by rw [BitVec.toNat_udiv, hdiv]
    have hzero : n / div % 10#32 ≠ 0#32 ↔ n.toNat / 10 ^ k % 10 ≠ 0 := by
      rw [← hdigit, not_iff_not]
      exact ⟨fun h => congrArg BitVec.toNat h, fun h => BitVec.eq_of_toNat_eq h⟩
    rw [scanned_succ] at hlen ⊢
    unfold placeLoop
    rw [if_neg hne]
    dsimp only
    simp only [hzero]
    by_cases hput : n.toNat / 10 ^ k % 10 ≠ 0 ∨ started
    · rw [if_pos hput, List.length_cons] at hlen
      obtain ⟨buf₁, hstore, hbuf₁⟩ := store_spec hbuf (by omega) (asciiDigit (n.toNat / 10 ^ k % 10))
      obtain ⟨buf', hloop, hbuf'⟩ := ih true hbuf₁ hnext
        (by rw [List.length_append, List.length_singleton]; omega)
      rw [List.length_append, List.length_singleton] at hloop
      rw [if_pos hput, if_pos hput, ascii_mod, hdigit, hstore, List.length_cons]
      refine ⟨buf', ?_, ?_⟩
      · rw [Nat.add_comm (scanned n.toNat k true).length, ← Nat.add_assoc]
        exact hloop
      · rw [List.append_assoc] at hbuf'
        exact hbuf'
    · obtain rfl : started = false := by simpa using fun h => hput (.inr h)
      rw [if_neg hput] at hlen
      rw [if_neg hput, if_neg hput]
      exact ih false hbuf hnext hlen

end Buffers

end Lib
