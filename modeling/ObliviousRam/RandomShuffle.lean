import Mathlib.Data.Int.CardIntervalMod
import Mathlib.Data.List.Nodup
import Mathlib.Data.Set.Function
import Mathlib.SetTheory.Cardinal.Finite
import ObliviousRam.Defs

set_option autoImplicit false

/-!
# `RandomShuffle`

`UniformRandom` samples 32-bit words until one is acceptable and takes it modulo the range. Its
arithmetic is that of `uint32_t`: over all of `uint32_t` the range wraps to zero, and it divides
by it. Every index of the range is returned for equally many acceptable words.

`RandomShuffle` is the Fisher–Yates shuffle over these indices. `swaps` is its loop once the
indices are known; two facts carry the proofs about it: the loop leaves alone what is behind its
counter, and a turn puts at the counter the element the index names.
-/

namespace ObliviousRam

namespace OramCrypto

variable {α : Type}

/-! ## `UniformRandom`

The words above a multiple of the range are rejected. Below it every residue is taken by
equally many words, which is a count of the multiples. -/

/-- `range`, which is 0 over the whole of `uint32_t`. -/
def range (min max : UInt32) : UInt32 := max - min + 1

/-- `max_acceptable_value`. -/
def maxAcceptableValue (range : UInt32) : UInt32 := 0xFFFFFFFF / range * range - 1

/-- `UniformRandom(min, max, &out)`, with the words `randombytes_random` gives in turn. -/
def uniformRandom32 (words : List UInt32) (min max : UInt32) : Except Exit UInt32 :=
  if min > max then
    .error (.status (.make .kInvalidArgument
      "The minimum value is greater than the maximum value" ""))
  else if range min max = 0 then
    .error (.undefined "division by zero in UniformRandom")
  else
    match words.find? fun value => value ≤ maxAcceptableValue (range min max) with
    | none => .error (.undefined "the words are used up and the loop is still drawing")
    | some value => .ok (value % range min max + min)

theorem toNat_ofNat {n : ℕ} (hn : n < 2 ^ 32) : (UInt32.ofNat n).toNat = n :=
  UInt32.toNat_ofNat_of_lt' hn

theorem toNat_pos {x : UInt32} (hx : x ≠ 0) : 0 < x.toNat :=
  Nat.pos_of_ne_zero fun h => hx (UInt32.toNat_inj.mp h)

/-- The range of an index below `2 ^ 32 - 1` is exact. -/
theorem toNat_range_zero {i : ℕ} (hi : i + 1 < 2 ^ 32) :
    (range 0 (UInt32.ofNat i)).toNat = i + 1 := by
  rw [range, UInt32.sub_zero, UInt32.toNat_add, toNat_ofNat (by omega)]
  exact Nat.mod_eq_of_lt hi

/-- The number of acceptable words: the multiple of the range below `2 ^ 32`. -/
theorem toNat_quotient_mul (range : UInt32) :
    (0xFFFFFFFF / range * range).toNat = (2 ^ 32 - 1) / range.toNat * range.toNat := by
  have hmul : (2 ^ 32 - 1) / range.toNat * range.toNat ≤ 2 ^ 32 - 1 := Nat.div_mul_le_self _ _
  rw [UInt32.toNat_mul, UInt32.toNat_div]
  exact Nat.mod_eq_of_lt (Nat.lt_of_le_of_lt hmul (by decide))

/-- The words that are accepted are a multiple of the range. -/
theorem toNat_maxAcceptableValue {range : UInt32} (hrange : range ≠ 0) :
    (maxAcceptableValue range).toNat + 1 = (2 ^ 32 - 1) / range.toNat * range.toNat := by
  have hpos : 0 < range.toNat := toNat_pos hrange
  have hlt : range.toNat < 2 ^ 32 := range.toNat_lt
  have hle : range.toNat ≤ (2 ^ 32 - 1) / range.toNat * range.toNat :=
    Nat.le_mul_of_pos_left _ (Nat.div_pos (by omega) hpos)
  have hprod := toNat_quotient_mul range
  have hone : (1 : UInt32) ≤ 0xFFFFFFFF / range * range := by
    rw [UInt32.le_iff_toNat_le, hprod]
    exact (Nat.succ_le_of_lt hpos).trans hle
  rw [maxAcceptableValue, UInt32.toNat_sub_of_le _ _ hone, hprod]
  exact Nat.sub_add_cancel ((Nat.succ_le_of_lt hpos).trans hle)

/-- Each index of the range is what equally many of the acceptable words come to. -/
theorem count_words_of_index {range : UInt32} (hrange : range ≠ 0) (j : ℕ) :
    ((maxAcceptableValue range).toNat + 1).count (· ≡ j [MOD range.toNat]) =
      (2 ^ 32 - 1) / range.toNat := by
  have hpos : 0 < range.toNat := toNat_pos hrange
  rw [toNat_maxAcceptableValue hrange, Nat.count_modEq_card _ hpos, Nat.mul_mod_left,
    if_neg (Nat.not_lt_zero _), Nat.mul_div_cancel _ hpos, Nat.add_zero]

/-- The index itself is such a word. -/
theorem uniformRandom32_index {i j : ℕ} (hi : i + 1 < 2 ^ 32) (hj : j ≤ i) :
    uniformRandom32 [UInt32.ofNat j] 0 (UInt32.ofNat i) = .ok (UInt32.ofNat j) := by
  have hrange := toNat_range_zero hi
  have hne : range 0 (UInt32.ofNat i) ≠ 0 := by
    intro h
    rw [h] at hrange
    exact absurd hrange (by simp)
  have hjnat : (UInt32.ofNat j).toNat = j := toNat_ofNat (by omega)
  have hle : UInt32.ofNat j ≤ maxAcceptableValue (range 0 (UInt32.ofNat i)) := by
    have hmax := toNat_maxAcceptableValue hne
    rw [hrange] at hmax
    have hquot : i + 1 ≤ (2 ^ 32 - 1) / (i + 1) * (i + 1) :=
      Nat.le_mul_of_pos_left _ (Nat.div_pos (by omega) (Nat.succ_pos i))
    rw [UInt32.le_iff_toNat_le, hjnat]
    omega
  have hmod : UInt32.ofNat j % range 0 (UInt32.ofNat i) = UInt32.ofNat j := by
    refine UInt32.toNat_inj.mp ?_
    rw [UInt32.toNat_mod, hrange, hjnat]
    exact Nat.mod_eq_of_lt (by omega)
  rw [uniformRandom32, if_neg (by simp), if_neg hne]
  simp only [List.find?, hle, decide_true, hmod, UInt32.add_zero]

/-- Where the range wraps, no words help. -/
theorem uniformRandom32_full (words : List UInt32) :
    uniformRandom32 words 0 (UInt32.ofNat (2 ^ 32 - 1)) =
      .error (.undefined "division by zero in UniformRandom") := by
  rw [uniformRandom32, if_neg (by decide), if_pos (by decide)]

/-- No expression of `UniformRandom(min, max)` wraps, and none divides by zero. -/
structure ExactArithmetic (min max : UInt32) : Prop where
  sub : (max - min).toNat + min.toNat = max.toNat
  range_eq : (range min max).toNat = (max - min).toNat + 1
  range_ne_zero : range min max ≠ 0
  mul : (0xFFFFFFFF / range min max * range min max).toNat =
    (0xFFFFFFFF / range min max).toNat * (range min max).toNat
  pred : (maxAcceptableValue (range min max)).toNat + 1 =
    (0xFFFFFFFF / range min max * range min max).toNat
  add : ∀ value : UInt32,
    (value % range min max + min).toNat = (value % range min max).toNat + min.toNat

theorem toNat_sub_add {min max : UInt32} (hle : min ≤ max) :
    (max - min).toNat + min.toNat = max.toNat := by
  rw [UInt32.toNat_sub_of_le _ _ hle]
  exact Nat.sub_add_cancel (UInt32.le_iff_toNat_le.mp hle)

/-- The range does not wrap unless it is all of `uint32_t`. -/
theorem toNat_range {min max : UInt32} (hsize : (max - min).toNat < 2 ^ 32 - 1) :
    (range min max).toNat = (max - min).toNat + 1 := by
  rw [range, UInt32.toNat_add]
  exact Nat.mod_eq_of_lt (Nat.add_lt_of_lt_sub hsize)

theorem toNat_lt_of_range_ne_zero {min max : UInt32} (hrange : range min max ≠ 0) :
    (max - min).toNat < 2 ^ 32 - 1 := by
  refine Nat.lt_of_le_of_ne (Nat.le_sub_one_of_lt (max - min).toNat_lt) fun h => hrange ?_
  refine UInt32.toNat_inj.mp ?_
  rw [range, UInt32.toNat_add, h]
  rfl

/-- A word of the range, moved to where the range begins. -/
theorem toNat_mod_add {min max : UInt32} (hle : min ≤ max) (hrange : range min max ≠ 0)
    (value : UInt32) :
    (value % range min max + min).toNat = (value % range min max).toNat + min.toNat := by
  have hsub := toNat_sub_add hle
  have hmax : max.toNat < 2 ^ 32 := max.toNat_lt
  have hlt := Nat.mod_lt value.toNat (toNat_pos hrange)
  rw [toNat_range (toNat_lt_of_range_ne_zero hrange)] at hlt
  rw [UInt32.toNat_add, UInt32.toNat_mod, toNat_range (toNat_lt_of_range_ne_zero hrange)]
  exact Nat.mod_eq_of_lt (by omega)

/-- Short of all of `uint32_t`, nothing wraps. -/
theorem exactArithmetic {min max : UInt32} (hle : min ≤ max)
    (hsize : (max - min).toNat < 2 ^ 32 - 1) : ExactArithmetic min max := by
  have hrange := toNat_range hsize
  have hne : range min max ≠ 0 := by
    intro h
    rw [h] at hrange
    exact absurd hrange (Nat.succ_ne_zero _).symm
  have hprod := toNat_quotient_mul (range min max)
  refine ⟨toNat_sub_add hle, hrange, hne, ?_, ?_, toNat_mod_add hle hne⟩
  · rw [hprod, UInt32.toNat_div]
    rfl
  · rw [toNat_maxAcceptableValue hne, hprod]

/-- The words an access draws in the rest of this development stand for what this function makes
of them. -/
theorem uniformRandom32_eq {value min max : UInt32} (hle : min ≤ max) (hrange : range min max ≠ 0)
    (hvalue : value ≤ maxAcceptableValue (range min max)) :
    (uniformRandom32 [value] min max).map UInt32.toNat =
      (uniformRandom value.toNat min.toNat max.toNat).mapError Exit.status := by
  have hmin := UInt32.le_iff_toNat_le.mp hle
  have hsum : (range min max).toNat = max.toNat - min.toNat + 1 := by
    rw [toNat_range (toNat_lt_of_range_ne_zero hrange), UInt32.toNat_sub_of_le _ _ hle]
  rw [uniformRandom32, if_neg (UInt32.not_lt.mpr hle), if_neg hrange, uniformRandom_ok _ hmin]
  simp only [List.find?, hvalue, decide_true, Except.map, Except.mapError,
    toNat_mod_add hle hrange, UInt32.toNat_mod, hsum]

/-- One word is returned, or drawn in vain. -/
theorem uniformRandom32_word {min max : UInt32} (hle : min ≤ max) (hrange : range min max ≠ 0)
    (value r : UInt32) :
    uniformRandom32 [value] min max = .ok r ↔
      value ≤ maxAcceptableValue (range min max) ∧ value % range min max + min = r := by
  rw [uniformRandom32, if_neg (UInt32.not_lt.mpr hle), if_neg hrange, List.find?_singleton]
  by_cases hvalue : value ≤ maxAcceptableValue (range min max)
  · simp [hvalue]
  · simp [hvalue]

/-- The words behind the first acceptable one are not drawn. -/
theorem uniformRandom32_draws {words : List UInt32} {min max r : UInt32}
    (h : uniformRandom32 words min max = .ok r) :
    ∃ value ∈ words, uniformRandom32 [value] min max = .ok r := by
  rw [uniformRandom32] at h
  split at h
  next => cases h
  next hle =>
    split at h
    next => cases h
    next hrange =>
      cases hfind : words.find? fun value => value ≤ maxAcceptableValue (range min max) with
      | none =>
        rw [hfind] at h
        cases h
      | some value =>
        rw [hfind] at h
        refine ⟨value, List.mem_of_find?_eq_some hfind, ?_⟩
        rw [uniformRandom32_word (UInt32.not_lt.mp hle) hrange]
        exact ⟨by simpa using List.find?_some hfind, Except.ok.inj h⟩

/-- What is returned lies between the two bounds. -/
theorem mem_range_of_uniformRandom32 {words : List UInt32} {min max r : UInt32} (hle : min ≤ max)
    (hrange : range min max ≠ 0) (h : uniformRandom32 words min max = .ok r) :
    min ≤ r ∧ r ≤ max := by
  obtain ⟨value, -, hvalue⟩ := uniformRandom32_draws h
  obtain ⟨haccepted, -⟩ := (uniformRandom32_word hle hrange value r).mp hvalue
  have hmin : min.toNat ≤ max.toNat := UInt32.le_iff_toNat_le.mp hle
  have hnat := uniformRandom32_eq hle hrange haccepted
  rw [hvalue, uniformRandom_ok _ hmin] at hnat
  have hr : r.toNat = value.toNat % (max.toNat - min.toNat + 1) + min.toNat := Except.ok.inj hnat
  have hlt : value.toNat % (max.toNat - min.toNat + 1) < max.toNat - min.toNat + 1 :=
    Nat.mod_lt _ (Nat.succ_pos _)
  rw [UInt32.le_iff_toNat_le, UInt32.le_iff_toNat_le, hr]
  omega

/-- Words are counted as the numbers they are. -/
theorem card_words (p : ℕ → Prop) [DecidablePred p] {n : ℕ} (hn : n ≤ 2 ^ 32) :
    Nat.card {value : UInt32 // value.toNat < n ∧ p value.toNat} = n.count p := by
  have hinj : Set.InjOn UInt32.ofNat ((Finset.range n).filter p : Finset ℕ) := by
    intro i hi j hj heq
    have hilt := Finset.mem_range.mp (Finset.mem_filter.mp hi).1
    have hjlt := Finset.mem_range.mp (Finset.mem_filter.mp hj).1
    rw [← toNat_ofNat (hilt.trans_le hn), heq, toNat_ofNat (hjlt.trans_le hn)]
  rw [Nat.count_eq_card_filter_range, ← Finset.card_image_of_injOn hinj]
  refine Nat.subtype_card _ fun value => ?_
  rw [Finset.mem_image]
  constructor
  · rintro ⟨i, hi, rfl⟩
    obtain ⟨hlt, hp⟩ := Finset.mem_filter.mp hi
    have hlt := Finset.mem_range.mp hlt
    rw [toNat_ofNat (hlt.trans_le hn)]
    exact ⟨hlt, hp⟩
  · rintro ⟨hlt, hp⟩
    exact ⟨value.toNat, Finset.mem_filter.mpr ⟨Finset.mem_range.mpr hlt, hp⟩, UInt32.ofNat_toNat⟩

/-- As many words come to one result as to another. -/
theorem card_uniformRandom32 {min max r : UInt32} (hle : min ≤ max) (hrange : range min max ≠ 0)
    (hr : min ≤ r ∧ r ≤ max) :
    Nat.card {value : UInt32 // uniformRandom32 [value] min max = .ok r} =
      (2 ^ 32 - 1) / (range min max).toNat := by
  have hmin := UInt32.le_iff_toNat_le.mp hr.1
  have hmax := UInt32.le_iff_toNat_le.mp hr.2
  have hsub := toNat_sub_add hle
  have hindex : r.toNat - min.toNat < (range min max).toNat := by
    rw [toNat_range (toNat_lt_of_range_ne_zero hrange)]
    omega
  rw [← count_words_of_index hrange (r.toNat - min.toNat),
    ← card_words _ (maxAcceptableValue (range min max)).toNat_lt]
  refine Nat.card_congr (Equiv.subtypeEquivRight fun value => ?_)
  rw [uniformRandom32_word hle hrange, UInt32.le_iff_toNat_le, Nat.lt_succ_iff, Nat.ModEq,
    Nat.mod_eq_of_lt hindex, ← UInt32.toNat_inj, toNat_mod_add hle hrange, UInt32.toNat_mod]
  refine and_congr_right fun _ => ?_
  omega

/-- **`UniformRandom` is in range and unbiased**, unless the range is all of `uint32_t`. -/
theorem uniformRandom32_uniform {min max : UInt32} (hle : min ≤ max)
    (hsize : max.toNat - min.toNat < 2 ^ 32 - 1) :
    ExactArithmetic min max ∧
      (∀ value, value ≤ maxAcceptableValue (range min max) →
        ∃ r, uniformRandom32 [value] min max = .ok r ∧ min ≤ r ∧ r ≤ max) ∧
      (∀ words r, uniformRandom32 words min max = .ok r → min ≤ r ∧ r ≤ max) ∧
      ∀ r, min ≤ r → r ≤ max →
        Nat.card {value : UInt32 // uniformRandom32 [value] min max = .ok r} =
          (2 ^ 32 - 1) / (max.toNat - min.toNat + 1) ∧
        0 < (2 ^ 32 - 1) / (max.toNat - min.toNat + 1) := by
  have hexact := exactArithmetic hle (by rwa [UInt32.toNat_sub_of_le _ _ hle])
  have hrange := hexact.range_ne_zero
  have hinside (words r) (h : uniformRandom32 words min max = .ok r) : min ≤ r ∧ r ≤ max :=
    mem_range_of_uniformRandom32 hle hrange h
  refine ⟨hexact, fun value hvalue => ?_, hinside, fun r hmin hmax => ⟨?_, ?_⟩⟩
  · have hok := (uniformRandom32_word hle hrange value _).mpr ⟨hvalue, rfl⟩
    exact ⟨_, hok, hinside _ _ hok⟩
  · rw [card_uniformRandom32 hle hrange ⟨hmin, hmax⟩, hexact.range_eq,
      UInt32.toNat_sub_of_le _ _ hle]
  · exact Nat.div_pos (by omega) (Nat.succ_pos _)

/-- The six results of a dice. -/
theorem uniformRandom32_uniform_dice :
    ExactArithmetic 1 6 ∧
      (∀ value, value ≤ maxAcceptableValue (range 1 6) →
        ∃ r, uniformRandom32 [value] 1 6 = .ok r ∧ 1 ≤ r ∧ r ≤ 6) ∧
      (∀ words r, uniformRandom32 words 1 6 = .ok r → 1 ≤ r ∧ r ≤ 6) ∧
      ∀ r, 1 ≤ r → r ≤ 6 →
        Nat.card {value : UInt32 // uniformRandom32 [value] 1 6 = .ok r} =
          (2 ^ 32 - 1) / ((6 : UInt32).toNat - (1 : UInt32).toNat + 1) ∧
        0 < (2 ^ 32 - 1) / ((6 : UInt32).toNat - (1 : UInt32).toNat + 1) :=
  uniformRandom32_uniform (by decide) (by decide)

/-! ## The loop of `RandomShuffle` -/

/-- The turns of the loop from `i` down to 1; the counter is a `size_t`, which `UniformRandom`
takes as a `uint32_t`. `words i` are the words drawn in turn `i`. -/
def shuffleFrom (words : ℕ → List UInt32) : ℕ → Array α → Except Exit (Array α)
  | 0, array => .ok array
  | i + 1, array => do
    let j ← uniformRandom32 (words (i + 1)) 0 (UInt32.ofNat (i + 1))
    shuffleFrom words i (array.swapIfInBounds (i + 1) j.toNat)

/-- `RandomShuffle`. -/
def randomShuffle (words : ℕ → List UInt32) (array : Array α) : Except Exit (Array α) :=
  if array.isEmpty then
    .error (.status (.make .kInvalidArgument "The input array is empty" ""))
  else shuffleFrom words (array.size - 1) array

/-- The loop once its indices are known. -/
def swaps (j : ℕ → ℕ) : ℕ → Array α → Array α
  | 0, array => array
  | i + 1, array => swaps j i (array.swapIfInBounds (i + 1) (j (i + 1)))

theorem swapIfInBounds_perm (array : Array α) (i j : ℕ) :
    (array.swapIfInBounds i j).Perm array := by
  rw [Array.swapIfInBounds_def]
  split
  · split
    · exact Array.swap_perm _ _
    · exact .refl _
  · exact .refl _

/-- The loop rearranges. -/
theorem swaps_perm (j : ℕ → ℕ) (i : ℕ) (array : Array α) : (swaps j i array).Perm array := by
  induction i generalizing array with
  | zero => exact .refl _
  | succ i ih => exact (ih _).trans (swapIfInBounds_perm _ _ _)

@[simp]
theorem size_swaps (j : ℕ → ℕ) (i : ℕ) (array : Array α) : (swaps j i array).size = array.size :=
  (swaps_perm j i array).size_eq

/-- The indices that are not used make no difference. -/
theorem swaps_congr {j j' : ℕ → ℕ} {i : ℕ} {array : Array α} (h : ∀ k, k ≤ i → j k = j' k) :
    swaps j i array = swaps j' i array := by
  induction i generalizing array with
  | zero => rfl
  | succ i ih =>
    rw [swaps, swaps, h (i + 1) (le_refl _)]
    exact ih fun k hk => h k (by omega)

/-- Indices that `UniformRandom(0, i)` can return in turn `i`. -/
def InRange (j : ℕ → ℕ) (n : ℕ) : Prop := ∀ i, i < n → j i ≤ i

/-- What is behind the counter stays. -/
theorem getElem_swaps_of_lt {j : ℕ → ℕ} {i k : ℕ} {array : Array α} (hj : InRange j (i + 1))
    (hik : i < k) (hk : k < array.size) :
    getElem (swaps j i array) k (by rw [size_swaps]; exact hk) = array[k] := by
  induction i generalizing array with
  | zero => rfl
  | succ i ih =>
    have hturn : j (i + 1) ≤ i + 1 := hj (i + 1) (Nat.lt_succ_self _)
    have hrest : InRange j (i + 1) := fun k hk => hj k (by omega)
    simp only [swaps]
    rw [ih hrest (by omega) (by rw [Array.size_swapIfInBounds]; exact hk)]
    exact Array.getElem_swapIfInBounds_of_ne_of_ne (by omega) (by omega) _

/-- A turn puts at the counter what the index names. -/
theorem getElem_swaps_self {j : ℕ → ℕ} {i : ℕ} {array : Array α} (hj : InRange j (i + 2))
    (hi : i + 1 < array.size) :
    getElem (swaps j (i + 1) array) (i + 1) (by rw [size_swaps]; exact hi) =
      getElem array (j (i + 1)) (Nat.lt_of_le_of_lt (hj (i + 1) (Nat.lt_succ_self _)) hi) := by
  have hturn : j (i + 1) < array.size := Nat.lt_of_le_of_lt (hj (i + 1) (Nat.lt_succ_self _)) hi
  simp only [swaps]
  rw [getElem_swaps_of_lt (fun k hk => hj k (by omega)) (Nat.lt_succ_self i)
    (by rw [Array.size_swapIfInBounds]; exact hi)]
  exact Array.getElem_swapIfInBounds_left hturn _

/-! ## Every rearrangement once

The last turn fixes the last place, and so on downwards: the element at a place tells
the index of its turn. So no two index sequences give the same array, and as an
induction on the counter shows every rearrangement is given by one. -/

/-- A swap repeats no element. -/
theorem nodup_swapIfInBounds {array : Array α} (hnodup : array.toList.Nodup) (i j : ℕ) :
    (array.swapIfInBounds i j).toList.Nodup :=
  ((Array.perm_iff_toList_perm.mp (swapIfInBounds_perm array i j)).nodup_iff).mpr hnodup

/-- Where no element is repeated, an element tells its place. -/
theorem getElem_inj_of_nodup {array : Array α} (hnodup : array.toList.Nodup) {i k : ℕ}
    (hi : i < array.size) (hk : k < array.size) (heq : array[i] = array[k]) : i = k :=
  (List.Nodup.getElem_inj_iff hnodup).mp heq

/-- Two runs of the loop with one result had the same indices. -/
theorem swaps_injective {j j' : ℕ → ℕ} {i : ℕ} {array : Array α} (hnodup : array.toList.Nodup)
    (hi : i < array.size) (hj : InRange j (i + 1)) (hj' : InRange j' (i + 1))
    (heq : swaps j i array = swaps j' i array) : ∀ k, 0 < k → k ≤ i → j k = j' k := by
  induction i generalizing array with
  | zero =>
    intro k hpos hk
    omega
  | succ i ih =>
    have hturn : j (i + 1) = j' (i + 1) := by
      refine getElem_inj_of_nodup hnodup (Nat.lt_of_le_of_lt (hj _ (Nat.lt_succ_self _)) hi)
        (Nat.lt_of_le_of_lt (hj' _ (Nat.lt_succ_self _)) hi) ?_
      rw [← getElem_swaps_self hj hi, ← getElem_swaps_self hj' hi]
      exact getElem_congr_coll heq
    intro k hpos hk
    rcases Nat.lt_or_eq_of_le hk with hlt | rfl
    · simp only [swaps, ← hturn] at heq
      exact ih (nodup_swapIfInBounds hnodup _ _)
        (by rw [Array.size_swapIfInBounds]; exact Nat.lt_of_succ_lt hi)
        (fun k hk => hj k (by omega)) (fun k hk => hj' k (by omega)) heq k hpos (by omega)
    · exact hturn

/-- Arrangements of the same elements that agree but for the first agree. -/
theorem eq_of_perm_of_agree {out array : Array α} (hperm : out.Perm array)
    (hnodup : array.toList.Nodup)
    (hagree : ∀ k, 0 < k → ∀ (h : k < out.size) (h' : k < array.size), out[k] = array[k]) :
    out = array := by
  have hsize : out.size = array.size := hperm.size_eq
  have hout : out.toList.Nodup := ((Array.perm_iff_toList_perm.mp hperm).nodup_iff).mpr hnodup
  refine Array.ext hsize fun k hk hk' => ?_
  rcases Nat.eq_zero_or_pos k with rfl | hpos
  · -- the first element of `out` is somewhere in `array`, and nowhere else than in front
    have hmem : out[0] ∈ array := (hperm.mem_iff).mp (Array.getElem_mem hk)
    obtain ⟨m, hm, heq⟩ := Array.getElem_of_mem hmem
    rcases Nat.eq_zero_or_pos m with rfl | hmpos
    · exact heq.symm
    · have hpos := hagree m hmpos (by omega) hm
      rw [heq] at hpos
      exact absurd (getElem_inj_of_nodup hout (by omega) hk hpos) (by omega)
  · exact hagree k hpos hk hk'

/-- Every arrangement that agrees behind the counter is reached. -/
theorem exists_swaps_eq {i : ℕ} {array out : Array α} (hnodup : array.toList.Nodup)
    (hi : i < array.size) (hperm : out.Perm array)
    (hagree : ∀ k, i < k → ∀ (h : k < out.size) (h' : k < array.size), out[k] = array[k]) :
    ∃ j, InRange j (i + 1) ∧ swaps j i array = out := by
  induction i generalizing array with
  | zero => exact ⟨id, fun k _ => le_refl k, (eq_of_perm_of_agree hperm hnodup hagree).symm⟩
  | succ i ih =>
    have hout : out.toList.Nodup := ((Array.perm_iff_toList_perm.mp hperm).nodup_iff).mpr hnodup
    have hsize : out.size = array.size := hperm.size_eq
    -- the index of this turn is where the element is that has to go to the counter
    have hturn : i + 1 < out.size := by omega
    have hmem : out[i + 1] ∈ array := hperm.mem_iff.mp (Array.getElem_mem hturn)
    obtain ⟨m, hm, hmeq⟩ := Array.getElem_of_mem hmem
    have hmle : m ≤ i + 1 := by
      by_contra hgt
      have hat := hagree m (by omega) (by omega) hm
      rw [hmeq] at hat
      exact absurd (getElem_inj_of_nodup hout (by omega) (by omega) hat) (by omega)
    have hbound : i < (array.swapIfInBounds (i + 1) m).size := by
      rw [Array.size_swapIfInBounds]
      omega
    obtain ⟨j, hj, hswaps⟩ := ih (nodup_swapIfInBounds hnodup (i + 1) m) hbound
      (hperm.trans (swapIfInBounds_perm array (i + 1) m).symm) (by
        intro k hik hk hk'
        rw [Array.size_swapIfInBounds] at hk'
        rcases Nat.lt_or_eq_of_le (Nat.succ_le_of_lt hik) with hlt | heq
        · rw [Array.getElem_swapIfInBounds_of_ne_of_ne (by omega) (by omega)]
          exact hagree k hlt hk hk'
        · subst heq
          rw [Array.getElem_swapIfInBounds_left hm]
          exact hmeq.symm)
    refine ⟨fun k => if k = i + 1 then m else j k, ?_, ?_⟩
    · intro k hk
      by_cases hki : k = i + 1
      · simp only [hki]
        exact hmle
      · simp only [if_neg hki]
        exact hj k (by omega)
    · simp only [swaps, if_true]
      rw [← hswaps]
      exact swaps_congr fun k hk => if_neg (by omega)

/-! ## The shuffle -/

/-- The sequences of indices `j_i ≤ i`. No turn is made for `i = 0`, where the only index is 0. -/
abbrev Indices (n : ℕ) : Type := (i : Fin n) → Fin (i + 1)

namespace Indices

variable {n : ℕ} (j : Indices n)

/-- `j_i`. -/
def index (i : ℕ) : ℕ := if h : i < n then j ⟨i, h⟩ else 0

/-- Words for which `UniformRandom(0, i)` returns `j_i`. -/
def words (i : ℕ) : List UInt32 := [UInt32.ofNat (j.index i)]

theorem inRange : InRange j.index n := by
  intro i hi
  rw [index, dif_pos hi]
  exact Nat.le_of_lt_succ (j ⟨i, hi⟩).isLt

/-- The sequence with these indices. -/
def ofInRange {k : ℕ → ℕ} (hk : InRange k n) : Indices n :=
  fun i => ⟨k i, Nat.lt_succ_of_le (hk i i.isLt)⟩

theorem index_ofInRange {k : ℕ → ℕ} (hk : InRange k n) {i : ℕ} (hi : i < n) :
    (ofInRange hk).index i = k i := by
  rw [index, dif_pos hi, ofInRange]

variable {j}

theorem ext_index {j' : Indices n} (h : ∀ i, 0 < i → i < n → j.index i = j'.index i) : j = j' := by
  refine funext fun i => Fin.ext ?_
  rcases Nat.eq_zero_or_pos i with hzero | hpos
  · have hj := (j i).isLt
    have hj' := (j' i).isLt
    omega
  · have hi := h i hpos i.isLt
    rwa [index, index, dif_pos i.isLt, dif_pos i.isLt] at hi

end Indices

theorem shuffleFrom_eq {words : ℕ → List UInt32} {j : ℕ → ℕ} {i : ℕ} (hi : i < 2 ^ 32)
    (hj : InRange j (i + 1))
    (hwords : ∀ k, 0 < k → k ≤ i →
      uniformRandom32 (words k) 0 (UInt32.ofNat k) = .ok (UInt32.ofNat (j k)))
    (array : Array α) : shuffleFrom words i array = .ok (swaps j i array) := by
  induction i generalizing array with
  | zero => rfl
  | succ i ih =>
    have hturn := hj (i + 1) (Nat.lt_succ_self _)
    simp only [shuffleFrom, hwords (i + 1) (Nat.succ_pos i) (le_refl _), bind, Except.bind, swaps]
    rw [toNat_ofNat (by omega)]
    exact ih (by omega) (fun k hk => hj k (by omega)) (fun k hpos hk => hwords k hpos (by omega)) _

/-- What the shuffle returns depends on the indices alone. -/
theorem randomShuffle_eq {words : ℕ → List UInt32} {j : ℕ → ℕ} {array : Array α}
    (hpos : 0 < array.size) (hsize : array.size ≤ 2 ^ 32) (hj : InRange j array.size)
    (hwords : ∀ k, 0 < k → k < array.size →
      uniformRandom32 (words k) 0 (UInt32.ofNat k) = .ok (UInt32.ofNat (j k))) :
    randomShuffle words array = .ok (swaps j (array.size - 1) array) := by
  have hempty : array.isEmpty = false := by
    rw [Array.isEmpty_eq_false_iff, ← Array.size_pos_iff]
    exact hpos
  rw [randomShuffle, hempty, if_neg Bool.false_ne_true]
  exact shuffleFrom_eq (by omega) (fun k hk => hj k (by omega))
    (fun k hpos hk => hwords k hpos (by omega)) array

/-- The shuffle, for words that the sampling takes for these indices. -/
theorem randomShuffle_words {array : Array α} (hpos : 0 < array.size) (hsize : array.size < 2 ^ 32)
    (j : Indices array.size) :
    randomShuffle j.words array = .ok (swaps j.index (array.size - 1) array) :=
  randomShuffle_eq hpos (Nat.le_of_lt hsize) j.inRange fun k _ hk =>
    uniformRandom32_index (by omega) (j.inRange k hk)

/-- A loop that starts at `2 ^ 32 - 1` or above comes to the turn whose range wraps. -/
theorem shuffleFrom_full (words : ℕ → List UInt32) {i : ℕ} (hi : 2 ^ 32 - 1 ≤ i)
    (array : Array α) : ∃ stop, shuffleFrom words i array = .error stop := by
  induction i generalizing array with
  | zero => omega
  | succ i ih =>
    simp only [shuffleFrom]
    rcases Nat.lt_or_eq_of_le hi with hlt | heq
    · cases hdraw : uniformRandom32 (words (i + 1)) 0 (UInt32.ofNat (i + 1)) with
      | error stop => exact ⟨stop, rfl⟩
      | ok j => exact ih (by omega) _
    · rw [← heq, uniformRandom32_full]
      exact ⟨_, rfl⟩

/-- The shuffle does not return for `2 ^ 32` elements or more. -/
theorem randomShuffle_full (words : ℕ → List UInt32) {array : Array α}
    (hsize : 2 ^ 32 ≤ array.size) : ∃ stop, randomShuffle words array = .error stop := by
  rw [randomShuffle]
  split
  · exact ⟨_, rfl⟩
  · exact shuffleFrom_full words (by omega) array

theorem shuffleFrom_perm {words : ℕ → List UInt32} {i : ℕ} {array out : Array α}
    (h : shuffleFrom words i array = .ok out) : out.Perm array := by
  induction i generalizing array with
  | zero =>
    cases h
    exact .refl _
  | succ i ih =>
    rw [shuffleFrom] at h
    cases hdraw : uniformRandom32 (words (i + 1)) 0 (UInt32.ofNat (i + 1)) with
    | error stop =>
      rw [hdraw] at h
      cases h
    | ok j =>
      rw [hdraw] at h
      exact (ih h).trans (swapIfInBounds_perm _ _ _)

/-- Whatever words are drawn, a shuffle that returns has rearranged an array of a size that it
can deal with. -/
theorem randomShuffle_perm {words : ℕ → List UInt32} {array out : Array α}
    (h : randomShuffle words array = .ok out) :
    0 < array.size ∧ array.size < 2 ^ 32 ∧ out.Perm array := by
  refine ⟨?_, ?_, ?_⟩
  · rw [Array.size_pos_iff]
    rintro rfl
    cases h
  · by_contra hsize
    obtain ⟨stop, hstop⟩ := randomShuffle_full words (Nat.not_lt.mp hsize)
    rw [hstop] at h
    cases h
  · rw [randomShuffle] at h
    split at h
    · cases h
    · exact shuffleFrom_perm h

/-- The rearrangements of an array, as results of the shuffle. -/
def Rearranged (array : Array α) : Set (Except Exit (Array α)) :=
  {result | ∃ out : Array α, out.Perm array ∧ result = .ok out}

/-- Below that, the index sequences and the rearrangements correspond. -/
theorem bijOn_of_size_lt {array : Array α} (hpos : 0 < array.size)
    (hnodup : array.toList.Nodup) (hsize : array.size < 2 ^ 32) :
    Set.BijOn (fun j : Indices array.size => randomShuffle j.words array) Set.univ
      (Rearranged array) := by
  refine ⟨?_, ?_, ?_⟩
  · intro j _
    exact ⟨_, swaps_perm _ _ _, randomShuffle_words hpos hsize j⟩
  · intro j _ j' _ heq
    simp only [randomShuffle_words hpos hsize, Except.ok.injEq] at heq
    refine Indices.ext_index fun i hi hlt => ?_
    exact swaps_injective hnodup (by omega) (fun k hk => j.inRange k (by omega))
      (fun k hk => j'.inRange k (by omega)) heq i hi (by omega)
  · rintro _ ⟨out, hperm, rfl⟩
    have hagree : ∀ k, array.size - 1 < k → ∀ (h : k < out.size) (h' : k < array.size),
        out[k] = array[k] := fun k hk _ h' => absurd hk (by omega)
    obtain ⟨j, hj, hswaps⟩ := exists_swaps_eq hnodup (by omega) hperm hagree
    have hj' : InRange j array.size := fun k hk => hj k (by omega)
    refine ⟨.ofInRange hj', Set.mem_univ _, ?_⟩
    simp only [randomShuffle_words hpos hsize, Except.ok.injEq]
    rw [← hswaps]
    exact swaps_congr fun k hk => Indices.index_ofInRange hj' (by omega)

theorem not_bijOn_of_le_size {array : Array α} (hsize : 2 ^ 32 ≤ array.size) :
    ¬ Set.BijOn (fun j : Indices array.size => randomShuffle j.words array) Set.univ
      (Rearranged array) := by
  intro hbij
  obtain ⟨stop, hstop⟩ := randomShuffle_full (Indices.words fun _ : Fin array.size => 0) hsize
  obtain ⟨out, -, hout⟩ := hbij.mapsTo (Set.mem_univ fun _ => 0)
  simp only [hstop, reduceCtorEq] at hout

/-- **The shuffle is exact below `2 ^ 32` elements**: each rearrangement comes from one sequence of
indices. From there on it divides by zero. -/
theorem randomShuffle_exact_iff {array : Array α} (hpos : 0 < array.size)
    (hnodup : array.toList.Nodup) :
    Set.BijOn (fun j : Indices array.size => randomShuffle j.words array) Set.univ
      (Rearranged array) ↔ array.size < 2 ^ 32 :=
  ⟨fun hbij => Nat.lt_of_not_le fun hsize => not_bijOn_of_le_size hsize hbij,
    bijOn_of_size_lt hpos hnodup⟩

theorem randomShuffle_exact_three :
    Set.BijOn (fun j : Indices (#[1, 2, 3] : Array ℕ).size => randomShuffle j.words #[1, 2, 3])
      Set.univ (Rearranged #[1, 2, 3]) ↔ (#[1, 2, 3] : Array ℕ).size < 2 ^ 32 :=
  randomShuffle_exact_iff (by decide) (by decide)

theorem randomShuffle_not_exact :
    0 < (Array.range (2 ^ 32)).size ∧ (Array.range (2 ^ 32)).toList.Nodup ∧
      ¬ Set.BijOn (fun j : Indices (Array.range (2 ^ 32)).size =>
        randomShuffle j.words (Array.range (2 ^ 32))) Set.univ (Rearranged (Array.range (2 ^ 32))) := by
  refine ⟨?_, ?_, not_bijOn_of_le_size ?_⟩
  · rw [Array.size_range]
    decide
  · rw [Array.toList_range]
    exact List.nodup_range
  · rw [Array.size_range]

end OramCrypto

end ObliviousRam
