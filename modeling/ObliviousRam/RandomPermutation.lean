import Mathlib.Data.FinEnum
import Mathlib.Data.Fintype.Perm
import Mathlib.Data.List.Permutation
import Mathlib.Data.Nat.Log
import ObliviousRam.RandomShuffle
import ObliviousRam.SqrtStorage

set_option autoImplicit false

/-!
# `RandomPermutation`

The cipher is a bijection on bit strings of every length, whatever the key. `RandomPermutation`
does not place element `i` where the cipher sends it: it swaps place `i` with that place, turn
after turn, in the array it is permuting. What comes out is a rearrangement, but the swaps of the
two ends of a transposition undo each other: for every bijection that is its own inverse the
identity vector comes out, so different bijections give one array.
-/

namespace ObliviousRam

namespace OramCrypto

variable {α : Type}

/-- `FPE_ff3_encrypt` under one key, on bit strings of every length. -/
abbrev Fpe : Type := (length : ℕ) → Equiv.Perm (BitVec length)

/-- `ord`: the logarithm to base `ORAM_RADIX`, rounded down. -/
def order (size : ℕ) : ℕ := Nat.log 2 size

/-- `bin.substr(bin.size() - ord)` of the 32 digits of `x`. -/
def truncated (ord : ℕ) (x : UInt32) : Except Exit (BitVec ord) :=
  if ord ≤ 32 then .ok (x.toBitVec.setWidth ord)
  else .error (.abort "std::out_of_range")

/-- An entry of `perm_buf`. -/
def encipher (fpe : Fpe) (ord : ℕ) (x : UInt32) : Except Exit UInt32 := do
  let bin ← truncated ord x
  .ok (UInt32.ofNat (fpe ord bin).toNat)

/-- The first `i` turns of the loop that permutes the array. -/
def permuteInPlace (permBuf : ℕ → ℕ) (array : Array α) : ℕ → Array α
  | 0 => array
  | i + 1 => (permuteInPlace permBuf array i).swapIfInBounds i (permBuf i)

/-- `RandomPermutation`, under the key that has been drawn. -/
def randomPermutation (fpe : Fpe) (array : Array UInt32) : Except Exit (Array UInt32) :=
  if array.size = 0 then
    .error (.status (.make .kInvalidArgument "The input array cannot be empty"
      "RandomPermutation"))
  else do
    let permBuf ← array.mapM (encipher fpe (order array.size))
    .ok (permuteInPlace (fun i => (permBuf.getD i 0).toNat) array array.size)

/-! ## The array is permuted

The loop swaps, and a sequence of swaps is a rearrangement. For this the cipher does not
matter. -/

/-- A swap rearranges, and so do any number of them. -/
theorem permuteInPlace_perm (permBuf : ℕ → ℕ) (array : Array α) (i : ℕ) :
    (permuteInPlace permBuf array i).Perm array := by
  induction i with
  | zero => exact .refl _
  | succ i ih => exact (swapIfInBounds_perm _ _ _).trans ih

/-- Only the entries that are looked at make a difference. -/
theorem permuteInPlace_congr {f g : ℕ → ℕ} {array : Array α} {i : ℕ} (h : ∀ k, k < i → f k = g k) :
    permuteInPlace f array i = permuteInPlace g array i := by
  induction i with
  | zero => rfl
  | succ i ih =>
    rw [permuteInPlace, permuteInPlace, ih fun k hk => h k (by omega), h i (Nat.lt_succ_self i)]

@[simp]
theorem size_permuteInPlace (permBuf : ℕ → ℕ) (array : Array α) (i : ℕ) :
    (permuteInPlace permBuf array i).size = array.size :=
  (permuteInPlace_perm permBuf array i).size_eq

/-! ## Whatever the cipher returns

The cipher is given the last `ord` digits of an element and returns as many. So every
entry of `perm_buf` is below a power of two that the size of the array reaches, and no
swap goes out of it. -/

/-- As many bits as it was given are all that `FPE_ff3_encrypt` is known to return. -/
abbrev BitCipher : Type := (call length : ℕ) → BitVec length → BitVec length

/-- Entry `call` of `perm_buf`. The bits of an empty string are read as 0. -/
def bufEntry (cipher : BitCipher) (ord call : ℕ) (x : UInt32) : Except Exit UInt32 := do
  let bin ← truncated ord x
  .ok (UInt32.ofNat (cipher call ord bin).toNat)

/-- `perm_buf`. -/
def permBuf (cipher : BitCipher) (array : Array UInt32) : Except Exit (Array UInt32) :=
  (Array.range array.size).mapM fun i =>
    bufEntry cipher (order array.size) i (array.getD i 0)

/-- `RandomPermutation`, with any cipher. -/
def randomPermutationBy (cipher : BitCipher) (array : Array UInt32) :
    Except Exit (Array UInt32) :=
  if array.size = 0 then
    .error (.status (.make .kInvalidArgument "The input array cannot be empty"
      "RandomPermutation"))
  else do
    let buf ← permBuf cipher array
    .ok (permuteInPlace (fun i => (buf.getD i 0).toNat) array array.size)

theorem map_getD_range (array : Array UInt32) :
    (Array.range array.size).map (array.getD · 0) = array := by
  refine Array.ext (by simp) fun i hi hi' => ?_
  simp [hi']

/-- The cipher under one key is such a cipher. -/
theorem randomPermutation_eq (fpe : Fpe) (array : Array UInt32) :
    randomPermutation fpe array = randomPermutationBy (fun _ length => fpe length) array := by
  have hbuf : array.mapM (encipher fpe (order array.size)) =
      permBuf (fun _ length => fpe length) array := by
    conv_lhs => rw [← map_getD_range array, Array.mapM_map]
    simp only [map_getD_range]
    rfl
  rw [randomPermutation, randomPermutationBy, hbuf]

/-- The number that the bits of the cipher are read as. -/
def bufValue (cipher : BitCipher) (ord call : ℕ) (x : UInt32) : UInt32 :=
  UInt32.ofNat (cipher call ord (x.toBitVec.setWidth ord)).toNat

/-- The cipher works on strings of `ord` bits, so its values have no more. -/
theorem bufValue_lt (cipher : BitCipher) (ord call : ℕ) (x : UInt32) :
    (bufValue cipher ord call x).toNat < 2 ^ ord :=
  Nat.lt_of_le_of_lt (Nat.mod_le _ _) (BitVec.isLt _)

/-- With at most 32 digits to take, there are enough of them. -/
theorem bufEntry_ok (cipher : BitCipher) {ord : ℕ} (hord : ord ≤ 32) (call : ℕ) (x : UInt32) :
    bufEntry cipher ord call x = .ok (bufValue cipher ord call x) := by
  simp only [bufEntry, truncated, if_pos hord]
  rfl

theorem order_le {size : ℕ} (hsize : size < 2 ^ 32) : order size ≤ 32 :=
  Nat.le_of_lt (Nat.log_lt_of_lt_pow' (by decide) hsize)

/-- `perm_buf` is filled, entry by entry. -/
theorem permBuf_ok (cipher : BitCipher) {array : Array UInt32} (hord : order array.size ≤ 32) :
    permBuf cipher array = .ok ((Array.range array.size).map fun i =>
      bufValue cipher (order array.size) i (array.getD i 0)) := by
  simp only [permBuf, bufEntry_ok cipher hord]
  exact Array.mapM_pure

/-- Every entry of `perm_buf` is a place of the array. -/
theorem permBuf_lt (cipher : BitCipher) {array : Array UInt32} (hpos : 0 < array.size)
    (hsize : array.size < 2 ^ 32) :
    ∃ buf, permBuf cipher array = .ok buf ∧
      ∀ i, i < array.size → (buf.getD i 0).toNat < array.size := by
  refine ⟨_, permBuf_ok cipher (order_le hsize), fun i hi => ?_⟩
  · simp only [Array.getD_eq_getD_getElem?, Array.getElem?_map, Array.getElem?_range, if_pos hi,
      Option.map_some, Option.getD_some]
    exact Nat.lt_of_lt_of_le (bufValue_lt _ _ _ _)
      (Nat.pow_log_le_self 2 (Nat.pos_iff_ne_zero.mp hpos))

/-- `PermuteBy` with a permutation drops and duplicates nothing. -/
theorem permuteBy_perm {perm : List ℕ} {arr : List α}
    (hperm : perm.Perm (List.range arr.length)) : (permuteBy perm arr).Perm arr := by
  have hlen : perm.length = arr.length := hperm.length_eq.trans List.length_range
  have hplaced : perm.map ((permuteBy perm arr)[·]?) = arr.map some := by
    refine List.ext_getElem (by simp [hlen]) fun i hi hi' => ?_
    have hip : i < perm.length := by simpa using hi
    have hia : i < arr.length := hlen ▸ hip
    rw [List.getElem_map, List.getElem_map,
      getElem?_permuteBy hperm (List.getElem?_eq_getElem hip), List.getElem?_eq_getElem hia]
  have hall : (List.range arr.length).map ((permuteBy perm arr)[·]?) =
      (permuteBy perm arr).map some := by
    refine List.ext_getElem (by simp [length_permuteBy]) fun i hi hi' => ?_
    simp
  refine (List.map_perm_map_iff (Option.some_injective α)).mp ?_
  rw [← hall, ← hplaced]
  exact (hperm.map _).symm

/-- **`RandomPermutation` rearranges** the numbers below the size, whatever the cipher returns:
no swap leaves the array, and `PermuteBy` with the result loses nothing. -/
theorem randomPermutationBy_rearranges (cipher : BitCipher) {array : Array UInt32}
    (hpos : 0 < array.size) (hsize : array.size < 2 ^ 32)
    (hentries : (array.toList.map UInt32.toNat).Perm (List.range array.size)) :
    ∃ buf out, permBuf cipher array = .ok buf ∧
      (∀ i, i < array.size → (buf.getD i 0).toNat < array.size) ∧
      randomPermutationBy cipher array = .ok out ∧ out.Perm array ∧
      ∀ {α : Type} (arr : List α), arr.length = array.size →
        (permuteBy (out.toList.map UInt32.toNat) arr).Perm arr := by
  obtain ⟨buf, hbuf, hlt⟩ := permBuf_lt cipher hpos hsize
  have hperm := permuteInPlace_perm (fun i => (buf.getD i 0).toNat) array array.size
  refine ⟨buf, _, hbuf, hlt, ?_, hperm, fun arr harr => permuteBy_perm ?_⟩
  · rw [randomPermutationBy, if_neg (Nat.pos_iff_ne_zero.mp hpos), hbuf]
    rfl
  · rw [harr]
    exact ((Array.perm_iff_toList_perm.mp hperm).map UInt32.toNat).trans hentries

/-- Three elements, of which the cipher sees one digit. -/
theorem randomPermutationBy_rearranges_three :
    ∃ buf out, permBuf (fun _ _ bits => ~~~bits) #[2, 0, 1] = .ok buf ∧
      (∀ i, i < 3 → (buf.getD i 0).toNat < 3) ∧
      randomPermutationBy (fun _ _ bits => ~~~bits) #[2, 0, 1] = .ok out ∧
      out.Perm #[2, 0, 1] ∧
      ∀ {α : Type} (arr : List α), arr.length = 3 →
        (permuteBy (out.toList.map UInt32.toNat) arr).Perm arr :=
  @randomPermutationBy_rearranges _ #[2, 0, 1] (by decide) (by decide) (by decide)

/-! ## On the identity vector -/

/-- `CreateVec`: the identity vector. -/
def createVec (size : ℕ) : Array UInt32 := (Array.range size).map UInt32.ofNat

@[simp]
theorem size_createVec (size : ℕ) : (createVec size).size = size := by
  simp [createVec]

/-- The identity vector has every element once. -/
theorem nodup_createVec {size : ℕ} (hsize : size ≤ 2 ^ 32) : (createVec size).toList.Nodup := by
  rw [createVec, Array.toList_map, Array.toList_range]
  refine List.nodup_range.map_on fun i hi j hj heq => ?_
  rw [← toNat_ofNat (Nat.lt_of_lt_of_le (List.mem_range.mp hi) hsize), heq,
    toNat_ofNat (Nat.lt_of_lt_of_le (List.mem_range.mp hj) hsize)]

/-- A cipher that is `π` on the strings of `k` digits. -/
def Fpe.ofLength {k : ℕ} (π : Equiv.Perm (BitVec k)) : Fpe :=
  Function.update (fun _ => Equiv.refl _) k π

/-- `π` as a function on the places of a vector of `2 ^ k` elements. -/
def place {k : ℕ} (π : Equiv.Perm (BitVec k)) (i : ℕ) : ℕ := (π (BitVec.ofNat k i)).toNat

theorem place_lt {k : ℕ} (π : Equiv.Perm (BitVec k)) (i : ℕ) : place π i < 2 ^ k := BitVec.isLt _

theorem getD_createVec {size i : ℕ} (hi : i < size) :
    (createVec size).getD i 0 = UInt32.ofNat i := by
  simp [createVec, Array.getD_eq_getD_getElem?, hi]

/-- On `k` bits the cipher is `π`. -/
theorem bufValue_ofLength {k : ℕ} (hk : k ≤ 32) (π : Equiv.Perm (BitVec k)) (call i : ℕ) :
    bufValue (fun _ length => Fpe.ofLength π length) k call (UInt32.ofNat i) =
      UInt32.ofNat (place π i) := by
  have hbits : (UInt32.ofNat i).toBitVec.setWidth k = BitVec.ofNat k i := by
    refine BitVec.eq_of_toNat_eq ?_
    rw [BitVec.toNat_setWidth, BitVec.toNat_ofNat]
    exact Nat.mod_mod_of_dvd i (Nat.pow_dvd_pow 2 hk)
  simp only [bufValue, Fpe.ofLength, Function.update_self, hbits, place]

/-- A vector of `2 ^ k` elements takes `k` bits. -/
theorem order_createVec (k : ℕ) : order (createVec (2 ^ k)).size = k := by
  rw [size_createVec]
  exact Nat.log_pow (Nat.lt_succ_self 1) k

theorem size_createVec_pos (k : ℕ) : 0 < (createVec (2 ^ k)).size := by
  rw [size_createVec]
  exact Nat.two_pow_pos k

/-- On the identity vector `RandomPermutation` swaps as `π` says. -/
theorem randomPermutation_createVec {k : ℕ} (hk : k ≤ 32) (π : Equiv.Perm (BitVec k)) :
    randomPermutation (.ofLength π) (createVec (2 ^ k)) =
      .ok (permuteInPlace (place π) (createVec (2 ^ k)) (2 ^ k)) := by
  rw [randomPermutation_eq, randomPermutationBy, if_neg (size_createVec_pos k).ne',
    permBuf_ok _ ((order_createVec k).le.trans hk), order_createVec]
  simp only [bind, Except.bind, size_createVec]
  refine congrArg Except.ok (permuteInPlace_congr fun i hi => ?_)
  have hplace : place π i < 2 ^ 32 :=
    Nat.lt_of_lt_of_le (place_lt π i) (Nat.pow_le_pow_right (by decide) hk)
  simp only [Array.getD_eq_getD_getElem?, Array.getElem?_map, Array.getElem?_range, if_pos hi,
    Option.map_some, Option.getD_some]
  rw [← Array.getD_eq_getD_getElem?, getD_createVec hi, bufValue_ofLength hk]
  exact toNat_ofNat hplace

theorem mapM_error {β ε : Type} {f : α → Except ε β} {stop : ε} (h : ∀ x, f x = .error stop)
    {array : Array α} (hpos : 0 < array.size) : array.mapM f = .error stop := by
  rw [Array.mapM_eq_mapM_toList]
  cases hlist : array.toList with
  | nil =>
    rw [← Array.length_toList, hlist] at hpos
    exact absurd hpos (Nat.lt_irrefl 0)
  | cons x xs =>
    rw [List.mapM_cons, h]
    rfl

/-- With more than 32 digits to take, there are not enough of them. -/
theorem randomPermutation_long {k : ℕ} (hk : 32 < k) (fpe : Fpe) :
    randomPermutation fpe (createVec (2 ^ k)) = .error (.abort "std::out_of_range") := by
  have hentry (x : UInt32) : encipher fpe k x = .error (.abort "std::out_of_range") := by
    simp only [encipher, truncated, if_neg (Nat.not_le.mpr hk)]
    rfl
  rw [randomPermutation, if_neg (size_createVec_pos k).ne', order_createVec,
    mapM_error hentry (size_createVec_pos k)]
  rfl

/-! ## What is lost

Two bijections that are their own inverses give the same array, so the map from
bijections to arrays is not injective. As there are as many of the one as of the other,
some array is not reached at all. -/

/-- Half way through a bijection that is its own inverse, the pairs that the counter separates are
exchanged. -/
theorem getElem_permuteInPlace_involutive {n i : ℕ} {f : ℕ → ℕ} {array : Array α}
    (hsize : array.size = n) (hf : ∀ k, k < n → f k < n) (hinv : ∀ k, k < n → f (f k) = k)
    (hi : i ≤ n) {k : ℕ} (hk : k < n) :
    getElem (permuteInPlace f array i) k (by rw [size_permuteInPlace, hsize]; exact hk) =
      if k < i ↔ f k < i then array[k] else getElem array (f k) (by rw [hsize]; exact hf k hk) := by
  induction i generalizing k with
  | zero => simp only [permuteInPlace, Nat.not_lt_zero, if_true]
  | succ i ih =>
    have hin : i < (permuteInPlace f array i).size := by
      rw [size_permuteInPlace, hsize]
      exact hi
    have hfin : f i < (permuteInPlace f array i).size := by
      rw [size_permuteInPlace, hsize]
      exact hf i hi
    simp only [permuteInPlace]
    by_cases hki : k = i
    · subst hki
      rw [Array.getElem_swapIfInBounds_left hfin, ih (Nat.le_of_lt hi) (hf k hk)]
      simp only [hinv k hk]
      by_cases hfk : f k = k
      · simp only [hfk, ite_self]
      · grind
    · by_cases hkf : k = f i
      · subst hkf
        rw [Array.getElem_swapIfInBounds_right hin, ih (Nat.le_of_lt hi) hi]
        simp only [hinv i hi]
        grind
      · rw [Array.getElem_swapIfInBounds_of_ne_of_ne hki hkf, ih (Nat.le_of_lt hi) hk]
        have hfk : f k ≠ i := fun h => hkf (by rw [← h, hinv k hk])
        grind

/-- If `f` is its own inverse, the second swap of each pair undoes the first. -/
theorem permuteInPlace_involutive {n : ℕ} {f : ℕ → ℕ} {array : Array α}
    (hsize : array.size = n) (hf : ∀ k, k < n → f k < n) (hinv : ∀ k, k < n → f (f k) = k) :
    permuteInPlace f array n = array := by
  refine Array.ext (size_permuteInPlace _ _ _) fun k hk hk' => ?_
  have hkn : k < n := by
    rw [← hsize]
    exact hk'
  rw [getElem_permuteInPlace_involutive hsize hf hinv (le_refl n) hkn,
    if_pos (iff_of_true hkn (hf k hkn))]

/-- A bijection that is its own inverse leaves the identity vector as it is. -/
theorem randomPermutation_involutive {k : ℕ} (hk : k ≤ 32) {π : Equiv.Perm (BitVec k)}
    (hinv : ∀ x, π (π x) = x) :
    randomPermutation (.ofLength π) (createVec (2 ^ k)) = .ok (createVec (2 ^ k)) := by
  rw [randomPermutation_createVec hk]
  refine congrArg Except.ok (permuteInPlace_involutive (size_createVec _)
    (fun i _ => place_lt π i) fun i hi => ?_)
  rw [place, place, BitVec.ofNat_toNat, BitVec.setWidth_eq, hinv, BitVec.toNat_ofNat,
    Nat.mod_eq_of_lt hi]

/-- Two bijections of one array: that of nothing and that of the first two elements. -/
theorem randomPermutation_swap_eq_refl (k : ℕ) :
    randomPermutation (.ofLength (Equiv.swap 0 1 : Equiv.Perm (BitVec k))) (createVec (2 ^ k)) =
      randomPermutation (.ofLength (Equiv.refl (BitVec k))) (createVec (2 ^ k)) := by
  rcases Nat.lt_or_ge 32 k with hlong | hk
  · rw [randomPermutation_long hlong, randomPermutation_long hlong]
  · rw [randomPermutation_involutive hk (Equiv.congr_fun (Equiv.swap_swap 0 1)),
      randomPermutation_involutive hk fun x => rfl]

theorem not_injective_randomPermutation (k : ℕ) :
    ¬ Function.Injective fun π : Equiv.Perm (BitVec (k + 1)) =>
      randomPermutation (.ofLength π) (createVec (2 ^ (k + 1))) := by
  intro hinj
  have heq := hinj (randomPermutation_swap_eq_refl (k + 1))
  have hone := Equiv.congr_fun heq 0
  rw [Equiv.swap_apply_left, Equiv.refl_apply] at hone
  exact absurd (congrArg BitVec.toNat hone) (by simp)

/-- There are as many bijections as rearrangements; if two of them share one, some rearrangement
is left over. -/
theorem exists_not_reached (k : ℕ) :
    ∃ out : Array UInt32, out.Perm (createVec (2 ^ (k + 1))) ∧
      ∀ π : Equiv.Perm (BitVec (k + 1)),
        randomPermutation (.ofLength π) (createVec (2 ^ (k + 1))) ≠ .ok out := by
  rcases Nat.lt_or_ge 32 (k + 1) with hlong | hk
  · refine ⟨_, .refl _, fun π h => ?_⟩
    cases (randomPermutation_long hlong _).symm.trans h
  by_contra hall
  push Not at hall
  let reached : Equiv.Perm (BitVec (k + 1)) → List UInt32 := fun π =>
    (permuteInPlace (place π) (createVec (2 ^ (k + 1))) (2 ^ (k + 1))).toList
  have hloss : ¬ Function.Injective reached := by
    intro hinj
    refine not_injective_randomPermutation k fun π π' heq => hinj ?_
    simp only [randomPermutation_createVec hk, Except.ok.injEq] at heq
    simp only [reached, heq]
  have hnodup := nodup_createVec (Nat.pow_le_pow_right (Nat.succ_pos 1) hk)
  have hcover : (createVec (2 ^ (k + 1))).toList.permutations.toFinset ⊆
      Finset.univ.image reached := by
    intro out hout
    rw [List.mem_toFinset, List.mem_permutations] at hout
    obtain ⟨π, hπ⟩ := hall out.toArray (Array.perm_iff_toList_perm.mpr hout)
    simp only [randomPermutation_createVec hk, Except.ok.injEq] at hπ
    refine Finset.mem_image.mpr ⟨π, Finset.mem_univ π, ?_⟩
    simp only [reached, hπ]
  have hcard : (Finset.univ.image reached).card < (2 ^ (k + 1)).factorial := by
    have hperms : (Finset.univ : Finset (Equiv.Perm (BitVec (k + 1)))).card =
        (2 ^ (k + 1)).factorial := by
      rw [Finset.card_univ, Fintype.card_perm, ← FinEnum.card_eq_fintypeCard]
      rfl
    rw [← hperms]
    refine Nat.lt_of_le_of_ne Finset.card_image_le fun heq => hloss ?_
    exact Set.injOn_univ.mp (by simpa using Finset.card_image_iff.mp heq)
  have hle := Finset.card_le_card hcover
  rw [List.toFinset_card_of_nodup (List.nodup_permutations _ hnodup), List.length_permutations,
    Array.length_toList, size_createVec] at hle
  exact absurd hle (Nat.not_le.mpr hcard)

/-- **The randomness of the cipher is not passed on**: for no power of two does the array tell
which bijection the cipher was, and some rearrangement of the tags is that of no bijection. -/
theorem randomPermutation_not_injective (k : ℕ) :
    ¬ Function.Injective (fun π : Equiv.Perm (BitVec (k + 1)) =>
        randomPermutation (.ofLength π) (createVec (2 ^ (k + 1)))) ∧
      ∃ out : Array UInt32, out.Perm (createVec (2 ^ (k + 1))) ∧
        ∀ π : Equiv.Perm (BitVec (k + 1)),
          randomPermutation (.ofLength π) (createVec (2 ^ (k + 1))) ≠ .ok out :=
  ⟨not_injective_randomPermutation k, exists_not_reached k⟩

/-- Of two elements, the array is always the identity vector. -/
theorem randomPermutation_two_not_injective :
    ¬ Function.Injective fun π : Equiv.Perm (BitVec 1) =>
      randomPermutation (.ofLength π) (createVec 2) := by
  intro hinj
  have heq : (Equiv.swap 0 1 : Equiv.Perm (BitVec 1)) = Equiv.refl _ :=
    hinj (randomPermutation_swap_eq_refl 1)
  exact absurd (Equiv.congr_fun heq 0) (by decide)

end OramCrypto

end ObliviousRam
