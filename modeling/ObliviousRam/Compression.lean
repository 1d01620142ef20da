import ObliviousRam.BlockBytes

set_option autoImplicit false

/-!
# Compression on the server

`DataCompress` and `DataDecompress` (`base/oram_utils.cc`) over LZ4, which is a parameter. LZ4 counts
in `int`, the two functions in `size_t`.

`DataDecompress` takes the length of its input twice for the room that its output needs: a block
that compresses to less than half of its size does not come back. It does not see this, as the
error of LZ4 is a negative number and becomes a large `size_t`, not zero.
-/

namespace ObliviousRam

/-- What the two functions call of LZ4: the result, and the bytes written to `dst`. -/
structure Lz4 where
  compressBound : (inputSize : ℤ) → ℤ
  compressDefault : (src : ByteString) → (srcSize dstCapacity : ℤ) → ℤ × ByteString
  decompressSafe : (src : ByteString) → (compressedSize dstCapacity : ℤ) → ℤ × ByteString

/-- A `size_t` as an `int`. -/
def asInt (n : ℕ) : ℤ :=
  if n % 2 ^ 32 < 2 ^ 31 then (n % 2 ^ 32 : ℕ) else (n % 2 ^ 32 : ℕ) - 2 ^ 32

/-- An `int` as a `size_t`. -/
def asSize (r : ℤ) : ℕ := (r % 2 ^ 64).toNat

/-- `DataCompress`: the bytes of `out`, and `*compressed_size`. -/
def dataCompress (Z : Lz4) (data : ByteString) : Except OramStatus (ByteString × ℕ) :=
  let maxAllowedSize := asSize (Z.compressBound (asInt data.length))
  let result := Z.compressDefault data (asInt data.length) (asInt maxAllowedSize)
  let res := asSize result.1
  if res = 0 then
    .error (.make .kExternalError "lz4 returned a zero compressed size" "DataCompress")
  else .ok (result.2, res)

/-- `DataDecompress`: the bytes of `out`, and `*decompressed_size`. -/
def dataDecompress (Z : Lz4) (data : ByteString) : Except OramStatus (ByteString × ℕ) :=
  let maxAllowedSize := data.length * 2 % 2 ^ 64
  let result := Z.decompressSafe data (asInt data.length) (asInt maxAllowedSize)
  let res := asSize result.1
  if res = 0 then
    .error (.make .kExternalError
      "lz4 returned a zero decompressed size (the input may be corrupted)" "DataDecompress")
  else .ok (result.2, res)

namespace Lz4

variable {Z : Lz4}

/-- What LZ4 makes of a whole input: its size, or 0. -/
def packed (Z : Lz4) (src : ByteString) : ℤ × ByteString :=
  Z.compressDefault src src.length (Z.compressBound src.length)

/-- What LZ4 answers to an input it is to decompress. -/
def answer (Z : Lz4) (data : ByteString) : ℤ :=
  (Z.decompressSafe data (asInt data.length) (asInt (data.length * 2 % 2 ^ 64))).1

/-- What LZ4 promises. -/
structure Lawful (Z : Lz4) : Prop where
  bound_eq : ∀ n, 0 ≤ n → n ≤ 0x7E000000 → Z.compressBound n = n + n / 255 + 16
  /-- 0, or the size of what was written -/
  compress_size : ∀ src size capacity,
    (Z.compressDefault src size capacity).1 = 0 ∨
    (Z.compressDefault src size capacity).1 =
      ((Z.compressDefault src size capacity).2.length : ℤ) ∧
    ((Z.compressDefault src size capacity).2.length : ℤ) ≤ capacity
  /-- with room enough, the original comes back -/
  roundtrip : ∀ src capacity room, 0 < (Z.compressDefault src src.length capacity).1 →
    (src.length : ℤ) ≤ room →
    Z.decompressSafe (Z.compressDefault src src.length capacity).2
      (Z.compressDefault src src.length capacity).2.length room = ((src.length : ℤ), src)
  /-- otherwise there is an error -/
  overflow : ∀ src capacity room, 0 < (Z.compressDefault src src.length capacity).1 →
    room < (src.length : ℤ) →
    (Z.decompressSafe (Z.compressDefault src src.length capacity).2
      (Z.compressDefault src src.length capacity).2.length room).1 < 0
  answer_int : ∀ src size room, -2 ^ 31 ≤ (Z.decompressSafe src size room).1 ∧
    (Z.decompressSafe src size room).1 < 2 ^ 31

/-- The bytes of a block come back from the server. -/
def RoundTrips (Z : Lz4) (block : ByteString) : Prop :=
  ∀ out size, dataCompress Z block = .ok (out, size) →
    dataDecompress Z (out.take size) = .ok (block, ORAM_BLOCK_SIZE)

/-- If LZ4 reports an error, then so does `DataDecompress`. -/
def Detects (Z : Lz4) (data : ByteString) : Prop :=
  Z.answer data < 0 → ∃ st, dataDecompress Z data = .error st

end Lz4

/-! ## Conversions

A negative result of LZ4 is an error. As a `size_t` it is a number above `2 ^ 63`, and
not zero: this is why the error goes unnoticed. -/

/-- A size below `2 ^ 31` is the same number as an `int`. -/
theorem asInt_of_lt {n : ℕ} (h : n < 2 ^ 31) : asInt n = n := by
  have hmod : n % 2 ^ 32 = n := Nat.mod_eq_of_lt (by omega)
  rw [asInt, hmod, if_pos h]

theorem asSize_of_nonneg {r : ℤ} (h : 0 ≤ r) (hlt : r < 2 ^ 31) : asSize r = r.toNat := by
  rw [asSize, Int.emod_eq_of_lt h (by omega)]

/-- A negative `int` is a large `size_t`. -/
theorem lt_asSize {r : ℤ} (h : r < 0) (hle : -2 ^ 31 ≤ r) : 2 ^ 63 < asSize r := by
  rw [asSize]
  omega

/-! ## The two functions

Whether a block comes back is decided by its compressed size alone: the room that
`DataDecompress` offers to LZ4 is twice that. -/

namespace Lz4

variable {Z : Lz4}

/-- `DataCompress` fails if LZ4 does. -/
theorem dataCompress_eq (hZ : Z.Lawful) {block : ByteString}
    (hlen : block.length = ORAM_BLOCK_SIZE) :
    ((Z.packed block).1 = 0 ∧ ∃ st, dataCompress Z block = .error st) ∨
    ((Z.packed block).1 = ((Z.packed block).2.length : ℤ) ∧ 0 < (Z.packed block).2.length ∧
      (Z.packed block).2.length ≤ 578 ∧
      dataCompress Z block = .ok ((Z.packed block).2, (Z.packed block).2.length)) := by
  have hlen : block.length = 560 := hlen
  have hbound : Z.compressBound block.length = 578 := by
    rw [hZ.bound_eq _ (by omega) (by omega), hlen]
    rfl
  have hint : asInt block.length = block.length := asInt_of_lt (by omega)
  have hcapacity :
      asInt (asSize (Z.compressBound block.length)) = Z.compressBound block.length := by
    rw [hbound]
    rfl
  have hrun : dataCompress Z block = if asSize (Z.packed block).1 = 0 then
      .error (.make .kExternalError "lz4 returned a zero compressed size" "DataCompress")
      else .ok ((Z.packed block).2, asSize (Z.packed block).1) := by
    simp only [dataCompress, hint, hcapacity, packed]
    rfl
  have hsize : (Z.packed block).1 = 0 ∨
      (Z.packed block).1 = ((Z.packed block).2.length : ℤ) ∧
        ((Z.packed block).2.length : ℤ) ≤ 578 := by
    rw [← hbound]
    exact hZ.compress_size block block.length (Z.compressBound block.length)
  rw [hrun]
  by_cases hzero : (Z.packed block).1 = 0
  · rw [hzero]
    exact .inl ⟨rfl, _, rfl⟩
  · obtain ⟨heq, hle⟩ := hsize.resolve_left hzero
    have hpos : 0 < (Z.packed block).2.length := by omega
    have hres : asSize (Z.packed block).1 = (Z.packed block).2.length := by
      rw [heq, asSize_of_nonneg (by omega) (by omega), Int.toNat_natCast]
    exact .inr ⟨heq, hpos, by omega, by rw [hres, if_neg (Nat.pos_iff_ne_zero.mp hpos)]⟩

/-- `DataDecompress` takes every answer but zero for a size. -/
theorem dataDecompress_of_ne_zero (hZ : Z.Lawful) {data : ByteString} (h : Z.answer data ≠ 0) :
    dataDecompress Z data =
      .ok ((Z.decompressSafe data (asInt data.length) (asInt (data.length * 2 % 2 ^ 64))).2,
        asSize (Z.answer data)) := by
  have hint := hZ.answer_int data (asInt data.length) (asInt (data.length * 2 % 2 ^ 64))
  rw [← answer] at hint
  have hne : asSize (Z.answer data) ≠ 0 := by
    rcases lt_or_gt_of_ne h with hneg | hpos
    · have := lt_asSize hneg hint.1
      omega
    · rw [asSize_of_nonneg hpos.le hint.2]
      omega
  exact if_neg hne

/-- An error of LZ4 is never seen. -/
theorem detects_iff (hZ : Z.Lawful) (data : ByteString) : Z.Detects data ↔ 0 ≤ Z.answer data := by
  constructor
  · intro hdetects
    by_contra hneg
    obtain ⟨st, hst⟩ := hdetects (not_le.mp hneg)
    rw [dataDecompress_of_ne_zero hZ (fun h => hneg h.ge)] at hst
    cases hst
  · exact fun h hneg => absurd h (not_le.mpr hneg)

/-- A block comes back unless it compresses to less than half of its size. -/
theorem roundTrips_iff (hZ : Z.Lawful) {block : ByteString}
    (hlen : block.length = ORAM_BLOCK_SIZE) : Z.RoundTrips block ↔
      (Z.packed block).1 = 0 ∨ (ORAM_BLOCK_SIZE : ℤ) ≤ 2 * (Z.packed block).1 := by
  obtain ⟨hzero, st, hfail⟩ | ⟨heq, hpos, hle, hok⟩ := dataCompress_eq hZ hlen
  · refine iff_of_true (fun out size h => ?_) (.inl hzero)
    cases hfail.symm.trans h
  have hsize : 0 < (Z.packed block).1 := by omega
  have hint : asInt (Z.packed block).2.length = (Z.packed block).2.length := asInt_of_lt (by omega)
  have hroom : asInt ((Z.packed block).2.length * 2 % 2 ^ 64) =
      ((Z.packed block).2.length * 2 : ℕ) := by
    rw [Nat.mod_eq_of_lt (by omega), asInt_of_lt (by omega)]
  have hwhole : (Z.packed block).2.take (Z.packed block).2.length = (Z.packed block).2 :=
    List.take_length
  constructor
  · intro h
    have hback := h _ _ hok
    rw [hwhole] at hback
    by_contra hsmall
    -- too little room: the error is taken for a size
    have hneg : Z.answer (Z.packed block).2 < 0 := by
      rw [answer, hint, hroom]
      refine hZ.overflow block _ _ hsize ?_
      rw [hlen]
      omega
    rw [dataDecompress_of_ne_zero hZ hneg.ne] at hback
    have hhuge := lt_asSize hneg (hZ.answer_int _ _ _).1
    have hsame : asSize (Z.answer (Z.packed block).2) = 560 :=
      congrArg Prod.snd (Except.ok.inj hback)
    omega
  · rintro hhalf out size h
    cases hok.symm.trans h
    have hback : Z.decompressSafe (Z.packed block).2 (asInt (Z.packed block).2.length)
        (asInt ((Z.packed block).2.length * 2 % 2 ^ 64)) = ((block.length : ℤ), block) := by
      rw [hint, hroom]
      refine hZ.roundtrip block _ _ hsize ?_
      rw [hlen]
      omega
    have hanswer : Z.answer (Z.packed block).2 = 560 := by
      rw [answer, hback, hlen]
      rfl
    rw [hwhole, dataDecompress_of_ne_zero hZ (by rw [hanswer]; decide), hanswer, hback]
    rfl

/-- Blocks that LZ4 cannot halve travel as a `Codec` promises. -/
theorem decompress_compress (hZ : Z.Lawful) {block : ByteString}
    (hlen : block.length = ORAM_BLOCK_SIZE) (h : (ORAM_BLOCK_SIZE : ℤ) ≤ 2 * (Z.packed block).1) :
    ∃ out size, dataCompress Z block = .ok (out, size) ∧
      dataDecompress Z (out.take size) = .ok (block, ORAM_BLOCK_SIZE) := by
  obtain ⟨hzero, -⟩ | ⟨-, -, -, hok⟩ := dataCompress_eq hZ hlen
  · rw [hzero] at h
    exact absurd h (by decide)
  · exact ⟨_, _, hok, (roundTrips_iff hZ hlen).mpr (.inr h) _ _ hok⟩

/-- **What compression loses.** A block comes back exactly if LZ4 refuses it or compresses it to no
less than half of its size, and `DataDecompress` reports what LZ4 reports exactly if that is no
error. -/
theorem compression_iff (hZ : Z.Lawful) :
    (∀ block : ByteString, block.length = ORAM_BLOCK_SIZE →
      (Z.RoundTrips block ↔
        (Z.packed block).1 = 0 ∨ (ORAM_BLOCK_SIZE : ℤ) ≤ 2 * (Z.packed block).1)) ∧
    ∀ data, Z.Detects data ↔ 0 ≤ Z.answer data :=
  ⟨fun _ hlen => roundTrips_iff hZ hlen, detects_iff hZ⟩

end Lz4

/-! ## A block of zeros -/

/-- The bytes of a block of zeros. -/
def zeroBytes : ByteString := List.replicate 560 0

@[simp]
theorem length_zeroBytes : zeroBytes.length = 560 := List.length_replicate

/-- What LZ4 makes of them: a literal, a match of 554 bytes, and the last five bytes. -/
def zeroPacked : ByteString := [0x1F, 0, 1, 0, 0xFF, 0xFF, 0x19, 0x50, 0, 0, 0, 0, 0]

/-- The beginning of a sequence of 560 literals. -/
def literalHeader : ByteString := [0xF0, 0xFF, 0xFF, 0x23]

/-- LZ4 where it finds no match but in the block of zeros. -/
def zeroRunLz4 : Lz4 where
  compressBound := fun inputSize => inputSize + inputSize / 255 + 16
  compressDefault := fun src _ dstCapacity =>
    if src = zeroBytes ∧ 13 ≤ dstCapacity then (13, zeroPacked)
    else if (src.length + 4 : ℕ) ≤ dstCapacity ∧ src.length ≤ 0x7E000000 then
      ((src.length + 4 : ℕ), literalHeader ++ src)
    else (0, [])
  decompressSafe := fun src _ dstCapacity =>
    if src = zeroPacked then
      if 560 ≤ dstCapacity then (560, zeroBytes) else (-8, [])
    else if src.take 4 = literalHeader ∧ src.length ≤ 0x7E000004 then
      if ((src.drop 4).length : ℤ) ≤ dstCapacity then ((src.drop 4).length, src.drop 4)
      else (-5, [])
    else (-1, [])

/-- What it answers to what it has made. -/
theorem zeroRunLz4_answers (src : ByteString) (size capacity : ℤ)
    (hpos : 0 < (zeroRunLz4.compressDefault src size capacity).1) (size' room : ℤ) :
    ∃ stop : ℤ, stop < 0 ∧
      zeroRunLz4.decompressSafe (zeroRunLz4.compressDefault src size capacity).2 size' room =
        if (src.length : ℤ) ≤ room then ((src.length : ℤ), src) else (stop, []) := by
  simp only [zeroRunLz4] at hpos ⊢
  split at hpos
  next hzero =>
    obtain ⟨rfl, hcapacity⟩ := hzero
    refine ⟨-8, by decide, ?_⟩
    simp [hcapacity]
  next hzero =>
    split at hpos
    next hfits =>
      have hne : literalHeader ++ src ≠ zeroPacked := by
        intro h
        exact absurd (List.head_eq_of_cons_eq h) (by decide)
      have htake : (literalHeader ++ src).take 4 = literalHeader := rfl
      have hdrop : (literalHeader ++ src).drop 4 = src := rfl
      have hlen : (literalHeader ++ src).length ≤ 0x7E000004 := by
        have : (literalHeader ++ src).length = 4 + src.length := List.length_append
        omega
      refine ⟨-5, by decide, ?_⟩
      rw [if_neg hzero, if_pos hfits]
      simp only [if_neg hne, htake, hdrop, hlen, and_self, if_true]
    next => exact absurd hpos (lt_irrefl 0)

/-- This LZ4 keeps its promises. -/
theorem zeroRunLz4_lawful : zeroRunLz4.Lawful where
  bound_eq := fun _ _ _ => rfl
  compress_size := by
    intro src size capacity
    simp only [zeroRunLz4]
    split
    next h => exact .inr ⟨rfl, h.2⟩
    next =>
      split
      next h =>
        have hlen : (literalHeader ++ src).length = src.length + 4 := by
          rw [List.length_append, Nat.add_comm]
          rfl
        exact .inr ⟨by rw [hlen], by rw [hlen]; exact h.1⟩
      next => exact .inl rfl
  roundtrip := by
    intro src capacity room hpos hroom
    obtain ⟨stop, -, hrun⟩ := zeroRunLz4_answers src _ capacity hpos
      (zeroRunLz4.compressDefault src src.length capacity).2.length room
    rw [hrun, if_pos hroom]
  overflow := by
    intro src capacity room hpos hroom
    obtain ⟨stop, hstop, hrun⟩ := zeroRunLz4_answers src _ capacity hpos
      (zeroRunLz4.compressDefault src src.length capacity).2.length room
    rw [hrun, if_neg (not_le.mpr hroom)]
    exact hstop
  answer_int := by
    intro src size room
    simp only [zeroRunLz4]
    split
    · split <;> decide
    · split
      next h =>
        split
        · have hlen : (src.drop 4).length = src.length - 4 := List.length_drop
          have hle := h.2
          constructor
          · simp only
            omega
          · simp only
            omega
        · decide
      next => decide

theorem compression_iff_zero :
    (∀ block : ByteString, block.length = ORAM_BLOCK_SIZE →
      (zeroRunLz4.RoundTrips block ↔ (zeroRunLz4.packed block).1 = 0 ∨
        (ORAM_BLOCK_SIZE : ℤ) ≤ 2 * (zeroRunLz4.packed block).1)) ∧
    ∀ data, zeroRunLz4.Detects data ↔ 0 ≤ zeroRunLz4.answer data :=
  Lz4.compression_iff zeroRunLz4_lawful

/-- The block of zeros is lost: `DataDecompress` returns `OK` with a size of nearly `2 ^ 64`. -/
theorem compression_loses_zeros :
    zeroRunLz4.Lawful ∧ zeroBytes.length = ORAM_BLOCK_SIZE ∧
      dataCompress zeroRunLz4 zeroBytes = .ok (zeroPacked, 13) ∧
      dataDecompress zeroRunLz4 zeroPacked = .ok ([], 2 ^ 64 - 8) ∧
      ¬ zeroRunLz4.RoundTrips zeroBytes ∧ ¬ zeroRunLz4.Detects zeroPacked := by
  have hlen : zeroBytes.length = ORAM_BLOCK_SIZE := length_zeroBytes
  have hpacked : zeroRunLz4.packed zeroBytes = (13, zeroPacked) := by
    simp [Lz4.packed, zeroRunLz4]
  have hcompress : dataCompress zeroRunLz4 zeroBytes = .ok (zeroPacked, 13) := by
    obtain ⟨hzero, -⟩ | ⟨-, -, -, hok⟩ := Lz4.dataCompress_eq zeroRunLz4_lawful hlen
    · rw [hpacked] at hzero
      exact absurd hzero (by decide)
    · rw [hok, hpacked]
      rfl
  have hanswer : zeroRunLz4.answer zeroPacked = -8 := by
    simp [Lz4.answer, zeroRunLz4, zeroPacked, asInt]
  have hdecompress : dataDecompress zeroRunLz4 zeroPacked = .ok ([], 2 ^ 64 - 8) := by
    rw [Lz4.dataDecompress_of_ne_zero zeroRunLz4_lawful (by rw [hanswer]; decide), hanswer]
    rfl
  refine ⟨zeroRunLz4_lawful, hlen, hcompress, hdecompress, fun h => ?_, fun h => ?_⟩
  · cases hdecompress.symm.trans (h _ _ hcompress)
  · obtain ⟨st, hst⟩ := h (by decide)
    cases hdecompress.symm.trans hst

end ObliviousRam
