import Mathlib.Data.List.Range
import Mathlib.Logic.Function.Basic

set_option autoImplicit false

/-!
# Objects in memory

Where a C compiler puts the members of a struct, and what `memcpy` does to the bytes.

* `struct` — each member at the next multiple of its alignment, the whole padded to a multiple
  of the largest one.
* `Memory` — the bytes from some address on; `slice` reads, `memcpy` writes.
-/

namespace CLayout

/-! ## Types -/

/-- Size and alignment of a type. -/
structure CType where
  size : ℕ
  align : ℕ

/-- The next multiple of `align`. -/
def alignUp (pos align : ℕ) : ℕ := (pos + align - 1) / align * align

/-- The offsets of members from `pos` on, and the end of the last one. -/
def layout : ℕ → List CType → List ℕ × ℕ
  | pos, [] => ([], pos)
  | pos, t :: ts =>
    let offset := alignUp pos t.align
    (offset :: (layout (offset + t.size) ts).1, (layout (offset + t.size) ts).2)

/-- The alignment of a struct. -/
def maxAlign (members : List CType) : ℕ := (members.map CType.align).foldl max 1

/-- A struct. -/
def struct (members : List CType) : CType :=
  ⟨alignUp (layout 0 members).2 (maxAlign members), maxAlign members⟩

/-- The offset of member `i`. -/
def offsetOf (members : List CType) (i : ℕ) : ℕ := (layout 0 members).1.getD i 0

/-- An array of `n` elements. -/
def array (t : CType) (n : ℕ) : CType := ⟨n * t.size, t.align⟩

/-! ## Bytes

`memcpy` and `slice` are a write and a read of a range of bytes. The lemmas are the two
laws of memory for ranges: the same range gives what was written, a disjoint one what
was there. -/

/-- The bytes from an address on. -/
abbrev Memory : Type := ℕ → UInt8

/-- `n` bytes at an offset. -/
def slice (m : Memory) (offset n : ℕ) : List UInt8 := (List.range n).map fun i => m (offset + i)

/-- `memcpy` to an offset. -/
def memcpy (offset : ℕ) (src : List UInt8) (m : Memory) : Memory := fun p =>
  if offset ≤ p then src.getD (p - offset) (m p) else m p

variable {m m' : Memory} {offset n p : ℕ} {src : List UInt8}

/-- A slice has the length that was asked for. -/
@[simp]
theorem length_slice (m : Memory) (offset n : ℕ) : (slice m offset n).length = n := by
  simp [slice]

theorem getElem?_slice {i : ℕ} (hi : i < n) : (slice m offset n)[i]? = some (m (offset + i)) := by
  simp [slice, hi]

/-- A slice depends on its own bytes only. -/
theorem slice_congr (h : ∀ i, i < n → m (offset + i) = m' (offset + i)) :
    slice m offset n = slice m' offset n :=
  List.map_congr_left fun i hi => h i (List.mem_range.mp hi)

/-- `memcpy` changes nothing outside of its target. -/
theorem memcpy_outside (h : p < offset ∨ offset + src.length ≤ p) : memcpy offset src m p = m p := by
  rw [memcpy]
  split
  · rw [List.getD_eq_getElem?_getD, List.getElem?_eq_none (by omega), Option.getD_none]
  · rfl

theorem memcpy_inside (offset : ℕ) (m : Memory) {i : ℕ} (hi : i < src.length) :
    src[i]? = some (memcpy offset src m (offset + i)) := by
  rw [memcpy, if_pos (Nat.le_add_right _ _), Nat.add_sub_cancel_left,
    List.getD_eq_getElem?_getD, List.getElem?_eq_getElem hi, Option.getD_some]

/-- What was copied is read back. -/
theorem slice_memcpy_self (m : Memory) (offset : ℕ) (src : List UInt8) :
    slice (memcpy offset src m) offset src.length = src := by
  refine List.ext_getElem? fun i => ?_
  rcases Nat.lt_or_ge i src.length with hi | hi
  · rw [getElem?_slice hi, memcpy_inside offset m hi]
  · rw [List.getElem?_eq_none (by rw [length_slice]; exact hi), List.getElem?_eq_none hi]

/-- A slice that does not overlap with the target is as before. -/
theorem slice_memcpy_disjoint {offset' : ℕ}
    (h : offset + n ≤ offset' ∨ offset' + src.length ≤ offset) :
    slice (memcpy offset' src m) offset n = slice m offset n :=
  slice_congr fun i hi => memcpy_outside (by omega)

/-- Copying a slice to where it came from. -/
theorem memcpy_slice (m m' : Memory) (offset n : ℕ) {p : ℕ} (hp : offset ≤ p) (hn : p < offset + n) :
    memcpy offset (slice m offset n) m' p = m p := by
  obtain ⟨i, rfl⟩ := Nat.exists_eq_add_of_le hp
  have hi : i < n := by omega
  have hlen : i < (slice m offset n).length := by
    rw [length_slice]
    exact hi
  have hget := memcpy_inside offset m' hlen
  rw [getElem?_slice hi] at hget
  exact (Option.some.inj hget).symm

end CLayout
