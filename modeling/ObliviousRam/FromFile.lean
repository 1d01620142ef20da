import ObliviousRam.Defs
import Mathlib.Data.List.Indexes

set_option autoImplicit false

/-!
# Blocks from a file

`OramController::FromFile` (`core/path_oram_controller.cc`): every line of a file becomes a block,
under its number as id, and `block_num_` becomes the number of lines. What a controller does next
with the blocks is its `FillWithData`.
-/

namespace ObliviousRam

variable {D : Type}

/-- The blocks that `FromFile` makes of the lines of a file: line `i` is the
payload of block `i`. -/
def fileBlocks (lines : List (D × ℕ)) : List (OramBlock D) :=
  lines.mapIdx fun i line => ⟨⟨i, .kNormal, line.2⟩, line.1⟩

/-- Line `i` under id `i`. -/
theorem getElem?_fileBlocks (lines : List (D × ℕ)) (i : ℕ) :
    (fileBlocks lines)[i]? = lines[i]?.map fun line => ⟨⟨i, .kNormal, line.2⟩, line.1⟩ :=
  List.getElem?_mapIdx

theorem length_fileBlocks (lines : List (D × ℕ)) : (fileBlocks lines).length = lines.length :=
  List.length_mapIdx

/-- Every line becomes a real block, so none of them is skipped by a load. -/
theorem isNormal_fileBlocks {lines : List (D × ℕ)} {b : OramBlock D} (hb : b ∈ fileBlocks lines) :
    b.isNormal = true := by
  obtain ⟨i, hi⟩ := List.mem_iff_getElem?.mp hb
  rw [getElem?_fileBlocks, Option.map_eq_some_iff] at hi
  obtain ⟨line, -, rfl⟩ := hi
  rfl

/-- The ids are the numbers of the lines, in order. -/
theorem map_id_fileBlocks (lines : List (D × ℕ)) :
    (fileBlocks lines).map OramBlock.id = List.range lines.length := by
  apply List.ext_getElem?
  intro i
  rw [List.getElem?_map, getElem?_fileBlocks]
  by_cases hi : i < lines.length
  · rw [List.getElem?_eq_getElem hi, List.getElem?_range hi]
    rfl
  · rw [List.getElem?_eq_none (Nat.not_lt.mp hi), List.getElem?_eq_none]
    · rfl
    · rw [List.length_range]
      exact Nat.not_lt.mp hi

/-- A file never gives an id twice, which is what the loads ask of their data. -/
theorem nodup_fileBlocks (lines : List (D × ℕ)) :
    ((fileBlocks lines).map OramBlock.id).Nodup := by
  rw [map_id_fileBlocks]
  exact List.nodup_range

end ObliviousRam
