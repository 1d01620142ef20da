import Mathlib.Data.List.TakeWhile
import ObliviousRam.Delimited
import ObliviousRam.OdsCache

set_option autoImplicit false

/-!
# A node of the dictionary as text

`TreeNode::ToString` and `TreeNode::FromString` (`base/ods_objects.cc`): the fields with underscores
between them. The value is written as it is. If it has an underscore in it there are too many
fields, and the process ends.
-/

namespace ObliviousRam

open Delimited

/-- `std::to_string` of an unsigned number. -/
def toDecimal (n : ℕ) : List Char := Nat.toDigits 10 n

/-- `isspace`. -/
def isSpace (c : Char) : Bool := c = ' ' || ('\t'.toNat ≤ c.toNat && c.toNat ≤ '\r'.toNat)

/-- The sign that a number may begin with. -/
def readSign : List Char → Bool × List Char
  | '-' :: cs => (true, cs)
  | '+' :: cs => (false, cs)
  | cs => (false, cs)

/-- `std::stoul`: white space, a sign and digits; what follows is left. -/
def stoul (str : List Char) : Except Exit ℕ :=
  let (negative, rest) := readSign (str.dropWhile isSpace)
  let digits := rest.takeWhile Char.isDigit
  let n := Nat.ofDigitChars 10 digits 0
  if digits = [] then .error (.abort "std::invalid_argument")
  else if 2 ^ 64 ≤ n then .error (.abort "std::out_of_range")
  else .ok (if negative then (2 ^ 64 - n) % 2 ^ 64 else n)

/-- `std::stoul`, stored in a `uint32_t`. -/
def stoul32 (str : List Char) : Except Exit ℕ := (stoul str).map (· % 2 ^ 32)

namespace TreeNode

/-- `ToString`. -/
def toString (x : TreeNode (List Char)) : List Char :=
  (toDecimal x.id ++ ['_']) ++ (toDecimal x.kvPair.1 ++ ['_']) ++ (x.kvPair.2 ++ ['_']) ++
    (toDecimal x.leftId ++ ['_']) ++ (toDecimal x.rightId ++ ['_']) ++
    (toDecimal x.leftHeight ++ ['_']) ++ toDecimal x.rightHeight

/-- `FromString`. -/
def fromString (str : List Char) : Except Exit (TreeNode (List Char)) :=
  match split '_' str with
  | [id, key, value, leftId, rightId, leftHeight, rightHeight] => do
    let id ← stoul32 id
    let key ← stoul32 key
    let leftId ← stoul32 leftId
    let rightId ← stoul32 rightId
    let leftHeight ← stoul32 leftHeight
    let rightHeight ← stoul32 rightHeight
    .ok ⟨id, (key, value), leftId, rightId, leftHeight, rightHeight⟩
  | _ => .error (.abort "Deserialized string is corrupted.")

/-- The numbers of a node are of type `uint32_t`. -/
structure Fits {V : Type} (x : TreeNode V) : Prop where
  id_lt : x.id < 2 ^ 32
  key_lt : x.kvPair.1 < 2 ^ 32
  leftId_lt : x.leftId < 2 ^ 32
  rightId_lt : x.rightId < 2 ^ 32
  leftHeight_lt : x.leftHeight < 2 ^ 32
  rightHeight_lt : x.rightHeight < 2 ^ 32

/-- The fields but the last. -/
def fields (x : TreeNode (List Char)) : List (List Char) :=
  [toDecimal x.id, toDecimal x.kvPair.1, x.kvPair.2, toDecimal x.leftId, toDecimal x.rightId,
    toDecimal x.leftHeight]

end TreeNode

/-! ## Numbers

Numbers are written in decimal and read by `std::stoul`, which skips spaces and stops at
what is no digit. For what was written there is neither. -/

theorem underscore_notMem_toDecimal (n : ℕ) : '_' ∉ toDecimal n := Nat.underscore_not_in_toDigits

theorem isDigit_of_mem_toDecimal {n : ℕ} {c : Char} (h : c ∈ toDecimal n) : c.isDigit = true :=
  Nat.isDigit_of_mem_toDigits (by decide) (by decide) h

theorem toDecimal_ne_nil (n : ℕ) : toDecimal n ≠ [] := Nat.toDigits_ne_nil

/-- A digit is neither white space nor a sign. -/
theorem not_isSpace_of_isDigit {c : Char} (h : c.isDigit = true) :
    isSpace c = false ∧ c ≠ '-' ∧ c ≠ '+' := by
  rw [Char.isDigit, Bool.and_eq_true, decide_eq_true_eq, decide_eq_true_eq] at h
  have hlow : 48 ≤ c.toNat := UInt32.le_iff_toNat_le.mp h.1
  refine ⟨?_, ?_, ?_⟩
  · have hblank : c ≠ ' ' := by
      rintro rfl
      exact absurd hlow (by decide)
    have hcontrol : 13 < c.toNat := Nat.lt_of_lt_of_le (by decide) hlow
    simp [isSpace, hblank, hcontrol]
  · rintro rfl
    exact absurd hlow (by decide)
  · rintro rfl
    exact absurd hlow (by decide)

/-- What `to_string` writes, `stoul` reads. -/
theorem stoul_toDecimal {n : ℕ} (hn : n < 2 ^ 64) : stoul (toDecimal n) = .ok n := by
  obtain ⟨c, cs, hcons⟩ := List.exists_cons_of_ne_nil (toDecimal_ne_nil n)
  have hdigit : c.isDigit = true := isDigit_of_mem_toDecimal (hcons ▸ List.mem_cons_self)
  obtain ⟨hspace, hminus, hplus⟩ := not_isSpace_of_isDigit hdigit
  have hdrop : (toDecimal n).dropWhile isSpace = toDecimal n := by
    rw [hcons, List.dropWhile_cons_of_neg (by simp [hspace])]
  have hsign : readSign (toDecimal n) = (false, toDecimal n) := by
    rw [hcons, readSign]
    · exact fun _ => hminus ∘ List.head_eq_of_cons_eq
    · exact fun _ => hplus ∘ List.head_eq_of_cons_eq
  have htake : (toDecimal n).takeWhile Char.isDigit = toDecimal n :=
    List.takeWhile_eq_self_iff.mpr fun _ => isDigit_of_mem_toDecimal
  have hvalue : Nat.ofDigitChars 10 (toDecimal n) 0 = n := Nat.ofDigitChars_ten_toDigits
  simp only [stoul, hdrop, hsign, htake, hvalue, if_neg (toDecimal_ne_nil n),
    if_neg (Nat.not_le.mpr hn), Bool.false_eq_true, if_false]

/-- A number that fits is read back. -/
theorem stoul32_toDecimal {n : ℕ} (hn : n < 2 ^ 32) : stoul32 (toDecimal n) = .ok n := by
  rw [stoul32, stoul_toDecimal (hn.trans (by decide))]
  exact congrArg Except.ok (Nat.mod_eq_of_lt hn)

/-! ## Nodes -/

namespace TreeNode

variable {x : TreeNode (List Char)}

/-- The text of a node: its fields, with an underscore between any two. -/
theorem toString_eq_join (x : TreeNode (List Char)) :
    x.toString = join '_' (x.fields ++ [toDecimal x.rightHeight]) := by
  simp [toString, fields, join]

/-- Text with another number of fields than seven is refused. -/
theorem fromString_abort {str : List Char} (h : (split '_' str).length ≠ 7) :
    fromString str = .error (.abort "Deserialized string is corrupted.") := by
  rw [fromString]
  split
  next hsplit =>
    rw [hsplit] at h
    exact absurd rfl h
  next => rfl

/-- Every underscore in the value makes a field more. -/
theorem length_split_toString (x : TreeNode (List Char)) :
    (split '_' x.toString).length = 7 + x.kvPair.2.count '_' := by
  have hcount (n : ℕ) : (toDecimal n).count '_' = 0 :=
    List.count_eq_zero.mpr (underscore_notMem_toDecimal n)
  rw [toString_eq_join, length_split_join _ (underscore_notMem_toDecimal _) (toDecimal_ne_nil _)]
  simp [fields, hcount]

/-- Without an underscore in the value the seven fields are found. -/
theorem split_toString (h : '_' ∉ x.kvPair.2) :
    split '_' x.toString = x.fields ++ [toDecimal x.rightHeight] := by
  rw [toString_eq_join]
  refine split_join (fun item hitem => ?_) ?_
  · simp only [fields, List.cons_append, List.nil_append, List.mem_cons, List.not_mem_nil,
      or_false] at hitem
    rcases hitem with rfl | rfl | rfl | rfl | rfl | rfl | rfl
    · exact underscore_notMem_toDecimal _
    · exact underscore_notMem_toDecimal _
    · exact h
    · exact underscore_notMem_toDecimal _
    · exact underscore_notMem_toDecimal _
    · exact underscore_notMem_toDecimal _
    · exact underscore_notMem_toDecimal _
  · rw [List.getLast?_concat]
    exact fun he => toDecimal_ne_nil _ (Option.some.inj he)

/-- Without an underscore in the value the node is read back. -/
theorem fromString_toString (hx : x.Fits) (h : '_' ∉ x.kvPair.2) :
    fromString x.toString = .ok x := by
  rw [fromString, split_toString h]
  simp only [fields, List.cons_append, List.nil_append, stoul32_toDecimal hx.id_lt,
    stoul32_toDecimal hx.key_lt, stoul32_toDecimal hx.leftId_lt, stoul32_toDecimal hx.rightId_lt,
    stoul32_toDecimal hx.leftHeight_lt, stoul32_toDecimal hx.rightHeight_lt]
  rfl

/-- With one there are more, and the process ends. -/
theorem fromString_toString_abort (h : '_' ∈ x.kvPair.2) :
    fromString x.toString = .error (.abort "Deserialized string is corrupted.") := by
  refine fromString_abort ?_
  have hpos := List.count_pos_iff.mpr h
  rw [length_split_toString]
  omega

/-- **What `FromString` makes of `ToString`**: the node, exactly if its value has no underscore in
it. -/
theorem fromString_toString_iff (hx : x.Fits) :
    fromString x.toString = .ok x ↔ '_' ∉ x.kvPair.2 := by
  constructor
  · intro hok h
    cases (fromString_toString_abort h).symm.trans hok
  · exact fromString_toString hx

theorem fromString_toString_iff_abc :
    fromString (toString ⟨1, (42, ['a', 'b', 'c']), 0, 3, 0, 1⟩) =
        .ok ⟨1, (42, ['a', 'b', 'c']), 0, 3, 0, 1⟩ ↔ '_' ∉ ['a', 'b', 'c'] :=
  fromString_toString_iff ⟨by decide, by decide, by decide, by decide, by decide, by decide⟩

/-- A value with an underscore in it. -/
theorem fromString_toString_underscore :
    fromString (toString ⟨1, (42, ['a', '_', 'c']), 0, 3, 0, 1⟩) ≠
      .ok ⟨1, (42, ['a', '_', 'c']), 0, 3, 0, 1⟩ := by
  rw [fromString_toString_abort (by decide)]
  exact nofun

end TreeNode

end ObliviousRam
