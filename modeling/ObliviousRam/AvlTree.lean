import Mathlib.Data.Tree.Basic
import Mathlib.Data.Nat.Fib.Basic
import Mathlib.Order.Defs.LinearOrder
import Mathlib.Tactic.ByContra

set_option autoImplicit false

/-!
# AVL trees

Insertion into height-balanced search trees, over any type of entries with a key
in a linear order.

* `BinaryTree.avlInsert` — insertion; an entry whose key is already there is left
  out.
* `BinaryTree.Ordered`, `BinaryTree.Balanced` — the two invariants, and that
  insertion keeps them.
* `BinaryTree.insertRotation` — an insertion makes at most one rotation, and a
  rotation restores the height the subtree had before (`insert_effect`).
* `BinaryTree.insertVisits` — the entries an insertion handles, all of them on
  the search path (`insertVisits_subset`).
* `BinaryTree.crest` — the root and the root of the higher subtree: a repair moves
  the node and the crest of the subtree that has grown (`moved_prefix_right`).
* `BinaryTree.fib_height_le` — how high a balanced tree can be.
-/

namespace BinaryTree

variable {α κ : Type}

/-! ## Shapes -/

/-- The entries from left to right. -/
def inorder : BinaryTree α → List α
  | nil => []
  | node x l r => l.inorder ++ x :: r.inorder

/-- The entry at the root. -/
def root? : BinaryTree α → Option α
  | nil => none
  | node x _ _ => some x

/-- At every node the heights of the two subtrees differ by at most one. -/
def Balanced : BinaryTree α → Prop
  | nil => True
  | node _ l r => l.height ≤ r.height + 1 ∧ r.height ≤ l.height + 1 ∧ l.Balanced ∧ r.Balanced

/-- The left child becomes the root. -/
def rotateRight : BinaryTree α → BinaryTree α
  | node x (node y a b) c => node y a (node x b c)
  | t => t

/-- The right child becomes the root. -/
def rotateLeft : BinaryTree α → BinaryTree α
  | node x a (node y b c) => node y (node x a b) c
  | t => t

/-- What it takes to repair a node. -/
inductive Rotation where
  | none
  | single
  | double
  deriving DecidableEq, Repr

/-- How the node over `l` and `r` is repaired. -/
def rotation (l r : BinaryTree α) : Rotation :=
  if r.height + 1 < l.height then
    if l.right.height ≤ l.left.height then .single else .double
  else if l.height + 1 < r.height then
    if r.left.height ≤ r.right.height then .single else .double
  else .none

/-- The node over `l` and `r`, repaired. -/
def balance (x : α) (l r : BinaryTree α) : BinaryTree α :=
  if r.height + 1 < l.height then
    if l.right.height ≤ l.left.height then rotateRight (node x l r)
    else rotateRight (node x (rotateLeft l) r)
  else if l.height + 1 < r.height then
    if r.left.height ≤ r.right.height then rotateLeft (node x l r)
    else rotateLeft (node x l (rotateRight r))
  else node x l r

/-- The entries whose nodes a repair changes. -/
def moved (x : α) (l r : BinaryTree α) : List α :=
  if r.height + 1 < l.height then
    if l.right.height ≤ l.left.height then x :: l.root?.toList
    else x :: l.root?.toList ++ l.right.root?.toList
  else if l.height + 1 < r.height then
    if r.left.height ≤ r.right.height then x :: r.root?.toList
    else x :: r.root?.toList ++ r.left.root?.toList
  else []

@[simp] theorem inorder_rotateRight (t : BinaryTree α) : t.rotateRight.inorder = t.inorder := by
  rcases t with _ | ⟨x, _ | ⟨y, a, b⟩, c⟩
  · rfl
  · rfl
  · simp only [rotateRight, inorder, List.append_assoc, List.cons_append]

@[simp] theorem inorder_rotateLeft (t : BinaryTree α) : t.rotateLeft.inorder = t.inorder := by
  rcases t with _ | ⟨x, a, _ | ⟨y, b, c⟩⟩
  · rfl
  · rfl
  · simp only [rotateLeft, inorder, List.append_assoc, List.cons_append]

/-- A repair keeps the order of the entries. -/
@[simp] theorem inorder_balance (x : α) (l r : BinaryTree α) :
    (balance x l r).inorder = l.inorder ++ x :: r.inorder := by
  rw [balance]
  split_ifs <;> simp only [inorder_rotateRight, inorder_rotateLeft, inorder]

theorem length_inorder (t : BinaryTree α) : t.inorder.length = t.numNodes := by
  induction t with
  | nil => rfl
  | node x l r hl hr =>
    rw [inorder, List.length_append, List.length_cons, hl, hr, numNodes]
    omega

/-- The root is an entry. -/
theorem mem_inorder_of_root? {t : BinaryTree α} {x : α} (h : t.root? = some x) : x ∈ t.inorder := by
  cases t with
  | nil => cases h
  | node y l r =>
    cases h
    exact List.mem_append_right _ List.mem_cons_self

/-- A tree of positive height has a root. -/
theorem exists_node {t : BinaryTree α} (h : 0 < t.height) : ∃ x l r, t = node x l r := by
  cases t with
  | nil => exact absurd h (Nat.lt_irrefl 0)
  | node x l r => exact ⟨x, l, r, rfl⟩

theorem eq_nil_of_height {t : BinaryTree α} (h : t.height = 0) : t = nil := by
  cases t with
  | nil => rfl
  | node x l r => exact absurd h (Nat.succ_ne_zero _)

/-- There is no rotation exactly where the heights differ by one at most. -/
theorem rotation_eq_none {l r : BinaryTree α} :
    rotation l r = .none ↔ l.height ≤ r.height + 1 ∧ r.height ≤ l.height + 1 := by
  rw [rotation]
  split_ifs <;> simp <;> omega

/-- Without a rotation the node is left as it is. -/
theorem balance_of_none {l r : BinaryTree α} (h : rotation l r = .none) (x : α) :
    balance x l r = node x l r := by
  obtain ⟨hl, hr⟩ := rotation_eq_none.mp h
  rw [balance, if_neg (Nat.not_lt.mpr hl), if_neg (Nat.not_lt.mpr hr)]

theorem moved_of_none {l r : BinaryTree α} (h : rotation l r = .none) (x : α) :
    moved x l r = [] := by
  obtain ⟨hl, hr⟩ := rotation_eq_none.mp h
  rw [moved, if_neg (Nat.not_lt.mpr hl), if_neg (Nat.not_lt.mpr hr)]

/-! ## Repairs

Every repair has its mirror image. The left case is proved, and the right one is its
mirror, by the lemmas that let `mirror` pass every operation. -/

/-- A left subtree that is too high by one is repaired: the height is that of the
subtree, or one more if its own subtrees are equally high. -/
theorem balance_left {x : α} {l r : BinaryTree α} (hl : l.Balanced) (hr : r.Balanced)
    (h : l.height = r.height + 2) :
    (balance x l r).Balanced ∧ (balance x l r).height ≤ l.height + 1 ∧
      l.height ≤ (balance x l r).height ∧
      (l.left.height ≠ l.right.height → (balance x l r).height = l.height) := by
  obtain ⟨y, a, b, rfl⟩ := exists_node (t := l) (by omega)
  obtain ⟨hab, hba, ha, hb⟩ := hl
  rw [height] at h
  rw [balance, height, if_pos (by omega)]
  by_cases hcase : b.height ≤ a.height
  · rw [left, right, if_pos hcase, rotateRight]
    simp only [Balanced, height]
    exact ⟨⟨by omega, by omega, ha, by omega, by omega, hb, hr⟩, by omega, by omega, by omega⟩
  · rw [left, right, if_neg hcase]
    obtain ⟨z, b₁, b₂, rfl⟩ := exists_node (t := b) (by omega)
    obtain ⟨h₁₂, h₂₁, hb₁, hb₂⟩ := hb
    rw [rotateLeft, rotateRight]
    simp only [Balanced, height] at *
    exact ⟨⟨by omega, by omega, ⟨by omega, by omega, ha, hb₁⟩, by omega, by omega, hb₂, hr⟩,
      by omega, by omega, by omega⟩

/-- Left and right exchanged. -/
def mirror : BinaryTree α → BinaryTree α
  | nil => nil
  | node x l r => node x r.mirror l.mirror

@[simp] theorem mirror_mirror (t : BinaryTree α) : t.mirror.mirror = t := by
  induction t with
  | nil => rfl
  | node x l r hl hr => rw [mirror, mirror, hl, hr]

@[simp] theorem height_mirror (t : BinaryTree α) : t.mirror.height = t.height := by
  induction t with
  | nil => rfl
  | node x l r hl hr => rw [mirror, height, height, hl, hr, Nat.max_comm]

theorem left_mirror (t : BinaryTree α) : t.mirror.left = t.right.mirror := by
  cases t <;> rfl

theorem right_mirror (t : BinaryTree α) : t.mirror.right = t.left.mirror := by
  cases t <;> rfl

/-- Balance has no side. -/
theorem balanced_mirror {t : BinaryTree α} : t.mirror.Balanced ↔ t.Balanced := by
  induction t with
  | nil => exact Iff.rfl
  | node x l r hl hr =>
    rw [mirror, Balanced, Balanced, height_mirror, height_mirror, hl, hr]
    exact ⟨fun ⟨h₁, h₂, h₃, h₄⟩ => ⟨h₂, h₁, h₄, h₃⟩, fun ⟨h₁, h₂, h₃, h₄⟩ => ⟨h₂, h₁, h₄, h₃⟩⟩

theorem rotateRight_mirror (t : BinaryTree α) : t.mirror.rotateRight = t.rotateLeft.mirror := by
  rcases t with _ | ⟨x, a, _ | ⟨y, b, c⟩⟩ <;> rfl

theorem rotateLeft_mirror (t : BinaryTree α) : t.mirror.rotateLeft = t.rotateRight.mirror := by
  rcases t with _ | ⟨x, _ | ⟨y, a, b⟩, c⟩ <;> rfl

/-- Repairs commute with the exchange of left and right. -/
theorem balance_mirror (x : α) (l r : BinaryTree α) :
    balance x r.mirror l.mirror = (balance x l r).mirror := by
  have hnode : ∀ l r : BinaryTree α, node x r.mirror l.mirror = (node x l r).mirror := fun _ _ => rfl
  rw [balance, balance]
  simp only [height_mirror, left_mirror, right_mirror, rotateLeft_mirror, rotateRight_mirror, hnode]
  by_cases hl : r.height + 1 < l.height
  · have hr : ¬l.height + 1 < r.height := by omega
    rw [if_neg hr, if_pos hl, if_pos hl]
    split_ifs <;> rfl
  · rw [if_neg hl, if_neg hl]
    split_ifs <;> rfl

/-- The same for a right subtree. -/
theorem balance_right {x : α} {l r : BinaryTree α} (hl : l.Balanced) (hr : r.Balanced)
    (h : r.height = l.height + 2) :
    (balance x l r).Balanced ∧ (balance x l r).height ≤ r.height + 1 ∧
      r.height ≤ (balance x l r).height ∧
      (r.left.height ≠ r.right.height → (balance x l r).height = r.height) := by
  have hmirror := balance_left (x := x) (balanced_mirror.mpr hr) (balanced_mirror.mpr hl)
    (by rw [height_mirror, height_mirror]; exact h)
  rw [balance_mirror, balanced_mirror] at hmirror
  simp only [height_mirror, left_mirror, right_mirror] at hmirror
  obtain ⟨hbal, hle, hge, heq⟩ := hmirror
  exact ⟨hbal, hle, hge, fun hne => heq hne.symm⟩

theorem rotation_mirror (l r : BinaryTree α) : rotation r.mirror l.mirror = rotation l r := by
  rw [rotation, rotation]
  simp only [height_mirror, left_mirror, right_mirror]
  by_cases hl : r.height + 1 < l.height
  · have hr : ¬l.height + 1 < r.height := by omega
    rw [if_neg hr, if_pos hl, if_pos hl]
  · rw [if_neg hl, if_neg hl]

/-- What a change below a node does to it: `t` becomes `t'`, by a repair `ρ`. -/
structure Grown (t t' : BinaryTree α) (ρ : Rotation) : Prop where
  balanced : t'.Balanced
  height_ge : t.height ≤ t'.height
  height_le : t'.height ≤ t.height + 1
  of_rotation : ρ ≠ .none → t'.height = t.height
  uneven : t'.height = t.height + 1 → t = nil ∨ t'.left.height ≠ t'.right.height

/-- Growth has no side either, so a lemma about a left subtree is one about a right subtree. -/
theorem Grown.mirror {t t' : BinaryTree α} {ρ : Rotation} (h : Grown t t' ρ) :
    Grown t.mirror t'.mirror ρ where
  balanced := balanced_mirror.mpr h.balanced
  height_ge := by rw [height_mirror, height_mirror]; exact h.height_ge
  height_le := by rw [height_mirror, height_mirror]; exact h.height_le
  of_rotation := by rw [height_mirror, height_mirror]; exact h.of_rotation
  uneven := by
    rw [height_mirror, height_mirror, left_mirror, right_mirror, height_mirror, height_mirror]
    intro heq
    rcases h.uneven heq with rfl | hne
    · exact .inl rfl
    · exact .inr hne.symm

/-- **Repairing a node whose left subtree has grown.** -/
theorem Grown.balance_left {x : α} {l l' r : BinaryTree α} {ρ : Rotation}
    (ht : (node x l r).Balanced) (h : Grown l l' ρ) :
    Grown (node x l r) (balance x l' r) (rotation l' r) := by
  obtain ⟨hlr, hrl, -, hr⟩ := ht
  have hge := h.height_ge
  have hle := h.height_le
  by_cases hhigh : l'.height = r.height + 2
  · -- it grew to be too high: the repair takes the node back to its height
    have hgrew : l'.height = l.height + 1 := by omega
    have hne : l'.left.height ≠ l'.right.height := by
      rcases h.uneven hgrew with rfl | hne
      · rw [height] at hgrew
        omega
      · exact hne
    obtain ⟨hbal, -, -, heq⟩ := BinaryTree.balance_left (x := x) h.balanced hr hhigh
    have hsame : (balance x l' r).height = (node x l r).height := by
      rw [heq hne, height]
      omega
    exact ⟨hbal, hsame.ge, hsame.le.trans (Nat.le_succ _), fun _ => hsame, fun hup => by omega⟩
  · have hnone : rotation l' r = .none := rotation_eq_none.mpr ⟨by omega, by omega⟩
    rw [balance_of_none hnone, hnone]
    refine ⟨⟨by omega, by omega, h.balanced, hr⟩, ?_, ?_, fun hρ => absurd rfl hρ, fun hup => .inr ?_⟩
    · simp only [height]
      omega
    · simp only [height]
      omega
    · simp only [height, left, right] at hup ⊢
      omega

/-- The same on the right. -/
theorem Grown.balance_right {x : α} {l r r' : BinaryTree α} {ρ : Rotation}
    (ht : (node x l r).Balanced) (h : Grown r r' ρ) :
    Grown (node x l r) (balance x l r') (rotation l r') := by
  have hmirror := (Grown.balance_left (x := x) (balanced_mirror.mpr ht) h.mirror).mirror
  rw [balance_mirror, rotation_mirror, mirror_mirror] at hmirror
  simpa only [BinaryTree.mirror, mirror_mirror] using hmirror

/-! ## Insertion -/

section Keys

variable [LinearOrder κ] (key : α → κ)

/-- Insertion. -/
def avlInsert (a : α) : BinaryTree α → BinaryTree α
  | nil => node a nil nil
  | node x l r =>
    if key x < key a then balance x l (avlInsert a r)
    else if key a < key x then balance x (avlInsert a l) r
    else balance x l r

/-- The repair an insertion makes: the lowest one. -/
def insertRotation (a : α) : BinaryTree α → Rotation
  | nil => .none
  | node x l r =>
    if key x < key a then
      if insertRotation a r = .none then rotation l (avlInsert key a r) else insertRotation a r
    else if key a < key x then
      if insertRotation a l = .none then rotation (avlInsert key a l) r else insertRotation a l
    else rotation l r

/-- A balanced node needs no repair. -/
theorem rotation_of_balanced {x : α} {l r : BinaryTree α} (ht : (node x l r).Balanced) :
    rotation l r = .none := rotation_eq_none.mpr ⟨ht.1, ht.2.1⟩

/-- **An insertion keeps the tree balanced**, the height goes up by at most one,
and not at all if there is a repair. -/
theorem insert_effect (a : α) {t : BinaryTree α} (ht : t.Balanced) :
    Grown t (t.avlInsert key a) (t.insertRotation key a) := by
  induction t with
  | nil =>
    exact ⟨⟨by omega, by omega, trivial, trivial⟩, Nat.zero_le _, le_rfl, fun h => absurd rfl h,
      fun _ => .inl rfl⟩
  | node x l r hl hr =>
    rw [avlInsert, insertRotation]
    by_cases hlt : key x < key a
    · rw [if_pos hlt, if_pos hlt]
      have hstep := Grown.balance_right ht (hr ht.2.2.2)
      split
      next => exact hstep
      next hsub =>
        -- a repair below leaves nothing to repair here
        have hsame := (hr ht.2.2.2).of_rotation hsub
        have hnone : rotation l (r.avlInsert key a) = .none :=
          rotation_eq_none.mpr (by rw [hsame]; exact ⟨ht.1, ht.2.1⟩)
        refine ⟨hstep.balanced, hstep.height_ge, hstep.height_le, fun _ => ?_, hstep.uneven⟩
        rw [balance_of_none hnone, height, height, hsame]
    · by_cases hgt : key a < key x
      · rw [if_neg hlt, if_neg hlt, if_pos hgt, if_pos hgt]
        have hstep := Grown.balance_left ht (hl ht.2.2.1)
        split
        next => exact hstep
        next hsub =>
          have hsame := (hl ht.2.2.1).of_rotation hsub
          have hnone : rotation (l.avlInsert key a) r = .none :=
            rotation_eq_none.mpr (by rw [hsame]; exact ⟨ht.1, ht.2.1⟩)
          refine ⟨hstep.balanced, hstep.height_ge, hstep.height_le, fun _ => ?_, hstep.uneven⟩
          rw [balance_of_none hnone, height, height, hsame]
      · have hnone := rotation_of_balanced ht
        rw [if_neg hlt, if_neg hlt, if_neg hgt, if_neg hgt, balance_of_none hnone, hnone]
        exact ⟨ht, le_rfl, Nat.le_succ _, fun h => absurd rfl h, fun h => by omega⟩

/-! ### Search -/

variable {key}

variable (key) in
/-- Search. -/
def search (k : κ) : BinaryTree α → Option α
  | nil => none
  | node x l r => if key x = k then some x else if key x < k then search k r else search k l

theorem mem_inorder_of_search {t : BinaryTree α} {k : κ} {x : α} (h : t.search key k = some x) :
    x ∈ t.inorder := by
  induction t with
  | nil => cases h
  | node y l r hl hr =>
    rw [search] at h
    rw [inorder, List.mem_append, List.mem_cons]
    split_ifs at h
    · cases h
      exact .inr (.inl rfl)
    · exact .inr (.inr (hr h))
    · exact .inl (hl h)

variable (key) in
/-- The entries a search compares with. -/
def path (k : κ) : BinaryTree α → List α
  | nil => []
  | node x l r => x :: if key x < k then path k r else if k < key x then path k l else []

variable (key) in
/-- The keys go up from left to right. -/
def Ordered (t : BinaryTree α) : Prop := t.inorder.Pairwise fun x y => key x < key y

/-- The order of a node: that of its subtrees, and its own entry between them. -/
theorem ordered_node {x : α} {l r : BinaryTree α} :
    Ordered key (node x l r) ↔ Ordered key l ∧ Ordered key r ∧
      (∀ y ∈ l.inorder, key y < key x) ∧ ∀ z ∈ r.inorder, key x < key z := by
  rw [Ordered, inorder, List.pairwise_append, List.pairwise_cons]
  constructor
  · rintro ⟨hl, ⟨hx, hr⟩, hcross⟩
    exact ⟨hl, hr, fun y hy => hcross y hy x List.mem_cons_self, hx⟩
  · rintro ⟨hl, hr, hlx, hxr⟩
    refine ⟨hl, ⟨hxr, hr⟩, fun y hy z hz => ?_⟩
    rcases List.mem_cons.mp hz with rfl | hz
    · exact hlx y hy
    · exact (hlx y hy).trans (hxr z hz)

/-- A search finds the entry with its key. -/
theorem search_eq_some {t : BinaryTree α} (ht : t.Ordered key) {k : κ} {x : α} :
    t.search key k = some x ↔ x ∈ t.inorder ∧ key x = k := by
  induction t with
  | nil => exact iff_of_false nofun fun h => List.not_mem_nil h.1
  | node y l r hl hr =>
    obtain ⟨hol, hor, hly, hyr⟩ := ordered_node.mp ht
    rw [search, inorder, List.mem_append, List.mem_cons]
    by_cases heq : key y = k
    · rw [if_pos heq]
      constructor
      · rintro ⟨⟩
        exact ⟨.inr (.inl rfl), heq⟩
      · rintro ⟨hx | rfl | hx, hkey⟩
        · exact absurd (hly x hx) (by rw [hkey, heq]; exact lt_irrefl k)
        · rfl
        · exact absurd (hyr x hx) (by rw [hkey, heq]; exact lt_irrefl k)
    · rw [if_neg heq]
      by_cases hlt : key y < k
      · rw [if_pos hlt, hr hor]
        constructor
        · rintro ⟨hx, hkey⟩
          exact ⟨.inr (.inr hx), hkey⟩
        · rintro ⟨hx | rfl | hx, hkey⟩
          · exact absurd (hly x hx) (by rw [hkey]; exact hlt.not_gt)
          · exact absurd hkey heq
          · exact ⟨hx, hkey⟩
      · rw [if_neg hlt, hl hol]
        constructor
        · rintro ⟨hx, hkey⟩
          exact ⟨.inl hx, hkey⟩
        · rintro ⟨hx | rfl | hx, hkey⟩
          · exact ⟨hx, hkey⟩
          · exact absurd hkey heq
          · exact absurd (hyr x hx) (by rw [hkey]; exact hlt)

/-- A search fails only if the key is nowhere. -/
theorem search_eq_none {t : BinaryTree α} (ht : t.Ordered key) {k : κ} :
    t.search key k = none ↔ ∀ x ∈ t.inorder, key x ≠ k := by
  rw [Option.eq_none_iff_forall_ne_some]
  simp only [ne_eq, search_eq_some ht, not_and]

/-! ### What an insertion does to the entries -/

/-- An entry whose key is found is left out: nothing changes. -/
theorem avlInsert_of_search {a : α} {t : BinaryTree α} (ht : t.Balanced)
    (h : t.search key (key a) ≠ none) :
    t.avlInsert key a = t ∧ t.insertRotation key a = .none := by
  induction t with
  | nil => exact absurd rfl h
  | node x l r hl hr =>
    have hnone := rotation_of_balanced ht
    rw [search] at h
    rw [avlInsert, insertRotation]
    by_cases heq : key x = key a
    · have hlt : ¬key x < key a := heq.not_lt
      have hgt : ¬key a < key x := heq.not_gt
      rw [if_neg hlt, if_neg hlt, if_neg hgt, if_neg hgt]
      exact ⟨balance_of_none hnone x, hnone⟩
    · rw [if_neg heq] at h
      by_cases hlt : key x < key a
      · rw [if_pos hlt] at h
        obtain ⟨hins, hrot⟩ := hr ht.2.2.2 h
        rw [if_pos hlt, if_pos hlt, hins, if_pos hrot]
        exact ⟨balance_of_none hnone x, hnone⟩
      · rw [if_neg hlt] at h
        obtain ⟨hins, hrot⟩ := hl ht.2.2.1 h
        have hgt : key a < key x := lt_of_le_of_ne (not_lt.mp hlt) (Ne.symm heq)
        rw [if_neg hlt, if_neg hlt, if_pos hgt, if_pos hgt, hins, if_pos hrot]
        exact ⟨balance_of_none hnone x, hnone⟩

/-- A new entry is added to the others. -/
theorem inorder_avlInsert {a : α} {t : BinaryTree α} (h : t.search key (key a) = none) :
    (t.avlInsert key a).inorder.Perm (a :: t.inorder) := by
  induction t with
  | nil => exact List.Perm.refl _
  | node x l r hl hr =>
    rw [search] at h
    rw [avlInsert]
    split_ifs at h with heq hlt
    · rw [if_pos hlt, inorder_balance, inorder]
      exact (((hr h).cons x).append_left l.inorder).trans
        ((List.Perm.swap a x r.inorder).append_left l.inorder |>.trans List.perm_middle)
    · have hgt : key a < key x := lt_of_le_of_ne (not_lt.mp hlt) (Ne.symm heq)
      rw [if_neg hlt, if_pos hgt, inorder_balance, inorder]
      exact (hl h).append_right (x :: r.inorder)

/-- An insertion adds its entry and loses none. -/
theorem mem_inorder_avlInsert {a : α} {t : BinaryTree α} (h : t.search key (key a) = none) {b : α} :
    b ∈ (t.avlInsert key a).inorder ↔ b = a ∨ b ∈ t.inorder :=
  (inorder_avlInsert h).mem_iff.trans List.mem_cons

/-- A rotation leaves the entries in order. -/
theorem ordered_balance {x : α} {l r : BinaryTree α} :
    Ordered key (balance x l r) ↔ Ordered key (node x l r) := by
  rw [Ordered, Ordered, inorder_balance, inorder]

/-- **An insertion keeps the tree ordered.** -/
theorem Ordered.avlInsert {a : α} {t : BinaryTree α} (ht : t.Ordered key)
    (h : t.search key (key a) = none) : (t.avlInsert key a).Ordered key := by
  induction t with
  | nil => exact List.pairwise_singleton _ a
  | node x l r hl hr =>
    obtain ⟨hol, hor, hlx, hxr⟩ := ordered_node.mp ht
    rw [search] at h
    rw [BinaryTree.avlInsert]
    split_ifs at h with heq hlt
    · rw [if_pos hlt, ordered_balance, ordered_node]
      refine ⟨hol, hr hor h, hlx, fun z hz => ?_⟩
      rcases (mem_inorder_avlInsert h).mp hz with rfl | hz
      · exact hlt
      · exact hxr z hz
    · have hgt : key a < key x := lt_of_le_of_ne (not_lt.mp hlt) (Ne.symm heq)
      rw [if_neg hlt, if_pos hgt, ordered_balance, ordered_node]
      refine ⟨hl hol h, hor, fun y hy => ?_, hxr⟩
      rcases (mem_inorder_avlInsert h).mp hy with rfl | hy
      · exact hgt
      · exact hlx y hy

/-- **What a search finds after an insertion**: the new entry, unless its key was
known. -/
theorem search_avlInsert {a : α} {t : BinaryTree α} (hbal : t.Balanced) (ht : t.Ordered key)
    (k : κ) :
    (t.avlInsert key a).search key k = (t.search key k).or (if key a = k then some a else none) := by
  by_cases hfound : t.search key (key a) = none
  · have ht' := ht.avlInsert hfound
    rcases hk : t.search key k with _ | x
    · rw [Option.none_or]
      split
      next heq => exact (search_eq_some ht').mpr ⟨(mem_inorder_avlInsert hfound).mpr (.inl rfl), heq⟩
      next hne =>
        refine (search_eq_none ht').mpr fun x hx => ?_
        rcases (mem_inorder_avlInsert hfound).mp hx with rfl | hx
        · exact hne
        · exact (search_eq_none ht).mp hk x hx
    · obtain ⟨hx, hkey⟩ := (search_eq_some ht).mp hk
      exact (search_eq_some ht').mpr ⟨(mem_inorder_avlInsert hfound).mpr (.inr hx), hkey⟩
  · rw [(avlInsert_of_search hbal hfound).1]
    split
    next heq =>
      obtain ⟨x, hx⟩ := Option.ne_none_iff_exists'.mp hfound
      rw [← heq, hx]
      rfl
    next => rw [Option.or_none]

/-! ### What an insertion costs

An insertion handles the nodes of the search path on its way down and again on its way
up, and where it repairs, a few more. A repair restores the height, so there is at most
one. -/

variable (key) in
/-- The entries whose nodes an insertion handles. -/
def insertVisits (a : α) : BinaryTree α → List α
  | nil => [a]
  | node x l r =>
    if key x < key a then x :: insertVisits a r ++ moved x l (avlInsert key a r)
    else if key a < key x then x :: insertVisits a l ++ moved x (avlInsert key a l) r
    else x :: moved x l r

variable (key) in
/-- What an insertion costs, where every node on the search path costs one and a
repair costs what `price` says. -/
def insertCost (price : Rotation → ℕ) (a : α) : BinaryTree α → ℕ
  | nil => 0
  | node x l r =>
    if key x < key a then
      1 + insertCost price a r + price (rotation l (avlInsert key a r))
    else if key a < key x then
      1 + insertCost price a l + price (rotation (avlInsert key a l) r)
    else 1 + price (rotation l r)

/-- After a repair below there is nothing to repair. -/
theorem rotation_right_of_repair {a x : α} {l r : BinaryTree α} (ht : (node x l r).Balanced)
    (h : r.insertRotation key a ≠ .none) : rotation l (r.avlInsert key a) = .none := by
  have hsame := (insert_effect key a ht.2.2.2).of_rotation h
  exact rotation_eq_none.mpr (by rw [hsame]; exact ⟨ht.1, ht.2.1⟩)

/-- After a repair in the left subtree there is none here. -/
theorem rotation_left_of_repair {a x : α} {l r : BinaryTree α} (ht : (node x l r).Balanced)
    (h : l.insertRotation key a ≠ .none) : rotation (l.avlInsert key a) r = .none := by
  have hsame := (insert_effect key a ht.2.2.1).of_rotation h
  exact rotation_eq_none.mpr (by rw [hsame]; exact ⟨ht.1, ht.2.1⟩)

/-- **An insertion into a balanced tree pays for its path and one repair.** -/
theorem insertCost_eq {price : Rotation → ℕ} (hprice : price .none = 0) (a : α)
    {t : BinaryTree α} (ht : t.Balanced) :
    t.insertCost key price a =
      (t.path key (key a)).length + price (t.insertRotation key a) := by
  induction t with
  | nil =>
    rw [insertCost, path, insertRotation, hprice]
    rfl
  | node x l r hl hr =>
    rw [insertCost, path, insertRotation, List.length_cons]
    by_cases hlt : key x < key a
    · rw [if_pos hlt, if_pos hlt, if_pos hlt, hr ht.2.2.2]
      split
      next hsub =>
        rw [hsub, hprice]
        omega
      next hsub =>
        rw [rotation_right_of_repair ht hsub, hprice]
        omega
    · by_cases hgt : key a < key x
      · rw [if_neg hlt, if_neg hlt, if_neg hlt, if_pos hgt, if_pos hgt, if_pos hgt, hl ht.2.2.1]
        split
        next hsub =>
          rw [hsub, hprice]
          omega
        next hsub =>
          rw [rotation_left_of_repair ht hsub, hprice]
          omega
      · rw [if_neg hlt, if_neg hlt, if_neg hlt, if_neg hgt, if_neg hgt, if_neg hgt,
          rotation_of_balanced ht, hprice]
        rfl

theorem length_path_le (k : κ) (t : BinaryTree α) : (t.path key k).length ≤ t.height := by
  induction t with
  | nil => exact le_rfl
  | node x l r hl hr =>
    rw [path, height, List.length_cons]
    split_ifs
    · omega
    · omega
    · rw [List.length_nil]
      omega

theorem mem_inorder_of_mem_path {k : κ} {t : BinaryTree α} {x : α} (h : x ∈ t.path key k) :
    x ∈ t.inorder := by
  induction t with
  | nil => exact absurd h List.not_mem_nil
  | node y l r hl hr =>
    rw [inorder, List.mem_append, List.mem_cons]
    rcases List.mem_cons.mp h with rfl | h
    · exact .inr (.inl rfl)
    · split_ifs at h
      · exact .inr (.inr (hr h))
      · exact .inl (hl h)
      · exact absurd h List.not_mem_nil

/-- The root after a repair is one of the entries it handles. -/
theorem mem_moved_of_root? {x b : α} {l r : BinaryTree α} (h : (balance x l r).root? = some b) :
    b = x ∨ b ∈ moved x l r := by
  rw [balance] at h
  rw [moved]
  split_ifs at h ⊢ with h₁ h₂ h₃ h₄
  · obtain ⟨y, c, d, rfl⟩ := exists_node (t := l) (by omega)
    cases h
    exact .inr (by simp [root?])
  · obtain ⟨y, c, d, rfl⟩ := exists_node (t := l) (by omega)
    obtain ⟨z, d₁, d₂, rfl⟩ := exists_node (t := d) (by rw [left, right] at h₂; omega)
    cases h
    exact .inr (by simp [root?])
  · obtain ⟨y, c, d, rfl⟩ := exists_node (t := r) (by omega)
    cases h
    exact .inr (by simp [root?])
  · obtain ⟨y, c, d, rfl⟩ := exists_node (t := r) (by omega)
    obtain ⟨z, c₁, c₂, rfl⟩ := exists_node (t := c) (by rw [left, right] at h₄; omega)
    cases h
    exact .inr (by simp [root?])
  · cases h
    exact .inl rfl

theorem root?_mirror (t : BinaryTree α) : t.mirror.root? = t.root? := by
  cases t <;> rfl

theorem moved_mirror (x : α) (l r : BinaryTree α) :
    moved x r.mirror l.mirror = moved x l r := by
  rw [moved, moved]
  simp only [height_mirror, left_mirror, right_mirror, root?_mirror]
  by_cases hl : r.height + 1 < l.height
  · have hr : ¬l.height + 1 < r.height := by omega
    rw [if_neg hr, if_pos hl, if_pos hl]
  · rw [if_neg hl, if_neg hl]

/-- Where a subtree that has grown may have its new root and, if it is uneven,
the root of its higher side. -/
structure RootsIn (S : α → Prop) (t t' : BinaryTree α) : Prop where
  root : ∀ b, t'.root? = some b → S b
  left : t'.height = t.height + 1 → t'.right.height < t'.left.height →
    ∀ b, t'.left.root? = some b → S b
  right : t'.height = t.height + 1 → t'.left.height < t'.right.height →
    ∀ b, t'.right.root? = some b → S b

theorem RootsIn.mirror {S : α → Prop} {t t' : BinaryTree α} (h : RootsIn S t t') :
    RootsIn S t.mirror t'.mirror where
  root := by rw [root?_mirror]; exact h.root
  left := by
    simp only [height_mirror, left_mirror, right_mirror, root?_mirror]
    exact h.right
  right := by
    simp only [height_mirror, left_mirror, right_mirror, root?_mirror]
    exact h.left

/-- The entries that a repair above a grown right subtree handles, and the roots it leaves. -/
theorem RootsIn.balance_right {S : α → Prop} {x : α} {l r r' : BinaryTree α} {ρ : Rotation}
    (ht : (node x l r).Balanced) (h : Grown r r' ρ) (hx : S x) (hr' : RootsIn S r r') :
    (∀ b ∈ moved x l r', S b) ∧ RootsIn S (node x l r) (balance x l r') := by
  have hmoved : ∀ b ∈ moved x l r', S b := by
    intro b hb
    have hge := h.height_ge
    have hle := h.height_le
    obtain ⟨hlr, hrl, -⟩ := ht
    rw [moved, if_neg (by omega)] at hb
    split_ifs at hb with hhigh hcase
    · rcases List.mem_cons.mp hb with rfl | hb
      · exact hx
      · exact hr'.root b (Option.mem_toList.mp hb)
    · rcases List.mem_append.mp hb with hb | hb
      · rcases List.mem_cons.mp hb with rfl | hb
        · exact hx
        · exact hr'.root b (Option.mem_toList.mp hb)
      · exact hr'.left (by omega) (by omega) b (Option.mem_toList.mp hb)
    · exact absurd hb List.not_mem_nil
  have hgrown := Grown.balance_right ht h
  refine ⟨hmoved, ⟨fun b hb => ?_, fun hup => ?_, fun hup => ?_⟩⟩
  · rcases mem_moved_of_root? hb with rfl | hb
    · exact hx
    · exact hmoved b hb
  all_goals
    -- a node that has grown was not repaired
    have hnone : rotation l r' = .none := by
      by_contra hρ
      rw [hgrown.of_rotation hρ] at hup
      omega
    rw [balance_of_none hnone] at hup ⊢
    simp only [height, BinaryTree.left, BinaryTree.right] at hup ⊢
    intro hside
  · have hge := h.height_ge
    omega
  · exact hr'.root

/-- The same on the left. -/
theorem RootsIn.balance_left {S : α → Prop} {x : α} {l l' r : BinaryTree α} {ρ : Rotation}
    (ht : (node x l r).Balanced) (h : Grown l l' ρ) (hx : S x) (hl' : RootsIn S l l') :
    (∀ b ∈ moved x l' r, S b) ∧ RootsIn S (node x l r) (balance x l' r) := by
  obtain ⟨hmoved, hroots⟩ := RootsIn.balance_right (x := x) (l := r.mirror)
    (balanced_mirror.mpr ht) h.mirror hx hl'.mirror
  rw [moved_mirror] at hmoved
  rw [balance_mirror] at hroots
  exact ⟨hmoved, by simpa only [BinaryTree.mirror, mirror_mirror] using hroots.mirror⟩

/-! ### The crest of a subtree that has grown -/

/-- How many entries a repair moves. -/
def Rotation.size : Rotation → ℕ
  | .none => 0
  | .single => 2
  | .double => 3

/-- The root, and the root of the higher subtree. -/
def crest : BinaryTree α → List α
  | nil => []
  | node x l r =>
    x :: if l.height < r.height then r.root?.toList
      else if r.height < l.height then l.root?.toList else []

theorem crest_mirror (t : BinaryTree α) : t.mirror.crest = t.crest := by
  cases t with
  | nil => rfl
  | node x l r =>
    simp only [BinaryTree.mirror, crest, height_mirror, root?_mirror]
    by_cases hlr : l.height < r.height
    · rw [if_pos hlr, if_neg (by omega), if_pos hlr]
    · rw [if_neg hlr]
      by_cases hrl : r.height < l.height
      · rw [if_pos hrl, if_neg hlr]
      · rw [if_neg hrl, if_neg hlr]

/-- The crest begins with the root. -/
theorem root?_prefix_crest (t : BinaryTree α) : t.root?.toList <+: t.crest := by
  cases t with
  | nil => exact List.prefix_rfl
  | node x l r => exact ⟨_, rfl⟩

/-- The crest is made of entries. -/
theorem mem_inorder_of_mem_crest {t : BinaryTree α} {x : α} (h : x ∈ t.crest) : x ∈ t.inorder := by
  cases t with
  | nil => exact absurd h List.not_mem_nil
  | node y l r =>
    rw [crest] at h
    rw [inorder, List.mem_append, List.mem_cons]
    rcases List.mem_cons.mp h with rfl | h
    · exact .inr (.inl rfl)
    · split_ifs at h
      · exact .inr (.inr (mem_inorder_of_root? (Option.mem_toList.mp h)))
      · exact .inl (mem_inorder_of_root? (Option.mem_toList.mp h))
      · exact absurd h List.not_mem_nil

/-- A rotation moves as many nodes as its size says. -/
theorem length_moved (x : α) (l r : BinaryTree α) : (moved x l r).length = (rotation l r).size := by
  rw [moved, rotation]
  split_ifs with hl hcase hr hcase
  · obtain ⟨y, a, b, rfl⟩ := exists_node (t := l) (by omega)
    rfl
  · obtain ⟨y, a, b, rfl⟩ := exists_node (t := l) (by omega)
    obtain ⟨z, b₁, b₂, rfl⟩ := exists_node (t := b) (by rw [left, right] at hcase; omega)
    rfl
  · obtain ⟨y, b, c, rfl⟩ := exists_node (t := r) (by omega)
    rfl
  · obtain ⟨y, b, c, rfl⟩ := exists_node (t := r) (by omega)
    obtain ⟨z, b₁, b₂, rfl⟩ := exists_node (t := b) (by rw [left, right] at hcase; omega)
    rfl
  · rfl

/-- The repairs on the way of an insertion are none, or the one of the insertion. -/
theorem size_repairs_right {a x : α} {l r : BinaryTree α} (ht : (node x l r).Balanced)
    (hlt : key x < key a) :
    (r.insertRotation key a).size ≤ ((node x l r).insertRotation key a).size ∧
      (rotation l (r.avlInsert key a)).size ≤ ((node x l r).insertRotation key a).size := by
  rw [insertRotation, if_pos hlt]
  by_cases hsub : r.insertRotation key a = .none
  · rw [if_pos hsub, hsub]
    exact ⟨Nat.zero_le _, le_rfl⟩
  · rw [if_neg hsub, rotation_right_of_repair ht hsub]
    exact ⟨le_rfl, Nat.zero_le _⟩

theorem size_repairs_left {a x : α} {l r : BinaryTree α} (ht : (node x l r).Balanced)
    (hgt : key a < key x) :
    (l.insertRotation key a).size ≤ ((node x l r).insertRotation key a).size ∧
      (rotation (l.avlInsert key a) r).size ≤ ((node x l r).insertRotation key a).size := by
  rw [insertRotation, if_neg hgt.not_gt, if_pos hgt]
  by_cases hsub : l.insertRotation key a = .none
  · rw [if_pos hsub, hsub]
    exact ⟨Nat.zero_le _, le_rfl⟩
  · rw [if_neg hsub, rotation_left_of_repair ht hsub]
    exact ⟨le_rfl, Nat.zero_le _⟩

/-- **A repair moves the node and the crest** of the right subtree that has grown. -/
theorem moved_prefix_right {x : α} {l r r' : BinaryTree α} {ρ : Rotation}
    (ht : (node x l r).Balanced) (h : Grown r r' ρ) (hρ : rotation l r' ≠ .none) :
    r'.height = r.height + 1 ∧ moved x l r' <+: x :: r'.crest := by
  have hge := h.height_ge
  have hle := h.height_le
  obtain ⟨hlr, hrl, -⟩ := ht
  have hhigh : l.height + 1 < r'.height := by
    by_contra hlow
    exact hρ (rotation_eq_none.mpr ⟨by omega, by omega⟩)
  refine ⟨by omega, ?_⟩
  rw [moved, if_neg (by omega), if_pos hhigh]
  split
  next => simpa using root?_prefix_crest r'
  next hcase =>
    obtain ⟨y, b, c, rfl⟩ := exists_node (t := r') (by omega)
    simp only [left, right, not_le] at hcase
    simp [crest, root?, left, hcase, hcase.not_gt]

/-- The same on the left. -/
theorem moved_prefix_left {x : α} {l l' r : BinaryTree α} {ρ : Rotation}
    (ht : (node x l r).Balanced) (h : Grown l l' ρ) (hρ : rotation l' r ≠ .none) :
    l'.height = l.height + 1 ∧ moved x l' r <+: x :: l'.crest := by
  rw [← rotation_mirror] at hρ
  have hmirror := moved_prefix_right (x := x) (balanced_mirror.mpr ht) h.mirror hρ
  simpa only [moved_mirror, crest_mirror, height_mirror] using hmirror

/-- A node that has grown by its right subtree was not repaired, and has its crest there. -/
theorem crest_prefix_right {x : α} {l r r' : BinaryTree α} {ρ : Rotation}
    (ht : (node x l r).Balanced) (h : Grown r r' ρ)
    (hup : (balance x l r').height = (node x l r).height + 1) :
    rotation l r' = .none ∧ r'.height = r.height + 1 ∧ (node x l r').crest <+: x :: r'.crest := by
  have hge := h.height_ge
  have hle := h.height_le
  have hnone : rotation l r' = .none := by
    by_contra hρ
    rw [(Grown.balance_right ht h).of_rotation hρ] at hup
    omega
  rw [balance_of_none hnone, height, height] at hup
  refine ⟨hnone, by omega, ?_⟩
  rw [crest, if_pos (by omega), List.prefix_cons_inj]
  exact root?_prefix_crest r'

/-- The same on the left. -/
theorem crest_prefix_left {x : α} {l l' r : BinaryTree α} {ρ : Rotation}
    (ht : (node x l r).Balanced) (h : Grown l l' ρ)
    (hup : (balance x l' r).height = (node x l r).height + 1) :
    rotation l' r = .none ∧ l'.height = l.height + 1 ∧ (node x l' r).crest <+: x :: l'.crest := by
  have hmirror := crest_prefix_right (x := x) (l := r.mirror) (balanced_mirror.mpr ht) h.mirror
    (by rw [balance_mirror, height_mirror, hup]; exact (congrArg (· + 1) (height_mirror _)).symm)
  rw [rotation_mirror, height_mirror, height_mirror, crest_mirror,
    ← crest_mirror (node x r.mirror l'.mirror)] at hmirror
  simpa only [BinaryTree.mirror, mirror_mirror] using hmirror

/-- **An insertion handles the entries on its path, and the new one.** -/
theorem insertVisits_subset (a : α) {t : BinaryTree α} (ht : t.Balanced) (S : α → Prop) (ha : S a)
    (hS : ∀ b ∈ t.path key (key a), S b) :
    (∀ b ∈ t.insertVisits key a, S b) ∧ RootsIn S t (t.avlInsert key a) := by
  induction t with
  | nil =>
    refine ⟨fun b hb => List.mem_singleton.mp hb ▸ ha, ⟨fun b hb => ?_, fun _ h => ?_, fun _ h => ?_⟩⟩
    · cases hb
      exact ha
    · exact absurd h (Nat.lt_irrefl _)
    · exact absurd h (Nat.lt_irrefl _)
  | node x l r hl hr =>
    rw [path] at hS
    have hx : S x := hS x List.mem_cons_self
    have hsub : ∀ b ∈ if key x < key a then path key (key a) r
        else if key a < key x then path key (key a) l else [], S b :=
      fun b hb => hS b (List.mem_cons_of_mem x hb)
    rw [insertVisits, avlInsert]
    by_cases hlt : key x < key a
    · rw [if_pos hlt] at hsub ⊢
      rw [if_pos hlt]
      obtain ⟨hvisits, hroots⟩ := hr ht.2.2.2 hsub
      obtain ⟨hmoved, hroots'⟩ := RootsIn.balance_right ht (insert_effect key a ht.2.2.2) hx hroots
      refine ⟨fun b hb => ?_, hroots'⟩
      rcases List.mem_append.mp hb with hb | hb
      · rcases List.mem_cons.mp hb with rfl | hb
        · exact hx
        · exact hvisits b hb
      · exact hmoved b hb
    · by_cases hgt : key a < key x
      · rw [if_neg hlt, if_pos hgt] at hsub ⊢
        rw [if_neg hlt, if_pos hgt]
        obtain ⟨hvisits, hroots⟩ := hl ht.2.2.1 hsub
        obtain ⟨hmoved, hroots'⟩ := RootsIn.balance_left ht (insert_effect key a ht.2.2.1) hx hroots
        refine ⟨fun b hb => ?_, hroots'⟩
        rcases List.mem_append.mp hb with hb | hb
        · rcases List.mem_cons.mp hb with rfl | hb
          · exact hx
          · exact hvisits b hb
        · exact hmoved b hb
      · have hnone := rotation_of_balanced ht
        rw [if_neg hlt, if_neg hgt, if_neg hlt, if_neg hgt, moved_of_none hnone,
          balance_of_none hnone]
        refine ⟨fun b hb => List.mem_singleton.mp hb ▸ hx, ⟨fun b hb => ?_, fun h => ?_, fun h => ?_⟩⟩
        · cases hb
          exact hx
        · omega
        · omega

/-! ### Double repairs in small trees -/

variable (key) in
/-- `k` lies between the keys of a leaf and of its parent, which has no other child. -/
def Squeezed (k : κ) : BinaryTree α → Prop
  | nil => False
  | node x l r =>
    if key x < k then
      (l.height = 0 ∧ r.height = 1 ∧ ∀ y ∈ r.root?, k < key y) ∨ Squeezed k r
    else if k < key x then
      (r.height = 0 ∧ l.height = 1 ∧ ∀ y ∈ l.root?, key y < k) ∨ Squeezed k l
    else False

theorem two_le_of_squeezed {k : κ} {t : BinaryTree α} (h : t.Squeezed key k) : 2 ≤ t.numNodes := by
  induction t with
  | nil => exact h.elim
  | node x l r hl hr =>
    rw [Squeezed] at h
    rw [numNodes]
    have hheight := r.height_le_numNodes
    have hheight' := l.height_le_numNodes
    split_ifs at h
    · rcases h with ⟨-, hr1, -⟩ | h
      · omega
      · exact Nat.le_succ_of_le ((hr h).trans (Nat.le_add_left _ _))
    · rcases h with ⟨-, hl1, -⟩ | h
      · omega
      · exact Nat.le_succ_of_le ((hl h).trans (Nat.le_add_right _ _))

/-- A node that has grown without a repair had subtrees of one height. -/
theorem even_of_grown {a y : α} {b c : BinaryTree α} (ht : (node y b c).Balanced)
    (hup : ((node y b c).avlInsert key a).height = (node y b c).height + 1) :
    b.height = c.height := by
  have ⟨hbc, hcb, hb, hc⟩ := ht
  rw [avlInsert] at hup
  split_ifs at hup with hlt hgt
  · have hgrown := Grown.balance_right ht (insert_effect key a hc)
    have hnone : rotation b (c.avlInsert key a) = .none := by
      by_contra hρ
      have := hgrown.of_rotation hρ
      omega
    obtain ⟨-, hle⟩ := rotation_eq_none.mp hnone
    have hstep := (insert_effect key a hc).height_le
    rw [balance_of_none hnone, height, height] at hup
    omega
  · have hgrown := Grown.balance_left ht (insert_effect key a hb)
    have hnone : rotation (b.avlInsert key a) c = .none := by
      by_contra hρ
      have := hgrown.of_rotation hρ
      omega
    obtain ⟨hle, -⟩ := rotation_eq_none.mp hnone
    have hstep := (insert_effect key a hb).height_le
    rw [balance_of_none hnone, height, height] at hup
    omega
  · rw [balance_of_none (rotation_of_balanced ht)] at hup
    omega

variable (key) in
/-- A leaf that has grown has its new child on the side of its key. -/
theorem avlInsert_leaf (a : α) {y : α} {t : BinaryTree α} (ht : t.Balanced) (hheight : t.height = 1)
    (hroot : t.root? = some y) (hup : (t.avlInsert key a).height = 2) :
    key y < key a ∧ (t.avlInsert key a).left.height = 0 ∧ (t.avlInsert key a).right.height = 1 ∨
      key a < key y ∧ (t.avlInsert key a).left.height = 1 ∧
        (t.avlInsert key a).right.height = 0 := by
  obtain ⟨z, b, c, rfl⟩ := exists_node (t := t) (by omega)
  cases hroot
  rw [height] at hheight
  obtain rfl := eq_nil_of_height (t := b) (by omega)
  obtain rfl := eq_nil_of_height (t := c) (by omega)
  rw [avlInsert] at hup ⊢
  split_ifs at hup ⊢ with hlt hgt
  · exact .inl ⟨hlt, rfl, rfl⟩
  · exact .inr ⟨hgt, rfl, rfl⟩
  · exact absurd hup (by decide : (1 : ℕ) ≠ 2)

/-- **A double repair in a tree of at most four nodes** comes from a key squeezed
in between a leaf and its parent. -/
theorem squeezed_of_double {a : α} {t : BinaryTree α} (ht : t.Balanced) (hsize : t.numNodes ≤ 4)
    (h : t.insertRotation key a = .double) : t.Squeezed key (key a) := by
  induction t with
  | nil => cases h
  | node x l r hl hr =>
    obtain ⟨hlr, hrl, hbl, hbr⟩ := ht
    rw [numNodes] at hsize
    rw [insertRotation] at h
    rw [Squeezed]
    -- the higher side has at least three nodes, unless it is a leaf
    have hthree : ∀ u : BinaryTree α, u.Balanced →
        (u.avlInsert key a).height = u.height + 1 → 2 ≤ u.height → 3 ≤ u.numNodes := by
      intro u hu hup hheight
      obtain ⟨y, b, c, rfl⟩ := exists_node (t := u) (by omega)
      have heven := even_of_grown hu hup
      have hb := b.height_le_numNodes
      have hc := c.height_le_numNodes
      rw [height] at hheight
      rw [numNodes]
      omega
    split_ifs at h ⊢ with hlt hsub hgt hsub
    · -- the repair is made here, on the right
      have hgrown := insert_effect key a hbr
      have hge := hgrown.height_ge
      have hle := hgrown.height_le
      rw [rotation] at h
      split_ifs at h with h₁ h₂ h₃
      · omega
      · by_cases hzero : l.height = 0
        · obtain ⟨y, b, c, rfl⟩ := exists_node (t := r) (by omega)
          refine .inl ⟨hzero, by omega, fun y' hy' => ?_⟩
          cases hy'
          rcases avlInsert_leaf key a hbr (by omega) rfl (by omega) with
            ⟨-, hleft, hright⟩ | ⟨hlt', -⟩
          · omega
          · exact hlt'
        · have hr3 := hthree r hbr (by omega) (by omega)
          have hl1 := l.height_le_numNodes
          omega
    · exact .inr (hr hbr (by omega) h)
    · have hgrown := insert_effect key a hbl
      have hge := hgrown.height_ge
      have hle := hgrown.height_le
      rw [rotation] at h
      split_ifs at h with h₁ h₂ h₃
      · by_cases hzero : r.height = 0
        · obtain ⟨y, b, c, rfl⟩ := exists_node (t := l) (by omega)
          refine .inl ⟨hzero, by omega, fun y' hy' => ?_⟩
          cases hy'
          rcases avlInsert_leaf key a hbl (by omega) rfl (by omega) with
            ⟨hlt', -⟩ | ⟨-, hleft, hright⟩
          · exact hlt'
          · omega
        · have hl3 := hthree l hbl (by omega) (by omega)
          have hr1 := r.height_le_numNodes
          omega
      · omega
    · exact .inr (hl hbl (by omega) h)
    · rw [rotation_eq_none.mpr ⟨hlr, hrl⟩] at h
      cases h

end Keys

/-! ## Height

The sparsest balanced trees have the Fibonacci numbers as their sizes. -/

/-- **A balanced tree of height `h` has as many nodes as the Fibonacci numbers say.** -/
theorem fib_height_le {t : BinaryTree α} (ht : t.Balanced) :
    Nat.fib (t.height + 2) ≤ t.numNodes + 1 := by
  induction t with
  | nil => exact le_rfl
  | node x l r hl hr =>
    obtain ⟨hlr, hrl, hbl, hbr⟩ := ht
    have hsplit : ∀ m n : ℕ, m ≤ n + 1 → n ≤ m + 1 →
        Nat.fib (max m n + 3) ≤ Nat.fib (m + 2) + Nat.fib (n + 2) := by
      intro m n hmn hnm
      rw [Nat.fib_add_two]
      rcases Nat.le_total m n with h | h
      · rw [max_eq_right h]
        exact Nat.add_le_add (Nat.fib_mono (by omega)) le_rfl
      · rw [max_eq_left h, Nat.add_comm (Nat.fib (m + 2))]
        exact Nat.add_le_add (Nat.fib_mono (by omega)) le_rfl
    rw [height, numNodes]
    calc Nat.fib (max l.height r.height + 1 + 2)
        ≤ Nat.fib (l.height + 2) + Nat.fib (r.height + 2) := hsplit _ _ hlr hrl
      _ ≤ (l.numNodes + 1) + (r.numNodes + 1) := Nat.add_le_add (hl hbl) (hr hbr)
      _ = l.numNodes + r.numNodes + 1 + 1 := by omega

end BinaryTree
