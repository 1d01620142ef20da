import ObliviousRam.OdictAccess
import ObliviousRam.AvlTree

set_option autoImplicit false

/-!
# The tree of the dictionary

The nodes of the dictionary **represent** an AVL tree: every node of the tree is
found under its id, with the ids and the heights of its children. Each function
of the controller is shown to do on the nodes what its counterpart does on the
tree, with the number of reads and writes it takes.
-/

namespace ObliviousRam

open BinaryTree (nil node Rotation)

variable {V : Type}

/-- What a node of the tree carries: its id and its pair. -/
structure OdsEntry (V : Type) where
  id : ℕ
  kvPair : ℕ × V
  deriving DecidableEq, Repr

/-- The key of an entry. -/
def OdsEntry.key (e : OdsEntry V) : ℕ := e.kvPair.1

/-- The tree that the nodes represent. -/
abbrev OdsTree (V : Type) : Type := BinaryTree (OdsEntry V)

namespace OdsTree

/-- The id of the root, or `invalid_mask`. -/
def rootId : OdsTree V → ℕ
  | nil => invalidMask
  | node x _ _ => x.id

/-- The node of an entry over two subtrees. -/
def nodeOf (x : OdsEntry V) (l r : OdsTree V) : TreeNode V where
  id := x.id
  kvPair := x.kvPair
  leftId := rootId l
  rightId := rootId r
  leftHeight := l.height
  rightHeight := r.height

/-- The node at the top of a tree. -/
def topNode [Inhabited V] : OdsTree V → TreeNode V
  | nil => .new invalidMask
  | node x l r => nodeOf x l r

@[simp] theorem rootId_nil : rootId (nil : OdsTree V) = invalidMask := rfl

@[simp] theorem rootId_node (x : OdsEntry V) (l r : OdsTree V) : rootId (node x l r) = x.id := rfl

@[simp] theorem nodeOf_id (x : OdsEntry V) (l r : OdsTree V) : (nodeOf x l r).id = x.id := rfl

@[simp] theorem nodeOf_key (x : OdsEntry V) (l r : OdsTree V) : (nodeOf x l r).kvPair.1 = x.key := rfl

/-- The top of a tree is found under the id of its root. -/
theorem topNode_id [Inhabited V] (t : OdsTree V) : (topNode t).id = rootId t := by
  cases t <;> rfl

/-- Every node of the tree is found under its id. -/
def Represents (heap : ℕ → TreeNode V) : OdsTree V → Prop
  | nil => True
  | node x l r => heap x.id = nodeOf x l r ∧ Represents heap l ∧ Represents heap r

/-- The ids of a tree. -/
def treeIds (t : OdsTree V) : List ℕ := t.inorder.map OdsEntry.id

/-- The ids are addresses, and none is used twice. -/
structure Sound (A : ArraySetup V) (t : OdsTree V) : Prop where
  nodup : (treeIds t).Nodup
  address : ∀ id ∈ treeIds t, id ≠ invalidMask ∧ id ≤ A.last

theorem treeIds_node (x : OdsEntry V) (l r : OdsTree V) :
    treeIds (node x l r) = treeIds l ++ x.id :: treeIds r := by
  rw [treeIds, BinaryTree.inorder, List.map_append, List.map_cons]
  rfl

theorem mem_treeIds_node {x : OdsEntry V} {l r : OdsTree V} {id : ℕ} :
    id ∈ treeIds (node x l r) ↔ id ∈ treeIds l ∨ id = x.id ∨ id ∈ treeIds r := by
  rw [treeIds_node, List.mem_append, List.mem_cons]

/-- A repair moves nodes, and keeps their ids in order. -/
theorem treeIds_balance (x : OdsEntry V) (l r : OdsTree V) :
    treeIds (BinaryTree.balance x l r) = treeIds (node x l r) := by
  rw [treeIds, treeIds, BinaryTree.inorder_balance, BinaryTree.inorder]

/-- What a sound tree is made of. -/
theorem sound_node {A : ArraySetup V} {x : OdsEntry V} {l r : OdsTree V} :
    Sound A (node x l r) ↔ Sound A l ∧ Sound A r ∧ (x.id ≠ invalidMask ∧ x.id ≤ A.last) ∧
      x.id ∉ treeIds l ∧ x.id ∉ treeIds r ∧ ∀ id ∈ treeIds l, id ∉ treeIds r := by
  constructor
  · rintro ⟨hnodup, haddress⟩
    rw [treeIds_node, List.nodup_append, List.nodup_cons] at hnodup
    obtain ⟨hl, ⟨hx, hr⟩, hcross⟩ := hnodup
    exact ⟨⟨hl, fun id h => haddress id (mem_treeIds_node.mpr (.inl h))⟩,
      ⟨hr, fun id h => haddress id (mem_treeIds_node.mpr (.inr (.inr h)))⟩,
      haddress x.id (mem_treeIds_node.mpr (.inr (.inl rfl))),
      fun h => hcross x.id h x.id List.mem_cons_self rfl, hx,
      fun id h h' => hcross id h id (List.mem_cons_of_mem _ h') rfl⟩
  · rintro ⟨hl, hr, hx, hxl, hxr, hcross⟩
    refine ⟨?_, fun id h => ?_⟩
    · rw [treeIds_node, List.nodup_append, List.nodup_cons]
      refine ⟨hl.nodup, ⟨hxr, hr.nodup⟩, fun id h id' h' he => ?_⟩
      subst he
      rcases List.mem_cons.mp h' with rfl | h'
      · exact hxl h
      · exact hcross id h h'
    · rcases mem_treeIds_node.mp h with h | rfl | h
      · exact hl.address id h
      · exact hx
      · exact hr.address id h

/-- An insertion adds one id. -/
theorem treeIds_avlInsert {e : OdsEntry V} {t : OdsTree V}
    (h : t.search OdsEntry.key e.key = none) {id : ℕ} :
    id ∈ treeIds (t.avlInsert OdsEntry.key e) ↔ id = e.id ∨ id ∈ treeIds t := by
  rw [treeIds, ((BinaryTree.inorder_avlInsert h).map OdsEntry.id).mem_iff, List.map_cons,
    List.mem_cons, treeIds]

/-- Insertion under a new id keeps the ids apart. -/
theorem Sound.avlInsert {A : ArraySetup V} {e : OdsEntry V} {t : OdsTree V} (ht : Sound A t)
    (h : t.search OdsEntry.key e.key = none) (he : e.id ∉ treeIds t)
    (haddress : e.id ≠ invalidMask ∧ e.id ≤ A.last) : Sound A (t.avlInsert OdsEntry.key e) where
  nodup := by
    rw [treeIds, ((BinaryTree.inorder_avlInsert h).map OdsEntry.id).nodup_iff, List.map_cons,
      List.nodup_cons]
    exact ⟨he, ht.nodup⟩
  address := by
    intro id hid
    rcases (treeIds_avlInsert h).mp hid with rfl | hid
    · exact haddress
    · exact ht.address id hid

/-- The subtree into which the entry is inserted stays apart from the other one. -/
theorem Sound.insert_right {A : ArraySetup V} {e x : OdsEntry V} {l r : OdsTree V}
    (hs : Sound A (node x l r)) (h : r.search OdsEntry.key e.key = none)
    (he : e.id ∉ treeIds (node x l r)) (haddress : e.id ≠ invalidMask ∧ e.id ≤ A.last) :
    Sound A (node x l (r.avlInsert OdsEntry.key e)) := by
  obtain ⟨hsl, hsr, hx0, hxl, hxr, hcross⟩ := sound_node.mp hs
  rw [mem_treeIds_node, not_or, not_or] at he
  obtain ⟨hel, hex, her⟩ := he
  refine sound_node.mpr ⟨hsl, hsr.avlInsert h her haddress, hx0, hxl, fun hmem => ?_,
    fun id hid hmem => ?_⟩
  · exact ((treeIds_avlInsert h).mp hmem).elim (Ne.symm hex) hxr
  · exact ((treeIds_avlInsert h).mp hmem).elim (fun heq => hel (heq ▸ hid)) (hcross id hid)

/-- The same on the left. -/
theorem Sound.insert_left {A : ArraySetup V} {e x : OdsEntry V} {l r : OdsTree V}
    (hs : Sound A (node x l r)) (h : l.search OdsEntry.key e.key = none)
    (he : e.id ∉ treeIds (node x l r)) (haddress : e.id ≠ invalidMask ∧ e.id ≤ A.last) :
    Sound A (node x (l.avlInsert OdsEntry.key e) r) := by
  obtain ⟨hsl, hsr, hx0, hxl, hxr, hcross⟩ := sound_node.mp hs
  rw [mem_treeIds_node, not_or, not_or] at he
  obtain ⟨hel, hex, her⟩ := he
  refine sound_node.mpr ⟨hsl.avlInsert h hel haddress, hsr, hx0, fun hmem => ?_, hxr,
    fun id hmem hid => ?_⟩
  · exact ((treeIds_avlInsert h).mp hmem).elim (Ne.symm hex) hxl
  · exact ((treeIds_avlInsert h).mp hmem).elim (fun heq => her (heq ▸ hid))
      fun hmem => hcross id hmem hid

/-- The trees that a dictionary with `node_count_ = n` can have. -/
structure Proper (A : ArraySetup V) (n : ℕ) (t : OdsTree V) : Prop extends Sound A t where
  balanced : t.Balanced
  ordered : t.Ordered OdsEntry.key
  fresh : ∀ id ∈ treeIds t, id < n
  size_lt : t.numNodes < n

theorem proper_nil (A : ArraySetup V) : Proper A 1 (nil : OdsTree V) where
  nodup := List.nodup_nil
  address := fun _ h => absurd h List.not_mem_nil
  balanced := trivial
  ordered := List.Pairwise.nil
  fresh := fun _ h => absurd h List.not_mem_nil
  size_lt := Nat.zero_lt_one

theorem Proper.ne_invalidMask {A : ArraySetup V} {n : ℕ} {t : OdsTree V} (ht : Proper A n t) :
    n ≠ invalidMask := fun h => absurd (h ▸ ht.size_lt) (Nat.not_lt_zero _)

/-- A tree is proper when the next id has gone unused. -/
theorem Proper.skip {A : ArraySetup V} {n : ℕ} {t : OdsTree V} (ht : Proper A n t) :
    Proper A (n + 1) t :=
  { ht with
    fresh := fun id hid => (ht.fresh id hid).trans (Nat.lt_succ_self n)
    size_lt := ht.size_lt.trans (Nat.lt_succ_self n) }

/-- **Insertion under the next id** leads from one proper tree to another. -/
theorem Proper.avlInsert {A : ArraySetup V} {n : ℕ} {t : OdsTree V} (ht : Proper A n t)
    (hlast : n ≤ A.last) (kvPair : ℕ × V) :
    Proper A (n + 1) (t.avlInsert OdsEntry.key ⟨n, kvPair⟩) := by
  let e : OdsEntry V := ⟨n, kvPair⟩
  by_cases hfound : t.search OdsEntry.key e.key = none
  · have hnew : e.id ∉ treeIds t := fun h => absurd (ht.fresh _ h) (Nat.lt_irrefl _)
    refine ⟨ht.toSound.avlInsert hfound hnew ⟨ht.ne_invalidMask, hlast⟩,
      (BinaryTree.insert_effect OdsEntry.key e ht.balanced).balanced, ht.ordered.avlInsert hfound,
      fun id hid => ?_, ?_⟩
    · rcases (treeIds_avlInsert hfound).mp hid with heq | hid
      · exact heq ▸ Nat.lt_succ_self _
      · exact (ht.fresh id hid).trans (Nat.lt_succ_self n)
    · rw [← BinaryTree.length_inorder, (BinaryTree.inorder_avlInsert hfound).length_eq,
        List.length_cons, BinaryTree.length_inorder]
      exact Nat.succ_lt_succ ht.size_lt
  · rw [(BinaryTree.avlInsert_of_search ht.balanced hfound).1]
    exact ht.skip

theorem avlInsert_ne_nil {e : OdsEntry V} {t : OdsTree V}
    (h : t.search OdsEntry.key e.key = none) : t.avlInsert OdsEntry.key e ≠ nil := by
  intro hnil
  have hmem := (treeIds_avlInsert h).mpr (.inl rfl)
  rw [hnil] at hmem
  exact absurd hmem List.not_mem_nil

/-- Whether a tree is found depends on its own nodes only. -/
theorem Represents.congr {heap heap' : ℕ → TreeNode V} {t : OdsTree V} (h : Represents heap t)
    (hsame : ∀ id ∈ treeIds t, heap' id = heap id) : Represents heap' t := by
  induction t with
  | nil => trivial
  | node x l r hl hr =>
    obtain ⟨hx, hrl, hrr⟩ := h
    refine ⟨?_, hl hrl fun id hid => hsame id ?_, hr hrr fun id hid => hsame id ?_⟩
    · rw [hsame x.id (mem_treeIds_node.mpr (.inr (.inl rfl))), hx]
    · exact mem_treeIds_node.mpr (.inl hid)
    · exact mem_treeIds_node.mpr (.inr (.inr hid))

/-- A node that is not in the tree may change. -/
theorem Represents.update {heap : ℕ → TreeNode V} {t : OdsTree V} (h : Represents heap t) {id : ℕ}
    (hid : id ∉ treeIds t) (x : TreeNode V) : Represents (Function.update heap id x) t :=
  h.congr fun k hk => Function.update_of_ne (fun he : k = id => hid (he ▸ hk)) _ _

/-- The pair of an entry is in its node. -/
theorem Represents.kvPair_eq {heap : ℕ → TreeNode V} {t : OdsTree V} (h : Represents heap t)
    {e : OdsEntry V} (he : e ∈ t.inorder) : (heap e.id).kvPair = e.kvPair := by
  induction t with
  | nil => exact absurd he List.not_mem_nil
  | node x l r hl hr =>
    obtain ⟨hx, hrl, hrr⟩ := h
    rw [BinaryTree.inorder, List.mem_append, List.mem_cons] at he
    rcases he with he | rfl | he
    · exact hl hrl he
    · rw [hx]
      rfl
    · exact hr hrr he

/-- A node that is written over two subtrees. -/
theorem Represents.mount {A : ArraySetup V} {heap : ℕ → TreeNode V} {x : OdsEntry V}
    {l r : OdsTree V} (hl : Represents heap l) (hr : Represents heap r)
    (hs : Sound A (node x l r)) :
    Represents (Function.update heap x.id (nodeOf x l r)) (node x l r) := by
  obtain ⟨-, -, -, hxl, hxr, -⟩ := sound_node.mp hs
  exact ⟨Function.update_self _ _ _, hl.update hxl _, hr.update hxr _⟩

/-- The two nodes that a rotation to the left writes. -/
theorem Represents.rotateLeft {A : ArraySetup V} {heap : ℕ → TreeNode V} {x y : OdsEntry V}
    {a b c : OdsTree V} (ht : Represents heap (node x a (node y b c)))
    (hs : Sound A (node x a (node y b c))) :
    Represents (Function.update (Function.update heap x.id (nodeOf x a b)) y.id
        (nodeOf y (node x a b) c)) (node y (node x a b) c) ∧
      ∀ id ∉ treeIds (node y (node x a b) c),
        Function.update (Function.update heap x.id (nodeOf x a b)) y.id
          (nodeOf y (node x a b) c) id = heap id := by
  obtain ⟨-, hra, -, hrb, hrc⟩ := ht
  obtain ⟨-, hsr, -, hxa, hxr, har⟩ := sound_node.mp hs
  obtain ⟨-, -, -, hyb, hyc, -⟩ := sound_node.mp hsr
  rw [mem_treeIds_node, not_or, not_or] at hxr
  obtain ⟨hxb, hxy, hxc⟩ := hxr
  have hya : y.id ∉ treeIds a := fun h => har _ h (mem_treeIds_node.mpr (.inr (.inl rfl)))
  refine ⟨⟨?_, ⟨?_, ?_, ?_⟩, ?_⟩, fun id hid => ?_⟩
  · exact Function.update_self _ _ _
  · exact (Function.update_of_ne hxy _ _).trans (Function.update_self _ _ _)
  · exact (hra.update hxa _).update hya _
  · exact (hrb.update hxb _).update hyb _
  · exact (hrc.update hxc _).update hyc _
  · rw [mem_treeIds_node, mem_treeIds_node, not_or, not_or, not_or, not_or] at hid
    exact (Function.update_of_ne hid.2.1 _ _).trans (Function.update_of_ne hid.1.2.1 _ _)

/-- The two nodes that a rotation to the right writes. -/
theorem Represents.rotateRight {A : ArraySetup V} {heap : ℕ → TreeNode V} {x y : OdsEntry V}
    {a b c : OdsTree V} (ht : Represents heap (node x (node y a b) c))
    (hs : Sound A (node x (node y a b) c)) :
    Represents (Function.update (Function.update heap x.id (nodeOf x b c)) y.id
        (nodeOf y a (node x b c))) (node y a (node x b c)) ∧
      ∀ id ∉ treeIds (node y a (node x b c)),
        Function.update (Function.update heap x.id (nodeOf x b c)) y.id
          (nodeOf y a (node x b c)) id = heap id := by
  obtain ⟨-, ⟨-, hra, hrb⟩, hrc⟩ := ht
  obtain ⟨hsl, -, -, hxl, hxc, hlc⟩ := sound_node.mp hs
  obtain ⟨-, -, -, hya, hyb, -⟩ := sound_node.mp hsl
  rw [mem_treeIds_node, not_or, not_or] at hxl
  obtain ⟨hxa, hxy, hxb⟩ := hxl
  have hyc : y.id ∉ treeIds c := hlc _ (mem_treeIds_node.mpr (.inr (.inl rfl)))
  refine ⟨⟨?_, ?_, ?_, ?_, ?_⟩, fun id hid => ?_⟩
  · exact Function.update_self _ _ _
  · exact (hra.update hxa _).update hya _
  · exact (Function.update_of_ne hxy _ _).trans (Function.update_self _ _ _)
  · exact (hrb.update hxb _).update hyb _
  · exact (hrc.update hxc _).update hyc _
  · rw [mem_treeIds_node, mem_treeIds_node, not_or, not_or, not_or, not_or] at hid
    exact (Function.update_of_ne hid.2.1 _ _).trans (Function.update_of_ne hid.2.2.2.1 _ _)

/-- Soundness is about the ids alone. -/
theorem Sound.congr {A : ArraySetup V} {t t' : OdsTree V} (hs : Sound A t)
    (h : treeIds t' = treeIds t) : Sound A t' := ⟨h ▸ hs.nodup, h ▸ hs.address⟩

theorem Sound.mono {A B : ArraySetup V} {t : OdsTree V} (hs : Sound A t) (h : A.last ≤ B.last) :
    Sound B t := ⟨hs.nodup, fun id hid => ⟨(hs.address id hid).1, (hs.address id hid).2.trans h⟩⟩

theorem treeIds_rotateLeft (x y : OdsEntry V) (a b c : OdsTree V) :
    treeIds (node y (node x a b) c) = treeIds (node x a (node y b c)) := by
  simp only [treeIds_node, List.append_assoc, List.cons_append]

/-- A node apart from a double rotation is apart from the subtree that is rotated first. -/
theorem apart_left {x y z : OdsEntry V} {a b c d : OdsTree V} {id : ℕ}
    (h : id ∉ treeIds (node z (node y a b) (node x c d))) :
    id ≠ x.id ∧ id ∉ treeIds (node z (node y a b) c) := by
  simp only [mem_treeIds_node, not_or] at h ⊢
  tauto

/-- The same on the right. -/
theorem apart_right {x y z : OdsEntry V} {a b c d : OdsTree V} {id : ℕ}
    (h : id ∉ treeIds (node z (node x a b) (node y c d))) :
    id ≠ x.id ∧ id ∉ treeIds (node z b (node y c d)) := by
  simp only [mem_treeIds_node, not_or] at h ⊢
  tauto

/-- The tree that is found from an id on, up to a depth. -/
def treeAt (heap : ℕ → TreeNode V) : (depth id : ℕ) → OdsTree V
  | 0, _ => nil
  | depth + 1, id =>
    if id = invalidMask then nil
    else node ⟨id, (heap id).kvPair⟩ (treeAt heap depth (heap id).leftId)
      (treeAt heap depth (heap id).rightId)

/-- A tree that is represented is found from its root. -/
theorem Represents.treeAt_eq {heap : ℕ → TreeNode V} {t : OdsTree V} (h : Represents heap t)
    (hids : ∀ id ∈ treeIds t, id ≠ invalidMask) {depth : ℕ} (hdepth : t.height < depth) :
    treeAt heap depth (rootId t) = t := by
  induction t generalizing depth with
  | nil =>
    obtain ⟨d, rfl⟩ : ∃ d, depth = d + 1 := ⟨depth - 1, by omega⟩
    exact if_pos rfl
  | node x l r hl hr =>
    obtain ⟨d, rfl⟩ : ∃ d, depth = d + 1 := ⟨depth - 1, by omega⟩
    obtain ⟨hx, hrl, hrr⟩ := h
    rw [BinaryTree.height] at hdepth
    have hx0 : x.id ≠ invalidMask := hids x.id (mem_treeIds_node.mpr (.inr (.inl rfl)))
    have hleft : treeAt heap d (rootId l) = l :=
      hl hrl (fun id hid => hids id (mem_treeIds_node.mpr (.inl hid))) (by omega)
    have hright : treeAt heap d (rootId r) = r :=
      hr hrr (fun id hid => hids id (mem_treeIds_node.mpr (.inr (.inr hid)))) (by omega)
    rw [treeAt, rootId_node, if_neg hx0, hx]
    exact congrArg₂ (node x) hleft hright

end OdsTree

namespace OdictController

open OdsTree

variable [Inhabited V] {A : ArraySetup V} {w₀ w : ArrayOdict V} {heap : ℕ → TreeNode V}
  {reads writes : ℕ} {G : (ℕ → Option (TreeNode V)) → List (TreeNode V) → Prop}
  {allowed : TreeNode V → Prop}

/-- A part of the operation that leaves the tree `t`, returns its top and touches
no other node. -/
def Builds (A : ArraySetup V) (w₀ : ArrayOdict V) (heap : ℕ → TreeNode V) (t : OdsTree V)
    (reads writes : ℕ) (top : TreeNode V) (w : ArrayOdict V) : Prop :=
  ∃ heap', top = topNode t ∧ Shows A w₀ heap' reads writes w ∧ Represents heap' t ∧
    ∀ id ∉ treeIds t, heap' id = heap id

/-! ## Nothing undoes a loss

Once a node was pushed out it is gone, and no later step brings it back: `Lost` stays.
So a specification has to cover only the case in which nothing is lost, and the other
one is passed on by these instances. -/

instance (id : ℕ) : Prog.Sticky Lost (leftRotate A.config id) := by
  unfold leftRotate
  infer_instance

instance (id : ℕ) : Prog.Sticky Lost (rightRotate A.config id) := by
  unfold rightRotate
  infer_instance

instance (id : ℕ) : Prog.Sticky Lost (leftRightRotate A.config id) := by
  unfold leftRightRotate
  infer_instance

instance (id : ℕ) : Prog.Sticky Lost (rightLeftRotate A.config id) := by
  unfold rightLeftRotate
  infer_instance

instance (root : TreeNode V) : Prog.Sticky Lost (balance A.config root) := by
  unfold balance
  infer_instance

instance sticky_internalFind (key : ℕ) :
    ∀ fuel id, Prog.Sticky Lost (internalFind A.config key fuel id)
  | 0, _ => by
    unfold internalFind
    infer_instance
  | fuel + 1, id => by
    have := sticky_internalFind key fuel
    unfold internalFind
    infer_instance

instance sticky_internalInsert (x : TreeNode V) :
    ∀ fuel id, Prog.Sticky Lost (internalInsert A.config x fuel id)
  | 0, _ => by
    unfold internalInsert
    infer_instance
  | fuel + 1, id => by
    have := sticky_internalInsert x fuel
    unfold internalInsert
    infer_instance

/-! ## Rotations

A rotation reads the two or three nodes it turns around and writes them back with new
links and heights. Its specification names both counters. -/

/-- `LeftRotate`. -/
theorem leftRotate_spec (hD : Discipline A w₀.oram G allowed)
    (hw : Shows A w₀ heap reads writes w) {x y : OdsEntry V} {a b c : OdsTree V}
    (ht : Represents heap (node x a (node y b c))) (hs : Sound A (node x a (node y b c)))
    (hallowed : ∀ z : TreeNode V, z.id = x.id ∨ z.id = y.id → allowed z) :
    Prog.UpTo Lost (Guard G) (leftRotate A.config x.id) w
      (Builds A w₀ heap (node y (node x a b) c) (reads + 2) (writes + 2)) := by
  have ⟨hx, _, hy, _, _⟩ := ht
  obtain ⟨-, hsr, hx0, -⟩ := sound_node.mp hs
  obtain ⟨-, -, hy0, -⟩ := sound_node.mp hsr
  refine .bind (readNode_spec hD hw _ (by rw [hx]; rfl) hx0.1 hx0.2
    (hallowed _ (.inl (by rw [hx]; rfl)))) ?_
  rintro _ w₁ ⟨rfl, hw₁⟩
  have hright : heap (nodeOf x a (node y b c)).rightId = nodeOf y b c := hy
  rw [hx]
  refine .bind (readNode_spec hD hw₁ _ (by rw [hright]; rfl) hy0.1 hy0.2
    (hallowed _ (.inr (by rw [hright]; rfl)))) ?_
  rintro _ w₂ ⟨rfl, hw₂⟩
  rw [hright]
  refine .bind (writeNode_spec hD hw₂ _ hx0.1 hx0.2 (hallowed _ (.inl rfl))) fun _ w₃ hw₃ => ?_
  refine .bind (writeNode_spec hD hw₃ _ hy0.1 hy0.2 (hallowed _ (.inr rfl))) fun _ w₄ hw₄ => ?_
  exact .pure ⟨_, rfl, hw₄, ht.rotateLeft hs⟩

/-- `RightRotate`. -/
theorem rightRotate_spec (hD : Discipline A w₀.oram G allowed)
    (hw : Shows A w₀ heap reads writes w) {x y : OdsEntry V} {a b c : OdsTree V}
    (ht : Represents heap (node x (node y a b) c)) (hs : Sound A (node x (node y a b) c))
    (hallowed : ∀ z : TreeNode V, z.id = x.id ∨ z.id = y.id → allowed z) :
    Prog.UpTo Lost (Guard G) (rightRotate A.config x.id) w
      (Builds A w₀ heap (node y a (node x b c)) (reads + 2) (writes + 2)) := by
  have ⟨hx, ⟨hy, _, _⟩, _⟩ := ht
  obtain ⟨hsl, -, hx0, -⟩ := sound_node.mp hs
  obtain ⟨-, -, hy0, -⟩ := sound_node.mp hsl
  refine .bind (readNode_spec hD hw _ (by rw [hx]; rfl) hx0.1 hx0.2
    (hallowed _ (.inl (by rw [hx]; rfl)))) ?_
  rintro _ w₁ ⟨rfl, hw₁⟩
  have hleft : heap (nodeOf x (node y a b) c).leftId = nodeOf y a b := hy
  rw [hx]
  refine .bind (readNode_spec hD hw₁ _ (by rw [hleft]; rfl) hy0.1 hy0.2
    (hallowed _ (.inr (by rw [hleft]; rfl)))) ?_
  rintro _ w₂ ⟨rfl, hw₂⟩
  rw [hleft]
  refine .bind (writeNode_spec hD hw₂ _ hx0.1 hx0.2 (hallowed _ (.inl rfl))) fun _ w₃ hw₃ => ?_
  refine .bind (writeNode_spec hD hw₃ _ hy0.1 hy0.2 (hallowed _ (.inr rfl))) fun _ w₄ hw₄ => ?_
  exact .pure ⟨_, rfl, hw₄, ht.rotateRight hs⟩

/-- `LeftRightRotate`. -/
theorem leftRightRotate_spec (hD : Discipline A w₀.oram G allowed)
    (hw : Shows A w₀ heap reads writes w) {x y z : OdsEntry V} {a b c d : OdsTree V}
    (ht : Represents heap (node x (node y a (node z b c)) d))
    (hs : Sound A (node x (node y a (node z b c)) d))
    (hallowed : ∀ v : TreeNode V, v.id = x.id ∨ v.id = y.id ∨ v.id = z.id → allowed v) :
    Prog.UpTo Lost (Guard G) (leftRightRotate A.config x.id) w
      (Builds A w₀ heap (node z (node y a b) (node x c d)) (reads + 5) (writes + 5)) := by
  have ⟨hx, hrl, hrd⟩ := ht
  have ⟨hsl, _, hx0, hxl, _, hld⟩ := sound_node.mp hs
  refine .bind (readNode_spec hD hw _ (by rw [hx]; rfl) hx0.1 hx0.2
    (hallowed _ (.inl (by rw [hx]; rfl)))) ?_
  rintro _ w₁ ⟨rfl, hw₁⟩
  rw [hx]
  refine .bind (leftRotate_spec hD hw₁ hrl hsl fun v hv => hallowed v (.inr hv)) ?_
  rintro _ w₂ ⟨heap₂, rfl, hw₂, hrl₂, hsame₂⟩
  refine .bind (writeNode_spec hD hw₂ _ hx0.1 hx0.2 (hallowed _ (.inl rfl))) fun _ w₃ hw₃ => ?_
  change Shows A w₀ (Function.update heap₂ x.id (nodeOf x (node z (node y a b) c) d)) _ _ w₃ at hw₃
  -- the subtree has new nodes, but the same ids
  have hids := treeIds_rotateLeft y z a b c
  have hs₃ : Sound A (node x (node z (node y a b) c) d) := hs.congr (by
    rw [treeIds_node x, treeIds_node x, hids])
  have ht₃ : Represents (Function.update heap₂ x.id (nodeOf x (node z (node y a b) c) d))
      (node x (node z (node y a b) c) d) :=
    hrl₂.mount (hrd.congr fun id hid => hsame₂ id fun h => hld id (hids ▸ h) hid) hs₃
  refine (rightRotate_spec hD hw₃ ht₃ hs₃ fun v hv =>
    hallowed v (hv.imp_right .inr)).mono ?_
  rintro _ w₄ ⟨heap₄, rfl, hw₄, ht₄, hsame₄⟩
  refine ⟨heap₄, rfl, hw₄, ht₄, fun id hid => ?_⟩
  obtain ⟨hne, hout⟩ := OdsTree.apart_left hid
  rw [hsame₄ id hid, Function.update_of_ne hne, hsame₂ id hout]

/-- `RightLeftRotate`. -/
theorem rightLeftRotate_spec (hD : Discipline A w₀.oram G allowed)
    (hw : Shows A w₀ heap reads writes w) {x y z : OdsEntry V} {a b c d : OdsTree V}
    (ht : Represents heap (node x a (node y (node z b c) d)))
    (hs : Sound A (node x a (node y (node z b c) d)))
    (hallowed : ∀ v : TreeNode V, v.id = x.id ∨ v.id = y.id ∨ v.id = z.id → allowed v) :
    Prog.UpTo Lost (Guard G) (rightLeftRotate A.config x.id) w
      (Builds A w₀ heap (node z (node x a b) (node y c d)) (reads + 5) (writes + 5)) := by
  have ⟨hx, hra, hrr⟩ := ht
  have ⟨_, hsr, hx0, hxa, hxr, har⟩ := sound_node.mp hs
  refine .bind (readNode_spec hD hw _ (by rw [hx]; rfl) hx0.1 hx0.2
    (hallowed _ (.inl (by rw [hx]; rfl)))) ?_
  rintro _ w₁ ⟨rfl, hw₁⟩
  rw [hx]
  refine .bind (rightRotate_spec hD hw₁ hrr hsr fun v hv => hallowed v (.inr hv)) ?_
  rintro _ w₂ ⟨heap₂, rfl, hw₂, hrr₂, hsame₂⟩
  refine .bind (writeNode_spec hD hw₂ _ hx0.1 hx0.2 (hallowed _ (.inl rfl))) fun _ w₃ hw₃ => ?_
  change Shows A w₀ (Function.update heap₂ x.id (nodeOf x a (node z b (node y c d)))) _ _ w₃ at hw₃
  have hids := (treeIds_rotateLeft z y b c d).symm
  have hs₃ : Sound A (node x a (node z b (node y c d))) := hs.congr (by
    rw [treeIds_node x, treeIds_node x, hids])
  have ht₃ : Represents (Function.update heap₂ x.id (nodeOf x a (node z b (node y c d))))
      (node x a (node z b (node y c d))) :=
    (hra.congr fun id hid => hsame₂ id fun h => har id hid (hids ▸ h)).mount hrr₂ hs₃
  refine (leftRotate_spec hD hw₃ ht₃ hs₃ fun v hv => hallowed v (hv.imp_right .inr)).mono ?_
  rintro _ w₄ ⟨heap₄, rfl, hw₄, ht₄, hsame₄⟩
  refine ⟨heap₄, rfl, hw₄, ht₄, fun id hid => ?_⟩
  obtain ⟨hne, hout⟩ := OdsTree.apart_right hid
  rw [hsame₄ id hid, Function.update_of_ne hne, hsame₂ id hout]

/-! ## Balance -/

/-- The reads that a repair takes. -/
def readPrice : Rotation → ℕ
  | .none => 0
  | .single => 3
  | .double => 6

/-- The writes that a repair takes. -/
def writePrice : Rotation → ℕ
  | .none => 0
  | .single => 2
  | .double => 5

section Branches

variable {σ : Type} (K : OdictConfig V σ)

/-- `Balance` of a node whose left subtree is too high. -/
theorem balance_leftHeavy {x y : OdsEntry V} {a b r : OdsTree V}
    (h : r.height + 1 < (node y a b).height) :
    balance K (nodeOf x (node y a b) r) = readNode K "OdsAccess R failed" y.id >>= fun left =>
      if left.leftHeight ≥ left.rightHeight then rightRotate K x.id
      else leftRightRotate K x.id := by
  refine if_pos ?_
  simp only [nodeOf]
  omega

/-- `Balance` of a node whose right subtree is too high. -/
theorem balance_rightHeavy {x y : OdsEntry V} {l b c : OdsTree V}
    (h : l.height + 1 < (node y b c).height) :
    balance K (nodeOf x l (node y b c)) = readNode K "OdsAccess R failed" y.id >>= fun right =>
      if right.rightHeight ≥ right.leftHeight then leftRotate K x.id
      else rightLeftRotate K x.id := by
  refine (if_neg ?_).trans (if_pos ?_)
  · simp only [nodeOf]
    omega
  · simp only [nodeOf]
    omega

/-- `Balance` of a node that needs no repair. -/
theorem balance_of_even {x : OdsEntry V} {l r : OdsTree V} (hl : l.height ≤ r.height + 1)
    (hr : r.height ≤ l.height + 1) : balance K (nodeOf x l r) = pure (nodeOf x l r) := by
  refine (if_neg ?_).trans (if_neg ?_)
  · simp only [nodeOf]
    omega
  · simp only [nodeOf]
    omega

end Branches

/-- **`Balance` repairs the node.** -/
theorem balance_spec (hD : Discipline A w₀.oram G allowed) (hw : Shows A w₀ heap reads writes w)
    {x : OdsEntry V} {l r : OdsTree V} (ht : Represents heap (node x l r))
    (hs : Sound A (node x l r))
    (hallowed : ∀ v : TreeNode V, (∃ e ∈ BinaryTree.moved x l r, v.id = e.id) → allowed v) :
    Prog.UpTo Lost (Guard G) (balance A.config (nodeOf x l r)) w
      (Builds A w₀ heap (BinaryTree.balance x l r)
        (reads + readPrice (BinaryTree.rotation l r))
        (writes + writePrice (BinaryTree.rotation l r))) := by
  have ⟨_, hrl, hrr⟩ := ht
  have ⟨hsl, hsr, _⟩ := sound_node.mp hs
  rw [BinaryTree.balance, BinaryTree.rotation]
  rw [BinaryTree.moved] at hallowed
  by_cases hl : r.height + 1 < l.height
  · obtain ⟨y, a, b, rfl⟩ := BinaryTree.exists_node (t := l) (by omega)
    obtain ⟨hy, -, -⟩ := hrl
    obtain ⟨-, -, hy0, -⟩ := sound_node.mp hsl
    rw [balance_leftHeavy _ hl, if_pos hl, if_pos hl]
    rw [if_pos hl] at hallowed
    have hread : heap y.id = nodeOf y a b := hy
    have hyallowed : allowed (nodeOf y a b) := by
      refine hallowed _ ⟨y, ?_, rfl⟩
      split_ifs <;> simp [BinaryTree.root?]
    refine .bind (readNode_spec hD hw _ (by rw [hread]; rfl) hy0.1 hy0.2
      (by rw [hread]; exact hyallowed)) ?_
    rintro _ w₁ ⟨rfl, hw₁⟩
    rw [hread]
    by_cases hcase : (node y a b).right.height ≤ (node y a b).left.height
    · rw [if_pos (show (nodeOf y a b).leftHeight ≥ (nodeOf y a b).rightHeight from hcase)]
      rw [if_pos hcase] at hallowed
      rw [if_pos hcase, if_pos hcase]
      refine rightRotate_spec hD hw₁ ht hs fun v hv => hallowed v ?_
      rcases hv with h | h
      · exact ⟨x, by simp, h⟩
      · exact ⟨y, by simp [BinaryTree.root?], h⟩
    · have hdouble : ¬b.height ≤ a.height := hcase
      obtain ⟨z, b₁, b₂, rfl⟩ := BinaryTree.exists_node (t := b) (by omega)
      rw [if_neg (show ¬(nodeOf y a (node z b₁ b₂)).leftHeight ≥
        (nodeOf y a (node z b₁ b₂)).rightHeight from hcase)]
      rw [if_neg hcase] at hallowed
      rw [if_neg hcase, if_neg hcase]
      refine leftRightRotate_spec hD hw₁ ht hs fun v hv => hallowed v ?_
      rcases hv with h | h | h
      · exact ⟨x, by simp, h⟩
      · exact ⟨y, by simp [BinaryTree.root?], h⟩
      · exact ⟨z, by simp [BinaryTree.root?], h⟩
  · rw [if_neg hl, if_neg hl]
    rw [if_neg hl] at hallowed
    by_cases hr : l.height + 1 < r.height
    · obtain ⟨y, b, c, rfl⟩ := BinaryTree.exists_node (t := r) (by omega)
      obtain ⟨hy, -, -⟩ := hrr
      obtain ⟨-, -, hy0, -⟩ := sound_node.mp hsr
      rw [balance_rightHeavy _ hr, if_pos hr, if_pos hr]
      rw [if_pos hr] at hallowed
      have hread : heap y.id = nodeOf y b c := hy
      have hyallowed : allowed (nodeOf y b c) := by
        refine hallowed _ ⟨y, ?_, rfl⟩
        split_ifs <;> simp [BinaryTree.root?]
      refine .bind (readNode_spec hD hw _ (by rw [hread]; rfl) hy0.1 hy0.2
        (by rw [hread]; exact hyallowed)) ?_
      rintro _ w₁ ⟨rfl, hw₁⟩
      rw [hread]
      by_cases hcase : (node y b c).left.height ≤ (node y b c).right.height
      · rw [if_pos (show (nodeOf y b c).rightHeight ≥ (nodeOf y b c).leftHeight from hcase)]
        rw [if_pos hcase] at hallowed
        rw [if_pos hcase, if_pos hcase]
        refine leftRotate_spec hD hw₁ ht hs fun v hv => hallowed v ?_
        rcases hv with h | h
        · exact ⟨x, by simp, h⟩
        · exact ⟨y, by simp [BinaryTree.root?], h⟩
      · have hdouble : ¬b.height ≤ c.height := hcase
        obtain ⟨z, b₁, b₂, rfl⟩ := BinaryTree.exists_node (t := b) (by omega)
        rw [if_neg (show ¬(nodeOf y (node z b₁ b₂) c).rightHeight ≥
          (nodeOf y (node z b₁ b₂) c).leftHeight from hcase)]
        rw [if_neg hcase] at hallowed
        rw [if_neg hcase, if_neg hcase]
        refine rightLeftRotate_spec hD hw₁ ht hs fun v hv => hallowed v ?_
        rcases hv with h | h | h
        · exact ⟨x, by simp, h⟩
        · exact ⟨y, by simp [BinaryTree.root?], h⟩
        · exact ⟨z, by simp [BinaryTree.root?], h⟩
    · rw [balance_of_even _ (not_lt.mp hl) (not_lt.mp hr), if_neg hr, if_neg hr]
      exact .pure ⟨heap, rfl, hw, ht, fun _ _ => rfl⟩

/-! ## Search -/

/-- **`InternalFind` searches the tree.** -/
theorem internalFind_spec (hD : Discipline A w₀.oram G allowed) {t : OdsTree V}
    (ht : Represents heap t) (hs : Sound A t) (key : ℕ)
    (hallowed : ∀ x ∈ t.path OdsEntry.key key, allowed (heap x.id)) {fuel : ℕ}
    (hfuel : t.height < fuel) (hw : Shows A w₀ heap reads writes w) :
    Prog.UpTo Lost (Guard G) (internalFind A.config key fuel t.rootId) w fun found w' =>
      found = (t.search OdsEntry.key key).map (fun e => heap e.id) ∧
        Shows A w₀ heap (reads + (t.path OdsEntry.key key).length) writes w' := by
  induction t generalizing fuel reads w with
  | nil =>
    obtain ⟨f, rfl⟩ : ∃ f, fuel = f + 1 := ⟨fuel - 1, by omega⟩
    exact .pure ⟨rfl, hw⟩
  | node x l r hl hr =>
    obtain ⟨f, rfl⟩ : ∃ f, fuel = f + 1 := ⟨fuel - 1, by omega⟩
    obtain ⟨hx, hrl, hrr⟩ := ht
    obtain ⟨hsl, hsr, hx0, -⟩ := sound_node.mp hs
    rw [BinaryTree.height] at hfuel
    rw [BinaryTree.path] at hallowed ⊢
    have hrest := fun y hy => hallowed y (List.mem_cons_of_mem x hy)
    rw [BinaryTree.search, internalFind, OdsTree.rootId_node, if_neg hx0.1]
    refine .bind (readNode_spec hD hw _ (by rw [hx, OdsTree.nodeOf_id]) hx0.1 hx0.2
      (hallowed x List.mem_cons_self)) ?_
    rintro _ w₁ ⟨rfl, hw₁⟩
    rw [hx, OdsTree.nodeOf_key]
    by_cases heq : x.key = key
    · have hlt : ¬x.key < key := heq.not_lt
      have hgt : ¬key < x.key := heq.not_gt
      rw [if_pos heq, if_pos heq, if_neg hlt, if_neg hgt]
      exact .pure ⟨congrArg some hx.symm, hw₁⟩
    · rw [if_neg heq, if_neg heq]
      by_cases hlt : x.key < key
      · rw [if_pos hlt] at hrest
        rw [if_pos hlt, if_pos hlt, if_pos hlt,
          List.length_cons, Nat.add_comm _ 1, ← Nat.add_assoc]
        exact hr hrr hsr hrest (by omega) hw₁
      · have hgt : key < x.key := lt_of_le_of_ne (not_lt.mp hlt) (Ne.symm heq)
        rw [if_neg hlt, if_pos hgt] at hrest
        rw [if_neg hlt, if_neg hlt, if_neg hlt,
          if_pos hgt, List.length_cons, Nat.add_comm _ 1, ← Nat.add_assoc]
        exact hl hrl hsl hrest (by omega) hw₁

/-! ## Insertion -/

/-- The parent's node, with what it takes from the node of a new right subtree. -/
theorem nodeOf_right (x : OdsEntry V) (l r₀ : OdsTree V) {r : OdsTree V} (h : r ≠ nil) :
    { nodeOf x l r₀ with rightId := (topNode r).id, rightHeight := (topNode r).height } =
      nodeOf x l r := by
  cases r with
  | nil => exact absurd rfl h
  | node y b c => rfl

/-- The same on the left. -/
theorem nodeOf_left (x : OdsEntry V) (l₀ r : OdsTree V) {l : OdsTree V} (h : l ≠ nil) :
    { nodeOf x l₀ r with leftId := (topNode l).id, leftHeight := (topNode l).height } =
      nodeOf x l r := by
  cases l with
  | nil => exact absurd rfl h
  | node y a b => rfl

/-- **`InternalInsert` of a key that is there** writes the path back as it is. -/
theorem internalInsert_known (hD : Discipline A w₀.oram G allowed) {t : OdsTree V}
    (ht : Represents heap t) (hs : Sound A t) (hbal : t.Balanced) (new : TreeNode V)
    (hfound : t.search OdsEntry.key new.kvPair.1 ≠ none)
    (hallowed : ∀ x ∈ t.path OdsEntry.key new.kvPair.1, allowed (heap x.id)) {fuel : ℕ}
    (hfuel : t.height < fuel) (hw : Shows A w₀ heap reads writes w) :
    Prog.UpTo Lost (Guard G) (internalInsert A.config new fuel (OdsTree.rootId t)) w fun top w' =>
      top = topNode t ∧
        Shows A w₀ heap (reads + (t.path OdsEntry.key new.kvPair.1).length)
          (writes + (t.path OdsEntry.key new.kvPair.1).length) w' := by
  induction t generalizing fuel reads writes w with
  | nil => exact absurd rfl hfound
  | node x l r hl hr =>
    obtain ⟨f, rfl⟩ : ∃ f, fuel = f + 1 := ⟨fuel - 1, by omega⟩
    obtain ⟨hx, hrl, hrr⟩ := ht
    obtain ⟨hsl, hsr, hx0, -⟩ := sound_node.mp hs
    rw [BinaryTree.height] at hfuel
    rw [BinaryTree.search] at hfound
    rw [BinaryTree.path] at hallowed ⊢
    have hxallowed := hallowed x List.mem_cons_self
    have hrest := fun y hy => hallowed y (List.mem_cons_of_mem x hy)
    -- the node is written as it was read
    have hback : ∀ {reads writes : ℕ} {w : ArrayOdict V}, Shows A w₀ heap reads writes w →
        Prog.UpTo Lost (Guard G) (writeNode A.config "ReadOram W failed" (nodeOf x l r) >>=
          fun _ => balance A.config (nodeOf x l r)) w fun top w' =>
            top = topNode (node x l r) ∧ Shows A w₀ heap reads (writes + 1) w' := by
      intro reads writes w hw
      rw [hx] at hxallowed
      refine .bind (writeNode_spec hD hw _ hx0.1 hx0.2 hxallowed) fun _ w₁ hw₁ => ?_
      have hsame : Function.update heap x.id (nodeOf x l r) = heap := by
        rw [← hx, Function.update_eq_self]
      rw [balance_of_even _ hbal.1 hbal.2.1]
      exact .pure ⟨rfl, hsame ▸ hw₁⟩
    rw [internalInsert, OdsTree.rootId_node, if_neg hx0.1]
    refine .bind (readNode_spec hD hw _ (by rw [hx, OdsTree.nodeOf_id]) hx0.1 hx0.2 hxallowed) ?_
    rintro _ w₁ ⟨rfl, hw₁⟩
    rw [hx]
    by_cases heq : x.key = new.kvPair.1
    · have hlt : ¬x.key < new.kvPair.1 := heq.not_lt
      have hgt : ¬new.kvPair.1 < x.key := heq.not_gt
      rw [if_neg hlt, if_neg hgt]
      simp only [OdsTree.nodeOf_key, gt_iff_lt, hlt, hgt, if_false]
      exact hback hw₁
    · rw [if_neg heq] at hfound
      by_cases hlt : x.key < new.kvPair.1
      · rw [if_pos hlt] at hfound hrest
        rw [if_pos hlt]
        simp only [OdsTree.nodeOf_key, hlt, if_true]
        refine .bind (hr hrr hsr hbal.2.2.2 hfound hrest (by omega) hw₁) ?_
        rintro _ w₂ ⟨rfl, hw₂⟩
        have hne : r ≠ nil := fun h => hfound (h ▸ rfl)
        rw [Prog.pure_bind, nodeOf_right x l r hne, List.length_cons, Nat.add_comm _ 1,
          ← Nat.add_assoc, ← Nat.add_assoc, Nat.add_right_comm writes]
        exact hback hw₂
      · have hgt : new.kvPair.1 < x.key := lt_of_le_of_ne (not_lt.mp hlt) (Ne.symm heq)
        rw [if_neg hlt] at hfound hrest
        rw [if_pos hgt] at hrest
        rw [if_neg hlt, if_pos hgt]
        simp only [OdsTree.nodeOf_key, gt_iff_lt, hlt, hgt, if_true, if_false]
        refine .bind (hl hrl hsl hbal.2.2.1 hfound hrest (by omega) hw₁) ?_
        rintro _ w₂ ⟨rfl, hw₂⟩
        have hne : l ≠ nil := fun h => hfound (h ▸ rfl)
        rw [Prog.pure_bind, nodeOf_left x l r hne, List.length_cons, Nat.add_comm _ 1,
          ← Nat.add_assoc, ← Nat.add_assoc, Nat.add_right_comm writes]
        exact hback hw₂

/-- The tail of `InternalInsert`: the node that has a new subtree is written and balanced. -/
theorem writeBack_spec (hD : Discipline A w₀.oram G allowed) (hw : Shows A w₀ heap reads writes w)
    {x : OdsEntry V} {l r : OdsTree V} (hl : Represents heap l) (hr : Represents heap r)
    (hs : Sound A (node x l r)) (hxallowed : ∀ v : TreeNode V, v.id = x.id → allowed v)
    (hallowed : ∀ v : TreeNode V, (∃ e ∈ BinaryTree.moved x l r, v.id = e.id) → allowed v) :
    Prog.UpTo Lost (Guard G) (writeNode A.config "ReadOram W failed" (nodeOf x l r) >>=
        fun _ => balance A.config (nodeOf x l r)) w
      (Builds A w₀ heap (BinaryTree.balance x l r)
        (reads + readPrice (BinaryTree.rotation l r))
        (writes + 1 + writePrice (BinaryTree.rotation l r))) := by
  obtain ⟨-, -, hx0, -⟩ := sound_node.mp hs
  refine .bind (writeNode_spec hD hw _ hx0.1 hx0.2 (hxallowed _ rfl)) fun _ w₁ hw₁ => ?_
  have ht₁ : Represents (Function.update heap x.id (nodeOf x l r)) (node x l r) := hl.mount hr hs
  refine (balance_spec hD hw₁ ht₁ hs hallowed).mono ?_
  rintro _ w₂ ⟨heap₂, rfl, hw₂, ht₂, hsame₂⟩
  refine ⟨heap₂, rfl, hw₂, ht₂, fun id hid => ?_⟩
  have hne : id ≠ x.id := by
    rintro rfl
    rw [treeIds_balance, mem_treeIds_node] at hid
    exact hid (.inr (.inl rfl))
  rw [hsame₂ id hid, OdsTree.nodeOf_id, Function.update_of_ne hne]

/-- **`InternalInsert` of a new key inserts into the tree.** -/
theorem internalInsert_new (hD : Discipline A w₀.oram G allowed) {e : OdsEntry V} {t : OdsTree V}
    (ht : Represents heap t) (hs : Sound A t) (he : e.id ∉ treeIds t)
    (haddress : e.id ≠ invalidMask ∧ e.id ≤ A.last) (hnew : t.search OdsEntry.key e.key = none)
    (hallowed : ∀ v : TreeNode V, (∃ y ∈ t.insertVisits OdsEntry.key e, v.id = y.id) → allowed v)
    {fuel : ℕ} (hfuel : t.height < fuel) (hw : Shows A w₀ heap reads writes w) :
    Prog.UpTo Lost (Guard G)
      (internalInsert A.config (nodeOf e nil nil) fuel (OdsTree.rootId t)) w
      (Builds A w₀ heap (t.avlInsert OdsEntry.key e)
        (reads + t.insertCost OdsEntry.key readPrice e)
        (writes + t.insertCost OdsEntry.key writePrice e)) := by
  induction t generalizing fuel reads writes w with
  | nil =>
    obtain ⟨f, rfl⟩ : ∃ f, fuel = f + 1 := ⟨fuel - 1, by omega⟩
    rw [internalInsert, if_pos OdsTree.rootId_nil]
    refine (insertNode_spec hD hw _ haddress.1 haddress.2
      (hallowed _ ⟨e, List.mem_singleton.mpr rfl, rfl⟩)).mono ?_
    rintro _ w₁ ⟨rfl, hw₁⟩
    refine ⟨_, rfl, hw₁, ⟨Function.update_self _ _ _, trivial, trivial⟩, fun id hid => ?_⟩
    refine Function.update_of_ne (fun h => hid ?_) _ _
    exact List.mem_singleton.mpr h
  | node x l r hl hr =>
    obtain ⟨f, rfl⟩ : ∃ f, fuel = f + 1 := ⟨fuel - 1, by omega⟩
    obtain ⟨hx, hrl, hrr⟩ := ht
    obtain ⟨hsl, hsr, hx0, -⟩ := sound_node.mp hs
    have hapart := he
    rw [mem_treeIds_node, not_or, not_or] at hapart
    obtain ⟨hel, -, her⟩ := hapart
    rw [BinaryTree.height] at hfuel
    rw [BinaryTree.search] at hnew
    rw [BinaryTree.insertVisits] at hallowed
    have hxallowed : ∀ v : TreeNode V, v.id = x.id → allowed v := by
      refine fun v hv => hallowed v ⟨x, ?_, hv⟩
      split_ifs <;> simp
    rw [internalInsert, OdsTree.rootId_node, if_neg hx0.1]
    refine .bind (readNode_spec hD hw _ (by rw [hx, OdsTree.nodeOf_id]) hx0.1 hx0.2
      (hxallowed _ (by rw [hx, OdsTree.nodeOf_id]))) ?_
    rintro _ w₁ ⟨rfl, hw₁⟩
    rw [hx, BinaryTree.avlInsert, BinaryTree.insertCost, BinaryTree.insertCost]
    by_cases heq : x.key = e.key
    · rw [if_pos heq] at hnew
      cases hnew
    · rw [if_neg heq] at hnew
      by_cases hlt : x.key < e.key
      · rw [if_pos hlt] at hnew hallowed
        rw [if_pos hlt, if_pos hlt, if_pos hlt]
        simp only [OdsTree.nodeOf_key, hlt, if_true]
        refine .bind (hr hrr hsr her hnew (fun v hv => ?_) (by omega) hw₁) ?_
        · obtain ⟨y, hy, hv⟩ := hv
          exact hallowed v ⟨y, List.mem_append_left _ (List.mem_cons_of_mem x hy), hv⟩
        rintro _ w₂ ⟨heap₂, rfl, hw₂, hrr₂, hsame₂⟩
        rw [Prog.pure_bind, nodeOf_right x l r (avlInsert_ne_nil hnew)]
        have hs₂ := hs.insert_right hnew he haddress
        -- the other subtree is not touched
        have hrl₂ : Represents heap₂ l := hrl.congr fun id hid => hsame₂ id
          ((sound_node.mp hs₂).2.2.2.2.2 id hid)
        refine (writeBack_spec hD hw₂ hrl₂ hrr₂ hs₂ hxallowed fun v hv =>
          hallowed v (hv.imp fun _ => And.imp_left (List.mem_append_right _))).mono ?_
        rintro _ w₃ ⟨heap₃, rfl, hw₃, ht₃, hsame₃⟩
        refine ⟨heap₃, rfl, ?_, ht₃, fun id hid => ?_⟩
        · convert hw₃ using 1 <;> omega
        · rw [hsame₃ id hid]
          rw [treeIds_balance, mem_treeIds_node, not_or, not_or] at hid
          exact hsame₂ id hid.2.2
      · have hgt : e.key < x.key := lt_of_le_of_ne (not_lt.mp hlt) (Ne.symm heq)
        rw [if_neg hlt] at hnew hallowed
        rw [if_pos hgt] at hallowed
        rw [if_neg hlt, if_neg hlt, if_neg hlt, if_pos hgt, if_pos hgt, if_pos hgt]
        simp only [OdsTree.nodeOf_key, gt_iff_lt, hlt, hgt, if_true, if_false]
        refine .bind (hl hrl hsl hel hnew (fun v hv => ?_) (by omega) hw₁) ?_
        · obtain ⟨y, hy, hv⟩ := hv
          exact hallowed v ⟨y, List.mem_append_left _ (List.mem_cons_of_mem x hy), hv⟩
        rintro _ w₂ ⟨heap₂, rfl, hw₂, hrl₂, hsame₂⟩
        rw [Prog.pure_bind, nodeOf_left x l r (avlInsert_ne_nil hnew)]
        have hs₂ := hs.insert_left hnew he haddress
        have hrr₂ : Represents heap₂ r := hrr.congr fun id hid => hsame₂ id fun h =>
          (sound_node.mp hs₂).2.2.2.2.2 id h hid
        refine (writeBack_spec hD hw₂ hrl₂ hrr₂ hs₂ hxallowed fun v hv =>
          hallowed v (hv.imp fun _ => And.imp_left (List.mem_append_right _))).mono ?_
        rintro _ w₃ ⟨heap₃, rfl, hw₃, ht₃, hsame₃⟩
        refine ⟨heap₃, rfl, ?_, ht₃, fun id hid => ?_⟩
        · convert hw₃ using 1 <;> omega
        · rw [hsame₃ id hid]
          rw [treeIds_balance, mem_treeIds_node, not_or] at hid
          exact hsame₂ id hid.1

end OdictController

end ObliviousRam
