import ObliviousRam.OdictRecall

set_option autoImplicit false

/-!
# The misses of a search and of an insertion

A search and the way down of an insertion miss once for every node of the search
path. On the way up everything is a hit: the node that is balanced, its child
and its grandchild are the nodes used last.
-/

namespace ObliviousRam

open BinaryTree (nil node Rotation)
open OdsTree (nodeOf topNode Represents Sound treeIds mem_treeIds_node sound_node
  treeIds_rotateLeft treeIds_balance treeIds_avlInsert avlInsert_ne_nil)

variable {V : Type}

namespace OdictController

/-- `Recalls`, with the ids in some order. -/
def RecallsSome (A : ArraySetup V) (w₀ : LoggedOdict V) (heap : ℕ → TreeNode V)
    (touched : Finset ℕ) (table : List ℕ) (reads writes misses : ℕ) (w : LoggedOdict V) : Prop :=
  ∃ order, order.Perm table ∧ Recalls A w₀ heap touched order reads writes misses w

/-- The ids of some entries. -/
def idSet (entries : List (OdsEntry V)) : Finset ℕ := (entries.map OdsEntry.id).toFinset

@[simp] theorem idSet_nil : idSet ([] : List (OdsEntry V)) = ∅ := rfl

theorem idSet_cons (x : OdsEntry V) (path : List (OdsEntry V)) :
    idSet (x :: path) = {x.id} ∪ idSet path := List.toFinset_cons

theorem union_idSet_cons (touched : Finset ℕ) (x : OdsEntry V) (path : List (OdsEntry V)) :
    touched ∪ idSet (x :: path) = touched ∪ {x.id} ∪ idSet path := by
  rw [idSet_cons, Finset.union_assoc]

/-- A part of the operation that finds its nodes in the cache and leaves the tree `t`. -/
def Rearranges (A : ArraySetup V) (w₀ : LoggedOdict V) (heap : ℕ → TreeNode V)
    (touched : Finset ℕ) (table : List ℕ) (t : OdsTree V) (reads writes misses : ℕ)
    (w : LoggedOdict V) : Prop :=
  ∃ heap', RecallsSome A w₀ heap' touched table reads writes misses w ∧ Represents heap' t ∧
    ∀ id ∉ treeIds t, heap' id = heap id

variable {A B : ArraySetup V} {w₀ w : LoggedOdict V} {heap : ℕ → TreeNode V}
  {touched : Finset ℕ} {table : List ℕ} {reads writes misses : ℕ}

/-! ## Hits

A node that is in the cache is read without an access to the ORAM, and moves to the
front. The numbers of reads, writes and misses are carried along with what the cache
holds. -/

theorem RecallsSome.read [Inhabited V]
    (hw : RecallsSome A w₀ heap touched table reads writes misses w) (reason : String) {id : ℕ}
    (hid : id ∈ table) {x : TreeNode V} (hx : heap id = x) :
    ∃ w', readNode A.config.logged reason id w = (.ok x, w') ∧
      RecallsSome A w₀ heap touched table (reads + 1) writes misses w' := by
  obtain ⟨order, horder, hw⟩ := hw
  have hmem := horder.mem_iff.mpr hid
  obtain ⟨w', hrun, hw'⟩ := readNode_hit hw reason hmem
  rw [hx] at hrun
  exact ⟨w', hrun, _, (List.perm_cons_erase hmem).symm.trans horder, hw'⟩

theorem RecallsSome.write (hw : RecallsSome A w₀ heap touched table reads writes misses w)
    (reason : String) (x : TreeNode V) (hid : x.id ∈ table) :
    ∃ w', writeNode A.config.logged reason x w = (.ok (), w') ∧
      RecallsSome A w₀ (Function.update heap x.id x) touched table reads (writes + 1) misses
        w' := by
  obtain ⟨order, horder, hw⟩ := hw
  have hmem := horder.mem_iff.mpr hid
  obtain ⟨w', hrun, hw'⟩ := writeNode_touches hw reason x
  have hsame : touched ∪ {x.id} = touched :=
    Finset.union_eq_left.mpr (Finset.singleton_subset_iff.mpr (hw.touched_of_mem _ hmem))
  rw [OdsCache.lruUse_of_mem hmem hw.length_le, hsame] at hw'
  exact ⟨w', hrun, _, (List.perm_cons_erase hmem).symm.trans horder, hw'⟩

/-- The subtrees of a node are new still when it has been touched. -/
theorem new_below {x : OdsEntry V} {l r : OdsTree V} (hs : Sound A (node x l r))
    (hnew : ∀ id ∈ treeIds (node x l r), id ∉ touched) :
    (∀ id ∈ treeIds l, id ∉ touched ∪ {x.id}) ∧ ∀ id ∈ treeIds r, id ∉ touched ∪ {x.id} := by
  obtain ⟨-, -, -, hxl, hxr, -⟩ := sound_node.mp hs
  refine ⟨fun id hid => ?_, fun id hid => ?_⟩
  · simp only [Finset.mem_union, Finset.mem_singleton, not_or]
    exact ⟨hnew id (mem_treeIds_node.mpr (.inl hid)), fun h => hxl (h ▸ hid)⟩
  · simp only [Finset.mem_union, Finset.mem_singleton, not_or]
    exact ⟨hnew id (mem_treeIds_node.mpr (.inr (.inr hid))), fun h => hxr (h ▸ hid)⟩

/-! ## What was used last -/

/-- The crest of the tree is what was used last. -/
def Recent (A : ArraySetup V) (t : OdsTree V) (table : List ℕ) : Prop :=
  (t.crest.map OdsEntry.id).take A.clientCacheMaxSize <+: table

/-- A node that is put above a recent crest. -/
theorem Recent.put {t : OdsTree V} (h : Recent A t table) {x : OdsEntry V}
    (hx : x.id ∉ treeIds t) :
    ((x :: t.crest).map OdsEntry.id).take A.clientCacheMaxSize <+:
      OdsCache.lruUse A.clientCacheMaxSize x.id table := by
  rw [List.map_cons]
  refine OdsCache.prefix_lruUse h fun hmem => hx ?_
  obtain ⟨y, hy, hid⟩ := List.mem_map.mp hmem
  exact hid ▸ List.mem_map_of_mem (BinaryTree.mem_inorder_of_mem_crest hy)

/-- **The nodes of a repair are in the cache** that has room for them. -/
theorem Recent.moved {t l r : OdsTree V} (h : Recent A t table) {x : OdsEntry V}
    (hx : x.id ∉ treeIds t) (hcrest : BinaryTree.moved x l r <+: x :: t.crest)
    (hroom : (BinaryTree.rotation l r).size ≤ A.clientCacheMaxSize) :
    ∀ e ∈ BinaryTree.moved x l r, e.id ∈ OdsCache.lruUse A.clientCacheMaxSize x.id table := by
  intro e he
  have hids : (BinaryTree.moved x l r).map OdsEntry.id <+:
      ((x :: t.crest).map OdsEntry.id).take A.clientCacheMaxSize := by
    rw [List.prefix_take_iff, List.length_map, BinaryTree.length_moved]
    exact ⟨hcrest.map OdsEntry.id, hroom⟩
  exact (hids.trans (h.put hx)).subset (List.mem_map_of_mem he)

/-- A crest that is made of the node and the crest below. -/
theorem Recent.rise {t t' : OdsTree V} (h : Recent A t table) {x : OdsEntry V}
    (hx : x.id ∉ treeIds t) (hcrest : t'.crest <+: x :: t.crest) :
    Recent A t' (OdsCache.lruUse A.clientCacheMaxSize x.id table) :=
  ((hcrest.map OdsEntry.id).take A.clientCacheMaxSize).trans (h.put hx)

variable [Inhabited V]

/-! ## Rotations -/

/-- `LeftRotate`. -/
theorem leftRotate_hits (hw : RecallsSome A w₀ heap touched table reads writes misses w)
    {x y : OdsEntry V} {a b c : OdsTree V} (ht : Represents heap (node x a (node y b c)))
    (hs : Sound B (node x a (node y b c))) (hx : x.id ∈ table) (hy : y.id ∈ table) :
    ∃ w', leftRotate A.config.logged x.id w = (.ok (nodeOf y (node x a b) c), w') ∧
      Rearranges A w₀ heap touched table (node y (node x a b) c) (reads + 2) (writes + 2) misses
        w' := by
  have ⟨hxn, _, hyn, _, _⟩ := ht
  obtain ⟨w₁, hread₁, hw₁⟩ := hw.read "OdsAccess R failed" hx hxn
  obtain ⟨w₂, hread₂, hw₂⟩ := hw₁.read "OdsAccess R failed" hy hyn
  obtain ⟨w₃, hwrite₁, hw₃⟩ := hw₂.write "OdsAccess W failed" (nodeOf x a b) hx
  obtain ⟨w₄, hwrite₂, hw₄⟩ := hw₃.write "OdsAccess failed" (nodeOf y (node x a b) c) hy
  refine ⟨w₄, ?_, _, hw₄, ht.rotateLeft hs⟩
  apply (Prog.bind_ok hread₁).trans
  apply (Prog.bind_ok hread₂).trans
  apply (Prog.bind_ok hwrite₁).trans
  exact Prog.bind_ok hwrite₂

/-- `RightRotate`. -/
theorem rightRotate_hits (hw : RecallsSome A w₀ heap touched table reads writes misses w)
    {x y : OdsEntry V} {a b c : OdsTree V} (ht : Represents heap (node x (node y a b) c))
    (hs : Sound B (node x (node y a b) c)) (hx : x.id ∈ table) (hy : y.id ∈ table) :
    ∃ w', rightRotate A.config.logged x.id w = (.ok (nodeOf y a (node x b c)), w') ∧
      Rearranges A w₀ heap touched table (node y a (node x b c)) (reads + 2) (writes + 2) misses
        w' := by
  have ⟨hxn, ⟨hyn, _, _⟩, _⟩ := ht
  obtain ⟨w₁, hread₁, hw₁⟩ := hw.read "OdsAccess R failed" hx hxn
  obtain ⟨w₂, hread₂, hw₂⟩ := hw₁.read "OdsAccess R failed" hy hyn
  obtain ⟨w₃, hwrite₁, hw₃⟩ := hw₂.write "OdsAccess W failed" (nodeOf x b c) hx
  obtain ⟨w₄, hwrite₂, hw₄⟩ := hw₃.write "OdsAccess failed" (nodeOf y a (node x b c)) hy
  refine ⟨w₄, ?_, _, hw₄, ht.rotateRight hs⟩
  apply (Prog.bind_ok hread₁).trans
  apply (Prog.bind_ok hread₂).trans
  apply (Prog.bind_ok hwrite₁).trans
  exact Prog.bind_ok hwrite₂

/-- `LeftRightRotate`. -/
theorem leftRightRotate_hits (hw : RecallsSome A w₀ heap touched table reads writes misses w)
    {x y z : OdsEntry V} {a b c d : OdsTree V}
    (ht : Represents heap (node x (node y a (node z b c)) d))
    (hs : Sound B (node x (node y a (node z b c)) d)) (hx : x.id ∈ table) (hy : y.id ∈ table)
    (hz : z.id ∈ table) :
    ∃ w', leftRightRotate A.config.logged x.id w =
        (.ok (nodeOf z (node y a b) (node x c d)), w') ∧
      Rearranges A w₀ heap touched table (node z (node y a b) (node x c d)) (reads + 5) (writes + 5)
        misses w' := by
  have ⟨hxn, hrl, hrd⟩ := ht
  have ⟨hsl, _, _, _, _, hld⟩ := sound_node.mp hs
  obtain ⟨w₁, hread, hw₁⟩ := hw.read "OdsAccess R failed" hx hxn
  obtain ⟨w₂, hleft, heap₂, hw₂, hrl₂, hsame₂⟩ := leftRotate_hits hw₁ hrl hsl hy hz
  obtain ⟨w₃, hwrite, hw₃⟩ :=
    hw₂.write "OdsAccess W failed" (nodeOf x (node z (node y a b) c) d) hx
  have hids := treeIds_rotateLeft y z a b c
  have hs₃ : Sound B (node x (node z (node y a b) c) d) := hs.congr (by
    rw [OdsTree.treeIds_node x, OdsTree.treeIds_node x, hids])
  have ht₃ := hrl₂.mount (hrd.congr fun id hid => hsame₂ id fun h => hld id (hids ▸ h) hid) hs₃
  obtain ⟨w₄, hright, heap₄, hw₄, ht₄, hsame₄⟩ := rightRotate_hits hw₃ ht₃ hs₃ hx hz
  refine ⟨w₄, ?_, heap₄, hw₄, ht₄, fun id hid => ?_⟩
  · apply (Prog.bind_ok hread).trans
    apply (Prog.bind_ok hleft).trans
    apply (Prog.bind_ok hwrite).trans
    exact hright
  · obtain ⟨hne, hout⟩ := OdsTree.apart_left hid
    have hback : Function.update heap₂ x.id (nodeOf x (node z (node y a b) c) d) id = heap₂ id :=
      Function.update_of_ne hne _ _
    rw [hsame₄ id hid]
    exact hback.trans (hsame₂ id hout)

/-- `RightLeftRotate`. -/
theorem rightLeftRotate_hits (hw : RecallsSome A w₀ heap touched table reads writes misses w)
    {x y z : OdsEntry V} {a b c d : OdsTree V}
    (ht : Represents heap (node x a (node y (node z b c) d)))
    (hs : Sound B (node x a (node y (node z b c) d))) (hx : x.id ∈ table) (hy : y.id ∈ table)
    (hz : z.id ∈ table) :
    ∃ w', rightLeftRotate A.config.logged x.id w =
        (.ok (nodeOf z (node x a b) (node y c d)), w') ∧
      Rearranges A w₀ heap touched table (node z (node x a b) (node y c d)) (reads + 5) (writes + 5)
        misses w' := by
  have ⟨hxn, hra, hrr⟩ := ht
  have ⟨_, hsr, _, _, _, har⟩ := sound_node.mp hs
  obtain ⟨w₁, hread, hw₁⟩ := hw.read "OdsAccess R failed" hx hxn
  obtain ⟨w₂, hright, heap₂, hw₂, hrr₂, hsame₂⟩ := rightRotate_hits hw₁ hrr hsr hy hz
  obtain ⟨w₃, hwrite, hw₃⟩ :=
    hw₂.write "OdsAccess W failed" (nodeOf x a (node z b (node y c d))) hx
  have hids := (treeIds_rotateLeft z y b c d).symm
  have hs₃ : Sound B (node x a (node z b (node y c d))) := hs.congr (by
    rw [OdsTree.treeIds_node x, OdsTree.treeIds_node x, hids])
  have hra₂ : Represents heap₂ a :=
    hra.congr fun id hid => hsame₂ id fun h => har id hid (hids ▸ h)
  have ht₃ := hra₂.mount hrr₂ hs₃
  obtain ⟨w₄, hleft, heap₄, hw₄, ht₄, hsame₄⟩ := leftRotate_hits hw₃ ht₃ hs₃ hx hz
  refine ⟨w₄, ?_, heap₄, hw₄, ht₄, fun id hid => ?_⟩
  · apply (Prog.bind_ok hread).trans
    apply (Prog.bind_ok hright).trans
    apply (Prog.bind_ok hwrite).trans
    exact hleft
  · obtain ⟨hne, hout⟩ := OdsTree.apart_right hid
    have hback : Function.update heap₂ x.id (nodeOf x a (node z b (node y c d))) id = heap₂ id :=
      Function.update_of_ne hne _ _
    rw [hsame₄ id hid]
    exact hback.trans (hsame₂ id hout)

/-- **`Balance`** finds the nodes that it moves in the cache. -/
theorem balance_hits (hw : RecallsSome A w₀ heap touched table reads writes misses w)
    {x : OdsEntry V} {l r : OdsTree V} (ht : Represents heap (node x l r))
    (hs : Sound B (node x l r)) (hmoved : ∀ e ∈ BinaryTree.moved x l r, e.id ∈ table) :
    ∃ w', balance A.config.logged (nodeOf x l r) w =
        (.ok (topNode (BinaryTree.balance x l r)), w') ∧
      Rearranges A w₀ heap touched table (BinaryTree.balance x l r)
        (reads + readPrice (BinaryTree.rotation l r))
        (writes + writePrice (BinaryTree.rotation l r)) misses w' := by
  have ⟨_, hrl, hrr⟩ := ht
  rw [BinaryTree.balance, BinaryTree.rotation]
  rw [BinaryTree.moved] at hmoved
  by_cases hl : r.height + 1 < l.height
  · obtain ⟨y, a, b, rfl⟩ := BinaryTree.exists_node (t := l) (by omega)
    rw [balance_leftHeavy _ hl, if_pos hl, if_pos hl]
    rw [if_pos hl] at hmoved
    by_cases hcase : (node y a b).right.height ≤ (node y a b).left.height
    · rw [if_pos hcase] at hmoved ⊢
      rw [if_pos hcase]
      have hx := hmoved x (by simp)
      have hy := hmoved y (by simp [BinaryTree.root?])
      obtain ⟨w₁, hread, hw₁⟩ := hw.read "OdsAccess R failed" hy hrl.1
      obtain ⟨w₂, hrotate, hw₂⟩ := rightRotate_hits hw₁ ht hs hx hy
      refine ⟨w₂, ?_, hw₂⟩
      apply (Prog.bind_ok hread).trans
      exact (congrFun (if_pos hcase) w₁).trans hrotate
    · have hdouble : ¬b.height ≤ a.height := hcase
      obtain ⟨z, b₁, b₂, rfl⟩ := BinaryTree.exists_node (t := b) (by omega)
      rw [if_neg hcase] at hmoved ⊢
      rw [if_neg hcase]
      have hx := hmoved x (by simp)
      have hy := hmoved y (by simp [BinaryTree.root?])
      have hz := hmoved z (by simp [BinaryTree.root?])
      obtain ⟨w₁, hread, hw₁⟩ := hw.read "OdsAccess R failed" hy hrl.1
      obtain ⟨w₂, hrotate, hw₂⟩ := leftRightRotate_hits hw₁ ht hs hx hy hz
      refine ⟨w₂, ?_, hw₂⟩
      apply (Prog.bind_ok hread).trans
      exact (congrFun (if_neg hcase) w₁).trans hrotate
  · rw [if_neg hl, if_neg hl]
    rw [if_neg hl] at hmoved
    by_cases hr : l.height + 1 < r.height
    · obtain ⟨y, b, c, rfl⟩ := BinaryTree.exists_node (t := r) (by omega)
      rw [balance_rightHeavy _ hr, if_pos hr, if_pos hr]
      rw [if_pos hr] at hmoved
      by_cases hcase : (node y b c).left.height ≤ (node y b c).right.height
      · rw [if_pos hcase] at hmoved ⊢
        rw [if_pos hcase]
        have hx := hmoved x (by simp)
        have hy := hmoved y (by simp [BinaryTree.root?])
        obtain ⟨w₁, hread, hw₁⟩ := hw.read "OdsAccess R failed" hy hrr.1
        obtain ⟨w₂, hrotate, hw₂⟩ := leftRotate_hits hw₁ ht hs hx hy
        refine ⟨w₂, ?_, hw₂⟩
        apply (Prog.bind_ok hread).trans
        exact (congrFun (if_pos hcase) w₁).trans hrotate
      · have hdouble : ¬b.height ≤ c.height := hcase
        obtain ⟨z, b₁, b₂, rfl⟩ := BinaryTree.exists_node (t := b) (by omega)
        rw [if_neg hcase] at hmoved ⊢
        rw [if_neg hcase]
        have hx := hmoved x (by simp)
        have hy := hmoved y (by simp [BinaryTree.root?])
        have hz := hmoved z (by simp [BinaryTree.root?])
        obtain ⟨w₁, hread, hw₁⟩ := hw.read "OdsAccess R failed" hy hrr.1
        obtain ⟨w₂, hrotate, hw₂⟩ := rightLeftRotate_hits hw₁ ht hs hx hy hz
        refine ⟨w₂, ?_, hw₂⟩
        apply (Prog.bind_ok hread).trans
        exact (congrFun (if_neg hcase) w₁).trans hrotate
    · rw [balance_of_even _ (not_lt.mp hl) (not_lt.mp hr), if_neg hr, if_neg hr]
      exact ⟨w, rfl, heap, hw, ht, fun _ _ => rfl⟩

/-! ## Search -/

/-- The root of a tree that is new is a miss. -/
theorem Recalls.read_root (hw : Recalls A w₀ heap touched table reads writes misses w)
    (reason : String) {x : OdsEntry V} {l r : OdsTree V} (ht : Represents heap (node x l r))
    (hs : Sound A (node x l r)) (hnew : ∀ id ∈ treeIds (node x l r), id ∉ touched) :
    ∃ w', readNode A.config.logged reason x.id w = (.ok (nodeOf x l r), w') ∧
      Recalls A w₀ heap (touched ∪ {x.id}) (OdsCache.lruUse A.clientCacheMaxSize x.id table)
        (reads + 1) writes (misses + 1) w' := by
  obtain ⟨-, -, hx0, -⟩ := sound_node.mp hs
  have hmem : x.id ∈ treeIds (node x l r) := mem_treeIds_node.mpr (.inr (.inl rfl))
  obtain ⟨w', hread, hw'⟩ := readNode_miss hw reason (hnew _ hmem) (by rw [ht.1]; rfl) hx0.1 hx0.2
  rw [ht.1] at hread
  exact ⟨w', hread, hw'⟩

/-- **`InternalFind`** misses once for every node of the path. -/
theorem internalFind_misses {t : OdsTree V} (ht : Represents heap t) (hs : Sound A t) (key : ℕ)
    (hnew : ∀ id ∈ treeIds t, id ∉ touched) {fuel : ℕ} (hfuel : t.height < fuel)
    (hw : Recalls A w₀ heap touched table reads writes misses w) :
    ∃ found w' table', internalFind A.config.logged key fuel (OdsTree.rootId t) w =
        (.ok found, w') ∧
      Recalls A w₀ heap (touched ∪ idSet (t.path OdsEntry.key key)) table'
        (reads + (t.path OdsEntry.key key).length) writes
        (misses + (t.path OdsEntry.key key).length) w' := by
  induction t generalizing fuel touched table reads misses w with
  | nil =>
    obtain ⟨f, rfl⟩ : ∃ f, fuel = f + 1 := ⟨fuel - 1, by omega⟩
    refine ⟨none, w, table, rfl, ?_⟩
    simpa [BinaryTree.path] using hw
  | node x l r hl hr =>
    obtain ⟨f, rfl⟩ : ∃ f, fuel = f + 1 := ⟨fuel - 1, by omega⟩
    have hrl : Represents heap l := ht.2.1
    have hrr : Represents heap r := ht.2.2
    obtain ⟨hsl, hsr, hx0, -⟩ := sound_node.mp hs
    obtain ⟨hnewl, hnewr⟩ := new_below hs hnew
    rw [BinaryTree.height] at hfuel
    have hfuell : l.height < f := by omega
    have hfuelr : r.height < f := by omega
    obtain ⟨w₁, hread, hw₁⟩ := hw.read_root "ReadOram failed" ht hs hnew
    rw [internalFind, OdsTree.rootId_node, if_neg hx0.1, BinaryTree.path]
    by_cases heq : x.key = key
    · refine ⟨some (nodeOf x l r), w₁,
        OdsCache.lruUse A.clientCacheMaxSize x.id table, ?_, ?_⟩
      · apply (Prog.bind_ok hread).trans
        exact congrFun (if_pos heq) w₁
      · rw [if_neg heq.not_lt, if_neg heq.not_gt, union_idSet_cons]
        simpa using hw₁
    · by_cases hlt : x.key < key
      · obtain ⟨found, w₂, table₂, hrest, hw₂⟩ := hr hrr hsr hnewr hfuelr hw₁
        refine ⟨found, w₂, table₂, ?_, ?_⟩
        · apply (Prog.bind_ok hread).trans
          apply (congrFun (if_neg heq) w₁).trans
          exact (congrFun (if_pos hlt) w₁).trans hrest
        · rw [if_pos hlt, union_idSet_cons, List.length_cons, Nat.add_comm _ 1, ← Nat.add_assoc,
            ← Nat.add_assoc]
          exact hw₂
      · have hgt : key < x.key := lt_of_le_of_ne (not_lt.mp hlt) (Ne.symm heq)
        obtain ⟨found, w₂, table₂, hrest, hw₂⟩ := hl hrl hsl hnewl hfuell hw₁
        refine ⟨found, w₂, table₂, ?_, ?_⟩
        · apply (Prog.bind_ok hread).trans
          apply (congrFun (if_neg heq) w₁).trans
          exact (congrFun (if_neg hlt) w₁).trans hrest
        · rw [if_neg hlt, if_pos hgt, union_idSet_cons, List.length_cons, Nat.add_comm _ 1,
            ← Nat.add_assoc, ← Nat.add_assoc]
          exact hw₂

/-! ## Insertion

On the way down every node of the path is a miss. On the way up the node at hand, its
child and grandchild are those used last, so a repair finds them in any cache that has
room for three. -/

/-- The tail of `InternalInsert` without a new subtree: a node of the path is written as it was
read. -/
theorem writeBack_unchanged {x : OdsEntry V} {l r : OdsTree V} (hx : heap x.id = nodeOf x l r)
    (hle : l.height ≤ r.height + 1) (hge : r.height ≤ l.height + 1) (path : List (OdsEntry V))
    (hw : Recalls A w₀ heap (touched ∪ idSet (x :: path)) table reads writes misses w) :
    ∃ w' table', (writeNode A.config.logged "ReadOram W failed" (nodeOf x l r) >>=
        fun _ => balance A.config.logged (nodeOf x l r)) w = (.ok (topNode (node x l r)), w') ∧
      Recalls A w₀ heap (touched ∪ idSet (x :: path)) table' reads (writes + 1) misses w' := by
  obtain ⟨w', hwrite, hw'⟩ := writeNode_touches hw "ReadOram W failed" (nodeOf x l r)
  have hheap : Function.update heap x.id (nodeOf x l r) = heap := by
    rw [← hx, Function.update_eq_self]
  have hset : touched ∪ idSet (x :: path) ∪ {x.id} = touched ∪ idSet (x :: path) := by
    simp [idSet_cons]
  refine ⟨w', _, ?_, hset ▸ hheap ▸ hw'⟩
  apply (Prog.bind_ok hwrite).trans
  rw [balance_of_even _ hle hge]
  rfl

/-- **`InternalInsert` of a key that is there** misses once for every node of the path. -/
theorem internalInsert_known_misses {t : OdsTree V} (ht : Represents heap t) (hs : Sound A t)
    (hbal : t.Balanced) (new : TreeNode V) (hfound : t.search OdsEntry.key new.kvPair.1 ≠ none)
    (hnew : ∀ id ∈ treeIds t, id ∉ touched) {fuel : ℕ} (hfuel : t.height < fuel)
    (hw : Recalls A w₀ heap touched table reads writes misses w) :
    ∃ w' table', internalInsert A.config.logged new fuel (OdsTree.rootId t) w =
        (.ok (topNode t), w') ∧
      Recalls A w₀ heap (touched ∪ idSet (t.path OdsEntry.key new.kvPair.1)) table'
        (reads + (t.path OdsEntry.key new.kvPair.1).length)
        (writes + (t.path OdsEntry.key new.kvPair.1).length)
        (misses + (t.path OdsEntry.key new.kvPair.1).length) w' := by
  induction t generalizing fuel touched table reads writes misses w with
  | nil => exact absurd rfl hfound
  | node x l r hl hr =>
    obtain ⟨f, rfl⟩ : ∃ f, fuel = f + 1 := ⟨fuel - 1, by omega⟩
    have ⟨hx, hrl, hrr⟩ := ht
    have ⟨hsl, hsr, hx0, _⟩ := sound_node.mp hs
    obtain ⟨hnewl, hnewr⟩ := new_below hs hnew
    rw [BinaryTree.height] at hfuel
    have hfuell : l.height < f := by omega
    have hfuelr : r.height < f := by omega
    rw [BinaryTree.search] at hfound
    obtain ⟨w₁, hread, hw₁⟩ := hw.read_root "ReadOram R failed" ht hs hnew
    rw [internalInsert, OdsTree.rootId_node, if_neg hx0.1, BinaryTree.path]
    by_cases heq : x.key = new.kvPair.1
    · rw [if_neg heq.not_lt, if_neg heq.not_gt]
      obtain ⟨w₂, table₂, hrun, hw₂⟩ := writeBack_unchanged hx hbal.1 hbal.2.1 [] (by
        rw [union_idSet_cons]
        simpa using hw₁)
      refine ⟨w₂, table₂, ?_, hw₂⟩
      apply (Prog.bind_ok hread).trans
      rw [OdsTree.nodeOf_key, if_neg heq.not_lt, if_neg heq.not_gt]
      exact hrun
    · rw [if_neg heq] at hfound
      by_cases hlt : x.key < new.kvPair.1
      · rw [if_pos hlt] at hfound
        obtain ⟨w₂, table₂, hrest, hw₂⟩ :=
          hr hrr hsr hbal.2.2.2 hfound hnewr hfuelr hw₁
        have hne : r ≠ nil := fun h => hfound (h ▸ rfl)
        rw [← union_idSet_cons] at hw₂
        obtain ⟨w₃, table₃, hrun, hw₃⟩ := writeBack_unchanged hx hbal.1 hbal.2.1 _ hw₂
        refine ⟨w₃, table₃, ?_, ?_⟩
        · apply (Prog.bind_ok hread).trans
          rw [OdsTree.nodeOf_key, if_pos hlt]
          apply (Prog.bind_ok hrest).trans
          rw [Prog.pure_bind, nodeOf_right x l r hne]
          exact hrun
        · rw [if_pos hlt, List.length_cons, Nat.add_comm _ 1, ← Nat.add_assoc, ← Nat.add_assoc,
            ← Nat.add_assoc, Nat.add_right_comm writes]
          exact hw₃
      · have hgt : new.kvPair.1 < x.key := lt_of_le_of_ne (not_lt.mp hlt) (Ne.symm heq)
        rw [if_neg hlt] at hfound
        obtain ⟨w₂, table₂, hrest, hw₂⟩ :=
          hl hrl hsl hbal.2.2.1 hfound hnewl hfuell hw₁
        have hne : l ≠ nil := fun h => hfound (h ▸ rfl)
        rw [← union_idSet_cons] at hw₂
        obtain ⟨w₃, table₃, hrun, hw₃⟩ := writeBack_unchanged hx hbal.1 hbal.2.1 _ hw₂
        refine ⟨w₃, table₃, ?_, ?_⟩
        · apply (Prog.bind_ok hread).trans
          rw [OdsTree.nodeOf_key, if_neg hlt, if_pos hgt]
          apply (Prog.bind_ok hrest).trans
          rw [Prog.pure_bind, nodeOf_left x l r hne]
          exact hrun
        · rw [if_neg hlt, if_pos hgt, List.length_cons, Nat.add_comm _ 1, ← Nat.add_assoc,
            ← Nat.add_assoc, ← Nat.add_assoc, Nat.add_right_comm writes]
          exact hw₃

/-- The tail of `InternalInsert`: the node that has a new subtree is written and balanced. -/
theorem writeBack_hits (hw : Recalls A w₀ heap touched table reads writes misses w)
    {x : OdsEntry V} {l r : OdsTree V} (hl : Represents heap l) (hr : Represents heap r)
    (hs : Sound B (node x l r))
    (hmoved : ∀ e ∈ BinaryTree.moved x l r,
      e.id ∈ OdsCache.lruUse A.clientCacheMaxSize x.id table) :
    ∃ heap' w' table', (writeNode A.config.logged "ReadOram W failed" (nodeOf x l r) >>=
        fun _ => balance A.config.logged (nodeOf x l r)) w =
          (.ok (topNode (BinaryTree.balance x l r)), w') ∧
      Recalls A w₀ heap' (touched ∪ {x.id}) table'
        (reads + readPrice (BinaryTree.rotation l r))
        (writes + 1 + writePrice (BinaryTree.rotation l r)) misses w' ∧
      Represents heap' (BinaryTree.balance x l r) ∧
      (∀ id ∉ treeIds (node x l r), heap' id = heap id) ∧
      (BinaryTree.rotation l r = .none →
        table' = OdsCache.lruUse A.clientCacheMaxSize x.id table) := by
  obtain ⟨w₁, hwrite, hw₁⟩ := writeNode_touches hw "ReadOram W failed" (nodeOf x l r)
  have ht₁ := hl.mount hr hs
  have hsame₁ : ∀ id ∉ treeIds (node x l r),
      Function.update heap x.id (nodeOf x l r) id = heap id := by
    intro id hid
    refine Function.update_of_ne ?_ _ _
    rintro rfl
    simp [mem_treeIds_node] at hid
  by_cases hρ : BinaryTree.rotation l r = .none
  · obtain ⟨hle, hge⟩ := BinaryTree.rotation_eq_none.mp hρ
    rw [BinaryTree.balance_of_none hρ, hρ]
    refine ⟨_, w₁, _, ?_, hw₁, ht₁, hsame₁, fun _ => rfl⟩
    apply (Prog.bind_ok hwrite).trans
    rw [balance_of_even _ hle hge]
    rfl
  · obtain ⟨w₂, hbalance, heap₂, ⟨order, -, hw₂⟩, ht₂, hsame₂⟩ :=
      balance_hits ⟨_, List.Perm.refl _, hw₁⟩ ht₁ hs hmoved
    refine ⟨heap₂, w₂, order, ?_, hw₂, ht₂, fun id hid => ?_, fun h => absurd h hρ⟩
    · apply (Prog.bind_ok hwrite).trans
      exact hbalance
    · rw [hsame₂ id (by rw [treeIds_balance]; exact hid)]
      exact hsame₁ id hid

/-- The tail of `InternalInsert` above a subtree `s` that has a new node. A repair moves
nodes of a recent crest, and a node that grows keeps one. -/
theorem writeBack_above (hw : Recalls A w₀ heap touched table reads writes misses w)
    {x : OdsEntry V} {l r s : OdsTree V} (hl : Represents heap l) (hr : Represents heap r)
    (hs : Sound B (node x l r)) (hx : x.id ∉ treeIds s)
    (hroom : (BinaryTree.rotation l r).size ≤ A.clientCacheMaxSize)
    (hmoved : BinaryTree.rotation l r ≠ .none →
      Recent A s table ∧ BinaryTree.moved x l r <+: x :: s.crest) {h : ℕ}
    (hgrown : (BinaryTree.balance x l r).height = h + 1 →
      BinaryTree.rotation l r = .none ∧ Recent A s table ∧ (node x l r).crest <+: x :: s.crest) :
    ∃ heap' w' table', (writeNode A.config.logged "ReadOram W failed" (nodeOf x l r) >>=
        fun _ => balance A.config.logged (nodeOf x l r)) w =
          (.ok (topNode (BinaryTree.balance x l r)), w') ∧
      Recalls A w₀ heap' (touched ∪ {x.id}) table'
        (reads + readPrice (BinaryTree.rotation l r))
        (writes + 1 + writePrice (BinaryTree.rotation l r)) misses w' ∧
      Represents heap' (BinaryTree.balance x l r) ∧
      (∀ id ∉ treeIds (node x l r), heap' id = heap id) ∧
      ((BinaryTree.balance x l r).height = h + 1 →
        Recent A (BinaryTree.balance x l r) table') := by
  have hcached : ∀ y ∈ BinaryTree.moved x l r,
      y.id ∈ OdsCache.lruUse A.clientCacheMaxSize x.id table := by
    by_cases hρ : BinaryTree.rotation l r = .none
    · rw [BinaryTree.moved_of_none hρ]
      exact nofun
    · obtain ⟨hrecent, hcrest⟩ := hmoved hρ
      exact hrecent.moved hx hcrest hroom
  obtain ⟨heap', w', table', hrun, hw', ht', hsame, htable⟩ := writeBack_hits hw hl hr hs hcached
  refine ⟨heap', w', table', hrun, hw', ht', hsame, fun hup => ?_⟩
  obtain ⟨hnone, hrecent, hcrest⟩ := hgrown hup
  rw [BinaryTree.balance_of_none hnone, htable hnone]
  exact hrecent.rise hx hcrest

/-- **`InternalInsert` of a new key** misses once for every node of the path, if the
cache has room for the nodes of the repair. -/
theorem internalInsert_new_misses {e : OdsEntry V} {t : OdsTree V} (ht : Represents heap t)
    (hs : Sound A t) (hbal : t.Balanced) (he : e.id ∉ treeIds t) (hid : e.id ≠ invalidMask)
    (hsearch : t.search OdsEntry.key e.key = none) (hnew : ∀ id ∈ treeIds t, id ∉ touched)
    (hroom : (t.insertRotation OdsEntry.key e).size ≤ A.clientCacheMaxSize) {fuel : ℕ}
    (hfuel : t.height < fuel) (hw : Recalls A w₀ heap touched table reads writes misses w) :
    ∃ heap' w' table', internalInsert A.config.logged (nodeOf e nil nil) fuel (OdsTree.rootId t) w =
        (.ok (topNode (t.avlInsert OdsEntry.key e)), w') ∧
      Recalls A w₀ heap' (touched ∪ idSet (e :: t.path OdsEntry.key e.key)) table'
        (reads + t.insertCost OdsEntry.key readPrice e)
        (writes + t.insertCost OdsEntry.key writePrice e)
        (misses + (t.path OdsEntry.key e.key).length) w' ∧
      Represents heap' (t.avlInsert OdsEntry.key e) ∧
      (∀ id ∉ treeIds (t.avlInsert OdsEntry.key e), heap' id = heap id) ∧
      ((t.avlInsert OdsEntry.key e).height = t.height + 1 →
        Recent A (t.avlInsert OdsEntry.key e) table') := by
  -- the new id may lie beyond the addresses of the array
  let B : ArraySetup V := { A with last := max A.last e.id }
  have hlast : A.last ≤ B.last := le_max_left _ _
  have haddress : e.id ≠ invalidMask ∧ e.id ≤ B.last := ⟨hid, le_max_right _ _⟩
  clear_value B
  induction t generalizing fuel touched table reads writes misses w with
  | nil =>
    obtain ⟨f, rfl⟩ : ∃ f, fuel = f + 1 := ⟨fuel - 1, by omega⟩
    obtain ⟨w', hrun, hw'⟩ := insertNode_touches hw "OdsAccess I failed." (nodeOf e nil nil)
    refine ⟨Function.update heap e.id (nodeOf e nil nil), w',
      OdsCache.lruUse A.clientCacheMaxSize e.id table, ?_, ?_,
      ⟨Function.update_self _ _ _, trivial, trivial⟩, fun id hid => ?_, fun _ => ?_⟩
    · rw [internalInsert, if_pos OdsTree.rootId_nil]
      exact hrun
    · rw [BinaryTree.path, union_idSet_cons, idSet_nil, Finset.union_empty]
      exact hw'
    · exact Function.update_of_ne (fun h => hid (List.mem_singleton.mpr h)) _ _
    · rw [Recent, BinaryTree.avlInsert, BinaryTree.crest, OdsCache.lruUse]
      exact List.IsPrefix.take (List.prefix_append [e.id] _) _
  | node x l r hl hr =>
    obtain ⟨f, rfl⟩ : ∃ f, fuel = f + 1 := ⟨fuel - 1, by omega⟩
    have hrl : Represents heap l := ht.2.1
    have hrr : Represents heap r := ht.2.2
    obtain ⟨hsl, hsr, hx0, -⟩ := sound_node.mp hs
    have hapart := he
    rw [mem_treeIds_node, not_or, not_or] at hapart
    obtain ⟨hel, -, her⟩ := hapart
    obtain ⟨hnewl, hnewr⟩ := new_below hs hnew
    rw [BinaryTree.height] at hfuel
    have hfuell : l.height < f := by omega
    have hfuelr : r.height < f := by omega
    rw [BinaryTree.search] at hsearch
    obtain ⟨w₁, hread, hw₁⟩ := hw.read_root "ReadOram R failed" ht hs hnew
    -- the node is touched twice
    have hset : ∀ path : List (OdsEntry V),
        touched ∪ {x.id} ∪ idSet (e :: path) ∪ {x.id} = touched ∪ idSet (e :: x :: path) := by
      intro path
      ext id
      simp only [idSet_cons, Finset.mem_union, Finset.mem_singleton]
      tauto
    rw [internalInsert, OdsTree.rootId_node, if_neg hx0.1, BinaryTree.avlInsert,
      BinaryTree.insertCost, BinaryTree.insertCost, BinaryTree.path]
    by_cases heq : x.key = e.key
    · rw [if_pos heq] at hsearch
      cases hsearch
    · rw [if_neg heq] at hsearch
      by_cases hlt : x.key < e.key
      · rw [if_pos hlt] at hsearch
        simp only [if_pos hlt]
        have hgrown := BinaryTree.insert_effect OdsEntry.key e hbal.2.2.2
        have hs₂ := (hs.mono hlast).insert_right hsearch he haddress
        obtain ⟨-, -, -, -, hxr₂, hcross₂⟩ := sound_node.mp hs₂
        obtain ⟨hroom₂, hroom₃⟩ := BinaryTree.size_repairs_right hbal hlt
        obtain ⟨heap₂, w₂, table₂, hrest, hw₂, hrr₂, hsame₂, hrecent₂⟩ :=
          hr hrr hsr hbal.2.2.2 her hsearch hnewr (hroom₂.trans hroom) hfuelr hw₁
        have hrl₂ := hrl.congr fun id hid => hsame₂ id (hcross₂ id hid)
        obtain ⟨heap₃, w₃, table₃, hrun, hw₃, ht₃, hsame₃, hrecent₃⟩ :=
          writeBack_above hw₂ hrl₂ hrr₂ hs₂ hxr₂ (hroom₃.trans hroom)
            (fun hρ => (BinaryTree.moved_prefix_right hbal hgrown hρ).imp_left hrecent₂)
            fun hup => (BinaryTree.crest_prefix_right hbal hgrown hup).imp_right
              (And.imp_left hrecent₂)
        refine ⟨heap₃, w₃, table₃, ?_, ?_, ht₃, fun id hid => ?_, hrecent₃⟩
        · apply (Prog.bind_ok hread).trans
          rw [OdsTree.nodeOf_key, OdsTree.nodeOf_key, if_pos hlt]
          apply (Prog.bind_ok hrest).trans
          rw [Prog.pure_bind, nodeOf_right x l r (avlInsert_ne_nil hsearch)]
          exact hrun
        · rw [hset] at hw₃
          convert hw₃ using 1
          · omega
          · omega
          · rw [List.length_cons]
            omega
        · rw [treeIds_balance] at hid
          have hout := hid
          rw [mem_treeIds_node, not_or, not_or] at hout
          rw [hsame₃ id hid, hsame₂ id hout.2.2]
      · have hgt : e.key < x.key := lt_of_le_of_ne (not_lt.mp hlt) (Ne.symm heq)
        rw [if_neg hlt] at hsearch
        simp only [if_neg hlt, if_pos hgt]
        have hgrown := BinaryTree.insert_effect OdsEntry.key e hbal.2.2.1
        have hs₂ := (hs.mono hlast).insert_left hsearch he haddress
        obtain ⟨-, -, -, hxl₂, -, hcross₂⟩ := sound_node.mp hs₂
        obtain ⟨hroom₂, hroom₃⟩ := BinaryTree.size_repairs_left hbal hgt
        obtain ⟨heap₂, w₂, table₂, hrest, hw₂, hrl₂, hsame₂, hrecent₂⟩ :=
          hl hrl hsl hbal.2.2.1 hel hsearch hnewl (hroom₂.trans hroom) hfuell hw₁
        have hrr₂ := hrr.congr fun id hid => hsame₂ id fun h => hcross₂ id h hid
        obtain ⟨heap₃, w₃, table₃, hrun, hw₃, ht₃, hsame₃, hrecent₃⟩ :=
          writeBack_above hw₂ hrl₂ hrr₂ hs₂ hxl₂ (hroom₃.trans hroom)
            (fun hρ => (BinaryTree.moved_prefix_left hbal hgrown hρ).imp_left hrecent₂)
            fun hup => (BinaryTree.crest_prefix_left hbal hgrown hup).imp_right
              (And.imp_left hrecent₂)
        refine ⟨heap₃, w₃, table₃, ?_, ?_, ht₃, fun id hid => ?_, hrecent₃⟩
        · apply (Prog.bind_ok hread).trans
          rw [OdsTree.nodeOf_key, OdsTree.nodeOf_key, if_neg hlt, if_pos hgt]
          apply (Prog.bind_ok hrest).trans
          rw [Prog.pure_bind, nodeOf_left x l r (avlInsert_ne_nil hsearch)]
          exact hrun
        · rw [hset] at hw₃
          convert hw₃ using 1
          · omega
          · omega
          · rw [List.length_cons]
            omega
        · rw [treeIds_balance] at hid
          have hout := hid
          rw [mem_treeIds_node, not_or] at hout
          rw [hsame₃ id hid, hsame₂ id hout.1]

end OdictController

end ObliviousRam
