import ObliviousRam.Trace
import ObliviousRam.OdictOperation

set_option autoImplicit false

/-!
# Runs of the dictionary

One call takes a dictionary that rests on a tree to one that rests on the tree
`OdictCall.after`, and it takes as many reads and writes as `OdictCall.reads` and
`OdictCall.writes` say. A sequence of calls is followed by induction.
-/

namespace ObliviousRam

open BinaryTree (nil node Rotation)
open OdsTree (nodeOf topNode Represents treeIds Proper)
open OdictController

variable {V : Type} {A : ArraySetup V}

namespace OdictController

/-- The tree that is found from `root_id_` on. -/
def storedTree (w : ArrayOdict V) : OdsTree V := OdsTree.treeAt w.oram w.nodeCount w.rootId

theorem Rests.storedTree_eq {t : OdsTree V} {w : ArrayOdict V} (hw : Rests A t w) :
    w.storedTree = t := by
  rw [storedTree, hw.rootId_eq]
  exact hw.represents.treeAt_eq (fun id hid => (hw.address id hid).1)
    (t.height_le_numNodes.trans_lt hw.size_lt)

end OdictController

namespace OdictCall

/-! ## What a call does to the tree

These functions foresee a call: its tree, the rotation it makes and its reads and
writes, all told by the tree before. None of them runs the controller. -/

/-- The tree after the call, `n` being the next id. -/
def after (n : ℕ) (t : OdsTree V) : OdictCall V → OdsTree V
  | insert kvPair => t.avlInsert OdsEntry.key ⟨n, kvPair⟩
  | find _ => t

/-- The repair it takes. -/
def rotation (n : ℕ) (t : OdsTree V) : OdictCall V → Rotation
  | insert kvPair => t.insertRotation OdsEntry.key ⟨n, kvPair⟩
  | find _ => .none

/-- `node_count_` after the call. -/
def count (n : ℕ) : OdictCall V → ℕ
  | insert _ => n + 1
  | find _ => n

/-- `read_count_` when `OdsFinalize` is called. -/
def reads (n : ℕ) (t : OdsTree V) (c : OdictCall V) : ℕ :=
  (t.path OdsEntry.key c.key).length + readPrice (c.rotation n t)

/-- `write_count_` when `OdsFinalize` is called. -/
def writes (n : ℕ) (t : OdsTree V) (c : OdictCall V) : ℕ :=
  if c.isInsert then (t.path OdsEntry.key c.key).length + writePrice (c.rotation n t) else 0

/-- The cache has room for an insertion into `t`. -/
def Fits (A : ArraySetup V) (t : OdsTree V) : OdictCall V → Prop
  | insert kvPair => t.search OdsEntry.key kvPair.1 = none →
      (t.path OdsEntry.key kvPair.1).length < A.clientCacheMaxSize
  | find _ => True

/-- The node a call returns, `heap` being the nodes it leaves. -/
def answer [Inhabited V] (heap : ℕ → TreeNode V) (n : ℕ) (t : OdsTree V) :
    OdictCall V → Option (TreeNode V)
  | insert kvPair => some (topNode (t.avlInsert OdsEntry.key ⟨n, kvPair⟩))
  | find key => (t.search OdsEntry.key key).map fun e => heap e.id

/-- The tree after a call is one that a dictionary can have. -/
theorem proper_after {n : ℕ} {t : OdsTree V} (ht : Proper A n t) (c : OdictCall V)
    (hlast : c.isInsert → n ≤ A.last) : Proper A (c.count n) (c.after n t) := by
  cases c with
  | insert kvPair => exact ht.avlInsert (hlast rfl) kvPair
  | find key => exact ht

/-! ## What the calls before have inserted -/

/-- The pairs that the calls insert. -/
def inserted (past : List (OdictCall V)) : List (ℕ × V) :=
  past.filterMap fun c =>
    match c with
    | insert kvPair => some kvPair
    | find _ => none

/-- The first pair that was inserted under the key. -/
def firstInserted (past : List (OdictCall V)) (key : ℕ) : Option (ℕ × V) :=
  (inserted past).find? fun p => p.1 = key

/-- The tree on which a dictionary rests after the calls `past`. -/
structure Holds (A : ArraySetup V) (past : List (OdictCall V)) (t : OdsTree V) (w : ArrayOdict V) :
    Prop extends Rests A t w where
  nodeCount_eq : w.nodeCount = (inserted past).length + 1
  search_eq : ∀ key, (t.search OdsEntry.key key).map OdsEntry.kvPair = firstInserted past key

/-- The empty dictionary rests on the empty tree. -/
theorem holds_new (A : ArraySetup V) (o : ℕ → TreeNode V) : Holds A [] nil (new o) where
  toRests := rests_new o
  nodeCount_eq := rfl
  search_eq := fun _ => rfl

theorem inserted_append (past rest : List (OdictCall V)) :
    inserted (past ++ rest) = inserted past ++ inserted rest := List.filterMap_append

theorem inserted_length_le (past rest : List (OdictCall V)) :
    (inserted past).length ≤ (inserted (past ++ rest)).length := by
  rw [inserted_append, List.length_append]
  exact Nat.le_add_right _ _

theorem inserted_find (past : List (OdictCall V)) (key : ℕ) :
    inserted (past ++ [find key]) = inserted past := by
  rw [inserted_append]
  exact List.append_nil _

/-- A pair under a key that has one already changes nothing. -/
theorem firstInserted_insert (past : List (OdictCall V)) (kvPair : ℕ × V) (key : ℕ) :
    firstInserted (past ++ [insert kvPair]) key =
      (firstInserted past key).or (if kvPair.1 = key then some kvPair else none) := by
  rw [firstInserted, inserted_append, List.find?_append]
  change (firstInserted past key).or ([kvPair].find? fun p => p.1 = key) = _
  rw [List.find?_singleton]
  simp only [decide_eq_true_eq]

/-- The keys in the tree are those that were inserted. -/
theorem Holds.mem_keys {past : List (OdictCall V)} {t : OdsTree V} {w : ArrayOdict V}
    (hw : Holds A past t w) (key : ℕ) :
    key ∈ t.inorder.map OdsEntry.key ↔ key ∈ (inserted past).map Prod.fst := by
  have htree : key ∈ t.inorder.map OdsEntry.key ↔ t.search OdsEntry.key key ≠ none := by
    rw [ne_eq, BinaryTree.search_eq_none hw.ordered, List.mem_map]
    push Not
    exact Iff.rfl
  have hpast : key ∈ (inserted past).map Prod.fst ↔ firstInserted past key ≠ none := by
    rw [firstInserted, ne_eq, List.find?_eq_none, List.mem_map]
    push Not
    simp only [decide_eq_true_eq]
  rw [htree, hpast, ← hw.search_eq key, ne_eq, ne_eq, Option.map_eq_none_iff]

/-- The insertion of a known key leaves the tree as it is. -/
theorem Holds.after_of_known {past : List (OdictCall V)} {t : OdsTree V} {w : ArrayOdict V}
    (hw : Holds A past t w) {c : OdictCall V}
    (h : c.isInsert = false ∨ t.search OdsEntry.key c.key ≠ none) : c.after w.nodeCount t = t := by
  cases c with
  | insert kvPair => exact (BinaryTree.avlInsert_of_search hw.balanced (h.resolve_left nofun)).1
  | find key => rfl

/-- An insertion among the calls finds a free address. -/
theorem Holds.nodeCount_le {past : List (OdictCall V)} {t : OdsTree V} {w : ArrayOdict V}
    (hw : Holds A past t w) {c : OdictCall V} (hroom : (inserted (past ++ [c])).length ≤ A.last)
    (hc : c.isInsert) : w.nodeCount ≤ A.last := by
  cases c with
  | insert kvPair =>
    rw [inserted_append, List.length_append] at hroom
    rw [hw.nodeCount_eq]
    exact hroom
  | find key => cases hc

/-- The tree after a call has the keys that were inserted up to then. -/
theorem Holds.next {past : List (OdictCall V)} {t : OdsTree V} {w w' : ArrayOdict V}
    (hw : Holds A past t w) (c : OdictCall V) (hw' : Rests A (c.after w.nodeCount t) w')
    (hcount : w'.nodeCount = c.count w.nodeCount) :
    Holds A (past ++ [c]) (c.after w.nodeCount t) w' := by
  refine ⟨hw', ?_, fun key => ?_⟩
  · rw [hcount, inserted_append, List.length_append, hw.nodeCount_eq]
    cases c <;> rfl
  · cases c with
    | insert kvPair =>
      rw [OdictCall.after, BinaryTree.search_avlInsert hw.balanced hw.ordered,
        firstInserted_insert, ← hw.search_eq key, Option.map_or]
      split
      next h =>
        rw [if_pos (show kvPair.1 = key from h)]
        rfl
      next h =>
        rw [if_neg (show ¬kvPair.1 = key from h)]
        rfl
    | find k =>
      rw [firstInserted, inserted_find]
      exact hw.search_eq key

variable [Inhabited V]

/-! ## What a call needs

Two things can go wrong in a call over an array. The cache pushes a node out, or an
assertion of `OdsFinalize` fires because more accesses were made than there is padding
for. `Safe` excludes both, and `NoOverflow` and `Padded` say how they show in the state. -/

variable (A) in
/-- No assertion of `OdsFinalize` fires. -/
def Padded (c : OdictCall V) (w : ArrayOdict V) : Prop :=
  let w' := (c.access A.config w).2
  w'.readCount ≤ padVal A.config w' ∧ w'.writeCount ≤ padVal A.config w'

variable (A) in
/-- `Put` pushes nothing out of the cache. -/
def NoOverflow (c : OdictCall V) (w : ArrayOdict V) : Prop :=
  (c.access A.config w).2.pushedOut = []

variable (A) in
/-- The cache has room for the call. -/
def CacheSuffices (c : OdictCall V) (w : ArrayOdict V) : Prop := c.Fits A w.storedTree

instance (c : OdictCall V) (w : ArrayOdict V) : Decidable (Padded A c w) :=
  inferInstanceAs (Decidable (_ ∧ _))

instance (c : OdictCall V) (w : ArrayOdict V) : Decidable (NoOverflow A c w) :=
  decidable_of_iff (_ : Bool) List.isEmpty_iff

instance (c : OdictCall V) (w : ArrayOdict V) : Decidable (CacheSuffices A c w) :=
  match c with
  | insert _ => inferInstanceAs (Decidable (_ → _))
  | find _ => inferInstanceAs (Decidable True)

theorem NoOverflow.not_lost {c : OdictCall V} {w : ArrayOdict V} (h : NoOverflow A c w) :
    ¬Lost (c.access A.config w).2 := by
  rintro ⟨x, hx, -⟩
  rw [show (c.access A.config w).2.pushedOut = [] from h] at hx
  exact absurd hx List.not_mem_nil

variable (A) in
/-- What a call needs to go well. -/
structure Safe (c : OdictCall V) (w : ArrayOdict V) : Prop where
  cache : CacheSuffices A c w ∨ ¬Lost (c.access A.config w).2
  padded : Padded A c w

/-! ## One call -/

/-- **The access phase of a call**, if the cache has room or nothing is lost. -/
theorem access_spec {t : OdsTree V} {w : ArrayOdict V} (hw : Rests A t w) (c : OdictCall V)
    (hlast : c.isInsert → w.nodeCount ≤ A.last) (hwidth : A.last < 2 ^ 32)
    (hcache : CacheSuffices A c w ∨ ¬Lost (c.access A.config w).2) :
    ∃ heap w', c.access A.config w = (.ok (c.answer heap w.nodeCount t), w') ∧
      Accessed A w (c.after w.nodeCount t) heap (c.reads w.nodeCount t) (c.writes w.nodeCount t)
        (c.count w.nodeCount) w' ∧
      (c.isInsert = false ∨ t.search OdsEntry.key c.key ≠ none → heap = w.oram) := by
  rw [CacheSuffices, hw.storedTree_eq] at hcache
  cases c with
  | insert kvPair =>
    obtain ⟨heap, w', hrun, hw', hsame⟩ := insertAccess_spec hw (hlast rfl) hwidth kvPair
      (hcache.imp_right Prog.Sticky.before)
    refine ⟨heap, w', ?_, hw', fun h => hsame (h.resolve_left nofun)⟩
    rw [access, Prog.bind_ok hrun]
    rfl
  | find key =>
    obtain ⟨w', hrun, hw'⟩ := findAccess_spec hw key
    exact ⟨w.oram, w', hrun, hw', fun _ => rfl⟩

/-- The assertions of `OdsFinalize`, for a call that goes well up to there. -/
theorem padded_iff {t : OdsTree V} {w : ArrayOdict V} (hw : Rests A t w) (c : OdictCall V)
    (hlast : c.isInsert → w.nodeCount ≤ A.last) (hwidth : A.last < 2 ^ 32)
    (hcache : CacheSuffices A c w ∨ ¬Lost (c.access A.config w).2) :
    Padded A c w ↔
      c.reads w.nodeCount t ≤ A.computePadVal (c.count w.nodeCount % 2 ^ 32) ∧
      c.writes w.nodeCount t ≤ A.computePadVal (c.count w.nodeCount % 2 ^ 32) := by
  obtain ⟨heap, w₁, haccess, hw₁, -⟩ := access_spec hw c hlast hwidth hcache
  have hpad : padVal A.config w₁ = A.computePadVal (c.count w.nodeCount % 2 ^ 32) := by
    rw [padVal, hw₁.nodeCount_eq]
    rfl
  rw [Padded, haccess, hpad, hw₁.readCount_eq, hw₁.writeCount_eq]

/-- **A call** on a dictionary that rests on a tree. -/
theorem run_spec {t : OdsTree V} {w : ArrayOdict V} (hw : Rests A t w) (c : OdictCall V)
    (hlast : c.isInsert → w.nodeCount ≤ A.last) (hwidth : A.last < 2 ^ 32) (hsafe : Safe A c w) :
    ∃ w', c.run A.config w = (.ok (c.answer w'.oram w.nodeCount t), w') ∧
      Rests A (c.after w.nodeCount t) w' ∧ w'.nodeCount = c.count w.nodeCount ∧
      (c.isInsert = false ∨ t.search OdsEntry.key c.key ≠ none →
        ∀ id ≠ invalidMask, w'.oram id = w.oram id) := by
  obtain ⟨heap, w₁, haccess, hw₁, hsame⟩ := access_spec hw c hlast hwidth hsafe.cache
  obtain ⟨hread, hwrite⟩ := hsafe.padded
  rw [haccess] at hread hwrite
  obtain ⟨o, cache, hfinal, ho⟩ := odsFinalize_spec hw₁.toCached hread hwrite
  have hproper := proper_after hw.toProper c hlast
  have hanswer : c.answer heap w.nodeCount t = c.answer o w.nodeCount t := by
    cases c with
    | insert kvPair => rfl
    | find key =>
      refine Option.map_congr fun e he => (ho e.id ?_).symm
      exact (hw.address _ (List.mem_map_of_mem (BinaryTree.mem_inorder_of_search he))).1
  refine ⟨{ w₁ with oram := o, odsCache := cache, readCount := 0, writeCount := 0 },
    hanswer ▸ run_eq haccess hfinal, ?_, hw₁.nodeCount_eq, fun h id hid => ?_⟩
  · refine ⟨?_, hw₁.rootId_eq, ?_, rfl, rfl, fun id hid x hx => ?_⟩
    · show Proper A w₁.nodeCount _
      rw [hw₁.nodeCount_eq]
      exact hproper
    · exact hw₁.represents.congr fun id hid => ho id (hproper.address id hid).1
    · exact (ho id hid).trans (hw₁.latest id hid x hx)
  · show o id = _
    rw [ho id hid, hsame h]

/-! ## Many calls -/

/-- **A sequence of calls goes through**, if every call in it gets what it needs. -/
theorem holds_of_trace (hwidth : A.last < 2 ^ 32) (o : ℕ → TreeNode V) {calls : List (OdictCall V)}
    (hroom : (inserted calls).length ≤ A.last) {cond : OdictCall V → ArrayOdict V → Prop}
    (hcond : ∀ past c t w, (inserted (past ++ [c])).length ≤ (inserted calls).length →
      Holds A past t w → cond c w → Safe A c w)
    (hrun : Prog.Along Exit.fatal (run A.config) cond calls (new o)) :
    ∃ (outs : List (Option (TreeNode V))) (w : ArrayOdict V) (t : OdsTree V),
      Prog.trace Exit.fatal (run A.config) calls (new o) = some (outs.map .ok, w) ∧
      Holds A calls t w := by
  obtain ⟨outs, w, htrace, t, hw⟩ := Prog.trace_total Exit.fatal cond
    (fun past w => ∃ t, Holds A past t w)
    (fun past c rest w hcalls hc ⟨t, hw⟩ => by
      have hlength : (inserted (past ++ [c])).length ≤ (inserted calls).length := by
        rw [hcalls, List.append_cons past c rest]
        exact inserted_length_le (past ++ [c]) rest
      obtain ⟨w', hcall, hw', hcount, -⟩ := run_spec hw.toRests c
        (fun h => hw.nodeCount_le (hlength.trans hroom) h) hwidth (hcond past c t w hlength hw hc)
      exact ⟨_, w', hcall, _, hw.next c hw' hcount⟩)
    ⟨nil, holds_new A o⟩ hrun
  exact ⟨outs, w, t, htrace, hw⟩

/-- After such a sequence the dictionary rests on the tree it has stored. -/
theorem rests_of_trace (hwidth : A.last < 2 ^ 32) (o : ℕ → TreeNode V) {calls : List (OdictCall V)}
    (hroom : (inserted calls).length ≤ A.last)
    (hsafe : Prog.Along Exit.fatal (run A.config) (fun c w => CacheSuffices A c w ∧ Padded A c w)
      calls (new o)) {outs : List (Except Exit (Option (TreeNode V)))} {w : ArrayOdict V}
    (hrun : Prog.trace Exit.fatal (run A.config) calls (new o) = some (outs, w)) :
    Rests A w.storedTree w := by
  obtain ⟨outs', w', t, htrace, hw⟩ := holds_of_trace hwidth o hroom
    (fun _ _ _ _ _ _ h => ⟨.inl h.1, h.2⟩) hsafe
  cases hrun.symm.trans htrace
  rw [hw.storedTree_eq]
  exact hw.toRests

end OdictCall

end ObliviousRam
