import ObliviousRam.OdictRun

set_option autoImplicit false

/-!
# The dictionary as a map

As long as the cache never overflows and no assertion fires, the dictionary is a
map in which the first value under a key stays, and the nodes that are found from
`root_id_` on form an AVL tree.
-/

namespace ObliviousRam

open BinaryTree (nil node)
open OdsTree (Represents treeIds)
open OdictController (new)

variable {V : Type} [Inhabited V] {A : ArraySetup V}

namespace OdictCall

/-- What `Find` returns is the pair that the tree has under the key. -/
theorem Holds.answer_find {past : List (OdictCall V)} {t : OdsTree V} {w : ArrayOdict V}
    (hw : Holds A past t w) {heap : ℕ → TreeNode V} (hheap : Represents heap t) (n key : ℕ) :
    ((find key).answer heap n t).map TreeNode.kvPair = firstInserted past key := by
  rw [← hw.search_eq key, answer, Option.map_map]
  exact Option.map_congr fun e he => hheap.kvPair_eq (BinaryTree.mem_inorder_of_search he)

/-- **The dictionary is a map.** `Find` returns the first pair that was inserted
under its key, if any; and neither `Find` nor the insertion of a known key changes
a node. -/
theorem odict_is_map (hwidth : A.last < 2 ^ 32) (o : ℕ → TreeNode V) (past : List (OdictCall V))
    (c : OdictCall V) (hroom : (inserted (past ++ [c])).length ≤ A.last)
    (hclean : Prog.Along Exit.fatal (run A.config) (fun c w => NoOverflow A c w ∧ Padded A c w)
      (past ++ [c]) (new o)) :
    ∃ (outs : List (Option (TreeNode V))) (w : ArrayOdict V) (ans : Option (TreeNode V))
        (w' : ArrayOdict V),
      Prog.trace Exit.fatal (run A.config) past (new o) = some (outs.map .ok, w) ∧
      c.run A.config w = (.ok ans, w') ∧
      (∀ key, c = find key → ans.map TreeNode.kvPair = firstInserted past key) ∧
      (c.isInsert = false ∨ firstInserted past c.key ≠ none →
        w'.rootId = w.rootId ∧ ∀ id ≠ invalidMask, w'.oram id = w.oram id) := by
  obtain ⟨hpast, hlast⟩ := hclean.append
  obtain ⟨outs, w, t, htrace, hw⟩ := holds_of_trace hwidth o
    ((inserted_length_le past [c]).trans hroom)
    (fun _ _ _ _ _ _ h => ⟨.inr h.1.not_lost, h.2⟩) hpast
  obtain ⟨hflow, hpad⟩ := (hlast _ _ htrace).1
  obtain ⟨w', hcall, hw', -, hsame⟩ := run_spec hw.toRests c (hw.nodeCount_le hroom) hwidth
    ⟨.inr hflow.not_lost, hpad⟩
  refine ⟨outs, w, _, w', htrace, hcall, ?_, fun h => ?_⟩
  · rintro key rfl
    exact hw.answer_find hw'.represents _ key
  · have hknown : c.isInsert = false ∨ t.search OdsEntry.key c.key ≠ none := by
      refine h.imp_right fun hne hnone => hne ?_
      rw [← hw.search_eq c.key, hnone]
      rfl
    refine ⟨?_, hsame hknown⟩
    rw [hw'.rootId_eq, hw.rootId_eq, hw.after_of_known hknown]

/-- Four addresses, and the first values of `ComputePadVal`. -/
def smallOdict (clientCacheMaxSize : ℕ) : ArraySetup ℕ where
  last := 4
  clientCacheMaxSize := clientCacheMaxSize
  computePadVal := fun n => [0, 0, 3, 5, 6, 7, 8, 9].getD n 9
  garbage := ⟨⟨0, .kDummy, 0⟩, .new 0⟩

theorem odict_is_map_small :
    ∃ (outs : List (Option (TreeNode ℕ))) (w : ArrayOdict ℕ) (ans : Option (TreeNode ℕ))
        (w' : ArrayOdict ℕ),
      Prog.trace Exit.fatal (run (smallOdict 4).config)
        [insert (1, 10), insert (3, 30), insert (1, 11)] (new .new) = some (outs.map .ok, w) ∧
      (find 1).run (smallOdict 4).config w = (.ok ans, w') ∧
      ans.map TreeNode.kvPair = some (1, 10) ∧ w'.rootId = w.rootId := by
  obtain ⟨outs, w, ans, w', htrace, hcall, hfind, hsame⟩ := odict_is_map (A := smallOdict 4)
    (by decide) .new [insert (1, 10), insert (3, 30), insert (1, 11)] (find 1) (by decide)
    (.cons (by decide +kernel) (.cons (by decide +kernel) (.cons (by decide +kernel)
      (.cons (by decide +kernel) trivial))))
  exact ⟨outs, w, ans, w', htrace, hcall, hfind 1 rfl, (hsame (.inl rfl)).1⟩

/-- **The tree in the ORAM is an AVL tree** of the keys that were inserted. -/
theorem odict_keeps_avl (hwidth : A.last < 2 ^ 32) (o : ℕ → TreeNode V)
    (calls : List (OdictCall V)) (hroom : (inserted calls).length ≤ A.last)
    (hclean : Prog.Along Exit.fatal (run A.config) (fun c w => NoOverflow A c w ∧ Padded A c w)
      calls (new o)) :
    ∃ (outs : List (Option (TreeNode V))) (w : ArrayOdict V) (t : OdsTree V),
      Prog.trace Exit.fatal (run A.config) calls (new o) = some (outs.map .ok, w) ∧
      w.rootId = OdsTree.rootId t ∧ Represents w.oram t ∧
      (treeIds t).Nodup ∧ (∀ id ∈ treeIds t, id ≠ invalidMask) ∧
      t.Ordered OdsEntry.key ∧ t.Balanced ∧
      ∀ key, key ∈ t.inorder.map OdsEntry.key ↔ key ∈ (inserted calls).map Prod.fst := by
  obtain ⟨outs, w, t, htrace, hw⟩ := holds_of_trace hwidth o hroom
    (fun _ _ _ _ _ _ h => ⟨.inr h.1.not_lost, h.2⟩) hclean
  exact ⟨outs, w, t, htrace, hw.rootId_eq, hw.represents, hw.nodup,
    fun id hid => (hw.address id hid).1, hw.ordered, hw.balanced, hw.mem_keys⟩

/-- Three insertions with a rotation. -/
theorem odict_keeps_avl_small :
    ∃ (outs : List (Option (TreeNode ℕ))) (w : ArrayOdict ℕ) (t : OdsTree ℕ),
      Prog.trace Exit.fatal (run (smallOdict 4).config)
        [insert (1, 10), insert (2, 20), insert (3, 30)] (new .new) = some (outs.map .ok, w) ∧
      w.rootId = OdsTree.rootId t ∧ Represents w.oram t ∧ t.Balanced ∧
      2 ∈ t.inorder.map OdsEntry.key := by
  obtain ⟨outs, w, t, htrace, hroot, hrep, -, -, -, hbal, hkeys⟩ := odict_keeps_avl
    (A := smallOdict 4) (by decide) .new [insert (1, 10), insert (2, 20), insert (3, 30)] (by decide)
    (.cons (by decide +kernel) (.cons (by decide +kernel) (.cons (by decide +kernel) trivial)))
  exact ⟨outs, w, t, htrace, hroot, hrep, hbal, (hkeys 2).mpr (by decide)⟩

end OdictCall

end ObliviousRam
