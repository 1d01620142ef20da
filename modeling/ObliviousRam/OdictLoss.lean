import ObliviousRam.OdictMap

set_option autoImplicit false

/-!
# When the cache loses a node

`Put` hands back the node that it pushes out, and nobody takes it. A search does
not mind, as it changes nothing. An insertion has the new node and the whole
search path to write, and the cache must have room for all of them.
-/

namespace ObliviousRam

open OdictController (new)

variable {V : Type} [Inhabited V] {A : ArraySetup V}

namespace OdictCall

/-- **No update is lost** in a run in which every insertion of a new key finds less
nodes on its search path than the cache can hold: what is pushed out is in the
ORAM, and after every call the ORAM has the last version of every node. -/
theorem odict_loses_nothing (hwidth : A.last < 2 ^ 32) (o : ℕ → TreeNode V)
    (past : List (OdictCall V)) (c : OdictCall V)
    (hroom : (inserted (past ++ [c])).length ≤ A.last)
    (hsafe : Prog.Along Exit.fatal (run A.config) (fun c w => CacheSuffices A c w ∧ Padded A c w)
      (past ++ [c]) (new o)) :
    ∃ (outs : List (Option (TreeNode V))) (w : ArrayOdict V) (ans : Option (TreeNode V))
        (w' : ArrayOdict V),
      Prog.trace Exit.fatal (run A.config) past (new o) = some (outs.map .ok, w) ∧
      c.run A.config w = (.ok ans, w') ∧
      (∀ x ∈ (c.access A.config w).2.pushedOut, (c.access A.config w).2.oram x.id = x) ∧
      ∀ id ≠ invalidMask, ∀ x, w'.stored.find? (fun x => x.id = id) = some x → w'.oram id = x := by
  obtain ⟨hpast, hlast⟩ := hsafe.append
  obtain ⟨outs, w, t, htrace, hw⟩ := holds_of_trace hwidth o
    ((inserted_length_le past [c]).trans hroom)
    (fun _ _ _ _ _ _ h => ⟨.inl h.1, h.2⟩) hpast
  obtain ⟨hcache, hpad⟩ := (hlast _ _ htrace).1
  obtain ⟨_, w₁, haccess, hw₁, -⟩ :=
    access_spec hw.toRests c (hw.nodeCount_le hroom) hwidth (.inl hcache)
  obtain ⟨w', hcall, hw', -⟩ :=
    run_spec hw.toRests c (hw.nodeCount_le hroom) hwidth ⟨.inl hcache, hpad⟩
  refine ⟨outs, w, _, w', htrace, hcall, fun x hx => ?_, hw'.latest⟩
  rw [haccess] at hx ⊢
  by_contra hne
  exact hw₁.not_lost ⟨x, hx, hne⟩

/-- A cache of three nodes suffices for four keys, the third of which makes the tree
rotate: the fourth finds two nodes on its path. -/
theorem odict_loses_nothing_small :
    ∃ (outs : List (Option (TreeNode ℕ))) (w : ArrayOdict ℕ) (ans : Option (TreeNode ℕ))
        (w' : ArrayOdict ℕ),
      Prog.trace Exit.fatal (run (smallOdict 3).config)
        [insert (1, 10), insert (2, 20), insert (3, 30)] (new .new) = some (outs.map .ok, w) ∧
      (insert (4, 40)).run (smallOdict 3).config w = (.ok ans, w') ∧
      ∀ id ≠ invalidMask, ∀ x, w'.stored.find? (fun x => x.id = id) = some x → w'.oram id = x := by
  obtain ⟨outs, w, ans, w', htrace, hcall, -, hlast⟩ := odict_loses_nothing (A := smallOdict 3)
    (by decide) .new [insert (1, 10), insert (2, 20), insert (3, 30)] (insert (4, 40)) (by decide)
    (.cons (by decide +kernel) (.cons (by decide +kernel) (.cons (by decide +kernel)
      (.cons (by decide +kernel) trivial))))
  exact ⟨outs, w, ans, w', htrace, hcall, hlast⟩

/-- With a cache of one node the second key is lost: its node is pushed out when
the path is written back. -/
theorem odict_small_cache_loses_node :
    Prog.Along Exit.fatal (run (smallOdict 1).config) (fun c w => Padded (smallOdict 1) c w)
      [insert (1, 10), insert (2, 20)] (new .new) ∧
    ∃ outs w, Prog.trace Exit.fatal (run (smallOdict 1).config)
        [insert (1, 10), insert (2, 20)] (new .new) = some (outs, w) ∧
      (w.stored.find? fun x => x.id = 2) = some ⟨2, (2, 20), 0, 0, 0, 0⟩ ∧
      w.oram 2 ≠ ⟨2, (2, 20), 0, 0, 0, 0⟩ := by
  refine ⟨.cons (by decide +kernel) (.cons (by decide +kernel) trivial), ?_⟩
  have hend : (Prog.trace Exit.fatal (run (smallOdict 1).config)
      [insert (1, 10), insert (2, 20)] (new .new)).map
        (fun r => (r.2.stored.find? fun x => x.id = 2, r.2.oram 2)) =
      some (some ⟨2, (2, 20), 0, 0, 0, 0⟩, .new 2) := by
    decide +kernel
  obtain ⟨⟨outs, w⟩, htrace, hw⟩ := Option.map_eq_some_iff.mp hend
  obtain ⟨hstored, horam⟩ := Prod.mk.inj hw
  exact ⟨outs, w, htrace, hstored, by rw [horam]; decide⟩

end OdictCall

end ObliviousRam
