import ObliviousRam.PathMemory

set_option autoImplicit false

/-!
# Where an access finds its block

`PathMemory` says what an access returns, and for that it needs blocks with
distinct ids and padding that is not taken for data. For an access to *return* at
all much less is enough: some block that passes for the address is in the stash
or on the path of its position. `Presents` says so, for a set of addresses.

No access takes it away from any of them, whatever the padding is and however
often an id occurs. A block leaves a bucket only with the whole path, for the
stash, where `MergePath` drops it only if the stash has another one of its id;
and a block leaves the stash only for a bucket of the path its position names.
-/

namespace ObliviousRam

open TreeOramServerStorage PathOramController

variable {D : Type} {C : Codec D} {P : PathOramConfig}

namespace PathSystem

/-- A block that passes for `a` is in the stash or on path `x`. -/
def FoundOn (P : PathOramConfig) (a x : ℕ) (w : PathSystem D (TreeOramServerStorage C)) : Prop :=
  ∃ b, blockEqual a b = true ∧ (b ∈ w.client.stash ∨ b ∈ pathBlocks P.treeLevel x w.server)

/-- Every address of the set is found on the path that its position names. -/
structure Presents (P : PathOramConfig) (addresses : ℕ → Prop)
    (w : PathSystem D (TreeOramServerStorage C)) : Prop where
  intact : Intact P.treeLevel w.server
  position_lt : ∀ a, w.client.positionMap.index a < P.numberOfLeafs
  initialized : w.client.isInitialized = true
  found : ∀ a, addresses a → w.FoundOn P a (w.client.positionMap.index a)

/-- What is in the stash is found on any path. -/
theorem FoundOn.of_stash {a : ℕ} {w : PathSystem D (TreeOramServerStorage C)} {b : OramBlock D}
    (hb : b ∈ w.client.stash) (heq : blockEqual a b = true) (x : ℕ) : w.FoundOn P a x :=
  ⟨b, heq, .inl hb⟩

theorem FoundOn.of_bucket {a x : ℕ} {w : PathSystem D (TreeOramServerStorage C)} {b : OramBlock D}
    {t : Tag} (ht : t ∈ pathTags P.treeLevel x) (hb : b ∈ w.server.blocksAt t)
    (heq : blockEqual a b = true) : w.FoundOn P a x :=
  ⟨b, heq, .inr (mem_pathBlocks.mpr ⟨t, ht, mem_normalAt.mpr ⟨hb, (blockEqual_iff.mp heq).2⟩⟩)⟩

/-- Where a block is found, bucket by bucket. -/
theorem FoundOn.cases {a x : ℕ} {w : PathSystem D (TreeOramServerStorage C)}
    (h : w.FoundOn P a x) :
    ∃ b, blockEqual a b = true ∧
      (b ∈ w.client.stash ∨ ∃ t ∈ pathTags P.treeLevel x, b ∈ w.server.blocksAt t) := by
  obtain ⟨b, heq, hb⟩ := h
  refine ⟨b, heq, hb.imp id fun hb => ?_⟩
  obtain ⟨t, ht, hb⟩ := mem_pathBlocks.mp hb
  exact ⟨t, ht, (mem_normalAt.mp hb).1⟩

end PathSystem

namespace PathOramController

open PathSystem

/-! ## Merging and updating the stash

A block of the path is dropped if the stash has one of its id. Then that one passes for
the address as well, so something is found in either case. -/

/-- A merge drops nothing of the stash. -/
theorem mergeBlock_of_mem {stash : List (OramBlock D)} {b c : OramBlock D} (hc : c ∈ stash) :
    c ∈ mergeBlock stash b := by
  rw [mergeBlock]
  split
  · exact List.mem_append_left _ hc
  · exact hc

theorem foldl_mergeBlock_of_mem {blocks stash : List (OramBlock D)} {c : OramBlock D}
    (hc : c ∈ stash) : c ∈ blocks.foldl mergeBlock stash := by
  induction blocks generalizing stash with
  | nil => exact hc
  | cons b blocks ih => exact ih (mergeBlock_of_mem hc)

/-- A real block that is merged has a block of its id in the stash afterwards. -/
theorem exists_mem_mergeBlock (stash : List (OramBlock D)) {a : ℕ} {b : OramBlock D}
    (heq : blockEqual a b = true) : ∃ c ∈ mergeBlock stash b, blockEqual a c = true := by
  obtain ⟨rfl, hnormal⟩ := blockEqual_iff.mp heq
  rw [mergeBlock]
  cases hfind : stash.find? (blockEqual b.id) with
  | none =>
    rw [hnormal]
    exact ⟨b, List.mem_append_right _ List.mem_cons_self, heq⟩
  | some c => exact ⟨c, List.mem_of_find?_eq_some hfind, List.find?_some hfind⟩

/-- Nothing that passes for `a` is lost in a merge. -/
theorem exists_mem_mergePath {stash : List (OramBlock D)} {path : List (List (OramBlock D))}
    {a : ℕ} {b : OramBlock D} (hb : b ∈ stash ∨ b ∈ path.flatten) (heq : blockEqual a b = true) :
    ∃ c ∈ mergePath stash path, blockEqual a c = true := by
  rw [mergePath]
  rcases hb with hb | hb
  · exact ⟨b, foldl_mergeBlock_of_mem hb, heq⟩
  · generalize path.flatten = blocks at hb
    induction blocks generalizing stash with
    | nil => exact absurd hb List.not_mem_nil
    | cons b' blocks ih =>
      rcases List.mem_cons.mp hb with rfl | hb
      · obtain ⟨c, hc, hceq⟩ := exists_mem_mergeBlock stash heq
        rw [List.foldl_cons]
        exact ⟨c, foldl_mergeBlock_of_mem hc, hceq⟩
      · exact ih hb

/-- A write changes neither the ids of the stash nor the types. -/
theorem exists_mem_updateFirst {p : OramBlock D → Bool} {buffer : OramBlock D} {a : ℕ}
    {stash : List (OramBlock D)} {b : OramBlock D} (hb : b ∈ stash) (heq : blockEqual a b = true) :
    ∃ c ∈ updateFirst p (·.store buffer) stash, blockEqual a c = true := by
  induction stash with
  | nil => exact absurd hb List.not_mem_nil
  | cons b' stash ih =>
    rw [updateFirst]
    rcases List.mem_cons.mp hb with rfl | hb
    · split
      · refine ⟨b.store buffer, List.mem_cons_self, ?_⟩
        rw [blockEqual_iff, OramBlock.store_id, OramBlock.store_isNormal, ← blockEqual_iff]
        exact heq
      · exact ⟨b, List.mem_cons_self, heq⟩
    · split
      · exact ⟨b, List.mem_cons_of_mem _ hb, heq⟩
      · obtain ⟨c, hc, hceq⟩ := ih hb
        exact ⟨c, List.mem_cons_of_mem _ hc, hceq⟩

/-- Steps 6-9 of a standalone controller: they return, and what was in the stash
for an address still is. -/
theorem updateBlock_found (hstand : P.standalone = true) (op : Operation) (address : ℕ)
    (buffer block : OramBlock D) (w : PathSystem D (TreeOramServerStorage C)) :
    ∃ out w', updateBlock P op address buffer block w = (.ok out, w') ∧ w'.server = w.server ∧
      w'.client.positionMap = w.client.positionMap ∧
      w'.client.isInitialized = w.client.isInitialized ∧
      ∀ a, ∀ b ∈ w.client.stash, blockEqual a b = true →
        ∃ c ∈ w'.client.stash, blockEqual a c = true := by
  simp only [updateBlock, update, Prog.modify_bind]
  split
  · exact ⟨_, _, rfl, rfl, rfl, rfl, fun a b hb heq => exists_mem_updateFirst hb heq⟩
  · rw [hstand, if_neg (by decide)]
    exact ⟨_, _, rfl, rfl, rfl, rfl, fun a b hb heq => ⟨b, hb, heq⟩⟩

/-! ## Reading and writing a path

After the read everything that passed for the address on the path is in the stash. The
write-back may put it into a bucket, and does so only on the path of its position. -/

/-- Reading path `x` into the stash. What is found for an address stays found on
the path it was found on, and is in the stash if that path is `x`. -/
theorem absorb_found {x : ℕ} (hx : x < P.numberOfLeafs)
    {w : PathSystem D (TreeOramServerStorage C)} (hs : Intact P.treeLevel w.server) :
    ∃ path w₁, readLevels (OramService.stub C P.id) P x (List.range (P.treeLevel + 1)) w =
        (.ok path, w₁) ∧
      w₁.client.positionMap = w.client.positionMap ∧
      w₁.client.isInitialized = w.client.isInitialized ∧
      Intact P.treeLevel w₁.server ∧
      (∀ l ≤ P.treeLevel, w₁.server.blocksAt (pathTag P.treeLevel x l) = []) ∧
      (∀ a, w.FoundOn P a x → ∃ c ∈ mergePath w₁.client.stash path, blockEqual a c = true) ∧
      ∀ a y, w.FoundOn P a y →
        (⟨{ w₁.client with stash := mergePath w₁.client.stash path }, w₁.server⟩ :
          PathSystem D (TreeOramServerStorage C)).FoundOn P a y := by
  obtain ⟨n, server, hread, hs', hblocks, -⟩ := readLevels_spec hx
    (List.range (P.treeLevel + 1)) w hs List.nodup_range
    fun l hl => Nat.lt_succ_iff.mp (List.mem_range.mp hl)
  -- a block that is on `x` goes to the stash
  have hmerge : ∀ (a : ℕ) (b : OramBlock D), blockEqual a b = true →
      (b ∈ w.client.stash ∨ ∃ t ∈ pathTags P.treeLevel x, b ∈ w.server.blocksAt t) →
      ∃ c ∈ mergePath w.client.stash ((List.range (P.treeLevel + 1)).map fun l =>
        w.server.blocksAt (pathTag P.treeLevel x l)), blockEqual a c = true := by
    intro a b heq hb
    refine exists_mem_mergePath (hb.imp id ?_) heq
    rintro ⟨t, ht, hb⟩
    obtain ⟨l, hl, rfl⟩ := List.mem_map.mp ht
    exact List.mem_flatten.mpr ⟨_, List.mem_map_of_mem hl, hb⟩
  refine ⟨_, _, hread, rfl, rfl, hs', fun l hl => ?_, fun a ha => ?_, fun a y ha => ?_⟩
  · rw [hblocks, if_pos]
    exact List.mem_map_of_mem (List.mem_range.mpr (Nat.lt_succ_of_le hl))
  · obtain ⟨b, heq, hb⟩ := ha.cases
    exact hmerge a b heq hb
  · obtain ⟨b, heq, hb⟩ := ha.cases
    rcases hb with hb | ⟨t, ht, hb⟩
    · obtain ⟨c, hc, hceq⟩ := hmerge a b heq (.inl hb)
      exact .of_stash hc hceq y
    · by_cases hpath : t ∈ pathTags P.treeLevel x
      · obtain ⟨c, hc, hceq⟩ := hmerge a b heq (.inr ⟨t, hpath, hb⟩)
        exact .of_stash hc hceq y
      · refine .of_bucket ht ?_ heq
        rw [hblocks, ← pathTags, if_neg hpath]
        exact hb

/-- One level of the write-back, into a bucket that has been emptied: what is
found on the path of its position still is. -/
theorem writeLevel_found {x i : ℕ} (hx : x < P.numberOfLeafs) (hi : i ≤ P.treeLevel)
    (random : ℕ → OramBlock D) (iv : ℕ → C.Iv) {w : PathSystem D (TreeOramServerStorage C)}
    (hs : Intact P.treeLevel w.server)
    (hempty : w.server.blocksAt (pathTag P.treeLevel x i) = []) :
    ∃ bucket w₁ w', findSubsetOf (ε := Exit) P x random w = (.ok bucket, w₁) ∧
      writeBucket (OramService.stub C P.id) x i iv bucket w₁ = (.ok (), w') ∧
      Intact P.treeLevel w'.server ∧
      (∀ a, w'.client.positionMap.index a = w.client.positionMap.index a) ∧
      w'.client.isInitialized = w.client.isInitialized ∧
      (∀ t, t ≠ pathTag P.treeLevel x i → w'.server.blocksAt t = w.server.blocksAt t) ∧
      ∀ a, w.FoundOn P a (w.client.positionMap.index a) →
        w'.FoundOn P a (w.client.positionMap.index a) := by
  obtain ⟨hsplit, hmem, hindex⟩ :=
    findSubset_spec (B := P.bucketSize) (x := x) w.client.stash w.client.positionMap []
  generalize hr : findSubset P.bucketSize x w.client.positionMap [] w.client.stash = r at *
  rw [Multiset.coe_nil, zero_add] at hsplit
  obtain ⟨n, server, hwrite, hs', hblocks⟩ := writeBucket_spec
    (w := { w with client := { w.client with stash := r.2.1, positionMap := r.2.2 } }) hs hx hi iv
    (padStash random P.bucketSize r.1)
  refine ⟨_, _, _, ?_, hwrite, hs', hindex, rfl, fun t ht => by rw [hblocks, if_neg ht],
    fun a ha => ?_⟩
  · simp only [findSubsetOf, hr]
  · obtain ⟨b, heq, hb⟩ := ha.cases
    rcases hb with hb | ⟨t, ht, hb⟩
    · -- a block of the stash goes into the bucket only if its position is `x`
      have hpart : b ∈ r.1 ∨ b ∈ r.2.1 := by
        have hb' := hsplit.symm ▸ Multiset.mem_coe.mpr hb
        exact (Multiset.mem_add.mp hb').imp Multiset.mem_coe.mp Multiset.mem_coe.mp
      rcases hpart with hb | hb
      · have hpos : w.client.positionMap.index a = x := by
          rcases hmem b hb with hb | ⟨-, hpos⟩
          · exact absurd hb List.not_mem_nil
          · rw [← (blockEqual_iff.mp heq).1]
            exact hpos
        refine .of_bucket (t := pathTag P.treeLevel x i) ?_ ?_ heq
        · rw [hpos]
          exact List.mem_map_of_mem (List.mem_range.mpr (Nat.lt_succ_of_le hi))
        · rw [hblocks, if_pos rfl]
          exact List.mem_append_left _ hb
      · exact .of_stash hb heq _
    · refine .of_bucket ht ?_ heq
      have hne : t ≠ pathTag P.treeLevel x i := by
        rintro rfl
        rw [hempty] at hb
        exact absurd hb List.not_mem_nil
      rw [hblocks, if_neg hne]
      exact hb

/-- The levels of the write-back, from `i - 1` down to the root. -/
theorem writeLevels_found {x : ℕ} (hx : x < P.numberOfLeafs) (draws : AccessDraws C) (i : ℕ)
    {w : PathSystem D (TreeOramServerStorage C)} (hi : i ≤ P.treeLevel + 1)
    (hs : Intact P.treeLevel w.server)
    (hempty : ∀ l < i, w.server.blocksAt (pathTag P.treeLevel x l) = []) :
    ∃ w', writeLevels (OramService.stub C P.id) P x draws i w = (.ok (), w') ∧
      Intact P.treeLevel w'.server ∧
      (∀ a, w'.client.positionMap.index a = w.client.positionMap.index a) ∧
      w'.client.isInitialized = w.client.isInitialized ∧
      ∀ a, w.FoundOn P a (w.client.positionMap.index a) →
        w'.FoundOn P a (w.client.positionMap.index a) := by
  induction i generalizing w with
  | zero => exact ⟨w, rfl, hs, fun _ => rfl, rfl, fun _ ha => ha⟩
  | succ i ih =>
    obtain ⟨bucket, w₁, w₂, hfind, hwrite, hs₂, hindex₂, hinit₂, hother₂, hfound₂⟩ :=
      writeLevel_found hx (Nat.lt_succ_iff.mp hi) (draws.pad i) (draws.iv i) hs
        (hempty i (Nat.lt_succ_self i))
    obtain ⟨w', hrest, hs', hindex', hinit', hfound'⟩ := ih (w := w₂) (Nat.le_of_succ_le hi) hs₂
      fun l hl => by
        rw [hother₂ _ (pathTag_ne (Nat.ne_of_lt hl))]
        exact hempty l (Nat.lt_succ_of_lt hl)
    refine ⟨w', ?_, hs', fun a => (hindex' a).trans (hindex₂ a), hinit'.trans hinit₂,
      fun a ha => ?_⟩
    · rw [writeLevels, Prog.bind_ok hfind, Prog.bind_ok (Prog.mapError_ok hwrite)]
      exact hrest
    · rw [← hindex₂]
      exact hfound' a (hindex₂ a ▸ hfound₂ a ha)

/-! ## An access -/

/-- An access along a path on which its block is found: it returns, and every
other address is found where it was. -/
theorem internalAccessDirect_returns (hstand : P.standalone = true) (op : Operation)
    {address x : ℕ} (buffer : OramBlock D) (draws : AccessDraws C)
    {w : PathSystem D (TreeOramServerStorage C)} (hx : x < P.numberOfLeafs)
    (hs : Intact P.treeLevel w.server) (haddress : w.FoundOn P address x) :
    ∃ out w', internalAccessDirect (OramService.stub C P.id) P op address x buffer draws false w =
        (.ok out, w') ∧
      Intact P.treeLevel w'.server ∧
      (∀ a, w'.client.positionMap.index a = w.client.positionMap.index a) ∧
      w'.client.isInitialized = w.client.isInitialized ∧
      ∀ a, a = address ∨ w.FoundOn P a (w.client.positionMap.index a) →
        w'.FoundOn P a (w.client.positionMap.index a) := by
  obtain ⟨path, w₁, hread, hmap₁, hinit₁, hs₁, hempty₁, hstash₁, hfound₁⟩ := absorb_found hx hs
  obtain ⟨c, hc, hceq⟩ := hstash₁ address haddress
  obtain ⟨block, hfind⟩ :=
    Option.isSome_iff_exists.mp (List.find?_isSome.mpr ⟨c, hc, hceq⟩)
  obtain ⟨out, w₂, hupdate, hserver₂, hmap₂, hinit₂, hstash₂⟩ := updateBlock_found hstand op
    address buffer block (⟨{ w₁.client with stash := mergePath w₁.client.stash path },
      w₁.server⟩ : PathSystem D (TreeOramServerStorage C))
  have hindex₂ : ∀ a, w₂.client.positionMap.index a = w.client.positionMap.index a := by
    intro a
    rw [hmap₂, ← hmap₁]
  -- what was found before the update of the stash is found after it
  have hfound₂ : ∀ a, a = address ∨ w.FoundOn P a (w.client.positionMap.index a) →
      w₂.FoundOn P a (w₂.client.positionMap.index a) := by
    intro a ha
    have hmerged : (⟨{ w₁.client with stash := mergePath w₁.client.stash path }, w₁.server⟩ :
        PathSystem D (TreeOramServerStorage C)).FoundOn P a (w.client.positionMap.index a) := by
      rcases ha with rfl | ha
      · exact .of_stash hc hceq _
      · exact hfound₁ a _ ha
    rw [hindex₂]
    obtain ⟨b, heq, hb | ⟨t, ht, hb⟩⟩ := hmerged.cases
    · obtain ⟨c', hc', hceq'⟩ := hstash₂ a b hb heq
      exact .of_stash hc' hceq' _
    · exact .of_bucket ht (hserver₂ ▸ hb) heq
  obtain ⟨w₃, hwrite, hs₃, hindex₃, hinit₃, hfound₃⟩ := writeLevels_found hx draws
    (P.treeLevel + 1) (w := w₂) le_rfl (hserver₂ ▸ hs₁)
    fun l hl => hserver₂ ▸ hempty₁ l (Nat.lt_succ_iff.mp hl)
  refine ⟨out, w₃, ?_, hs₃, fun a => (hindex₃ a).trans (hindex₂ a),
    hinit₃.trans (hinit₂.trans hinit₁), fun a ha => ?_⟩
  · rw [internalAccessDirect, Prog.bind_ok hread, if_neg Bool.false_ne_true, update,
      Prog.modify_bind, Prog.get_bind]
    simp only [hfind]
    rw [Prog.bind_ok hupdate, Prog.bind_ok hwrite]
    rfl
  · rw [← hindex₂]
    exact hfound₃ a (hfound₂ a ha)

/-- **An access to an address that is presented** returns, and every address that
was presented still is. -/
theorem access_presents (hstand : P.standalone = true) {addresses : ℕ → Prop} {op : Operation}
    (hop : op ≠ .kInvalid) {address : ℕ} (haddress : addresses address) (buffer : OramBlock D)
    (draws : AccessDraws C) {w : PathSystem D (TreeOramServerStorage C)}
    (hw : w.Presents P addresses) :
    ∃ out w', access (OramService.stub C P.id) P op address buffer draws w = (.ok out, w') ∧
      w'.Presents P addresses := by
  let w₀ := remap address (draws.position % P.numberOfLeafs) w
  have hfound₀ : ∀ a, addresses a → a = address ∨ w₀.FoundOn P a (w₀.client.positionMap.index a) := by
    intro a ha
    by_cases he : a = address
    · exact .inl he
    · refine .inr ?_
      rw [show w₀.client.positionMap.index a = w.client.positionMap.index a from
        PositionMap.index_set_ne _ _ he]
      exact hw.found a ha
  obtain ⟨out, w', hrun, hs', hindex', hinit', hfound'⟩ := internalAccessDirect_returns
    (w := w₀) hstand op buffer draws (hw.position_lt address) hw.intact (hw.found address haddress)
  refine ⟨out, w', ?_, hs', fun a => ?_, hinit'.trans hw.initialized, fun a ha => ?_⟩
  · rw [access_direct hw.initialized hop]
    exact hrun
  · rw [hindex']
    by_cases he : a = address
    · subst he
      rw [show w₀.client.positionMap.index a = draws.position % P.numberOfLeafs from
        PositionMap.index_set_self _ _ _]
      exact Nat.mod_lt _ (Nat.two_pow_pos _)
    · rw [show w₀.client.positionMap.index a = w.client.positionMap.index a from
        PositionMap.index_set_ne _ _ he]
      exact hw.position_lt a
  · rw [hindex']
    exact hfound' a (hfound₀ a ha)

/-! ## The load

A load of data that does not fit gives positions to the blocks it places, and leaves the
others without one. -/

/-- One bucket of the load. The blocks that it takes are found in it, on the
paths they are assigned to, and the others where they were. -/
theorem placed_found {t : Tag} (ht : t ∈ treeTags P.treeLevel) {new pad : List (OramBlock D)}
    (hnormal : ∀ b ∈ new, b.isNormal = true) {m : PositionMap}
    {w : PathSystem D (TreeOramServerStorage C)} {server : TreeOramServerStorage C}
    (hother : ∀ a, (∀ b ∈ new, b.id ≠ a) → m.index a = w.client.positionMap.index a)
    (hthrough : ∀ b ∈ new, m.index b.id / 2 ^ (P.treeLevel - t.1) = t.2)
    (hblocks : ∀ t', server.blocksAt t' =
      if t' = t then w.server.blocksAt t' ++ (new ++ pad) else w.server.blocksAt t') {a : ℕ}
    (ha : w.FoundOn P a (w.client.positionMap.index a) ∨ ∃ b ∈ new, b.id = a) :
    FoundOn P a (m.index a) ⟨{ w.client with positionMap := m }, server⟩ := by
  by_cases hmem : ∃ b ∈ new, b.id = a
  · obtain ⟨b, hb, rfl⟩ := hmem
    refine .of_bucket (mem_pathTags.mpr ⟨(mem_treeTags.mp ht).1, hthrough b hb⟩) ?_
      (blockEqual_iff.mpr ⟨rfl, hnormal b hb⟩)
    rw [hblocks, if_pos rfl]
    exact List.mem_append_right _ (List.mem_append_left _ hb)
  · obtain ⟨b, heq, hb⟩ := (ha.resolve_right hmem).cases
    rw [hother a fun b hb he => hmem ⟨b, hb, he⟩]
    rcases hb with hb | ⟨t', ht', hb⟩
    · exact ⟨b, heq, .inl hb⟩
    · refine .of_bucket ht' ?_ heq
      rw [hblocks]
      split
      · exact List.mem_append_left _ hb
      · exact hb

/-- The two outer loops of the load, over buckets of the tree. The ids of the
real blocks that they place are found afterwards, and so is what was found
before: an id that occurs again moves to the bucket that takes it last. -/
theorem fillTree_found (draws : FillDraws C) (ts : List Tag)
    (htags : ∀ t ∈ ts, t ∈ treeTags P.treeLevel) (data : List (OramBlock D))
    {w : PathSystem D (TreeOramServerStorage C)} (hs : Intact P.treeLevel w.server)
    (hlt : ∀ a, w.client.positionMap.index a < P.numberOfLeafs) :
    ∃ w', fillTree (OramService.stub C P.id) P draws ts data w = (.ok (), w') ∧
      Intact P.treeLevel w'.server ∧
      (∀ a, w'.client.positionMap.index a < P.numberOfLeafs) ∧
      ∀ a, (w.FoundOn P a (w.client.positionMap.index a) ∨
          ∃ b ∈ data.take (ts.length * P.bucketSize), blockEqual a b = true) →
        w'.FoundOn P a (w'.client.positionMap.index a) := by
  induction ts generalizing data w with
  | nil =>
    refine ⟨w, rfl, hs, hlt, fun a ha => ha.elim id ?_⟩
    rintro ⟨b, hb, -⟩
    rw [List.length_nil, Nat.zero_mul, List.take_zero] at hb
    exact absurd hb List.not_mem_nil
  | cons t ts ih =>
    have ht := htags t List.mem_cons_self
    obtain ⟨m, hbucket, hother, hplaced⟩ :=
      fillBucket_spec (interval_le P.treeLevel t) (draws.path t) P.bucketSize data w
    generalize hnew : (data.take P.bucketSize).filter OramBlock.isNormal = new at *
    obtain ⟨server, hwrite, hs₁, hblocks⟩ := accurateWriteBucket_spec
      (w := { w with client := { w.client with positionMap := m } }) hs (mem_treeTags.mp ht).1
      (mem_treeTags.mp ht).2 (draws.iv t) (padStash (draws.pad t) P.bucketSize new)
    have hlt₁ : ∀ a, m.index a < P.numberOfLeafs := placed_lt ht hother hplaced hlt
    have hfound₁ : ∀ a, (w.FoundOn P a (w.client.positionMap.index a) ∨ ∃ b ∈ new, b.id = a) →
        FoundOn P a (m.index a) ⟨{ w.client with positionMap := m }, server⟩ := fun a =>
      placed_found ht (fun b hb => (List.mem_filter.mp (hnew ▸ hb)).2) hother
        (fun b hb => (position_of_interval ht (hplaced b hb)).1) hblocks
    obtain ⟨w', hrest, hs', hlt', hfound'⟩ := ih (fun t' ht' => htags t' (List.mem_cons_of_mem _ ht'))
      (data.drop P.bucketSize) (w := ⟨{ w.client with positionMap := m }, server⟩) hs₁ hlt₁
    refine ⟨w', ?_, hs', hlt', fun a ha => hfound' a ?_⟩
    · rw [fillTree_cons, Prog.bind_ok hbucket, Prog.bind_ok (checkStatus_ok hwrite)]
      exact hrest
    · rcases ha with ha | ⟨b, hb, heq⟩
      · exact .inl (hfound₁ a (.inl ha))
      · rw [List.length_cons, Nat.succ_mul, Nat.add_comm, List.take_add, List.mem_append] at hb
        rcases hb with hb | hb
        · obtain ⟨hid, hnormal⟩ := blockEqual_iff.mp heq
          exact .inl (hfound₁ a (.inr ⟨b, hnew ▸ List.mem_filter.mpr ⟨hb, hnormal⟩, hid⟩))
        · exact .inr ⟨b, hb, heq⟩

/-- The addresses of the real blocks for which the tree has room. -/
def RoomFor (P : PathOramConfig) (data : List (OramBlock D)) (a : ℕ) : Prop :=
  ∃ b ∈ data.take P.capacity, blockEqual a b = true

/-- **The load presents** the addresses of all the blocks it has room for. -/
theorem fillWithData_presents {data : List (OramBlock D)} {draws : FillDraws C}
    {w : PathSystem D (TreeOramServerStorage C)}
    (hfill : fillWithData (OramService.stub C P.id) P data draws (PathSystem.init C P) =
      (.ok (), w)) : w.Presents P (RoomFor P data) := by
  obtain ⟨v, hrun, hs, hlt, hfound⟩ := fillTree_found draws (fillOrder P.treeLevel)
    (fun t ht => mem_fillOrder.mp ht) data (w := PathSystem.init C P) (intact_new _)
    fun a => Nat.two_pow_pos _
  rw [fillWithData, Prog.bind_ok hrun] at hfill
  cases hfill
  refine ⟨hs, hlt, rfl, fun a ha => hfound a (.inr ?_)⟩
  rw [fillOrder_length, ← PathOramConfig.capacity]
  exact ha

/-- Data that fits is loaded as a whole. -/
theorem roomFor_of_length_le {data : List (OramBlock D)} (hlen : data.length ≤ P.capacity) {a : ℕ}
    (h : ∃ b ∈ data, b.isNormal = true ∧ b.id = a) : RoomFor P data a := by
  obtain ⟨b, hb, hnormal, hid⟩ := h
  refine ⟨b, ?_, blockEqual_iff.mpr ⟨hid, hnormal⟩⟩
  rwa [List.take_of_length_le hlen]

end PathOramController

end ObliviousRam
