import ObliviousRam.PathOram
import Mathlib.Algebra.BigOperators.Group.Finset.Piecewise
import Mathlib.Algebra.Order.Group.Multiset
import Mathlib.Tactic.Abel

set_option autoImplicit false

/-!
# What a Path ORAM holds

The abstract view of a client and its tree: `contents`, the **bag of real
blocks** held in the stash and in the buckets together. Reading a path moves
blocks from the tree to the stash, writing a path back moves them the other
way; neither changes the bag. So the bag is the memory the ORAM implements, and
every theorem about a Path ORAM is a statement about how a call changes it.

The file has one lemma per function of the controller, stated with the
plaintext buckets `blocksAt` of the server; the ones on loops are proved by
induction along the loop.
-/

namespace ObliviousRam

open TreeOramServerStorage

variable {D σ : Type} {C : Codec D}

/-! ## The blocks of a tree

The bag of a tree is a sum over its buckets, so a request that changes one bucket
changes one summand (`treeBlocks_update`). -/

/-- The tags of a tree whose leaves are on level `L`. -/
def treeTags (L : ℕ) : Finset Tag :=
  (Finset.range (L + 1) ×ˢ Finset.range (2 ^ L)).filter fun t => t.2 < 2 ^ t.1

/-- Level and offset within the tree. -/
theorem mem_treeTags {L : ℕ} {t : Tag} : t ∈ treeTags L ↔ t.1 ≤ L ∧ t.2 < 2 ^ t.1 := by
  simp only [treeTags, Finset.mem_filter, Finset.mem_product, Finset.mem_range]
  constructor
  · rintro ⟨⟨hl, -⟩, ho⟩
    exact ⟨Nat.lt_succ_iff.mp hl, ho⟩
  · rintro ⟨hl, ho⟩
    exact ⟨⟨Nat.lt_succ_iff.mpr hl, ho.trans_le (Nat.pow_le_pow_right Nat.two_pos hl)⟩, ho⟩

theorem pathTag_mem {L x l : ℕ} (hx : x < 2 ^ L) (hl : l ≤ L) : pathTag L x l ∈ treeTags L :=
  mem_treeTags.mpr ⟨hl, pathTag_lt hx hl⟩

/-- The real blocks of a whole tree. -/
def treeBlocks (L : ℕ) (s : TreeOramServerStorage C) : Multiset (OramBlock D) :=
  ∑ t ∈ treeTags L, (s.normalAt t : Multiset (OramBlock D))

theorem mem_treeBlocks {L : ℕ} {s : TreeOramServerStorage C} {b : OramBlock D} :
    b ∈ treeBlocks L s ↔ ∃ t ∈ treeTags L, b ∈ s.normalAt t := by
  simp only [treeBlocks, Multiset.mem_sum, Multiset.mem_coe]

theorem mem_normalAt {s : TreeOramServerStorage C} {t : Tag} {b : OramBlock D} :
    b ∈ s.normalAt t ↔ b ∈ s.blocksAt t ∧ b.isNormal = true := List.mem_filter

/-- Replacing one bucket exchanges its blocks for the new ones. -/
theorem treeBlocks_update {L : ℕ} {s s' : TreeOramServerStorage C} {t : Tag}
    {new : List (OramBlock D)} (ht : t ∈ treeTags L)
    (h : ∀ t', s'.blocksAt t' = if t' = t then new else s.blocksAt t') :
    treeBlocks L s' + (s.normalAt t : Multiset (OramBlock D)) =
      treeBlocks L s + (new.filter OramBlock.isNormal : Multiset (OramBlock D)) := by
  have hother : ∀ t' ∈ (treeTags L).erase t, s'.normalAt t' = s.normalAt t' := by
    intro t' ht'
    rw [normalAt, h, if_neg (Finset.ne_of_mem_erase ht'), ← normalAt]
  have hself : s'.normalAt t = new.filter OramBlock.isNormal := by
    rw [normalAt, h, if_pos rfl]
  rw [treeBlocks, treeBlocks, ← Finset.add_sum_erase _ _ ht, ← Finset.add_sum_erase _ _ ht,
    hself, Finset.sum_congr rfl fun t' ht' => congrArg _ (hother t' ht')]
  abel

theorem treeBlocks_congr {L : ℕ} {s s' : TreeOramServerStorage C}
    (h : ∀ t ∈ treeTags L, s'.normalAt t = s.normalAt t) : treeBlocks L s' = treeBlocks L s :=
  Finset.sum_congr rfl fun t ht => congrArg _ (h t ht)

namespace PathSystem

/-- The real blocks held in stash and server tree together. -/
def contents (P : PathOramConfig) (w : PathSystem D (TreeOramServerStorage C)) :
    Multiset (OramBlock D) :=
  (w.client.stash.filter OramBlock.isNormal : Multiset (OramBlock D)) +
    treeBlocks P.treeLevel w.server

end PathSystem

namespace PathOramController

variable {P : PathOramConfig}

/-! ## Buckets over the wire -/

/-- What is sealed opens again. -/
theorem map_decrypt_sealBucket (iv : ℕ → C.Iv) (bucket : List (OramBlock D)) :
    (sealBucket iv bucket).map (fun c => (C.decryptBlock c).2) = bucket := by
  refine List.ext_getElem? fun i => ?_
  rw [sealBucket, List.getElem?_map, List.getElem?_mapIdx, Option.map_map]
  rcases bucket[i]? with _ | b
  · rfl
  · simp only [Option.map_some, Function.comp_apply, C.decrypt_encrypt]

/-- `ReadBucket` on an existing bucket. -/
theorem readBucket_spec {w : PathSystem D (TreeOramServerStorage C)} {x l : ℕ}
    (hs : Intact P.treeLevel w.server) (hx : x < P.numberOfLeafs) (hl : l ≤ P.treeLevel) :
    ∃ n server, readBucket (OramService.stub C P.id) P x l w =
        (.ok (w.server.blocksAt (pathTag P.treeLevel x l)),
          ⟨{ w.client with networkCommunication := n }, server⟩) ∧
      Intact P.treeLevel server ∧
      ∀ t, server.blocksAt t =
        if t = pathTag P.treeLevel x l then [] else w.server.blocksAt t := by
  obtain ⟨cs, server, hread, hs', hmap, hblocks⟩ := stub_readPath P.id hs hx hl
  refine ⟨w.client.networkCommunication + cs.length, server, ?_, hs', hblocks⟩
  rw [readBucket, if_neg (by omega)]
  simp only [hread, hmap]

/-- `WriteBucket` on an existing bucket. -/
theorem writeBucket_spec {w : PathSystem D (TreeOramServerStorage C)} {x l : ℕ}
    (hs : Intact P.treeLevel w.server) (hx : x < P.numberOfLeafs) (hl : l ≤ P.treeLevel)
    (iv : ℕ → C.Iv) (bucket : List (OramBlock D)) :
    ∃ n server, writeBucket (OramService.stub C P.id) x l iv bucket w =
        (.ok (), ⟨{ w.client with networkCommunication := n }, server⟩) ∧
      Intact P.treeLevel server ∧
      ∀ t, server.blocksAt t =
        if t = pathTag P.treeLevel x l then bucket else w.server.blocksAt t := by
  obtain ⟨server, hwrite, hs', hblocks⟩ :=
    stub_writePath P.id 0 hs hx hl (sealBucket iv bucket)
  rw [map_decrypt_sealBucket] at hblocks
  refine ⟨w.client.networkCommunication + bucket.length, server, ?_, hs', hblocks⟩
  simp only [writeBucket, hwrite]

/-- `AccurateWriteBucket` on an existing bucket. -/
theorem accurateWriteBucket_spec {w : PathSystem D (TreeOramServerStorage C)} {l o : ℕ}
    (hs : Intact P.treeLevel w.server) (hl : l ≤ P.treeLevel) (ho : o < 2 ^ l)
    (iv : ℕ → C.Iv) (bucket : List (OramBlock D)) :
    ∃ server, accurateWriteBucket (OramService.stub C P.id) l o iv bucket w =
        (.ok (), ⟨w.client, server⟩) ∧
      Intact P.treeLevel server ∧
      ∀ t, server.blocksAt t =
        if t = (l, o) then w.server.blocksAt t ++ bucket else w.server.blocksAt t := by
  obtain ⟨server, hwrite, hs', hblocks⟩ :=
    stub_initPath P.id 0 hs hl ho (sealBucket iv bucket)
  rw [map_decrypt_sealBucket] at hblocks
  refine ⟨server, ?_, hs', hblocks⟩
  simp only [accurateWriteBucket, hwrite]

/-! ## Reading a path -/

/-- The levels of a path are read one by one: each bucket is delivered as it
stands and left empty. -/
theorem readLevels_spec {x : ℕ} (hx : x < P.numberOfLeafs) :
    ∀ (ls : List ℕ) (w : PathSystem D (TreeOramServerStorage C)),
      Intact P.treeLevel w.server → ls.Nodup → (∀ l ∈ ls, l ≤ P.treeLevel) →
      ∃ n server, readLevels (OramService.stub C P.id) P x ls w =
          (.ok (ls.map fun l => w.server.blocksAt (pathTag P.treeLevel x l)),
            ⟨{ w.client with networkCommunication := n }, server⟩) ∧
        Intact P.treeLevel server ∧
        (∀ t, server.blocksAt t =
          if t ∈ ls.map (pathTag P.treeLevel x) then [] else w.server.blocksAt t) ∧
        treeBlocks P.treeLevel server +
            (ls.flatMap fun l => w.server.normalAt (pathTag P.treeLevel x l) : List _) =
          treeBlocks P.treeLevel w.server := by
  intro ls
  induction ls with
  | nil =>
    intro w hs _ _
    exact ⟨w.client.networkCommunication, w.server, rfl, hs, fun t => by simp, add_zero _⟩
  | cons l ls ih =>
    intro w hs hnodup hle
    obtain ⟨n₁, server₁, hread, hs₁, hblocks₁⟩ :=
      readBucket_spec hs hx (hle l List.mem_cons_self)
    obtain ⟨n₂, server₂, hrest, hs₂, hblocks₂, hsum₂⟩ :=
      ih ⟨{ w.client with networkCommunication := n₁ }, server₁⟩ hs₁ hnodup.of_cons
        fun l' hl' => hle l' (List.mem_cons_of_mem _ hl')
    have hkeep : ∀ l' ∈ ls, server₁.blocksAt (pathTag P.treeLevel x l') =
        w.server.blocksAt (pathTag P.treeLevel x l') := by
      intro l' hl'
      rw [hblocks₁, if_neg]
      exact pathTag_ne fun he => (List.nodup_cons.mp hnodup).1 (he ▸ hl')
    refine ⟨n₂, server₂, ?_, hs₂, ?_, ?_⟩
    · rw [readLevels, Prog.bind_ok (Prog.mapError_ok hread), Prog.bind_ok hrest,
        List.map_congr_left hkeep]
      rfl
    · intro t
      rw [hblocks₂, hblocks₁, List.map_cons]
      by_cases ht : t = pathTag P.treeLevel x l
      · rw [if_pos ht, ite_self, if_pos (ht ▸ List.mem_cons_self)]
      · rw [if_neg ht]
        exact if_congr (by simp [ht]) rfl rfl
    · have hupdate := treeBlocks_update (pathTag_mem hx (hle l List.mem_cons_self)) hblocks₁
      have hnormal : (ls.flatMap fun l' => server₁.normalAt (pathTag P.treeLevel x l')) =
          ls.flatMap fun l' => w.server.normalAt (pathTag P.treeLevel x l') :=
        List.flatMap_congr fun l' hl' => congrArg _ (hkeep l' hl')
      rw [List.filter_nil, Multiset.coe_nil, add_zero] at hupdate
      rw [← hupdate, ← hsum₂, hnormal, List.flatMap_cons, ← Multiset.coe_add]
      abel

/-- What a caller is told about a path outside the tree. -/
def badPath (x : ℕ) : OramStatus :=
  (OramStatus.make .kInvalidArgument "The path or the level given is not correct"
    "ReadBucket").append (.make .kInvalidOperation s!"Failed to write bucket {x}"
      "InternalAccessDirect")

/-- A path outside the tree is refused at the root, before any request. -/
theorem readLevels_out_of_range {S : TreeStub C σ} {x : ℕ} (hx : ¬x < P.numberOfLeafs)
    (w : PathSystem D σ) :
    readLevels S P x (List.range (P.treeLevel + 1)) w = (.error (.status (badPath x)), w) := by
  have hread : readBucket S P x 0 w = (.error (.status (.make .kInvalidArgument
      "The path or the level given is not correct" "ReadBucket")), w) := by
    rw [readBucket, if_pos (Or.inl (Nat.not_lt.mp hx))]
    rfl
  rw [List.range_succ_eq_map, readLevels]
  exact Prog.bind_error (Prog.mapError_error hread)

/-! ## Merging a path into the stash -/

/-- Padding does not get into the stash. -/
theorem mergeBlock_of_not_normal {stash : List (OramBlock D)} {b : OramBlock D}
    (h : b.isNormal = false) : mergeBlock stash b = stash := by
  rw [mergeBlock, h, Bool.and_false, if_neg Bool.false_ne_true]

/-- Only the real blocks of the path matter. -/
theorem mergePath_eq_foldl_normal (stash : List (OramBlock D)) (path : List (List (OramBlock D))) :
    mergePath stash path = (path.flatten.filter OramBlock.isNormal).foldl mergeBlock stash := by
  rw [mergePath, List.foldl_filter]
  congr 1
  funext stash b
  by_cases hb : b.isNormal
  · rw [if_pos hb]
  · rw [if_neg hb, mergeBlock_of_not_normal (Bool.not_eq_true _ ▸ hb)]

/-- Blocks the stash does not know yet are all appended. -/
theorem foldl_mergeBlock {blocks : List (OramBlock D)} :
    ∀ {stash : List (OramBlock D)}, (∀ b ∈ blocks, b.isNormal = true) →
      UniqueKeys OramBlock.id ((stash : Multiset (OramBlock D)) + (blocks : Multiset _)) →
      blocks.foldl mergeBlock stash = stash ++ blocks := by
  induction blocks with
  | nil =>
    intro stash _ _
    rw [List.foldl_nil, List.append_nil]
  | cons b blocks ih =>
    intro stash hnormal hunique
    have hfresh : stash.find? (blockEqual b.id) = none := by
      refine List.find?_eq_none.mpr fun c hc he => ?_
      exact hunique.ne_of_mem (Multiset.mem_coe.mpr hc) (Multiset.mem_coe.mpr List.mem_cons_self)
        (blockEqual_iff.mp he).1
    have hmerge : mergeBlock stash b = stash ++ [b] := by
      rw [mergeBlock, hfresh, hnormal b List.mem_cons_self]
      rfl
    have hassoc : stash ++ b :: blocks = stash ++ [b] ++ blocks := by
      rw [List.append_assoc, List.singleton_append]
    rw [List.foldl_cons, hmerge, ih fun c hc => hnormal c (List.mem_cons_of_mem _ hc), hassoc]
    rw [Multiset.coe_add, ← hassoc, ← Multiset.coe_add]
    exact hunique

/-! ## Selecting blocks for a bucket

`FindSubsetOf` splits the stash: what is selected and what remains are together what was
there, and of what was on the path as much is selected as the bucket has room for. -/

/-- `FindSubsetOf` splits the stash: the subset holds blocks of path `x` only,
and the positions read through the map are those of before. -/
theorem findSubset_spec {B x : ℕ} :
    ∀ (stash : List (OramBlock D)) (m : PositionMap) (subset : List (OramBlock D)),
      ((findSubset B x m subset stash).1 : Multiset (OramBlock D)) +
          (findSubset B x m subset stash).2.1 = subset + stash ∧
        (∀ b ∈ (findSubset B x m subset stash).1, b ∈ subset ∨ b ∈ stash ∧ m.index b.id = x) ∧
        ∀ a, (findSubset B x m subset stash).2.2.index a = m.index a := by
  intro stash
  induction stash with
  | nil =>
    intro m subset
    exact ⟨rfl, fun b hb => .inl hb, fun a => rfl⟩
  | cons b stash ih =>
    intro m subset
    rw [findSubset]
    by_cases hfull : subset.length < B
    · rw [if_pos hfull]
      by_cases hpos : m.index b.id = x
      · -- the block goes into the bucket
        rw [if_pos hpos]
        obtain ⟨hsplit, hmem, hindex⟩ := ih (m.touch b.id) (subset ++ [b])
        refine ⟨?_, ?_, fun a => by rw [hindex, PositionMap.index_touch]⟩
        · rw [hsplit, ← Multiset.coe_add, ← Multiset.cons_coe b stash, ← Multiset.singleton_add,
            add_assoc]
          rfl
        · intro c hc
          rcases hmem c hc with hc | ⟨hc, hcx⟩
          · rcases List.mem_append.mp hc with hc | hc
            · exact .inl hc
            · rw [List.mem_singleton.mp hc]
              exact .inr ⟨List.mem_cons_self, hpos⟩
          · rw [PositionMap.index_touch] at hcx
            exact .inr ⟨List.mem_cons_of_mem _ hc, hcx⟩
      · -- the block stays in the stash
        rw [if_neg hpos]
        obtain ⟨hsplit, hmem, hindex⟩ := ih (m.touch b.id) subset
        refine ⟨?_, ?_, fun a => by rw [hindex, PositionMap.index_touch]⟩
        · rw [← Multiset.cons_coe b, ← Multiset.cons_coe b, Multiset.add_cons, hsplit,
            Multiset.add_cons]
        · intro c hc
          rcases hmem c hc with hc | ⟨hc, hcx⟩
          · exact .inl hc
          · rw [PositionMap.index_touch] at hcx
            exact .inr ⟨List.mem_cons_of_mem _ hc, hcx⟩
    · -- the bucket is full: the loop breaks after one more look-up
      rw [if_neg hfull]
      exact ⟨rfl, fun c hc => .inl hc, fun a => PositionMap.index_touch _ _ _⟩

/-- How many blocks of the stash are on path `x`. -/
def onPath (m : PositionMap) (x : ℕ) (stash : List (OramBlock D)) : ℕ :=
  stash.countP fun b => m.index b.id = x

/-- The count depends on the positions only. -/
theorem onPath_congr {m m' : PositionMap} (h : ∀ a, m'.index a = m.index a) (x : ℕ)
    (stash : List (OramBlock D)) : onPath m' x stash = onPath m x stash := by
  simp only [onPath, h]

/-- `FindSubsetOf` takes blocks of path `x` until the bucket is full. -/
theorem length_findSubset {B x : ℕ} :
    ∀ (stash : List (OramBlock D)) (m : PositionMap) (subset : List (OramBlock D)),
      subset.length ≤ B →
      (findSubset B x m subset stash).1.length =
        min B (subset.length + onPath m x stash) := by
  intro stash
  induction stash with
  | nil =>
    intro m subset hle
    exact (Nat.min_eq_right hle).symm
  | cons b stash ih =>
    intro m subset hle
    have htouch : onPath (m.touch b.id) x stash = onPath m x stash :=
      onPath_congr (fun a => m.index_touch b.id a) x stash
    rw [findSubset, onPath, List.countP_cons, ← onPath]
    split
    next hfull =>
      split
      next hpos =>
        rw [ih _ _ (by rw [List.length_append]; exact hfull), htouch, List.length_append]
        simp only [hpos, decide_true, if_true, List.length_singleton]
        congr 1
        omega
      next hpos =>
        simp only [ih _ _ hle, htouch, hpos, decide_false, Bool.false_eq_true, if_false, add_zero]
    next hfull =>
      rw [Nat.min_eq_left (by omega)]
      exact Nat.le_antisymm hle (Nat.not_lt.mp hfull)

/-! ## Writing a path back

The induction is along the levels. What it carries (`WrittenBack`) speaks of the bag as
a whole, so a block that does not fit at one level and goes into the next bucket, or
stays in the stash for good, is no case of its own. -/

/-- What writing the levels below `i` of path `x` does to the system: no block
is lost, nothing off the path is touched, and what is placed on the path
belongs to it. -/
structure WrittenBack (P : PathOramConfig) (x i : ℕ)
    (w w' : PathSystem D (TreeOramServerStorage C)) : Prop where
  intact : Intact P.treeLevel w'.server
  stash_normal : ∀ b ∈ w'.client.stash, b.isNormal = true
  contents_eq : w'.contents P = w.contents P
  index_eq : ∀ a, w'.client.positionMap.index a = w.client.positionMap.index a
  initialized_eq : w'.client.isInitialized = w.client.isInitialized
  off_path : ∀ t, (∀ l < i, t ≠ pathTag P.treeLevel x l) →
    w'.server.blocksAt t = w.server.blocksAt t
  placed : ∀ l < i, ∀ b ∈ w'.server.normalAt (pathTag P.treeLevel x l),
    w.client.positionMap.index b.id = x

theorem filter_isNormal_of_forall {l : List (OramBlock D)} (h : ∀ b ∈ l, b.isNormal = true) :
    l.filter OramBlock.isNormal = l := List.filter_eq_self.mpr h

/-- One level: select, pad, write. The bucket must not hold a real block, since
the write replaces it. -/
theorem writeLevel_spec {x i : ℕ} (hx : x < P.numberOfLeafs) (hi : i ≤ P.treeLevel)
    {random : ℕ → OramBlock D} (hpad : ∀ j, (random j).isNormal = false) (iv : ℕ → C.Iv)
    {w : PathSystem D (TreeOramServerStorage C)} (hs : Intact P.treeLevel w.server)
    (hstash : ∀ b ∈ w.client.stash, b.isNormal = true)
    (hempty : w.server.normalAt (pathTag P.treeLevel x i) = []) :
    ∃ subset w₁ w', findSubsetOf (ε := Exit) P x random w = (.ok subset, w₁) ∧
      writeBucket (OramService.stub C P.id) x i iv subset w₁ = (.ok (), w') ∧
      Intact P.treeLevel w'.server ∧ (∀ b ∈ w'.client.stash, b.isNormal = true) ∧
      w'.contents P = w.contents P ∧
      (∀ a, w'.client.positionMap.index a = w.client.positionMap.index a) ∧
      w'.client.isInitialized = w.client.isInitialized ∧
      (∀ t, t ≠ pathTag P.treeLevel x i → w'.server.blocksAt t = w.server.blocksAt t) ∧
      ∀ b ∈ w'.server.normalAt (pathTag P.treeLevel x i), w.client.positionMap.index b.id = x := by
  obtain ⟨hsplit, hmem, hindex⟩ :=
    findSubset_spec (B := P.bucketSize) (x := x) w.client.stash w.client.positionMap []
  generalize hr : findSubset P.bucketSize x w.client.positionMap [] w.client.stash = r at *
  rw [Multiset.coe_nil, zero_add] at hsplit
  have hnormal : ∀ b, b ∈ r.1 ∨ b ∈ r.2.1 → b.isNormal = true := by
    intro b hb
    refine hstash b (Multiset.mem_coe.mp (hsplit ▸ ?_))
    exact Multiset.mem_add.mpr (hb.imp Multiset.mem_coe.mpr Multiset.mem_coe.mpr)
  let w₁ : PathSystem D (TreeOramServerStorage C) :=
    { w with client := { w.client with stash := r.2.1, positionMap := r.2.2 } }
  obtain ⟨n, server, hwrite, hs', hblocks⟩ :=
    writeBucket_spec (w := w₁) hs hx hi iv (padStash random P.bucketSize r.1)
  have hbucket : server.normalAt (pathTag P.treeLevel x i) = r.1 := by
    rw [normalAt, hblocks, if_pos rfl, filter_isNormal_padStash hpad,
      filter_isNormal_of_forall fun b hb => hnormal b (.inl hb)]
  refine ⟨_, w₁, _, ?_, hwrite, hs', fun b hb => hnormal b (.inr hb), ?_, hindex, rfl, ?_, ?_⟩
  · simp only [findSubsetOf, hr, w₁]
  · have htree := treeBlocks_update (pathTag_mem hx hi) hblocks
    rw [filter_isNormal_padStash hpad,
      filter_isNormal_of_forall fun b hb => hnormal b (.inl hb)] at htree
    rw [hempty, Multiset.coe_nil, add_zero] at htree
    simp only [PathSystem.contents, w₁] at htree ⊢
    rw [filter_isNormal_of_forall fun b hb => hnormal b (.inr hb),
      filter_isNormal_of_forall hstash, htree, ← hsplit]
    abel
  · intro t ht
    rw [hblocks, if_neg ht]
  · intro b hb
    rw [hbucket] at hb
    rcases hmem b hb with hb | hb
    · exact absurd hb List.not_mem_nil
    · exact hb.2

/-- The levels of a path, written from `i - 1` down to the root. -/
theorem writeLevels_spec {x : ℕ} (hx : x < P.numberOfLeafs) {draws : AccessDraws C}
    (hpad : ∀ l j, (draws.pad l j).isNormal = false) :
    ∀ (i : ℕ) (w : PathSystem D (TreeOramServerStorage C)), i ≤ P.treeLevel + 1 →
      Intact P.treeLevel w.server → (∀ b ∈ w.client.stash, b.isNormal = true) →
      (∀ l < i, w.server.normalAt (pathTag P.treeLevel x l) = []) →
      ∃ w', writeLevels (OramService.stub C P.id) P x draws i w = (.ok (), w') ∧
        WrittenBack P x i w w' := by
  intro i
  induction i with
  | zero =>
    intro w _ hs hstash _
    exact ⟨w, rfl, hs, hstash, rfl, fun a => rfl, rfl, fun t _ => rfl,
      fun l hl => absurd hl (Nat.not_lt_zero l)⟩
  | succ i ih =>
    intro w hi hs hstash hempty
    obtain ⟨subset, w₁, w₂, hfind, hwrite, hs₂, hstash₂, hcont₂, hindex₂, hinit₂, hother₂,
      hplaced₂⟩ := writeLevel_spec hx (Nat.lt_succ_iff.mp hi) (hpad i) (draws.iv i) hs hstash
        (hempty i (Nat.lt_succ_self i))
    have hempty₂ : ∀ l < i, w₂.server.normalAt (pathTag P.treeLevel x l) = [] := by
      intro l hl
      rw [normalAt, hother₂ _ (pathTag_ne (Nat.ne_of_lt hl)), ← normalAt]
      exact hempty l (Nat.lt_succ_of_lt hl)
    obtain ⟨w', hrest, hback⟩ := ih w₂ (Nat.le_of_succ_le hi) hs₂ hstash₂ hempty₂
    refine ⟨w', ?_, hback.intact, hback.stash_normal, hback.contents_eq.trans hcont₂,
      fun a => (hback.index_eq a).trans (hindex₂ a), hback.initialized_eq.trans hinit₂, ?_, ?_⟩
    · rw [writeLevels, Prog.bind_ok hfind, Prog.bind_ok (Prog.mapError_ok hwrite)]
      exact hrest
    · intro t ht
      rw [hback.off_path t fun l hl => ht l (Nat.lt_succ_of_lt hl),
        hother₂ t (ht i (Nat.lt_succ_self i))]
    · intro l hl b hb
      rcases Nat.lt_succ_iff_lt_or_eq.mp hl with hl | rfl
      · rw [← hindex₂]
        exact hback.placed l hl b hb
      · refine hplaced₂ b ?_
        rw [normalAt, ← hback.off_path _ fun l' hl' => pathTag_ne (Nat.ne_of_gt hl'), ← normalAt]
        exact hb

end PathOramController

end ObliviousRam
