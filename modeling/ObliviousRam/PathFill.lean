import ObliviousRam.PathAccess

set_option autoImplicit false

/-!
# The initial load of a Path ORAM

`FillWithData` on a fresh controller and a fresh tree: every real block of the
data goes to exactly one bucket, gets a position whose path runs through that
bucket, and the invariant of `PathAccess` is established.

The load goes through the buckets once. What is still to be loaded takes part
in the uniqueness of the ids from the start, so that giving a position to a new
block never moves one that is already in the tree.
-/

namespace ObliviousRam

open TreeOramServerStorage PathSystem

variable {D : Type} {C : Codec D} {P : PathOramConfig}

/-! ## The order of the load -/

namespace PathOramController

theorem fillOrder_succ (L : ℕ) :
    fillOrder (L + 1) = (List.range (2 ^ (L + 1))).map (fun j => (L + 1, j)) ++ fillOrder L := by
  rw [fillOrder, List.range_succ, List.reverse_append, List.reverse_singleton, List.singleton_append,
    List.flatMap_cons, ← fillOrder]

/-- The loops reach every bucket of the tree. -/
theorem mem_fillOrder {L : ℕ} {t : Tag} : t ∈ fillOrder L ↔ t ∈ treeTags L := by
  rw [mem_treeTags, fillOrder, List.mem_flatMap]
  constructor
  · rintro ⟨i, hi, ht⟩
    obtain ⟨j, hj, rfl⟩ := List.mem_map.mp ht
    exact ⟨Nat.lt_succ_iff.mp (List.mem_range.mp (List.mem_reverse.mp hi)), List.mem_range.mp hj⟩
  · rintro ⟨hl, ho⟩
    exact ⟨t.1, List.mem_reverse.mpr (List.mem_range.mpr (Nat.lt_succ_of_le hl)),
      List.mem_map.mpr ⟨t.2, List.mem_range.mpr ho, rfl⟩⟩

/-- The loops reach each bucket once. -/
theorem fillOrder_nodup (L : ℕ) : (fillOrder L).Nodup := by
  induction L with
  | zero => exact List.nodup_singleton _
  | succ L ih =>
    rw [fillOrder_succ]
    refine List.nodup_append.mpr ⟨?_, ih, ?_⟩
    · exact List.nodup_range.map fun i j h => congrArg Prod.snd h
    · intro t ht t' ht' he
      obtain ⟨j, -, rfl⟩ := List.mem_map.mp ht
      have hle := (mem_treeTags.mp (mem_fillOrder.mp (he ▸ ht'))).1
      exact Nat.not_succ_le_self L hle

/-- The loops reach as many buckets as a full tree has. -/
theorem fillOrder_length (L : ℕ) : (fillOrder L).length = 2 ^ (L + 1) - 1 := by
  induction L with
  | zero => rfl
  | succ L ih =>
    have hpos := Nat.two_pow_pos L
    rw [fillOrder_succ, List.length_append, List.length_map, List.length_range, ih,
      Nat.pow_succ 2 (L + 1), Nat.pow_succ 2 L]
    omega

/-! ## One bucket -/

/-- The innermost loop takes the next `k` elements of the data, keeps the real
blocks, and enters a position between `start` and `stop` for each of them. -/
theorem fillBucket_maps {σ : Type} {start stop : ℕ} (hle : start ≤ stop) (draw : ℕ → ℕ) :
    ∀ (k : ℕ) (data : List (OramBlock D)) (w : PathSystem D σ),
      ∃ m, fillBucket start stop draw k data w =
          (.ok ((data.take k).filter OramBlock.isNormal, data.drop k),
            { w with client := { w.client with positionMap := m } }) ∧
        (∀ a, (∀ b ∈ (data.take k).filter OramBlock.isNormal, b.id ≠ a) →
          m a = w.client.positionMap a) ∧
        ∀ b ∈ (data.take k).filter OramBlock.isNormal,
          ∃ p, m b.id = some p ∧ start ≤ p ∧ p ≤ stop := by
  intro k
  induction k with
  | zero =>
    intro data w
    refine ⟨w.client.positionMap, ?_, fun a _ => rfl, fun b hb => ?_⟩
    · rw [fillBucket, List.take_zero, List.drop_zero]
      rfl
    · rw [List.take_zero] at hb
      exact absurd hb List.not_mem_nil
  | succ k ih =>
    intro data w
    rcases data with _ | ⟨b, data⟩
    · exact ⟨w.client.positionMap, rfl, fun a _ => rfl, fun b hb => absurd hb List.not_mem_nil⟩
    · rw [List.take_succ_cons, List.drop_succ_cons]
      by_cases hb : b.isNormal = true
      · -- a real block: draw its position, then go on
        have hdraw := checkedRandom_ok (σ := PathSystem D σ)
          "UniformRandom error" (draw k) hle w
        have hrange : start ≤ draw k % (stop - start + 1) + start ∧
            draw k % (stop - start + 1) + start ≤ stop := by
          have := Nat.mod_lt (draw k) (show 0 < stop - start + 1 by omega)
          omega
        generalize draw k % (stop - start + 1) + start = path at hdraw hrange
        obtain ⟨m, hrun, hother, hplaced⟩ := ih data
          ⟨{ w.client with positionMap := w.client.positionMap.set b.id path }, w.server⟩
        have hfirst : ∀ c ∈ b :: (data.take k).filter OramBlock.isNormal,
            ∃ p, m c.id = some p ∧ start ≤ p ∧ p ≤ stop := by
          intro c hc
          by_cases hmem : ∃ d ∈ (data.take k).filter OramBlock.isNormal, d.id = c.id
          · obtain ⟨d, hd, hid⟩ := hmem
            exact hid ▸ hplaced d hd
          · rcases List.mem_cons.mp hc with rfl | hc
            · have hset := hother c.id fun d hd hid => hmem ⟨d, hd, hid⟩
              exact ⟨path, hset.trans (if_pos rfl), hrange⟩
            · exact hplaced c hc
        rw [List.filter_cons_of_pos hb]
        refine ⟨m, ?_, ?_, hfirst⟩
        · rw [fillBucket, if_pos hb, Prog.bind_ok hdraw, update, Prog.modify_bind,
            Prog.bind_ok hrun]
          rfl
        · intro a ha
          exact (hother a fun c hc => ha c (List.mem_cons_of_mem _ hc)).trans
            (if_neg (Ne.symm (ha b List.mem_cons_self)))
      · obtain ⟨m, hrun, hother, hplaced⟩ := ih data w
        rw [List.filter_cons_of_neg hb]
        refine ⟨m, ?_, hother, hplaced⟩
        rw [fillBucket, if_neg hb]
        exact hrun

/-- The same of the values that `operator[]` delivers. -/
theorem fillBucket_spec {σ : Type} {start stop : ℕ} (hle : start ≤ stop) (draw : ℕ → ℕ) (k : ℕ)
    (data : List (OramBlock D)) (w : PathSystem D σ) :
    ∃ m, fillBucket start stop draw k data w =
        (.ok ((data.take k).filter OramBlock.isNormal, data.drop k),
          { w with client := { w.client with positionMap := m } }) ∧
      (∀ a, (∀ b ∈ (data.take k).filter OramBlock.isNormal, b.id ≠ a) →
        m.index a = w.client.positionMap.index a) ∧
      ∀ b ∈ (data.take k).filter OramBlock.isNormal,
        start ≤ m.index b.id ∧ m.index b.id ≤ stop := by
  obtain ⟨m, hrun, hother, hplaced⟩ := fillBucket_maps hle draw k data w
  refine ⟨m, hrun, fun a ha => ?_, fun b hb => ?_⟩
  · rw [PositionMap.index, hother a ha, PositionMap.index]
  · obtain ⟨p, hp, hrange⟩ := hplaced b hb
    rw [PositionMap.index, hp]
    exact hrange

/-- The interval of a bucket is not empty. -/
theorem interval_le (L : ℕ) (t : Tag) :
    t.2 * 2 ^ (L - t.1) ≤ t.2 * 2 ^ (L - t.1) + 2 ^ (L - t.1) - 1 := by
  have := Nat.two_pow_pos (L - t.1)
  omega

/-- The interval of a bucket: its paths are the leaves below it. -/
theorem position_of_interval {L p : ℕ} {t : Tag} (ht : t ∈ treeTags L)
    (hp : t.2 * 2 ^ (L - t.1) ≤ p ∧ p ≤ t.2 * 2 ^ (L - t.1) + 2 ^ (L - t.1) - 1) :
    p / 2 ^ (L - t.1) = t.2 ∧ p < 2 ^ L := by
  obtain ⟨hl, ho⟩ := mem_treeTags.mp ht
  have hspan : 0 < 2 ^ (L - t.1) := Nat.two_pow_pos _
  have hpow : 2 ^ t.1 * 2 ^ (L - t.1) = 2 ^ L := by
    rw [← pow_add, Nat.add_sub_cancel' hl]
  have hlt : p < (t.2 + 1) * 2 ^ (L - t.1) := by
    rw [Nat.succ_mul]
    omega
  refine ⟨?_, ?_⟩
  · exact Nat.div_eq_of_lt_le hp.1 hlt
  · calc p < (t.2 + 1) * 2 ^ (L - t.1) := hlt
      _ ≤ 2 ^ t.1 * 2 ^ (L - t.1) := Nat.mul_le_mul_right _ ho
      _ = 2 ^ L := hpow

/-- Positions stay leaves when the blocks of a bucket get theirs from its interval. -/
theorem placed_lt {L : ℕ} {t : Tag} (ht : t ∈ treeTags L) {new : List (OramBlock D)}
    {m m₀ : PositionMap} (hother : ∀ a, (∀ b ∈ new, b.id ≠ a) → m.index a = m₀.index a)
    (hplaced : ∀ b ∈ new, t.2 * 2 ^ (L - t.1) ≤ m.index b.id ∧
      m.index b.id ≤ t.2 * 2 ^ (L - t.1) + 2 ^ (L - t.1) - 1)
    (hlt : ∀ a, m₀.index a < 2 ^ L) (a : ℕ) : m.index a < 2 ^ L := by
  by_cases hmem : ∃ b ∈ new, b.id = a
  · obtain ⟨b, hb, rfl⟩ := hmem
    exact (position_of_interval ht (hplaced b hb)).2
  · rw [hother a fun b hb he => hmem ⟨b, hb, he⟩]
    exact hlt a

/-! ## The whole tree

The invariant of the load has the data still to come beside what is stored already:
their ids are distinct together. The positions of the blocks in the tree are then out of
reach for the blocks that follow. -/

/-- The invariant of the load, with `data` still to come. -/
structure Filling (P : PathOramConfig) (data : List (OramBlock D))
    (w : PathSystem D (TreeOramServerStorage C)) : Prop where
  intact : Intact P.treeLevel w.server
  stash_eq : w.client.stash = []
  unique : UniqueKeys OramBlock.id
    (treeBlocks P.treeLevel w.server + (data.filter OramBlock.isNormal : Multiset (OramBlock D)))
  position_lt : ∀ a, w.client.positionMap.index a < P.numberOfLeafs
  on_path : ∀ t ∈ treeTags P.treeLevel, ∀ b ∈ w.server.normalAt t,
    w.client.positionMap.index b.id / 2 ^ (P.treeLevel - t.1) = t.2

/-- One bucket of the load: the next `bucket_size_` elements of the data are consumed. -/
theorem fillTag_spec {draws : FillDraws C} (hpad : ∀ t i, (draws.pad t i).isNormal = false)
    {t : Tag} (ht : t ∈ treeTags P.treeLevel) {data : List (OramBlock D)}
    {w : PathSystem D (TreeOramServerStorage C)} (hw : Filling P data w)
    (hfresh : w.server.blocksAt t = []) :
    ∃ w₁ w₂, fillBucket (t.2 * 2 ^ (P.treeLevel - t.1))
          (t.2 * 2 ^ (P.treeLevel - t.1) + 2 ^ (P.treeLevel - t.1) - 1) (draws.path t)
          P.bucketSize data w =
        (.ok ((data.take P.bucketSize).filter OramBlock.isNormal, data.drop P.bucketSize), w₁) ∧
      accurateWriteBucket (OramService.stub C P.id) t.1 t.2 (draws.iv t)
          (padStash (draws.pad t) P.bucketSize
            ((data.take P.bucketSize).filter OramBlock.isNormal)) w₁ = (.ok (), w₂) ∧
      Filling P (data.drop P.bucketSize) w₂ ∧
      w₂.client.isInitialized = w.client.isInitialized ∧
      (∀ t', t' ≠ t → w₂.server.blocksAt t' = w.server.blocksAt t') ∧
      treeBlocks P.treeLevel w₂.server = treeBlocks P.treeLevel w.server +
        ((data.take P.bucketSize).filter OramBlock.isNormal : Multiset (OramBlock D)) := by
  obtain ⟨hl, ho⟩ := mem_treeTags.mp ht
  obtain ⟨m, hrun, hother, hplaced⟩ :=
    fillBucket_spec (interval_le P.treeLevel t) (draws.path t) P.bucketSize data w
  obtain ⟨server, hwrite, hs, hblocks⟩ := accurateWriteBucket_spec
    (w := { w with client := { w.client with positionMap := m } }) hw.intact hl ho (draws.iv t)
    (padStash (draws.pad t) P.bucketSize ((data.take P.bucketSize).filter OramBlock.isNormal))
  generalize hnew : (data.take P.bucketSize).filter OramBlock.isNormal = new at *
  have hblocks' : ∀ t', server.blocksAt t' =
      if t' = t then padStash (draws.pad t) P.bucketSize new else w.server.blocksAt t' := by
    intro t'
    rw [hblocks, Prod.mk.eta]
    by_cases he : t' = t
    · rw [if_pos he, if_pos he, he, hfresh, List.nil_append]
    · rw [if_neg he, if_neg he]
  have hnormal : new.filter OramBlock.isNormal = new :=
    filter_isNormal_of_forall fun b hb => (List.mem_filter.mp (hnew ▸ hb)).2
  have hsum : treeBlocks P.treeLevel server =
      treeBlocks P.treeLevel w.server + (new : Multiset (OramBlock D)) := by
    have hupdate := treeBlocks_update ht hblocks'
    rw [filter_isNormal_padStash (hpad t), hnormal, normalAt, hfresh, List.filter_nil,
      Multiset.coe_nil, add_zero] at hupdate
    exact hupdate
  have hsplit : data.filter OramBlock.isNormal =
      new ++ (data.drop P.bucketSize).filter OramBlock.isNormal := by
    rw [← hnew, ← List.filter_append, List.take_append_drop]
  have hunique := hw.unique
  rw [hsplit, ← Multiset.coe_add, ← add_assoc] at hunique
  refine ⟨_, _, hrun, hwrite, ⟨hs, hw.stash_eq, ?_, ?_, ?_⟩, rfl, ?_, hsum⟩
  · rw [hsum]
    exact hunique
  · exact placed_lt ht hother hplaced hw.position_lt
  · intro t' ht' b hb
    by_cases he : t' = t
    · subst he
      rw [normalAt, hblocks', if_pos rfl, filter_isNormal_padStash (hpad t'), hnormal] at hb
      exact (position_of_interval ht (hplaced b hb)).1
    · rw [normalAt, hblocks', if_neg he, ← normalAt] at hb
      -- an older block: its id is not among the new ones
      have hne : ∀ c ∈ new, c.id ≠ b.id := fun c hc he =>
        hunique.left.ne_of_mem (mem_treeBlocks.mpr ⟨t', ht', hb⟩) (Multiset.mem_coe.mpr hc) he.symm
      simp only [hother b.id hne]
      exact hw.on_path t' ht' b hb
  · intro t' he
    rw [hblocks', if_neg he]

theorem fillTree_cons {σ : Type} (S : TreeStub C σ) (draws : FillDraws C) (t : Tag) (ts : List Tag)
    (data : List (OramBlock D)) :
    fillTree S P draws (t :: ts) data = (do
      let r ← fillBucket (t.2 * 2 ^ (P.treeLevel - t.1))
        (t.2 * 2 ^ (P.treeLevel - t.1) + 2 ^ (P.treeLevel - t.1) - 1) (draws.path t)
        P.bucketSize data
      checkStatus "Failed to write bucket accurately when intializing the ORAM!"
        (accurateWriteBucket S t.1 t.2 (draws.iv t) (padStash (draws.pad t) P.bucketSize r.1))
      fillTree S P draws ts r.2) := rfl

/-- The two outer loops, over distinct buckets that are still empty. -/
theorem fillTree_spec {draws : FillDraws C} (hpad : ∀ t i, (draws.pad t i).isNormal = false) :
    ∀ (ts : List Tag) (data : List (OramBlock D)) (w : PathSystem D (TreeOramServerStorage C)),
      ts.Nodup → (∀ t ∈ ts, t ∈ treeTags P.treeLevel) → Filling P data w →
      (∀ t ∈ ts, w.server.blocksAt t = []) →
      ∃ w', fillTree (OramService.stub C P.id) P draws ts data w = (.ok (), w') ∧
        Filling P (data.drop (ts.length * P.bucketSize)) w' ∧
        treeBlocks P.treeLevel w'.server = treeBlocks P.treeLevel w.server +
          ((data.take (ts.length * P.bucketSize)).filter OramBlock.isNormal :
            Multiset (OramBlock D)) := by
  intro ts
  induction ts with
  | nil =>
    intro data w _ _ hw _
    refine ⟨w, rfl, ?_, ?_⟩
    · rw [List.length_nil, Nat.zero_mul, List.drop_zero]
      exact hw
    · rw [List.length_nil, Nat.zero_mul, List.take_zero, List.filter_nil, Multiset.coe_nil, add_zero]
  | cons t ts ih =>
    intro data w hnodup htags hw hfresh
    obtain ⟨w₁, w₂, hbucket, hwrite, hw₂, -, hother, hsum₂⟩ := fillTag_spec hpad
      (htags t List.mem_cons_self) hw (hfresh t List.mem_cons_self)
    obtain ⟨w', hrest, hw', hsum'⟩ := ih (data.drop P.bucketSize) w₂ hnodup.of_cons
      (fun t' ht' => htags t' (List.mem_cons_of_mem _ ht')) hw₂ (by
        intro t' ht'
        rw [hother t' fun he => (List.nodup_cons.mp hnodup).1 (he ▸ ht')]
        exact hfresh t' (List.mem_cons_of_mem _ ht'))
    have hlen : (t :: ts).length * P.bucketSize = P.bucketSize + ts.length * P.bucketSize := by
      rw [List.length_cons, Nat.succ_mul, Nat.add_comm]
    refine ⟨w', ?_, ?_, ?_⟩
    · rw [fillTree_cons, Prog.bind_ok hbucket, Prog.bind_ok (checkStatus_ok hwrite)]
      exact hrest
    · rw [hlen, ← List.drop_drop]
      exact hw'
    · rw [hsum', hsum₂, hlen, List.take_add, List.filter_append, ← Multiset.coe_add, add_assoc]

/-- `FillWithData` on a fresh controller and tree: it returns, the invariant
holds, and the bag is the real blocks of as much of the data as fits. -/
theorem fillWithData_inv {draws : FillDraws C} (hpad : ∀ t i, (draws.pad t i).isNormal = false)
    {data : List (OramBlock D)}
    (hids : UniqueKeys OramBlock.id (data.filter OramBlock.isNormal : Multiset (OramBlock D))) :
    ∃ w, fillWithData (OramService.stub C P.id) P data draws (PathSystem.init C P) = (.ok (), w) ∧
      w.Inv P ∧
      w.contents P = ((data.take P.capacity).filter OramBlock.isNormal :
        Multiset (OramBlock D)) ∧
      w.client.isInitialized = true := by
  have hempty : ∀ t, (PathSystem.init C P).server.blocksAt t = [] := fun t => blocksAt_new _ t
  have hzero : treeBlocks P.treeLevel (PathSystem.init C P).server = 0 :=
    Finset.sum_eq_zero fun t _ => by rw [normalAt, hempty, List.filter_nil, Multiset.coe_nil]
  have hstart : Filling P data (PathSystem.init C P) := by
    refine ⟨intact_new _, rfl, ?_, fun a => Nat.two_pow_pos _, ?_⟩
    · rw [hzero, zero_add]
      exact hids
    · intro t _ b hb
      rw [normalAt, hempty, List.filter_nil] at hb
      exact absurd hb List.not_mem_nil
  obtain ⟨w, hrun, hw, hsum⟩ := fillTree_spec hpad (fillOrder P.treeLevel) data
    (PathSystem.init C P) (fillOrder_nodup _) (fun t ht => mem_fillOrder.mp ht) hstart
    fun t _ => hempty t
  rw [fillOrder_length, ← PathOramConfig.capacity, hzero, zero_add] at hsum
  let w' : PathSystem D (TreeOramServerStorage C) :=
    { w with client := { w.client with isInitialized := true } }
  have hcont : w'.contents P =
      ((data.take P.capacity).filter OramBlock.isNormal : Multiset (OramBlock D)) := by
    rw [contents, hw.stash_eq, List.filter_nil, Multiset.coe_nil, zero_add]
    exact hsum
  refine ⟨w', ?_, ⟨hw.intact, ?_, ?_, hw.position_lt, fun t ht _ => hw.on_path t ht⟩, hcont, rfl⟩
  · rw [fillWithData, Prog.bind_ok hrun]
    rfl
  · intro b hb
    rw [hw.stash_eq] at hb
    exact absurd hb List.not_mem_nil
  · rw [hcont]
    exact hids.of_le (Multiset.coe_le.mpr ((List.take_sublist _ _).filter _).subperm)

/-- `FillWithData` with data that fits: the bag is the real blocks of the data. -/
theorem fillWithData_spec {draws : FillDraws C} (hpad : ∀ t i, (draws.pad t i).isNormal = false)
    {data : List (OramBlock D)} (hlen : data.length ≤ P.capacity)
    (hids : UniqueKeys OramBlock.id (data.filter OramBlock.isNormal : Multiset (OramBlock D))) :
    ∃ w, fillWithData (OramService.stub C P.id) P data draws (PathSystem.init C P) = (.ok (), w) ∧
      w.Inv P ∧ w.contents P = (data.filter OramBlock.isNormal : Multiset (OramBlock D)) ∧
      w.client.isInitialized = true := by
  obtain ⟨w, hrun, hinv, hcont, hinit⟩ := fillWithData_inv (P := P) hpad hids
  rw [List.take_of_length_le hlen] at hcont
  exact ⟨w, hrun, hinv, hcont, hinit⟩

end PathOramController

end ObliviousRam
