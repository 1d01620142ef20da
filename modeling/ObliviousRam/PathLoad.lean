import ObliviousRam.FromFile
import ObliviousRam.PathPadding

set_option autoImplicit false

/-!
# What a load leaves behind

`FillWithData` goes through the buckets once and gives each the next `bucket_size_` elements of
the data; `share` is what a bucket gets of it. When the buckets are full the loops end, whatever
is left of the data, and `OK` is returned. A block that is left over is nowhere, and has no
position.

What else can go wrong is padding: its bytes are random, and may be those of a block of the data.
-/

namespace ObliviousRam

open TreeOramServerStorage PathSystem

variable {D : Type} {C : Codec D} {P : PathOramConfig}

/-- The position map sends the block to a path through the bucket. -/
def PathSystem.LocatedAt (P : PathOramConfig) (w : PathSystem D (TreeOramServerStorage C))
    (b : OramBlock D) (t : Tag) : Prop :=
  ∃ p < P.numberOfLeafs, w.client.positionMap b.id = some p ∧ pathTag P.treeLevel p t.1 = t

namespace PathOramController

/-! ## The shares

The loops consume the data with one running index, a bucket full at a time, whether the
elements are real or not. So the share of a bucket is a slice of the data, filtered. -/

/-- The real blocks that bucket `t` gets in a load of these buckets. -/
def shareOf (bucketSize : ℕ) : List Tag → List (OramBlock D) → Tag → List (OramBlock D)
  | [], _, _ => []
  | t :: ts, data, t' =>
    if t' = t then (data.take bucketSize).filter OramBlock.isNormal
    else shareOf bucketSize ts (data.drop bucketSize) t'

/-- The real blocks that bucket `t` gets. -/
def share (P : PathOramConfig) (data : List (OramBlock D)) (t : Tag) : List (OramBlock D) :=
  shareOf P.bucketSize (fillOrder P.treeLevel) data t

/-- The ids of the real blocks. -/
abbrev realIds (data : List (OramBlock D)) : List ℕ :=
  (data.filter OramBlock.isNormal).map OramBlock.id

section

variable {B : ℕ} {ts : List Tag} {data : List (OramBlock D)}

/-- The ids of what is loaded now and of what is loaded later. -/
theorem realIds_take_drop (n : ℕ) (data : List (OramBlock D)) :
    realIds data = realIds (data.take n) ++ realIds (data.drop n) := by
  rw [realIds, ← List.map_append, ← List.filter_append, List.take_append_drop]

/-- No share is larger than a bucket. -/
theorem length_shareOf (t : Tag) : (shareOf B ts data t).length ≤ B := by
  induction ts generalizing data with
  | nil => simp [shareOf]
  | cons t' ts ih =>
    rw [shareOf]
    split
    · exact (List.length_filter_le _ _).trans (List.length_take_le _ _)
    · exact ih

theorem length_cons_mul (t : Tag) (ts : List Tag) (B : ℕ) :
    (t :: ts).length * B = B + ts.length * B := by
  rw [List.length_cons, Nat.succ_mul, Nat.add_comm]

/-- A share is of the data that fits. -/
theorem mem_of_mem_shareOf {t : Tag} {b : OramBlock D} (hb : b ∈ shareOf B ts data t) :
    t ∈ ts ∧ b ∈ (data.take (ts.length * B)).filter OramBlock.isNormal := by
  induction ts generalizing data with
  | nil => simp [shareOf] at hb
  | cons t' ts ih =>
    rw [length_cons_mul, List.take_add, List.filter_append, List.mem_append]
    rw [shareOf] at hb
    split at hb
    next ht => exact ⟨ht ▸ List.mem_cons_self, .inl hb⟩
    next => exact ⟨List.mem_cons_of_mem _ (ih hb).1, .inr (ih hb).2⟩

/-- What fits is in one of the shares. -/
theorem exists_mem_shareOf (hts : ts.Nodup) {b : OramBlock D}
    (hb : b ∈ (data.take (ts.length * B)).filter OramBlock.isNormal) :
    ∃ t ∈ ts, b ∈ shareOf B ts data t := by
  induction ts generalizing data with
  | nil => simp at hb
  | cons t ts ih =>
    rw [length_cons_mul, List.take_add, List.filter_append, List.mem_append] at hb
    rcases hb with hb | hb
    · exact ⟨t, List.mem_cons_self, by rwa [shareOf, if_pos rfl]⟩
    · obtain ⟨t', ht', hmem⟩ := ih hts.of_cons hb
      have hne : t' ≠ t := fun h => (List.nodup_cons.mp hts).1 (h ▸ ht')
      exact ⟨t', List.mem_cons_of_mem _ ht', by rwa [shareOf, if_neg hne]⟩

/-- No block is in two shares. -/
theorem shareOf_unique (hids : (realIds data).Nodup) {t t' : Tag} {b : OramBlock D}
    (hb : b ∈ shareOf B ts data t) (hb' : b ∈ shareOf B ts data t') : t = t' := by
  induction ts generalizing data with
  | nil => simp [shareOf] at hb
  | cons t₀ ts ih =>
    have hsplit := realIds_take_drop B data
    rw [hsplit, List.nodup_append] at hids
    -- in the first share and in a later one
    have hapart : ∀ {s : Tag}, b ∈ (data.take B).filter OramBlock.isNormal →
        b ∉ shareOf B ts (data.drop B) s := by
      intro s hfirst hlater
      have hmem : b ∈ (data.drop B).filter OramBlock.isNormal :=
        ((List.take_sublist _ _).filter _).subset (mem_of_mem_shareOf hlater).2
      exact hids.2.2 _ (List.mem_map_of_mem hfirst) _ (List.mem_map_of_mem hmem) rfl
    rw [shareOf] at hb hb'
    split at hb <;> split at hb'
    next h h' => rw [h, h']
    next => exact absurd hb' (hapart hb)
    next => exact absurd hb (hapart hb')
    next => exact ih hids.2.1 hb hb'

end

/-- A real block has its share, or is behind the capacity. -/
theorem mem_drop_or_share (P : PathOramConfig) {data : List (OramBlock D)} {b : OramBlock D}
    (hb : b ∈ data) (hnormal : b.isNormal = true) :
    b ∈ data.drop P.capacity ∨ ∃ t ∈ treeTags P.treeLevel, b ∈ share P data t := by
  rw [← List.take_append_drop P.capacity data, List.mem_append] at hb
  refine hb.symm.imp_right fun htake => ?_
  have hfits : b ∈ (data.take ((fillOrder P.treeLevel).length * P.bucketSize)).filter
      OramBlock.isNormal := by
    rw [fillOrder_length, ← PathOramConfig.capacity]
    exact List.mem_filter.mpr ⟨htake, hnormal⟩
  obtain ⟨t, ht, hshare⟩ := exists_mem_shareOf (fillOrder_nodup P.treeLevel) hfits
  exact ⟨t, mem_fillOrder.mp ht, hshare⟩

/-- Behind the capacity there is no id of a real block before it. -/
theorem notMem_realIds_take {n : ℕ} {data : List (OramBlock D)} (hids : (realIds data).Nodup)
    {b : OramBlock D} (hb : b ∈ data.drop n) (hnormal : b.isNormal = true) :
    b.id ∉ realIds (data.take n) := by
  rw [realIds_take_drop n data, List.nodup_append] at hids
  exact fun hearly => hids.2.2 b.id hearly b.id
    (List.mem_map_of_mem (List.mem_filter.mpr ⟨hb, hnormal⟩)) rfl

/-! ## The run of the load

By induction on the buckets still to come. What a later bucket gets does not touch the
positions of an earlier one, as no id occurs twice. -/

/-- The load of some buckets that are empty: each has its share then, padded, and the blocks of
the shares have their positions. -/
theorem fillTree_shares (draws : FillDraws C) :
    ∀ (ts : List Tag) (data : List (OramBlock D)) (w : PathSystem D (TreeOramServerStorage C)),
      ts.Nodup → (∀ t ∈ ts, t ∈ treeTags P.treeLevel) → (realIds data).Nodup →
      Intact P.treeLevel w.server → (∀ t ∈ ts, w.server.blocksAt t = []) →
      ∃ v, fillTree (OramService.stub C P.id) P draws ts data w = (.ok (), v) ∧
        (∀ t, v.server.blocksAt t = if t ∈ ts then
          padStash (draws.pad t) P.bucketSize (shareOf P.bucketSize ts data t)
          else w.server.blocksAt t) ∧
        (∀ a, a ∉ realIds (data.take (ts.length * P.bucketSize)) →
          v.client.positionMap a = w.client.positionMap a) ∧
        ∀ t, ∀ b ∈ shareOf P.bucketSize ts data t, v.LocatedAt P b t := by
  intro ts
  induction ts with
  | nil =>
    intro data w _ _ _ _ _
    exact ⟨w, rfl, fun t => rfl, fun a _ => rfl, fun t b hb => absurd hb List.not_mem_nil⟩
  | cons t ts ih =>
    intro data w hnodup htags hids hs hfresh
    obtain ⟨hl, ho⟩ := mem_treeTags.mp (htags t List.mem_cons_self)
    obtain ⟨m, hbucket, hother, hplaced⟩ :=
      fillBucket_maps (interval_le P.treeLevel t) (draws.path t) P.bucketSize data w
    obtain ⟨s, hwrite, hs', hblocks⟩ := accurateWriteBucket_spec
      (w := { w with client := { w.client with positionMap := m } }) hs hl ho (draws.iv t)
      (padStash (draws.pad t) P.bucketSize ((data.take P.bucketSize).filter OramBlock.isNormal))
    have hsplit := realIds_take_drop P.bucketSize data
    rw [hsplit, List.nodup_append] at hids
    have hlater : ∀ t' ∈ ts, t' ≠ t := fun t' ht' he => (List.nodup_cons.mp hnodup).1 (he ▸ ht')
    obtain ⟨v, hrest, hstored, hkept, hlocated⟩ := ih (data.drop P.bucketSize)
      ⟨{ w.client with positionMap := m }, s⟩ hnodup.of_cons
      (fun t' ht' => htags t' (List.mem_cons_of_mem _ ht')) hids.2.1 hs' (by
        intro t' ht'
        rw [hblocks, Prod.mk.eta, if_neg (hlater t' ht')]
        exact hfresh t' (List.mem_cons_of_mem _ ht'))
    refine ⟨v, ?_, fun t' => ?_, fun a ha => ?_, fun t' b hb => ?_⟩
    · rw [fillTree_cons, Prog.bind_ok hbucket, Prog.bind_ok (checkStatus_ok hwrite)]
      exact hrest
    · rw [hstored, hblocks, Prod.mk.eta, shareOf]
      by_cases ht' : t' = t
      · subst ht'
        have hnot : t' ∉ ts := (List.nodup_cons.mp hnodup).1
        rw [if_neg hnot, if_pos rfl, if_pos rfl, if_pos List.mem_cons_self,
          hfresh t' List.mem_cons_self, List.nil_append]
      · rw [if_neg ht', if_neg ht']
        simp [ht']
    · rw [length_cons_mul, List.take_add, realIds, List.filter_append, List.map_append,
        List.mem_append, not_or] at ha
      rw [hkept a ha.2]
      exact hother a fun b hb he => ha.1 (he ▸ List.mem_map_of_mem hb)
    · rw [shareOf] at hb
      split at hb
      next ht' =>
        -- the buckets that follow leave the ids of this one alone
        subst ht'
        obtain ⟨p, hp, hrange⟩ := hplaced b hb
        obtain ⟨hpath, hlt⟩ := position_of_interval (htags t' List.mem_cons_self) hrange
        refine ⟨p, hlt, ?_, Prod.ext rfl hpath⟩
        rw [hkept b.id fun hmem => ?_]
        · exact hp
        · refine hids.2.2 b.id (List.mem_map_of_mem hb) b.id ?_ rfl
          exact (((List.take_sublist _ _).filter _).map _).subset hmem
      next => exact hlocated t' b hb

/-- `FillWithData` on a fresh controller and tree: every bucket has its share, padded. -/
theorem fillWithData_shares (draws : FillDraws C) {data : List (OramBlock D)}
    (hids : (realIds data).Nodup) :
    ∃ w, fillWithData (OramService.stub C P.id) P data draws (PathSystem.init C P) = (.ok (), w) ∧
      (∀ t ∈ treeTags P.treeLevel, w.server.blocksAt t =
        padStash (draws.pad t) P.bucketSize (share P data t)) ∧
      (∀ a, a ∉ realIds (data.take P.capacity) → w.client.positionMap a = none) ∧
      ∀ t, ∀ b ∈ share P data t, w.LocatedAt P b t := by
  have hempty : ∀ t, (PathSystem.init C P).server.blocksAt t = [] := fun t => blocksAt_new _ t
  obtain ⟨v, hrun, hstored, hkept, hlocated⟩ := fillTree_shares draws (fillOrder P.treeLevel) data
    (PathSystem.init C P) (fillOrder_nodup _) (fun t ht => mem_fillOrder.mp ht) hids (intact_new _)
    fun t _ => hempty t
  rw [fillOrder_length, ← PathOramConfig.capacity] at hkept
  refine ⟨{ v with client := { v.client with isInitialized := true } }, ?_, fun t ht => ?_, hkept,
    hlocated⟩
  · rw [fillWithData, Prog.bind_ok hrun]
    rfl
  · exact (hstored t).trans (if_pos (mem_fillOrder.mpr ht))

end PathOramController

/-! ## Completeness

A block behind the capacity is not stored and has no position. A block that is stored
may still be there twice, if the padding of another bucket happens to have its bytes. -/

open PathOramController

/-- **A complete load**: every real block of the data is in exactly one bucket, no bucket holds
more than `bucket_size_` blocks, and the position map leads to the bucket of every block. -/
structure PathSystem.Complete (P : PathOramConfig) (data : List (OramBlock D))
    (w : PathSystem D (TreeOramServerStorage C)) : Prop where
  stored : ∀ b ∈ data, b.isNormal = true →
    ∃! t, t ∈ treeTags P.treeLevel ∧ b ∈ w.server.blocksAt t
  fits : ∀ t ∈ treeTags P.treeLevel, (w.server.blocksAt t).length ≤ P.bucketSize
  located : ∀ b ∈ data, b.isNormal = true → ∀ t ∈ treeTags P.treeLevel,
    b ∈ w.server.blocksAt t → w.LocatedAt P b t

/-- No bucket is padded with a block of the data that belongs into another bucket. -/
def PaddingApart (P : PathOramConfig) (data : List (OramBlock D)) (draws : FillDraws C) : Prop :=
  ∀ t ∈ treeTags P.treeLevel, ∀ b ∈ padding (draws.pad t) P.bucketSize (share P data t),
    b ∈ data → b.isNormal = true → b ∈ share P data t

/-- **When the load is complete**: the real blocks are among as many elements of the data as the
buckets hold together, and the bytes of the padding are not those of a block of the data. -/
theorem pathOram_load_complete_iff (draws : FillDraws C) {data : List (OramBlock D)}
    (hids : ((data.filter OramBlock.isNormal).map OramBlock.id).Nodup) :
    ∃ w, fillWithData (OramService.stub C P.id) P data draws (PathSystem.init C P) = (.ok (), w) ∧
      (w.Complete P data ↔
        (∀ b ∈ data.drop P.capacity, b.isNormal = false) ∧ PaddingApart P data draws) := by
  obtain ⟨w, hfill, hblocks, hmap, hlocated⟩ := fillWithData_shares (P := P) draws hids
  have hmem : ∀ t ∈ treeTags P.treeLevel, ∀ b, b ∈ w.server.blocksAt t ↔
      b ∈ share P data t ∨ b ∈ padding (draws.pad t) P.bucketSize (share P data t) := by
    intro t ht b
    rw [hblocks t ht, padStash, List.mem_append, padding]
  -- a real block behind the capacity has no position
  have hnowhere : w.Complete P data → ∀ b ∈ data.drop P.capacity, b.isNormal = false := by
    intro hw b hb
    rw [← Bool.not_eq_true]
    intro hnormal
    have hdata := List.mem_of_mem_drop hb
    obtain ⟨t, ⟨ht, hstored⟩, -⟩ := hw.stored b hdata hnormal
    obtain ⟨p, -, hp, -⟩ := hw.located b hdata hnormal t ht hstored
    rw [hmap b.id (notMem_realIds_take hids hb hnormal)] at hp
    cases hp
  refine ⟨w, hfill, fun hw => ⟨hnowhere hw, fun t ht b hb hdata hnormal => ?_⟩,
    fun hcomplete => ?_⟩
  · rcases mem_drop_or_share P hdata hnormal with hdrop | ⟨t', ht', hshare⟩
    · rw [hnowhere hw b hdrop] at hnormal
      cases hnormal
    · have hsame : t = t' := (hw.stored b hdata hnormal).unique
        ⟨ht, (hmem t ht b).mpr (.inr hb)⟩ ⟨ht', (hmem t' ht' b).mpr (.inl hshare)⟩
      exact hsame ▸ hshare
  · obtain ⟨hroom, hapart⟩ := hcomplete
    have hshare : ∀ b ∈ data, b.isNormal = true → ∀ t ∈ treeTags P.treeLevel,
        b ∈ w.server.blocksAt t → b ∈ share P data t := by
      intro b hdata hnormal t ht hb
      exact ((hmem t ht b).mp hb).elim id fun hpad => hapart t ht b hpad hdata hnormal
    refine ⟨fun b hdata hnormal => ?_, fun t ht => ?_, fun b hdata hnormal t ht hb => ?_⟩
    · rcases mem_drop_or_share P hdata hnormal with hdrop | ⟨t, ht, hb⟩
      · rw [hroom b hdrop] at hnormal
        cases hnormal
      · refine ⟨t, ⟨ht, (hmem t ht b).mpr (.inl hb)⟩, fun t' ht' => ?_⟩
        exact shareOf_unique hids (hshare b hdata hnormal t' ht'.1 ht'.2) hb
    · have hlength : (share P data t).length ≤ P.bucketSize := length_shareOf t
      rw [hblocks t ht, padStash, List.length_append, List.length_map, List.length_range']
      omega
    · exact hlocated t b (hshare b hdata hnormal t ht hb)

/-! ## A file that fits, and one that does not

The three buckets of the small tree have room for six blocks. Of a file with five lines the two
leaves get the first four and the root the fifth, with one block of padding behind it.
-/

/-- A file of five lines. -/
def linesThatFit : List (ℕ × ℕ) := [(10, 1), (11, 2), (12, 3), (13, 4), (14, 5)]

theorem pathOram_load_complete_small :
    ∃ w, fillWithData (OramService.stub _ smallTree.id) smallTree (fileBlocks linesThatFit) smallFill
        (PathSystem.init (Codec.plain ℕ) smallTree) = (.ok (), w) ∧
      w.Complete smallTree (fileBlocks linesThatFit) := by
  have hids : (((fileBlocks linesThatFit).filter OramBlock.isNormal).map OramBlock.id).Nodup := by
    decide
  obtain ⟨w, hfill, hiff⟩ := pathOram_load_complete_iff (P := smallTree) smallFill hids
  refine ⟨w, hfill, hiff.mpr ⟨by decide, fun t _ b hb _ hnormal => ?_⟩⟩
  obtain ⟨i, -, rfl⟩ := List.mem_map.mp hb
  rw [smallFill_pad] at hnormal
  cases hnormal

/-- Two lines for one block: the load returns `OK`, and the second line is in no bucket. -/
theorem pathOram_load_drops_block :
    ∃ w, fillWithData (OramService.stub _ oneBucket.id) oneBucket
        (fileBlocks [(10, 1), (20, 1)]) smallFill
        (PathSystem.init (Codec.plain ℕ) oneBucket) = (.ok (), w) ∧
      w.server.blocksAt (0, 0) = [smallBlock 0 10] ∧ w.client.positionMap 1 = none ∧
      ¬ w.Complete oneBucket (fileBlocks [(10, 1), (20, 1)]) := by
  refine ⟨_, rfl, rfl, rfl, fun h => ?_⟩
  obtain ⟨t, ⟨ht, hmem⟩, -⟩ := h.stored (smallBlock 1 20) (by decide) rfl
  have hroot : ∀ t ∈ treeTags 0, t = (0, 0) := by decide
  obtain rfl := hroot t ht
  have honly : smallBlock 1 20 ∈ [smallBlock 0 10] := hmem
  exact absurd honly (by decide)

end ObliviousRam
