import ObliviousRam.PathFill
import ObliviousRam.ServerSafety

set_option autoImplicit false

/-!
# The geometry of a tree

The client computes the level of the leaves from the number of blocks, the server from the number
of leaves; the client names a bucket by an interval of paths, the server by a quotient. The two
agree: `TreeGeometry` says in what, and `treeGeometry_new` that they do from the start. No request
takes a bucket away, so the statement is about every tree that is `Standing`.
-/

namespace ObliviousRam

open TreeOramServerStorage PathOramController

variable {D : Type} {C : Codec D} {L : ℕ}

namespace PathOramController

/-- `begin` and `end`, the paths that `FillWithData` draws from for a bucket. -/
def fillRange (L : ℕ) (t : Tag) : ℕ × ℕ :=
  (t.2 * 2 ^ (L - t.1), t.2 * 2 ^ (L - t.1) + 2 ^ (L - t.1) - 1)

/-- When the loops of `FillWithData` get to bucket `t`, they draw the positions of its blocks from
this range. -/
def FillsFrom (C : Codec D) (P : PathOramConfig) (t : Tag) (range : ℕ × ℕ) : Prop :=
  ∀ {σ : Type} (S : TreeStub C σ) (draws : FillDraws C) (ts : List Tag) (data : List (OramBlock D)),
    fillTree S P draws (t :: ts) data = (do
      let r ← fillBucket range.1 range.2 (draws.path t) P.bucketSize data
      checkStatus "Failed to write bucket accurately when intializing the ORAM!"
        (accurateWriteBucket S t.1 t.2 (draws.iv t) (padStash (draws.pad t) P.bucketSize r.1))
      fillTree S P draws ts r.2)

/-- This range is the interval that `fillRange` names. -/
theorem fillTree_fillRange (C : Codec D) (P : PathOramConfig) (t : Tag) :
    FillsFrom C P t (fillRange P.treeLevel t) :=
  fun S draws ts data => fillTree_cons S draws t ts data

/-- The paths of the interval are those that lead through the bucket. -/
theorem fillRange_iff {t : Tag} (ht : t ∈ treeTags L) (path : ℕ) :
    (fillRange L t).1 ≤ path ∧ path ≤ (fillRange L t).2 ↔
      path < 2 ^ L ∧ pathTag L path t.1 = t := by
  constructor
  · intro h
    obtain ⟨hdiv, hlt⟩ := position_of_interval ht h
    exact ⟨hlt, Prod.ext rfl hdiv⟩
  · rintro ⟨-, htag⟩
    have hdiv : path / 2 ^ (L - t.1) = t.2 := congrArg Prod.snd htag
    have hspan : 0 < 2 ^ (L - t.1) := Nat.two_pow_pos _
    have hlow : t.2 * 2 ^ (L - t.1) ≤ path := (Nat.le_div_iff_mul_le hspan).mp hdiv.ge
    have hhigh : path < (t.2 + 1) * 2 ^ (L - t.1) :=
      (Nat.div_lt_iff_lt_mul hspan).mp (Nat.lt_succ_of_le hdiv.le)
    rw [Nat.succ_mul] at hhigh
    exact ⟨hlow, Nat.le_sub_one_of_lt hhigh⟩

/-- The last path of the interval is a path. -/
theorem fillRange_lt {t : Tag} (ht : t ∈ treeTags L) : (fillRange L t).2 < 2 ^ L :=
  ((fillRange_iff ht _).mp ⟨interval_le L t, le_refl _⟩).1

end PathOramController

namespace PathOramConfig

/-- The buckets of the tree have room for the blocks. -/
theorem blockNum_le_capacity (id blockNum : ℕ) (standalone : Bool) {bucketSize : ℕ}
    (hpos : 1 ≤ bucketSize) (hsize : bucketSize ≤ 255) :
    blockNum ≤ (new id blockNum bucketSize standalone).capacity := by
  have hmod : bucketSize % 256 = bucketSize := Nat.mod_eq_of_lt (by omega)
  have hceil : blockNum ≤ (blockNum + bucketSize - 1) / bucketSize * bucketSize := by
    have hdiv := Nat.div_add_mod' (blockNum + bucketSize - 1) bucketSize
    have hlt := Nat.mod_lt (blockNum + bucketSize - 1) hpos
    omega
  have hclog := Nat.le_pow_clog Nat.one_lt_two ((blockNum + bucketSize - 1) / bucketSize + 1)
  have hmono : (2 : ℕ) ^ Nat.clog 2 ((blockNum + bucketSize - 1) / bucketSize + 1) ≤
      2 ^ (Nat.clog 2 ((blockNum + bucketSize - 1) / bucketSize + 1) - 1 + 1) :=
    Nat.pow_le_pow_right Nat.two_pos (Nat.sub_le_iff_le_add.mp (le_refl _))
  rw [capacity, new, hmod]
  exact hceil.trans (Nat.mul_le_mul_right _ (Nat.le_sub_one_of_lt (hclog.trans hmono)))

/-- There is a bucket, so the level does not wrap. -/
theorem treeLevel_succ (id : ℕ) (standalone : Bool) {blockNum bucketSize : ℕ}
    (hnum : 1 ≤ blockNum) (hpos : 1 ≤ bucketSize) :
    (new id blockNum bucketSize standalone).treeLevel + 1 =
      Nat.clog 2 ((blockNum + bucketSize - 1) / bucketSize + 1) := by
  have hbucket : 1 ≤ (blockNum + bucketSize - 1) / bucketSize :=
    (Nat.one_le_div_iff hpos).mpr (by omega)
  exact Nat.sub_add_cancel (Nat.clog_pos Nat.one_lt_two (Nat.succ_le_succ hbucket))

end PathOramConfig

/-- The client with the parameters `P` and its server mean the same by levels, paths and buckets. -/
structure TreeGeometry (P : PathOramConfig) (blockNum : ℕ) (s : TreeOramServerStorage C) :
    Prop where
  level_eq : s.level = P.treeLevel
  bucket_iff : ∀ i j, (∃ bucket, s.storage (i, j) = some bucket) ↔ i ≤ P.treeLevel ∧ j < 2 ^ i
  room : blockNum ≤ (2 ^ (P.treeLevel + 1) - 1) * P.bucketSize
  /-- the buckets that requests get at -/
  addressed : ∀ path level, path < P.numberOfLeafs → level ≤ P.treeLevel →
    ∃ bucket, s.storage (pathTag s.level path level) = some bucket ∧
      readPath level path s = ((readBucket bucket).1.mapError .status,
        s.setBucket (pathTag s.level path level) (readBucket bucket).2) ∧
      ∀ written, writePath level path written s = ((compressAll written).1.mapError .status,
        s.setBucket (pathTag s.level path level) (compressAll written).2)
  /-- the paths that the load draws from for a bucket -/
  interval_iff : ∀ i j, i ≤ P.treeLevel → j < 2 ^ i →
    FillsFrom C P (i, j) (fillRange P.treeLevel (i, j)) ∧
      ∀ path, (fillRange P.treeLevel (i, j)).1 ≤ path ∧ path ≤ (fillRange P.treeLevel (i, j)).2 ↔
        path < P.numberOfLeafs ∧ pathTag s.level path i = (i, j)
  /-- nothing of this is too large for an `int` -/
  fits : P.numberOfLeafs < 2 ^ 31 ∧ ∀ i j, i ≤ P.treeLevel → j < 2 ^ i →
    (fillRange P.treeLevel (i, j)).2 < P.numberOfLeafs

namespace TreeOramServerStorage

variable {s : TreeOramServerStorage C}

/-- Requests for a path and a level of the tree get at the bucket they name. -/
theorem Standing.addressed (hs : s.Standing L) {path level : ℕ} (hpath : path < 2 ^ L)
    (hlevel : level ≤ L) :
    ∃ bucket, s.storage (pathTag s.level path level) = some bucket ∧
      readPath level path s = ((readBucket bucket).1.mapError .status,
        s.setBucket (pathTag s.level path level) (readBucket bucket).2) ∧
      ∀ written, writePath level path written s = ((compressAll written).1.mapError .status,
        s.setBucket (pathTag s.level path level) (compressAll written).2) := by
  rw [hs.intact.level_eq]
  obtain ⟨bucket, hbucket, -⟩ := hs.intact.bucket level _ hlevel (pathTag_lt hpath hlevel)
  have hlt : ¬ s.level < level := by
    rw [hs.intact.level_eq]
    exact Nat.not_lt.mpr hlevel
  have hstored : s.storage (level, path / 2 ^ (L - level)) = some bucket := hbucket
  refine ⟨bucket, hbucket, ?_, fun written => ?_⟩
  · rw [readPath, if_neg hlt, hs.intact.level_eq]
    simp only [hstored, pathTag]
  · rw [writePath, if_neg hlt, hs.intact.level_eq]
    simp only [accurateWritePath, hstored, pathTag]

/-- A tree that stands has the geometry of its client. -/
theorem Standing.treeGeometry {P : PathOramConfig} {blockNum : ℕ} (hs : s.Standing P.treeLevel)
    (hroom : blockNum ≤ P.capacity) (hlevel : P.treeLevel < 31) : TreeGeometry P blockNum s where
  level_eq := hs.intact.level_eq
  bucket_iff := by
    intro i j
    constructor
    · rintro ⟨bucket, hbucket⟩
      exact hs.inside _ _ hbucket
    · rintro ⟨hi, hj⟩
      obtain ⟨bucket, hbucket, -⟩ := hs.intact.bucket i j hi hj
      exact ⟨bucket, hbucket⟩
  room := hroom
  addressed := fun path level hpath hle => hs.addressed hpath hle
  interval_iff := by
    intro i j hi hj
    refine ⟨fillTree_fillRange C P (i, j), fun path => ?_⟩
    rw [hs.intact.level_eq]
    exact fillRange_iff (mem_treeTags.mpr ⟨hi, hj⟩) path
  fits := ⟨Nat.pow_lt_pow_right Nat.one_lt_two hlevel,
    fun i j hi hj => fillRange_lt (mem_treeTags.mpr ⟨hi, hj⟩)⟩

/-- The server computes the level of the client. -/
theorem standing_new (P : PathOramConfig) : (new C P.numberOfLeafs).Standing P.treeLevel := by
  have hnew := Standing.new (C := C) P.numberOfLeafs
  rwa [PathOramConfig.numberOfLeafs, clog_leafs] at hnew

end TreeOramServerStorage

/-- **Client and server agree on the tree**: the one that the server builds of as many buckets as
the client has leaves, and all that requests make of it. (The first line: the subtraction in the
client's constructor is one of numbers.) -/
theorem treeGeometry_new (C : Codec D) (id : ℕ) (standalone : Bool) {blockNum bucketSize : ℕ}
    (hnum : 1 ≤ blockNum) (hpos : 1 ≤ bucketSize) (hsize : bucketSize ≤ 255)
    (hlevel : (PathOramConfig.new id blockNum bucketSize standalone).treeLevel < 31) :
    (PathOramConfig.new id blockNum bucketSize standalone).treeLevel + 1 =
        Nat.clog 2 ((blockNum + bucketSize - 1) / bucketSize + 1) ∧
      TreeGeometry (PathOramConfig.new id blockNum bucketSize standalone) blockNum
        (new C (PathOramConfig.new id blockNum bucketSize standalone).numberOfLeafs) ∧
      ∀ s : TreeOramServerStorage C,
        s.Standing (PathOramConfig.new id blockNum bucketSize standalone).treeLevel →
        TreeGeometry (PathOramConfig.new id blockNum bucketSize standalone) blockNum s := by
  have hroom := PathOramConfig.blockNum_le_capacity id blockNum standalone hpos hsize
  exact ⟨PathOramConfig.treeLevel_succ id standalone hnum hpos,
    (standing_new _).treeGeometry hroom hlevel, fun s hs => hs.treeGeometry hroom hlevel⟩

/-- Seven buckets of four blocks, for 28 of them. -/
theorem treeGeometry_new_seven :
    (PathOramConfig.new 0 28 4 true).treeLevel + 1 = Nat.clog 2 ((28 + 4 - 1) / 4 + 1) ∧
      TreeGeometry (PathOramConfig.new 0 28 4 true) 28
        (new (Codec.plain ℕ) (PathOramConfig.new 0 28 4 true).numberOfLeafs) ∧
      ∀ s : TreeOramServerStorage (Codec.plain ℕ),
        s.Standing (PathOramConfig.new 0 28 4 true).treeLevel →
        TreeGeometry (PathOramConfig.new 0 28 4 true) 28 s :=
  treeGeometry_new (Codec.plain ℕ) 0 true (by decide) (by decide) (by decide) (by decide)

end ObliviousRam
