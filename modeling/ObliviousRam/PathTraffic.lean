import ObliviousRam.Spending
import ObliviousRam.SharedPath
import ObliviousRam.BlockBytes

set_option autoImplicit false

/-!
# What a Path ORAM stores and sends

The three reports of a Path ORAM: `ReportStorage` of the server's tree, and
`ReportClientStorage` and `ReportNetworkCommunication` of the controller
(in bytes; the code divides the first by `2 ^ 20`).

After the load every bucket has `bucket_size_` slots, and no access changes that
(`Sized`). A read empties the slots of its path and leaves them there; the write
back fills them. So an access that returns moves two full paths, and any access
at most that much.
-/

namespace ObliviousRam

variable {D : Type} {C : Codec D} {P : PathOramConfig}

namespace TreeOramServerStorage

/-- `ReportStorage`, in bytes: empty slots count. -/
def reportStorage (s : TreeOramServerStorage C) : ℕ :=
  (∑ t ∈ treeTags s.level, ((s.storage t).getD []).length) * ORAM_BLOCK_SIZE

/-- Every bucket of the tree has the slots the client's buckets have. -/
structure Sized (P : PathOramConfig) (s : TreeOramServerStorage C) : Prop where
  level_eq : s.level = P.treeLevel
  bucket : ∀ t ∈ treeTags P.treeLevel,
    ∃ d, s.storage t = some d ∧ d.length = P.bucketSize ∧ Readable d

/-- No slot is empty, but for the buckets named. -/
structure FilledBut (P : PathOramConfig) (A : Tag → Prop) (s : TreeOramServerStorage C) : Prop
    extends Sized P s where
  filled : ∀ t ∈ treeTags P.treeLevel, ¬A t → ∀ d, s.storage t = some d → none ∉ d

variable {s : TreeOramServerStorage C} {A : Tag → Prop}

/-- A sized tree reports its capacity. -/
theorem Sized.reportStorage_eq (hs : Sized P s) :
    s.reportStorage = P.capacity * ORAM_BLOCK_SIZE := by
  have hcard : (treeTags P.treeLevel).card = 2 ^ (P.treeLevel + 1) - 1 := by
    have hset : treeTags P.treeLevel = (PathOramController.fillOrder P.treeLevel).toFinset := by
      ext t
      rw [List.mem_toFinset, PathOramController.mem_fillOrder]
    rw [hset, List.toFinset_card_of_nodup (PathOramController.fillOrder_nodup _),
      PathOramController.fillOrder_length]
  have hlength : ∀ t ∈ treeTags P.treeLevel, ((s.storage t).getD []).length = P.bucketSize := by
    intro t ht
    obtain ⟨d, hd, hlen, -⟩ := hs.bucket t ht
    rw [hd, Option.getD_some, hlen]
  rw [reportStorage, hs.level_eq, Finset.sum_congr rfl hlength, Finset.sum_const, hcard,
    PathOramConfig.capacity, Nat.nsmul_eq_mul]

/-- Replacing a bucket by one of the same size keeps the size. -/
theorem Sized.setBucket (hs : Sized P s) {t : Tag} {d : List (Option C.Packed)}
    (hlen : d.length = P.bucketSize) (hread : Readable d) : Sized P (s.setBucket t d) where
  level_eq := hs.level_eq
  bucket := by
    intro t' ht'
    by_cases he : t' = t
    · exact ⟨d, if_pos he, hlen, hread⟩
    · obtain ⟨d', hd', hd''⟩ := hs.bucket t' ht'
      exact ⟨d', (if_neg he).trans hd', hd''⟩

/-- What a read delivers: one block for each slot that is not empty. -/
theorem length_decode {d : List (Option C.Packed)} (hd : Readable d) (hfull : none ∉ d) :
    (d.filterMap (decode C)).length = d.length := by
  induction d with
  | nil => rfl
  | cons p ds ih =>
    cases p with
    | none => exact absurd List.mem_cons_self hfull
    | some p =>
      obtain ⟨c, hc⟩ := hd p List.mem_cons_self
      rw [List.filterMap_cons, decode_some hc]
      simp only [List.length_cons, ih hd.tail fun h => hfull (List.mem_cons_of_mem _ h)]

/-- A bucket that is stored has no empty slot. -/
theorem compressAll_filled (cs : List C.Sealed) :
    (compressAll cs).2.length = cs.length ∧ none ∉ (compressAll cs).2 := by
  induction cs with
  | nil => exact ⟨rfl, List.not_mem_nil⟩
  | cons c cs ih =>
    obtain ⟨p, hp, -⟩ := C.decompress_compress c
    simp only [compressAll, hp, List.length_cons, ih.1, List.mem_cons, ih.2, or_false, reduceCtorEq,
      not_false_iff, and_self]

/-- A read empties a bucket, which keeps its slots. -/
theorem Sized.readPath (hs : Sized P s) {x l : ℕ} (hx : x < P.numberOfLeafs)
    (hl : l ≤ P.treeLevel) :
    ∃ cs d, s.storage (pathTag P.treeLevel x l) = some d ∧
      (OramService.stub C P.id).readPath x l s =
        (.ok cs, s.setBucket (pathTag P.treeLevel x l) (d.map fun _ => none)) ∧
      d.length = P.bucketSize ∧ cs.length ≤ P.bucketSize ∧
      (none ∉ d → cs.length = P.bucketSize) := by
  obtain ⟨d, hd, hlen, hread⟩ := hs.bucket _ (pathTag_mem hx hl)
  obtain ⟨cs, hok, hmap, hclear⟩ := readBucket_spec hread
  have hcs : cs.length = (d.filterMap (decode C)).length := by
    rw [← hmap, List.length_map]
  refine ⟨cs, d, hd, Prog.mapError_ok ?_, hlen, ?_, fun hfull => ?_⟩
  · rw [pathTag] at hd
    simp only [TreeOramServerStorage.readPath, hs.level_eq, if_neg (Nat.not_lt.mpr hl), hd, hok,
      hclear]
    rfl
  · rw [hcs, ← hlen]
    exact List.length_filterMap_le _ _
  · rw [hcs, length_decode hread hfull, hlen]

/-- A write replaces a bucket by one without empty slots. -/
theorem Sized.writePath (hs : Sized P s) {x l : ℕ} (hx : x < P.numberOfLeafs)
    (hl : l ≤ P.treeLevel) (offset : ℕ) (bucket : List C.Sealed) :
    ∃ d, (OramService.stub C P.id).writePath ⟨x, l, offset, .kNormal, bucket⟩ s =
        (.ok (), s.setBucket (pathTag P.treeLevel x l) d) ∧
      d.length = bucket.length ∧ Readable d ∧ none ∉ d := by
  obtain ⟨d, hd, -⟩ := hs.bucket _ (pathTag_mem hx hl)
  obtain ⟨hok, hread, -⟩ := compressAll_spec bucket
  obtain ⟨hlen, hfull⟩ := compressAll_filled bucket
  refine ⟨_, Prog.mapError_ok ?_, hlen, hread, hfull⟩
  rw [pathTag] at hd
  rw [if_neg (by rintro ⟨⟩)]
  simp only [TreeOramServerStorage.writePath, hs.level_eq, if_neg (Nat.not_lt.mpr hl),
    accurateWritePath, hd, hok]
  rfl

/-- An initial write appends to a bucket, with no empty slots. -/
theorem initPath_storage (id x : ℕ) {l o : ℕ} {d : List (Option C.Packed)}
    (hd : s.storage (l, o) = some d) (bucket : List C.Sealed) :
    ∃ d', (OramService.stub C id).writePath ⟨x, l, o, .kInit, bucket⟩ s =
        (.ok (), s.setBucket (l, o) (d ++ d')) ∧
      d'.length = bucket.length ∧ Readable d' ∧ none ∉ d' := by
  obtain ⟨hok, hread, -⟩ := compressAll_spec bucket
  obtain ⟨hlen, hfull⟩ := compressAll_filled bucket
  refine ⟨_, Prog.mapError_ok ?_, hlen, hread, hfull⟩
  rw [if_pos rfl]
  simp only [accurateWritePath, hd, hok]
  rfl

/-- A write keeps the sizes, wherever it goes. -/
theorem Sized.write (hs : Sized P s) {bucket : List C.Sealed} (hlen : bucket.length = P.bucketSize)
    (id x l o : ℕ) :
    Sized P ((OramService.stub C id).writePath ⟨x, l, o, .kNormal, bucket⟩ s).2 := by
  obtain ⟨-, hread, -⟩ := compressAll_spec bucket
  change Sized P ((if WriteType.kNormal = .kInit then _ else TreeOramServerStorage.writePath l x
    bucket : Prog Exit (TreeOramServerStorage C) Unit) s).2
  rw [if_neg (by rintro ⟨⟩), TreeOramServerStorage.writePath]
  split
  · exact hs
  · rcases hd : s.storage (l, x / 2 ^ (s.level - l)) with _ | d
    · simp only [accurateWritePath, hd]
      exact hs
    · simp only [accurateWritePath, hd]
      exact hs.setBucket ((compressAll_filled bucket).1.trans hlen) hread

/-- The buckets of path `x` above level `i`. -/
def Drained (P : PathOramConfig) (x i : ℕ) (t : Tag) : Prop :=
  t.1 < i ∧ t = pathTag P.treeLevel x t.1

theorem FilledBut.mono {B : Tag → Prop} (hs : FilledBut P A s)
    (h : ∀ t ∈ treeTags P.treeLevel, A t → B t) : FilledBut P B s :=
  ⟨hs.toSized, fun t ht hB => hs.filled t ht fun hA => hB (h t ht hA)⟩

end TreeOramServerStorage

open TreeOramServerStorage

namespace PathOramController

/-- `ReportClientStorage`: the position map does not count. -/
def reportClientStorage (c : PathOramController D) : ℕ := c.stash.length * ORAM_BLOCK_SIZE

/-- `ReportNetworkCommunication`. -/
def reportNetworkCommunication (c : PathOramController D) : ℕ :=
  c.networkCommunication * ORAM_BLOCK_SIZE

/-- The meter: how many blocks the controller has sent and received. -/
def sent {σ : Type} (w : PathSystem D σ) : ℕ := w.client.networkCommunication

/-! ## At most two paths

The bound holds for every outcome: each procedure has a budget, and the budgets of a
sequence add up (`Spending`). -/

section

variable {k : ℕ} {I : TreeOramServerStorage C → Prop}

theorem spends_update {f : PathOramController D → PathOramController D}
    (h : ∀ c, (f c).networkCommunication = c.networkCommunication) :
    Prog.Spends sent (fun w : PathSystem D (TreeOramServerStorage C) => I w.server) 0
      (update (ε := Exit) f) :=
  .modify (fun _ hw => hw) fun w => h w.client

theorem spends_checkedRandom (reason : String) (value min max : ℕ) :
    Prog.Spends sent (fun w : PathSystem D (TreeOramServerStorage C) => I w.server) 0
      (checkedRandom reason value min max) := by
  intro w hw
  rw [checkedRandom]
  split
  · exact ⟨hw, Nat.le_refl _⟩
  · exact ⟨hw, Nat.le_refl _⟩

/-- A bucket read counts its slots, also if they are empty. -/
theorem spends_readBucket (x l : ℕ) :
    Prog.Spends sent (fun w : PathSystem D (TreeOramServerStorage C) => Sized P w.server)
      P.bucketSize (readBucket (OramService.stub C P.id) P x l) := by
  intro w hw
  rw [readBucket]
  split
  next => exact ⟨hw, Nat.le_add_right _ _⟩
  next hguard =>
    obtain ⟨hx, hl⟩ := not_or.mp hguard
    obtain ⟨cs, d, hd, hread, hlen, hle, -⟩ :=
      hw.readPath (Nat.lt_of_not_le hx) (Nat.le_of_not_lt hl)
    rw [hread]
    refine ⟨hw.setBucket (by rw [List.length_map, hlen]) (Readable.cleared d), ?_⟩
    exact Nat.add_le_add_left hle _

theorem spends_readLevels (x : ℕ) (ls : List ℕ) :
    Prog.Spends sent (fun w : PathSystem D (TreeOramServerStorage C) => Sized P w.server)
      (ls.length * P.bucketSize) (readLevels (OramService.stub C P.id) P x ls) := by
  induction ls with
  | nil =>
    rw [List.length_nil, Nat.zero_mul]
    exact .pure []
  | cons l ls ih =>
    rw [List.length_cons, Nat.succ_mul, Nat.add_comm]
    exact .bind (.mapError (spends_readBucket x l)) fun bucket =>
      .mono (.bind ih fun rest => .pure (bucket :: rest)) (Nat.le_refl _)

/-- A bucket written counts its blocks. -/
theorem spends_writeBucket (x l : ℕ) (iv : ℕ → C.Iv) {bucket : List (OramBlock D)}
    (hlen : bucket.length = P.bucketSize) :
    Prog.Spends sent (fun w : PathSystem D (TreeOramServerStorage C) => Sized P w.server)
      P.bucketSize (writeBucket (OramService.stub C P.id) x l iv bucket) := by
  intro w hw
  have hsealed : (sealBucket iv bucket).length = P.bucketSize := by
    rw [sealBucket, List.length_mapIdx, hlen]
  have hwrite := hw.write hsealed P.id x l 0
  rw [writeBucket]
  rcases h : (OramService.stub C P.id).writePath ⟨x, l, 0, .kNormal, sealBucket iv bucket⟩ w.server
    with ⟨e | u, server⟩
  · rw [h] at hwrite
    exact ⟨hwrite, Nat.le_of_eq (congrArg (w.client.networkCommunication + ·) hlen)⟩
  · rw [h] at hwrite
    exact ⟨hwrite, Nat.le_of_eq (congrArg (w.client.networkCommunication + ·) hlen)⟩

/-- `FindSubsetOf` hands out a full bucket. -/
theorem findSubsetOf_eq {ε σ : Type} (x : ℕ) (random : ℕ → OramBlock D) (w : PathSystem D σ) :
    ∃ bucket w', findSubsetOf (ε := ε) P x random w = (.ok bucket, w') ∧
      bucket.length = P.bucketSize ∧ w'.server = w.server ∧ sent w' = sent w :=
  ⟨_, _, rfl, length_padStash
    ((length_findSubset _ _ _ (Nat.zero_le _)).trans_le (Nat.min_le_left _ _)), rfl, rfl⟩

theorem spends_writeLevels (x : ℕ) (draws : AccessDraws C) (i : ℕ) :
    Prog.Spends sent (fun w : PathSystem D (TreeOramServerStorage C) => Sized P w.server)
      (i * P.bucketSize) (writeLevels (OramService.stub C P.id) P x draws i) := by
  induction i with
  | zero =>
    rw [Nat.zero_mul]
    exact .pure ()
  | succ i ih =>
    intro w hw
    obtain ⟨bucket, w₁, hfind, hlen, hserver, hsent⟩ := findSubsetOf_eq (ε := Exit) (P := P) x
      (draws.pad i) w
    have hw₁ : Sized P w₁.server := hserver ▸ hw
    rw [writeLevels, Prog.bind_ok hfind, Nat.succ_mul, Nat.add_comm (i * _), ← hsent]
    exact Prog.Spends.bind (.mapError (spends_writeBucket x i (draws.iv i) hlen)) (fun _ => ih)
      w₁ hw₁

theorem spends_updateBlock (op : Operation) (address : ℕ) (buffer block : OramBlock D) :
    Prog.Spends sent (fun w : PathSystem D (TreeOramServerStorage C) => I w.server) 0
      (updateBlock P op address buffer block) := by
  refine .free_bind (spends_update fun _ => rfl) fun _ => ?_
  split
  · exact .free_bind (spends_update fun _ => rfl) fun _ => .pure _
  · split
    · exact .free_bind (spends_update fun _ => rfl) fun _ => .pure _
    · exact .pure _

/-- A path there and back. -/
def roundTrip (P : PathOramConfig) : ℕ :=
  (P.treeLevel + 1) * P.bucketSize + (P.treeLevel + 1) * P.bucketSize

/-- A path read and at most a path written. -/
theorem spends_internalAccessDirect (op : Operation) (address x : ℕ) (buffer : OramBlock D)
    (draws : AccessDraws C) (dummy : Bool) :
    Prog.Spends sent (fun w : PathSystem D (TreeOramServerStorage C) => Sized P w.server)
      (roundTrip P) (internalAccessDirect (OramService.stub C P.id) P op address x buffer draws
        dummy) := by
  have hread := spends_readLevels (C := C) (P := P) x (List.range (P.treeLevel + 1))
  rw [List.length_range] at hread
  refine .bind hread fun path => ?_
  split
  · exact .mono (.pure _) (Nat.zero_le _)
  · refine .free_bind (spends_update fun _ => rfl) fun _ => .get_bind fun w => ?_
    split
    · exact .mono (.throw _) (Nat.zero_le _)
    · refine .free_bind (spends_updateBlock _ _ _ _) fun out => ?_
      exact .mono (.bind (spends_writeLevels x draws _) fun _ => .pure out) (Nat.le_refl _)

theorem spends_internalAccess (op : Operation) (address : ℕ) (buffer : OramBlock D)
    (draws : AccessDraws C) (dummy : Bool) :
    Prog.Spends sent (fun w : PathSystem D (TreeOramServerStorage C) => Sized P w.server)
      (roundTrip P) (internalAccess (OramService.stub C P.id) P op address buffer draws dummy) := by
  refine .get_bind fun w => ?_
  split
  · exact .mono (.throw _) (Nat.zero_le _)
  · split
    · exact .mono (.throw _) (Nat.zero_le _)
    · refine .free_bind (spends_checkedRandom _ _ _ _) fun x => ?_
      split
      · exact spends_internalAccessDirect _ _ _ _ _ _
      · exact .free_bind (spends_update fun _ => rfl) fun _ =>
          spends_internalAccessDirect _ _ _ _ _ _

end

/-! ## Exactly two paths

For an access that returns the count is exact, as every bucket is full when it is read.
The precondition says of a bucket on the path whether it is drained, so the rules are
about the place the access has come to. -/

section

variable {I : TreeOramServerStorage C → Prop}

theorem costs_update {f : PathOramController D → PathOramController D}
    (h : ∀ c, (f c).networkCommunication = c.networkCommunication) :
    Prog.Costs sent (fun w : PathSystem D (TreeOramServerStorage C) => I w.server) 0
      (fun w => I w.server) (update (ε := Exit) f) :=
  .modify (fun _ hw => hw) fun w => h w.client

theorem costs_checkedRandom (reason : String) (value min max : ℕ) :
    Prog.Costs sent (fun w : PathSystem D (TreeOramServerStorage C) => I w.server) 0
      (fun w => I w.server) (checkedRandom reason value min max) := by
  intro w x w' hw h
  rw [checkedRandom] at h
  split at h
  · cases h
    exact ⟨hw, rfl⟩
  · cases h

theorem costs_updateBlock (op : Operation) (address : ℕ) (buffer block : OramBlock D) :
    Prog.Costs sent (fun w : PathSystem D (TreeOramServerStorage C) => I w.server) 0
      (fun w => I w.server) (updateBlock P op address buffer block) := by
  refine .free_bind (costs_update fun _ => rfl) fun _ => ?_
  split
  · exact .free_bind (costs_update fun _ => rfl) fun _ => .pure _
  · split
    · exact .free_bind (costs_update fun _ => rfl) fun _ => .pure _
    · exact .pure _

variable {x : ℕ}

/-- A bucket that has not been read since its last write is delivered whole. -/
theorem costs_readBucket (i : ℕ) :
    Prog.Costs sent
      (fun w : PathSystem D (TreeOramServerStorage C) => FilledBut P (Drained P x i) w.server)
      P.bucketSize (fun w => FilledBut P (Drained P x (i + 1)) w.server)
      (readBucket (OramService.stub C P.id) P x i) := by
  intro w bucket w' hw h
  rw [readBucket] at h
  split at h
  next => cases h
  next hguard =>
    obtain ⟨hx, hi⟩ := not_or.mp hguard
    have htag := pathTag_mem (Nat.lt_of_not_le hx) (Nat.le_of_not_lt hi)
    obtain ⟨cs, d, hd, hread, hlen, -, hall⟩ :=
      hw.toSized.readPath (Nat.lt_of_not_le hx) (Nat.le_of_not_lt hi)
    rw [hread] at h
    cases h
    have hfull : none ∉ d :=
      hw.filled _ htag (fun hdrained => Nat.lt_irrefl _ hdrained.1) d hd
    refine ⟨⟨hw.toSized.setBucket (by rw [List.length_map, hlen]) (Readable.cleared d),
      fun t ht hnot d' hd' => ?_⟩, congrArg (w.client.networkCommunication + ·) (hall hfull)⟩
    have hne : t ≠ pathTag P.treeLevel x i := by
      rintro rfl
      exact hnot ⟨Nat.lt_succ_self i, rfl⟩
    exact hw.filled t ht (fun hA => hnot ⟨Nat.lt_succ_of_lt hA.1, hA.2⟩) d'
      ((if_neg hne).symm.trans hd')

/-- From the root on, each bucket is full when it is read and drained afterwards. -/
theorem costs_readLevels (n i : ℕ) :
    Prog.Costs sent
      (fun w : PathSystem D (TreeOramServerStorage C) => FilledBut P (Drained P x i) w.server)
      (n * P.bucketSize) (fun w => FilledBut P (Drained P x (i + n)) w.server)
      (readLevels (OramService.stub C P.id) P x (List.range' i n)) := by
  induction n generalizing i with
  | zero =>
    rw [Nat.zero_mul]
    exact .pure []
  | succ n ih =>
    rw [List.range'_succ, Nat.succ_mul, Nat.add_comm (n * _), ← Nat.add_assoc, Nat.add_right_comm]
    exact .bind (.mapError (costs_readBucket i)) fun bucket => .bind (ih (i + 1)) fun rest =>
      .pure (bucket :: rest)

/-- A bucket is filled again when it is written. -/
theorem costs_writeBucket (hx : x < P.numberOfLeafs) {i : ℕ} (hi : i ≤ P.treeLevel)
    (iv : ℕ → C.Iv) {bucket : List (OramBlock D)} (hlen : bucket.length = P.bucketSize) :
    Prog.Costs sent
      (fun w : PathSystem D (TreeOramServerStorage C) => FilledBut P (Drained P x (i + 1)) w.server)
      P.bucketSize (fun w => FilledBut P (Drained P x i) w.server)
      (writeBucket (OramService.stub C P.id) x i iv bucket) := by
  intro w out w' hw h
  have hsealed : (sealBucket iv bucket).length = P.bucketSize := by
    rw [sealBucket, List.length_mapIdx, hlen]
  obtain ⟨d, hwrite, hd, hread, hfull⟩ := hw.toSized.writePath hx hi 0 (sealBucket iv bucket)
  rw [writeBucket] at h
  simp only [hwrite] at h
  cases h
  refine ⟨⟨hw.toSized.setBucket (hd.trans hsealed) hread, fun t ht hnot d' hd' => ?_⟩,
    congrArg (w.client.networkCommunication + ·) hlen⟩
  by_cases he : t = pathTag P.treeLevel x i
  · cases (if_pos he).symm.trans hd'
    exact hfull
  · refine hw.filled t ht (fun hA => ?_) d' ((if_neg he).symm.trans hd')
    rcases Nat.lt_succ_iff_lt_or_eq.mp hA.1 with hlt | heq
    · exact hnot ⟨hlt, hA.2⟩
    · exact he (heq ▸ hA.2)

/-- Below level `i` the buckets are still drained; the write-back fills them from the leaf up. -/
theorem costs_writeLevels (hx : x < P.numberOfLeafs) (draws : AccessDraws C) (i : ℕ)
    (hi : i ≤ P.treeLevel + 1) :
    Prog.Costs sent
      (fun w : PathSystem D (TreeOramServerStorage C) => FilledBut P (Drained P x i) w.server)
      (i * P.bucketSize) (fun w => FilledBut P (Drained P x 0) w.server)
      (writeLevels (OramService.stub C P.id) P x draws i) := by
  induction i with
  | zero =>
    rw [Nat.zero_mul]
    exact .pure ()
  | succ i ih =>
    intro w out w' hw h
    obtain ⟨bucket, w₁, hfind, hlen, hserver, hsent⟩ := findSubsetOf_eq (ε := Exit) (P := P) x
      (draws.pad i) w
    rw [writeLevels, Prog.bind_ok hfind] at h
    have hw₁ : FilledBut P (Drained P x (i + 1)) w₁.server := hserver ▸ hw
    rw [Nat.succ_mul, Nat.add_comm (i * _), ← hsent]
    exact Prog.Costs.bind (.mapError (costs_writeBucket hx (Nat.le_of_succ_le_succ hi) (draws.iv i)
      hlen)) (fun _ => ih (Nat.le_of_succ_le hi)) w₁ out w' hw₁ h

/-- No slot of the tree is empty. -/
def Filled (P : PathOramConfig) (w : PathSystem D (TreeOramServerStorage C)) : Prop :=
  FilledBut P (fun _ => False) w.server

/-- An access that returns leaves every bucket as full as it was. -/
theorem costs_internalAccessDirect (op : Operation) (address : ℕ) (buffer : OramBlock D)
    (draws : AccessDraws C) :
    Prog.Costs sent (Filled P) (roundTrip P) (Filled P)
      (internalAccessDirect (OramService.stub C P.id) P op address x buffer draws false) := by
  intro w out w' hw h
  by_cases hx : x < P.numberOfLeafs
  · have hread := costs_readLevels (C := C) (P := P) (x := x) (P.treeLevel + 1) 0
    rw [← List.range_eq_range', Nat.zero_add] at hread
    have hall : Prog.Costs sent
        (fun w : PathSystem D (TreeOramServerStorage C) => FilledBut P (Drained P x 0) w.server)
        (roundTrip P) (fun w => FilledBut P (Drained P x 0) w.server)
        (internalAccessDirect (OramService.stub C P.id) P op address x buffer draws false) := by
      refine .bind hread fun path => .free_bind (costs_update fun _ => rfl) fun _ =>
        .get_bind fun w => ?_
      split
      · exact .throw _
      · exact .free_bind (costs_updateBlock _ _ _ _) fun out =>
          .bind (costs_writeLevels hx draws _ (Nat.le_refl _)) fun _ => .pure out
    obtain ⟨hw', hsent⟩ := hall w out w' (hw.mono fun _ _ hA => hA.elim) h
    exact ⟨hw'.mono fun t _ hA => absurd hA.1 (Nat.not_lt_zero _), hsent⟩
  · -- the first bucket is refused
    obtain ⟨path, w₁, hread, -⟩ := Prog.bind_eq_ok h
    rw [List.range_succ_eq_map, readLevels] at hread
    obtain ⟨bucket, w₂, hfirst, -⟩ := Prog.bind_eq_ok hread
    have hrefused := Prog.mapError_eq_ok hfirst
    rw [readBucket, if_pos (.inl (Nat.le_of_not_lt hx))] at hrefused
    cases hrefused

theorem costs_internalAccess (op : Operation) (address : ℕ) (buffer : OramBlock D)
    (draws : AccessDraws C) :
    Prog.Costs sent (Filled P) (roundTrip P) (Filled P)
      (internalAccess (OramService.stub C P.id) P op address buffer draws false) := by
  refine .get_bind fun w => ?_
  split
  · exact .throw _
  · split
    · exact .throw _
    · exact .free_bind (costs_checkedRandom _ _ _ _) fun x =>
        .free_bind (costs_update fun _ => rfl) fun _ => costs_internalAccessDirect _ _ _ _

end

/-! ## The load -/

/-- A tree of which the buckets to come are still without slots. -/
structure Loading (P : PathOramConfig) (todo : List Tag) (s : TreeOramServerStorage C) : Prop where
  level_eq : s.level = P.treeLevel
  bucket : ∀ t ∈ treeTags P.treeLevel, ∃ d, s.storage t = some d ∧ (t ∈ todo → d = []) ∧
    (t ∉ todo → d.length = P.bucketSize ∧ Readable d ∧ none ∉ d)

/-- The load fills the buckets that are still to come, and counts nothing. -/
theorem costs_fillTree (draws : FillDraws C) (ts : List Tag) (hnodup : ts.Nodup)
    (hts : ∀ t ∈ ts, t ∈ treeTags P.treeLevel) (data : List (OramBlock D)) :
    Prog.Costs sent (fun w : PathSystem D (TreeOramServerStorage C) => Loading P ts w.server) 0
      (fun w => Loading P [] w.server) (fillTree (OramService.stub C P.id) P draws ts data) := by
  induction ts generalizing data with
  | nil => exact .pure ()
  | cons t ts ih =>
    intro w out w' hw h
    obtain ⟨m, hbucket, -⟩ :=
      fillBucket_maps (interval_le P.treeLevel t) (draws.path t) P.bucketSize data w
    rw [fillTree, Prog.bind_ok hbucket] at h
    obtain ⟨u, w₂, hwrite, hrest⟩ := Prog.bind_eq_ok h
    -- the bucket is padded and appended to one without slots
    have hlen : (sealBucket (draws.iv t) (padStash (draws.pad t) P.bucketSize
        ((data.take P.bucketSize).filter OramBlock.isNormal))).length = P.bucketSize := by
      rw [sealBucket, List.length_mapIdx]
      exact length_padStash ((List.length_filter_le _ _).trans (List.length_take_le _ _))
    obtain ⟨d, hd, hempty, -⟩ := hw.bucket t (hts t List.mem_cons_self)
    cases hempty List.mem_cons_self
    obtain ⟨d', hinit, hd', hread, hfull⟩ := initPath_storage P.id 0 hd
      (sealBucket (draws.iv t) (padStash (draws.pad t) P.bucketSize
        ((data.take P.bucketSize).filter OramBlock.isNormal)))
    have hwritten := Prog.mapError_eq_ok hwrite
    simp only [accurateWriteBucket, hinit] at hwritten
    cases hwritten
    have hw₂ : Loading P ts (w.server.setBucket t ([] ++ d')) := by
      refine ⟨hw.level_eq, fun t' ht' => ?_⟩
      by_cases he : t' = t
      · subst he
        exact ⟨d', if_pos rfl, fun hmem => absurd hmem (List.nodup_cons.mp hnodup).1,
          fun _ => ⟨hd'.trans hlen, hread, hfull⟩⟩
      · obtain ⟨d₀, hd₀, htodo, hdone⟩ := hw.bucket t' ht'
        exact ⟨d₀, (if_neg he).trans hd₀, fun hmem => htodo (List.mem_cons_of_mem _ hmem),
          fun hmem => hdone fun hmem' => (List.mem_cons.mp hmem').elim he hmem⟩
    have hlater := ih hnodup.of_cons (fun t' ht' => hts t' (List.mem_cons_of_mem _ ht')) _ _ out w'
      hw₂ hrest
    exact hlater

/-- A load leaves every bucket with its slots filled, and the meter at zero. -/
theorem filled_of_fillWithData {data : List (OramBlock D)} {fill : FillDraws C}
    {w : PathSystem D (TreeOramServerStorage C)}
    (hfill : fillWithData (OramService.stub C P.id) P data fill (PathSystem.init C P) =
      (.ok (), w)) : Filled P w ∧ sent w = 0 := by
  obtain ⟨u, w₁, htree, hlast⟩ := Prog.bind_eq_ok hfill
  cases hlast
  have hstart : Loading P (fillOrder P.treeLevel) (PathSystem.init C P).server := by
    refine ⟨clog_leafs _, fun t ht => ⟨[], ?_, fun _ => rfl, fun hmem => ?_⟩⟩
    · simp only [PathSystem.init, PathOramConfig.numberOfLeafs, TreeOramServerStorage.new,
        clog_leafs]
      rw [if_pos (mem_treeTags.mp ht)]
    · exact absurd (mem_fillOrder.mpr ht) hmem
  obtain ⟨hloaded, hsent⟩ := costs_fillTree fill _ (fillOrder_nodup _)
    (fun t ht => mem_fillOrder.mp ht) data _ _ _ hstart htree
  refine ⟨⟨⟨hloaded.level_eq, fun t ht => ?_⟩, fun t ht _ d hd => ?_⟩, hsent⟩
  · obtain ⟨d, hd, -, hdone⟩ := hloaded.bucket t ht
    obtain ⟨hlen, hread, -⟩ := hdone List.not_mem_nil
    exact ⟨d, hd, hlen, hread⟩
  · obtain ⟨d', hd', -, hdone⟩ := hloaded.bucket t ht
    cases hd.symm.trans hd'
    exact (hdone List.not_mem_nil).2.2

end PathOramController

/-! ## Runs of accesses -/

/-- The call is an access that is no dummy. -/
def PathOp.isReal : PathOp C → Bool
  | .fillWithData .. => false
  | .internalAccess _ _ _ _ dummy => !dummy
  | _ => true

open PathOramController

/-- An access of any kind spends at most a round trip, whatever comes of it. -/
theorem PathOp.spends {call : PathOp C} (h : call.isAccess = true) :
    Prog.Spends sent (fun w => Sized P w.server) (roundTrip P)
      (call.run (OramService.stub C P.id) P) := by
  cases call with
  | fillWithData data draws => cases h
  | access op address buffer draws =>
    refine .bind (l := 0) (k := roundTrip P) (.get_bind fun w => ?_) fun out => .pure (some out)
    split
    · exact .mono (.throw _) (Nat.zero_le _)
    · exact spends_internalAccess _ _ _ _ _
  | internalAccess op address buffer draws dummy =>
    exact .bind (l := 0) (k := roundTrip P) (spends_internalAccess _ _ _ _ _) fun out =>
      .pure (some out)
  | accessDirect op address position buffer draws =>
    refine .bind (l := 0) (k := roundTrip P) (.get_bind fun w => ?_) fun out => .pure (some out)
    split
    · exact .mono (.throw _) (Nat.zero_le _)
    · exact spends_internalAccessDirect _ _ _ _ _ _

/-- A real access that returns costs exactly a round trip. -/
theorem PathOp.costs {call : PathOp C} (h : call.isReal = true) :
    Prog.Costs sent (Filled P) (roundTrip P) (Filled P) (call.run (OramService.stub C P.id) P) := by
  cases call with
  | fillWithData data draws => cases h
  | access op address buffer draws =>
    refine .bind (l := 0) (k := roundTrip P) (.get_bind fun w => ?_) fun out => .pure (some out)
    split
    · exact .throw _
    · exact costs_internalAccess _ _ _ _
  | internalAccess op address buffer draws dummy =>
    cases dummy with
    | true => cases h
    | false =>
      exact .bind (l := 0) (k := roundTrip P) (costs_internalAccess _ _ _ _) fun out =>
        .pure (some out)
  | accessDirect op address position buffer draws =>
    refine .bind (l := 0) (k := roundTrip P) (.get_bind fun w => ?_) fun out => .pure (some out)
    split
    · exact .throw _
    · exact costs_internalAccessDirect _ _ _ _

/-- **What a Path ORAM stores and sends.** After a load, whatever is accessed
and whatever comes of it, the server reports the size of the full tree, and the
controller no more than two paths for each access. If all accesses are real and
return, it reports exactly that. -/
theorem pathOram_traffic {data : List (OramBlock D)} {fill : FillDraws C}
    {w v : PathSystem D (TreeOramServerStorage C)}
    (hfill : fillWithData (OramService.stub C P.id) P data fill (PathSystem.init C P) = (.ok (), w))
    {calls : List (PathOp C)} (haccess : ∀ call ∈ calls, call.isAccess = true)
    {outs : List (Except Exit (Option (OramBlock D)))}
    (hrun : Prog.trace Exit.fatal (PathOp.run (OramService.stub C P.id) P) calls w =
      some (outs, v)) :
    v.server.reportStorage = P.capacity * ORAM_BLOCK_SIZE ∧
      v.client.reportNetworkCommunication ≤
        calls.length * (2 * (P.treeLevel + 1) * P.bucketSize * ORAM_BLOCK_SIZE) ∧
      ((∀ call ∈ calls, call.isReal = true) → (∀ out ∈ outs, out.isOk = true) →
        v.client.reportNetworkCommunication =
          calls.length * (2 * (P.treeLevel + 1) * P.bucketSize * ORAM_BLOCK_SIZE)) := by
  obtain ⟨hw, hzero⟩ := filled_of_fillWithData hfill
  have htrip : roundTrip P * ORAM_BLOCK_SIZE =
      2 * (P.treeLevel + 1) * P.bucketSize * ORAM_BLOCK_SIZE := by
    rw [roundTrip, Nat.mul_assoc 2, Nat.two_mul]
  obtain ⟨hv, hle⟩ := Prog.Spends.trace (fun call hcall => PathOp.spends (haccess call hcall))
    hw.toSized hrun
  rw [hzero, Nat.zero_add] at hle
  refine ⟨hv.reportStorage_eq, ?_, fun hreal hok => ?_⟩
  · rw [← htrip, ← Nat.mul_assoc]
    exact Nat.mul_le_mul_right _ hle
  · obtain ⟨-, heq⟩ :=
      Prog.Costs.trace (fun call hcall => PathOp.costs (hreal call hcall)) hw hrun hok
    rw [hzero, Nat.zero_add] at heq
    rw [← htrip, ← Nat.mul_assoc]
    exact congrArg (· * ORAM_BLOCK_SIZE) heq

/-- A write, a read of another block, and a read of the first. -/
def smallAccesses : List (PathOp (Codec.plain ℕ)) :=
  [.access .kWrite 3 (smallBlock 3 31) smallDraws, .access .kRead 5 dummyBlock smallDraws,
    .access .kRead 3 dummyBlock smallDraws]

/-- The small tree after a load of two blocks. -/
def smallLoaded : PathSystem ℕ (TreeOramServerStorage (Codec.plain ℕ)) :=
  (fillWithData (OramService.stub _ 0) smallTree [smallBlock 3 30, smallBlock 5 50] smallFill
    (PathSystem.init _ smallTree)).2

/-- Three accesses of a tree with two levels. -/
theorem pathOram_traffic_small :
    fillWithData (OramService.stub _ 0) smallTree [smallBlock 3 30, smallBlock 5 50] smallFill
        (PathSystem.init _ smallTree) = (.ok (), smallLoaded) ∧
      ∃ outs v, Prog.trace Exit.fatal (PathOp.run (OramService.stub _ 0) smallTree) smallAccesses
          smallLoaded = some (outs, v) ∧
        v.server.reportStorage = 6 * ORAM_BLOCK_SIZE ∧
        v.client.reportNetworkCommunication = 3 * (8 * ORAM_BLOCK_SIZE) := by
  have hfill : fillWithData (OramService.stub _ 0) smallTree [smallBlock 3 30, smallBlock 5 50]
      smallFill (PathSystem.init _ smallTree) = (.ok (), smallLoaded) := rfl
  have hreturn : (Prog.trace Exit.fatal (PathOp.run (OramService.stub _ 0) smallTree)
      smallAccesses smallLoaded).map (fun run => run.1.map Except.isOk) =
        some [true, true, true] := by decide +kernel
  obtain ⟨⟨outs, v⟩, hrun, hok⟩ := Option.map_eq_some_iff.mp hreturn
  have hall : ∀ out ∈ outs, out.isOk = true := by
    intro out hout
    have hmem : out.isOk ∈ [true, true, true] := hok ▸ List.mem_map_of_mem hout
    simpa using hmem
  have hcapacity : smallTree.capacity = 6 := by decide
  have htrip : 2 * (smallTree.treeLevel + 1) * smallTree.bucketSize = 8 := by decide
  obtain ⟨hstorage, -, htraffic⟩ := pathOram_traffic (P := smallTree) hfill (by decide) hrun
  rw [hcapacity] at hstorage
  rw [htrip] at htraffic
  exact ⟨hfill, outs, v, hrun, hstorage, htraffic (by decide) hall⟩

end ObliviousRam
