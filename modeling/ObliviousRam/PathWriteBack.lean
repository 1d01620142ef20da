import ObliviousRam.PathMemory

set_option autoImplicit false

/-!
# Which blocks an access writes back

A block may be written to the bucket at level `l` of path `x` if its own path
meets `x` there. `FindSubsetOf` is handed `x` alone, not the level, and takes the
blocks whose path is `x` itself: to the leaf bucket it gives what fits, and to
all the others less.

* `stashAt`, `bucketAt` — stash and buckets of steps 10-15, level by level.
* `Exhausted` — the condition on stash and map under which a level gets all that
  fits it. The write-back is maximal, on every level and as a whole, exactly if
  all levels are exhausted.
-/

namespace ObliviousRam

open TreeOramServerStorage PathSystem PathOramController

variable {D : Type} {C : Codec D}

/-! ## What `FindSubsetOf` leaves -/

section

variable {B x : ℕ}

/-- Only the positions matter that the map gives. -/
theorem findSubset_congr : ∀ (stash : List (OramBlock D)) {m m' : PositionMap}
    (subset : List (OramBlock D)), (∀ a, m'.index a = m.index a) →
      (findSubset B x m' subset stash).1 = (findSubset B x m subset stash).1 ∧
        (findSubset B x m' subset stash).2.1 = (findSubset B x m subset stash).2.1 := by
  intro stash
  induction stash with
  | nil => exact fun _ _ => ⟨rfl, rfl⟩
  | cons b stash ih =>
    intro m m' subset h
    have htouch : ∀ a, (m'.touch b.id).index a = (m.touch b.id).index a := by
      intro a
      rw [PositionMap.index_touch, PositionMap.index_touch, h]
    rw [findSubset, findSubset, h]
    by_cases hfull : subset.length < B
    · rw [if_pos hfull, if_pos hfull]
      by_cases hpos : m.index b.id = x
      · rw [if_pos hpos, if_pos hpos]
        exact ih _ htouch
      · rw [if_neg hpos, if_neg hpos]
        obtain ⟨hsubset, hrest⟩ := ih subset htouch
        exact ⟨hsubset, congrArg (b :: ·) hrest⟩
    · rw [if_neg hfull, if_neg hfull]
      exact ⟨rfl, rfl⟩

/-- A block with another position stays where it is. -/
theorem findSubset_filter_off : ∀ (stash : List (OramBlock D)) (m : PositionMap)
    (subset : List (OramBlock D)),
      (findSubset B x m subset stash).2.1.filter (fun b => m.index b.id ≠ x) =
        stash.filter fun b => m.index b.id ≠ x := by
  intro stash
  induction stash with
  | nil => exact fun _ _ => rfl
  | cons b stash ih =>
    intro m subset
    have htouch : ∀ (l : List (OramBlock D)),
        l.filter (fun c => (m.touch b.id).index c.id ≠ x) = l.filter fun c => m.index c.id ≠ x :=
      fun l => by simp only [PositionMap.index_touch]
    rw [findSubset]
    by_cases hfull : subset.length < B
    · rw [if_pos hfull]
      by_cases hpos : m.index b.id = x
      · have h := ih (m.touch b.id) (subset ++ [b])
        rw [htouch, htouch] at h
        rw [if_pos hpos, h, List.filter_cons_of_neg (by simp [hpos])]
      · have h := ih (m.touch b.id) subset
        rw [htouch, htouch] at h
        rw [if_neg hpos, List.filter_cons_of_pos (by simp [hpos]),
          List.filter_cons_of_pos (by simp [hpos]), h]
    · rw [if_neg hfull]

/-- What is taken is missing from the blocks of path `x`. -/
theorem onPath_findSubset (m : PositionMap) (stash : List (OramBlock D)) :
    onPath m x (findSubset B x m [] stash).2.1 = onPath m x stash - min B (onPath m x stash) := by
  obtain ⟨hsplit, hmem, -⟩ := findSubset_spec (B := B) (x := x) stash m []
  have hlength := length_findSubset (B := B) (x := x) stash m [] (Nat.zero_le B)
  have htaken : onPath m x (findSubset B x m [] stash).1 =
      (findSubset B x m [] stash).1.length := by
    refine List.countP_eq_length.mpr fun b hb => decide_eq_true ?_
    exact ((hmem b hb).resolve_left List.not_mem_nil).2
  have hsum := congrArg (Multiset.countP fun b : OramBlock D => m.index b.id = x) hsplit
  rw [Multiset.countP_add, Multiset.countP_add] at hsum
  simp only [Multiset.coe_countP, List.countP_nil] at hsum
  rw [onPath] at htaken
  rw [List.length_nil, Nat.zero_add] at hlength
  rw [htaken, hlength, ← onPath, ← onPath] at hsum
  omega

end

/-! ## Level by level

How much a bucket gets depends only on how many blocks of the stash have the path as
their position: the leaf gets the first bucket full, its parent the next one, and so on. -/

/-- The path of a block meets path `x` at level `l`. -/
def Meets (P : PathOramConfig) (m : PositionMap) (x l : ℕ) (b : OramBlock D) : Prop :=
  m.index b.id >>> (P.treeLevel - l) = x >>> (P.treeLevel - l)

instance (P : PathOramConfig) (m : PositionMap) (x l : ℕ) (b : OramBlock D) :
    Decidable (Meets P m x l b) := inferInstanceAs (Decidable (_ = _))

/-- The stash when `k` buckets of path `x` have been selected. -/
def stashAt (P : PathOramConfig) (x : ℕ) (c : PathOramController D) : ℕ → List (OramBlock D)
  | 0 => c.stash
  | k + 1 => (findSubset P.bucketSize x c.positionMap [] (stashAt P x c k)).2.1

/-- The stash before the bucket at level `l` is selected, which is one of the first. -/
def stashBefore (P : PathOramConfig) (x : ℕ) (c : PathOramController D) (l : ℕ) :
    List (OramBlock D) := stashAt P x c (P.treeLevel - l)

/-- The blocks that go to the bucket at level `l`. -/
def bucketAt (P : PathOramConfig) (x : ℕ) (c : PathOramController D) (l : ℕ) :
    List (OramBlock D) :=
  (findSubset P.bucketSize x c.positionMap [] (stashBefore P x c l)).1

/-- What remains in the stash. -/
def leftover (P : PathOramConfig) (x : ℕ) (c : PathOramController D) : List (OramBlock D) :=
  stashAt P x c (P.treeLevel + 1)

section

variable (P : PathOramConfig) (x : ℕ) (c : PathOramController D)

/-- Blocks of other paths stay in the stash to the end. -/
theorem stashAt_filter_off (k : ℕ) :
    (stashAt P x c k).filter (fun b => c.positionMap.index b.id ≠ x) =
      c.stash.filter fun b => c.positionMap.index b.id ≠ x := by
  induction k with
  | zero => rfl
  | succ k ih => rw [stashAt, findSubset_filter_off, ih]

/-- Every round takes a bucketful of the blocks of path `x`. -/
theorem onPath_stashAt (k : ℕ) :
    onPath c.positionMap x (stashAt P x c k) =
      onPath c.positionMap x c.stash - k * P.bucketSize := by
  induction k with
  | zero => rw [Nat.zero_mul, Nat.sub_zero, stashAt]
  | succ k ih =>
    rw [stashAt, onPath_findSubset, ih, Nat.succ_mul]
    omega

/-- Nothing comes into the stash on the way. -/
theorem mem_stash_of_mem_stashAt {k : ℕ} {b : OramBlock D} (hb : b ∈ stashAt P x c k) :
    b ∈ c.stash := by
  induction k with
  | zero => exact hb
  | succ k ih =>
    have hsplit := (findSubset_spec (B := P.bucketSize) (x := x) (stashAt P x c k)
      c.positionMap []).1
    rw [Multiset.coe_nil, zero_add] at hsplit
    refine ih (Multiset.mem_coe.mp (hsplit ▸ ?_))
    exact Multiset.mem_add.mpr (.inr (Multiset.mem_coe.mpr hb))

/-- A bucket gets what the levels below it have left over. -/
theorem length_bucketAt (l : ℕ) :
    (bucketAt P x c l).length =
      min P.bucketSize (onPath c.positionMap x c.stash - (P.treeLevel - l) * P.bucketSize) := by
  rw [bucketAt, length_findSubset _ _ _ (Nat.zero_le _), List.length_nil, Nat.zero_add,
    stashBefore, onPath_stashAt]

/-- The stash blocks of path `x` itself fill all buckets from the leaf to level
`l`, or no other block of the stash meets `x` there. -/
def Exhausted (l : ℕ) : Prop :=
  (P.treeLevel - l + 1) * P.bucketSize ≤ onPath c.positionMap x c.stash ∨
    ∀ b ∈ c.stash, Meets P c.positionMap x l b → c.positionMap.index b.id = x

/-- The bucket at level `l` gets as many blocks as meet `x` there, up to its size. -/
def MaximalAt (l : ℕ) : Prop :=
  (bucketAt P x c l).length =
    min P.bucketSize ((stashBefore P x c l).countP fun b => Meets P c.positionMap x l b)

/-- No block that remains could be placed in a bucket that still holds padding. -/
def NothingFits : Prop :=
  ∀ l ≤ P.treeLevel, (bucketAt P x c l).length < P.bucketSize →
    ∀ b ∈ leftover P x c, ¬Meets P c.positionMap x l b

variable {P x c}

/-- A level is full exactly if there are blocks of path `x` for it. -/
theorem full_iff {l : ℕ} :
    P.bucketSize ≤ onPath c.positionMap x c.stash - (P.treeLevel - l) * P.bucketSize ↔
      (P.treeLevel - l + 1) * P.bucketSize ≤ onPath c.positionMap x c.stash := by
  rw [Nat.succ_mul]
  rcases Nat.eq_zero_or_pos P.bucketSize with hB | hB
  · simp [hB]
  · omega

theorem length_lt_iff {l : ℕ} :
    (bucketAt P x c l).length < P.bucketSize ↔
      ¬(P.treeLevel - l + 1) * P.bucketSize ≤ onPath c.positionMap x c.stash := by
  rw [length_bucketAt, ← full_iff]
  omega

/-- Among the blocks that meet `x` at a level are those of path `x`. -/
theorem countP_meets (l : ℕ) (stash : List (OramBlock D)) (m : PositionMap) :
    stash.countP (fun b => Meets P m x l b) = onPath m x stash +
      (stash.filter fun b => m.index b.id ≠ x).countP fun b => Meets P m x l b := by
  induction stash with
  | nil => rfl
  | cons b stash ih =>
    rw [onPath] at ih ⊢
    by_cases hpos : m.index b.id = x
    · have hmeets : Meets P m x l b := by rw [Meets, hpos]
      rw [List.countP_cons_of_pos (by simpa using hmeets), ih,
        List.countP_cons_of_pos (by simpa using hpos), List.filter_cons_of_neg (by simp [hpos])]
      omega
    · have hskip : (b :: stash).countP (fun b => decide (m.index b.id = x)) =
          stash.countP fun b => decide (m.index b.id = x) :=
        List.countP_cons_of_neg (by simpa using hpos)
      rw [List.filter_cons_of_pos (by simp [hpos]), hskip, List.countP_cons, List.countP_cons, ih,
        Nat.add_assoc]

/-- **One level.** -/
theorem maximalAt_iff (l : ℕ) : MaximalAt P x c l ↔ Exhausted P x c l := by
  have hoff : (c.stash.filter fun b => c.positionMap.index b.id ≠ x).countP
      (fun b => Meets P c.positionMap x l b) = 0 ↔
        ∀ b ∈ c.stash, Meets P c.positionMap x l b → c.positionMap.index b.id = x := by
    rw [List.countP_eq_zero]
    constructor
    · intro h b hb hmeets
      by_contra hpos
      exact h b (List.mem_filter.mpr ⟨hb, decide_eq_true hpos⟩) (decide_eq_true hmeets)
    · intro h b hb hmeets
      obtain ⟨hb, hpos⟩ := List.mem_filter.mp hb
      exact of_decide_eq_true hpos (h b hb (of_decide_eq_true hmeets))
  rw [MaximalAt, length_bucketAt, countP_meets, stashBefore, stashAt_filter_off, onPath_stashAt,
    Exhausted, ← hoff, ← full_iff]
  omega

/-- **The whole path.** -/
theorem nothingFits_iff : NothingFits P x c ↔ ∀ l ≤ P.treeLevel, Exhausted P x c l := by
  constructor
  · intro h l hl
    by_cases hfull : (P.treeLevel - l + 1) * P.bucketSize ≤ onPath c.positionMap x c.stash
    · exact .inl hfull
    · right
      intro b hb hmeets
      by_contra hpos
      -- the block is still there
      have hleft : b ∈ (leftover P x c).filter fun b => c.positionMap.index b.id ≠ x := by
        rw [leftover, stashAt_filter_off]
        exact List.mem_filter.mpr ⟨hb, decide_eq_true hpos⟩
      exact h l hl (length_lt_iff.mpr hfull) b (List.mem_filter.mp hleft).1 hmeets
  · intro h l hl hlt b hb hmeets
    have hfull := length_lt_iff.mp hlt
    have hpos := (h l hl).resolve_left hfull b (mem_stash_of_mem_stashAt P x c hb) hmeets
    -- but all blocks of path `x` have been placed
    have hnone : onPath c.positionMap x (leftover P x c) = 0 := by
      rw [leftover, onPath_stashAt]
      have hle : (P.treeLevel - l + 1) * P.bucketSize ≤ (P.treeLevel + 1) * P.bucketSize :=
        Nat.mul_le_mul_right _ (by omega)
      omega
    exact List.countP_eq_zero.mp hnone b hb (decide_eq_true hpos)

end

/-! ## The loop

The loop of the source is the recursion down the levels; `bucketAt` is what it sends. -/

/-- Steps 10-15 write these buckets and leave this stash. -/
theorem writeLevels_buckets {P : PathOramConfig} {x : ℕ} (hx : x < P.numberOfLeafs)
    (draws : AccessDraws C) (c : PathOramController D) :
    ∀ (i : ℕ) (w : PathSystem D (TreeOramServerStorage C)), i ≤ P.treeLevel + 1 →
      Intact P.treeLevel w.server →
      w.client.stash = stashAt P x c (P.treeLevel + 1 - i) →
      (∀ a, w.client.positionMap.index a = c.positionMap.index a) →
      ∃ w', writeLevels (OramService.stub C P.id) P x draws i w = (.ok (), w') ∧
        w'.client.stash = leftover P x c ∧
        (∀ t, (∀ l < i, t ≠ pathTag P.treeLevel x l) →
          w'.server.blocksAt t = w.server.blocksAt t) ∧
        ∀ l < i, w'.server.blocksAt (pathTag P.treeLevel x l) =
          padStash (draws.pad l) P.bucketSize (bucketAt P x c l) := by
  intro i
  induction i with
  | zero =>
    intro w _ _ hstash _
    exact ⟨w, rfl, hstash, fun _ _ => rfl, fun l hl => absurd hl (Nat.not_lt_zero l)⟩
  | succ i ih =>
    intro w hi hs hstash hindex
    obtain ⟨hsubset, hrest⟩ := findSubset_congr (B := P.bucketSize) (x := x) w.client.stash []
      hindex
    have hbucket : (findSubset P.bucketSize x w.client.positionMap [] w.client.stash).1 =
        bucketAt P x c i := by
      rw [hsubset, hstash, bucketAt, stashBefore,
        show P.treeLevel + 1 - (i + 1) = P.treeLevel - i by omega]
    have hstash' : (findSubset P.bucketSize x w.client.positionMap [] w.client.stash).2.1 =
        stashAt P x c (P.treeLevel + 1 - i) := by
      rw [hrest, hstash, show P.treeLevel + 1 - i = P.treeLevel + 1 - (i + 1) + 1 by omega,
        stashAt]
    have hindex' : ∀ a,
        (findSubset P.bucketSize x w.client.positionMap [] w.client.stash).2.2.index a =
          c.positionMap.index a :=
      fun a => ((findSubset_spec w.client.stash w.client.positionMap []).2.2 a).trans (hindex a)
    generalize hr : findSubset P.bucketSize x w.client.positionMap [] w.client.stash = r at *
    let w₁ : PathSystem D (TreeOramServerStorage C) :=
      { w with client := { w.client with stash := r.2.1, positionMap := r.2.2 } }
    have hfind : findSubsetOf (ε := Exit) P x (draws.pad i) w =
        (.ok (padStash (draws.pad i) P.bucketSize (bucketAt P x c i)), w₁) := by
      simp only [findSubsetOf, hr, hbucket, w₁]
    obtain ⟨n, server, hwrite, hs', hblocks⟩ :=
      writeBucket_spec (w := w₁) hs hx (Nat.lt_succ_iff.mp hi) (draws.iv i)
        (padStash (draws.pad i) P.bucketSize (bucketAt P x c i))
    obtain ⟨w', hloop, hleft, hoff, hplaced⟩ :=
      ih ⟨{ w₁.client with networkCommunication := n }, server⟩ (Nat.le_of_succ_le hi) hs' hstash'
        hindex'
    refine ⟨w', ?_, hleft, ?_, ?_⟩
    · rw [writeLevels, Prog.bind_ok hfind, Prog.bind_ok (Prog.mapError_ok hwrite)]
      exact hloop
    · intro t ht
      rw [hoff t fun l hl => ht l (Nat.lt_succ_of_lt hl)]
      exact (hblocks t).trans (if_neg (ht i (Nat.lt_succ_self i)))
    · intro l hl
      rcases Nat.lt_succ_iff_lt_or_eq.mp hl with hl | rfl
      · exact hplaced l hl
      · rw [hoff _ fun l' hl' => pathTag_ne (Nat.ne_of_gt hl')]
        exact (hblocks _).trans (if_pos rfl)

/-- **When the write-back is maximal.** Steps 10-15 on any stash and position
map: every bucket of path `x` gets as many blocks of the stash as fit it, and in
the end no block is left that a bucket with padding could hold, exactly if every
level is exhausted. -/
theorem writeBack_maximal_iff {P : PathOramConfig} {x : ℕ} (hx : x < P.numberOfLeafs)
    (draws : AccessDraws C) {w : PathSystem D (TreeOramServerStorage C)}
    (hs : Intact P.treeLevel w.server) :
    ∃ w', writeLevels (OramService.stub C P.id) P x draws (P.treeLevel + 1) w = (.ok (), w') ∧
      w'.client.stash = leftover P x w.client ∧
      (∀ l ≤ P.treeLevel, w'.server.blocksAt (pathTag P.treeLevel x l) =
        padStash (draws.pad l) P.bucketSize (bucketAt P x w.client l)) ∧
      (∀ l ≤ P.treeLevel, MaximalAt P x w.client l ↔ Exhausted P x w.client l) ∧
      ((∀ l ≤ P.treeLevel, MaximalAt P x w.client l) ∧ NothingFits P x w.client ↔
        ∀ l ≤ P.treeLevel, Exhausted P x w.client l) := by
  obtain ⟨w', hloop, hleft, -, hplaced⟩ := writeLevels_buckets hx draws w.client
    (P.treeLevel + 1) w le_rfl hs (by rw [Nat.sub_self, stashAt]) fun _ => rfl
  refine ⟨w', hloop, hleft, fun l hl => hplaced l (Nat.lt_succ_of_le hl),
    fun l _ => maximalAt_iff l, ?_⟩
  rw [nothingFits_iff]
  exact ⟨fun h => h.2, fun h => ⟨fun l hl => (maximalAt_iff l).mpr (h l hl), h⟩⟩

/-! ### A small instance -/

/-- Four leaves, buckets of one block. -/
def fourLeaves : PathOramConfig := ⟨0, true, 2, 1⟩

/-- A stash with four blocks of path 1, which is one more than the path can hold, and
two of paths that meet it above the leaf. -/
def crowdedStash : PathOramController ℕ where
  positionMap := (((((PositionMap.empty.set 9 0).set 8 3).set 3 1).set 5 1).set 7 1).set 6 1
  stash := [smallBlock 9 90, smallBlock 3 30, smallBlock 8 80, smallBlock 5 50, smallBlock 7 70,
    smallBlock 6 60]
  stashSize := 0
  networkCommunication := 0
  isInitialized := true

/-- The stash in front of an empty tree. -/
def crowdedSystem : PathSystem ℕ (TreeOramServerStorage (Codec.plain ℕ)) :=
  ⟨crowdedStash, TreeOramServerStorage.new (Codec.plain ℕ) fourLeaves.numberOfLeafs⟩

/-- Every bucket of path 1 takes a block of its own, and the others find no room. -/
theorem writeBack_maximal_iff_small :
    ∃ w', writeLevels (OramService.stub _ 0) fourLeaves 1 smallDraws 3 crowdedSystem =
        (.ok (), w') ∧
      w'.client.stash = [smallBlock 9 90, smallBlock 8 80, smallBlock 6 60] ∧
      (∀ l ≤ 2, MaximalAt fourLeaves 1 crowdedStash l) ∧ NothingFits fourLeaves 1 crowdedStash := by
  have hs : Intact fourLeaves.treeLevel crowdedSystem.server := intact_new fourLeaves.treeLevel
  obtain ⟨w', hrun, hstash, -, -, hiff⟩ :=
    writeBack_maximal_iff (P := fourLeaves) (x := 1) (by decide) smallDraws hs
  have hexhausted : ∀ l ≤ 2, Exhausted fourLeaves 1 crowdedStash l := by
    intro l hl
    have hfour : onPath crowdedStash.positionMap 1 crowdedStash.stash = 4 := by decide
    refine .inl ?_
    rw [hfour]
    show (2 - l + 1) * 1 ≤ 4
    omega
  obtain ⟨hmaximal, hnothing⟩ := hiff.mpr hexhausted
  exact ⟨w', hrun, hstash.trans (by decide), hmaximal, hnothing⟩

/-- Two leaves, buckets of two blocks. -/
def twoLeaves : PathOramConfig := ⟨0, true, 1, 2⟩

/-- A stash with one block, which is on its way to leaf 1. -/
def oneAway : PathOramController ℕ where
  positionMap := PositionMap.empty.set 3 1
  stash := [smallBlock 3 30]
  stashSize := 0
  networkCommunication := 0
  isInitialized := true

/-- The other path leaves it in the stash, with room in the root. -/
theorem root_stays_empty : ¬(MaximalAt twoLeaves 0 oneAway 0 ∧ NothingFits twoLeaves 0 oneAway) :=
  fun h => absurd h.1 (by rw [MaximalAt]; decide)

end ObliviousRam
