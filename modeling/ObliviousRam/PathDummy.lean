import ObliviousRam.PathMemory

set_option autoImplicit false

/-!
# Dummy accesses of a Path ORAM

`InternalAccess(.., dummy = true)` reads a random path and throws the answer
away. The server empties every bucket it returns, so what was on that path is
gone. The file says exactly when a dummy access is harmless: when it does not
get as far as reading, or when no real block lies on the path.

That it is harmless *then* needs two runs side by side. The dummy access has
still replaced garbage by nothing in the buckets of the path, and has counted
some traffic; `Alike` is the relation between the two systems, and no later call
tells them apart.
-/

namespace ObliviousRam

open TreeOramServerStorage PathSystem PathOramController

variable {D : Type} {C : Codec D} {P : PathOramConfig}

/-! ## Reachable states -/

/-- Anything a client may do with the controller. -/
inductive PathAction (C : Codec D) where
  | fill (data : List (OramBlock D)) (draws : FillDraws C)
  | call (c : PathCall C)
  | dummy (op : Operation) (address : ℕ) (buffer : OramBlock D) (draws : AccessDraws C)

/-- The action, its result forgotten. -/
def PathAction.run (P : PathOramConfig) :
    PathAction C → Prog Exit (PathSystem D (TreeOramServerStorage C)) Unit
  | fill data draws => fillWithData (OramService.stub C P.id) P data draws
  | call c => c.run P >>= fun _ => pure ()
  | dummy op a buffer draws =>
    internalAccess (OramService.stub C P.id) P op a buffer draws true >>= fun _ => pure ()

/-- The states a controller and its server reach from the start. -/
def PathSystem.Reachable (P : PathOramConfig) (w : PathSystem D (TreeOramServerStorage C)) : Prop :=
  ∃ actions outcomes,
    Prog.trace Exit.fatal (PathAction.run P) actions (PathSystem.init C P) = some (outcomes, w)

/-- The tree on the server is whole. -/
def PathSystem.Whole (P : PathOramConfig) (w : PathSystem D (TreeOramServerStorage C)) : Prop :=
  Intact P.treeLevel w.server

namespace PathOramController

/-! ### What every function keeps

One rule per function again, for any property of the server that its two requests keep.
The states that are reachable are whole trees by these rules alone. -/

/-- A property that no step of the controller breaks: no remote call, and no change of what the
client holds besides the flag. -/
structure KeptBySteps {σ : Type} (S : TreeStub C σ) (P : PathOramConfig)
    (I : PathSystem D σ → Prop) : Prop where
  readBucket : ∀ x l, Prog.Keeps I (readBucket S P x l)
  writeBucket : ∀ x l iv bucket, Prog.Keeps I (writeBucket S x l iv bucket)
  accurateWriteBucket : ∀ l o iv bucket, Prog.Keeps I (accurateWriteBucket S l o iv bucket)
  client : ∀ w c, c.isInitialized = w.client.isInitialized → I w → I { w with client := c }

namespace KeptBySteps

variable {σ : Type} {S : TreeStub C σ} {I : PathSystem D σ → Prop} (h : KeptBySteps S P I)

include h

theorem update {f : PathOramController D → PathOramController D}
    (hf : ∀ c, (f c).isInitialized = c.isInitialized) :
    Prog.Keeps I (update (ε := Exit) f) := fun w hw => h.client w _ (hf w.client) hw

/-- The load draws positions and keeps no bucket back. -/
theorem fillBucket (start stop : ℕ) (draw : ℕ → ℕ) (k : ℕ) (data : List (OramBlock D)) :
    Prog.Keeps I (fillBucket start stop draw k data) := by
  induction k generalizing data with
  | zero => exact .pure _
  | succ k ih =>
    cases data with
    | nil => exact .pure _
    | cons b data =>
      rw [PathOramController.fillBucket]
      split
      · refine .bind (fun w hw => ?_) fun path => .bind (h.update fun _ => rfl) fun _ =>
          .bind (ih data) fun r => .pure _
        rw [checkedRandom]
        split <;> exact hw
      · exact ih data

theorem fillTree (draws : FillDraws C) (ts : List Tag) (data : List (OramBlock D)) :
    Prog.Keeps I (fillTree S P draws ts data) := by
  induction ts generalizing data with
  | nil => exact .pure _
  | cons t ts ih =>
    rw [fillTree_cons]
    exact .bind (h.fillBucket _ _ _ _ _) fun r =>
      .bind (.mapError (h.accurateWriteBucket _ _ _ _)) fun _ => ih r.2

theorem readLevels (x : ℕ) (ls : List ℕ) : Prog.Keeps I (readLevels S P x ls) := by
  induction ls with
  | nil => exact .pure _
  | cons l ls ih =>
    exact .bind (.mapError (h.readBucket x l)) fun bucket => .bind ih fun rest => .pure _

/-- The write-back, by induction on the levels below. -/
theorem writeLevels (x : ℕ) (draws : AccessDraws C) (i : ℕ) :
    Prog.Keeps I (writeLevels S P x draws i) := by
  induction i with
  | zero => exact .pure _
  | succ i ih =>
    exact .bind (fun w hw => h.client w _ rfl hw) fun subset =>
      .bind (.mapError (h.writeBucket x i _ subset)) fun _ => ih

theorem updateBlock (op : Operation) (address : ℕ) (buffer block : OramBlock D) :
    Prog.Keeps I (updateBlock P op address buffer block) := by
  refine .bind (h.update fun _ => rfl) fun _ => ?_
  split
  · exact .bind (h.update fun _ => rfl) fun _ => .pure _
  · split
    · exact .bind (h.update fun _ => rfl) fun _ => .pure _
    · exact .pure _

/-- An access, dummy or not, found or not. -/
theorem internalAccessDirect (op : Operation) (address x : ℕ) (buffer : OramBlock D)
    (draws : AccessDraws C) (dummy : Bool) :
    Prog.Keeps I (internalAccessDirect S P op address x buffer draws dummy) := by
  refine .bind (h.readLevels x _) fun path => ?_
  split
  · exact .pure _
  · refine .bind (h.update fun _ => rfl) fun _ => .bind .get fun w => ?_
    split
    · exact .throw _
    · exact .bind (h.updateBlock _ _ _ _) fun out =>
        .bind (h.writeLevels x draws _) fun _ => .pure _

/-- An access that remaps first, dummy or not, found or not. -/
theorem internalAccess (op : Operation) (address : ℕ) (buffer : OramBlock D)
    (draws : AccessDraws C) (dummy : Bool) :
    Prog.Keeps I (internalAccess S P op address buffer draws dummy) := by
  refine .bind .get fun w => ?_
  split
  · exact .throw _
  · split
    · exact .throw _
    · refine .bind (fun w hw => ?_) fun x => ?_
      · rw [randomPosition_spec]
        exact hw
      · split
        · exact h.internalAccessDirect _ _ _ _ _ _
        · exact .bind (h.update fun _ => rfl) fun _ => h.internalAccessDirect _ _ _ _ _ _

end KeptBySteps

/-- Every function leaves the tree whole. -/
theorem keptBySteps_whole : KeptBySteps (OramService.stub C P.id) P (Whole (C := C) P) where
  readBucket := by
    intro x l w hw
    rw [readBucket]
    split
    · exact hw
    · have hkeep := keeps_readPath (C := C) P.id x l P.treeLevel w.server hw
      rcases hread : (OramService.stub C P.id).readPath x l w.server with ⟨_ | _, server⟩ <;>
        rw [hread] at hkeep <;> exact hkeep
  writeBucket := by
    intro x l iv bucket w hw
    have hkeep := keeps_writePath P.id P.treeLevel ⟨x, l, 0, .kNormal, sealBucket iv bucket⟩
      w.server hw
    rw [writeBucket]
    rcases hwrite : (OramService.stub C P.id).writePath
        ⟨x, l, 0, .kNormal, sealBucket iv bucket⟩ w.server with ⟨_ | _, server⟩ <;>
      rw [hwrite] at hkeep <;> exact hkeep
  accurateWriteBucket := by
    intro l o iv bucket w hw
    have hkeep := keeps_writePath P.id P.treeLevel ⟨0, l, o, .kInit, sealBucket iv bucket⟩
      w.server hw
    rw [accurateWriteBucket]
    rcases hwrite : (OramService.stub C P.id).writePath
        ⟨0, l, o, .kInit, sealBucket iv bucket⟩ w.server with ⟨_ | _, server⟩ <;>
      rw [hwrite] at hkeep <;> exact hkeep
  client := fun _ _ _ hw => hw

/-- The tree is whole after every call, whatever its outcome. -/
theorem keeps_action (action : PathAction C) : Prog.Keeps (Whole P) (action.run P) := by
  cases action with
  | fill data draws => exact .bind (keptBySteps_whole.fillTree _ _ _) fun _ _ hw => hw
  | call c =>
    refine .bind ?_ fun _ => .pure _
    cases c with
    | access op a buffer draws => exact keptBySteps_whole.internalAccess _ _ _ _ _
    | direct op a x buffer draws =>
      refine .bind .get fun w => ?_
      split
      · exact .throw _
      · exact keptBySteps_whole.internalAccessDirect _ _ _ _ _ _
  | dummy op a buffer draws =>
    exact .bind (keptBySteps_whole.internalAccess _ _ _ _ _) fun _ => .pure _

end PathOramController

/-- In every reachable state the tree is whole. -/
theorem PathSystem.Reachable.whole {w : PathSystem D (TreeOramServerStorage C)}
    (hw : w.Reachable P) : w.Whole P := by
  obtain ⟨actions, outcomes, hrun⟩ := hw
  refine Prog.trace_history Exit.fatal (fun _ _ => True) (fun _ w => w.Whole P)
    (fun _ action w r w' _ hw hstep => ?_) [] (intact_new _)
    (Prog.Along.of_forall (fun _ _ _ => trivial) _) hrun
  have hkeep := keeps_action action w hw
  rw [(Prog.eq_of_survive hstep).1] at hkeep
  exact hkeep

/-! ## Systems a client cannot tell apart

`Alike` forgets what no call looks at: the padding in the buckets, and the count of the
traffic. A relation this coarse is still kept by every call, as padding never matches an
address and the count decides nothing. -/

/-- Two systems that differ in the garbage on the server and in the traffic counted. -/
structure PathSystem.Alike (P : PathOramConfig)
    (w w' : PathSystem D (TreeOramServerStorage C)) : Prop where
  whole_left : w.Whole P
  whole_right : w'.Whole P
  client_eq : ∃ n, w'.client = { w.client with networkCommunication := n }
  normal_eq : ∀ t, w'.server.normalAt t = w.server.normalAt t

namespace PathOramController

theorem relates_update {f f' : PathOramController D → PathOramController D}
    (h : ∀ c n, f' { c with networkCommunication := n } =
      { f c with networkCommunication := n }) :
    Prog.Relates (Alike (C := C) P) Eq (update (ε := Exit) f) (update f') := by
  intro w w' hw
  obtain ⟨n, hc⟩ := hw.client_eq
  exact ⟨rfl, hw.whole_left, hw.whole_right, ⟨n, (congrArg f' hc).trans (h w.client n)⟩,
    hw.normal_eq⟩

/-- The paths read differ in garbage only. -/
theorem relates_readLevels (x : ℕ) :
    Prog.Relates (Alike (C := C) P)
      (fun path path' =>
        path.flatten.filter OramBlock.isNormal = path'.flatten.filter OramBlock.isNormal)
      (readLevels (OramService.stub C P.id) P x (List.range (P.treeLevel + 1)))
      (readLevels (OramService.stub C P.id) P x (List.range (P.treeLevel + 1))) := by
  intro w w' hw
  by_cases hx : x < P.numberOfLeafs
  · have hle : ∀ l ∈ List.range (P.treeLevel + 1), l ≤ P.treeLevel :=
      fun l hl => Nat.lt_succ_iff.mp (List.mem_range.mp hl)
    obtain ⟨n₁, s₁, hread₁, hs₁, hblocks₁, -⟩ :=
      readLevels_spec hx _ w hw.whole_left List.nodup_range hle
    obtain ⟨n₂, s₂, hread₂, hs₂, hblocks₂, -⟩ :=
      readLevels_spec hx _ w' hw.whole_right List.nodup_range hle
    obtain ⟨n, hc⟩ := hw.client_eq
    rw [hread₁, hread₂]
    refine ⟨?_, hs₁, hs₂, ⟨n₂, by simp only [hc]⟩, fun t => ?_⟩
    · rw [Prog.Agree, filter_flatten_blocksAt, filter_flatten_blocksAt]
      exact List.flatMap_congr fun l _ => (hw.normal_eq _).symm
    · simp only [normalAt, hblocks₁, hblocks₂]
      split
      · rfl
      · exact hw.normal_eq t
  · rw [readLevels_out_of_range hx, readLevels_out_of_range hx]
    exact ⟨rfl, hw⟩

theorem relates_findSubsetOf (x : ℕ) (random : ℕ → OramBlock D) :
    Prog.Relates (Alike (C := C) P) Eq (findSubsetOf (ε := Exit) P x random)
      (findSubsetOf P x random) := by
  intro w w' hw
  obtain ⟨n, hc⟩ := hw.client_eq
  simp only [findSubsetOf, hc]
  exact ⟨rfl, hw.whole_left, hw.whole_right, ⟨n, rfl⟩, hw.normal_eq⟩

/-- What is written to a path is the same, garbage included. -/
theorem relates_writeLevels {x : ℕ} (hx : x < P.numberOfLeafs) (draws : AccessDraws C) :
    ∀ i ≤ P.treeLevel + 1, Prog.Relates (Alike P) Eq
      (writeLevels (OramService.stub C P.id) P x draws i)
      (writeLevels (OramService.stub C P.id) P x draws i) := by
  intro i
  induction i with
  | zero => exact fun _ => .pure rfl
  | succ i ih =>
    intro hi
    refine .bind_eq (relates_findSubsetOf x _) fun subset => ?_
    refine .bind_eq (.mapError _ ?_) fun _ => ih (Nat.le_of_succ_le hi)
    intro w w' hw
    have hle : i ≤ P.treeLevel := Nat.lt_succ_iff.mp hi
    obtain ⟨n₁, s₁, hwrite₁, hs₁, hblocks₁⟩ :=
      writeBucket_spec hw.whole_left hx hle (draws.iv i) subset
    obtain ⟨n₂, s₂, hwrite₂, hs₂, hblocks₂⟩ :=
      writeBucket_spec hw.whole_right hx hle (draws.iv i) subset
    obtain ⟨n, hc⟩ := hw.client_eq
    rw [hwrite₁, hwrite₂]
    refine ⟨rfl, hs₁, hs₂, ⟨n₂, by simp only [hc]⟩, fun t => ?_⟩
    simp only [normalAt, hblocks₁, hblocks₂]
    split
    · rfl
    · exact hw.normal_eq t

theorem relates_updateBlock (op : Operation) (address : ℕ) (buffer block : OramBlock D) :
    Prog.Relates (Alike (C := C) P) Eq (updateBlock P op address buffer block)
      (updateBlock P op address buffer block) := by
  refine .bind_eq (relates_update fun _ _ => rfl) fun _ => ?_
  split
  · exact .bind_eq (relates_update fun _ _ => rfl) fun _ => .pure rfl
  · split
    · exact .bind_eq (relates_update fun _ _ => rfl) fun _ => .pure rfl
    · exact .pure rfl

/-- The two systems read the same real blocks from the path, so they go the same way
from there; the write-back fills the buckets of the path in both. -/
theorem relates_internalAccessDirect (op : Operation) (address x : ℕ) (buffer : OramBlock D)
    (draws : AccessDraws C) :
    Prog.Relates (Alike P) Eq
      (internalAccessDirect (OramService.stub C P.id) P op address x buffer draws false)
      (internalAccessDirect (OramService.stub C P.id) P op address x buffer draws false) := by
  by_cases hx : x < P.numberOfLeafs
  · refine .bind (relates_readLevels x) fun path path' hpath => ?_
    rw [if_neg Bool.false_ne_true, if_neg Bool.false_ne_true]
    refine .bind_eq (relates_update fun c n => ?_) fun _ => .bind .get fun w w' hw => ?_
    · simp only [mergePath_eq_foldl_normal, hpath]
    · obtain ⟨n, hc⟩ := hw.client_eq
      rw [hc]
      simp only
      split
      · exact .throw _
      · exact .bind_eq (relates_updateBlock op address buffer _) fun out =>
          .bind_eq (relates_writeLevels hx draws _ le_rfl) fun _ => .pure rfl
  · intro w w' hw
    rw [internalAccessDirect_out_of_range _ _ _ _ _ _ hx,
      internalAccessDirect_out_of_range _ _ _ _ _ _ hx]
    exact ⟨rfl, hw⟩

/-- No `Access` tells alike systems apart. -/
theorem relates_access (op : Operation) (address : ℕ) (buffer : OramBlock D)
    (draws : AccessDraws C) :
    Prog.Relates (Alike P) Eq (access (OramService.stub C P.id) P op address buffer draws)
      (access (OramService.stub C P.id) P op address buffer draws) := by
  refine .bind .get fun w w' hw => ?_
  obtain ⟨n, hc⟩ := hw.client_eq
  rw [hc]
  split
  · exact .throw _
  · refine .bind .get fun v v' hv => ?_
    obtain ⟨n', hc'⟩ := hv.client_eq
    rw [hc']
    split
    · exact .throw _
    · split
      · exact .throw _
      · refine .bind_eq (fun u u' hu => ?_) fun x => ?_
        · rw [randomPosition_spec, randomPosition_spec]
          exact ⟨rfl, hu⟩
        · exact .bind_eq (relates_update fun _ _ => rfl) fun _ =>
            relates_internalAccessDirect _ _ _ _ _

end PathOramController

/-! ## When a dummy access is harmless

If a real block lies on the path, it is gone after the dummy access. If none does, the
systems with and without the access are `Alike`. So the condition is exact. -/

/-- A dummy access leaves the bag of real blocks as it is, and no sequence of
later accesses has another outcome than it would have had without. -/
def DummyHarmless (P : PathOramConfig) (op : Operation) (address : ℕ) (buffer : OramBlock D)
    (draws : AccessDraws C) (w : PathSystem D (TreeOramServerStorage C)) : Prop :=
  let w' := (internalAccess (OramService.stub C P.id) P op address buffer draws true w).2
  w'.contents P = w.contents P ∧
    ∀ later : List (PathRequest C),
      (Prog.trace Exit.fatal (PathRequest.run P) later w').map Prod.fst =
        (Prog.trace Exit.fatal (PathRequest.run P) later w).map Prod.fst

/-- An initialised dummy access to a whole tree empties the sampled path, and
returns. -/
theorem internalAccess_dummy {op : Operation} (address : ℕ) (buffer : OramBlock D)
    (draws : AccessDraws C) {w : PathSystem D (TreeOramServerStorage C)} (hw : w.Whole P)
    (hinit : w.client.isInitialized = true) (hop : op ≠ .kInvalid) :
    ∃ n server, internalAccess (OramService.stub C P.id) P op address buffer draws true w =
        (.ok buffer, ⟨{ w.client with networkCommunication := n }, server⟩) ∧
      Intact P.treeLevel server ∧
      (∀ t, server.blocksAt t =
        if t ∈ pathTags P.treeLevel (draws.position % P.numberOfLeafs) then []
        else w.server.blocksAt t) ∧
      treeBlocks P.treeLevel server +
          (pathBlocks P.treeLevel (draws.position % P.numberOfLeafs) w.server :
            Multiset (OramBlock D)) =
        treeBlocks P.treeLevel w.server := by
  have hx : draws.position % P.numberOfLeafs < P.numberOfLeafs := Nat.mod_lt _ (Nat.two_pow_pos _)
  obtain ⟨n, server, hread, hs, hblocks, hsum⟩ := readLevels_spec hx
    (List.range (P.treeLevel + 1)) w hw List.nodup_range
    fun l hl => Nat.lt_succ_iff.mp (List.mem_range.mp hl)
  refine ⟨n, server, ?_, hs, hblocks, hsum⟩
  rw [internalAccess, Prog.get_bind, hinit, if_neg Bool.false_ne_true.symm, if_neg hop,
    Prog.bind_ok (randomPosition_spec _ _), if_pos rfl, internalAccessDirect, Prog.bind_ok hread,
    if_pos rfl]
  rfl

/-- Between calls, a dummy access keeps the invariant; the blocks of the path are
missing from the bag afterwards. -/
theorem internalAccess_dummy_inv {op : Operation} (address : ℕ) (buffer : OramBlock D)
    (draws : AccessDraws C) {w : PathSystem D (TreeOramServerStorage C)} (hw : w.Inv P)
    (hinit : w.client.isInitialized = true) (hop : op ≠ .kInvalid) :
    ∃ w', internalAccess (OramService.stub C P.id) P op address buffer draws true w =
        (.ok buffer, w') ∧
      w'.Inv P ∧ w'.client.isInitialized = true ∧
      w'.contents P + (pathBlocks P.treeLevel (draws.position % P.numberOfLeafs) w.server :
        Multiset (OramBlock D)) = w.contents P := by
  obtain ⟨n, server, hrun, hs, hblocks, hsum⟩ :=
    internalAccess_dummy address buffer draws hw.intact hinit hop
  have hcont : PathSystem.contents P ⟨{ w.client with networkCommunication := n }, server⟩ +
      (pathBlocks P.treeLevel (draws.position % P.numberOfLeafs) w.server :
        Multiset (OramBlock D)) = w.contents P := by
    rw [contents, contents, ← hsum, add_assoc]
  refine ⟨_, hrun, ⟨hs, hw.stash_normal, ?_, hw.position_lt, ?_⟩, hinit, hcont⟩
  · exact hw.unique.of_le (hcont ▸ Multiset.le_add_right _ _)
  · intro t ht hfree b hb
    rw [normalAt, hblocks] at hb
    split at hb
    · exact absurd hb List.not_mem_nil
    · exact hw.on_path t ht hfree b hb

/-- A dummy access that does not reach the tree. -/
theorem internalAccess_dummy_stopped {op : Operation} {address : ℕ} {buffer : OramBlock D}
    {draws : AccessDraws C} {w : PathSystem D (TreeOramServerStorage C)}
    (h : w.client.isInitialized = true → op = .kInvalid) :
    (internalAccess (OramService.stub C P.id) P op address buffer draws true w).2 = w := by
  rw [internalAccess, Prog.get_bind]
  rcases hinit : w.client.isInitialized with _ | _
  · rw [if_pos rfl, fail_apply]
  · rw [if_neg Bool.false_ne_true.symm, if_pos (h hinit), Prog.throw_apply]

/-- **A dummy access is harmless exactly when** it does not reach the tree, or
no real block lies on the path it samples. -/
theorem dummyHarmless_iff {w : PathSystem D (TreeOramServerStorage C)} (hw : w.Reachable P)
    (op : Operation) (address : ℕ) (buffer : OramBlock D) (draws : AccessDraws C) :
    DummyHarmless P op address buffer draws w ↔
      (w.client.isInitialized = true → op ≠ .kInvalid →
        pathBlocks P.treeLevel (draws.position % P.numberOfLeafs) w.server = []) := by
  by_cases hreach : w.client.isInitialized = true ∧ op ≠ .kInvalid
  · obtain ⟨hinit, hop⟩ := hreach
    obtain ⟨n, server, hrun, hs, hblocks, hsum⟩ := internalAccess_dummy address buffer draws
      hw.whole hinit hop
    rw [DummyHarmless, hrun]
    constructor
    · -- an unchanged bag means that nothing was on the path
      rintro ⟨hcont, -⟩ - -
      rw [contents, contents, ← hsum] at hcont
      have hzero := add_left_cancel hcont
      rw [← Multiset.coe_eq_zero]
      exact (left_eq_add (a := treeBlocks P.treeLevel server)).mp hzero
    · intro hempty
      rw [hempty hinit hop, Multiset.coe_nil, add_zero] at hsum
      refine ⟨by rw [contents, contents, hsum], fun later => ?_⟩
      have halike : Alike P w ⟨{ w.client with networkCommunication := n }, server⟩ := by
        refine ⟨hw.whole, hs, ⟨n, rfl⟩, fun t => ?_⟩
        rw [normalAt, hblocks]
        split
        next ht =>
          refine (List.eq_nil_iff_forall_not_mem.mpr fun b hb => ?_).symm
          have hmem := mem_pathBlocks.mpr ⟨t, ht, hb⟩
          rw [hempty hinit hop] at hmem
          exact List.not_mem_nil hmem
        next => rfl
      exact (Prog.trace_relates (fun r => relates_access r.op r.address r.buffer r.draws) later
        halike).symm
  · have hstop : w.client.isInitialized = true → op = .kInvalid :=
      fun hinit => by_contra fun hop => hreach ⟨hinit, hop⟩
    rw [DummyHarmless, internalAccess_dummy_stopped hstop]
    exact ⟨fun _ hinit hop => absurd ⟨hinit, hop⟩ hreach, fun _ => ⟨rfl, fun _ => rfl⟩⟩

/-- The small tree after its load. Both blocks are in the left leaf. -/
def smallSystem : PathSystem ℕ (TreeOramServerStorage (Codec.plain ℕ)) :=
  (fillWithData (OramService.stub _ 0) smallTree [smallBlock 3 30, smallBlock 5 50] smallFill
    (PathSystem.init _ smallTree)).2

/-- The small system is what a load leaves behind. -/
theorem smallSystem_reachable : smallSystem.Reachable smallTree := by
  have hids : UniqueKeys OramBlock.id (loadedBlocks [smallBlock 3 30, smallBlock 5 50]) := by
    decide
  obtain ⟨w, hfill, -⟩ := fillWithData_spec (P := smallTree) smallFill_pad (by decide) hids
  have hw : w = smallSystem := (congrArg Prod.snd hfill).symm
  refine ⟨[.fill [smallBlock 3 30, smallBlock 5 50] smallFill], [.ok ()], ?_⟩
  rw [Prog.trace_cons_ok (hw ▸ hfill)]
  rfl

/-- A dummy access that samples the left leaf: a read of `3` has returned its
block before, and finds nothing after. -/
theorem dummy_access_destroys_block :
    smallSystem.Reachable smallTree ∧
      outcomeCode (PathRequest.run smallTree ⟨.kRead, 3, dummyBlock, smallDraws⟩
        smallSystem).1 = some .kOK ∧
      outcomeCode (PathRequest.run smallTree ⟨.kRead, 3, dummyBlock, smallDraws⟩
        (internalAccess (OramService.stub _ 0) smallTree .kRead 3 dummyBlock
          { smallDraws with position := 0 } true smallSystem).2).1 = some .kObjectNotFound ∧
      ¬DummyHarmless smallTree .kRead 3 dummyBlock { smallDraws with position := 0 }
        smallSystem := by
  refine ⟨smallSystem_reachable, by decide, by decide, fun ⟨_, h⟩ => ?_⟩
  have hcodes := congrArg (Option.map (List.map outcomeCode))
    (h [⟨.kRead, 3, dummyBlock, smallDraws⟩])
  exact absurd hcodes (by decide)

/-- The same access sampling the right leaf. -/
theorem dummyHarmless_iff_small :
    DummyHarmless smallTree .kRead 3 dummyBlock smallDraws smallSystem ↔
      pathBlocks 1 1 smallSystem.server = [] := by
  have h := dummyHarmless_iff smallSystem_reachable .kRead 3 dummyBlock smallDraws
  constructor
  · intro hharmless
    exact h.mp hharmless (by decide) (by decide)
  · intro hempty
    exact h.mpr fun _ _ => hempty

end ObliviousRam
