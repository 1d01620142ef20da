import ObliviousRam.PathDummy

set_option autoImplicit false

/-!
# Padding that passes for data

`PadStash` draws whole blocks at random, header included, and nothing marks them as
padding: `BlockEqual` looks at the type that was drawn. The file says when that is
harmless.

* `PathAction.paddings` — the blocks that the calls of `PadStash` add in the course of a
  load or an access, which depends on how full the buckets are.
* `PathAction.repad` — the same load or access with other bytes for the padding.
* `pathOram_padding_inert_iff` — in every reachable state: none of the padding matches an
  address when it is read back, and other padding would have made no difference to any
  later call, exactly if none was drawn with the type of a real block.
-/

namespace ObliviousRam

open TreeOramServerStorage PathSystem PathOramController

variable {D : Type} {C : Codec D} {P : PathOramConfig}

/-! ## What is added

How many blocks a call of `PadStash` adds depends on how full the bucket is, so the
padding of a call is computed from the state, level by level. -/

/-- The blocks that `PadStash` adds. -/
def padding (random : ℕ → OramBlock D) (bucketSize : ℕ) (stash : List (OramBlock D)) :
    List (OramBlock D) :=
  (List.range' stash.length (bucketSize - stash.length)).map random

/-- Bytes `f p` in place of `p` show the same real block, or none. -/
def SameReal (f : OramBlock D → OramBlock D) (p : OramBlock D) : Prop :=
  [f p].filter OramBlock.isNormal = [p].filter OramBlock.isNormal

theorem filter_isNormal_padStash_repad {f : OramBlock D → OramBlock D} {random : ℕ → OramBlock D}
    {bucketSize : ℕ} {stash : List (OramBlock D)}
    (hf : ∀ p ∈ padding random bucketSize stash, SameReal f p) :
    (padStash (fun i => f (random i)) bucketSize stash).filter OramBlock.isNormal =
      (padStash random bucketSize stash).filter OramBlock.isNormal := by
  have hmap : ∀ l : List (OramBlock D), (∀ p ∈ l, SameReal f p) →
      (l.map f).filter OramBlock.isNormal = l.filter OramBlock.isNormal := by
    intro l
    induction l with
    | nil => exact fun _ => rfl
    | cons p l ih =>
      intro hl
      rw [List.map_cons, ← List.singleton_append, ← List.singleton_append (l := l),
        List.filter_append, List.filter_append, ih fun q hq => hl q (List.mem_cons_of_mem _ hq),
        hl p List.mem_cons_self]
  have hreal := hmap _ hf
  rw [padding, List.map_map] at hreal
  rw [padStash, padStash, List.filter_append, List.filter_append]
  exact congrArg _ hreal

namespace PathOramController

/-- The paddings of the levels below `i` when path `x` is written back. -/
def levelPaddings (P : PathOramConfig) (x : ℕ) (pad : ℕ → ℕ → OramBlock D) :
    ℕ → PositionMap → List (OramBlock D) → List (OramBlock D)
  | 0, _, _ => []
  | i + 1, m, stash =>
    let r := findSubset P.bucketSize x m [] stash
    padding (pad i) P.bucketSize r.1 ++ levelPaddings P x pad i r.2.2 r.2.1

/-- The paddings of `InternalAccessDirect`. -/
def directPaddings (P : PathOramConfig) (op : Operation) (address x : ℕ) (buffer : OramBlock D)
    (draws : AccessDraws C) (w : PathSystem D (TreeOramServerStorage C)) : List (OramBlock D) :=
  match readLevels (OramService.stub C P.id) P x (List.range (P.treeLevel + 1)) w with
  | (.error _, _) => []
  | (.ok path, v) =>
    let stash := mergePath v.client.stash path
    match stash.find? (blockEqual address) with
    | none => []
    | some block =>
      let u := (updateBlock P op address buffer block
        { v with client := { v.client with stash := stash } }).2
      levelPaddings P x draws.pad (P.treeLevel + 1) u.client.positionMap u.client.stash

/-- The paddings of the buckets of a load that are still to be filled. -/
def fillPaddings (P : PathOramConfig) (draws : FillDraws C) :
    List Tag → List (OramBlock D) → List (OramBlock D)
  | [], _ => []
  | t :: ts, data =>
    padding (draws.pad t) P.bucketSize ((data.take P.bucketSize).filter OramBlock.isNormal) ++
      fillPaddings P draws ts (data.drop P.bucketSize)

end PathOramController

/-- The paddings of an access in state `w`. -/
def PathCall.paddings (P : PathOramConfig) (w : PathSystem D (TreeOramServerStorage C)) :
    PathCall C → List (OramBlock D)
  | .access op a buffer draws =>
    if w.client.isInitialized = false ∨ op = .kInvalid then []
    else directPaddings P op a (w.client.positionMap.index a) buffer draws
      (remap a (draws.position % P.numberOfLeafs) w)
  | .direct op a x buffer draws =>
    if w.client.isInitialized = false then [] else directPaddings P op a x buffer draws w

namespace PathAction

/-- The paddings of an action in state `w`. A dummy access writes nothing. -/
def paddings (P : PathOramConfig) (w : PathSystem D (TreeOramServerStorage C)) :
    PathAction C → List (OramBlock D)
  | fill data draws => fillPaddings P draws (fillOrder P.treeLevel) data
  | call c => c.paddings P w
  | dummy .. => []

end PathAction

namespace PathOramController

variable {w : PathSystem D (TreeOramServerStorage C)}

/-! ## Where it is stored -/

/-- Writing a path back stores the paddings on it. -/
theorem writeLevels_stored {x : ℕ} (hx : x < P.numberOfLeafs) (draws : AccessDraws C) :
    ∀ i ≤ P.treeLevel + 1, ∀ {w : PathSystem D (TreeOramServerStorage C)}, w.Whole P →
      ∃ v, writeLevels (OramService.stub C P.id) P x draws i w = (.ok (), v) ∧
        (∀ t, (∀ l < i, t ≠ pathTag P.treeLevel x l) →
          v.server.blocksAt t = w.server.blocksAt t) ∧
        ∀ p ∈ levelPaddings P x draws.pad i w.client.positionMap w.client.stash,
          ∃ l < i, p ∈ v.server.blocksAt (pathTag P.treeLevel x l) := by
  intro i
  induction i with
  | zero => exact fun _ w _ => ⟨w, rfl, fun _ _ => rfl, fun p hp => absurd hp List.not_mem_nil⟩
  | succ i ih =>
    intro hi w hw
    rw [levelPaddings]
    generalize hr : findSubset P.bucketSize x w.client.positionMap [] w.client.stash = r
    let w₁ : PathSystem D (TreeOramServerStorage C) :=
      { w with client := { w.client with stash := r.2.1, positionMap := r.2.2 } }
    have hfind : findSubsetOf (ε := Exit) P x (draws.pad i) w =
        (.ok (padStash (draws.pad i) P.bucketSize r.1), w₁) := by
      simp only [findSubsetOf, hr, w₁]
    obtain ⟨n, s, hwrite, hs, hblocks⟩ := writeBucket_spec (w := w₁) hw hx
      (Nat.lt_succ_iff.mp hi) (draws.iv i) (padStash (draws.pad i) P.bucketSize r.1)
    obtain ⟨v, hrest, hother, hstored⟩ := ih (Nat.le_of_succ_le hi)
      (w := ⟨{ w₁.client with networkCommunication := n }, s⟩) hs
    refine ⟨v, ?_, fun t ht => ?_, fun p hp => ?_⟩
    · rw [writeLevels, Prog.bind_ok hfind, Prog.bind_ok (Prog.mapError_ok hwrite)]
      exact hrest
    · rw [hother t fun l hl => ht l (Nat.lt_succ_of_lt hl), hblocks,
        if_neg (ht i (Nat.lt_succ_self i))]
    · rcases List.mem_append.mp hp with hp | hp
      · refine ⟨i, Nat.lt_succ_self i, ?_⟩
        rw [hother _ fun l hl => pathTag_ne (Nat.ne_of_gt hl), hblocks, if_pos rfl]
        exact List.mem_append_right _ hp
      · obtain ⟨l, hl, hmem⟩ := hstored p hp
        exact ⟨l, Nat.lt_succ_of_lt hl, hmem⟩

/-- So does an access to a path. -/
theorem internalAccessDirect_stored (op : Operation) (address x : ℕ) (buffer : OramBlock D)
    (draws : AccessDraws C) (hw : w.Whole P) :
    ∀ p ∈ directPaddings P op address x buffer draws w, ∃ t,
      p ∈ (internalAccessDirect (OramService.stub C P.id) P op address x buffer draws false
        w).2.server.blocksAt t := by
  intro p hp
  by_cases hx : x < P.numberOfLeafs
  · rw [directPaddings] at hp
    have hkeep := keptBySteps_whole.readLevels x (List.range (P.treeLevel + 1)) w hw
    rcases hread : readLevels (OramService.stub C P.id) P x (List.range (P.treeLevel + 1)) w with
      ⟨e | path, v⟩
    · rw [hread] at hp
      cases hp
    · rw [hread] at hp hkeep
      simp only at hp
      rw [internalAccessDirect, Prog.bind_ok hread, if_neg Bool.false_ne_true, update,
        Prog.modify_bind, Prog.get_bind]
      rcases hfind : (mergePath v.client.stash path).find? (blockEqual address) with _ | block
      · rw [hfind] at hp
        cases hp
      · rw [hfind] at hp
        obtain ⟨out, c, hup⟩ := updateBlock_total (P := P) op address buffer block
          { v.client with stash := mergePath v.client.stash path } v.server
        simp only [hup] at hp
        obtain ⟨z, hwrite, -, hstored⟩ := writeLevels_stored hx draws _ le_rfl
          (w := ⟨c, v.server⟩) hkeep
        obtain ⟨l, -, hmem⟩ := hstored p hp
        refine ⟨pathTag P.treeLevel x l, ?_⟩
        simp only
        rw [Prog.bind_ok hup, Prog.bind_ok hwrite]
        exact hmem
  · rw [directPaddings, readLevels_out_of_range hx] at hp
    cases hp

/-- The load stores its paddings, and takes nothing away. -/
theorem fillTree_stored (draws : FillDraws C) :
    ∀ (ts : List Tag) (data : List (OramBlock D)) {w : PathSystem D (TreeOramServerStorage C)},
      (∀ t ∈ ts, t ∈ treeTags P.treeLevel) → w.Whole P →
      ∃ v, fillTree (OramService.stub C P.id) P draws ts data w = (.ok (), v) ∧
        (∀ t b, b ∈ w.server.blocksAt t → b ∈ v.server.blocksAt t) ∧
        ∀ p ∈ fillPaddings P draws ts data, ∃ t, p ∈ v.server.blocksAt t := by
  intro ts
  induction ts with
  | nil => exact fun data w _ _ => ⟨w, rfl, fun _ _ h => h, fun p hp => absurd hp List.not_mem_nil⟩
  | cons t ts ih =>
    intro data w htags hw
    obtain ⟨hl, ho⟩ := mem_treeTags.mp (htags t List.mem_cons_self)
    obtain ⟨m, hbucket, -⟩ :=
      fillBucket_spec (interval_le P.treeLevel t) (draws.path t) P.bucketSize data w
    obtain ⟨s, hwrite, hs, hblocks⟩ := accurateWriteBucket_spec
      (w := { w with client := { w.client with positionMap := m } }) hw hl ho (draws.iv t)
      (padStash (draws.pad t) P.bucketSize ((data.take P.bucketSize).filter OramBlock.isNormal))
    obtain ⟨v, hrest, hkept, hstored⟩ := ih (data.drop P.bucketSize)
      (w := ⟨{ w.client with positionMap := m }, s⟩)
      (fun t' ht' => htags t' (List.mem_cons_of_mem _ ht')) hs
    refine ⟨v, ?_, fun t' b hb => hkept t' b ?_, fun p hp => ?_⟩
    · rw [fillTree_cons, Prog.bind_ok hbucket, Prog.bind_ok (checkStatus_ok hwrite)]
      exact hrest
    · rw [hblocks]
      split
      · exact List.mem_append_left _ hb
      · exact hb
    · rw [fillPaddings] at hp
      rcases List.mem_append.mp hp with hp | hp
      · refine ⟨t, hkept t p ?_⟩
        rw [hblocks, if_pos rfl]
        exact List.mem_append_right _ (List.mem_append_right _ hp)
      · exact hstored p hp

/-- **The padding of an action is in the tree** when the action is over. -/
theorem paddings_stored (a : PathAction C) (hw : w.Whole P) :
    ∀ p ∈ a.paddings P w, ∃ t, p ∈ (a.run P w).2.server.blocksAt t := by
  intro p hp
  have hforget : ∀ {α : Type} (m : Prog Exit (PathSystem D (TreeOramServerStorage C)) α),
      ((m >>= fun _ => pure ()) w).2 = (m w).2 := by
    intro α m
    rcases hm : m w with ⟨e | out, v⟩
    · rw [Prog.bind_error hm]
    · rw [Prog.bind_ok hm]
      rfl
  cases a with
  | fill data draws =>
    obtain ⟨v, hrun, -, hstored⟩ :=
      fillTree_stored draws (fillOrder P.treeLevel) data (fun t ht => mem_fillOrder.mp ht) hw
    obtain ⟨t, ht⟩ := hstored p hp
    refine ⟨t, ?_⟩
    rw [PathAction.run, fillWithData, Prog.bind_ok hrun]
    exact ht
  | dummy op a buffer draws => cases hp
  | call c =>
    rw [PathAction.run, hforget]
    cases c with
    | access op a buffer draws =>
      rw [PathAction.paddings, PathCall.paddings] at hp
      split at hp
      · cases hp
      next hgo =>
        obtain ⟨hinit, hop⟩ := not_or.mp hgo
        rw [PathCall.run, internalAccess_eq (Bool.eq_true_of_not_eq_false hinit) hop]
        exact internalAccessDirect_stored op a _ buffer draws
          (w := remap a (draws.position % P.numberOfLeafs) w) hw p hp
    | direct op a x buffer draws =>
      rw [PathAction.paddings, PathCall.paddings] at hp
      split at hp
      · cases hp
      next hinit =>
        rw [PathCall.run, accessDirect, Prog.get_bind, if_neg hinit]
        exact internalAccessDirect_stored op a x buffer draws hw p hp

end PathOramController

/-! ## Other bytes for the padding

If every padding block is replaced by one that is as real as it was, nothing changes but
bytes that no one reads. -/

/-- The same draws with `f p` for padding in place of `p`. -/
def AccessDraws.repad (f : OramBlock D → OramBlock D) (draws : AccessDraws C) : AccessDraws C :=
  { draws with pad := fun l j => f (draws.pad l j) }

/-- The same draws with `f p` for padding in place of `p`. -/
def FillDraws.repad (f : OramBlock D → OramBlock D) (draws : FillDraws C) : FillDraws C :=
  { draws with pad := fun t j => f (draws.pad t j) }

/-- The same action with `f p` for padding in place of `p`. -/
def PathAction.repad (f : OramBlock D → OramBlock D) : PathAction C → PathAction C
  | fill data draws => fill data (draws.repad f)
  | call (.access op a buffer draws) => call (.access op a buffer (draws.repad f))
  | call (.direct op a x buffer draws) => call (.direct op a x buffer (draws.repad f))
  | dummy op a buffer draws => dummy op a buffer (draws.repad f)

namespace PathOramController

variable {f : OramBlock D → OramBlock D} {w w' : PathSystem D (TreeOramServerStorage C)}

/-- Two runs whose outcomes are the same and whose systems are alike. -/
def RunAlike {α : Type} (P : PathOramConfig)
    (m m' : Except Exit α × PathSystem D (TreeOramServerStorage C)) : Prop :=
  m.1 = m'.1 ∧ Alike P m.2 m'.2

section RunAlike

variable {α β : Type} {m m' : Prog Exit (PathSystem D (TreeOramServerStorage C)) α}
  {g g' : α → Prog Exit (PathSystem D (TreeOramServerStorage C)) β}

/-- Programs that keep the relation end alike. -/
theorem RunAlike.of_relates (h : Prog.Relates (Alike P) Eq m m') (hw : Alike P w w') :
    RunAlike P (m w) (m' w') := by
  obtain ⟨hagree, hafter⟩ := h w w' hw
  exact ⟨Prog.agree_eq.mp hagree, hafter⟩

/-- **The rule of sequencing.** -/
theorem RunAlike.bind (hm : RunAlike P (m w) (m' w'))
    (hg : ∀ a v v', m w = (.ok a, v) → Alike P v v' → RunAlike P (g a v) (g' a v')) :
    RunAlike P ((m >>= g) w) ((m' >>= g') w') := by
  obtain ⟨hout, hafter⟩ := hm
  rcases hrun : m w with ⟨e | a, v⟩ <;> rcases hrun' : m' w' with ⟨e' | a', v'⟩ <;>
    rw [hrun, hrun'] at hout hafter <;> cases hout
  · rw [Prog.bind_error hrun, Prog.bind_error hrun']
    exact ⟨rfl, hafter⟩
  · rw [Prog.bind_ok hrun, Prog.bind_ok hrun']
    exact hg a v v' hrun hafter

end RunAlike

/-- Writing a path back, with other padding. -/
theorem writeLevels_alike {x : ℕ} (hx : x < P.numberOfLeafs) (draws : AccessDraws C) :
    ∀ i ≤ P.treeLevel + 1, ∀ {w w' : PathSystem D (TreeOramServerStorage C)}, Alike P w w' →
      (∀ p ∈ levelPaddings P x draws.pad i w.client.positionMap w.client.stash, SameReal f p) →
      RunAlike P (writeLevels (OramService.stub C P.id) P x draws i w)
        (writeLevels (OramService.stub C P.id) P x (draws.repad f) i w') := by
  intro i
  induction i with
  | zero => exact fun _ w w' hw _ => ⟨rfl, hw⟩
  | succ i ih =>
    intro hi w w' hw hf
    have hle : i ≤ P.treeLevel := Nat.lt_succ_iff.mp hi
    obtain ⟨n, hc⟩ := hw.client_eq
    rw [levelPaddings] at hf
    generalize hr : findSubset P.bucketSize x w.client.positionMap [] w.client.stash = r at hf
    have hfind : ∀ (random : ℕ → OramBlock D) (v : PathSystem D (TreeOramServerStorage C)),
        v.client.positionMap = w.client.positionMap → v.client.stash = w.client.stash →
        findSubsetOf (ε := Exit) P x random v = (.ok (padStash random P.bucketSize r.1),
          { v with client := { v.client with stash := r.2.1, positionMap := r.2.2 } }) := by
      intro random v hmap hstash
      simp only [findSubsetOf, hmap, hstash, hr]
    let v : PathSystem D (TreeOramServerStorage C) :=
      { w with client := { w.client with stash := r.2.1, positionMap := r.2.2 } }
    let v' : PathSystem D (TreeOramServerStorage C) :=
      { w' with client := { w'.client with stash := r.2.1, positionMap := r.2.2 } }
    obtain ⟨n₁, s₁, hwrite₁, hs₁, hblocks₁⟩ := writeBucket_spec (w := v) hw.whole_left hx hle
      (draws.iv i) (padStash (draws.pad i) P.bucketSize r.1)
    obtain ⟨n₂, s₂, hwrite₂, hs₂, hblocks₂⟩ := writeBucket_spec (w := v') hw.whole_right hx hle
      ((draws.repad f).iv i) (padStash ((draws.repad f).pad i) P.bucketSize r.1)
    have hpad : (padStash ((draws.repad f).pad i) P.bucketSize r.1).filter OramBlock.isNormal =
        (padStash (draws.pad i) P.bucketSize r.1).filter OramBlock.isNormal :=
      filter_isNormal_padStash_repad fun p hp => hf p (List.mem_append_left _ hp)
    have halike : Alike P (⟨{ v.client with networkCommunication := n₁ }, s₁⟩ :
        PathSystem D (TreeOramServerStorage C))
        ⟨{ v'.client with networkCommunication := n₂ }, s₂⟩ := by
      refine ⟨hs₁, hs₂, ⟨n₂, ?_⟩, fun t => ?_⟩
      · simp only [v, v', hc]
      · simp only [normalAt, hblocks₁, hblocks₂]
        split
        · exact hpad
        · exact hw.normal_eq t
    rw [writeLevels, writeLevels, Prog.bind_ok (hfind _ w rfl rfl),
      Prog.bind_ok (hfind _ w' (by rw [hc]) (by rw [hc])), Prog.bind_ok (Prog.mapError_ok hwrite₁),
      Prog.bind_ok (Prog.mapError_ok hwrite₂)]
    exact ih (Nat.le_of_succ_le hi) halike fun p hp => hf p (List.mem_append_right _ hp)

/-- An access to a path, with other padding. -/
theorem internalAccessDirect_alike (op : Operation) (address x : ℕ) (buffer : OramBlock D)
    (draws : AccessDraws C) (hw : Alike P w w')
    (hf : ∀ p ∈ directPaddings P op address x buffer draws w, SameReal f p) :
    RunAlike P
      (internalAccessDirect (OramService.stub C P.id) P op address x buffer draws false w)
      (internalAccessDirect (OramService.stub C P.id) P op address x buffer (draws.repad f) false
        w') := by
  by_cases hx : x < P.numberOfLeafs
  · rw [directPaddings] at hf
    rw [internalAccessDirect, internalAccessDirect]
    obtain ⟨hagree, hv⟩ := relates_readLevels x w w' hw
    rcases hread : readLevels (OramService.stub C P.id) P x (List.range (P.treeLevel + 1)) w with
      ⟨e | path, v⟩ <;>
    rcases hread' : readLevels (OramService.stub C P.id) P x (List.range (P.treeLevel + 1)) w' with
      ⟨e' | path', v'⟩ <;>
    rw [hread, hread'] at hagree hv
    · rw [Prog.bind_error hread, Prog.bind_error hread']
      exact ⟨congrArg Except.error (show e = e' from hagree), hv⟩
    · exact hagree.elim
    · exact hagree.elim
    · rw [hread] at hf
      simp only at hf
      rw [Prog.bind_ok hread, Prog.bind_ok hread', if_neg Bool.false_ne_true,
        if_neg Bool.false_ne_true]
      obtain ⟨n, hc⟩ : ∃ n, v'.client = { v.client with networkCommunication := n } := hv.client_eq
      have hmerge : mergePath v'.client.stash path' = mergePath v.client.stash path := by
        rw [mergePath_eq_foldl_normal, mergePath_eq_foldl_normal, hc]
        exact congrArg _ hagree.symm
      let u : PathSystem D (TreeOramServerStorage C) :=
        { v with client := { v.client with stash := mergePath v.client.stash path } }
      let u' : PathSystem D (TreeOramServerStorage C) :=
        { v' with client := { v'.client with stash := mergePath v.client.stash path } }
      have hu : Alike P u u' := by
        refine ⟨hv.whole_left, hv.whole_right, ⟨n, ?_⟩, hv.normal_eq⟩
        simp only [u, u', hc]
      rw [update, Prog.modify_bind, update, Prog.modify_bind, Prog.get_bind, Prog.get_bind]
      simp only [hmerge]
      rcases hfind : (mergePath v.client.stash path).find? (blockEqual address) with _ | block
      · exact ⟨rfl, hu⟩
      · rw [hfind] at hf
        refine RunAlike.bind (.of_relates (relates_updateBlock op address buffer block) hu)
          fun out z z' hup hz => RunAlike.bind (writeLevels_alike hx draws _ le_rfl hz fun p hp =>
            hf p ?_) fun _ _ _ _ h => ⟨rfl, h⟩
        show p ∈ levelPaddings P x draws.pad (P.treeLevel + 1)
          (updateBlock P op address buffer block u).2.client.positionMap
          (updateBlock P op address buffer block u).2.client.stash
        rw [hup]
        exact hp
  · rw [internalAccessDirect_out_of_range _ _ _ _ _ _ hx,
      internalAccessDirect_out_of_range _ _ _ _ _ _ hx]
    exact ⟨rfl, hw⟩

/-- The positions a bucket of the load draws do not depend on the server. -/
theorem relates_fillBucket (start stop : ℕ) (draw : ℕ → ℕ) :
    ∀ (k : ℕ) (data : List (OramBlock D)), Prog.Relates (Alike (C := C) P) Eq
      (fillBucket start stop draw k data) (fillBucket start stop draw k data) := by
  intro k
  induction k with
  | zero => exact fun _ => .pure rfl
  | succ k ih =>
    intro data
    cases data with
    | nil => exact .pure rfl
    | cons b data =>
      rw [fillBucket]
      split
      · refine .bind_eq (fun w w' hw => ?_) fun path => .bind_eq (relates_update fun _ _ => rfl)
          fun _ => .bind_eq (ih data) fun r => .pure rfl
        simp only [checkedRandom]
        split <;> exact ⟨rfl, hw⟩
      · exact ih data

/-- The load, with other padding. -/
theorem fillTree_alike (draws : FillDraws C) :
    ∀ (ts : List Tag) (data : List (OramBlock D)) {w w' : PathSystem D (TreeOramServerStorage C)},
      (∀ t ∈ ts, t ∈ treeTags P.treeLevel) → Alike P w w' →
      (∀ p ∈ fillPaddings P draws ts data, SameReal f p) →
      RunAlike P (fillTree (OramService.stub C P.id) P draws ts data w)
        (fillTree (OramService.stub C P.id) P (draws.repad f) ts data w') := by
  intro ts
  induction ts with
  | nil => exact fun data w w' _ hw _ => ⟨rfl, hw⟩
  | cons t ts ih =>
    intro data w w' htags hw hf
    obtain ⟨hl, ho⟩ := mem_treeTags.mp (htags t List.mem_cons_self)
    rw [fillPaddings] at hf
    rw [fillTree_cons, fillTree_cons]
    refine RunAlike.bind (.of_relates (relates_fillBucket _ _ _ _ data) hw) fun r v v' hr hv => ?_
    obtain ⟨m, hspec, -⟩ :=
      fillBucket_spec (interval_le P.treeLevel t) (draws.path t) P.bucketSize data w
    cases hr.symm.trans hspec
    obtain ⟨s₁, hwrite₁, hs₁, hblocks₁⟩ := accurateWriteBucket_spec
      hv.whole_left hl ho (draws.iv t) (padStash (draws.pad t) P.bucketSize
        ((data.take P.bucketSize).filter OramBlock.isNormal))
    obtain ⟨s₂, hwrite₂, hs₂, hblocks₂⟩ := accurateWriteBucket_spec (w := v')
      hv.whole_right hl ho ((draws.repad f).iv t) (padStash ((draws.repad f).pad t) P.bucketSize
        ((data.take P.bucketSize).filter OramBlock.isNormal))
    rw [Prog.bind_ok (checkStatus_ok hwrite₁), Prog.bind_ok (checkStatus_ok hwrite₂)]
    refine ih _ (fun t' ht' => htags t' (List.mem_cons_of_mem _ ht'))
      ⟨hs₁, hs₂, hv.client_eq, fun t' => ?_⟩ fun p hp => hf p (List.mem_append_right _ hp)
    have hreal : ∀ p ∈ padding (draws.pad t) P.bucketSize
        ((data.take P.bucketSize).filter OramBlock.isNormal), SameReal f p :=
      fun p hp => hf p (List.mem_append_left _ hp)
    have hpad := filter_isNormal_padStash_repad hreal
    simp only [normalAt, hblocks₁, hblocks₂]
    split
    · rw [List.filter_append, List.filter_append]
      exact congrArg₂ _ (hv.normal_eq t') hpad
    · exact hv.normal_eq t'

/-- A dummy access writes no padding. -/
theorem relates_internalAccess_dummy (op : Operation) (address : ℕ) (buffer : OramBlock D)
    (draws draws' : AccessDraws C) (hdraws : draws'.position = draws.position) :
    Prog.Relates (Alike P) Eq
      (internalAccess (OramService.stub C P.id) P op address buffer draws true)
      (internalAccess (OramService.stub C P.id) P op address buffer draws' true) := by
  refine .bind .get fun w w' hw => ?_
  obtain ⟨n, hc⟩ := hw.client_eq
  rw [hc, hdraws]
  split
  · exact .throw _
  · split
    · exact .throw _
    · refine .bind_eq (fun u u' hu => ?_) fun x => ?_
      · rw [randomPosition_spec, randomPosition_spec]
        exact ⟨rfl, hu⟩
      · exact .bind (relates_readLevels x) fun _ _ _ => .pure rfl

/-- **One action, with other padding** that shows the same real blocks. -/
theorem action_alike (a : PathAction C) (hw : Alike P w w')
    (hf : ∀ p ∈ a.paddings P w, SameReal f p) :
    RunAlike P (a.run P w) ((a.repad f).run P w') := by
  obtain ⟨n, hc⟩ := hw.client_eq
  cases a with
  | fill data draws =>
    exact .bind (fillTree_alike draws _ data (fun t ht => mem_fillOrder.mp ht) hw hf)
      fun _ v v' _ hv => .of_relates (relates_update fun _ _ => rfl) hv
  | dummy op a buffer draws =>
    exact .bind (.of_relates (relates_internalAccess_dummy op a buffer draws _ rfl) hw)
      fun _ v v' _ hv => ⟨rfl, hv⟩
  | call c =>
    cases c with
    | access op a buffer draws =>
      refine .bind ?_ fun _ v v' _ hv => ⟨rfl, hv⟩
      rw [PathCall.run, PathCall.run]
      by_cases hgo : w.client.isInitialized = true ∧ op ≠ .kInvalid
      · obtain ⟨hinit, hop⟩ := hgo
        have hinit' : w'.client.isInitialized = true := by rw [hc]; exact hinit
        have hstop : ¬(w.client.isInitialized = false ∨ op = .kInvalid) := by
          rw [hinit]
          exact fun h => h.elim Bool.false_ne_true.symm hop
        rw [PathAction.paddings, PathCall.paddings, if_neg hstop] at hf
        rw [internalAccess_eq hinit hop, internalAccess_eq hinit' hop]
        have hindex : w'.client.positionMap.index a = w.client.positionMap.index a := by rw [hc]
        rw [hindex]
        refine internalAccessDirect_alike op a _ buffer draws
          ⟨hw.whole_left, hw.whole_right, ⟨n, ?_⟩, hw.normal_eq⟩ hf
        simp only [remap, hc]
        rfl
      · rw [internalAccess, internalAccess, Prog.get_bind, Prog.get_bind, hc]
        split
        · exact ⟨rfl, hw⟩
        next hinit =>
          have hop : op = .kInvalid :=
            by_contra fun hop => hgo ⟨Bool.eq_true_of_not_eq_false hinit, hop⟩
          rw [if_pos hop, if_pos hop]
          exact ⟨rfl, hw⟩
    | direct op a x buffer draws =>
      refine .bind ?_ fun _ v v' _ hv => ⟨rfl, hv⟩
      rw [PathAction.paddings, PathCall.paddings] at hf
      rw [PathCall.run, PathCall.run, accessDirect, accessDirect, Prog.get_bind, Prog.get_bind, hc]
      split
      · exact ⟨rfl, hw⟩
      next hinit =>
        rw [if_neg hinit] at hf
        exact internalAccessDirect_alike op a x buffer draws hw hf

/-- No sequence of actions tells alike systems apart. -/
theorem relates_action (a : PathAction C) : Prog.Relates (Alike P) Eq (a.run P) (a.run P) := by
  intro w w' hw
  obtain ⟨hout, hafter⟩ := action_alike (f := fun p => p) a hw fun p _ => rfl
  refine ⟨Prog.agree_eq.mpr ?_, ?_⟩
  · rw [hout]
    cases a with
    | call c => cases c <;> rfl
    | _ => rfl
  · cases a with
    | call c => cases c <;> exact hafter
    | _ => exact hafter

end PathOramController

/-! ## When padding is inert

Padding of type `kNormal` with the id of an address is a block of the address as far as
the controller can tell. The other direction is a run side by side with other padding. -/

/-- The stash holds the same blocks, there are the same real blocks in all, and whatever is
done next has the same outcome. -/
structure PathSystem.Indistinct (P : PathOramConfig)
    (w w' : PathSystem D (TreeOramServerStorage C)) : Prop where
  stash_eq : w.client.stash = w'.client.stash
  contents_eq : w.contents P = w'.contents P
  later_eq : ∀ later : List (PathAction C),
    (Prog.trace Exit.fatal (PathAction.run P) later w).map Prod.fst =
      (Prog.trace Exit.fatal (PathAction.run P) later w').map Prod.fst

/-- Systems that are alike answer every call alike. -/
theorem PathSystem.Alike.indistinct {w w' : PathSystem D (TreeOramServerStorage C)}
    (h : Alike P w w') : Indistinct P w w' := by
  obtain ⟨n, hc⟩ := h.client_eq
  have hstash : w.client.stash = w'.client.stash := by rw [hc]
  refine ⟨hstash, ?_, fun later => Prog.trace_relates relates_action later h⟩
  have htree : treeBlocks P.treeLevel w.server = treeBlocks P.treeLevel w'.server :=
    treeBlocks_congr fun t _ => (h.normal_eq t).symm
  rw [contents, contents, hstash, htree]

/-- What padding should be. Encrypted, stored, read back and decrypted, none of it matches any
address, and padding of no real type in its place would have made no difference. -/
def PathAction.PaddingInert (P : PathOramConfig) (a : PathAction C)
    (w : PathSystem D (TreeOramServerStorage C)) : Prop :=
  (∀ t, ∀ p ∈ (a.run P w).2.server.blocksAt t, p ∈ a.paddings P w →
    ∀ address, blockEqual address p = false) ∧
  ∀ f : OramBlock D → OramBlock D, (∀ p, (f p).isNormal = false) →
    (a.run P w).1 = ((a.repad f).run P w).1 ∧
      Indistinct P (a.run P w).2 ((a.repad f).run P w).2

/-- **When padding is inert.** In every state that a Path ORAM reaches, whatever was drawn
before: exactly if none of the blocks that `PadStash` adds has the type of a real block. -/
theorem pathOram_padding_inert_iff {w : PathSystem D (TreeOramServerStorage C)}
    (hw : w.Reachable P) (a : PathAction C) :
    a.PaddingInert P w ↔ ∀ p ∈ a.paddings P w, p.isNormal = false := by
  constructor
  · rintro ⟨hmatch, -⟩ p hp
    obtain ⟨t, ht⟩ := paddings_stored a hw.whole p hp
    have hself := hmatch t p ht hp p.id
    rw [blockEqual, beq_self_eq_true, Bool.true_and] at hself
    exact hself
  · intro hpad
    refine ⟨fun t p _ hp address => ?_, fun f hf => ?_⟩
    · rw [blockEqual, hpad p hp, Bool.and_false]
    · have halike : Alike P w w := ⟨hw.whole, hw.whole, ⟨_, rfl⟩, fun _ => rfl⟩
      obtain ⟨hout, hafter⟩ := action_alike (f := f) a halike fun p hp => by
        rw [SameReal, List.filter_cons_of_neg (by rw [hf p]; exact Bool.false_ne_true),
          List.filter_cons_of_neg (by rw [hpad p hp]; exact Bool.false_ne_true)]
      exact ⟨hout, hafter.indistinct⟩

/-- Reading a block of the small tree, with dummies for padding. -/
theorem pathOram_padding_inert_iff_small :
    (PathAction.call (.access .kRead 3 dummyBlock smallDraws)).PaddingInert smallTree
      smallSystem :=
  (pathOram_padding_inert_iff smallSystem_reachable _).mpr (by decide)

/-- The padding of the root comes out as a real block of id 3. -/
def posingFill : FillDraws (Codec.plain ℕ) where
  path := fun _ _ => 0
  pad := fun t _ => if t = (0, 0) then smallBlock 3 99 else dummyBlock
  iv := fun _ _ => ()

/-- The load that draws it. -/
def posingLoad : PathAction (Codec.plain ℕ) := .fill [smallBlock 3 30, smallBlock 5 50] posingFill

/-- The padding hides the block `3` in the leaf: a read returns its bytes. -/
theorem padding_poses_as_data :
    (PathSystem.init (Codec.plain ℕ) smallTree).Reachable smallTree ∧
      (posingLoad.run smallTree (PathSystem.init _ smallTree)).1.isOk = true ∧
      ((PathRequest.run smallTree ⟨.kRead, 3, dummyBlock, smallDraws⟩
        (posingLoad.run smallTree (PathSystem.init _ smallTree)).2).1.toOption =
          some (smallBlock 3 99)) ∧
      ¬posingLoad.PaddingInert smallTree (PathSystem.init _ smallTree) := by
  refine ⟨⟨[], [], rfl⟩, by decide, by decide, fun ⟨h, _⟩ => ?_⟩
  have hhidden := h (0, 0) (smallBlock 3 99) (by decide) (by decide) 3
  exact absurd hhidden (by decide)

end ObliviousRam
