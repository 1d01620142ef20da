import ObliviousRam.PathDummy
import ObliviousRam.Connection

set_option autoImplicit false

/-!
# Failed calls of a Path ORAM

One `ReadPath` or `WritePath` of an access fails, without effect on the server.
The client gives up at once, and what it holds in local variables is gone: the
buckets it has read so far, which the server has emptied, or the blocks it has
taken out of the stash for the bucket to be written. A failed read also comes
after the remapping, so that the block of the access is looked for on a new path
while it is still on the old one.
-/

namespace ObliviousRam

open TreeOramServerStorage PathSystem PathOramController

variable {D σ : Type} {C : Codec D} {P : PathOramConfig} {f : Fault}

/-! ## A connection with a fault

`Fault.inject` counts the calls down beside the server. Every procedure has two lemmas:
what it does while the fault is still to come, which is what it does without one, and
what it does when the fault strikes inside. -/

/-- The stub whose calls pass over the faulty connection. -/
def TreeStub.faulty (f : Fault) (S : TreeStub C σ) : TreeStub C (σ × Option ℕ) where
  readPath := fun path level => f.inject (S.readPath path level)
  writePath := fun request => f.inject (S.writePath request)

/-- The stub of an ordinary server, with one faulty call. -/
abbrev faultyTreeStub (C : Codec D) (P : PathOramConfig) (f : Fault) :
    TreeStub C (TreeOramServerStorage C × Option ℕ) := (OramService.stub C P.id).faulty f

/-- The system with `k` calls to go before the fault, or with the fault behind it. -/
def PathSystem.withFault (w : PathSystem D σ) (k : Option ℕ) : PathSystem D (σ × Option ℕ) :=
  ⟨w.client, w.server, k⟩

namespace PathOramController

/-! ## The reads

A read that fails at level `k` leaves the levels above it empty on the server, and their
blocks in a local variable that is about to go out of scope. -/

section Reads

variable {S : TreeStub C σ} {x l : ℕ}

/-- Before its time the fault does not show. -/
theorem readBucket_later (hx : x < P.numberOfLeafs) (hl : l ≤ P.treeLevel) {w w' : PathSystem D σ}
    {r : Except Exit (List (OramBlock D))} (h : readBucket S P x l w = (r, w')) (k : ℕ) :
    readBucket (S.faulty f) P x l (w.withFault (some (k + 1))) = (r, w'.withFault (some k)) := by
  rw [readBucket, if_neg (by omega)] at h ⊢
  simp only [withFault, TreeStub.faulty]
  cases hcall : S.readPath x l w.server with
  | mk q s =>
    rw [hcall] at h
    rw [Fault.inject_later f hcall]
    cases q <;> (cases h; rfl)

/-- When the fault strikes, the bucket is neither read nor emptied. -/
theorem readBucket_now (hx : x < P.numberOfLeafs) (hl : l ≤ P.treeLevel)
    (hf : f.tookEffect = false) (w : PathSystem D σ) :
    readBucket (S.faulty f) P x l (w.withFault (some 0)) =
      (.error (.status (.make .kServerError f.message "ReadBucket")), w.withFault none) := by
  rw [readBucket, if_neg (by omega)]
  simp only [withFault, TreeStub.faulty, Fault.inject_now, hf]
  rfl

end Reads

/-- The reads go through if the fault comes later. -/
theorem readLevels_later {x : ℕ} (hx : x < P.numberOfLeafs) :
    ∀ (ls : List ℕ) (w : PathSystem D (TreeOramServerStorage C)) (k : ℕ),
      Intact P.treeLevel w.server → (∀ l ∈ ls, l ≤ P.treeLevel) →
      readLevels (faultyTreeStub C P f) P x ls (w.withFault (some (ls.length + k))) =
        ((readLevels (OramService.stub C P.id) P x ls w).1,
          (readLevels (OramService.stub C P.id) P x ls w).2.withFault (some k)) := by
  intro ls
  induction ls with
  | nil =>
    intro w k _ _
    rw [List.length_nil, Nat.zero_add]
    rfl
  | cons l ls ih =>
    intro w k hs hle
    obtain ⟨n, server, hread, hs', -⟩ := readBucket_spec hs hx (hle l List.mem_cons_self)
    have hlen : (l :: ls).length + k = ls.length + k + 1 := by
      rw [List.length_cons]
      omega
    have hlater := readBucket_later (f := f) hx (hle l List.mem_cons_self) hread (ls.length + k)
    have hrest := ih ⟨{ w.client with networkCommunication := n }, server⟩ k hs'
      fun l' hl' => hle l' (List.mem_cons_of_mem _ hl')
    rw [readLevels, readLevels, hlen, Prog.bind_ok (Prog.mapError_ok hread)]
    refine (Prog.bind_ok (Prog.mapError_ok hlater)).trans ?_
    rw [Prog.bind_apply, hrest, Prog.bind_apply]
    cases readLevels (OramService.stub C P.id) P x ls
        ⟨{ w.client with networkCommunication := n }, server⟩ with
    | mk r w' => cases r <;> rfl

/-- A read fails: the buckets above it have been emptied. -/
theorem readLevels_now {x : ℕ} (hx : x < P.numberOfLeafs) (hf : f.tookEffect = false) :
    ∀ (ls : List ℕ) (w : PathSystem D (TreeOramServerStorage C)) (k : ℕ),
      Intact P.treeLevel w.server → (∀ l ∈ ls, l ≤ P.treeLevel) → k < ls.length →
      ∃ st, readLevels (faultyTreeStub C P f) P x ls (w.withFault (some k)) =
          (.error (.status st),
            (readLevels (OramService.stub C P.id) P x (ls.take k) w).2.withFault none) ∧
        st.errorCode = .kServerError := by
  intro ls
  induction ls with
  | nil => exact fun w k _ _ hk => absurd hk (Nat.not_lt_zero k)
  | cons l ls ih =>
    intro w k hs hle hk
    have hl := hle l List.mem_cons_self
    cases k with
    | zero =>
      exact ⟨_, Prog.bind_error (Prog.mapError_error (readBucket_now hx hl hf w)),
        OramStatus.append_errorCode _ _⟩
    | succ k =>
      obtain ⟨n, server, hread, hs', -⟩ := readBucket_spec hs hx hl
      obtain ⟨st, hrest, hcode⟩ := ih ⟨{ w.client with networkCommunication := n }, server⟩ k hs'
        (fun l' hl' => hle l' (List.mem_cons_of_mem _ hl')) (Nat.lt_of_succ_lt_succ hk)
      refine ⟨st, ?_, hcode⟩
      rw [List.take_succ_cons, readLevels, readLevels, Prog.bind_ok (Prog.mapError_ok hread)]
      refine (Prog.bind_ok (Prog.mapError_ok (readBucket_later (f := f) hx hl hread k))).trans ?_
      rw [Prog.bind_error hrest, Prog.bind_apply]
      cases readLevels (OramService.stub C P.id) P x (ls.take k)
          ⟨{ w.client with networkCommunication := n }, server⟩ with
      | mk r w' => cases r <;> rfl

/-! ## The writes

`FindSubsetOf` takes the blocks of a bucket out of the stash before the bucket is sent.
If the send fails, they are in neither place. The levels below, which were sent before,
have what they should. -/

/-- Taking blocks out of the stash keeps the invariant. -/
theorem findSubsetOf_spec {ε : Type} (x : ℕ) (random : ℕ → OramBlock D)
    {w : PathSystem D (TreeOramServerStorage C)} (hw : w.Inv P) :
    ∃ subset w', findSubsetOf (ε := ε) P x random w =
        (.ok (padStash random P.bucketSize subset), w') ∧
      w'.Inv P ∧ w'.server = w.server ∧
      (subset : Multiset (OramBlock D)) + w'.contents P = w.contents P ∧
      (∀ a, w'.client.positionMap.index a = w.client.positionMap.index a) ∧
      subset.length = min P.bucketSize (onPath w.client.positionMap x w.client.stash) ∧
      onPath w'.client.positionMap x w'.client.stash =
        onPath w.client.positionMap x w.client.stash - P.bucketSize := by
  obtain ⟨hsplit, hmem, hindex⟩ :=
    findSubset_spec (B := P.bucketSize) (x := x) w.client.stash w.client.positionMap []
  have hlen := length_findSubset (B := P.bucketSize) (x := x) w.client.stash
    w.client.positionMap [] (Nat.zero_le _)
  generalize hr : findSubset P.bucketSize x w.client.positionMap [] w.client.stash = r at *
  rw [Multiset.coe_nil, zero_add] at hsplit
  rw [List.length_nil, Nat.zero_add] at hlen
  let w' : PathSystem D (TreeOramServerStorage C) :=
    { w with client := { w.client with stash := r.2.1, positionMap := r.2.2 } }
  have hnormal : ∀ b ∈ w'.client.stash, b.isNormal = true := by
    intro b hb
    refine hw.stash_normal b (Multiset.mem_coe.mp (hsplit ▸ ?_))
    exact Multiset.mem_add.mpr (.inr (Multiset.mem_coe.mpr hb))
  have hcont : (r.1 : Multiset (OramBlock D)) + w'.contents P = w.contents P := by
    rw [hw.contents_eq, ← hsplit, contents, filter_isNormal_of_forall hnormal, add_assoc]
  refine ⟨r.1, w', ?_, ⟨hw.intact, hnormal, ?_, fun a => ?_, fun t ht hfree b hb => ?_⟩, rfl, hcont,
    hindex, hlen, ?_⟩
  · simp only [findSubsetOf, hr, w']
  · exact hw.unique.of_le (hcont ▸ Multiset.le_add_left _ _)
  · exact (hindex a).symm ▸ hw.position_lt a
  · exact (hindex b.id).symm ▸ hw.on_path t ht hfree b hb
  · -- what is taken is on the path, so the rest has that much less of it
    have htaken : onPath w.client.positionMap x r.1 = r.1.length := by
      rw [onPath, List.countP_eq_length]
      intro b hb
      exact decide_eq_true ((hmem b hb).resolve_left List.not_mem_nil).2
    have hsum : onPath w.client.positionMap x r.1 + onPath w.client.positionMap x r.2.1 =
        onPath w.client.positionMap x w.client.stash := by
      rw [Multiset.coe_add, Multiset.coe_eq_coe] at hsplit
      rw [onPath, onPath, onPath, ← List.countP_append]
      exact hsplit.countP_eq _
    rw [onPath_congr hindex]
    show onPath w.client.positionMap x r.2.1 = _
    omega

/-- One level of the write-back keeps the invariant. -/
theorem writeLevel_inv {x i : ℕ} (hx : x < P.numberOfLeafs) (hi : i ≤ P.treeLevel)
    {random : ℕ → OramBlock D} (hpad : ∀ j, (random j).isNormal = false) (iv : ℕ → C.Iv)
    {w : PathSystem D (TreeOramServerStorage C)} (hw : w.Inv P)
    (hempty : w.server.normalAt (pathTag P.treeLevel x i) = []) :
    ∃ subset w₁ w', findSubsetOf (ε := Exit) P x random w = (.ok subset, w₁) ∧
      writeBucket (OramService.stub C P.id) x i iv subset w₁ = (.ok (), w') ∧
      w'.Inv P ∧ w'.contents P = w.contents P ∧
      (∀ a, w'.client.positionMap.index a = w.client.positionMap.index a) ∧
      (∀ l ≠ i, w'.server.normalAt (pathTag P.treeLevel x l) =
        w.server.normalAt (pathTag P.treeLevel x l)) ∧
      onPath w'.client.positionMap x w'.client.stash =
        onPath w.client.positionMap x w.client.stash - P.bucketSize := by
  obtain ⟨subset, w₁, w', hfind, hwrite, hs, hnormal, hcont, hindex, hinit, hother, hplaced⟩ :=
    writeLevel_spec hx hi hpad iv hw.intact hw.stash_normal hempty
  obtain ⟨subset', w₁', hfind', -, -, -, -, -, honPath⟩ := findSubsetOf_spec (ε := Exit) x random hw
  cases hfind.symm.trans hfind'
  have hclient : w'.client.stash = w₁.client.stash ∧
      w'.client.positionMap = w₁.client.positionMap := by
    rw [writeBucket] at hwrite
    split at hwrite <;> cases hwrite
    exact ⟨rfl, rfl⟩
  refine ⟨_, w₁, w', hfind, hwrite, ⟨hs, hnormal, hcont ▸ hw.unique, fun a => ?_, ?_⟩, hcont, hindex,
    fun l hl => ?_, ?_⟩
  · exact (hindex a).symm ▸ hw.position_lt a
  · intro t ht hfree b hb
    rw [hindex]
    by_cases he : t = pathTag P.treeLevel x i
    · subst he
      rw [hplaced b hb]
      rfl
    · rw [normalAt, hother t he, ← normalAt] at hb
      exact hw.on_path t ht hfree b hb
  · rw [normalAt, hother _ (pathTag_ne hl), ← normalAt]
  · rw [hclient.1, hclient.2]
    exact honPath

theorem writeBucket_later {S : TreeStub C σ} {x l : ℕ} {iv : ℕ → C.Iv}
    {bucket : List (OramBlock D)} {w w' : PathSystem D σ} {r : Except Exit Unit}
    (h : writeBucket S x l iv bucket w = (r, w')) (k : ℕ) :
    writeBucket (S.faulty f) x l iv bucket (w.withFault (some (k + 1))) =
      (r, w'.withFault (some k)) := by
  rw [writeBucket] at h ⊢
  simp only [withFault, TreeStub.faulty] at h ⊢
  cases hcall : S.writePath ⟨x, l, 0, .kNormal, sealBucket iv bucket⟩ w.server with
  | mk q s =>
    rw [hcall] at h
    rw [Fault.inject_later f hcall]
    cases q <;> (cases h; rfl)

/-- A write that fails has been counted, and nothing else has happened. -/
theorem writeBucket_now {S : TreeStub C σ} (hf : f.tookEffect = false) (x l : ℕ) (iv : ℕ → C.Iv)
    (bucket : List (OramBlock D)) (w : PathSystem D σ) :
    ∃ n, writeBucket (S.faulty f) x l iv bucket (w.withFault (some 0)) =
      (.error (.status (.make .kServerError f.message "WriteBucket")),
        PathSystem.withFault { w with client := { w.client with networkCommunication := n } }
          none) := by
  refine ⟨w.client.networkCommunication + bucket.length, ?_⟩
  rw [writeBucket]
  simp only [withFault, TreeStub.faulty, Fault.inject_now, hf]
  rfl

/-- The stash is no business of the connection. -/
theorem findSubsetOf_withFault {ε : Type} {x : ℕ} {random : ℕ → OramBlock D}
    {w v : PathSystem D σ} {bucket : List (OramBlock D)}
    (h : findSubsetOf (ε := ε) P x random w = (.ok bucket, v)) (k : Option ℕ) :
    findSubsetOf (ε := ε) P x random (w.withFault k) = (.ok bucket, v.withFault k) := by
  cases h
  rfl

/-- The write-back stops after `j` levels: the blocks chosen for the next bucket
are lost. -/
theorem writeLevels_now {x : ℕ} (hx : x < P.numberOfLeafs) {draws : AccessDraws C}
    (hpad : ∀ l j, (draws.pad l j).isNormal = false) (hf : f.tookEffect = false) :
    ∀ (i j : ℕ) (w : PathSystem D (TreeOramServerStorage C)), j < i → i ≤ P.treeLevel + 1 →
      w.Inv P → (∀ l < i, w.server.normalAt (pathTag P.treeLevel x l) = []) →
      ∃ (st : OramStatus) (lost : List (OramBlock D)) (v : PathSystem D (TreeOramServerStorage C)),
        writeLevels (faultyTreeStub C P f) P x draws i (w.withFault (some j)) =
          (.error (.status st), v.withFault none) ∧
        st.errorCode = .kServerError ∧ v.Inv P ∧
        (lost : Multiset (OramBlock D)) + v.contents P = w.contents P ∧
        (∀ a, v.client.positionMap.index a = w.client.positionMap.index a) ∧
        lost.length = min P.bucketSize
          (onPath w.client.positionMap x w.client.stash - j * P.bucketSize) := by
  intro i
  induction i with
  | zero => exact fun j w hj => absurd hj (Nat.not_lt_zero j)
  | succ i ih =>
    intro j w hj hi hw hempty
    cases j with
    | zero =>
      obtain ⟨lost, v, hfind, hv, -, hcont, hindex, hlen, -⟩ :=
        findSubsetOf_spec (ε := Exit) x (draws.pad i) hw
      obtain ⟨n, hnow⟩ := writeBucket_now (S := OramService.stub C P.id) hf x i (draws.iv i)
        (padStash (draws.pad i) P.bucketSize lost) v
      refine ⟨OramStatus.append (.make .kServerError f.message "WriteBucket")
        (.make .kInvalidOperation "Failed to write bucket" "InternalAccessDirect"), lost,
        { v with client := { v.client with networkCommunication := n } }, ?_,
        OramStatus.append_errorCode _ _, ?_, hcont, hindex, ?_⟩
      · rw [writeLevels, Prog.bind_ok (findSubsetOf_withFault hfind (some 0))]
        exact Prog.bind_error (Prog.mapError_error hnow)
      · exact ⟨hv.intact, hv.stash_normal, hv.unique, hv.position_lt, hv.on_path⟩
      · rw [Nat.zero_mul, Nat.sub_zero]
        exact hlen
    | succ j =>
      obtain ⟨subset, w₁, w₂, hfind, hwrite, hw₂, hcont₂, hindex₂, hother₂, honPath₂⟩ :=
        writeLevel_inv hx (Nat.lt_succ_iff.mp hi) (hpad i) (draws.iv i) hw
          (hempty i (Nat.lt_succ_self i))
      obtain ⟨st, lost, v, hrest, hcode, hv, hcont, hindex, hlen⟩ := ih j w₂
        (Nat.lt_of_succ_lt_succ hj) (Nat.le_of_succ_le hi) hw₂ fun l hl => by
          rw [hother₂ l (Nat.ne_of_lt hl)]
          exact hempty l (Nat.lt_succ_of_lt hl)
      refine ⟨st, lost, v, ?_, hcode, hv, hcont.trans hcont₂,
        fun a => (hindex a).trans (hindex₂ a), ?_⟩
      · rw [writeLevels, Prog.bind_ok (findSubsetOf_withFault hfind (some (j + 1)))]
        refine (Prog.bind_ok (Prog.mapError_ok (writeBucket_later hwrite j))).trans ?_
        exact hrest
      · rw [hlen, honPath₂, Nat.sub_sub, Nat.succ_mul, Nat.add_comm P.bucketSize]

/-- The write-back goes through if the fault comes later. -/
theorem writeLevels_later {x : ℕ} (hx : x < P.numberOfLeafs) {draws : AccessDraws C}
    (hpad : ∀ l j, (draws.pad l j).isNormal = false) :
    ∀ (i j : ℕ) (w : PathSystem D (TreeOramServerStorage C)), i ≤ P.treeLevel + 1 → w.Inv P →
      (∀ l < i, w.server.normalAt (pathTag P.treeLevel x l) = []) →
      ∃ v : PathSystem D (TreeOramServerStorage C),
        writeLevels (faultyTreeStub C P f) P x draws i (w.withFault (some (i + j))) =
          (.ok (), v.withFault (some j)) := by
  intro i
  induction i with
  | zero =>
    intro j w _ _ _
    rw [Nat.zero_add]
    exact ⟨w, rfl⟩
  | succ i ih =>
    intro j w hi hw hempty
    obtain ⟨subset, w₁, w₂, hfind, hwrite, hw₂, -, -, hother₂, -⟩ :=
      writeLevel_inv hx (Nat.lt_succ_iff.mp hi) (hpad i) (draws.iv i) hw
        (hempty i (Nat.lt_succ_self i))
    obtain ⟨v, hrest⟩ := ih j w₂ (Nat.le_of_succ_le hi) hw₂ fun l hl => by
      rw [hother₂ l (Nat.ne_of_lt hl)]
      exact hempty l (Nat.lt_succ_of_lt hl)
    refine ⟨v, ?_⟩
    rw [writeLevels, Prog.bind_ok (findSubsetOf_withFault hfind (some (i + 1 + j))),
      Nat.add_right_comm]
    refine (Prog.bind_ok (Prog.mapError_ok (writeBucket_later hwrite (i + j)))).trans ?_
    exact hrest

/-! ## Around the calls -/

theorem updateBlock_withFault {op : Operation} {address : ℕ} {buffer block out : OramBlock D}
    {w w' : PathSystem D σ} (h : updateBlock P op address buffer block w = (.ok out, w'))
    (k : Option ℕ) :
    updateBlock P op address buffer block (w.withFault k) = (.ok out, w'.withFault k) := by
  simp only [updateBlock, update, Prog.modify_bind] at h ⊢
  split at h
  next hop =>
    rw [if_pos hop]
    cases h
    rfl
  next hop =>
    rw [if_neg hop]
    split at h
    next hstand =>
      rw [if_pos hstand]
      cases h
      rfl
    next hstand =>
      rw [if_neg hstand]
      cases h
      rfl

theorem map_id_updateFirst {p : OramBlock D → Bool} (buffer : OramBlock D)
    (stash : List (OramBlock D)) :
    (updateFirst p (·.store buffer) stash).map OramBlock.id = stash.map OramBlock.id := by
  induction stash with
  | nil => rfl
  | cons b stash ih =>
    rw [updateFirst]
    split
    · rfl
    · rw [List.map_cons, List.map_cons, ih]

/-- Unless the block is removed, the update leaves the ids in the stash and their positions. -/
theorem onPath_updateBlock {op : Operation} {address : ℕ} {buffer block out : OramBlock D}
    {w w' : PathSystem D σ} (h : updateBlock P op address buffer block w = (.ok out, w'))
    (hkeep : op = .kWrite ∨ P.standalone = true) (x : ℕ) :
    onPath w'.client.positionMap x w'.client.stash =
      onPath w.client.positionMap x w.client.stash := by
  have hids : ∀ (m : PositionMap) (stash : List (OramBlock D)),
      onPath m x stash = (stash.map OramBlock.id).countP fun a => m.index a = x := by
    intro m stash
    rw [List.countP_map]
    rfl
  simp only [updateBlock, update, Prog.modify_bind] at h
  split at h
  next =>
    cases h
    rw [hids, hids, map_id_updateFirst]
  next hop =>
    rw [if_neg (by rw [hkeep.resolve_left hop]; exact Bool.noConfusion)] at h
    cases h
    rfl

end PathOramController

/-! ## When a fault is harmless

A block is lost in one of three ways, and the condition excludes each: it was read from
a bucket above the failed one, it was selected for the bucket whose write failed, or it
is the block of the access, whose position has changed while its bucket has not. -/

/-- A block where an access to its address finds it: in the stash, or on the
path its position names. -/
def PathSystem.Findable (P : PathOramConfig) (w : PathSystem D (TreeOramServerStorage C))
    (b : OramBlock D) : Prop :=
  b ∈ w.client.stash ∨
    b ∈ pathBlocks P.treeLevel (w.client.positionMap.index b.id) w.server

namespace PathRequest

/-- `Access` over the faulty connection. -/
def runFaulty (P : PathOramConfig) (f : Fault) (r : PathRequest C)
    (w : PathSystem D (TreeOramServerStorage C)) :
    Except Exit (OramBlock D) × PathSystem D (TreeOramServerStorage C × Option ℕ) :=
  access (faultyTreeStub C P f) P r.op r.address r.buffer r.draws (w.withFault (some f.call))

/-- The request gets as far as the call that fails. -/
def Struck (P : PathOramConfig) (f : Fault) (r : PathRequest C)
    (w : PathSystem D (TreeOramServerStorage C)) : Prop :=
  (r.runFaulty P f w).2.server.2 = none

/-- What the request leaves behind. -/
def afterFault (P : PathOramConfig) (f : Fault) (r : PathRequest C)
    (w : PathSystem D (TreeOramServerStorage C)) : PathSystem D (TreeOramServerStorage C) :=
  ⟨(r.runFaulty P f w).2.client, (r.runFaulty P f w).2.server.1⟩

/-- The failure is reported, and every real block is still there, with the data
that the request writes or the one it had, where a later access finds it. -/
structure FailsSafely (P : PathOramConfig) (f : Fault) (r : PathRequest C)
    (w : PathSystem D (TreeOramServerStorage C)) : Prop where
  reported : ∃ code, outcomeCode (r.runFaulty P f w).1 = some code ∧ code ≠ .kOK
  kept : ∀ b ∈ w.contents P, ∃ b',
    (b' = b ∨ r.op = .kWrite ∧ b.id = r.address ∧ b' = b.store r.buffer) ∧
      (r.afterFault P f w).Findable P b'

/-- The condition on the request, the state and the fault. Of the calls of an
access, `0` to `tree_level_` are the reads, from the root on, and the others the
writes, from the leaf on. -/
def FaultHarmless (P : PathOramConfig) (f : Fault) (r : PathRequest C)
    (w : PathSystem D (TreeOramServerStorage C)) : Prop :=
  if f.call ≤ P.treeLevel then
    ∀ l ≤ P.treeLevel,
      ∀ b ∈ w.server.normalAt (pathTag P.treeLevel (w.client.positionMap.index r.address) l),
        f.call ≤ l ∧ (b.id = r.address →
          pathTag P.treeLevel (r.draws.position % P.numberOfLeafs) l =
            pathTag P.treeLevel (w.client.positionMap.index r.address) l)
  else
    (r.op = .kWrite ∨ P.standalone = true) ∧
      (P.bucketSize = 0 ∨
        onPath (w.client.positionMap.set r.address (r.draws.position % P.numberOfLeafs))
            (w.client.positionMap.index r.address)
            (w.client.stash ++
              pathBlocks P.treeLevel (w.client.positionMap.index r.address) w.server) ≤
          (f.call - (P.treeLevel + 1)) * P.bucketSize)

/-- After a fault that is harmless every block is found, under its id. -/
theorem FailsSafely.found {r : PathRequest C} {w : PathSystem D (TreeOramServerStorage C)}
    (h : r.FailsSafely P f w) {b : OramBlock D} (hb : b ∈ w.contents P) :
    ∃ b', b'.id = b.id ∧ (r.afterFault P f w).Findable P b' := by
  obtain ⟨b', rfl | ⟨-, -, rfl⟩, hfindable⟩ := h.kept b hb
  · exact ⟨b', rfl, hfindable⟩
  · exact ⟨b.store r.buffer, rfl, hfindable⟩

end PathRequest

namespace PathOramController

/-- A real block is in one bucket only. -/
theorem tag_unique {free : Tag → Prop} {w : PathSystem D (TreeOramServerStorage C)}
    (hw : w.Settled P free) {t t' : Tag} (ht : t ∈ treeTags P.treeLevel)
    (ht' : t' ∈ treeTags P.treeLevel) {b b' : OramBlock D} (hb : b ∈ w.server.normalAt t)
    (hb' : b' ∈ w.server.normalAt t') (hid : b.id = b'.id) : t = t' := by
  by_contra hne
  have hunique : UniqueKeys OramBlock.id (treeBlocks P.treeLevel w.server) :=
    (hw.contents_eq ▸ hw.unique).right
  rw [treeBlocks, ← Finset.add_sum_erase _ _ ht] at hunique
  refine hunique.ne_of_mem (Multiset.mem_coe.mpr hb) ?_ hid
  exact Multiset.mem_sum.mpr ⟨t', Finset.mem_erase.mpr ⟨Ne.symm hne, ht'⟩, Multiset.mem_coe.mpr hb'⟩

/-- What can be found is in the bag. -/
theorem Findable.mem_contents {w : PathSystem D (TreeOramServerStorage C)} (hw : w.Inv P)
    {b : OramBlock D} (hb : w.Findable P b) : b ∈ w.contents P := by
  refine (mem_contents_iff hw).mpr (hb.imp id fun hb => ?_)
  obtain ⟨t, ht, hb⟩ := mem_pathBlocks.mp hb
  obtain ⟨hl, ho⟩ := mem_pathTags.mp ht
  refine ⟨t, mem_treeTags.mpr ⟨hl, ?_⟩, hb⟩
  rw [← ho]
  exact pathTag_lt (hw.position_lt b.id) hl

/-- A read fails. What is found afterwards is the stash, and what the reads before
it have not emptied. -/
theorem runFaulty_read {w : PathSystem D (TreeOramServerStorage C)} (hw : w.Inv P)
    (hinit : w.client.isInitialized = true) {r : PathRequest C} (hop : r.op ≠ .kInvalid)
    (hf : f.tookEffect = false) (hk : f.call ≤ P.treeLevel) :
    ∃ st : OramStatus, (r.runFaulty P f w).1 = .error (.status st) ∧
      st.errorCode = .kServerError ∧
      ∀ b, (r.afterFault P f w).Findable P b ↔ b ∈ w.client.stash ∨
        ∃ t ∈ pathTags P.treeLevel ((w.client.positionMap.set r.address
            (r.draws.position % P.numberOfLeafs)).index b.id),
          b ∈ w.server.normalAt t ∧ ¬(t.1 < f.call ∧
            t = pathTag P.treeLevel (w.client.positionMap.index r.address) t.1) := by
  let x := w.client.positionMap.index r.address
  let y := r.draws.position % P.numberOfLeafs
  let w₀ : PathSystem D (TreeOramServerStorage C) := remap r.address y w
  have hx : x < P.numberOfLeafs := hw.position_lt _
  have hlevels : ∀ l ∈ List.range (P.treeLevel + 1), l ≤ P.treeLevel :=
    fun l hl => Nat.lt_succ_iff.mp (List.mem_range.mp hl)
  obtain ⟨st, hread, hcode⟩ := readLevels_now hx hf (List.range (P.treeLevel + 1)) w₀ f.call
    hw.intact hlevels (by rw [List.length_range]; omega)
  have htake : (List.range (P.treeLevel + 1)).take f.call = List.range f.call := by
    rw [List.take_range, Nat.min_eq_left (by omega)]
  rw [htake] at hread
  obtain ⟨n, server, hplain, -, hblocks, -⟩ := readLevels_spec hx (List.range f.call) w₀ hw.intact
    List.nodup_range fun l hl => (Nat.le_of_lt (List.mem_range.mp hl)).trans hk
  rw [hplain] at hread
  have hrun : r.runFaulty P f w = (.error (.status st),
      PathSystem.withFault ⟨{ w₀.client with networkCommunication := n }, server⟩ none) := by
    rw [PathRequest.runFaulty, access_direct (w := w.withFault (some f.call)) hinit hop]
    exact Prog.bind_error hread
  have hafter : r.afterFault P f w =
      ⟨{ w₀.client with networkCommunication := n }, server⟩ := by
    rw [PathRequest.afterFault, hrun]
    rfl
  have hemptied : ∀ t, t ∈ (List.range f.call).map (pathTag P.treeLevel x) ↔
      t.1 < f.call ∧ t = pathTag P.treeLevel x t.1 := by
    intro t
    rw [List.mem_map]
    constructor
    · rintro ⟨l, hl, rfl⟩
      exact ⟨List.mem_range.mp hl, rfl⟩
    · rintro ⟨hl, ht⟩
      exact ⟨t.1, List.mem_range.mpr hl, ht.symm⟩
  refine ⟨st, by rw [hrun], hcode, fun b => ?_⟩
  rw [hafter, Findable, mem_pathBlocks]
  refine or_congr Iff.rfl (exists_congr fun t => and_congr Iff.rfl ?_)
  rw [mem_normalAt, mem_normalAt, hblocks, ← hemptied]
  by_cases ht : t ∈ (List.range f.call).map (pathTag P.treeLevel x)
  · simp [ht]
  · rw [if_neg ht]
    exact ⟨fun h => ⟨h, ht⟩, And.left⟩

/-- What was read before the read that fails is lost, and so is, for later
accesses, the block of the access, unless it is on its new path too. -/
theorem failsSafely_read {w : PathSystem D (TreeOramServerStorage C)} (hw : w.Inv P)
    (hinit : w.client.isInitialized = true) {r : PathRequest C} (hop : r.op ≠ .kInvalid)
    (hf : f.tookEffect = false) (hk : f.call ≤ P.treeLevel) :
    r.FailsSafely P f w ↔ r.FaultHarmless P f w := by
  let x := w.client.positionMap.index r.address
  have hx : x < P.numberOfLeafs := hw.position_lt _
  obtain ⟨st, hrun, hcode, hfound⟩ := runFaulty_read hw hinit hop hf hk
  have hunique : UniqueKeys OramBlock.id ((w.client.stash : Multiset (OramBlock D)) +
      treeBlocks P.treeLevel w.server) := hw.contents_eq ▸ hw.unique
  rw [PathRequest.FaultHarmless, if_pos hk]
  constructor
  · intro h l hl b hb
    have ht : pathTag P.treeLevel x l ∈ treeTags P.treeLevel := pathTag_mem hx hl
    have htree := mem_treeBlocks.mpr ⟨_, ht, hb⟩
    obtain ⟨b', hid, hfind⟩ := h.found ((mem_contents_iff hw).mpr (.inr ⟨_, ht, hb⟩))
    rcases (hfound b').mp hfind with hstash | ⟨t, htag, hnormal, hleft⟩
    · exact absurd hid (hunique.ne_of_mem (Multiset.mem_coe.mpr hstash) htree)
    · have ht' : t ∈ treeTags P.treeLevel := by
        obtain ⟨htl, hto⟩ := mem_pathTags.mp htag
        refine mem_treeTags.mpr ⟨htl, ?_⟩
        rw [← hto]
        exact pathTag_lt ((settled_remap r.address hw (Nat.mod_lt _ (Nat.two_pow_pos _))).position_lt
          b'.id) htl
      obtain rfl := tag_unique hw ht' ht hnormal hb hid
      refine ⟨Nat.not_lt.mp fun hlt => hleft ⟨hlt, rfl⟩, fun haddr => ?_⟩
      rw [hid, haddr, PositionMap.index_set_self] at htag
      exact Prod.ext rfl (mem_pathTags.mp htag).2
  · intro h
    refine ⟨?_, fun b hb => ⟨b, .inl rfl, (hfound b).mpr ?_⟩⟩
    · rw [hrun]
      exact ⟨st.errorCode, rfl, by rw [hcode]; exact nofun⟩
    · refine ((mem_contents_iff hw).mp hb).imp id ?_
      rintro ⟨t, ht, hnormal⟩
      obtain ⟨hl, -⟩ := mem_treeTags.mp ht
      have hpos := hw.on_path t ht not_false b hnormal
      by_cases hpath : t = pathTag P.treeLevel x t.1
      · have hnormal' := hnormal
        rw [hpath] at hnormal'
        obtain ⟨hlevel, hnew⟩ := h t.1 hl b hnormal'
        refine ⟨t, mem_pathTags.mpr ⟨hl, ?_⟩, hnormal, fun hlost => Nat.not_lt.mpr hlevel hlost.1⟩
        by_cases haddr : b.id = r.address
        · rw [haddr, PositionMap.index_set_self]
          exact (congrArg Prod.snd (hnew haddr)).trans (congrArg Prod.snd hpath).symm
        · rw [PositionMap.index_set_ne _ _ haddr]
          exact hpos
      · have haddr : b.id ≠ r.address := by
          intro haddr
          rw [haddr] at hpos
          exact hpath (Prod.ext rfl hpos.symm)
        refine ⟨t, mem_pathTags.mpr ⟨hl, ?_⟩, hnormal, fun hlost => hpath hlost.2⟩
        rw [PositionMap.index_set_ne _ _ haddr]
        exact hpos

/-- A write fails. The blocks for its bucket leave the stash and do not arrive. -/
theorem runFaulty_write {w : PathSystem D (TreeOramServerStorage C)} (hw : w.Inv P)
    (hinit : w.client.isInitialized = true) {r : PathRequest C} (hop : r.op ≠ .kInvalid)
    (hpad : ∀ l j, (r.draws.pad l j).isNormal = false)
    (hf : f.tookEffect = false) (hk : P.treeLevel < f.call) (hstruck : r.Struck P f w) :
    ∃ (st : OramStatus) (lost : List (OramBlock D)) (v : PathSystem D (TreeOramServerStorage C)),
      r.runFaulty P f w = (.error (.status st), v.withFault none) ∧
      st.errorCode = .kServerError ∧ v.Inv P ∧
      (lost : Multiset (OramBlock D)) + v.contents P =
        accessed P r.op r.address r.buffer (w.contents P) ∧
      UniqueKeys OramBlock.id ((lost : Multiset (OramBlock D)) + v.contents P) ∧
      (r.op = .kWrite ∨ P.standalone = true → lost.length = min P.bucketSize
        (onPath (w.client.positionMap.set r.address (r.draws.position % P.numberOfLeafs))
            (w.client.positionMap.index r.address)
            (w.client.stash ++
              pathBlocks P.treeLevel (w.client.positionMap.index r.address) w.server) -
          (f.call - (P.treeLevel + 1)) * P.bucketSize)) ∧
      ∃ block ∈ w.contents P, block.id = r.address := by
  let x := w.client.positionMap.index r.address
  let y := r.draws.position % P.numberOfLeafs
  let w₀ : PathSystem D (TreeOramServerStorage C) := remap r.address y w
  obtain ⟨j, hj⟩ := Nat.exists_eq_add_of_le hk
  have hx : x < P.numberOfLeafs := hw.position_lt _
  have hw₀ : w₀.Settled P (· ∈ pathTags P.treeLevel x) :=
    settled_remap r.address hw (Nat.mod_lt _ (Nat.two_pow_pos _))
  obtain ⟨path, w₁, w₂, hread, hmerge, habs⟩ := absorb_spec hx hw₀
  have hread' := readLevels_later (f := f) hx (List.range (P.treeLevel + 1)) w₀ j hw.intact
    fun l hl => Nat.lt_succ_iff.mp (List.mem_range.mp hl)
  rw [hread, List.length_range, ← hj] at hread'
  have hmerge' : update (ε := Exit) (fun c => { c with stash := mergePath c.stash path })
      (w₁.withFault (some j)) = (.ok (), w₂.withFault (some j)) := by
    cases hmerge
    rfl
  have hrun : ∀ found, w₂.client.stash.find? (blockEqual r.address) = found →
      r.runFaulty P f w = found.elim
        (fail .kObjectNotFound s!"Failed to find the block {r.address} in the stash!"
          "InternalAccessDirect")
        (fun block => do
          let out ← updateBlock P r.op r.address r.buffer block
          writeLevels (faultyTreeStub C P f) P x r.draws (P.treeLevel + 1)
          pure out) (w₂.withFault (some j)) := by
    intro found hfind
    have hstash : (w₂.withFault (some j)).client.stash.find? (blockEqual r.address) = found := hfind
    rw [PathRequest.runFaulty, access_direct (w := w.withFault (some f.call)) hinit hop]
    refine (Prog.bind_ok hread').trans ?_
    rw [if_neg Bool.false_ne_true, Prog.bind_ok hmerge', Prog.get_bind]
    simp only [hstash]
    cases found <;> rfl
  cases hfind : w₂.client.stash.find? (blockEqual r.address) with
  | none =>
    rw [PathRequest.Struck, hrun _ hfind] at hstruck
    cases hstruck
  | some block =>
    replace hrun := hrun _ hfind
    obtain ⟨w₃, hupd, hw₃, hserver₃, -, hcont₃, -⟩ :=
      updateBlock_spec r.op r.buffer (habs.inv hw₀) hfind
    have hbag : w₃.contents P = accessed P r.op r.address r.buffer (w.contents P) := by
      rw [hcont₃, habs.contents_eq]
      rfl
    have hblock : block ∈ w.contents P ∧ block.id = r.address := by
      refine ⟨?_, (blockEqual_iff.mp (List.find?_some hfind)).1⟩
      have hmem := (mem_contents_iff (habs.inv hw₀)).mpr (.inl (List.mem_of_find?_eq_some hfind))
      rw [habs.contents_eq] at hmem
      exact hmem
    have hempty : ∀ l < P.treeLevel + 1, w₃.server.normalAt (pathTag P.treeLevel x l) = [] := by
      intro l hl
      rw [hserver₃, habs.normalAt_eq, if_pos]
      exact List.mem_map.mpr ⟨l, List.mem_range.mpr hl, rfl⟩
    have hwrites := hrun.trans (Prog.bind_ok (updateBlock_withFault hupd (some j)))
    by_cases hlate : P.treeLevel + 1 ≤ j
    · -- the fault would come after the last write
      obtain ⟨i, hi⟩ := Nat.exists_eq_add_of_le hlate
      obtain ⟨v, hv⟩ := writeLevels_later (f := f) hx hpad (P.treeLevel + 1) i w₃ le_rfl hw₃ hempty
      rw [← hi] at hv
      rw [PathRequest.Struck, hwrites, Prog.bind_ok hv] at hstruck
      cases hstruck
    · obtain ⟨st, lost, v, hstop, hcode, hv, hcont, -, hlen⟩ :=
        writeLevels_now hx hpad hf (P.treeLevel + 1) j w₃ (Nat.not_le.mp hlate) le_rfl hw₃ hempty
      refine ⟨st, lost, v, hwrites.trans (Prog.bind_error hstop), hcode, hv, hbag ▸ hcont,
        hcont ▸ hw₃.unique, fun hkeep => ?_, block, hblock⟩
      rw [hlen, onPath_updateBlock hupd hkeep, habs.position_eq, habs.stash_eq, hj,
        Nat.add_sub_cancel_left]
      rfl

/-- What was chosen for the bucket of the write that fails is lost, and what an
embedded read has taken out is not given back. -/
theorem failsSafely_write {w : PathSystem D (TreeOramServerStorage C)} (hw : w.Inv P)
    (hinit : w.client.isInitialized = true) {r : PathRequest C} (hop : r.op ≠ .kInvalid)
    (hpad : ∀ l j, (r.draws.pad l j).isNormal = false)
    (hf : f.tookEffect = false) (hk : P.treeLevel < f.call) (hstruck : r.Struck P f w) :
    r.FailsSafely P f w ↔ r.FaultHarmless P f w := by
  obtain ⟨st, lost, v, hrun, hcode, hv, hbag, hsplit, hselected, block, hblock⟩ :=
    runFaulty_write hw hinit hop hpad hf hk hstruck
  have hafter : r.afterFault P f w = v := by
    rw [PathRequest.afterFault, hrun]
    rfl
  rw [PathRequest.FaultHarmless, if_neg (Nat.not_le.mpr hk)]
  constructor
  · intro h
    have hkeep : r.op = .kWrite ∨ P.standalone = true := by
      by_contra hboth
      obtain ⟨hread, hembedded⟩ := not_or.mp hboth
      obtain ⟨b', hb', hfindable⟩ := h.kept block hblock.1
      obtain rfl : b' = block := hb'.resolve_right fun hwrite => hread hwrite.1
      rw [hafter] at hfindable
      have hmem : b' ∈ accessed P r.op r.address r.buffer (w.contents P) :=
        hbag ▸ Multiset.mem_add.mpr (.inr (Findable.mem_contents hv hfindable))
      rw [accessed, if_neg hread, if_pos (Bool.not_eq_true _ ▸ hembedded)] at hmem
      exact (mem_dropKey.mp hmem).2 hblock.2
    refine ⟨hkeep, by_contra fun hnot => ?_⟩
    obtain ⟨hsize, hmany⟩ := not_or.mp hnot
    have hpos : 0 < lost.length := by
      rw [hselected hkeep]
      exact Nat.lt_min.mpr
        ⟨Nat.pos_of_ne_zero hsize, Nat.sub_pos_of_lt (Nat.not_le.mp hmany)⟩
    obtain ⟨c, hc⟩ := List.exists_mem_of_length_pos hpos
    have hmem : c ∈ accessed P r.op r.address r.buffer (w.contents P) :=
      hbag ▸ Multiset.mem_add.mpr (.inl (Multiset.mem_coe.mpr hc))
    obtain ⟨b, hb, hid⟩ := id_mem_of_mem_accessed hmem
    obtain ⟨b', hid', hfindable⟩ := h.found hb
    rw [hafter] at hfindable
    exact hsplit.ne_of_mem (Multiset.mem_coe.mpr hc) (Findable.mem_contents hv hfindable)
      (hid.symm.trans hid'.symm)
  · rintro ⟨hkeep, hfew⟩
    have hnone : lost = [] := by
      rw [← List.length_eq_zero_iff, hselected hkeep]
      rcases hfew with hzero | hfew
      · rw [hzero, Nat.zero_min]
      · rw [Nat.sub_eq_zero_of_le hfew, Nat.min_zero]
    rw [hnone, Multiset.coe_nil, zero_add] at hbag
    refine ⟨?_, fun b hb => ?_⟩
    · rw [hrun]
      exact ⟨st.errorCode, rfl, by rw [hcode]; decide⟩
    · rw [hafter]
      by_cases hwrite : r.op = .kWrite
      · refine ⟨if b.id = r.address then b.store r.buffer else b, ?_, mem_stash_or_path hv ?_⟩
        · split
          next hid => exact .inr ⟨hwrite, hid, rfl⟩
          next => exact .inl rfl
        · rw [hbag, accessed, if_pos hwrite]
          exact Multiset.mem_map_of_mem
            (fun b => if b.id = r.address then b.store r.buffer else b) hb
      · refine ⟨b, .inl rfl, mem_stash_or_path hv ?_⟩
        rw [hbag, accessed, if_neg hwrite, if_neg]
        · exact hb
        · rw [hkeep.resolve_left hwrite]
          exact Bool.noConfusion

end PathOramController

/-! ## Every reachable state

The condition is asked of the state before the call, which the run lemma of `PathMemory`
describes; so it is exact in every state that a client can get to. -/

/-- An access, direct or dummy or real, whose padding does not pose as real. -/
def PathAction.Tame : PathAction C → Prop
  | fill _ _ => False
  | call c => ∀ l j, (c.draws.pad l j).isNormal = false
  | dummy _ _ _ _ => True

/-- What a process survives of an access keeps the invariant. -/
theorem PathAction.inv_of_survive {action : PathAction C} (htame : action.Tame)
    {w w' : PathSystem D (TreeOramServerStorage C)} (hw : w.Inv P)
    (hinit : w.client.isInitialized = true) {r : Except Exit Unit}
    (hrun : Prog.survive Exit.fatal (action.run P) w = some (r, w')) :
    w'.Inv P ∧ w'.client.isInitialized = true := by
  obtain ⟨hrun, hfatal⟩ := Prog.eq_of_survive hrun
  cases action with
  | fill data draws => exact htame.elim
  | call c =>
    -- seen from here, the blocks of the system are those that were loaded
    have hloaded : loadedBlocks (w.contents P).toList = w.contents P := by
      rw [loadedBlocks, filter_isNormal_of_forall, Multiset.coe_toList]
      intro b hb
      exact isNormal_of_mem_contents (Multiset.mem_toList.mp hb)
    have htracks : w.Tracks P (w.contents P).toList
        ([] : List (PathCall C × Except Exit (OramBlock D))) := by
      refine ⟨hw, hinit, ?_⟩
      rw [storedIds, hloaded]
      refine (Multiset.filter_eq_self.mpr fun a _ hcalled => ?_).symm
      obtain ⟨p, hp, -⟩ := hcalled
      exact absurd hp List.not_mem_nil
    rw [PathAction.run, Prog.bind_apply] at hrun
    cases hcall : c.run P w with
    | mk q w₁ =>
      rw [hcall] at hrun
      cases q with
      | ok out =>
        cases hrun
        have hafter := PathCall.run_tracks htame htracks (Prog.survive_ok hcall)
        exact ⟨hafter.inv, hafter.initialized⟩
      | error e =>
        cases hrun
        have hafter := PathCall.run_tracks htame htracks
          (Prog.survive_error hcall (hfatal e rfl))
        exact ⟨hafter.inv, hafter.initialized⟩
  | dummy op a buffer draws =>
    rw [PathAction.run] at hrun
    by_cases hop : op = .kInvalid
    · have habort : internalAccess (OramService.stub C P.id) P op a buffer draws true w =
          (.error (.abort "Invalid operation."), w) := by
        rw [internalAccess, Prog.get_bind, hinit, if_neg Bool.false_ne_true.symm, if_pos hop]
        rfl
      rw [Prog.bind_error habort] at hrun
      cases hrun
      exact ⟨hw, hinit⟩
    · obtain ⟨w₁, hdummy, hw₁, hinit₁, -⟩ :=
        internalAccess_dummy_inv a buffer draws hw hinit hop
      rw [Prog.bind_ok hdummy] at hrun
      cases hrun
      exact ⟨hw₁, hinit₁⟩

/-- **When a failed call loses no block.** In every state that a loaded Path ORAM
reaches by accesses of any kind, and for every call of a further real access:
the access fails safely exactly if the fault is harmless. -/
theorem pathOram_fails_safely_iff {data : List (OramBlock D)} {fill : FillDraws C}
    {w₀ : PathSystem D (TreeOramServerStorage C)}
    (hfill : fillWithData (OramService.stub C P.id) P data fill (PathSystem.init C P) = (.ok (), w₀))
    (hlen : data.length ≤ P.capacity) (hids : UniqueKeys OramBlock.id (loadedBlocks data))
    (hpad : ∀ t i, (fill.pad t i).isNormal = false)
    {actions : List (PathAction C)} (htame : ∀ action ∈ actions, action.Tame)
    {outcomes : List (Except Exit Unit)} {w : PathSystem D (TreeOramServerStorage C)}
    (hrun : Prog.trace Exit.fatal (PathAction.run P) actions w₀ = some (outcomes, w))
    {r : PathRequest C} (hr : ∀ l j, (r.draws.pad l j).isNormal = false)
    (hf : f.tookEffect = false) (hstruck : r.Struck P f w) :
    r.FailsSafely P f w ↔ r.FaultHarmless P f w := by
  have hstart := holds_of_fillWithData hfill hlen hids hpad
  obtain ⟨hw, hinit⟩ := Prog.trace_history Exit.fatal
    (fun (action : PathAction C) (_ : PathSystem D (TreeOramServerStorage C)) => action.Tame)
    (fun _ w => w.Inv P ∧ w.client.isInitialized = true)
    (fun _ action w q w' hc hw hstep => action.inv_of_survive hc hw.1 hw.2 hstep)
    [] ⟨hstart.inv, hstart.initialized⟩ (Prog.Along.of_forall (fun c hc _ => htame c hc) w₀) hrun
  by_cases hop : r.op = .kInvalid
  · -- no call is made, so none can fail
    have hstop : r.runFaulty P f w =
        (.error (.abort "Invalid operation."), w.withFault (some f.call)) := by
      rw [PathRequest.runFaulty, access_eq (w := w.withFault (some f.call)) hinit, internalAccess,
        Prog.get_bind, show (w.withFault (some f.call)).client.isInitialized = true from hinit,
        if_neg Bool.false_ne_true.symm, if_pos hop]
      rfl
    rw [PathRequest.Struck, hstop] at hstruck
    cases hstruck
  · rcases Nat.lt_or_ge P.treeLevel f.call with hwrite | hread
    · exact failsSafely_write hw hinit hop hr hf hwrite hstruck
    · exact failsSafely_read hw hinit hop hf hread

/-- A fault that hits call `k`, before the server has seen it. -/
def lostCall (k : ℕ) : Fault := ⟨k, false, "Deadline Exceeded"⟩

theorem smallSystem_fill : fillWithData (OramService.stub _ 0) smallTree
    [smallBlock 3 30, smallBlock 5 50] smallFill (PathSystem.init _ smallTree) =
      (.ok (), smallSystem) := by
  have hlen : [smallBlock 3 30, smallBlock 5 50].length ≤ smallTree.capacity := by decide
  obtain ⟨w, hfill, -⟩ := fillWithData_spec smallFill_pad hlen (by decide)
  have hw : w = smallSystem := (congrArg Prod.snd hfill).symm
  exact hw ▸ hfill

/-- A read of address 3 that draws the position the block has. -/
def sameLeafRead : PathRequest (Codec.plain ℕ) :=
  ⟨.kRead, 3, dummyBlock, { smallDraws with position := 0 }⟩

/-- The first read fails while the block of the access is drawn a new position on
the same path. -/
theorem pathOram_fails_safely_iff_small :
    sameLeafRead.FailsSafely smallTree (lostCall 0) smallSystem := by
  have hrun : Prog.trace Exit.fatal (PathAction.run smallTree) [] smallSystem =
      some ([], smallSystem) := rfl
  have hstruck : sameLeafRead.Struck smallTree (lostCall 0) smallSystem := by
    rw [PathRequest.Struck]
    decide +kernel
  have hharmless : sameLeafRead.FaultHarmless smallTree (lostCall 0) smallSystem := by
    have hposition : smallSystem.client.positionMap.index sameLeafRead.address = 0 := by
      decide +kernel
    have hfirst : (lostCall 0).call ≤ smallTree.treeLevel := Nat.zero_le _
    rw [PathRequest.FaultHarmless, if_pos hfirst]
    intro l _ b _
    rw [hposition]
    exact ⟨Nat.zero_le l, fun _ => rfl⟩
  have hpad : ∀ l j, (sameLeafRead.draws.pad l j).isNormal = false := fun _ _ => rfl
  exact (pathOram_fails_safely_iff (P := smallTree) smallSystem_fill (by decide) (by decide)
    smallFill_pad (fun _ h => absurd h List.not_mem_nil) hrun hpad (f := lostCall 0) rfl
    hstruck).mpr hharmless

/-- The first read fails, and the block of the access has been remapped to the
other leaf: nothing has been read, and the next access does not find the block. -/
theorem path_failed_read_loses_block :
    fillWithData (OramService.stub _ 0) smallTree [smallBlock 3 30, smallBlock 5 50] smallFill
        (PathSystem.init _ smallTree) = (.ok (), smallSystem) ∧
      PathRequest.Struck smallTree (lostCall 0) ⟨.kRead, 3, dummyBlock, smallDraws⟩ smallSystem ∧
      outcomeCode (PathRequest.run smallTree ⟨.kRead, 3, dummyBlock, smallDraws⟩
        (PathRequest.afterFault smallTree (lostCall 0) ⟨.kRead, 3, dummyBlock, smallDraws⟩
          smallSystem)).1 = some .kObjectNotFound ∧
      ¬PathRequest.FailsSafely smallTree (lostCall 0) ⟨.kRead, 3, dummyBlock, smallDraws⟩
        smallSystem := by
  refine ⟨smallSystem_fill, ?_, by decide +kernel, fun h => ?_⟩
  · rw [PathRequest.Struck]
    decide +kernel
  · have hmem : smallBlock 3 30 ∈ smallSystem.contents smallTree := by decide +kernel
    obtain ⟨b', hb', hfind⟩ := h.kept _ hmem
    obtain rfl : b' = smallBlock 3 30 := hb'.resolve_right fun hwrite => nomatch hwrite.1
    revert hfind
    rw [Findable]
    decide +kernel

end ObliviousRam
