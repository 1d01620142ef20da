import ObliviousRam.LinearReplay
import ObliviousRam.PathOutages

set_option autoImplicit false

/-!
# A Path ORAM on a server that replays

A server that can only replay may answer a `ReadPath` with the blocks of another
bucket, with outdated ones, with a block twice, or with nothing. What is real
among them goes to the stash, where a block is looked up by its id: so a read
finds a block of the address that some load or write has made, or fails.
-/

namespace ObliviousRam

variable {D σ : Type} {C : Codec D} {P : PathOramConfig}

/-- The stub of a server that can only replay. -/
structure TreeStub.Replays (knows : σ → C.Sealed → Prop) (S : TreeStub C σ) : Prop where
  read : ∀ path level,
    (S.readPath path level).Replays knows (fun _ => False) fun response c => c ∈ response
  write : ∀ request, (S.writePath request).Replays knows (· ∈ request.bucket) fun _ _ => False

/-- A connection that fails delivers no blocks of its own. -/
theorem TreeStub.Replays.relayed {knows : σ → C.Sealed → Prop} {S : TreeStub C σ}
    (h : S.Replays knows) : S.relayed.Replays fun s => knows s.1 :=
  ⟨fun path level => (h.read path level).relay, fun request => (h.write request).relay⟩

/-- A status that is not looked at. -/
theorem yields_ignoreStatus {α : Type} {I : σ → Prop} {default : α} {m : Prog Exit σ α}
    {R : α → Prop} (hm : m.Yields I R) (hdefault : R default) :
    (ignoreStatus default m).Yields I R := by
  constructor
  · intro s a s' hs hrun
    rw [ignoreStatus] at hrun
    split at hrun
    next h =>
      cases hrun
      exact ⟨hm.error hs h, hdefault⟩
    next => exact hm.ok hs hrun
  · intro s e s' hs hrun
    rw [ignoreStatus] at hrun
    split at hrun
    · cases hrun
    · exact hm.error hs hrun

/-! ## The server of the repository

The theorem is about any server that replays. That of the repository is one: it delivers
what is in its buckets, and in its buckets is what it was sent. -/

namespace TreeOramServerStorage

/-- One of these strings decompresses to the word. -/
def Packs (d : List (Option C.Packed)) (c : C.Sealed) : Prop :=
  ∃ p, some p ∈ d ∧ C.dataDecompress p = .ok c

/-- The word is in some bucket. -/
def Holds (s : TreeOramServerStorage C) (c : C.Sealed) : Prop :=
  ∃ t d, s.storage t = some d ∧ Packs d c

variable {d : List (Option C.Packed)} {c : C.Sealed}

theorem Packs.cons (p : Option C.Packed) (h : Packs d c) : Packs (p :: d) c := by
  obtain ⟨q, hq, hc⟩ := h
  exact ⟨q, List.mem_cons_of_mem _ hq, hc⟩

/-- A new tree knows nothing. -/
theorem not_holds_new (capacity : ℕ) (c : C.Sealed) : ¬(new C capacity).Holds c := by
  rintro ⟨t, d, hd, p, hp, -⟩
  simp only [new] at hd
  split at hd
  · cases hd
    exact List.not_mem_nil hp
  · cases hd

/-- A bucket is replaced. -/
theorem Holds.setBucket {s : TreeOramServerStorage C} {t : Tag} (h : (s.setBucket t d).Holds c) :
    s.Holds c ∨ Packs d c := by
  obtain ⟨t', d', hd', hc⟩ := h
  by_cases he : t' = t
  · cases (if_pos he).symm.trans hd'
    exact .inr hc
  · exact .inl ⟨t', d', (if_neg he).symm.trans hd', hc⟩

/-- Reading clears slots. -/
theorem packs_readBucket (h : Packs (readBucket d).2 c) : Packs d c := by
  induction d with
  | nil => exact h
  | cons slot ds ih =>
    have hrest : Packs (none :: (readBucket ds).2) c → Packs (slot :: ds) c := by
      rintro ⟨p, hp, hc⟩
      rcases List.mem_cons.mp hp with hp | hp
      · cases hp
      · exact (ih ⟨p, hp, hc⟩).cons slot
    cases slot with
    | none => exact hrest h
    | some q =>
      rw [readBucket] at h
      split at h
      · exact hrest h
      · exact h

/-- What is read was packed in the bucket. -/
theorem packs_of_readBucket {cs : List C.Sealed} (h : (readBucket d).1 = .ok cs) (hc : c ∈ cs) :
    Packs d c := by
  induction d generalizing cs with
  | nil =>
    cases h
    exact absurd hc List.not_mem_nil
  | cons slot ds ih =>
    cases slot with
    | none => exact (ih h hc).cons none
    | some p =>
      rw [readBucket] at h
      split at h
      next c' hc' =>
        cases hrest : (readBucket ds).1 with
        | error st =>
          rw [hrest] at h
          cases h
        | ok cs' =>
          rw [hrest] at h
          cases h
          rcases List.mem_cons.mp hc with rfl | hc
          · exact ⟨p, List.mem_cons_self, hc'⟩
          · exact (ih hrest hc).cons _
      · cases h

/-- What is packed in a bucket was sent in it. -/
theorem mem_of_packs_compressAll {cs : List C.Sealed} (h : Packs (compressAll cs).2 c) :
    c ∈ cs := by
  induction cs with
  | nil =>
    obtain ⟨p, hp, -⟩ := h
    exact absurd hp List.not_mem_nil
  | cons c' cs ih =>
    obtain ⟨p, hp, hc⟩ := h
    obtain ⟨p', hp', hback⟩ := C.decompress_compress c'
    simp only [compressAll, hp'] at hp
    rcases List.mem_cons.mp hp with hp | hp
    · cases hp
      cases hback.symm.trans hc
      exact List.mem_cons_self
    · exact List.mem_cons_of_mem _ (ih ⟨p, hp, hc⟩)

/-- A read delivers what was stored, and stores nothing. -/
theorem replays_readPath (level path : ℕ) :
    (readPath (C := C) level path).Replays Holds (fun _ => False) fun cs c => c ∈ cs := by
  constructor
  · intro s c hc
    rw [readPath] at hc
    split at hc
    · exact .inl hc
    simp only at hc
    split at hc
    · exact .inl hc
    next d hd => exact .inl (hc.setBucket.elim id fun hpacks => ⟨_, d, hd, packs_readBucket hpacks⟩)
  · intro s cs s' c hrun hc
    rw [readPath] at hrun
    split at hrun
    · cases hrun
    simp only at hrun
    split at hrun
    · cases hrun
    next d hd =>
      obtain ⟨hok, -⟩ := Prod.mk.inj hrun
      cases hread : (readBucket d).1 with
      | error st =>
        rw [hread] at hok
        cases hok
      | ok cs' =>
        rw [hread] at hok
        cases hok
        exact .inl ⟨_, d, hd, packs_of_readBucket hread hc⟩

/-- A write stores what it was sent, and no more. -/
theorem replays_accurateWritePath (level offset : ℕ) (inBucket : List C.Sealed) (type : WriteType) :
    (accurateWritePath level offset inBucket type).Replays Holds (· ∈ inBucket)
      fun _ _ => False := by
  constructor
  · intro s c hc
    have hnew : Packs (compressAll inBucket).2 c → s.Holds c ∨ c ∈ inBucket :=
      fun h => .inr (mem_of_packs_compressAll h)
    rw [accurateWritePath.eq_def] at hc
    split at hc
    · exact .inl hc
    · split at hc
      · exact .inl hc
      · exact .inl hc
    · exact .inl hc
    next d hd =>
      rcases hc.setBucket with hc | ⟨p, hp, hc⟩
      · exact .inl hc
      · rcases List.mem_append.mp hp with hp | hp
        · exact .inl ⟨_, d, hd, p, hp, hc⟩
        · exact hnew ⟨p, hp, hc⟩
    · exact hc.setBucket.elim .inl hnew
  · rintro s _ _ c _ ⟨⟩

theorem replays_writePath (level path : ℕ) (inBucket : List C.Sealed) :
    (writePath level path inBucket).Replays Holds (· ∈ inBucket) fun _ _ => False := by
  constructor
  · intro s c hc
    rw [writePath] at hc
    split at hc
    · exact .inl hc
    · exact (replays_accurateWritePath _ _ _ _).keeps hc
  · rintro s _ _ c _ ⟨⟩

end TreeOramServerStorage

open TreeOramServerStorage in
/-- The server of a Path ORAM knows its tree. -/
theorem OramService.stub_replays (id : ℕ) : (OramService.stub C id).Replays Holds := by
  refine ⟨fun path level => .mapError (replays_readPath level path), fun request =>
    .mapError ?_⟩
  split
  · exact replays_accurateWritePath _ _ _ _
  · exact replays_writePath _ _ _

/-! ## The controller

A block is *vouched* for if its value was given to its id by some call. The invariant is
that the server knows, and the client keeps, vouched blocks only; one rule per procedure
shows that it is kept. -/

/-- The call gives `a` the value `v`. -/
def PathOp.Offers (p : PathOp C) (a : ℕ) (v : D × ℕ) : Prop :=
  p.call = .write a v ∨ ∃ data draws, p = .fillWithData data draws ∧
    ∃ b ∈ data, b.isNormal = true ∧ b.id = a ∧ b.payload = v

/-- What comes out of an update is what was there, or the updated form of it. -/
theorem mem_updateFirst {α : Type} {p : α → Bool} {f : α → α} {l : List α} {b : α}
    (h : b ∈ updateFirst p f l) : b ∈ l ∨ ∃ a ∈ l, p a = true ∧ b = f a := by
  induction l with
  | nil => exact .inl h
  | cons a l ih =>
    rw [updateFirst] at h
    split at h
    next hp =>
      rcases List.mem_cons.mp h with rfl | h
      · exact .inr ⟨a, List.mem_cons_self, hp, rfl⟩
      · exact .inl (List.mem_cons_of_mem _ h)
    next =>
      rcases List.mem_cons.mp h with rfl | h
      · exact .inl List.mem_cons_self
      · rcases ih h with h | ⟨a', ha', hp⟩
        · exact .inl (List.mem_cons_of_mem _ h)
        · exact .inr ⟨a', List.mem_cons_of_mem _ ha', hp⟩

namespace PathOramController

/-- A merge makes no blocks. -/
theorem mem_foldl_mergeBlock {blocks stash : List (OramBlock D)} {b : OramBlock D}
    (h : b ∈ blocks.foldl mergeBlock stash) : b ∈ stash ∨ b ∈ blocks := by
  induction blocks generalizing stash with
  | nil => exact .inl h
  | cons b' blocks ih =>
    rcases ih h with h | h
    · rw [mergeBlock] at h
      split at h
      · rcases List.mem_append.mp h with h | h
        · exact .inl h
        · exact .inr (List.mem_singleton.mp h ▸ List.mem_cons_self)
      · exact .inl h
    · exact .inr (List.mem_cons_of_mem _ h)

/-- What is selected, and what stays behind, has been in the stash. -/
theorem mem_of_findSubset {B x : ℕ} {m : PositionMap} {stash : List (OramBlock D)}
    {b : OramBlock D}
    (h : b ∈ (findSubset B x m [] stash).1 ∨ b ∈ (findSubset B x m [] stash).2.1) :
    b ∈ stash := by
  obtain ⟨hsplit, -, -⟩ := findSubset_spec (B := B) (x := x) stash m []
  rw [Multiset.coe_nil, zero_add] at hsplit
  rw [← Multiset.mem_coe, ← hsplit]
  exact Multiset.mem_add.mpr (h.imp Multiset.mem_coe.mpr Multiset.mem_coe.mpr)

variable {knows : σ → C.Sealed → Prop} {S : TreeStub C σ} {V : ℕ → D × ℕ → Prop}

/-- All that the server knows, and all that is in the stash, has a value that was given. -/
structure Faithful (knows : σ → C.Sealed → Prop) (V : ℕ → D × ℕ → Prop)
    (w : PathSystem D σ) : Prop where
  server : Prog.Only knows (fun c => (C.decryptBlock c).2.Vouched OramBlock.payload V) w.server
  stash : ∀ b ∈ w.client.stash, b.Vouched OramBlock.payload V

/-- Padding that does not pose as data needs no one to vouch for it. -/
theorem vouched_padStash {random : ℕ → OramBlock D} (hpad : ∀ i, (random i).isNormal = false)
    {B : ℕ} {bucket : List (OramBlock D)} (hbucket : ∀ b ∈ bucket, b.Vouched OramBlock.payload V) :
    ∀ b ∈ padStash random B bucket, b.Vouched OramBlock.payload V := by
  intro b hb
  rcases List.mem_append.mp hb with hb | hb
  · exact hbucket b hb
  · obtain ⟨i, -, rfl⟩ := List.mem_map.mp hb
    intro hnormal
    cases (hpad i).symm.trans hnormal

/-- A change of the client that leaves the stash faithful. -/
theorem yields_update {f : PathOramController D → PathOramController D}
    (hf : ∀ c : PathOramController D, (∀ b ∈ c.stash, b.Vouched OramBlock.payload V) →
      ∀ b ∈ (f c).stash, b.Vouched OramBlock.payload V) :
    Prog.Yields (Faithful knows V) (update (ε := Exit) f) fun _ => True :=
  .modify fun w hw => ⟨hw.server, hf w.client hw.stash⟩

theorem yields_checkedRandom (reason : String) (value start stop : ℕ) :
    Prog.Yields (Faithful knows V) (checkedRandom reason value start stop) fun _ => True := by
  constructor
  · intro w x w' hw hrun
    rw [checkedRandom] at hrun
    split at hrun
    · cases hrun
      exact ⟨hw, trivial⟩
    · cases hrun
  · intro w e w' hw hrun
    rw [checkedRandom] at hrun
    split at hrun
    · cases hrun
    · cases hrun
      exact hw

/-- A remote call, after which the client may count blocks. -/
theorem yields_remote {α : Type} {call : Prog String σ α} {R : α → Prop}
    (hcall : call.Yields
      (Prog.Only knows fun c => (C.decryptBlock c).2.Vouched OramBlock.payload V) R)
    (f : PathOramController D → PathOramController D) (hf : ∀ c, (f c).stash = c.stash)
    (location : String) :
    Prog.Yields (Faithful knows V) (Prog.mapError
      (fun msg => Exit.status (.make .kServerError msg location))
      (Prog.zoom PathSystem.server (fun server w => ⟨f w.client, server⟩) call)) R :=
  .mapError (hcall.zoom (fun _ hw => hw.server) fun w _ hw hs =>
    ⟨hs, (hf w.client).symm ▸ hw.stash⟩)

theorem readBucket_eq (S : TreeStub C σ) (path level : ℕ) : readBucket S P path level =
    if path ≥ P.numberOfLeafs ∨ level > P.treeLevel then
      fail .kInvalidArgument "The path or the level given is not correct" "ReadBucket"
    else
      Prog.mapError (fun msg => .status (.make .kServerError msg "ReadBucket"))
        (Prog.zoom PathSystem.server (fun server w => { w with server := server })
          (S.readPath path level)) >>= fun response =>
      update (fun c => { c with
        networkCommunication := c.networkCommunication + response.length }) >>= fun _ =>
      pure (response.map fun c => (C.decryptBlock c).2) := by
  funext w
  rw [readBucket]
  split
  · rfl
  · rcases h : S.readPath path level w.server with ⟨msg | response, server⟩
    · rw [Prog.bind_error (Prog.mapError_error (Prog.zoom_eq h))]
      rfl
    · rw [Prog.bind_ok (Prog.mapError_ok (Prog.zoom_eq h))]
      rfl

/-- A bucket that is delivered has vouched blocks, in whatever order and however often. -/
theorem yields_readBucket (hS : S.Replays knows) (path level : ℕ) :
    Prog.Yields (Faithful knows V) (readBucket S P path level) fun bucket =>
      ∀ b ∈ bucket, b.Vouched OramBlock.payload V := by
  rw [readBucket_eq]
  refine .ite (fun _ => .throw _) fun _ =>
    .bind (yields_remote ((hS.read path level).yields fun c hc => hc.elim) id (fun _ => rfl) _)
      fun response hresponse => .bind (yields_update fun _ h => h) fun _ _ => .pure fun b hb => ?_
  obtain ⟨c, hc, rfl⟩ := List.mem_map.mp hb
  exact hresponse c hc

/-- What is sealed opens to what was vouched. -/
theorem vouched_sealBucket {bucket : List (OramBlock D)}
    (hbucket : ∀ b ∈ bucket, b.Vouched OramBlock.payload V) (iv : ℕ → C.Iv) :
    ∀ c ∈ sealBucket iv bucket, (C.decryptBlock c).2.Vouched OramBlock.payload V := by
  intro c hc
  obtain ⟨i, hi, rfl⟩ := List.mem_mapIdx.mp hc
  rw [C.decrypt_encrypt]
  exact hbucket _ (List.getElem_mem hi)

/-- A request makes known what it sends. -/
theorem yields_writePath (hS : S.Replays knows) (request : WritePathRequest C)
    (hbucket : ∀ c ∈ request.bucket, (C.decryptBlock c).2.Vouched OramBlock.payload V) :
    (S.writePath request).Yields
      (Prog.Only knows fun c => (C.decryptBlock c).2.Vouched OramBlock.payload V) fun _ => True :=
  ((hS.write request).yields hbucket).weaken fun _ _ => trivial

theorem writeBucket_eq (S : TreeStub C σ) (path level : ℕ) (iv : ℕ → C.Iv)
    (bucket : List (OramBlock D)) : writeBucket S path level iv bucket =
      Prog.mapError (fun msg => .status (.make .kServerError msg "WriteBucket"))
        (Prog.zoom PathSystem.server (fun server w => ⟨{ w.client with
          networkCommunication := w.client.networkCommunication + bucket.length }, server⟩)
          (S.writePath ⟨path, level, 0, .kNormal, sealBucket iv bucket⟩)) := by
  funext w
  rw [writeBucket, Prog.mapError, Prog.zoom]
  rcases S.writePath ⟨path, level, 0, .kNormal, sealBucket iv bucket⟩ w.server with
    ⟨_ | _, _⟩ <;> rfl

/-- A bucket of vouched blocks can be sent. -/
theorem yields_writeBucket (hS : S.Replays knows) (path level : ℕ) (iv : ℕ → C.Iv)
    {bucket : List (OramBlock D)} (hbucket : ∀ b ∈ bucket, b.Vouched OramBlock.payload V) :
    Prog.Yields (Faithful knows V) (writeBucket S path level iv bucket) fun _ => True := by
  rw [writeBucket_eq]
  exact yields_remote (yields_writePath hS _ (vouched_sealBucket hbucket iv)) (fun c =>
    { c with networkCommunication := c.networkCommunication + bucket.length }) (fun _ => rfl) _

theorem accurateWriteBucket_eq (S : TreeStub C σ) (level offset : ℕ) (iv : ℕ → C.Iv)
    (bucket : List (OramBlock D)) : accurateWriteBucket S level offset iv bucket =
      Prog.mapError (fun msg => .status (.make .kServerError msg "AccurateWriteBucket"))
        (Prog.zoom PathSystem.server (fun server w => { w with server := server })
          (S.writePath ⟨0, level, offset, .kInit, sealBucket iv bucket⟩)) := by
  funext w
  rw [accurateWriteBucket, Prog.mapError, Prog.zoom]
  rcases S.writePath ⟨0, level, offset, .kInit, sealBucket iv bucket⟩ w.server with
    ⟨_ | _, _⟩ <;> rfl

theorem yields_accurateWriteBucket (hS : S.Replays knows) (level offset : ℕ) (iv : ℕ → C.Iv)
    {bucket : List (OramBlock D)} (hbucket : ∀ b ∈ bucket, b.Vouched OramBlock.payload V) :
    Prog.Yields (Faithful knows V) (accurateWriteBucket S level offset iv bucket)
      fun _ => True := by
  rw [accurateWriteBucket_eq]
  exact yields_remote (yields_writePath hS _ (vouched_sealBucket hbucket iv)) id (fun _ => rfl) _

/-! ### The load -/

/-- A bucket of the load and the data behind it are vouched as the data is. -/
theorem yields_fillBucket (start stop : ℕ) (draw : ℕ → ℕ) (k : ℕ) {data : List (OramBlock D)}
    (hdata : ∀ b ∈ data, b.Vouched OramBlock.payload V) :
    Prog.Yields (Faithful knows V) (fillBucket start stop draw k data) fun r =>
      (∀ b ∈ r.1, b.Vouched OramBlock.payload V) ∧ ∀ b ∈ r.2, b.Vouched OramBlock.payload V := by
  have hnil : ∀ b ∈ ([] : List (OramBlock D)), b.Vouched OramBlock.payload V :=
    fun _ hb => absurd hb List.not_mem_nil
  induction k generalizing data with
  | zero => exact .pure ⟨hnil, hdata⟩
  | succ k ih =>
    cases data with
    | nil => exact .pure ⟨hnil, hnil⟩
    | cons b data =>
      obtain ⟨hb, hrest⟩ := List.forall_mem_cons.mp hdata
      refine .ite (fun _ => .bind (yields_checkedRandom _ _ _ _) fun _ _ =>
        .bind (yields_update fun _ h => h) fun _ _ => .bind (ih hrest) fun r hr => .pure ?_)
          fun _ => ih hrest
      exact ⟨List.forall_mem_cons.mpr ⟨hb, hr.1⟩, hr.2⟩

theorem yields_fillTree (hS : S.Replays knows) {draws : FillDraws C}
    (hpad : ∀ t i, (draws.pad t i).isNormal = false) (ts : List Tag) {data : List (OramBlock D)}
    (hdata : ∀ b ∈ data, b.Vouched OramBlock.payload V) :
    Prog.Yields (Faithful knows V) (fillTree S P draws ts data) fun _ => True := by
  induction ts generalizing data with
  | nil => exact .pure trivial
  | cons t ts ih =>
    exact .bind (yields_fillBucket _ _ _ _ hdata) fun r hr =>
      .bind (.mapError (yields_accurateWriteBucket hS _ _ _ (vouched_padStash (hpad t) hr.1)))
        fun _ _ => ih hr.2

/-- A load makes known the values that it was given. -/
theorem yields_fillWithData (hS : S.Replays knows) {draws : FillDraws C}
    (hpad : ∀ t i, (draws.pad t i).isNormal = false) {data : List (OramBlock D)}
    (hdata : ∀ b ∈ data, b.Vouched OramBlock.payload V) :
    Prog.Yields (Faithful knows V) (fillWithData S P data draws) fun _ => True :=
  .bind (yields_fillTree hS hpad _ hdata) fun _ _ => yields_update fun _ h => h

/-! ### An access -/

theorem yields_readLevels (hS : S.Replays knows) (x : ℕ) (ls : List ℕ) :
    Prog.Yields (Faithful knows V) (readLevels S P x ls) fun path =>
      ∀ b ∈ path.flatten, b.Vouched OramBlock.payload V := by
  induction ls with
  | nil => exact .pure fun _ hb => absurd hb List.not_mem_nil
  | cons l ls ih =>
    refine .bind (.mapError (yields_readBucket hS x l)) fun bucket hbucket =>
      .bind ih fun rest hrest => .pure fun b hb => ?_
    rw [List.flatten_cons, List.mem_append] at hb
    exact hb.elim (hbucket b) (hrest b)

/-- The bucket to be written comes out of the stash, padded. -/
theorem yields_findSubsetOf (x : ℕ) {random : ℕ → OramBlock D}
    (hpad : ∀ i, (random i).isNormal = false) :
    Prog.Yields (Faithful knows V) (findSubsetOf (ε := Exit) P x random) fun bucket =>
      ∀ b ∈ bucket, b.Vouched OramBlock.payload V := by
  constructor
  · rintro w _ _ hw ⟨⟩
    exact ⟨⟨hw.server, fun b hb => hw.stash b (mem_of_findSubset (.inr hb))⟩,
      vouched_padStash hpad fun b hb => hw.stash b (mem_of_findSubset (.inl hb))⟩
  · rintro w _ _ _ ⟨⟩

/-- The write-back, by induction on the levels below. -/
theorem yields_writeLevels (hS : S.Replays knows) (x : ℕ) {draws : AccessDraws C}
    (hpad : ∀ l j, (draws.pad l j).isNormal = false) (i : ℕ) :
    Prog.Yields (Faithful knows V) (writeLevels S P x draws i) fun _ => True := by
  induction i with
  | zero => exact .pure trivial
  | succ i ih =>
    exact .bind (yields_findSubsetOf x (hpad i)) fun bucket hbucket =>
      .bind (.mapError (yields_writeBucket hS x i _ hbucket)) fun _ _ => ih

/-- A write puts the value of the buffer under the address. -/
theorem yields_updateBlock {op : Operation} {address : ℕ} {buffer : OramBlock D}
    (hV : op = .kWrite → V address buffer.payload) (block : OramBlock D) :
    Prog.Yields (Faithful knows V) (updateBlock P op address buffer block) fun out =>
      out = if op = .kWrite then buffer else block := by
  refine .bind (yields_update fun _ h => h) fun _ _ => .ite (fun hop => ?_) fun hop => ?_
  · refine .bind (yields_update fun c hc b hb => ?_) fun _ _ => .pure (if_pos hop).symm
    rcases mem_updateFirst hb with hb | ⟨b', -, hequal, rfl⟩
    · exact hc b hb
    · intro _
      rw [OramBlock.store_payload, OramBlock.store_id, (blockEqual_iff.mp hequal).1]
      exact hV hop
  · have hout : block = if op = .kWrite then buffer else block := (if_neg hop).symm
    refine .ite (fun _ => .bind (yields_update fun c hc b hb => ?_) fun _ _ => .pure hout)
      fun _ => .pure hout
    exact hc b (List.mem_of_mem_eraseP hb)

/-- What an access leaves in `*data`: a read finds a block of the address. -/
def Returned (V : ℕ → D × ℕ → Prop) (op : Operation) (address : ℕ) (buffer out : OramBlock D) :
    Prop :=
  if op = .kWrite then out = buffer else blockEqual address out = true ∧ V address out.payload

/-- What a read returns comes from the stash; what a write puts there was given by the caller. -/
theorem yields_internalAccessDirect (hS : S.Replays knows) {op : Operation} {address : ℕ}
    {buffer : OramBlock D} (hV : op = .kWrite → V address buffer.payload) (x : ℕ)
    {draws : AccessDraws C} (hpad : ∀ l j, (draws.pad l j).isNormal = false) :
    Prog.Yields (Faithful knows V) (internalAccessDirect S P op address x buffer draws false)
      (Returned V op address buffer) := by
  refine .bind (yields_readLevels hS x _) fun path hpath => ?_
  refine .bind (yields_update fun c hc b hb => ?_) fun _ _ => .get_bind fun w hw => ?_
  · exact (mem_foldl_mergeBlock hb).elim (hc b) (hpath b)
  · cases hfind : w.client.stash.find? (blockEqual address) with
    | none => exact .throw _
    | some block =>
      have hequal := List.find?_some hfind
      obtain ⟨hid, hnormal⟩ := blockEqual_iff.mp hequal
      refine .bind (yields_updateBlock hV block) fun out hout =>
        .bind (yields_writeLevels hS x hpad _) fun _ _ => .pure ?_
      rw [Returned, hout]
      split
      next => rfl
      next => exact ⟨hequal, hid ▸ hw.stash block (List.mem_of_find?_eq_some hfind) hnormal⟩

/-- A dummy access only reads. -/
theorem yields_dummyAccessDirect (hS : S.Replays knows) (op : Operation) (address x : ℕ)
    (buffer : OramBlock D) (draws : AccessDraws C) :
    Prog.Yields (Faithful knows V) (internalAccessDirect S P op address x buffer draws true)
      fun _ => True :=
  .bind (yields_readLevels hS x _) fun _ _ => .pure trivial

theorem yields_internalAccess (hS : S.Replays knows) {op : Operation} {address : ℕ}
    {buffer : OramBlock D} (hV : op = .kWrite → V address buffer.payload)
    {draws : AccessDraws C} (hpad : ∀ l j, (draws.pad l j).isNormal = false) :
    Prog.Yields (Faithful knows V) (internalAccess S P op address buffer draws false)
      (Returned V op address buffer) :=
  .get_bind fun _ _ => .ite (fun _ => .throw _) fun _ => .ite (fun _ => .throw _) fun _ =>
    .bind (yields_checkedRandom _ _ _ _) fun _ _ =>
      .bind (yields_update fun _ h => h) fun _ _ => yields_internalAccessDirect hS hV _ hpad

theorem yields_access (hS : S.Replays knows) {op : Operation} {address : ℕ}
    {buffer : OramBlock D} (hV : op = .kWrite → V address buffer.payload)
    {draws : AccessDraws C} (hpad : ∀ l j, (draws.pad l j).isNormal = false) :
    Prog.Yields (Faithful knows V) (access S P op address buffer draws)
      (Returned V op address buffer) :=
  .get_bind fun _ _ => .ite (fun _ => .throw _) fun _ => yields_internalAccess hS hV hpad

/-- A dummy access makes nothing known. -/
theorem yields_dummyAccess (hS : S.Replays knows) (op : Operation) (address : ℕ)
    (buffer : OramBlock D) (draws : AccessDraws C) :
    Prog.Yields (Faithful knows V) (internalAccess S P op address buffer draws true)
      fun _ => True :=
  .get_bind fun _ _ => .ite (fun _ => .throw _) fun _ => .ite (fun _ => .throw _) fun _ =>
    .bind (yields_checkedRandom _ _ _ _) fun _ _ => yields_dummyAccessDirect hS _ _ _ _ _

end PathOramController

open PathOramController

namespace PathOp

variable {knows : σ → C.Sealed → Prop} {S : TreeStub C σ} {V : ℕ → D × ℕ → Prop}

/-- One call: it keeps to what is offered, and a read returns some of it. -/
theorem yields (hS : S.Replays knows) {p : PathOp C} (hpad : p.PadsDummy)
    (hV : ∀ a v, p.Offers a v → V a v) :
    Prog.Yields (Faithful knows V) (p.run S P) fun out => ∀ a, p.call = .read a →
      ∃ b, out = some b ∧ blockEqual a b = true ∧ V a b.payload := by
  have hreal : ∀ {op : Operation} {address : ℕ} {buffer : OramBlock D}
      {m : Prog Exit (PathSystem D σ) (OramBlock D)}, p.call = op.call address buffer →
      ((op = .kWrite → V address buffer.payload) →
        m.Yields (Faithful knows V) (Returned V op address buffer)) →
      (m >>= fun out => pure (some out)).Yields (Faithful knows V) fun out =>
        ∀ a, p.call = .read a → ∃ b, out = some b ∧ blockEqual a b = true ∧ V a b.payload := by
    intro op address buffer m hcall hm
    have hwrite : op = .kWrite → V address buffer.payload :=
      fun hop => hV _ _ (.inl (hcall.trans (if_pos hop)))
    refine .bind (hm hwrite) fun out hout => .pure fun a ha => ⟨out, rfl, ?_⟩
    rw [hcall, Operation.call] at ha
    split at ha
    · cases ha
    next hop =>
      cases ha
      rwa [Returned, if_neg hop] at hout
  cases p with
  | fillWithData data draws =>
    refine .bind (yields_fillWithData hS hpad fun b hb hnormal => ?_) fun _ _ => .pure ?_
    · exact hV _ _ (.inr ⟨data, draws, rfl, b, hb, hnormal, rfl, rfl⟩)
    · rintro a ⟨⟩
  | access op address buffer draws =>
    exact hreal rfl fun hwrite => yields_access hS hwrite hpad
  | internalAccess op address buffer draws dummy =>
    cases dummy with
    | false => exact hreal rfl fun hwrite => yields_internalAccess hS hwrite hpad
    | true =>
      refine .bind (yields_dummyAccess hS op address buffer draws) fun _ _ => .pure ?_
      rintro a ⟨⟩
  | accessDirect op address position buffer draws =>
    exact hreal rfl fun hwrite => .get_bind fun _ _ => .ite (fun _ => .throw _) fun _ =>
      yields_internalAccessDirect hS hwrite position hpad

end PathOp

/-- **A Path ORAM makes nothing up**, whatever the server replays: a read that
returns gives a block of its address, with a value that a load or a write has
given to the address. -/
theorem pathOram_authentic {knows : σ → C.Sealed → Prop} {S : TreeStub C σ}
    (hS : S.Replays knows) {s : σ} (hnew : ∀ c, ¬knows s c) {calls : List (PathOp C)}
    (hpad : ∀ call ∈ calls, call.PadsDummy) {outs : List (Except Exit (Option (OramBlock D)))}
    {w : PathSystem D σ}
    (hrun : Prog.trace Exit.fatal (PathOp.run S P) calls ⟨.new, s⟩ = some (outs, w))
    {read : PathOp C} (hreadPad : read.PadsDummy) {address : ℕ} (hcall : read.call = .read address)
    {out : Option (OramBlock D)} {w' : PathSystem D σ} (hread : read.run S P w = (.ok out, w')) :
    ∃ b, out = some b ∧ blockEqual address b = true ∧
      ∃ call ∈ calls, call.Offers address b.payload := by
  let V : ℕ → D × ℕ → Prop := fun a v => ∃ call ∈ calls, call.Offers a v
  have hstart : Faithful knows V ⟨.new, s⟩ :=
    ⟨fun c hc => absurd hc (hnew c), fun b hb => absurd hb List.not_mem_nil⟩
  have hw : Faithful knows V w := Prog.Keeps.trace (fun call hmem =>
    (PathOp.yields hS (hpad call hmem) fun a v hoffer => ⟨call, hmem, hoffer⟩).keeps) hstart hrun
  refine ((PathOp.yields (V := V) hS hreadPad fun a v hoffer => ?_).ok hw hread).2 address hcall
  -- a read offers nothing
  rcases hoffer with hwrite | ⟨data, draws, rfl, -⟩
  · cases hcall.symm.trans hwrite
  · cases hcall

/-- A load of two blocks, and a write of one of them. -/
def loadThenWrite : List (PathOp (Codec.plain ℕ)) :=
  [.fillWithData [smallBlock 3 30, smallBlock 5 50] smallFill,
    .access .kWrite 3 (smallBlock 3 31) smallDraws]

/-- The last bucket of the write reaches the server, but the answer is lost. -/
theorem pathOram_authentic_small : ∃ outs w b w',
    Prog.trace Exit.fatal (PathOp.run (OramService.stub _ smallTree.id).relayed smallTree)
      loadThenWrite smallOutage = some (outs, w) ∧
    (PathOp.access .kRead 3 dummyBlock smallDraws).run
      (OramService.stub _ smallTree.id).relayed smallTree w = (.ok (some b), w') ∧
    (b.payload = (30, 1) ∨ b.payload = (31, 1)) := by
  have hreturned : (Prog.trace Exit.fatal
      (PathOp.run (OramService.stub _ smallTree.id).relayed smallTree) loadThenWrite
      smallOutage).map (fun run => payloadOf ((PathOp.access .kRead 3 dummyBlock smallDraws).run
        (OramService.stub _ smallTree.id).relayed smallTree run.2).1) =
        some (some (some (31, 1))) := by decide +kernel
  obtain ⟨⟨outs, w⟩, hrun, hanswer⟩ := Option.map_eq_some_iff.mp hreturned
  obtain ⟨b, hb, -⟩ := ok_of_payloadOf hanswer
  have hread : (PathOp.access .kRead 3 dummyBlock smallDraws).run
      (OramService.stub _ smallTree.id).relayed smallTree w = (.ok (some b), _) := Prod.ext hb rfl
  refine ⟨outs, w, b, _, hrun, hread, ?_⟩
  have hpad : ∀ call ∈ loadThenWrite, call.PadsDummy := by
    intro call hcall
    rcases List.mem_pair.mp hcall with rfl | rfl
    · exact fun _ _ => rfl
    · exact fun _ _ => rfl
  have hreadPad : (PathOp.access .kRead 3 dummyBlock smallDraws).PadsDummy := fun _ _ => rfl
  obtain ⟨b', hb', -, call, hcall, hoffer⟩ := pathOram_authentic
    (OramService.stub_replays smallTree.id).relayed (TreeOramServerStorage.not_holds_new _)
    hpad hrun hreadPad rfl hread
  cases hb'
  rcases List.mem_pair.mp hcall with rfl | rfl
  · rcases hoffer with ⟨⟨⟩⟩ | ⟨data, draws, he, b₀, hb₀, -, hid, hpayload⟩
    cases he
    rcases List.mem_pair.mp hb₀ with rfl | rfl
    · exact .inl hpayload.symm
    · cases hid
  · rcases hoffer with hoffer | ⟨data, draws, ⟨⟩, -⟩
    exact .inr (MemoryCall.write.inj hoffer).2.symm

end ObliviousRam
