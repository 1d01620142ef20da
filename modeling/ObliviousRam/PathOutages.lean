import ObliviousRam.Contract
import ObliviousRam.FailingMemory
import ObliviousRam.PathTraffic

set_option autoImplicit false

/-!
# A Path ORAM over a connection that fails

`PathFaults` says when one failed call loses a block. Here any number of calls
fails, in any way (`Delivery`), and the question is what a read can still return.

A bucket is emptied when it is read, and a block that was read is in the hands
of the client until the path is written back. So a failed call can lose blocks,
but no block is ever held twice, and none but the one that is written changes
(`Sound`). A write that has failed has happened or not; the first read that
returns decides.
-/

namespace ObliviousRam

open PathSystem PathOramController
open TreeOramServerStorage (Intact stub_readPath stub_writePath stub_initPath)

variable {D : Type} {C : Codec D} {P : PathOramConfig}

/-- The stub over a connection that fails as the list says. -/
def TreeStub.relayed {σ : Type} (S : TreeStub C σ) : TreeStub C (σ × List Delivery) where
  readPath path level := Delivery.relay (S.readPath path level)
  writePath request := Delivery.relay (S.writePath request)

/-- A client and its tree, with a connection in between. -/
abbrev Outage (C : Codec D) : Type := PathSystem D (TreeOramServerStorage C × List Delivery)

/-- The system without the connection. -/
def PathSystem.connected (w : Outage C) : PathSystem D (TreeOramServerStorage C) :=
  ⟨w.client, w.server.1⟩

/-- What is stored and what is in hand: no address twice, and every block has a
payload that its address can have. -/
structure Sound (P : PathOramConfig) (V : ℕ → D × ℕ → Prop) (hand : Multiset (OramBlock D))
    (w : Outage C) : Prop where
  intact : Intact P.treeLevel w.server.1
  stash_normal : ∀ b ∈ w.client.stash, b.isNormal = true
  unique : UniqueKeys OramBlock.id (hand + w.connected.contents P)
  value : ∀ b ∈ hand + w.connected.contents P, V b.id b.payload

variable {V V' : ℕ → D × ℕ → Prop} {hand hand' : Multiset (OramBlock D)}

/-- Blocks may get lost. -/
theorem Sound.of_le {w w' : Outage C} (hw : Sound P V hand w)
    (hintact : Intact P.treeLevel w'.server.1) (hstash : ∀ b ∈ w'.client.stash, b.isNormal = true)
    (hle : hand' + w'.connected.contents P ≤ hand + w.connected.contents P) :
    Sound P V hand' w' :=
  ⟨hintact, hstash, hw.unique.of_le hle, fun b hb => hw.value b (Multiset.mem_of_le hle hb)⟩

/-- What is in hand may be dropped: that is how blocks are lost. -/
theorem Sound.drop {w : Outage C} (hw : Sound P V (hand + hand') w) : Sound P V hand w :=
  hw.of_le hw.intact hw.stash_normal
    (Multiset.add_le_add_right (Multiset.le_add_right hand hand'))

theorem Sound.mono {w : Outage C} (hw : Sound P V hand w) (h : ∀ a q, V a q → V' a q) :
    Sound P V' hand w :=
  ⟨hw.intact, hw.stash_normal, hw.unique, fun b hb => h _ _ (hw.value b hb)⟩

/-- Another server, and what it holds. -/
theorem contents_server (c : PathOramController D) (s : TreeOramServerStorage C)
    (ds : List Delivery) : (⟨c, s, ds⟩ : Outage C).connected.contents P =
      loadedBlocks c.stash + treeBlocks P.treeLevel s := rfl

/-- A bucket is replaced by one that is in hand. -/
theorem Sound.setBucket {c : PathOramController D} {s s' : TreeOramServerStorage C}
    {ds ds' : List Delivery} {bucket : List (OramBlock D)} {t : Tag}
    (hw : Sound P V (hand + loadedBlocks bucket) ⟨c, s, ds⟩) (ht : t ∈ treeTags P.treeLevel)
    (hintact : Intact P.treeLevel s')
    (h : ∀ t', s'.blocksAt t' = if t' = t then bucket else s.blocksAt t') {n : ℕ} :
    Sound P V hand ⟨{ c with networkCommunication := n }, s', ds'⟩ := by
  refine hw.of_le hintact hw.stash_normal ?_
  have htree := treeBlocks_update ht h
  have hle : treeBlocks P.treeLevel s' ≤ treeBlocks P.treeLevel s + loadedBlocks bucket :=
    (Multiset.le_add_right _ _).trans htree.le
  rw [contents_server, contents_server]
  calc hand + (loadedBlocks c.stash + treeBlocks P.treeLevel s')
      ≤ hand + (loadedBlocks c.stash + (treeBlocks P.treeLevel s + loadedBlocks bucket)) := by
        gcongr
    _ = hand + loadedBlocks bucket + (loadedBlocks c.stash + treeBlocks P.treeLevel s) := by abel

/-! ## One bucket

`Sound` has the blocks in hand beside those of the stash and the tree. A request that is
carried out but not answered moves blocks on one side only, and the bag of all of them
never grows. -/

/-- A bucket that is read is in hand, or lost. -/
theorem leads_readBucket (x l : ℕ) :
    Prog.Leads (Sound P V hand) (readBucket (OramService.stub C P.id).relayed P x l)
      (fun bucket => Sound P V (hand + loadedBlocks bucket)) fun _ => Sound P V hand := by
  refine .of_outcome ?_
  rintro ⟨c, s, ds⟩ hw
  by_cases hrange : x ≥ P.numberOfLeafs ∨ l > P.treeLevel
  · right
    exact ⟨_, _, if_pos hrange, hw⟩
  · obtain ⟨hx, hl⟩ := not_or.mp hrange
    obtain ⟨cs, s', hread, hs', hmap, hblocks⟩ :=
      stub_readPath P.id hw.intact (Nat.lt_of_not_le hx) (Nat.le_of_not_lt hl)
    have htag := pathTag_mem (Nat.lt_of_not_le hx) (Nat.le_of_not_lt hl)
    -- the bucket that is taken out of the tree
    have htree := treeBlocks_update htag hblocks
    rw [List.filter_nil, Multiset.coe_nil, add_zero] at htree
    have hlost : ∀ {ds'}, Sound P V hand (⟨c, s', ds'⟩ : Outage C) := by
      intro ds'
      refine hw.of_le hs' hw.stash_normal ?_
      rw [contents_server, contents_server]
      gcongr
      exact (Multiset.le_add_right _ _).trans htree.le
    obtain ⟨ds', hcall | ⟨message, hcall | hcall⟩⟩ :=
      Delivery.relay_cases ((OramService.stub C P.id).readPath x l) s ds
    · left
      refine ⟨cs.map fun c => (C.decryptBlock c).2,
        ⟨{ c with networkCommunication := c.networkCommunication + cs.length }, s', ds'⟩, ?_, ?_⟩
      · rw [readBucket, if_neg hrange]
        simp only [TreeStub.relayed, hcall, hread]
      · rw [hmap]
        refine hw.of_le hs' hw.stash_normal (le_of_eq ?_)
        rw [contents_server, contents_server, ← htree]
        show _ = hand + (loadedBlocks c.stash + (_ + loadedBlocks _))
        abel
    · right
      refine ⟨.status (.make .kServerError message "ReadBucket"), ⟨c, s, ds'⟩, ?_,
        hw.of_le hw.intact hw.stash_normal le_rfl⟩
      rw [readBucket, if_neg hrange]
      simp only [TreeStub.relayed, hcall]
      rfl
    · right
      refine ⟨.status (.make .kServerError message "ReadBucket"), ⟨c, s', ds'⟩, ?_, hlost⟩
      rw [readBucket, if_neg hrange]
      simp only [TreeStub.relayed, hcall, hread]
      rfl

/-- A bucket that is in hand is stored, or lost. -/
theorem leads_writeBucket {x l : ℕ} (hx : x < P.numberOfLeafs) (hl : l ≤ P.treeLevel)
    (iv : ℕ → C.Iv) (bucket : List (OramBlock D)) :
    Prog.Leads (Sound P V (hand + loadedBlocks bucket))
      (writeBucket (OramService.stub C P.id).relayed x l iv bucket)
      (fun _ => Sound P V hand) fun _ => Sound P V hand := by
  refine .of_outcome ?_
  rintro ⟨c, s, ds⟩ hw
  obtain ⟨s', hwrite, hs', hblocks⟩ := stub_writePath P.id 0 hw.intact hx hl (sealBucket iv bucket)
  rw [map_decrypt_sealBucket] at hblocks
  have hstored : ∀ {n ds'}, Sound P V hand
      (⟨{ c with networkCommunication := n }, s', ds'⟩ : Outage C) :=
    hw.setBucket (pathTag_mem hx hl) hs' hblocks
  have hlost : ∀ {n ds'}, Sound P V hand
      (⟨{ c with networkCommunication := n }, s, ds'⟩ : Outage C) :=
    hw.drop.of_le hw.intact hw.stash_normal le_rfl
  obtain ⟨ds', hcall | ⟨message, hcall | hcall⟩⟩ := Delivery.relay_cases
    ((OramService.stub C P.id).writePath ⟨x, l, 0, .kNormal, sealBucket iv bucket⟩) s ds
  · left
    refine ⟨(), ⟨{ c with networkCommunication := c.networkCommunication + bucket.length }, s',
      ds'⟩, ?_, hstored⟩
    simp only [writeBucket, TreeStub.relayed, hcall, hwrite]
  · right
    refine ⟨.status (.make .kServerError message "WriteBucket"),
      ⟨{ c with networkCommunication := c.networkCommunication + bucket.length }, s, ds'⟩, ?_,
      hlost⟩
    simp only [writeBucket, TreeStub.relayed, hcall]
    rfl
  · right
    refine ⟨.status (.make .kServerError message "WriteBucket"),
      ⟨{ c with networkCommunication := c.networkCommunication + bucket.length }, s', ds'⟩, ?_,
      hstored⟩
    simp only [writeBucket, TreeStub.relayed, hcall, hwrite]
    rfl

/-! ## A path -/

theorem loadedBlocks_append (l l' : List (OramBlock D)) :
    loadedBlocks (l ++ l') = loadedBlocks l + loadedBlocks l' := by
  rw [loadedBlocks, List.filter_append, ← Multiset.coe_add]
  rfl

theorem loadedBlocks_of_normal {l : List (OramBlock D)} (h : ∀ b ∈ l, b.isNormal = true) :
    loadedBlocks l = l := by
  rw [loadedBlocks, filter_isNormal_of_forall h]

/-- A path that is read comes into hand, all of it; a read that fails half way has
dropped what it had. -/
theorem leads_readLevels (x : ℕ) (ls : List ℕ) :
    Prog.Leads (Sound P V hand) (readLevels (OramService.stub C P.id).relayed P x ls)
      (fun path => Sound P V (hand + loadedBlocks path.flatten)) fun _ => Sound P V hand := by
  induction ls generalizing hand with
  | nil =>
    refine .pure fun w hw => ?_
    rw [List.flatten_nil, loadedBlocks, List.filter_nil, Multiset.coe_nil, add_zero]
    exact hw
  | cons l ls ih =>
    refine .bind (.mapError (leads_readBucket x l)) fun bucket =>
      .bind (ih.mono (fun _ h => h) (fun _ _ h => h) fun _ _ h => h.drop) fun rest =>
        .pure fun w hw => ?_
    rw [List.flatten_cons, loadedBlocks_append, ← add_assoc]
    exact hw

theorem Sound.contents_eq {w : Outage C} (hw : Sound P V hand w) :
    w.connected.contents P = w.client.stash + treeBlocks P.treeLevel w.server.1 := by
  rw [← loadedBlocks_of_normal hw.stash_normal]
  rfl

/-- The path that is in hand goes to the stash. -/
theorem Sound.merge {w : Outage C} {path : List (List (OramBlock D))}
    (hw : Sound P V (loadedBlocks path.flatten) w) : Sound P V 0
      (⟨{ w.client with stash := mergePath w.client.stash path }, w.server⟩ : Outage C) := by
  have hnormal : ∀ b ∈ path.flatten.filter OramBlock.isNormal, b.isNormal = true :=
    fun b hb => (List.mem_filter.mp hb).2
  have hunique : UniqueKeys OramBlock.id
      ((w.client.stash : Multiset (OramBlock D)) + loadedBlocks path.flatten) := by
    refine hw.unique.of_le ?_
    rw [hw.contents_eq, add_comm (loadedBlocks _), add_right_comm]
    exact Multiset.le_add_right _ _
  have hstash : mergePath w.client.stash path =
      w.client.stash ++ path.flatten.filter OramBlock.isNormal := by
    rw [mergePath_eq_foldl_normal]
    exact foldl_mergeBlock hnormal hunique
  refine hw.of_le hw.intact ?_ (le_of_eq ?_)
  · intro b hb
    rw [hstash] at hb
    exact (List.mem_append.mp hb).elim (hw.stash_normal b) (hnormal b)
  · rw [hw.contents_eq, hstash, contents_server, loadedBlocks_append,
      loadedBlocks_of_normal hw.stash_normal, loadedBlocks_of_normal hnormal, ← loadedBlocks]
    abel

/-- A step of the write-back: the client selects blocks, which are then in hand. -/
theorem leads_findSubsetOf (x : ℕ) {random : ℕ → OramBlock D}
    (hpad : ∀ j, (random j).isNormal = false) :
    Prog.Leads (Sound (C := C) P V 0) (findSubsetOf (ε := Exit) P x random)
      (fun bucket => Sound P V (0 + loadedBlocks bucket)) fun _ _ => False := by
  refine .of_outcome fun w hw => .inl ⟨_, _, rfl, ?_⟩
  obtain ⟨hsplit, -, -⟩ :=
    findSubset_spec (B := P.bucketSize) (x := x) w.client.stash w.client.positionMap []
  generalize findSubset P.bucketSize x w.client.positionMap [] w.client.stash = r at *
  rw [Multiset.coe_nil, zero_add] at hsplit
  have hnormal : ∀ b, b ∈ r.1 ∨ b ∈ r.2.1 → b.isNormal = true := by
    intro b hb
    refine hw.stash_normal b (Multiset.mem_coe.mp (hsplit ▸ ?_))
    exact Multiset.mem_add.mpr (hb.imp Multiset.mem_coe.mpr Multiset.mem_coe.mpr)
  have hbucket : loadedBlocks (padStash random P.bucketSize r.1) = r.1 := by
    rw [loadedBlocks, filter_isNormal_padStash hpad,
      filter_isNormal_of_forall fun b hb => hnormal b (.inl hb)]
  refine hw.of_le hw.intact (fun b hb => hnormal b (.inr hb)) (le_of_eq ?_)
  rw [hw.contents_eq, ← hsplit, hbucket, contents_server,
    loadedBlocks_of_normal fun b hb => hnormal b (.inr hb)]
  abel

/-- The write-back, level by level: a bucket whose write fails is lost or stored, and
its blocks are in the stash no longer. -/
theorem leads_writeLevels {x : ℕ} (hx : x < P.numberOfLeafs) {draws : AccessDraws C}
    (hpad : ∀ l j, (draws.pad l j).isNormal = false) (i : ℕ) (hi : i ≤ P.treeLevel + 1) :
    Prog.Leads (Sound P V 0) (writeLevels (OramService.stub C P.id).relayed P x draws i)
      (fun _ => Sound P V 0) fun _ => Sound P V 0 := by
  induction i with
  | zero => exact .pure fun _ hw => hw
  | succ i ih =>
    exact .bind ((leads_findSubsetOf x (hpad i)).mono (fun _ h => h) (fun _ _ h => h)
      fun _ _ h => h.elim) fun bucket =>
        .bind (.mapError (leads_writeBucket hx (Nat.le_of_succ_le_succ hi) _ _)) fun _ =>
          ih (Nat.le_of_succ_le hi)

/-! ## An access

A call that fails leaves the knowledge about its address weaker (`failed`), a call that
returns settles it (`returned`). Both are postconditions of one contract. -/

/-- What a real access asks of the memory: `InternalAccess` takes every operation
but a write for a read. -/
def Operation.call (op : Operation) (address : ℕ) (buffer : OramBlock D) : MemoryCall ℕ (D × ℕ) :=
  if op = .kWrite then .write address buffer.payload else .read address

theorem Operation.call_read {op : Operation} (hop : op ≠ .kWrite) (address : ℕ)
    (buffer : OramBlock D) : op.call address buffer = .read address := if_neg hop

variable {op : Operation} {address : ℕ} {buffer block : OramBlock D}

/-- The block that is found is the one of its address. -/
theorem Sound.found {w : Outage C} (hw : Sound P V 0 w)
    (hfind : w.client.stash.find? (blockEqual address) = some block) :
    block ∈ w.client.stash ∧ block.id = address ∧ V address block.payload := by
  have hmem := List.mem_of_find?_eq_some hfind
  have hid := (blockEqual_iff.mp (List.find?_some hfind)).1
  refine ⟨hmem, hid, hid ▸ hw.value block ?_⟩
  rw [zero_add, hw.contents_eq]
  exact Multiset.mem_add.mpr (.inl hmem)

/-- A read settles what the address has. -/
theorem Sound.read {w : Outage C} (hw : Sound P V 0 w)
    (hfind : w.client.stash.find? (blockEqual address) = some block) (hop : op ≠ .kWrite) :
    Sound P ((op.call address buffer).returned V (some block.payload)) 0 w := by
  obtain ⟨hmem, hid, -⟩ := hw.found hfind
  refine ⟨hw.intact, hw.stash_normal, hw.unique, fun b hb => ?_⟩
  have hstored : block ∈ 0 + w.connected.contents P := by
    rw [zero_add, hw.contents_eq]
    exact Multiset.mem_add.mpr (.inl hmem)
  rw [Operation.call_read hop]
  refine ⟨hw.value b hb, fun he => ?_⟩
  rw [hw.unique.eq_of_key_eq hb hstored (he.trans hid.symm)]

/-- A write replaces it. -/
theorem Sound.write {w : Outage C} (hw : Sound P V 0 w)
    (hfind : w.client.stash.find? (blockEqual address) = some block) (out : Option (D × ℕ)) :
    Sound P ((MemoryCall.write address buffer.payload).returned V out) 0
      (⟨{ w.client with
          stash := updateFirst (blockEqual address) (·.store buffer) w.client.stash },
        w.server⟩ : Outage C) := by
  obtain ⟨hmem, hid, hvalue⟩ := hw.found hfind
  have hunique := hw.unique
  rw [zero_add, hw.contents_eq] at hunique
  let stash := updateFirst (blockEqual address) (·.store buffer) w.client.stash
  have hstash : (stash : Multiset (OramBlock D)) =
      replaceKey OramBlock.id address (·.store buffer) (w.client.stash : Multiset _) :=
    coe_updateFirst hunique.left
      fun b hb => blockEqual_iff.trans (and_iff_left (hw.stash_normal b hb))
  have htree : replaceKey OramBlock.id address (·.store buffer)
      (treeBlocks P.treeLevel w.server.1) = treeBlocks P.treeLevel w.server.1 :=
    replaceKey_of_notMem fun b hb he =>
      hunique.ne_of_mem (Multiset.mem_coe.mpr hmem) hb (hid.trans he.symm)
  have hnormal : ∀ b ∈ stash, b.isNormal = true := by
    intro b hb
    rw [← Multiset.mem_coe, hstash] at hb
    obtain ⟨c, hc, rfl⟩ := Multiset.mem_map.mp hb
    split
    next => exact hw.stash_normal c hc
    next => exact hw.stash_normal c hc
  have hcontents : (⟨{ w.client with stash := stash }, w.server⟩ : Outage C).connected.contents P =
      replaceKey OramBlock.id address (·.store buffer) (w.connected.contents P) := by
    rw [hw.contents_eq, replaceKey_add, htree, ← hstash, ← loadedBlocks_of_normal hnormal]
    rfl
  refine ⟨hw.intact, hnormal, ?_, fun b hb => ?_⟩
  · rw [zero_add, hcontents, hw.contents_eq]
    exact hunique.replaceKey fun b => b.store_id buffer
  · rw [zero_add, hcontents] at hb
    obtain ⟨c, hc, rfl⟩ := Multiset.mem_map.mp hb
    split
    next he =>
      rw [OramBlock.store_id, he, OramBlock.store_payload]
      exact MemoryCall.returned_write_self hvalue
    next he => exact MemoryCall.returned_write_of_ne he (hw.value c (by rwa [zero_add]))

/-- The client may change what else it keeps, and forget blocks. -/
theorem Sound.client {w : Outage C} (hw : Sound P V 0 w) {c : PathOramController D}
    (h : List.Sublist c.stash w.client.stash) : Sound P V 0 (⟨c, w.server⟩ : Outage C) := by
  refine hw.of_le hw.intact (fun b hb => hw.stash_normal b (h.subset hb)) ?_
  rw [hw.contents_eq, contents_server,
    loadedBlocks_of_normal fun b hb => hw.stash_normal b (h.subset hb)]
  gcongr
  exact Multiset.coe_le.mpr h.subperm

theorem leads_update {I J : Outage C → Prop} {E : Exit → Outage C → Prop}
    {f : PathOramController D → PathOramController D}
    (h : ∀ w, I w → J ⟨f w.client, w.server⟩) :
    Prog.Leads I (update f) (fun _ => J) E := .modify h

/-- The block in the stash has a value that its address can have. It is returned, or
takes the value of the buffer. -/
theorem leads_updateBlock :
    Prog.Leads
      (fun w : Outage C => Sound P V 0 w ∧
        w.client.stash.find? (blockEqual address) = some block)
      (updateBlock P op address buffer block)
      (fun out w => Sound P ((op.call address buffer).returned V (some out.payload)) 0 w ∧
        (op ≠ .kWrite → V address out.payload)) fun _ _ => False := by
  refine .bind (leads_update (J := fun w => Sound P V 0 w ∧
    w.client.stash.find? (blockEqual address) = some block) fun w hw =>
      ⟨hw.1.client (List.Sublist.refl _), hw.2⟩) fun _ => .ite (fun hop => ?_) fun hop => ?_
  · subst hop
    exact .bind (leads_update fun w hw => hw.1.write hw.2 (some buffer.payload)) fun _ =>
      .pure fun w hw => ⟨hw, fun h => absurd rfl h⟩
  · -- a read; an embedded controller forgets the block
    refine .ite (fun _ => ?_) fun _ => .pure fun w hw => ?_
    · refine .bind (leads_update (J := fun w =>
        Sound P ((op.call address buffer).returned V (some block.payload)) 0 w ∧
          V address block.payload) fun w hw => ?_) fun _ => .pure fun w hw => ⟨hw.1, fun _ => hw.2⟩
      exact ⟨(hw.1.read hw.2 hop).client List.eraseP_sublist, (hw.1.found hw.2).2.2⟩
    · exact ⟨hw.1.read hw.2 hop, fun _ => (hw.1.found hw.2).2.2⟩

/-- Steps 3 to 15 of an access. -/
theorem leads_internalAccessDirect (x : ℕ) {draws : AccessDraws C}
    (hpad : ∀ l j, (draws.pad l j).isNormal = false) :
    Prog.Leads (Sound P V 0)
      (internalAccessDirect (OramService.stub C P.id).relayed P op address x buffer draws false)
      (fun out w => Sound P ((op.call address buffer).returned V (some out.payload)) 0 w ∧
        (op ≠ .kWrite → V address out.payload))
      fun _ => Sound P ((op.call address buffer).failed V) 0 := by
  have hstart : ∀ w : Outage C, Sound P V 0 w → Sound P ((op.call address buffer).failed V) 0 w :=
    fun w hw => hw.mono fun _ _ => MemoryCall.failed_of
  by_cases hx : x < P.numberOfLeafs
  · refine .bind ((leads_readLevels x _).mono (fun _ h => h) (fun _ _ h => h) fun _ _ => hstart _)
      fun path => .bind (leads_update (J := Sound P V 0) fun w hw => ?_) fun _ =>
        .get_bind fun w hw => ?_
    · rw [zero_add] at hw
      exact hw.merge
    · cases hfind : w.client.stash.find? (blockEqual address) with
      | none =>
        refine .throw fun _ he => ?_
        rw [show _ = w from he]
        exact hstart w hw
      | some block =>
        refine .bind (leads_updateBlock.mono (fun _ he => ?_) (fun _ _ h => h) fun _ _ h => h.elim)
          fun out => .bind (((leads_writeLevels hx hpad _ (Nat.le_refl _)).frame _).mono
            (fun _ h => h) (fun _ _ h => h) fun _ _ h => h.mono fun _ _ =>
              MemoryCall.failed_of_returned)
            fun _ => .pure fun w hw => hw
        rw [show _ = w from he]
        exact ⟨hw, hfind⟩
  · -- the path is refused
    refine .of_outcome fun w hw => .inr ⟨.status (badPath x), w, ?_, hstart w hw⟩
    exact Prog.bind_error (readLevels_out_of_range hx w)

/-- After a read that has returned, the address has the value returned; after a write
that has failed, the old value or the new one. -/
theorem leads_internalAccess {draws : AccessDraws C}
    (hpad : ∀ l j, (draws.pad l j).isNormal = false) :
    Prog.Leads (Sound P V 0)
      (internalAccess (OramService.stub C P.id).relayed P op address buffer draws false)
      (fun out w => Sound P ((op.call address buffer).returned V (some out.payload)) 0 w ∧
        (op ≠ .kWrite → V address out.payload))
      fun _ => Sound P ((op.call address buffer).failed V) 0 := by
  refine .get_bind fun w hw => ?_
  have hrefused : ∀ w', w' = w → Sound P ((op.call address buffer).failed V) 0 w' := by
    rintro _ rfl
    exact hw.mono fun _ _ => MemoryCall.failed_of
  refine .ite (fun _ => .throw hrefused) fun _ => .ite (fun _ => .throw hrefused) fun _ => ?_
  refine .bind (Q := fun _ => Sound P V 0) (.of_outcome fun w' he => .inl ?_) fun x =>
    .bind (leads_update fun w' hw' => hw'.client (List.Sublist.refl _)) fun _ =>
      leads_internalAccessDirect _ hpad
  exact ⟨_, w', randomPosition_spec draws.position w', show Sound P V 0 w' from he ▸ hw⟩

/-- A dummy access loses the path that it reads. -/
theorem leads_dummyAccess (draws : AccessDraws C) :
    Prog.Leads (Sound P V 0)
      (internalAccess (OramService.stub C P.id).relayed P op address buffer draws true)
      (fun _ => Sound P V 0) fun _ => Sound P V 0 := by
  refine .get_bind fun w hw => ?_
  have hrefused : ∀ w', w' = w → Sound P V 0 w' := by
    rintro _ rfl
    exact hw
  refine .ite (fun _ => .throw hrefused) fun _ => .ite (fun _ => .throw hrefused) fun _ => ?_
  refine .bind (Q := fun _ => Sound P V 0) (.of_outcome fun w' he => .inl ?_) fun x =>
    .bind (leads_readLevels x _) fun path => .pure fun w' hw' => ?_
  · exact ⟨_, w', randomPosition_spec draws.position w', show Sound P V 0 w' from he ▸ hw⟩
  · rw [zero_add] at hw'
    have hboth : Sound P V (0 + loadedBlocks path.flatten) w' := by rwa [zero_add]
    exact hboth.drop

/-! ## The load -/

/-- A bucket that is in hand is appended to one of the tree, or lost. -/
theorem leads_accurateWriteBucket {l o : ℕ} (hl : l ≤ P.treeLevel) (ho : o < 2 ^ l)
    (iv : ℕ → C.Iv) (bucket : List (OramBlock D)) :
    Prog.Leads (Sound P V (hand + loadedBlocks bucket))
      (accurateWriteBucket (OramService.stub C P.id).relayed l o iv bucket)
      (fun _ => Sound P V hand) fun _ => Sound P V hand := by
  refine .of_outcome ?_
  rintro ⟨c, s, ds⟩ hw
  obtain ⟨s', hwrite, hs', hblocks⟩ :=
    stub_initPath P.id 0 hw.intact hl ho (sealBucket iv bucket)
  rw [map_decrypt_sealBucket] at hblocks
  have htree : treeBlocks P.treeLevel s' = treeBlocks P.treeLevel s + loadedBlocks bucket := by
    have hset : ∀ t, s'.blocksAt t = if t = (l, o) then s.blocksAt (l, o) ++ bucket else
        s.blocksAt t := by
      intro t
      rw [hblocks]
      split
      next he => rw [he]
      next => rfl
    have hupdate := treeBlocks_update (mem_treeTags.mpr ⟨hl, ho⟩) hset
    rw [List.filter_append, ← Multiset.coe_add, add_left_comm, add_comm] at hupdate
    exact add_left_cancel hupdate
  have hstored : ∀ {ds'}, Sound P V hand (⟨c, s', ds'⟩ : Outage C) := by
    intro ds'
    refine hw.of_le hs' hw.stash_normal (le_of_eq ?_)
    rw [contents_server, contents_server, htree]
    abel
  have hlost : ∀ {ds'}, Sound P V hand (⟨c, s, ds'⟩ : Outage C) :=
    hw.drop.of_le hw.intact hw.stash_normal le_rfl
  obtain ⟨ds', hcall | ⟨message, hcall | hcall⟩⟩ := Delivery.relay_cases
    ((OramService.stub C P.id).writePath ⟨0, l, o, .kInit, sealBucket iv bucket⟩) s ds
  · left
    refine ⟨(), ⟨c, s', ds'⟩, ?_, hstored⟩
    simp only [accurateWriteBucket, TreeStub.relayed, hcall, hwrite]
  · right
    refine ⟨.status (.make .kServerError message "AccurateWriteBucket"), ⟨c, s, ds'⟩, ?_, hlost⟩
    simp only [accurateWriteBucket, TreeStub.relayed, hcall]
    rfl
  · right
    refine ⟨.status (.make .kServerError message "AccurateWriteBucket"), ⟨c, s', ds'⟩, ?_,
      hstored⟩
    simp only [accurateWriteBucket, TreeStub.relayed, hcall, hwrite]
    rfl

/-- The data still to be loaded is in hand. A load that stops leaves it there. -/
theorem leads_fillTree {draws : FillDraws C} (hpad : ∀ t i, (draws.pad t i).isNormal = false)
    (ts : List Tag) (hts : ∀ t ∈ ts, t ∈ treeTags P.treeLevel) (data : List (OramBlock D)) :
    Prog.Leads (Sound P V (loadedBlocks data))
      (fillTree (OramService.stub C P.id).relayed P draws ts data)
      (fun _ => Sound P V 0) fun _ => Sound P V 0 := by
  have hdrop : ∀ {hand : Multiset (OramBlock D)} {w : Outage C}, Sound P V hand w →
      Sound P V 0 w := by
    intro hand w hw
    have hboth : Sound P V (0 + hand) w := by rwa [zero_add]
    exact hboth.drop
  induction ts generalizing data with
  | nil => exact .pure fun _ => hdrop
  | cons t ts ih =>
    obtain ⟨hl, ho⟩ := mem_treeTags.mp (hts t List.mem_cons_self)
    rw [fillTree]
    refine .bind (Q := fun r w => Sound P V (loadedBlocks r.2 +
      loadedBlocks (padStash (draws.pad t) P.bucketSize r.1)) w) (.of_outcome fun w hw => .inl ?_)
      fun r => .bind (.mapError ((leads_accurateWriteBucket hl ho _ _).mono (fun _ h => h)
        (fun _ _ h => h) fun _ _ => hdrop)) fun _ =>
          ih (fun t' ht' => hts t' (List.mem_cons_of_mem _ ht')) _
    obtain ⟨m, hbucket, -⟩ :=
      fillBucket_maps (interval_le P.treeLevel t) (draws.path t) P.bucketSize data w
    refine ⟨_, _, hbucket, hw.of_le hw.intact hw.stash_normal (le_of_eq ?_)⟩
    -- the bucket and the rest make up the data
    have hpadded : loadedBlocks (padStash (draws.pad t) P.bucketSize
        ((data.take P.bucketSize).filter OramBlock.isNormal)) =
          loadedBlocks (data.take P.bucketSize) := by
      rw [loadedBlocks, filter_isNormal_padStash (hpad t), List.filter_filter]
      simp only [Bool.and_self]
      rfl
    rw [hpadded, add_comm (loadedBlocks _), ← loadedBlocks_append, List.take_append_drop]
    rfl

/-! ## Whole runs

The history of calls with their outcomes says what each address can hold
(`MemoryCall.possible`), and the invariant along a run is that every block the ORAM has
left has such a value. -/

namespace PathOp

/-- What a call asks of the memory. -/
def call : PathOp C → MemoryCall ℕ (D × ℕ)
  | .fillWithData .. => .other
  | .access op address buffer _ => op.call address buffer
  | .internalAccess op address buffer _ dummy => if dummy then .other else op.call address buffer
  | .accessDirect op address _ buffer _ => op.call address buffer

/-- The call, and the payload that it has returned. -/
def recorded (p : PathOp C × Except Exit (Option (OramBlock D))) :
    MemoryCall ℕ (D × ℕ) × Except Exit (Option (D × ℕ)) :=
  (p.1.call, p.2.map (Option.map OramBlock.payload))

/-- The padding does not pose as data. -/
def PadsDummy : PathOp C → Prop
  | .fillWithData _ draws => ∀ t i, (draws.pad t i).isNormal = false
  | .access _ _ _ draws => ∀ l j, (draws.pad l j).isNormal = false
  | .internalAccess _ _ _ draws _ => ∀ l j, (draws.pad l j).isNormal = false
  | .accessDirect _ _ _ _ draws => ∀ l j, (draws.pad l j).isNormal = false

/-- A call that is a real access. -/
theorem leads_real {p : PathOp C} (hcall : p.call = op.call address buffer)
    {m : Prog Exit (Outage C) (OramBlock D)}
    (hm : Prog.Leads (Sound P V 0) m
      (fun out w => Sound P ((op.call address buffer).returned V (some out.payload)) 0 w ∧
        (op ≠ .kWrite → V address out.payload))
      fun _ => Sound P ((op.call address buffer).failed V) 0) :
    Prog.Leads (Sound P V 0) (m >>= fun out => pure (some out))
      (fun out w => Sound P (p.call.returned V (out.map OramBlock.payload)) 0 w ∧
        ∀ a, p.call = .read a → ∃ b, out = some b ∧ V a b.payload)
      fun _ => Sound P (p.call.failed V) 0 := by
  rw [hcall]
  refine .bind hm fun out => .pure fun w hw => ⟨hw.1, fun a ha => ⟨out, rfl, ?_⟩⟩
  rw [Operation.call] at ha
  split at ha
  · cases ha
  next hop =>
    cases ha
    exact hw.2 hop

/-- **One call**, whatever becomes of it. -/
theorem leads {p : PathOp C} (haccess : p.isAccess = true) (hpad : p.PadsDummy) :
    Prog.Leads (Sound P V 0) (p.run (OramService.stub C P.id).relayed P)
      (fun out w => Sound P (p.call.returned V (out.map OramBlock.payload)) 0 w ∧
        ∀ a, p.call = .read a → ∃ b, out = some b ∧ V a b.payload)
      fun _ => Sound P (p.call.failed V) 0 := by
  have hgate : ∀ {op : Operation} {address : ℕ} {buffer : OramBlock D}
      {m : Prog Exit (Outage C) (OramBlock D)}, Prog.Leads (Sound P V 0) m
        (fun out w => Sound P ((op.call address buffer).returned V (some out.payload)) 0 w ∧
          (op ≠ .kWrite → V address out.payload))
        (fun _ => Sound P ((op.call address buffer).failed V) 0) →
      Prog.Leads (Sound P V 0) (Prog.get >>= fun w => if w.client.isInitialized = false then
          fail .kInvalidOperation "Cannot access ORAM before it is initialized" "" else m)
        (fun out w => Sound P ((op.call address buffer).returned V (some out.payload)) 0 w ∧
          (op ≠ .kWrite → V address out.payload))
        fun _ => Sound P ((op.call address buffer).failed V) 0 := by
    intro op address buffer m hm
    refine .get_bind fun w hw => .ite (fun _ => .throw ?_) fun _ => hm.mono ?_ (fun _ _ h => h)
      fun _ _ h => h
    · rintro _ rfl
      exact hw.mono fun _ _ => MemoryCall.failed_of
    · rintro _ rfl
      exact hw
  cases p with
  | fillWithData data draws => cases haccess
  | access op address buffer draws =>
    exact leads_real rfl (hgate (leads_internalAccess hpad))
  | internalAccess op address buffer draws dummy =>
    cases dummy with
    | false => exact leads_real rfl (leads_internalAccess hpad)
    | true =>
      refine .bind (leads_dummyAccess draws) fun out => .pure fun w hw => ⟨hw, ?_⟩
      rintro a ⟨⟩
  | accessDirect op address position buffer draws =>
    exact leads_real rfl (hgate (leads_internalAccessDirect position hpad))

/-- The load. -/
theorem leads_load {data : List (OramBlock D)} {fill : FillDraws C}
    (hpad : ∀ t i, (fill.pad t i).isNormal = false) :
    Prog.Leads (Sound P V (loadedBlocks data))
      (run (OramService.stub C P.id).relayed P (.fillWithData data fill))
      (fun _ => Sound P V 0) fun _ => Sound P V 0 :=
  .bind (.bind (leads_fillTree hpad _ (fun _ ht => mem_fillOrder.mp ht) _) fun _ =>
    leads_update fun _ hw => hw.client (List.Sublist.refl _)) fun _ => .pure fun _ hw => hw

end PathOp

/-- A new system, with the data in hand. -/
theorem sound_init {data : List (OramBlock D)}
    (hids : UniqueKeys OramBlock.id (loadedBlocks data)) (ds : List Delivery) :
    Sound P (fun a q => loadedValue data a = some q) (loadedBlocks data)
      (⟨.new, .new C P.numberOfLeafs, ds⟩ : Outage C) := by
  have hempty : (⟨.new, .new C P.numberOfLeafs, ds⟩ : Outage C).connected.contents P = 0 := by
    have htree : treeBlocks P.treeLevel (.new C P.numberOfLeafs) = 0 :=
      Finset.sum_eq_zero fun t _ => by
        rw [TreeOramServerStorage.normalAt, TreeOramServerStorage.blocksAt_new, List.filter_nil,
          Multiset.coe_nil]
    rw [contents_server, htree, add_zero]
    rfl
  refine ⟨TreeOramServerStorage.intact_new _, by rintro b ⟨⟩, ?_, ?_⟩
  · rwa [hempty, add_zero]
  · intro b hb
    rw [hempty, add_zero] at hb
    exact (stores_loadedBlocks hids _ _).mpr ⟨b, hb, rfl, rfl⟩

/-- After a load, with success or not, and any accesses, the history says what
the addresses can have. -/
theorem sound_of_trace {data : List (OramBlock D)}
    (hids : UniqueKeys OramBlock.id (loadedBlocks data)) {fill : FillDraws C}
    (hfill : ∀ t i, (fill.pad t i).isNormal = false) {calls : List (PathOp C)}
    (haccess : ∀ call ∈ calls, call.isAccess = true) (hpad : ∀ call ∈ calls, call.PadsDummy)
    {ds : List Delivery} {r : Except Exit (Option (OramBlock D))}
    {outs : List (Except Exit (Option (OramBlock D)))} {w : Outage C}
    (hrun : Prog.trace Exit.fatal (PathOp.run (OramService.stub C P.id).relayed P)
      (.fillWithData data fill :: calls) ⟨.new, .new C P.numberOfLeafs, ds⟩ =
        some (r :: outs, w)) :
    Sound P (MemoryCall.possible (loadedValue data) ((calls.zip outs).map PathOp.recorded))
      0 w := by
  obtain ⟨r', w₀, outs', hload, hcalls, he⟩ := Prog.trace_cons_eq_some hrun
  obtain ⟨rfl, rfl⟩ := List.cons_eq_cons.mp he
  obtain ⟨hload, -⟩ := Prog.eq_of_survive hload
  have hstart : Sound P (MemoryCall.possible (ε := Exit) (loadedValue data) []) 0 w₀ := by
    cases r with
    | ok out => exact (PathOp.leads_load hfill).ok (sound_init hids ds) hload
    | error e => exact (PathOp.leads_load hfill).error (sound_init hids ds) hload
  refine Prog.trace_history Exit.fatal
    (fun call _ => call.isAccess = true ∧ call.PadsDummy)
    (fun past w => Sound P (MemoryCall.possible (loadedValue data) (past.map PathOp.recorded)) 0 w)
    ?_ [] hstart
    (Prog.Along.of_forall (fun call hcall _ => ⟨haccess call hcall, hpad call hcall⟩) _) hcalls
  rintro past call w r w' ⟨haccess, hpad⟩ hw hstep
  obtain ⟨hcall, -⟩ := Prog.eq_of_survive hstep
  rw [List.map_append, List.map_singleton, MemoryCall.possible_snoc]
  cases r with
  | ok out => exact ((PathOp.leads haccess hpad).ok hw hcall).1
  | error e => exact (PathOp.leads haccess hpad).error hw hcall

/-- However the connection fails, the client never holds more blocks than it has loaded: every
id in its stash was loaded, and none is there twice. -/
theorem reportClientStorage_le {data : List (OramBlock D)}
    (hids : UniqueKeys OramBlock.id (loadedBlocks data))
    {past : List (MemoryCall ℕ (D × ℕ) × Except Exit (Option (D × ℕ)))} {w : Outage C}
    (hw : Sound P (MemoryCall.possible (loadedValue data) past) 0 w) :
    w.client.reportClientStorage ≤ (loadedBlocks data).card * ORAM_BLOCK_SIZE := by
  have hstash : (w.client.stash : Multiset (OramBlock D)) ≤ 0 + w.connected.contents P := by
    rw [zero_add, hw.contents_eq]
    exact Multiset.le_add_right _ _
  have hle : (w.client.stash : Multiset (OramBlock D)).map OramBlock.id ≤
      (loadedBlocks data).map OramBlock.id := by
    refine (Multiset.le_iff_subset (hw.unique.of_le hstash)).mpr fun a ha => ?_
    obtain ⟨b, hb, rfl⟩ := Multiset.mem_map.mp ha
    obtain ⟨u, hu⟩ :=
      MemoryCall.exists_of_possible (hw.value b (Multiset.mem_of_le hstash hb))
    obtain ⟨b', hb', hid, -⟩ := (stores_loadedBlocks hids _ _).mp hu
    exact Multiset.mem_map.mpr ⟨b', hb', hid⟩
  have hcard := Multiset.card_le_card hle
  rw [Multiset.card_map, Multiset.card_map, Multiset.coe_card] at hcard
  exact Nat.mul_le_mul_right _ hcard

/-- **A Path ORAM never lies.** Load it over any connection, with success or not,
and make any accesses, of which any may fail in any way. No address is stored
twice, and what it has is the value that was written last with success, or one
whose write has failed since; after a read that has returned, the value that it
returned. The client holds no more blocks than were loaded. A further read that
returns, returns such a value. -/
theorem pathOram_never_lies {data : List (OramBlock D)}
    (hids : UniqueKeys OramBlock.id (loadedBlocks data)) {fill : FillDraws C}
    (hfill : ∀ t i, (fill.pad t i).isNormal = false) {calls : List (PathOp C)}
    (haccess : ∀ call ∈ calls, call.isAccess = true) (hpad : ∀ call ∈ calls, call.PadsDummy)
    {ds : List Delivery} {r : Except Exit (Option (OramBlock D))}
    {outs : List (Except Exit (Option (OramBlock D)))} {w : Outage C}
    (hrun : Prog.trace Exit.fatal (PathOp.run (OramService.stub C P.id).relayed P)
      (.fillWithData data fill :: calls) ⟨.new, .new C P.numberOfLeafs, ds⟩ =
        some (r :: outs, w)) :
    UniqueKeys OramBlock.id (w.connected.contents P) ∧
      (∀ b ∈ w.connected.contents P, MemoryCall.possible (loadedValue data)
        ((calls.zip outs).map PathOp.recorded) b.id b.payload) ∧
      w.client.reportClientStorage ≤ (loadedBlocks data).card * ORAM_BLOCK_SIZE ∧
      ∀ call : PathOp C, call.isAccess = true → call.PadsDummy → ∀ a, call.call = .read a →
        ∀ out w', call.run (OramService.stub C P.id).relayed P w = (.ok out, w') →
          ∃ b, out = some b ∧ MemoryCall.possible (loadedValue data)
            ((calls.zip outs).map PathOp.recorded) a b.payload := by
  have hsound := sound_of_trace hids hfill haccess hpad hrun
  refine ⟨by simpa using hsound.unique, fun b hb => hsound.value b (by simpa using hb),
    reportClientStorage_le hids hsound, ?_⟩
  intro call haccess hpad a ha out w' hcall
  exact ((PathOp.leads haccess hpad).ok hsound hcall).2 a ha

/-! ### A small instance

The load of the three buckets goes through, and so does the write up to its last request: the
bucket of the root is stored, but the client does not hear of it.
-/

/-- What a call has returned, apart from the header of a block. -/
def payloadOf (r : Except Exit (Option (OramBlock D))) : Option (Option (D × ℕ)) :=
  r.toOption.map (Option.map OramBlock.payload)

theorem error_of_payloadOf {r : Except Exit (Option (OramBlock D))} (h : payloadOf r = none) :
    ∃ e, r = .error e := by
  rcases r with e | out
  · exact ⟨e, rfl⟩
  · cases h

/-- What a call has returned, from what can be computed of it. -/
theorem ok_of_payloadOf {r : Except Exit (Option (OramBlock D))} {v : D × ℕ}
    (h : payloadOf r = some (some v)) : ∃ b, r = .ok (some b) ∧ b.payload = v := by
  rcases r with e | _ | b
  · cases h
  · cases h
  · exact ⟨b, rfl, Option.some.inj (Option.some.inj h)⟩

/-- Six requests are answered, the seventh is carried out only. -/
def smallOutage : Outage (Codec.plain ℕ) :=
  ⟨.new, .new _ smallTree.numberOfLeafs,
    List.replicate 6 .carried ++ [.unanswered "Deadline Exceeded"]⟩

/-- A write of one of the two blocks, and reads of both. -/
def writeThenReads : List (PathOp (Codec.plain ℕ)) :=
  [.access .kWrite 3 (smallBlock 3 31) smallDraws, .access .kRead 5 dummyBlock smallDraws,
    .access .kRead 3 dummyBlock smallDraws]

/-- The write has failed and has happened: both reads tell so. -/
theorem pathOram_never_lies_small :
    ∃ r e b₅ b w out w', Prog.trace Exit.fatal
        (PathOp.run (OramService.stub _ smallTree.id).relayed smallTree)
        (.fillWithData [smallBlock 3 30, smallBlock 5 50] smallFill :: writeThenReads) smallOutage =
          some ([r, .error e, .ok (some b₅), .ok (some b)], w) ∧
      b.payload = (31, 1) ∧ w.client.reportClientStorage ≤ 2 * ORAM_BLOCK_SIZE ∧
      PathOp.run (OramService.stub _ smallTree.id).relayed smallTree
        (.access .kRead 3 dummyBlock smallDraws) w = (.ok (some out), w') ∧
      out.payload = b.payload := by
  have hreturned : (Prog.trace Exit.fatal
      (PathOp.run (OramService.stub _ smallTree.id).relayed smallTree)
      (.fillWithData [smallBlock 3 30, smallBlock 5 50] smallFill :: writeThenReads)
      smallOutage).map (fun run => (run.1.map payloadOf,
        payloadOf (PathOp.run (OramService.stub _ smallTree.id).relayed smallTree
          (.access .kRead 3 dummyBlock smallDraws) run.2).1)) =
        some ([some none, none, some (some (50, 1)), some (some (31, 1))],
          some (some (31, 1))) := by decide +kernel
  obtain ⟨⟨outs, w⟩, hrun, hanswers⟩ := Option.map_eq_some_iff.mp hreturned
  obtain ⟨houts, hlast⟩ := Prod.mk.inj hanswers
  obtain ⟨r, outs, rfl, -, houts⟩ := List.map_eq_cons_iff.mp houts
  obtain ⟨_, outs, rfl, hwrite, houts⟩ := List.map_eq_cons_iff.mp houts
  obtain ⟨_, outs, rfl, hfive, houts⟩ := List.map_eq_cons_iff.mp houts
  obtain ⟨_, outs, rfl, hthree, houts⟩ := List.map_eq_cons_iff.mp houts
  obtain rfl := List.map_eq_nil_iff.mp houts
  obtain ⟨e, rfl⟩ := error_of_payloadOf hwrite
  obtain ⟨b₅, rfl, -⟩ := ok_of_payloadOf hfive
  obtain ⟨b, rfl, hb⟩ := ok_of_payloadOf hthree
  obtain ⟨out, hout, -⟩ := ok_of_payloadOf hlast
  have haccess : ∀ call ∈ writeThenReads, call.isAccess = true := by
    simp [writeThenReads, PathOp.isAccess]
  have hpad : ∀ call ∈ writeThenReads, call.PadsDummy := by
    have hdraws : ∀ l j, (smallDraws.pad l j).isNormal = false := fun _ _ => rfl
    simp [writeThenReads, PathOp.PadsDummy, hdraws]
  obtain ⟨-, -, hstorage, hlies⟩ :=
    pathOram_never_lies (by decide) (fun _ _ => rfl) haccess hpad hrun
  obtain ⟨out', hout', hvalue⟩ := hlies (.access .kRead 3 dummyBlock smallDraws) rfl
    (fun _ _ => rfl) 3 rfl _ _ (Prod.ext hout rfl)
  obtain rfl := Option.some.inj hout'
  -- the read of block 3 has settled what the write has left open
  have hsettled : out.payload = b.payload := (Option.some.inj (hvalue.2 rfl)).symm
  exact ⟨r, e, b₅, b, w, out, _, hrun, hb, hstorage, Prod.ext hout rfl, hsettled⟩

end ObliviousRam
