import ObliviousRam.PathReplay
import ObliviousRam.OdictOverPath

set_option autoImplicit false

/-!
# A dictionary on a server that replays

The nodes of the dictionary are the blocks of a Path ORAM, and a server that can
only replay may hand out outdated ones. Then the tree need not be one: pairs may
be missing, and a search may fail or not end. But every node carries a pair that
was inserted or loaded, or one of the two that no caller has chosen: that of a
node made from an id only, and what is in a local block that is not initialised
(which padding writes to address `0`).
-/

namespace ObliviousRam

variable {V σ : Type} {Known : ℕ × V → Prop}

/-! ## The cache -/

namespace OdsCache

/-- The node is in the cache. -/
def Holds (c : OdsCache V) (x : TreeNode V) : Prop := ∃ id, c.find id = some x

/-- What is left of the cache was in it before. -/
theorem Holds.erase {c : OdsCache V} {table : List ℕ} {id : ℕ} {x : TreeNode V}
    (h : (⟨table, c.cacheItems.erase id⟩ : OdsCache V).Holds x) : c.Holds x := by
  obtain ⟨k, hk⟩ := h
  rw [find_erase] at hk
  split at hk
  · cases hk
  · exact ⟨k, hk⟩

/-- `Get(id)` shows a node of the cache, or none. -/
theorem replays_get (id : ℕ) :
    (get id).Replays (Holds (V := V)) (fun _ => False) fun ret x => ret = some x := by
  constructor
  · intro c x hx
    rw [get] at hx
    split at hx
    · exact .inl hx
    · split at hx
      · exact .inl hx
      · exact .inl hx
  · rintro c ret c' x hrun rfl
    rw [get] at hrun
    split at hrun
    · cases hrun
    next item hitem =>
      split at hrun
      · cases hrun
        exact .inl ⟨id, hitem⟩
      · cases hrun

/-- An eviction brings no node in. -/
theorem evict_holds {maxSize : ℕ} {c : OdsCache V} {x : TreeNode V}
    (h : (evict maxSize c).2.Holds x) : c.Holds x := by
  rw [evict] at h
  split at h
  · split at h
    · exact h
    · split at h
      · exact h
      · exact h.erase
  · exact h

/-- What `Put` gives back is dropped. -/
theorem replays_put (maxSize id : ℕ) (item : TreeNode V) :
    (put maxSize id item).Replays Holds (· = item) fun _ _ => False := by
  constructor
  · intro c x hx
    rw [put, Prog.modify_bind, Prog.modify_bind] at hx
    obtain ⟨k, hk⟩ := evict_holds hx
    by_cases hid : k = id
    · subst hid
      rw [find, AList.lookup_insert] at hk
      exact .inr (Option.some.inj hk).symm
    · rw [find, AList.lookup_insert_ne hid] at hk
      split at hk
      · exact .inl (Holds.erase ⟨k, hk⟩)
      · exact .inl ⟨k, hk⟩
  · rintro c _ _ x _ ⟨⟩

theorem replays_front :
    front.Replays (Holds (V := V)) (fun _ => False) fun item x => item = x := by
  constructor
  · intro c x hx
    rw [front] at hx
    split at hx
    · exact .inl hx
    · split at hx
      · exact .inl hx
      · exact .inl hx
  · rintro c item c' _ hrun rfl
    rw [front] at hrun
    split at hrun
    · cases hrun
    next id _ _ =>
      split at hrun
      · cases hrun
      next hitem =>
        cases hrun
        exact .inl ⟨id, hitem⟩

theorem replays_pop : pop.Replays (Holds (V := V)) (fun _ => False) fun _ _ => False := by
  constructor
  · intro c x hx
    rw [pop] at hx
    split at hx
    · exact .inl hx
    · split at hx
      · exact .inl hx.erase
      · exact .inl hx
  · rintro c _ _ x _ ⟨⟩

theorem replays_clear :
    (clear (ε := Exit)).Replays (Holds (V := V)) (fun _ => False) fun _ _ => False := by
  constructor
  · rintro c x ⟨k, hk⟩
    cases hk
  · rintro c _ _ x _ ⟨⟩

end OdsCache

/-! ## The controller

In every function of the controller a node is taken from the cache or from the ORAM,
changed in its links and its height, and written. None of them makes up a pair. The
lemmas say this function by function; `Known` grows with the insertions and never
shrinks. -/

/-- An ORAM that keeps `I` and answers with nodes whose pairs are known, if it is
sent such nodes only. -/
structure OdictConfig.Replays [Inhabited V] (I : σ → Prop) (Known : ℕ × V → Prop)
    (K : OdictConfig V σ) : Prop where
  access : ∀ {op id} {block : OramBlock (TreeNode V)}, (op = .kWrite → Known block.data.kvPair) →
    (K.access op id block).Yields I fun out => Known out.data.kvPair
  garbage : Known K.garbage.data.kvPair
  unset : Known (0, default)

namespace OdictController

open OdsCache

/-- The ORAM keeps its invariant, and the pairs in the cache are known. -/
structure Faithful (I : σ → Prop) (Known : ℕ × V → Prop) (w : OdictController V σ) : Prop where
  oram : I w.oram
  cache : Prog.Only OdsCache.Holds (fun x => Known x.kvPair) w.odsCache

section

variable {I : σ → Prop} {K : OdictConfig V σ} {α : Type}

/-- What changes neither the ORAM nor the cache. -/
theorem yields_modify {f : OdictController V σ → OdictController V σ}
    (horam : ∀ w, (f w).oram = w.oram) (hcache : ∀ w, (f w).odsCache = w.odsCache) :
    Prog.Yields (Faithful I Known) (Prog.modify (ε := Exit) f) fun _ => True :=
  .modify fun w hw => ⟨(horam w).symm ▸ hw.oram, (hcache w).symm ▸ hw.cache⟩

/-- A call of the ORAM leaves the cache alone. -/
theorem yields_onOram {m : Prog Exit σ α} {R : α → Prop} (hm : m.Yields I R) :
    Prog.Yields (Faithful (V := V) I Known) (onOram m) R :=
  hm.zoom (fun _ hw => hw.oram) fun _ _ hw hs => ⟨hs, hw.cache⟩

/-- A call of the cache leaves the ORAM alone: what it shows is known if what it is sent is. -/
theorem yields_onCache {m : Prog Exit (OdsCache V) α} {sent : TreeNode V → Prop}
    {shown : α → TreeNode V → Prop} (hm : m.Replays OdsCache.Holds sent shown)
    (hsent : ∀ x, sent x → Known x.kvPair) :
    Prog.Yields (Faithful (σ := σ) I Known) (onCache m) fun a =>
      ∀ x, shown a x → Known x.kvPair :=
  (hm.yields hsent).zoom (fun _ hw => hw.cache) fun _ _ hw hc => ⟨hw.oram, hc⟩

theorem yields_cachePut (id : ℕ) {node : TreeNode V} (hnode : Known node.kvPair) :
    Prog.Yields (Faithful I Known) (cachePut K id node) fun _ => True :=
  .bind (yields_onCache (replays_put _ id node) fun _ hx => hx ▸ hnode) fun _ _ =>
    yields_modify (fun _ => rfl) fun _ => rfl

theorem yields_get (id : ℕ) :
    Prog.Yields (Faithful (σ := σ) I Known) (onCache (OdsCache.get id)) fun ret =>
      ∀ x, ret = some x → Known x.kvPair :=
  yields_onCache (replays_get id) fun _ hx => hx.elim

theorem yields_writeNode (reason : String) {node : TreeNode V} (hnode : Known node.kvPair) :
    Prog.Yields (Faithful I Known) (writeNode K reason node) fun _ => True :=
  .bind (.mapError (.bind (yields_modify (fun _ => rfl) fun _ => rfl) fun _ _ =>
    .bind (yields_get node.id) fun _ _ => .bind (yields_cachePut node.id hnode) fun _ _ =>
      .pure (R := fun _ => True) trivial)) fun _ _ => .pure trivial

variable [Inhabited V] (h : K.Replays I Known)
include h

/-- A node comes from the cache or is the one just read. -/
theorem yields_cacheHelper (id : ℕ) {node : TreeNode V} (hnode : Known node.kvPair) :
    Prog.Yields (Faithful I Known) (cacheHelper K id node) fun x => Known x.kvPair := by
  refine .bind (yields_onOram (h.access fun hop => ?_)) fun block hblock => .pure ?_
  · cases hop
  · split
    · exact hblock
    · exact hnode

/-- **What is read is known**, from the cache or from the ORAM. -/
theorem yields_readNode (reason : String) (id : ℕ) :
    Prog.Yields (Faithful I Known) (readNode K reason id) fun x => Known x.kvPair := by
  refine .mapError (.bind (yields_modify (fun _ => rfl) fun _ => rfl) fun _ _ =>
    .bind (yields_get id) fun cached hcached => ?_)
  cases cached with
  | some x => exact .pure (hcached x rfl)
  | none =>
    exact .bind (.mapError (yields_cacheHelper h id h.unset)) fun x hx =>
      .bind (yields_cachePut id hx) fun _ _ => .pure hx

/-! ### The tree -/

/-- The rotations change ids and heights, never a pair. -/
theorem yields_leftRotate (rootId : ℕ) :
    Prog.Yields (Faithful I Known) (leftRotate K rootId) fun x => Known x.kvPair :=
  .bind (yields_readNode h _ _) fun _ hroot => .bind (yields_readNode h _ _) fun _ hright =>
    .bind (yields_writeNode _ hroot) fun _ _ => .bind (yields_writeNode _ hright) fun _ _ =>
      .pure hright

theorem yields_rightRotate (rootId : ℕ) :
    Prog.Yields (Faithful I Known) (rightRotate K rootId) fun x => Known x.kvPair :=
  .bind (yields_readNode h _ _) fun _ hroot => .bind (yields_readNode h _ _) fun _ hleft =>
    .bind (yields_writeNode _ hroot) fun _ _ => .bind (yields_writeNode _ hleft) fun _ _ =>
      .pure hleft

theorem yields_leftRightRotate (rootId : ℕ) :
    Prog.Yields (Faithful I Known) (leftRightRotate K rootId) fun x => Known x.kvPair :=
  .bind (yields_readNode h _ _) fun _ hroot => .bind (yields_leftRotate h _) fun _ _ =>
    .bind (yields_writeNode _ hroot) fun _ _ => yields_rightRotate h _

theorem yields_rightLeftRotate (rootId : ℕ) :
    Prog.Yields (Faithful I Known) (rightLeftRotate K rootId) fun x => Known x.kvPair :=
  .bind (yields_readNode h _ _) fun _ hroot => .bind (yields_rightRotate h _) fun _ _ =>
    .bind (yields_writeNode _ hroot) fun _ _ => yields_leftRotate h _

/-- A repair returns a node with a known pair, and writes no other kind. -/
theorem yields_balance {root : TreeNode V} (hroot : Known root.kvPair) :
    Prog.Yields (Faithful I Known) (balance K root) fun x => Known x.kvPair :=
  .ite (fun _ => .bind (yields_readNode h _ _) fun _ _ =>
      .ite (fun _ => yields_rightRotate h _) fun _ => yields_leftRightRotate h _) fun _ =>
    .ite (fun _ => .bind (yields_readNode h _ _) fun _ _ =>
      .ite (fun _ => yields_leftRotate h _) fun _ => yields_rightLeftRotate h _) fun _ =>
        .pure hroot

/-- The node that a search ends at has the key. -/
theorem yields_internalFind (key fuel rootId : ℕ) :
    Prog.Yields (Faithful I Known) (internalFind K key fuel rootId) fun found =>
      ∀ x, found = some x → x.kvPair.1 = key ∧ Known x.kvPair := by
  induction fuel generalizing rootId with
  | zero => exact .throw _
  | succ fuel ih =>
    refine .ite (fun _ => .pure ?_) fun _ => .bind (yields_readNode h _ _) fun root hroot =>
      .ite (fun hkey => .pure ?_) fun _ => .ite (fun _ => ih _) fun _ => ih _
    · rintro x ⟨⟩
    · rintro x ⟨⟩
      exact ⟨hkey, hroot⟩

/-- An insertion writes its own pair and pairs that it has read. -/
theorem yields_internalInsert {node : TreeNode V} (hnode : Known node.kvPair) (fuel rootId : ℕ) :
    Prog.Yields (Faithful I Known) (internalInsert K node fuel rootId) fun x => Known x.kvPair := by
  induction fuel generalizing rootId with
  | zero => exact .throw _
  | succ fuel ih =>
    -- whichever child was changed, the root is written and balanced
    have hrest : ∀ {root : TreeNode V}, Known root.kvPair → Prog.Yields (Faithful I Known)
        (writeNode K "ReadOram W failed" root >>= fun _ => balance K root)
        fun x => Known x.kvPair :=
      fun hroot => .bind (yields_writeNode _ hroot) fun _ _ => yields_balance h hroot
    refine .ite (fun _ => .mapError (.bind (yields_modify (fun _ => rfl) fun _ => rfl) fun _ _ =>
      .bind (yields_cachePut _ hnode) fun _ _ => .pure hnode)) fun _ =>
        .bind (yields_readNode h _ _) fun root hroot => ?_
    exact .ite (fun _ => .bind (ih _) fun _ _ => hrest hroot) fun _ =>
      .ite (fun _ => .bind (ih _) fun _ _ => hrest hroot) fun _ => hrest hroot

/-! ### The end of an operation -/

/-- Padding sends the local `block`, whose pair is taken to be known. -/
theorem yields_padAccesses {opType : Operation} (num : ℕ) {block : OramBlock (TreeNode V)}
    (hblock : Known block.data.kvPair) :
    Prog.Yields (Faithful I Known) (padAccesses K opType num block) fun _ => True := by
  induction num generalizing block with
  | zero => exact .pure trivial
  | succ num ih => exact .bind (yields_onOram (h.access fun _ => hblock)) fun _ hout => ih hout

theorem yields_doPad (opType : Operation) (num : ℕ) :
    Prog.Yields (Faithful I Known) (doPad K opType num) fun _ => True :=
  yields_padAccesses h num h.garbage

/-- A write-back that fails is not noticed. -/
theorem yields_evictCache (size : ℕ) :
    Prog.Yields (Faithful I Known) (evictCache K size) fun _ => True := by
  induction size with
  | zero => exact .pure trivial
  | succ size ih =>
    refine .get_bind fun w _ => .ite (fun _ => .pure trivial) fun _ =>
      .bind (yields_onCache replays_front fun _ hx => hx.elim) fun node hnode => ?_
    have hpair : Known node.kvPair := hnode node rfl
    exact .bind (yields_ignoreStatus (yields_onOram (h.access fun _ => hpair)) hpair) fun _ _ =>
      .bind (yields_onCache replays_pop fun _ hx => hx.elim) fun _ _ => ih

theorem yields_odsFinalize (padVal : ℕ) :
    Prog.Yields (Faithful I Known) (odsFinalize K padVal) fun _ => True :=
  .get_bind fun _ _ => .ite (fun _ => .throw _) fun _ => .bind (yields_doPad h _ _) fun _ _ =>
    .get_bind fun _ _ => .bind (yields_evictCache h _) fun _ _ => .get_bind fun _ _ =>
      .ite (fun _ => .throw _) fun _ => .bind (yields_doPad h _ _) fun _ _ =>
        yields_modify (fun _ => rfl) fun _ => rfl

/-! ### The operations -/

omit [Inhabited V] h in
/-- The begin of an operation changes counters only. -/
theorem yields_odsStart : Prog.Yields (Faithful (V := V) I Known) odsStart fun _ => True :=
  .bind (yields_onCache replays_clear fun _ hx => hx.elim) fun _ _ =>
    yields_modify (fun _ => rfl) fun _ => rfl

/-- A search returns a node only if it has the key. -/
theorem yields_find (key : ℕ) :
    Prog.Yields (Faithful I Known) (find K key) fun found =>
      ∀ x, found = some x → x.kvPair.1 = key ∧ Known x.kvPair := by
  have hfind : Prog.Yields (Faithful I Known) (findAccess K key) fun found =>
      ∀ x, found = some x → x.kvPair.1 = key ∧ Known x.kvPair :=
    .bind yields_odsStart fun _ _ => .get_bind fun _ _ => yields_internalFind h key _ _
  exact .bind hfind fun _ hfound => .get_bind fun _ _ =>
    .bind (.mapError (yields_odsFinalize h _)) fun _ _ => .pure hfound

/-- `Insert` deals in known pairs only, if its own is one. -/
theorem yields_insert {kvPair : ℕ × V} (hpair : Known kvPair) :
    Prog.Yields (Faithful I Known) (insert K kvPair) fun _ => True := by
  have hinsert : Prog.Yields (Faithful I Known) (insertAccess K kvPair) fun _ => True :=
    .bind yields_odsStart fun _ _ => .get_bind fun _ _ =>
      .bind (yields_modify (fun _ => rfl) fun _ => rfl) fun _ _ =>
        .bind (yields_internalInsert h hpair _ _) fun _ _ =>
          .bind (yields_modify (fun _ => rfl) fun _ => rfl) fun _ _ => .pure trivial
  exact .bind hinsert fun _ _ => .get_bind fun _ _ =>
    .bind (.mapError (yields_odsFinalize h _)) fun _ _ => .pure trivial

/-- One call, whatever becomes of it. -/
theorem keeps_faithful {c : OdictCall V} (hc : ∀ kvPair, c = .insert kvPair → Known kvPair) :
    Prog.Keeps (Faithful I Known) (c.run K) := by
  cases c with
  | insert kvPair =>
    exact (Prog.Yields.bind (yields_insert h (hc kvPair rfl)) fun _ _ =>
      .pure (R := fun _ => True) trivial).keeps
  | find key => exact (yields_find h key).keeps

end

end OdictController

/-! ## Over a Path ORAM

`LinearReplay` says of blocks what is said of nodes here: a Path ORAM on such a server
returns blocks that were loaded or written. So its invariant serves as that of the ORAM
below the dictionary. -/

section

open PathOramController (Returned yields_access yields_fillWithData)

variable [Inhabited V] {C : Codec (TreeNode V)} {P : PathOramConfig} {A : ArraySetup V}
  {knows : σ → C.Sealed → Prop} {S : TreeStub C σ}

/-- Every node that the ORAM deals in has a known pair. -/
def Backbone.Faithful (knows : σ → C.Sealed → Prop) (Known : ℕ × V → Prop) (w : Backbone V σ) :
    Prop :=
  PathOramController.Faithful knows (fun _ payload => Known payload.1.kvPair) w.1

/-- The Path ORAM answers with blocks that were given to it, so the dictionary over it
reads nodes with known pairs. -/
theorem replays_overPath (hS : S.Replays knows) {draws : ℕ → AccessDraws C}
    (hdraws : ∀ n l j, ((draws n).pad l j).isNormal = false)
    (hgarbage : Known A.garbage.data.kvPair) (hunset : Known (0, default)) :
    (A.overPath S P draws).Replays (Backbone.Faithful knows Known) Known := by
  refine ⟨fun {op id block} hblock => ?_, hgarbage, hunset⟩
  have haccess : ∀ n, Prog.Yields
      (PathOramController.Faithful knows fun _ payload => Known payload.1.kvPair)
      (PathOramController.access S P op id block (draws n)) fun out =>
        Known out.data.kvPair := fun n =>
    (yields_access hS hblock (hdraws n)).weaken fun out hout => by
      rw [Returned] at hout
      split at hout
      next hop => exact hout ▸ hblock hop
      next => exact hout.2
  constructor
  · rintro w out w' hw hrun
    obtain ⟨hok, rfl⟩ := Prod.mk.inj hrun
    exact (haccess w.2).ok hw (Prod.ext hok rfl)
  · rintro w e w' hw hrun
    obtain ⟨herror, rfl⟩ := Prod.mk.inj hrun
    exact (haccess w.2).error hw (Prod.ext herror rfl)

/-- **A dictionary makes nothing up**, whatever the server replays. What `Find`
returns has the key, and its pair was inserted or loaded, or is one of the two
that no caller has chosen. -/
theorem odict_authentic (hS : S.Replays knows) {s : σ} (hnew : ∀ c, ¬knows s c)
    {data : List (OramBlock (TreeNode V))} {fill : FillDraws C}
    (hfill : ∀ t i, (fill.pad t i).isNormal = false) {w₀ : PathSystem (TreeNode V) σ}
    (hload : PathOramController.fillWithData S P data fill ⟨.new, s⟩ = (.ok (), w₀))
    {draws : ℕ → AccessDraws C} (hdraws : ∀ n l j, ((draws n).pad l j).isNormal = false)
    {calls : List (OdictCall V)} {outs : List (Except Exit (Option (TreeNode V)))}
    {w w' : OdictController V (Backbone V σ)}
    (hrun : Prog.trace Exit.fatal (OdictCall.run (A.overPath S P draws)) calls (.new (w₀, 0)) =
      some (outs, w)) {key : ℕ} {x : TreeNode V}
    (hfind : (OdictCall.find key).run (A.overPath S P draws) w = (.ok (some x), w')) :
    x.kvPair.1 = key ∧ (.insert x.kvPair ∈ calls ∨
      (∃ b ∈ data, b.isNormal = true ∧ b.data.kvPair = x.kvPair) ∨
      x.kvPair = A.garbage.data.kvPair ∨ x.kvPair = (0, default)) := by
  let Known : ℕ × V → Prop := fun kvPair => .insert kvPair ∈ calls ∨
    (∃ b ∈ data, b.isNormal = true ∧ b.data.kvPair = kvPair) ∨
    kvPair = A.garbage.data.kvPair ∨ kvPair = (0, default)
  have hK : (A.overPath S P draws).Replays (Backbone.Faithful knows Known) Known :=
    replays_overPath hS hdraws (.inr (.inr (.inl rfl))) (.inr (.inr (.inr rfl)))
  have hdata : ∀ b ∈ data, b.Vouched OramBlock.payload fun _ payload => Known payload.1.kvPair :=
    fun b hb hnormal => .inr (.inl ⟨b, hb, hnormal, rfl⟩)
  have hw₀ : PathOramController.Faithful knows (fun _ payload => Known payload.1.kvPair) w₀ :=
    ((yields_fillWithData hS hfill hdata).ok
      ⟨fun c hc => absurd hc (hnew c), fun b hb => absurd hb List.not_mem_nil⟩ hload).1
  have hstart : OdictController.Faithful (Backbone.Faithful knows Known) Known (.new (w₀, 0)) := by
    refine ⟨hw₀, ?_⟩
    rintro x ⟨id, hid⟩
    cases hid
  have hw := Prog.Keeps.trace (fun call hcall => OdictController.keeps_faithful hK
    fun kvPair he => .inl (he ▸ hcall)) hstart hrun
  exact ((OdictController.yields_find hK key).ok hw hfind).2 x rfl

end

/-- A dictionary on a server of its own. -/
def ownOdict : OdictConfig ℕ (Backbone ℕ (TreeOramServerStorage (Codec.plain (TreeNode ℕ)))) :=
  (OdictCall.smallOdict 4).overPath (OramService.stub _ fiveBlocks.id) fiveBlocks fiveDraws

/-- Its ORAM once it is loaded. -/
def ownLoaded : PathSystem (TreeNode ℕ) (TreeOramServerStorage (Codec.plain (TreeNode ℕ))) :=
  (PathOramController.fillWithData (OramService.stub _ fiveBlocks.id) fiveBlocks fiveNodes fiveFill
    ⟨.new, .new _ fiveBlocks.numberOfLeafs⟩).2

/-- After two insertions the pair of the second key is found, and it is the one that was
inserted. -/
theorem odict_authentic_small : ∃ outs w x w',
    Prog.trace Exit.fatal (OdictCall.run ownOdict) [.insert (1, 10), .insert (2, 20)]
      (.new (ownLoaded, 0)) = some (outs, w) ∧
    (OdictCall.find 2).run ownOdict w = (.ok (some x), w') ∧ x.kvPair = (2, 20) := by
  have hload : PathOramController.fillWithData (OramService.stub _ fiveBlocks.id) fiveBlocks
      fiveNodes fiveFill ⟨.new, .new (Codec.plain (TreeNode ℕ)) fiveBlocks.numberOfLeafs⟩ =
        (.ok (), ownLoaded) := rfl
  have hfound : (Prog.trace Exit.fatal (OdictCall.run ownOdict) [.insert (1, 10), .insert (2, 20)]
      (.new (ownLoaded, 0))).any
        (fun t => ((OdictCall.find 2).run ownOdict t.2).1.toOption.join.isSome) = true := by
    decide +kernel
  obtain ⟨⟨outs, w⟩, hrun, hsome⟩ := (Option.any_eq_true _ _).mp hfound
  obtain ⟨x, w', hfind⟩ : ∃ x w', (OdictCall.find 2).run ownOdict w = (.ok (some x), w') := by
    rcases h : (OdictCall.find 2).run ownOdict w with ⟨e | _ | x, w'⟩
    · rw [h] at hsome
      cases hsome
    · rw [h] at hsome
      cases hsome
    · exact ⟨x, w', rfl⟩
  refine ⟨outs, w, x, w', hrun, hfind, ?_⟩
  obtain ⟨hkey, hpair⟩ := odict_authentic (OramService.stub_replays fiveBlocks.id)
    (TreeOramServerStorage.not_holds_new _) (fun _ _ => rfl) hload (fun _ _ _ => rfl) hrun hfind
  -- only the insertion of 2 has this key
  rcases hpair with hmem | ⟨b, hb, -, hpair⟩ | hpair | hpair
  · rcases List.mem_pair.mp hmem with he | he
    · rw [OdictCall.insert.inj he] at hkey
      cases hkey
    · exact OdictCall.insert.inj he
  · have hzero : ∀ b ∈ fiveNodes, b.data.kvPair.1 = 0 := by decide
    cases (hzero b hb).symm.trans ((congrArg Prod.fst hpair).trans hkey)
  · cases (congrArg Prod.fst hpair).symm.trans hkey
  · cases (congrArg Prod.fst hpair).symm.trans hkey

end ObliviousRam
