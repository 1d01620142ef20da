import ObliviousRam.OdictMirror
import ObliviousRam.OdictMap
import ObliviousRam.SharedPath

set_option autoImplicit false

/-!
# The dictionary over a Path ORAM

`OdictController` is verified over an array. Here it has the ORAM it is made for:
a standalone Path ORAM with the addresses `0`, …, `last`, whose accesses take
their random choices from a stream. The array is what such an ORAM holds
(`Realizes`), so the dictionary over the one mirrors the dictionary over the
other; and with the stub of `SharedServer` it does so among other clients.

* `odict_shared` — whatever is inserted and looked up, and whatever the others
  send, the nodes that come out are those of the dictionary over the array.
* `odict_shared_is_map` — so the dictionary of a client among others is a map.
-/

namespace ObliviousRam

open Prog (Keeps Corresponds)
open PathSystem PathOramController

variable {V σ τ : Type} {C : Codec (TreeNode V)} {L : Sodium} {P : PathOramConfig}
  {A : ArraySetup V}

/-! ## A Path ORAM as the backbone

The dictionary needs an ORAM that never answers that an address is missing. A standalone
Path ORAM that was loaded with all the addresses does, and no access takes one away. -/

/-- A Path ORAM, and how many accesses have drawn their random choices. -/
abbrev Backbone (V σ : Type) : Type := PathSystem (TreeNode V) σ × ℕ

/-- `oram_controller_->Access`, with the next random choices of the stream. -/
def pathAccess (S : TreeStub C σ) (P : PathOramConfig) (draws : ℕ → AccessDraws C)
    (op : Operation) (id : ℕ) (block : OramBlock (TreeNode V)) :
    Prog Exit (Backbone V σ) (OramBlock (TreeNode V)) := fun w =>
  ((access S P op id block (draws w.2) w.1).1, (access S P op id block (draws w.2) w.1).2, w.2 + 1)

/-- The configuration over a Path ORAM. -/
def ArraySetup.overPath (A : ArraySetup V) (S : TreeStub C σ) (P : PathOramConfig)
    (draws : ℕ → AccessDraws C) : OdictConfig V (Backbone V σ) where
  access := pathAccess S P draws
  clientCacheMaxSize := A.clientCacheMaxSize
  computePadVal := A.computePadVal
  garbage := A.garbage

/-- The ORAM holds the array: one block for each address, with its node. -/
structure Realizes (P : PathOramConfig) (last : ℕ) (o : ℕ → TreeNode V)
    (w : PathSystem (TreeNode V) (TreeOramServerStorage C)) : Prop where
  inv : w.Inv P
  initialized : w.client.isInitialized = true
  ids : (w.contents P).map OramBlock.id = Multiset.range (last + 1)
  data_eq : ∀ b ∈ w.contents P, b.data = o b.id

/-- The addresses of the array are those of the ORAM. -/
theorem Realizes.exists_block {last : ℕ} {o : ℕ → TreeNode V}
    {w : PathSystem (TreeNode V) (TreeOramServerStorage C)} (hw : Realizes P last o w) {id : ℕ} :
    (∃ b ∈ w.contents P, b.id = id) ↔ id ≤ last := by
  rw [← Multiset.mem_map, hw.ids, Multiset.mem_range, Nat.lt_succ_iff]

/-- Blocks with different ids are an array. -/
theorem exists_array [Inhabited V] {s : Multiset (OramBlock (TreeNode V))}
    (hs : UniqueKeys OramBlock.id s) : ∃ o : ℕ → TreeNode V, ∀ b ∈ s, b.data = o b.id := by
  have hvalue : ∀ id, ∃ x : TreeNode V, ∀ b ∈ s, b.id = id → b.data = x := by
    intro id
    by_cases h : ∃ b ∈ s, b.id = id
    · obtain ⟨b, hb, hid⟩ := h
      exact ⟨b.data, fun c hc hcid => by rw [hs.eq_of_key_eq hc hb (hcid.trans hid.symm)]⟩
    · exact ⟨.new id, fun b hb hid => absurd ⟨b, hb, hid⟩ h⟩
  choose o ho using hvalue
  exact ⟨o, fun b hb => ho b.id b hb rfl⟩

/-- A load of one block for each address. -/
theorem realizes_of_fillWithData {data : List (OramBlock (TreeNode V))} {fill : FillDraws C}
    {w : PathSystem (TreeNode V) (TreeOramServerStorage C)} {last : ℕ} {o : ℕ → TreeNode V}
    (hfill : fillWithData (OramService.stub C P.id) P data fill (PathSystem.init C P) = (.ok (), w))
    (hlen : data.length ≤ P.capacity)
    (hids : (loadedBlocks data).map OramBlock.id = Multiset.range (last + 1))
    (hpad : ∀ t i, (fill.pad t i).isNormal = false)
    (ho : ∀ b ∈ loadedBlocks data, b.data = o b.id) : Realizes P last o w := by
  have hunique : UniqueKeys OramBlock.id (loadedBlocks data) := by
    rw [UniqueKeys, hids]
    exact Multiset.nodup_range _
  obtain ⟨w', hrun, hinv, hcont, hinit⟩ := fillWithData_spec hpad hlen hunique
  obtain rfl : w' = w := congrArg Prod.snd (hrun.symm.trans hfill)
  rw [← loadedBlocks] at hcont
  exact ⟨hinv, hinit, by rw [hcont, hids], by rw [hcont]; exact ho⟩

/-- A write to an address that is stored. -/
theorem Realizes.replaceKey {last id : ℕ} {o : ℕ → TreeNode V} {buffer : OramBlock (TreeNode V)}
    {node : TreeNode V} (hnode : buffer.data = node)
    {w w' : PathSystem (TreeNode V) (TreeOramServerStorage C)} (hw : Realizes P last o w)
    (hinv : w'.Inv P) (hinit : w'.client.isInitialized = true)
    (hcont : w'.contents P =
      ObliviousRam.replaceKey OramBlock.id id (·.store buffer) (w.contents P)) :
    Realizes P last (Function.update o id node) w' := by
  refine ⟨hinv, hinit, ?_, fun b hb => ?_⟩
  · rw [hcont, map_key_replaceKey fun b => b.store_id buffer, hw.ids]
  · rw [hcont] at hb
    obtain ⟨b₀, hb₀, rfl⟩ := Multiset.mem_map.mp hb
    split
    next he =>
      rw [OramBlock.store_id, he, Function.update_self, ← hnode]
      rfl
    next hne => rw [Function.update_of_ne hne, hw.data_eq b₀ hb₀]

/-- **A Path ORAM is an array**, for every operation on every address. -/
theorem mirrors_pathAccess (hstand : P.standalone = true) {draws : ℕ → AccessDraws C}
    (hdraws : ∀ n l j, ((draws n).pad l j).isNormal = false) (last : ℕ) {op : Operation}
    (hop : op ≠ .kInvalid) (id : ℕ) {block block' : OramBlock (TreeNode V)}
    (hblock : SameNode block block') :
    Prog.Mirrors (fun _ => False) Exit.UpToStatus (fun o w => Realizes P last o w.1) SameNode
      (arrayAccess last op id block)
      (pathAccess (OramService.stub C P.id) P draws op id block') where
  keeps := fun _ hbad => hbad
  step := by
    rintro o ⟨w, n⟩ hw
    right
    by_cases hid : id ≤ last
    · obtain ⟨b, hb, rfl⟩ := hw.exists_block.mpr hid
      obtain ⟨w', hrun, hinv, hcont, hinit⟩ := internalAccess_found block' hw.inv hw.initialized
        hop (hdraws n) hb rfl
      rw [← access_eq hw.initialized] at hrun
      rw [pathAccess, hrun]
      cases op with
      | kInvalid => exact absurd rfl hop
      | kRead =>
        rw [arrayAccess, if_pos hid]
        rw [accessed, if_neg (by decide), hstand, if_neg (by decide)] at hcont
        exact ⟨.ok (hw.data_eq b hb).symm, hinv, hinit, by rw [hcont, hw.ids],
          by rw [hcont]; exact hw.data_eq⟩
      | kWrite =>
        rw [arrayAccess, if_pos hid]
        rw [accessed, if_pos rfl] at hcont
        exact ⟨.ok hblock, hw.replaceKey hblock.symm hinv hinit hcont⟩
    · obtain ⟨st, w', hrun, -, hinv, hcont, hinit⟩ := internalAccess_missing block' (draws n) hw.inv
        hw.initialized hop fun b hb he => hid (hw.exists_block.mp ⟨b, hb, he⟩)
      rw [← access_eq hw.initialized] at hrun
      have harray : arrayAccess last op id block o = (.error (.status (.make .kObjectNotFound
          "The requested block is not found." "Access")), o) := if_neg hid
      rw [pathAccess, hrun, harray]
      exact ⟨.error (.status _ _), hinv, hinit, by rw [hcont, hw.ids],
        by rw [hcont]; exact hw.data_eq⟩

/-- An access over mirrored stubs, with the stream at the same place. -/
theorem TreeStub.Mirrors.pathAccess [Nonempty σ] {S : TreeStub C σ} {T : TreeStub C τ}
    {Bad : τ → Prop} {R : σ → τ → Prop} (h : S.Mirrors Bad R T) (draws : ℕ → AccessDraws C)
    (op : Operation) (id : ℕ) (block : OramBlock (TreeNode V)) :
    Prog.Mirrors (fun v => Bad v.1.server) Eq
      (fun w v => PathSystem.Lift R w.1 v.1 ∧ w.2 = v.2) Eq
      (ObliviousRam.pathAccess S P draws op id block)
      (ObliviousRam.pathAccess T P draws op id block) where
  keeps := fun v hbad => (h.access op id block (draws v.2)).keeps v.1 hbad
  step := by
    rintro ⟨w, n⟩ ⟨v, _⟩ ⟨hR, rfl⟩
    rcases (h.access (P := P) op id block (draws n)).step w v hR with hbad | ⟨hout, hR'⟩
    · exact .inl hbad
    · exact .inr ⟨hout, hR', rfl⟩

/-! ## Among other clients

The dictionary over the shared server mirrors the one over a server of its own, which
mirrors the one over the array. The first step is `SharedPath`, the second `Realizes`. -/

open OramServer (ServerEvent Shared Gone Shares ByOthers)
open ServiceState (serve)

instance [Inhabited V] : Nonempty (TreeNode V) := ⟨.new 0⟩

/-- The dictionary of a client among others, and an array: the array is what the
tree on the table holds. -/
def HeldAmong (P : PathOramConfig) (last : ℕ) (header : RequestHeader) :
    (ℕ → TreeNode V) → Backbone V (Shared L C) → Prop :=
  Relation.Comp (fun o (w : Backbone V (TreeOramServerStorage C)) => Realizes P last o w.1)
    (fun w v => PathSystem.Lift (Shares (treeClass C) header) w.1 v.1 ∧ w.2 = v.2)

/-- The dictionary over the array, mirrored on the shared server. -/
theorem mirrors_overPath (hstand : P.standalone = true) {draws : ℕ → AccessDraws C}
    (hdraws : ∀ n l j, ((draws n).pad l j).isNormal = false) {header : RequestHeader}
    (lost : String) (hid : header.id = P.id) :
    A.config.Mirrors (fun v => Gone v.1.server) (HeldAmong (L := L) P A.last header)
      (A.overPath (OramServer.treeStub header lost) P draws) where
  access := by
    intro op hop id block block' hblock
    have hstub := OramServer.mirrors_treeStub (C := C) (L := L) header lost
    rw [hid] at hstub
    exact (mirrors_pathAccess hstand hdraws A.last hop id hblock).trans
      (hstub.pathAccess draws op id block')
  clientCacheMaxSize_eq := rfl
  computePadVal_eq := rfl
  garbage_eq := rfl

/-- The process behind the dictionary's stub is gone. -/
def OdictController.ServerGone (v : OdictController V (Backbone V (Shared L C))) : Prop :=
  v.oram.1.ServerGone

section

variable {header : RequestHeader} {lost : String} {blockSize : ℕ} {w w' : ServiceState L C}
  {answer : RpcAnswer C} {schedule : List (List (ServerEvent C))}
  {data : List (OramBlock (TreeNode V))} {fill : FillDraws C} {o : ℕ → TreeNode V}
  {v₀ : PathSystem (TreeNode V) (Shared L C)}

/-- The dictionary once its ORAM is loaded. -/
theorem heldAmong_of_fillWithData (hid : header.id = P.id)
    (hinit : serve (.table (.request (.initTreeOram header P.numberOfLeafs blockSize))) w =
      (.ok answer, w'))
    (hothers : ByOthers header schedule)
    (hfill : fillWithData (OramServer.treeStub header lost) P data fill
      ⟨.new, some w', schedule⟩ = (.ok (), v₀)) (hup : ¬v₀.ServerGone)
    (hlen : data.length ≤ P.capacity)
    (hids : (loadedBlocks data).map OramBlock.id = Multiset.range (A.last + 1))
    (hpad : ∀ t i, (fill.pad t i).isNormal = false)
    (ho : ∀ b ∈ loadedBlocks data, b.data = o b.id) :
    OdictController.Lift (HeldAmong P A.last header) (.new o : ArrayOdict V) (.new (v₀, 0)) := by
  obtain ⟨u₀, hown, hshared⟩ := shared_load hid hinit hothers hfill hup
  exact ⟨(v₀, 0), ⟨(u₀, 0), realizes_of_fillWithData hown hlen hids hpad ho, hshared, rfl⟩, rfl⟩

variable [Inhabited V]

/-- A server that is up at the end was up before the calls. -/
theorem serverUp_of_trace (hstand : P.standalone = true) (hid : header.id = P.id)
    {draws : ℕ → AccessDraws C} (hdraws : ∀ n l j, ((draws n).pad l j).isNormal = false)
    {calls : List (OdictCall V)} {outs : List (Except Exit (Option (TreeNode V)))}
    {v : OdictController V (Backbone V (Shared L C))}
    (hrun : Prog.trace Exit.fatal
      (OdictCall.run (A.overPath (OramServer.treeStub header lost) P draws)) calls
        (.new (v₀, 0)) = some (outs, v)) (hup : ¬v.ServerGone) : ¬v₀.ServerGone := by
  intro hgone
  have hmirrors := mirrors_overPath (L := L) (A := A) hstand hdraws lost hid
  have hstart : (OdictController.new (V := V) (v₀, 0)).ServerGone := hgone
  exact hup (Prog.bad_of_trace (fun c _ => (hmirrors.call c).keeps) hstart hrun)

/-- **A dictionary among other clients is a dictionary over an array.** Its Path
ORAM is on the server that all clients share, where the others may call anything
but `ResetServer` and what carries its id and hash. As long as that server is
up, every sequence of insertions and searches has the outcomes it has over the
array, and all members of the controller but the ORAM are the same. -/
theorem odict_shared (hstand : P.standalone = true) (hid : header.id = P.id)
    (hinit : serve (.table (.request (.initTreeOram header P.numberOfLeafs blockSize))) w =
      (.ok answer, w'))
    (hothers : ByOthers header schedule)
    (hfill : fillWithData (OramServer.treeStub header lost) P data fill
      ⟨.new, some w', schedule⟩ = (.ok (), v₀)) (hlen : data.length ≤ P.capacity)
    (hids : (loadedBlocks data).map OramBlock.id = Multiset.range (A.last + 1))
    (hpad : ∀ t i, (fill.pad t i).isNormal = false)
    (ho : ∀ b ∈ loadedBlocks data, b.data = o b.id) {draws : ℕ → AccessDraws C}
    (hdraws : ∀ n l j, ((draws n).pad l j).isNormal = false) {calls : List (OdictCall V)}
    {outs : List (Except Exit (Option (TreeNode V)))}
    {v : OdictController V (Backbone V (Shared L C))}
    (hrun : Prog.trace Exit.fatal
      (OdictCall.run (A.overPath (OramServer.treeStub header lost) P draws)) calls
        (.new (v₀, 0)) = some (outs, v)) (hup : ¬v.ServerGone) :
    ∃ u, Prog.trace Exit.fatal (OdictCall.run A.config) calls (.new o) = some (outs, u) ∧
      v.members = u.members ∧ HeldAmong P A.last header u.oram v.oram := by
  have hmirrors := mirrors_overPath (L := L) (A := A) hstand hdraws lost hid
  have hup₀ := serverUp_of_trace hstand hid hdraws hrun hup
  have hstart := heldAmong_of_fillWithData (A := A) hid hinit hothers hfill hup₀ hlen hids hpad ho
  obtain ⟨outs', u, htrace, houts, hu⟩ :=
    Prog.trace_mirrors hmirrors.call (Prog.fatal_of_eq Exit.fatal) hstart hrun hup
  rw [Prog.eq_of_forall₂_corresponds houts] at htrace
  obtain ⟨oram, hheld, rfl⟩ := hu
  exact ⟨u, htrace, rfl, hheld⟩

/-! ## The map -/

/-- `Put` pushes nothing out of the cache, and no assertion of `OdsFinalize` fires. -/
def OdictCall.Clean (K : OdictConfig V σ) (c : OdictCall V) (w : OdictController V σ) : Prop :=
  let w' := (c.access K w).2
  w'.pushedOut = [] ∧ w'.readCount ≤ OdictController.padVal K w' ∧
    w'.writeCount ≤ OdictController.padVal K w'

instance [DecidableEq V] (K : OdictConfig V σ) (c : OdictCall V) (w : OdictController V σ) :
    Decidable (c.Clean K w) :=
  inferInstanceAs (Decidable (_ ∧ _ ∧ _))

/-- A bad event in the access phase is one of the call. -/
theorem OdictConfig.Mirrors.bad_call {K : OdictConfig V σ} {K' : OdictConfig V τ} [Nonempty σ]
    {Bad : τ → Prop} {R : σ → τ → Prop} (h : K.Mirrors Bad R K') {c : OdictCall V}
    {v : OdictController V τ} (hgood : ¬Bad (c.run K' v).2.oram) :
    ¬Bad (c.access K' v).2.oram := by
  have hfinal : ∀ reason n, Prog.Sticky (OdictController.OnOram Bad)
      (checkStatus reason (OdictController.odsFinalize K' n)) :=
    fun reason n => ⟨.mapError (h.odsFinalize n).keeps⟩
  cases c with
  | insert kvPair =>
    rw [OdictCall.run, OdictController.insert, Prog.bind_assoc] at hgood
    have hbefore : ¬OdictController.OnOram Bad (OdictController.insertAccess K' kvPair v).2 :=
      Prog.Sticky.before hgood
    rw [OdictCall.access]
    rcases hrun : OdictController.insertAccess K' kvPair v with ⟨e | ans, v'⟩
    · rw [hrun] at hbefore
      rwa [Prog.bind_error hrun]
    · rw [hrun] at hbefore
      rwa [Prog.bind_ok hrun]
  | find key =>
    rw [OdictCall.run, OdictController.find] at hgood
    have hbefore : ¬OdictController.OnOram Bad (OdictController.findAccess K' key v).2 :=
      Prog.Sticky.before hgood
    exact hbefore

/-- The condition of a call on the mirrored controller. -/
theorem OdictConfig.Mirrors.clean {K : OdictConfig V σ} {K' : OdictConfig V τ} [Nonempty σ]
    {Bad : τ → Prop} {R : σ → τ → Prop} (h : K.Mirrors Bad R K') {c : OdictCall V}
    {w : OdictController V σ} {v : OdictController V τ} (hR : OdictController.Lift R w v)
    (hgood : ¬Bad (c.run K' v).2.oram) (hclean : c.Clean K' v) : c.Clean K w := by
  rcases (h.callAccess c).step w v hR with hbad | ⟨-, hR'⟩
  · exact absurd hbad (h.bad_call hgood)
  · have hmembers := hR'.members_eq
    obtain ⟨hflow, hread, hwrite⟩ := hclean
    rw [← h.padVal hmembers] at hread hwrite
    obtain ⟨oram, -, heq⟩ := hR'
    rw [heq] at hflow hread hwrite
    exact ⟨hflow, hread, hwrite⟩

/-- A dictionary that rests on the pairs inserted so far, among other clients. -/
def OdictCall.HoldsAmong (A : ArraySetup V) (P : PathOramConfig) (header : RequestHeader)
    (past : List (OdictCall V)) (v : OdictController V (Backbone V (Shared L C))) : Prop :=
  ∃ u t, OdictCall.Holds A past t u ∧ OdictController.Lift (HeldAmong P A.last header) u v

/-- **One call**, which the server survives or not. -/
theorem OdictCall.HoldsAmong.run (hstand : P.standalone = true) (hid : header.id = P.id)
    {draws : ℕ → AccessDraws C} (hdraws : ∀ n l j, ((draws n).pad l j).isNormal = false)
    (hwidth : A.last < 2 ^ 32) {past : List (OdictCall V)}
    {v : OdictController V (Backbone V (Shared L C))} (hv : HoldsAmong A P header past v)
    {c : OdictCall V} (hroom : (inserted (past ++ [c])).length ≤ A.last)
    (hclean : c.Clean (A.overPath (OramServer.treeStub header lost) P draws) v) :
    (c.run (A.overPath (OramServer.treeStub header lost) P draws) v).2.ServerGone ∨
      ∃ ans v', c.run (A.overPath (OramServer.treeStub header lost) P draws) v = (.ok ans, v') ∧
        HoldsAmong A P header (past ++ [c]) v' ∧
        ∀ key, c = find key → ans.map TreeNode.kvPair = firstInserted past key := by
  obtain ⟨u, t, hu, hlift⟩ := hv
  have hmirrors := mirrors_overPath (L := L) (A := A) hstand hdraws lost hid
  by_cases hgood : (c.run (A.overPath (OramServer.treeStub header lost) P draws) v).2.ServerGone
  · exact .inl hgood
  · obtain ⟨hflow, hpad⟩ := hmirrors.clean hlift hgood hclean
    have hlost : NoOverflow A c u := hflow
    obtain ⟨u', hcall, hu', hcount, -⟩ :=
      run_spec hu.toRests c (hu.nodeCount_le hroom) hwidth ⟨.inr hlost.not_lost, hpad⟩
    rcases (hmirrors.call c).step u v hlift with hbad | ⟨hout, hlift'⟩
    · exact absurd hbad hgood
    · rw [hcall] at hout hlift'
      obtain ⟨ans, hans, rfl⟩ := hout.eq_ok
      refine .inr ⟨_, _, Prod.ext hans rfl, ⟨u', _, hu.next c hu' hcount, hlift'⟩, ?_⟩
      rintro key rfl
      rw [← hu.search_eq key, answer, Option.map_map]
      exact Option.map_congr fun e he =>
        hu'.represents.kvPair_eq (BinaryTree.mem_inorder_of_search he)

/-- As long as there is room, the server is gone, or the calls so far have
returned and the dictionary rests on what they inserted. -/
def OdictCall.GoesOn (A : ArraySetup V) (P : PathOramConfig) (header : RequestHeader)
    (past : List (OdictCall V × Except Exit (Option (TreeNode V))))
    (v : OdictController V (Backbone V (Shared L C))) : Prop :=
  (inserted (past.map Prod.fst)).length ≤ A.last → v.ServerGone ∨
    HoldsAmong A P header (past.map Prod.fst) v ∧ ∀ p ∈ past, p.2.isOk = true

theorem OdictCall.GoesOn.step (hstand : P.standalone = true) (hid : header.id = P.id)
    {draws : ℕ → AccessDraws C} (hdraws : ∀ n l j, ((draws n).pad l j).isNormal = false)
    (hwidth : A.last < 2 ^ 32) {past : List (OdictCall V × Except Exit (Option (TreeNode V)))}
    {v v' : OdictController V (Backbone V (Shared L C))} (hv : GoesOn A P header past v)
    {c : OdictCall V} {r : Except Exit (Option (TreeNode V))}
    (hclean : c.Clean (A.overPath (OramServer.treeStub header lost) P draws) v)
    (hcall : c.run (A.overPath (OramServer.treeStub header lost) P draws) v = (r, v')) :
    GoesOn A P header (past ++ [(c, r)]) v' := by
  intro hroom
  rw [List.map_append, List.map_singleton] at hroom ⊢
  rcases hv ((inserted_length_le _ _).trans hroom) with hgone | ⟨hv, hok⟩
  · have hkeeps :=
      ((mirrors_overPath (L := L) (A := A) hstand hdraws lost hid).call c).keeps v hgone
    rw [hcall] at hkeeps
    exact .inl hkeeps
  · rcases hv.run hstand hid hdraws hwidth hroom hclean with hgone | ⟨ans, v₁, hreturn, hv₁, -⟩
    · rw [hcall] at hgone
      exact .inl hgone
    · cases hcall.symm.trans hreturn
      refine .inr ⟨hv₁, fun p hp => ?_⟩
      rcases List.mem_append.mp hp with hp | hp
      · exact hok p hp
      · rw [List.mem_singleton.mp hp]
        rfl

/-- **A dictionary among other clients is a map.** Its Path ORAM is on the server
that all clients share, where the others may call anything but `ResetServer` and
what carries its id and hash. If the cache does not overflow and no assertion fires, and the
server is up after the calls so far, then all of them have returned; so does a
further one unless the server goes down in it, and `Find` returns the first pair
that was inserted under its key, if any. -/
theorem odict_shared_is_map (hstand : P.standalone = true) (hid : header.id = P.id)
    (hinit : serve (.table (.request (.initTreeOram header P.numberOfLeafs blockSize))) w =
      (.ok answer, w'))
    (hothers : ByOthers header schedule)
    (hfill : fillWithData (OramServer.treeStub header lost) P data fill
      ⟨.new, some w', schedule⟩ = (.ok (), v₀)) (hlen : data.length ≤ P.capacity)
    (hids : (loadedBlocks data).map OramBlock.id = Multiset.range (A.last + 1))
    (hpad : ∀ t i, (fill.pad t i).isNormal = false) (hwidth : A.last < 2 ^ 32)
    {draws : ℕ → AccessDraws C} (hdraws : ∀ n l j, ((draws n).pad l j).isNormal = false)
    {past : List (OdictCall V)} {c : OdictCall V}
    (hroom : (OdictCall.inserted (past ++ [c])).length ≤ A.last)
    (hclean : Prog.Along Exit.fatal
      (OdictCall.run (A.overPath (OramServer.treeStub header lost) P draws))
        (OdictCall.Clean (A.overPath (OramServer.treeStub header lost) P draws)) (past ++ [c])
          (.new (v₀, 0)))
    {outs : List (Except Exit (Option (TreeNode V)))}
    {v : OdictController V (Backbone V (Shared L C))}
    (hrun : Prog.trace Exit.fatal
      (OdictCall.run (A.overPath (OramServer.treeStub header lost) P draws)) past
        (.new (v₀, 0)) = some (outs, v)) (hup : ¬v.ServerGone) :
    (∀ out ∈ outs, out.isOk = true) ∧
      ((c.run (A.overPath (OramServer.treeStub header lost) P draws) v).2.ServerGone ∨
        ∃ ans v', c.run (A.overPath (OramServer.treeStub header lost) P draws) v = (.ok ans, v') ∧
          ∀ key, c = .find key →
            ans.map TreeNode.kvPair = OdictCall.firstInserted past key) := by
  -- what the array held at first is read off the loaded blocks
  have hunique : UniqueKeys OramBlock.id (loadedBlocks data) := by
    rw [UniqueKeys, hids]
    exact Multiset.nodup_range _
  obtain ⟨o, ho⟩ := exists_array hunique
  have hup₀ := serverUp_of_trace hstand hid hdraws hrun hup
  have hstart : OdictCall.HoldsAmong A P header [] (.new (v₀, 0)) :=
    ⟨_, _, OdictCall.holds_new A o,
      heldAmong_of_fillWithData hid hinit hothers hfill hup₀ hlen hids hpad ho⟩
  obtain ⟨hpast, hlast⟩ := hclean.append
  have hhistory := Prog.trace_history Exit.fatal _
    (OdictCall.GoesOn A P header)
    (fun _ _ _ _ _ hc hv hcall => hv.step hstand hid hdraws hwidth hc (Prog.eq_of_survive hcall).1)
    [] (fun _ => .inr ⟨hstart, by simp⟩) hpast hrun
  have hlength := Prog.length_trace hrun
  rw [List.nil_append, OdictCall.GoesOn, List.map_fst_zip hlength.ge] at hhistory
  obtain ⟨hv, hok⟩ := (hhistory ((OdictCall.inserted_length_le _ _).trans hroom)).resolve_left hup
  refine ⟨fun out hout => ?_, ?_⟩
  · obtain ⟨n, hn, rfl⟩ := List.getElem_of_mem hout
    refine hok (past[n], outs[n]) ?_
    rw [← List.getElem_zip (h := by rw [List.length_zip]; omega)]
    exact List.getElem_mem _
  · rcases hv.run hstand hid hdraws hwidth hroom (hlast _ _ hrun).1 with
      hgone | ⟨ans, v', hcall, -, hfind⟩
    · exact .inl hgone
    · exact .inr ⟨ans, v', hcall, hfind⟩

end

/-! ### A small instance -/

/-- One bucket of five blocks. -/
def fiveBlocks : PathOramConfig := .new 0 5 5 true

/-- The addresses `0` to `4`. -/
def fiveNodes : List (OramBlock (TreeNode ℕ)) :=
  (List.range 5).map fun id => ⟨⟨id, .kNormal, 1⟩, .new id⟩

def dummyNode : OramBlock (TreeNode ℕ) := ⟨⟨0, .kDummy, 0⟩, .new 0⟩

def fiveFill : FillDraws (Codec.plain (TreeNode ℕ)) :=
  ⟨fun _ _ => 0, fun _ _ => dummyNode, fun _ _ => ()⟩

def fiveDraws : ℕ → AccessDraws (Codec.plain (TreeNode ℕ)) :=
  fun n => ⟨n, fun _ _ => dummyNode, fun _ _ => ()⟩

/-- The server once the first client has its tree. -/
def fiveServer : ServiceState Sodium.toy (Codec.plain (TreeNode ℕ)) where
  storages := (OramServer.new _).put 0 ⟨⟨0, 1, 8, [1]⟩, .tree (.new _ 1)⟩
  cryptor := some OramController.freshCryptor
  serverRunning := true

/-- A second client makes a storage of its own, and tries the first client's id. -/
def secondOdictClient : List (List (ServerEvent (Codec.plain (TreeNode ℕ)))) :=
  [[.call (.table (.request (.initFlatOram ⟨1, [2]⟩ 4 8))),
    .call (.table (.request (.readPath ⟨0, [2]⟩ 0 0)))]]

/-- The dictionary on the shared server. -/
def sharedOdict : OdictConfig ℕ (Backbone ℕ (Shared Sodium.toy (Codec.plain (TreeNode ℕ)))) :=
  (OdictCall.smallOdict 4).overPath (OramServer.treeStub ⟨0, [1]⟩ "Socket closed") fiveBlocks
    fiveDraws

/-- Its ORAM once it is loaded. -/
def fiveLoaded : PathSystem (TreeNode ℕ) (Shared Sodium.toy (Codec.plain (TreeNode ℕ))) :=
  (fillWithData (OramServer.treeStub ⟨0, [1]⟩ "Socket closed") fiveBlocks fiveNodes fiveFill
    ⟨.new, some fiveServer, secondOdictClient⟩).2

theorem fiveLoaded_eq :
    fillWithData (OramServer.treeStub ⟨0, [1]⟩ "Socket closed") fiveBlocks fiveNodes fiveFill
      ⟨.new, some fiveServer, secondOdictClient⟩ = (.ok (), fiveLoaded) := rfl

theorem fiveServer_init :
    serve (.table (.request (.initTreeOram ⟨0, [1]⟩ fiveBlocks.numberOfLeafs 8)))
      (.start (Codec.plain (TreeNode ℕ)) OramController.freshCryptor) =
        (.ok (.table .empty), fiveServer) := rfl

theorem fiveNodes_ids : (loadedBlocks fiveNodes).map OramBlock.id = Multiset.range 5 := by
  decide

/-- Two insertions and a search, with another client in between. -/
theorem odict_shared_small :
    ∃ outs v u, Prog.trace Exit.fatal (OdictCall.run sharedOdict)
        [.insert (1, 10), .insert (2, 20), .find 1] (.new (fiveLoaded, 0)) = some (outs, v) ∧
      Prog.trace Exit.fatal (OdictCall.run (OdictCall.smallOdict 4).config)
        [.insert (1, 10), .insert (2, 20), .find 1] (.new .new) = some (outs, u) ∧
      v.members = u.members := by
  have hgoes : (Prog.trace Exit.fatal (OdictCall.run sharedOdict)
      [.insert (1, 10), .insert (2, 20), .find 1] (.new (fiveLoaded, 0))).any
        (fun t => t.2.oram.1.server.1.isSome) = true := by decide +kernel
  obtain ⟨⟨outs, v⟩, hrun, hup⟩ := (Option.any_eq_true _ _).mp hgoes
  have hloaded : ∀ b ∈ loadedBlocks fiveNodes, b.data = TreeNode.new b.id := by decide
  obtain ⟨u, htrace, hmembers, -⟩ := odict_shared rfl rfl fiveServer_init (by decide)
    fiveLoaded_eq (by decide) fiveNodes_ids (fun _ _ => rfl) hloaded
    (fun _ _ _ => rfl) hrun (Option.isSome_iff_ne_none.mp hup)
  exact ⟨outs, v, u, hrun, htrace, hmembers⟩

theorem odict_shared_is_map_small :
    ∃ outs v ans v', Prog.trace Exit.fatal (OdictCall.run sharedOdict)
        [.insert (1, 10), .insert (1, 11)] (.new (fiveLoaded, 0)) = some (outs, v) ∧
      (OdictCall.find 1).run sharedOdict v = (.ok ans, v') ∧
      ans.map TreeNode.kvPair = some (1, 10) := by
  have hgoes : (Prog.trace Exit.fatal (OdictCall.run sharedOdict)
      [.insert (1, 10), .insert (1, 11)] (.new (fiveLoaded, 0))).any
        (fun t => t.2.oram.1.server.1.isSome &&
          ((OdictCall.find 1).run sharedOdict t.2).2.oram.1.server.1.isSome) = true := by
    decide +kernel
  obtain ⟨⟨outs, v⟩, hrun, hup⟩ := (Option.any_eq_true _ _).mp hgoes
  obtain ⟨hup, hup'⟩ := Bool.and_eq_true_iff.mp hup
  have hclean : Prog.Along Exit.fatal (OdictCall.run sharedOdict) (OdictCall.Clean sharedOdict)
      ([.insert (1, 10), .insert (1, 11)] ++ [.find 1]) (.new (fiveLoaded, 0)) :=
    .cons (by decide +kernel) (.cons (by decide +kernel) (.cons (by decide +kernel) trivial))
  obtain ⟨-, hgone | ⟨ans, v', hcall, hfind⟩⟩ := odict_shared_is_map rfl rfl fiveServer_init
    (by decide) fiveLoaded_eq (by decide) fiveNodes_ids (fun _ _ => rfl)
    (by decide) (fun _ _ _ => rfl) (by decide) hclean hrun (Option.isSome_iff_ne_none.mp hup)
  · exact absurd hgone (Option.isSome_iff_ne_none.mp hup')
  · exact ⟨outs, v, ans, v', hrun, hcall, hfind 1 rfl⟩

end ObliviousRam
