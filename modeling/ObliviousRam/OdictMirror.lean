import ObliviousRam.Mirror
import ObliviousRam.OdictController

set_option autoImplicit false

/-!
# The dictionary over two ORAMs

The controller knows its ORAM by `Access` only, and of a block that it reads it
looks at the data only. So two dictionaries over ORAMs whose accesses mirror each
other (`OdictConfig.Mirrors`) are mirrored themselves, function by function: the
same nodes come out, and all members but the ORAM stay the same.

The texts of the two ORAMs may differ, as the controller looks at no status: it
ignores one, or ends the process with a text of its own.
-/

namespace ObliviousRam

open Prog (Keeps Corresponds)

variable {V σ τ : Type}

/-! ## Statuses -/

/-- The same stop, up to what a status says. -/
inductive Exit.UpToStatus : Exit → Exit → Prop
  | status (st st') : UpToStatus (.status st) (.status st')
  | refl (e) : UpToStatus e e

section

variable {α α' : Type} {Bad : τ → Prop} {R : σ → τ → Prop} {W : α → α' → Prop}
  {m : Prog Exit σ α} {m' : Prog Exit τ α'}

/-- Past `checkStatus`, it does not matter what a status said. -/
theorem mirrors_checkStatus {E : Exit → Exit → Prop} (hE : ∀ e, E e e) (reason : String)
    (hm : Prog.Mirrors Bad Exit.UpToStatus R W m m') :
    Prog.Mirrors Bad E R W (checkStatus reason m) (checkStatus reason m') := by
  refine hm.mapError fun e e' he => ?_
  cases he with
  | status => exact hE _
  | refl => exact hE _

/-- A status that nobody looks at makes no difference. -/
theorem mirrors_ignoreStatus {default : α} {default' : α'} (hdefault : W default default')
    (hm : Prog.Mirrors Bad Exit.UpToStatus R W m m') :
    Prog.Mirrors Bad Exit.UpToStatus R W (ignoreStatus default m) (ignoreStatus default' m') := by
  refine hm.outcome (ignoreStatus_apply default m) (ignoreStatus_apply default' m') ?_
  intro r r' hout
  cases hout with
  | ok hW => exact .ok hW
  | @error e _ he =>
    cases he with
    | status => exact .ok hdefault
    | refl =>
      cases e with
      | status => exact .ok hdefault
      | abort => exact .error (.refl _)
      | undefined => exact .error (.refl _)

end

/-! ## The controller

The relation (`Lift`) says that the members are equal and the ORAMs related. So a
function that reaches the ORAM through `Access` only is mirrored because `Access` is,
and one that does not is the same function on both sides. -/

/-- Two blocks with the same node in them. -/
def SameNode (block block' : OramBlock (TreeNode V)) : Prop := block.data = block'.data

theorem exists_sameNode (block' : OramBlock (TreeNode V)) : ∃ block, SameNode block block' :=
  ⟨block', rfl⟩

/-- Two configurations that differ in their ORAMs only, which are mirrored. -/
structure OdictConfig.Mirrors (Bad : τ → Prop) (R : σ → τ → Prop) (K : OdictConfig V σ)
    (K' : OdictConfig V τ) : Prop where
  access : ∀ op ≠ .kInvalid, ∀ id (block block' : OramBlock (TreeNode V)), SameNode block block' →
    Prog.Mirrors Bad Exit.UpToStatus R SameNode (K.access op id block) (K'.access op id block')
  clientCacheMaxSize_eq : K.clientCacheMaxSize = K'.clientCacheMaxSize
  computePadVal_eq : K.computePadVal = K'.computePadVal
  garbage_eq : K.garbage = K'.garbage

namespace OdictController

/-- The same controller over another ORAM. -/
def withOram (oram : τ) (w : OdictController V σ) : OdictController V τ where
  oram := oram
  odsCache := w.odsCache
  rootId := w.rootId
  nodeCount := w.nodeCount
  readCount := w.readCount
  writeCount := w.writeCount
  stored := w.stored
  pushedOut := w.pushedOut

/-- The same controller, over related ORAMs. -/
def Lift (R : σ → τ → Prop) (w : OdictController V σ) (v : OdictController V τ) : Prop :=
  ∃ oram, R w.oram oram ∧ v = w.withOram oram

/-- The ORAM of the controller has met the bad event. -/
def OnOram (Bad : τ → Prop) (v : OdictController V τ) : Prop := Bad v.oram

/-- All members but the ORAM. -/
def members (w : OdictController V σ) : OdictController V Unit := w.withOram ()

/-- The members beside the ORAM are the same. -/
theorem Lift.members_eq {R : σ → τ → Prop} {w : OdictController V σ} {v : OdictController V τ}
    (h : Lift R w v) : w.members = v.members := by
  obtain ⟨oram, -, rfl⟩ := h
  rfl

/-- Any members occur beside some ORAM. -/
theorem exists_members [Nonempty σ] (v : OdictController V τ) :
    ∃ w : OdictController V σ, w.members = v.members :=
  ⟨v.withOram (Classical.arbitrary σ), rfl⟩

end OdictController

namespace OdictConfig.Mirrors

open OdictController (Lift OnOram members exists_members)

variable {K : OdictConfig V σ} {K' : OdictConfig V τ} {Bad : τ → Prop} {R : σ → τ → Prop}
  {α α' : Type} {E : Exit → Exit → Prop}

/-- The state of both controllers is looked at, except for the ORAM. -/
theorem get_bind [Nonempty σ] {W : α → α' → Prop}
    {f : OdictController V σ → Prog Exit (OdictController V σ) α}
    {f' : OdictController V τ → Prog Exit (OdictController V τ) α'}
    (hf : ∀ w v, w.members = v.members →
      Prog.Mirrors (OnOram Bad) E (Lift R) W (f w) (f' v)) :
    Prog.Mirrors (OnOram Bad) E (Lift R) W (Prog.get >>= f) (Prog.get >>= f') :=
  .get_bind members members (fun _ _ h => h.members_eq) exists_members hf

/-! ## Members, cache and ORAM -/

theorem modify {f : OdictController V σ → OdictController V σ}
    {f' : OdictController V τ → OdictController V τ}
    (h : ∀ w oram, f' (w.withOram oram) = (f w).withOram oram) (hf : ∀ w, (f w).oram = w.oram)
    (hf' : ∀ v, (f' v).oram = v.oram) :
    Prog.Mirrors (OnOram Bad) E (Lift R) Eq (Prog.modify f) (Prog.modify f') := by
  refine .modify ?_ fun v hbad => ?_
  · rintro w _ ⟨oram, hR, rfl⟩
    exact ⟨oram, (hf w).symm ▸ hR, h w oram⟩
  · rw [OnOram, hf']
    exact hbad

/-- The cache is a member, so it behaves alike on both sides. -/
theorem onCache (hE : ∀ e, E e e) (m : Prog Exit (OdsCache V) α) :
    Prog.Mirrors (OnOram Bad) E (Lift R) Eq (OdictController.onCache m)
      (OdictController.onCache m) where
  keeps := fun _ hbad => hbad
  step := by
    rintro w _ ⟨oram, hR, rfl⟩
    right
    exact ⟨.refl hE _, oram, hR, rfl⟩

/-- The ORAM is where the two sides differ. -/
theorem onOram {W : α → α' → Prop} {m : Prog Exit σ α} {m' : Prog Exit τ α'}
    (hm : Prog.Mirrors Bad Exit.UpToStatus R W m m') :
    Prog.Mirrors (OnOram (V := V) Bad) Exit.UpToStatus (Lift R) W (OdictController.onOram m)
      (OdictController.onOram m') := by
  refine hm.zoom ?_ ?_ (fun _ _ hbad => hbad) fun _ hbad => hbad
  · rintro w _ ⟨oram, hR, rfl⟩
    exact hR
  · rintro w _ s' t' ⟨oram, -, rfl⟩ hR'
    exact ⟨t', hR', rfl⟩

/-! ## Accesses -/

section

variable (h : K.Mirrors Bad R K')
include h

/-- The local block of an access depends on no ORAM. -/
theorem localBlock (id : ℕ) (type : BlockType) (node : TreeNode V) :
    OdictController.localBlock K id type node = OdictController.localBlock K' id type node := by
  rw [OdictController.localBlock, OdictController.localBlock, h.garbage_eq]

/-- `OdsCacheHelper`: a node that is read goes to the cache. -/
theorem cacheHelper (id : ℕ) (node : TreeNode V) :
    Prog.Mirrors (OnOram Bad) Exit.UpToStatus (Lift R) Eq (OdictController.cacheHelper K id node)
      (OdictController.cacheHelper K' id node) := by
  rw [OdictController.cacheHelper, OdictController.cacheHelper, h.garbage_eq, h.localBlock]
  refine .bind exists_sameNode (onOram (h.access _ (by decide) _ _ _ rfl)) fun b b' hb => .pure ?_
  rw [show b.data = b'.data from hb]

theorem cachePut (id : ℕ) (node : TreeNode V) :
    Prog.Mirrors (OnOram Bad) Exit.UpToStatus (Lift R) Eq (OdictController.cachePut K id node)
      (OdictController.cachePut K' id node) := by
  rw [OdictController.cachePut, OdictController.cachePut, h.clientCacheMaxSize_eq]
  exact .bind_eq (onCache .refl _) fun ret => modify (fun _ _ => rfl) (fun _ => rfl) fun _ => rfl

/-- A read goes to the ORAM on a miss, and both sides miss alike. -/
theorem odsAccessRead (node : TreeNode V) :
    Prog.Mirrors (OnOram Bad) Exit.UpToStatus (Lift R) Eq (OdictController.odsAccessRead K node)
      (OdictController.odsAccessRead K' node) := by
  refine .bind_eq (modify (fun _ _ => rfl) (fun _ => rfl) fun _ => rfl) fun _ =>
    .bind_eq (onCache .refl _) fun cacheNode => ?_
  cases cacheNode with
  | some cacheNode => exact .pure rfl
  | none =>
    exact .bind_eq (mirrors_checkStatus .refl _ (h.cacheHelper _ _)) fun read =>
      .bind_eq (h.cachePut _ _) fun _ => .pure rfl

/-- A write stays in the cache. -/
theorem odsAccessWrite (node : TreeNode V) :
    Prog.Mirrors (OnOram Bad) Exit.UpToStatus (Lift R) Eq (OdictController.odsAccessWrite K node)
      (OdictController.odsAccessWrite K' node) :=
  .bind_eq (modify (fun _ _ => rfl) (fun _ => rfl) fun _ => rfl) fun _ =>
    .bind_eq (onCache .refl _) fun _ => .bind_eq (h.cachePut _ _) fun _ => .pure rfl

theorem odsAccessRemove (node : TreeNode V) :
    Prog.Mirrors (OnOram Bad) Exit.UpToStatus (Lift R) Eq (OdictController.odsAccessRemove K node)
      (OdictController.odsAccessRemove K' node) := by
  refine .bind_eq (onCache .refl _) fun cacheNode => ?_
  cases cacheNode with
  | some _ => exact .bind_eq (onCache .refl _) fun _ => .pure rfl
  | none => exact .bind_eq (mirrors_checkStatus .refl _ (h.cacheHelper _ _)) fun _ => .pure rfl

theorem odsAccessInsert (node : TreeNode V) :
    Prog.Mirrors (OnOram Bad) Exit.UpToStatus (Lift R) Eq (OdictController.odsAccessInsert K node)
      (OdictController.odsAccessInsert K' node) :=
  .bind_eq (modify (fun _ _ => rfl) (fun _ => rfl) fun _ => rfl) fun _ =>
    .bind_eq (h.cachePut _ _) fun _ => .pure rfl

/-- `OdsAccess`, whatever it is asked for. -/
theorem odsAccess (opType : OdsOperation) (node : TreeNode V) :
    Prog.Mirrors (OnOram Bad) Exit.UpToStatus (Lift R) Eq (OdictController.odsAccess K opType node)
      (OdictController.odsAccess K' opType node) := by
  cases opType with
  | kRead => exact h.odsAccessRead node
  | kWrite => exact h.odsAccessWrite node
  | kRemove => exact h.odsAccessRemove node
  | kInsert => exact h.odsAccessInsert node
  | kInvalid => exact .throw (.refl _)

theorem writeNode (reason : String) (node : TreeNode V) :
    Prog.Mirrors (OnOram Bad) Eq (Lift R) Eq (OdictController.writeNode K reason node)
      (OdictController.writeNode K' reason node) :=
  .bind_eq (mirrors_checkStatus (fun _ => rfl) _ (h.odsAccess _ _)) fun _ => .pure rfl

/-! ## The tree -/

variable [Inhabited V]

/-- A node that is read is the same on both sides. -/
theorem readNode (reason : String) (id : ℕ) :
    Prog.Mirrors (OnOram Bad) Eq (Lift R) Eq (OdictController.readNode K reason id)
      (OdictController.readNode K' reason id) :=
  mirrors_checkStatus (fun _ => rfl) _ (h.odsAccess _ _)

theorem leftRotate (rootId : ℕ) :
    Prog.Mirrors (OnOram Bad) Eq (Lift R) Eq (OdictController.leftRotate K rootId)
      (OdictController.leftRotate K' rootId) :=
  .bind_eq (h.readNode _ _) fun _ => .bind_eq (h.readNode _ _) fun _ =>
    .bind_eq (h.writeNode _ _) fun _ => .bind_eq (h.writeNode _ _) fun _ => .pure rfl

theorem rightRotate (rootId : ℕ) :
    Prog.Mirrors (OnOram Bad) Eq (Lift R) Eq (OdictController.rightRotate K rootId)
      (OdictController.rightRotate K' rootId) :=
  .bind_eq (h.readNode _ _) fun _ => .bind_eq (h.readNode _ _) fun _ =>
    .bind_eq (h.writeNode _ _) fun _ => .bind_eq (h.writeNode _ _) fun _ => .pure rfl

theorem leftRightRotate (rootId : ℕ) :
    Prog.Mirrors (OnOram Bad) Eq (Lift R) Eq (OdictController.leftRightRotate K rootId)
      (OdictController.leftRightRotate K' rootId) :=
  .bind_eq (h.readNode _ _) fun _ => .bind_eq (h.leftRotate _) fun _ =>
    .bind_eq (h.writeNode _ _) fun _ => h.rightRotate _

theorem rightLeftRotate (rootId : ℕ) :
    Prog.Mirrors (OnOram Bad) Eq (Lift R) Eq (OdictController.rightLeftRotate K rootId)
      (OdictController.rightLeftRotate K' rootId) :=
  .bind_eq (h.readNode _ _) fun _ => .bind_eq (h.rightRotate _) fun _ =>
    .bind_eq (h.writeNode _ _) fun _ => h.leftRotate _

/-- The heights decide which rotation is made, and they are read from the nodes. -/
theorem balance (root : TreeNode V) :
    Prog.Mirrors (OnOram Bad) Eq (Lift R) Eq (OdictController.balance K root)
      (OdictController.balance K' root) := by
  refine .ite ?_ (.ite ?_ (.pure rfl))
  · exact .bind_eq (h.readNode _ _) fun _ => .ite (h.rightRotate _) (h.leftRightRotate _)
  · exact .bind_eq (h.readNode _ _) fun _ => .ite (h.leftRotate _) (h.rightLeftRotate _)

/-- By induction on the fuel of the search. -/
theorem internalFind (key fuel rootId : ℕ) :
    Prog.Mirrors (OnOram Bad) Eq (Lift R) Eq
      (OdictController.internalFind K key fuel rootId)
      (OdictController.internalFind K' key fuel rootId) := by
  induction fuel generalizing rootId with
  | zero => exact .throw rfl
  | succ fuel ih =>
    refine .ite (.pure rfl) (.bind_eq (h.readNode _ _) fun _ => ?_)
    exact .ite (.pure rfl) (.ite (ih _) (ih _))

/-- By induction on the fuel of the insertion. -/
theorem internalInsert (node : TreeNode V) (fuel rootId : ℕ) :
    Prog.Mirrors (OnOram Bad) Eq (Lift R) Eq
      (OdictController.internalInsert K node fuel rootId)
      (OdictController.internalInsert K' node fuel rootId) := by
  induction fuel generalizing rootId with
  | zero => exact .throw rfl
  | succ fuel ih =>
    -- whichever child was changed, the root is written and balanced
    have hrest : ∀ root, Prog.Mirrors (OnOram Bad) Eq (Lift R) Eq
        (OdictController.writeNode K "ReadOram W failed" root >>= fun _ =>
          OdictController.balance K root)
        (OdictController.writeNode K' "ReadOram W failed" root >>= fun _ =>
          OdictController.balance K' root) :=
      fun root => .bind_eq (h.writeNode _ _) fun _ => h.balance _
    refine .ite (mirrors_checkStatus (fun _ => rfl) _ (h.odsAccess _ _))
      (.bind_eq (h.readNode _ _) fun root => ?_)
    exact .ite (.bind_eq (ih _) fun _ => hrest _)
      (.ite (.bind_eq (ih _) fun _ => hrest _) (hrest _))

/-! ## The end of an operation -/

omit [Inhabited V]

/-- The padding accesses throw away what they read. -/
theorem padAccesses {opType : Operation} (hop : opType ≠ .kInvalid) (num : ℕ)
    {block block' : OramBlock (TreeNode V)} (hblock : SameNode block block') :
    Prog.Mirrors (OnOram Bad) Exit.UpToStatus (Lift R) Eq
      (OdictController.padAccesses K opType num block)
      (OdictController.padAccesses K' opType num block') := by
  induction num generalizing block block' with
  | zero => exact .pure rfl
  | succ num ih =>
    exact .bind exists_sameNode (onOram (h.access _ hop _ _ _ hblock)) fun _ _ hb => ih hb

/-- There are as many of them on both sides, as the counters are members. -/
theorem doPad {opType : Operation} (hop : opType ≠ .kInvalid) (num : ℕ) :
    Prog.Mirrors (OnOram Bad) Exit.UpToStatus (Lift R) Eq (OdictController.doPad K opType num)
      (OdictController.doPad K' opType num) := by
  rw [OdictController.doPad, OdictController.doPad, h.garbage_eq, h.localBlock]
  exact h.padAccesses hop _ rfl

variable [Nonempty σ]

/-- The flush, node by node. -/
theorem evictCache (size : ℕ) :
    Prog.Mirrors (OnOram Bad) Exit.UpToStatus (Lift R) Eq (OdictController.evictCache K size)
      (OdictController.evictCache K' size) := by
  induction size with
  | zero => exact .pure rfl
  | succ size ih =>
    refine get_bind fun w v hwv => ?_
    rw [show w.odsCache = v.odsCache from congrArg OdictController.odsCache hwv]
    refine .ite (.pure rfl) (.bind_eq (onCache .refl _) fun node => ?_)
    rw [h.localBlock]
    have hwrite := onOram (V := V) (h.access .kWrite (by decide) node.id
      (OdictController.localBlock K' node.id .kNormal node) _ rfl)
    exact .bind exists_sameNode (mirrors_ignoreStatus rfl hwrite) fun _ _ _ =>
      .bind_eq (onCache .refl _) fun _ => ih

/-- Padding and flush together. -/
theorem odsFinalize (padVal : ℕ) :
    Prog.Mirrors (OnOram Bad) Exit.UpToStatus (Lift R) Eq (OdictController.odsFinalize K padVal)
      (OdictController.odsFinalize K' padVal) := by
  refine get_bind fun w v hwv => ?_
  rw [show w.readCount = v.readCount from congrArg OdictController.readCount hwv]
  refine .ite (.throw (.refl _)) (.bind_eq (h.doPad (by decide) _) fun _ =>
    get_bind fun w v hwv => ?_)
  rw [show w.odsCache = v.odsCache from congrArg OdictController.odsCache hwv]
  refine .bind_eq (h.evictCache _) fun _ => get_bind fun w v hwv => ?_
  rw [show w.writeCount = v.writeCount from congrArg OdictController.writeCount hwv]
  exact .ite (.throw (.refl _)) (.bind_eq (h.doPad (by decide) _) fun _ =>
    modify (fun _ _ => rfl) (fun _ => rfl) fun _ => rfl)

/-! ## The operations -/

omit h [Nonempty σ] in
theorem odsStart : Prog.Mirrors (OnOram Bad) Eq (Lift R) Eq
    (OdictController.odsStart (V := V)) OdictController.odsStart :=
  .bind_eq (onCache (fun _ => rfl) _) fun _ => modify (fun _ _ => rfl) (fun _ => rfl) fun _ => rfl

omit [Nonempty σ] in
theorem padVal {w : OdictController V σ} {v : OdictController V τ} (hwv : w.members = v.members) :
    OdictController.padVal K w = OdictController.padVal K' v := by
  rw [OdictController.padVal, OdictController.padVal, h.computePadVal_eq,
    show w.nodeCount = v.nodeCount from congrArg OdictController.nodeCount hwv]

variable [Inhabited V]

/-- The access phase of a search. -/
theorem findAccess (key : ℕ) :
    Prog.Mirrors (OnOram Bad) Eq (Lift R) Eq (OdictController.findAccess K key)
      (OdictController.findAccess K' key) := by
  refine .bind_eq odsStart fun _ => get_bind fun w v hwv => ?_
  rw [show w.nodeCount = v.nodeCount from congrArg OdictController.nodeCount hwv,
    show w.rootId = v.rootId from congrArg OdictController.rootId hwv]
  exact h.internalFind _ _ _

/-- The access phase of an insertion. -/
theorem insertAccess (kvPair : ℕ × V) :
    Prog.Mirrors (OnOram Bad) Eq (Lift R) Eq (OdictController.insertAccess K kvPair)
      (OdictController.insertAccess K' kvPair) := by
  refine .bind_eq odsStart fun _ => get_bind fun w v hwv => ?_
  rw [show w.nodeCount = v.nodeCount from congrArg OdictController.nodeCount hwv,
    show w.rootId = v.rootId from congrArg OdictController.rootId hwv]
  exact .bind_eq (modify (fun _ _ => rfl) (fun _ => rfl) fun _ => rfl) fun _ =>
    .bind_eq (h.internalInsert _ _ _) fun _ =>
      .bind_eq (modify (fun _ _ => rfl) (fun _ => rfl) fun _ => rfl) fun _ => .pure rfl

theorem find (key : ℕ) :
    Prog.Mirrors (OnOram Bad) Eq (Lift R) Eq (OdictController.find K key)
      (OdictController.find K' key) := by
  refine .bind_eq (h.findAccess _) fun _ => get_bind fun w v hwv => ?_
  rw [h.padVal hwv]
  exact .bind_eq (mirrors_checkStatus (fun _ => rfl) _ (h.odsFinalize _)) fun _ => .pure rfl

/-- `Insert`, from `OdsStart` to `OdsFinalize`. -/
theorem insert (kvPair : ℕ × V) :
    Prog.Mirrors (OnOram Bad) Eq (Lift R) Eq (OdictController.insert K kvPair)
      (OdictController.insert K' kvPair) := by
  refine .bind_eq (h.insertAccess _) fun _ => get_bind fun w v hwv => ?_
  rw [h.padVal hwv]
  exact .bind_eq (mirrors_checkStatus (fun _ => rfl) _ (h.odsFinalize _)) fun _ => .pure rfl

/-- A call up to `OdsFinalize`. -/
theorem callAccess (c : OdictCall V) :
    Prog.Mirrors (OnOram Bad) Eq (Lift R) Eq (c.access K) (c.access K') := by
  cases c with
  | insert kvPair => exact .bind_eq (h.insertAccess kvPair) fun _ => .pure rfl
  | find key => exact h.findAccess key

/-- **The same dictionary over either ORAM.** -/
theorem call (c : OdictCall V) :
    Prog.Mirrors (OnOram Bad) Eq (Lift R) Eq (c.run K) (c.run K') := by
  cases c with
  | insert kvPair => exact .bind_eq (h.insert kvPair) fun _ => .pure rfl
  | find key => exact h.find key

end

end OdictConfig.Mirrors

end ObliviousRam
