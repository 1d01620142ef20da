import ObliviousRam.OdsCache

set_option autoImplicit false

/-!
# The oblivious dictionary controller

`OdictController` (`core/odict_controller.cc`): an AVL tree whose nodes are the
blocks of an ORAM, under their ids as addresses. During an operation the nodes
are read into the client cache and written there; at its end the cache is
written back, and padding brings the numbers of accesses up to a bound.

The ORAM behind the dictionary is a parameter: `access` is all that is used of
it. The controller also carries two **ghosts**, which nothing reads: the nodes
that were written or inserted, and the nodes that `Put` has pushed out of the
cache since the operation began.
-/

namespace ObliviousRam

variable {V σ : Type}

/-- `OdsOperation` (`base/ods_defs.h`). -/
inductive OdsOperation where
  | kRead
  | kWrite
  | kRemove
  | kInsert
  | kInvalid
  deriving DecidableEq, Repr

/-- What an `OdictController` is set up with. -/
structure OdictConfig (V σ : Type) where
  /-- `oram_controller_->Access`, with the buffer it leaves behind -/
  access : Operation → ℕ → OramBlock (TreeNode V) → Prog Exit σ (OramBlock (TreeNode V))
  clientCacheMaxSize : ℕ
  /-- `ComputePadVal`, a number that goes through `double` -/
  computePadVal : ℕ → ℕ
  /-- the bytes of a local block that is not initialised -/
  garbage : OramBlock (TreeNode V)

/-- The mutable members of `OdictController`, the state of the ORAM, and the ghosts. -/
structure OdictController (V σ : Type) where
  oram : σ
  odsCache : OdsCache V
  rootId : ℕ
  nodeCount : ℕ
  readCount : ℕ
  writeCount : ℕ
  /-- ghost: what `OdsAccess` was asked to write or insert, the latest first -/
  stored : List (TreeNode V)
  /-- ghost: what `Put` has pushed out since `OdsStart` -/
  pushedOut : List (TreeNode V)

namespace OdictController

variable (K : OdictConfig V σ)

/-- The controller after its constructor, over an ORAM that is initialised. -/
def new (oram : σ) : OdictController V σ where
  oram := oram
  odsCache := .new
  rootId := invalidMask
  nodeCount := 1
  readCount := 0
  writeCount := 0
  stored := []
  pushedOut := []

/-- Run a program on the ORAM. -/
def onOram {ε α : Type} (m : Prog ε σ α) : Prog ε (OdictController V σ) α :=
  Prog.zoom oram (fun oram w => { w with oram := oram }) m

/-- Run a program on the cache. -/
def onCache {ε α : Type} (m : Prog ε (OdsCache V) α) : Prog ε (OdictController V σ) α :=
  Prog.zoom odsCache (fun cache w => { w with odsCache := cache }) m

/-- An access changes the ORAM and no other member. -/
theorem onOram_eq {ε α : Type} {m : Prog ε σ α} {w : OdictController V σ} {r : Except ε α} {oram : σ}
    (h : m w.oram = (r, oram)) : onOram m w = (r, { w with oram := oram }) := Prog.zoom_eq h

theorem onCache_eq {ε α : Type} {m : Prog ε (OdsCache V) α} {w : OdictController V σ}
    {r : Except ε α} {cache : OdsCache V} (h : m w.odsCache = (r, cache)) :
    onCache m w = (r, { w with odsCache := cache }) := Prog.zoom_eq h

/-- A local block with these header fields set. -/
def localBlock (id : ℕ) (type : BlockType) (node : TreeNode V) : OramBlock (TreeNode V) where
  header := ⟨id, type, K.garbage.header.dataLen⟩
  data := node

/-! ## Accesses

`OdsAccess` has four operations, of which a read looks into the cache first. Every
access that goes to the ORAM counts in `read_count_` or `write_count_`, and so does
every hit. -/

/-- `CacheHelper`: read a node from the ORAM. -/
def cacheHelper (id : ℕ) (node : TreeNode V) :
    Prog Exit (OdictController V σ) (TreeNode V) := do
  let block ← onOram (K.access .kRead id (localBlock K id K.garbage.header.type K.garbage.data))
  pure (if id ≠ invalidMask then block.data else node)

/-- `ods_cache_->Put`: what it returns is dropped. -/
def cachePut (id : ℕ) (node : TreeNode V) : Prog Exit (OdictController V σ) Unit := do
  let ret ← onCache (OdsCache.put K.clientCacheMaxSize id node)
  Prog.modify fun w => { w with pushedOut := w.pushedOut ++ ret.toList }

/-- `OdsAccessRead`: returns what `*node` holds afterwards. -/
def odsAccessRead (node : TreeNode V) : Prog Exit (OdictController V σ) (TreeNode V) := do
  Prog.modify fun w => { w with readCount := w.readCount + 1 }
  let cacheNode ← onCache (OdsCache.get node.id)
  match cacheNode with
  | none => do
    let read ← checkStatus
      "OdsAccessReadCannot read from ORAM! Please check if there is any error."
      (cacheHelper K node.id node)
    cachePut K node.id read
    pure read
  | some cacheNode => pure cacheNode

/-- `OdsAccessWrite`: always to the cache. -/
def odsAccessWrite (node : TreeNode V) : Prog Exit (OdictController V σ) (TreeNode V) := do
  Prog.modify fun w => { w with writeCount := w.writeCount + 1, stored := node :: w.stored }
  let _ ← onCache (OdsCache.get node.id)
  cachePut K node.id node
  pure node

/-- `OdsAccessRemove`. -/
def odsAccessRemove (node : TreeNode V) : Prog Exit (OdictController V σ) (TreeNode V) := do
  let cacheNode ← onCache (OdsCache.get node.id)
  match cacheNode with
  | none => do
    let _ ← checkStatus
      "OdsAccessReadCannot read from ORAM! Please check if there is any error."
      (cacheHelper K node.id node)
    pure node
  | some _ => do
    onCache OdsCache.pop
    pure node

/-- `OdsAccessInsert`. -/
def odsAccessInsert (node : TreeNode V) : Prog Exit (OdictController V σ) (TreeNode V) := do
  Prog.modify fun w => { w with stored := node :: w.stored }
  cachePut K node.id node
  pure node

/-- `OdsAccess`. -/
def odsAccess (opType : OdsOperation) (node : TreeNode V) :
    Prog Exit (OdictController V σ) (TreeNode V) :=
  match opType with
  | .kRead => odsAccessRead K node
  | .kWrite => odsAccessWrite K node
  | .kRemove => odsAccessRemove K node
  | .kInsert => odsAccessInsert K node
  | .kInvalid => fail .kInvalidOperation "Invalid Operation to oblivious dictionary!" "OdsAccess"

/-- A node written. -/
def writeNode (reason : String) (node : TreeNode V) : Prog Exit (OdictController V σ) Unit := do
  let _ ← checkStatus reason (odsAccess K .kWrite node)
  pure ()

variable [Inhabited V]

/-- A node read by its id, as all callers do it. -/
def readNode (reason : String) (id : ℕ) : Prog Exit (OdictController V σ) (TreeNode V) :=
  checkStatus reason (odsAccess K .kRead (.new id))

/-! ## Balance -/

/-- `LeftRotate`. -/
def leftRotate (rootId : ℕ) : Prog Exit (OdictController V σ) (TreeNode V) := do
  let root ← readNode K "OdsAccess R failed" rootId
  let right ← readNode K "OdsAccess R failed" root.rightId
  let root := { root with rightId := right.leftId, rightHeight := right.leftHeight }
  writeNode K "OdsAccess W failed" root
  let right := { right with leftHeight := root.height, leftId := rootId }
  writeNode K "OdsAccess failed" right
  pure right

/-- `RightRotate`. -/
def rightRotate (rootId : ℕ) : Prog Exit (OdictController V σ) (TreeNode V) := do
  let root ← readNode K "OdsAccess R failed" rootId
  let left ← readNode K "OdsAccess R failed" root.leftId
  let root := { root with leftId := left.rightId, leftHeight := left.rightHeight }
  writeNode K "OdsAccess W failed" root
  let left := { left with rightHeight := root.height, rightId := rootId }
  writeNode K "OdsAccess failed" left
  pure left

/-- `LeftRightRotate`. -/
def leftRightRotate (rootId : ℕ) : Prog Exit (OdictController V σ) (TreeNode V) := do
  let root ← readNode K "OdsAccess R failed" rootId
  let left ← leftRotate K root.leftId
  writeNode K "OdsAccess W failed" { root with leftId := left.id, leftHeight := left.height }
  rightRotate K rootId

/-- `RightLeftRotate`. -/
def rightLeftRotate (rootId : ℕ) : Prog Exit (OdictController V σ) (TreeNode V) := do
  let root ← readNode K "OdsAccess R failed" rootId
  let right ← rightRotate K root.rightId
  writeNode K "OdsAccess W failed" { root with rightId := right.id, rightHeight := right.height }
  leftRotate K rootId

/-- `Balance`. -/
def balance (root : TreeNode V) : Prog Exit (OdictController V σ) (TreeNode V) :=
  if root.leftHeight > root.rightHeight ∧ root.leftHeight - root.rightHeight > 1 then do
    let left ← readNode K "OdsAccess R failed" root.leftId
    if left.leftHeight ≥ left.rightHeight then rightRotate K root.id
    else leftRightRotate K root.id
  else if root.rightHeight > root.leftHeight ∧ root.rightHeight - root.leftHeight > 1 then do
    let right ← readNode K "OdsAccess R failed" root.rightId
    if right.rightHeight ≥ right.leftHeight then leftRotate K root.id
    else rightLeftRotate K root.id
  else pure root

/-! ## Search and insertion -/

/-- `InternalFind`. The recursion stops if it goes deeper than `fuel`. -/
def internalFind (key : ℕ) : (fuel rootId : ℕ) → Prog Exit (OdictController V σ) (Option (TreeNode V))
  | 0, _ => Prog.throw (.undefined "the recursion of InternalFind does not end")
  | fuel + 1, rootId =>
    if rootId = invalidMask then pure none
    else do
      let root ← readNode K "ReadOram failed" rootId
      if root.kvPair.1 = key then pure (some root)
      else if root.kvPair.1 < key then internalFind key fuel root.rightId
      else internalFind key fuel root.leftId

/-- `InternalInsert`. -/
def internalInsert (node : TreeNode V) :
    (fuel rootId : ℕ) → Prog Exit (OdictController V σ) (TreeNode V)
  | 0, _ => Prog.throw (.undefined "the recursion of InternalInsert does not end")
  | fuel + 1, rootId =>
    if rootId = invalidMask then checkStatus "OdsAccess I failed." (odsAccess K .kInsert node)
    else do
      let root ← readNode K "ReadOram R failed" rootId
      let root ←
        if root.kvPair.1 < node.kvPair.1 then do
          let cur ← internalInsert node fuel root.rightId
          pure { root with rightId := cur.id, rightHeight := cur.height }
        else if root.kvPair.1 > node.kvPair.1 then do
          let cur ← internalInsert node fuel root.leftId
          pure { root with leftId := cur.id, leftHeight := cur.height }
        else pure root
      writeNode K "ReadOram W failed" root
      balance K root

/-! ## The end of an operation

`OdsFinalize` brings the two counters up to the bound with accesses that are thrown
away, and writes the nodes of the cache back. The flush is not counted. -/

/-- The loop of `DoPad`. -/
def padAccesses (opType : Operation) :
    ℕ → OramBlock (TreeNode V) → Prog Exit (OdictController V σ) Unit
  | 0, _ => pure ()
  | num + 1, block => do
    let block ← onOram (K.access opType 0 block)
    padAccesses opType num block

/-- `DoPad`. -/
def doPad (opType : Operation) (num : ℕ) : Prog Exit (OdictController V σ) Unit :=
  padAccesses K opType num (localBlock K 0 .kNormal K.garbage.data)

/-- The loop of `OdsFinalize` that writes the cache back, for a cache of `size` items. -/
def evictCache : (size : ℕ) → Prog Exit (OdictController V σ) Unit
  | 0 => pure ()
  | size + 1 => do
    let w ← Prog.get
    if w.odsCache.isEmpty then pure ()
    else do
      let node ← onCache OdsCache.front
      let block := localBlock K node.id .kNormal node
      let _ ← ignoreStatus block (onOram (K.access .kWrite node.id block))
      onCache OdsCache.pop
      evictCache size

/-- `OdsFinalize`. -/
def odsFinalize (padVal : ℕ) : Prog Exit (OdictController V σ) Unit := do
  let w ← Prog.get
  if padVal < w.readCount then
    Prog.throw (.abort "Pad value is smaller than the read count!")
  else do
    doPad K .kRead (padVal - w.readCount)
    let w ← Prog.get
    evictCache K w.odsCache.cacheItems.entries.length
    let w ← Prog.get
    if padVal < w.writeCount then
      Prog.throw (.abort "Pad value is smaller than the read count!")
    else do
      doPad K .kWrite (padVal - w.writeCount)
      Prog.modify fun w => { w with readCount := 0, writeCount := 0 }

/-! ## The operations -/

/-- `OdsStart`. -/
def odsStart : Prog Exit (OdictController V σ) Unit := do
  onCache OdsCache.clear
  Prog.modify fun w => { w with pushedOut := [] }

/-- `ComputePadVal(node_count_)`. -/
def padVal (w : OdictController V σ) : ℕ := K.computePadVal (w.nodeCount % 2 ^ 32)

/-- `Find`, before `OdsFinalize`. There are less than `node_count_` nodes. -/
def findAccess (key : ℕ) : Prog Exit (OdictController V σ) (Option (TreeNode V)) := do
  odsStart
  let w ← Prog.get
  internalFind K key w.nodeCount w.rootId

/-- `Insert`, before `OdsFinalize`. -/
def insertAccess (kvPair : ℕ × V) : Prog Exit (OdictController V σ) (TreeNode V) := do
  odsStart
  let w ← Prog.get
  let node := { (TreeNode.new (w.nodeCount % 2 ^ 32) : TreeNode V) with kvPair := kvPair }
  Prog.modify fun w => { w with nodeCount := w.nodeCount + 1 }
  let ans ← internalInsert K node (w.nodeCount + 1) w.rootId
  Prog.modify fun w => { w with rootId := ans.id }
  pure ans

/-- `Find`. -/
def find (key : ℕ) : Prog Exit (OdictController V σ) (Option (TreeNode V)) := do
  let node ← findAccess K key
  let w ← Prog.get
  checkStatus "Find: OdsFinalize error!" (odsFinalize K (padVal K w))
  pure node

/-- `Insert`. -/
def insert (kvPair : ℕ × V) : Prog Exit (OdictController V σ) (TreeNode V) := do
  let ans ← insertAccess K kvPair
  let w ← Prog.get
  checkStatus "Insert: OdsFinalize error!" (odsFinalize K (padVal K w))
  pure ans

/-- `Remove`: not implemented. -/
def remove (_key : ℕ) : Prog Exit (OdictController V σ) Unit := pure ()

end OdictController

/-- What a client calls. -/
inductive OdictCall (V : Type) where
  | insert (kvPair : ℕ × V)
  | find (key : ℕ)
  deriving DecidableEq, Repr

namespace OdictCall

variable [Inhabited V] (K : OdictConfig V σ)

/-- The call up to `OdsFinalize`. -/
def access : OdictCall V → Prog Exit (OdictController V σ) (Option (TreeNode V))
  | insert kvPair => do
    let ans ← OdictController.insertAccess K kvPair
    pure (some ans)
  | find key => OdictController.findAccess K key

/-- The call, with the node it returns. -/
def run : OdictCall V → Prog Exit (OdictController V σ) (Option (TreeNode V))
  | insert kvPair => do
    let ans ← OdictController.insert K kvPair
    pure (some ans)
  | find key => OdictController.find K key

/-- The key it is about. -/
def key : OdictCall V → ℕ
  | insert kvPair => kvPair.1
  | find key => key

/-- Whether it takes a new id. -/
def isInsert : OdictCall V → Bool
  | insert _ => true
  | find _ => false

variable {K}

/-- A call is its access, followed by `OdsFinalize`. -/
theorem run_eq {c : OdictCall V} {w w' w'' : OdictController V σ} {ans : Option (TreeNode V)}
    (haccess : c.access K w = (.ok ans, w'))
    (hfinal : OdictController.odsFinalize K (OdictController.padVal K w') w' = (.ok (), w'')) :
    c.run K w = (.ok ans, w'') := by
  cases c with
  | insert kvPair =>
    obtain ⟨top, w₁, hinsert, htop⟩ := Prog.bind_eq_ok haccess
    cases htop
    rw [run, OdictController.insert, Prog.bind_assoc, Prog.bind_ok hinsert, Prog.bind_assoc,
      Prog.get_bind, Prog.bind_assoc, Prog.bind_ok (checkStatus_ok hfinal)]
    rfl
  | find key =>
    have hfind : OdictController.findAccess K key w = (.ok ans, w') := haccess
    rw [run, OdictController.find, Prog.bind_ok hfind, Prog.get_bind,
      Prog.bind_ok (checkStatus_ok hfinal)]
    rfl

/-- A call that returns has got through `OdsFinalize`. -/
theorem final_of_run {c : OdictCall V} {w w' w'' : OdictController V σ}
    {ans ans' : Option (TreeNode V)} (haccess : c.access K w = (.ok ans, w'))
    (hrun : c.run K w = (.ok ans', w'')) :
    OdictController.odsFinalize K (OdictController.padVal K w') w' = (.ok (), w'') := by
  cases c with
  | insert kvPair =>
    obtain ⟨top, w₁, hinsert, htop⟩ := Prog.bind_eq_ok haccess
    cases htop
    rw [run, OdictController.insert, Prog.bind_assoc, Prog.bind_ok hinsert, Prog.bind_assoc,
      Prog.get_bind, Prog.bind_assoc] at hrun
    obtain ⟨_, w₂, hfinal, hrest⟩ := Prog.bind_eq_ok hrun
    cases hrest
    exact Prog.mapError_eq_ok hfinal
  | find key =>
    have hfind : OdictController.findAccess K key w = (.ok ans, w') := haccess
    rw [run, OdictController.find, Prog.bind_ok hfind, Prog.get_bind] at hrun
    obtain ⟨_, w₂, hfinal, hrest⟩ := Prog.bind_eq_ok hrun
    cases hrest
    exact Prog.mapError_eq_ok hfinal

end OdictCall

end ObliviousRam
