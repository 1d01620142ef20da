import ObliviousRam.TreeStorage
import ObliviousRam.KeyedBag

set_option autoImplicit false

/-!
# The Path ORAM controller

`PathOramController` (`core/path_oram_controller.cc`), as a family of programs
over a client state and whatever state `σ` stands behind the client's stub.

* `PathOramConfig` — the members the constructor fixes.
* `PathOramController` — the members that change: the position map, the stash,
  the counters.
* `internalAccessDirect` — read a path, merge it into the stash, look the block
  up, write the path back from the leaf to the root.
* `fillWithData` — the greedy initial load.

The random choices of a call are collected in its *draws*: the raw value behind
`RandomPosition`, the bytes of the padding blocks, the nonces.
-/

namespace ObliviousRam

variable {D : Type}

/-- The members of `PathOramController` that its constructor fixes. -/
structure PathOramConfig where
  id : ℕ
  standalone : Bool
  treeLevel : ℕ
  /-- a `uint8_t` -/
  bucketSize : ℕ

namespace PathOramConfig

/-- The constructor. The bucket size is a `uint32_t` argument stored into a
`uint8_t` member; the logarithm is taken exactly. -/
def new (id blockNum bucketSize : ℕ) (standalone : Bool) : PathOramConfig where
  id := id
  standalone := standalone
  treeLevel := Nat.clog 2 ((blockNum + bucketSize - 1) / bucketSize + 1) - 1
  bucketSize := bucketSize % 256

/-- `number_of_leafs_`. -/
def numberOfLeafs (P : PathOramConfig) : ℕ := 2 ^ P.treeLevel

/-- How many blocks the buckets of the tree hold together. -/
def capacity (P : PathOramConfig) : ℕ := (2 ^ (P.treeLevel + 1) - 1) * P.bucketSize

end PathOramConfig

/-- The mutable members of `PathOramController`. -/
structure PathOramController (D : Type) where
  positionMap : PositionMap
  stash : List (OramBlock D)
  stashSize : ℕ
  networkCommunication : ℕ
  isInitialized : Bool

/-- A client together with the state its stub talks to. -/
structure PathSystem (D σ : Type) where
  client : PathOramController D
  server : σ

/-- The random choices of one access: the draw behind `RandomPosition`, and for
every level and slot the padding bytes and the nonce. -/
structure AccessDraws (C : Codec D) where
  position : ℕ
  pad : ℕ → ℕ → OramBlock D
  iv : ℕ → ℕ → C.Iv

/-- The random choices of `FillWithData`, for every bucket and slot. -/
structure FillDraws (C : Codec D) where
  path : Tag → ℕ → ℕ
  pad : Tag → ℕ → OramBlock D
  iv : Tag → ℕ → C.Iv

namespace PathOramController

variable {C : Codec D} {σ : Type} (S : TreeStub C σ) (P : PathOramConfig)

/-- The controller after its constructor. -/
def new : PathOramController D where
  positionMap := .empty
  stash := []
  stashSize := 0
  networkCommunication := 0
  isInitialized := false

/-- Change the client's half of the system. -/
def update {ε : Type} (f : PathOramController D → PathOramController D) :
    Prog ε (PathSystem D σ) Unit :=
  Prog.modify fun w => { w with client := f w.client }

/-! ## One bucket -/

/-- `ReadBucket`. The status of `DecryptBlock` is not looked at. -/
def readBucket (path level : ℕ) : Prog Exit (PathSystem D σ) (List (OramBlock D)) := fun w =>
  if path ≥ P.numberOfLeafs ∨ level > P.treeLevel then
    fail .kInvalidArgument "The path or the level given is not correct" "ReadBucket" w
  else
    match S.readPath path level w.server with
    | (.error msg, server) => fail .kServerError msg "ReadBucket" { w with server := server }
    | (.ok response, server) =>
      (.ok (response.map fun c => (C.decryptBlock c).2),
        { client := { w.client with
            networkCommunication := w.client.networkCommunication + response.length }
          server := server })

/-- The bytes of a bucket on the wire: every block is encrypted under a nonce of
its own. -/
def sealBucket (iv : ℕ → C.Iv) (bucket : List (OramBlock D)) : List C.Sealed :=
  bucket.mapIdx fun i b => C.encryptBlock (iv i) b

/-- `WriteBucket`. -/
def writeBucket (path level : ℕ) (iv : ℕ → C.Iv) (bucket : List (OramBlock D)) :
    Prog Exit (PathSystem D σ) Unit := fun w =>
  let client := { w.client with
    networkCommunication := w.client.networkCommunication + bucket.length }
  match S.writePath ⟨path, level, 0, .kNormal, sealBucket iv bucket⟩ w.server with
  | (.error msg, server) => fail .kServerError msg "WriteBucket" ⟨client, server⟩
  | (.ok (), server) => (.ok (), ⟨client, server⟩)

/-- `AccurateWriteBucket`. -/
def accurateWriteBucket (level offset : ℕ) (iv : ℕ → C.Iv) (bucket : List (OramBlock D)) :
    Prog Exit (PathSystem D σ) Unit := fun w =>
  match S.writePath ⟨0, level, offset, .kInit, sealBucket iv bucket⟩ w.server with
  | (.error msg, server) => fail .kServerError msg "AccurateWriteBucket" { w with server := server }
  | (.ok (), server) => (.ok (), { w with server := server })

/-! ## The initial load

`FillWithData` walks through the buckets once, the leaves first, and gives each the next
`bucket_size_` elements of the data with a position below the bucket. Nothing compares
the data with the room in the tree: the loops end when the buckets are full, and `OK` is
returned. -/

/-- The tags in the order of the two loops of `FillWithData`: level by level
from the leaves to the root, each level from left to right. -/
def fillOrder (L : ℕ) : List Tag :=
  (List.range (L + 1)).reverse.flatMap fun i => (List.range (2 ^ i)).map fun j => (i, j)

/-- The innermost loop of `FillWithData`: `k` slots are left in the bucket, and
each consumes one element of the data, whether it is a real block or not.
Returns the bucket and the data that is left. -/
def fillBucket (start stop : ℕ) (draw : ℕ → ℕ) :
    ℕ → List (OramBlock D) → Prog Exit (PathSystem D σ) (List (OramBlock D) × List (OramBlock D))
  | 0, data => pure ([], data)
  | _ + 1, [] => pure ([], [])
  | k + 1, b :: data =>
    if b.isNormal then do
      let path ← checkedRandom "UniformRandom error" (draw k) start stop
      update fun c => { c with positionMap := c.positionMap.set b.id path }
      let r ← fillBucket start stop draw k data
      pure (b :: r.1, r.2)
    else fillBucket start stop draw k data

/-- The two outer loops of `FillWithData`, over the tags still to come. -/
def fillTree (draws : FillDraws C) : List Tag → List (OramBlock D) → Prog Exit (PathSystem D σ) Unit
  | [], _ => pure ()
  | t :: ts, data => do
    let span := 2 ^ (P.treeLevel - t.1)
    let start := t.2 * span
    let r ← fillBucket start (start + span - 1) (draws.path t) P.bucketSize data
    checkStatus "Failed to write bucket accurately when intializing the ORAM!"
      (accurateWriteBucket S t.1 t.2 (draws.iv t) (padStash (draws.pad t) P.bucketSize r.1))
    fillTree draws ts r.2

/-- `FillWithData`. -/
def fillWithData (data : List (OramBlock D)) (draws : FillDraws C) :
    Prog Exit (PathSystem D σ) Unit := do
  fillTree S P draws (fillOrder P.treeLevel) data
  update fun c => { c with isInitialized := true }

/-! ## Reading a path into the stash

`ReadPath` empties the buckets it returns, so from here until the path is written back
the blocks of the path are nowhere but in the client. The stash gets them after the last
level only; a read that fails in between has its blocks in a local variable. -/

/-- Steps 3-5, the remote half: read the buckets of path `x` at the given levels. -/
def readLevels (x : ℕ) : List ℕ → Prog Exit (PathSystem D σ) (List (List (OramBlock D)))
  | [] => pure []
  | l :: ls => do
    let bucket ← Prog.mapError (Exit.append (.make .kInvalidOperation
      s!"Failed to write bucket {x}" "InternalAccessDirect")) (readBucket S P x l)
    let rest ← readLevels x ls
    pure (bucket :: rest)

/-- One block of the path goes to the stash if it is real and no block of that
id is there yet. -/
def mergeBlock (stash : List (OramBlock D)) (b : OramBlock D) : List (OramBlock D) :=
  if (stash.find? (blockEqual b.id)).isNone && b.isNormal then stash ++ [b] else stash

/-- Steps 3-5, the local half: `S = S ∪ ReadBucket(P(x, l))`, from the root on. -/
def mergePath (stash : List (OramBlock D)) (path : List (List (OramBlock D))) :
    List (OramBlock D) :=
  path.flatten.foldl mergeBlock stash

/-! ## Writing a path back

From the leaf to the root, each bucket takes the blocks of the stash whose position is
the path that was read, until it is full. The comparison is of leaves, not of the bucket
that two paths share, so a block of another leaf stays in the stash. -/

/-- The loop of `FindSubsetOf`: walk through the stash, looking up the position
of each block (which leaves an entry in the map), and move blocks of path `x`
to the subset until it holds a full bucket. Returns the subset, what remains of
the stash, and the map. -/
def findSubset (bucketSize x : ℕ) :
    PositionMap → List (OramBlock D) → List (OramBlock D) →
      List (OramBlock D) × List (OramBlock D) × PositionMap
  | m, subset, [] => (subset, [], m)
  | m, subset, b :: stash =>
    if subset.length < bucketSize then
      if m.index b.id = x then findSubset bucketSize x (m.touch b.id) (subset ++ [b]) stash
      else
        let r := findSubset bucketSize x (m.touch b.id) subset stash
        (r.1, b :: r.2.1, r.2.2)
    else (subset, b :: stash, m.touch b.id)

/-- `FindSubsetOf`, the padded bucket included. -/
def findSubsetOf {ε : Type} (x : ℕ) (random : ℕ → OramBlock D) :
    Prog ε (PathSystem D σ) (List (OramBlock D)) := fun w =>
  let r := findSubset P.bucketSize x w.client.positionMap [] w.client.stash
  (.ok (padStash random P.bucketSize r.1),
    { w with client := { w.client with stash := r.2.1, positionMap := r.2.2 } })

/-- Steps 10-15: the buckets of path `x` below level `i` are still to be written. -/
def writeLevels (x : ℕ) (draws : AccessDraws C) : ℕ → Prog Exit (PathSystem D σ) Unit
  | 0 => pure ()
  | i + 1 => do
    let subset ← findSubsetOf P x (draws.pad i)
    Prog.mapError (Exit.append (.make .kInvalidOperation "Failed to write bucket"
      "InternalAccessDirect")) (writeBucket S x i (draws.iv i) subset)
    writeLevels x draws i

/-! ## An access

The block is remapped before its path is read. A dummy access (`dummy`) reads a path and
returns: what `ReadPath` has taken from the buckets is dropped, and nothing is written
back. -/

/-- Steps 6-9: the block was found in the stash. A write changes it in place; a
read returns it, and an embedded controller forgets it (READ AND REMOVE). -/
def updateBlock (op : Operation) (address : ℕ) (buffer block : OramBlock D) :
    Prog Exit (PathSystem D σ) (OramBlock D) := do
  update fun c => { c with stashSize := max c.stashSize c.stash.length }
  if op = .kWrite then do
    update fun c => { c with stash := updateFirst (blockEqual address) (·.store buffer) c.stash }
    pure buffer
  else do
    if P.standalone = false then
      update fun c => { c with
        stash := c.stash.eraseP (blockEqual address)
        positionMap := c.positionMap.erase address }
    pure block

/-- `InternalAccessDirect`: returns what `*data` holds afterwards. -/
def internalAccessDirect (op : Operation) (address x : ℕ) (buffer : OramBlock D)
    (draws : AccessDraws C) (dummy : Bool) : Prog Exit (PathSystem D σ) (OramBlock D) := do
  let path ← readLevels S P x (List.range (P.treeLevel + 1))
  -- a dummy read ends here: the path that was read is not kept
  if dummy then pure buffer
  else do
    update fun c => { c with stash := mergePath c.stash path }
    let w ← Prog.get
    match w.client.stash.find? (blockEqual address) with
    | none =>
      fail .kObjectNotFound s!"Failed to find the block {address} in the stash!"
        "InternalAccessDirect"
    | some block => do
      let out ← updateBlock P op address buffer block
      writeLevels S P x draws (P.treeLevel + 1)
      pure out

/-- `RandomPosition`. -/
def randomPosition (value : ℕ) : Prog Exit (PathSystem D σ) ℕ :=
  checkedRandom "UniformRandom error" value 0 (P.numberOfLeafs - 1)

/-- `InternalAccess`: a real access remaps the block first and reads its old
path; a dummy access reads a random path. -/
def internalAccess (op : Operation) (address : ℕ) (buffer : OramBlock D) (draws : AccessDraws C)
    (dummy : Bool) : Prog Exit (PathSystem D σ) (OramBlock D) := do
  let w ← Prog.get
  if w.client.isInitialized = false then
    fail .kInvalidOperation ("Cannot access ORAM before it is initialized." ++
      " You may need to call `InitOram()` and `FillWithData()` method first.") "InternalAccess"
  else if op = .kInvalid then Prog.throw (.abort "Invalid operation.")
  else do
    let x ← randomPosition P draws.position
    if dummy then internalAccessDirect S P op address x buffer draws true
    else do
      let prev := w.client.positionMap.index address
      update fun c => { c with positionMap := c.positionMap.set address x }
      internalAccessDirect S P op address prev buffer draws false

/-- `OramController::Access`. -/
def access (op : Operation) (address : ℕ) (buffer : OramBlock D) (draws : AccessDraws C) :
    Prog Exit (PathSystem D σ) (OramBlock D) := do
  let w ← Prog.get
  if w.client.isInitialized = false then
    fail .kInvalidOperation "Cannot access ORAM before it is initialized" ""
  else internalAccess S P op address buffer draws false

/-- `AccessDirect`: the caller names the path. -/
def accessDirect (op : Operation) (address position : ℕ) (buffer : OramBlock D)
    (draws : AccessDraws C) : Prog Exit (PathSystem D σ) (OramBlock D) := do
  let w ← Prog.get
  if w.client.isInitialized = false then
    fail .kInvalidOperation "Cannot access ORAM before it is initialized" ""
  else internalAccessDirect S P op address position buffer draws false

end PathOramController

/-- The system a controller sees once its constructor and `InitOram` are done:
the server has made a tree with as many leaves as the client's. -/
def PathSystem.init (C : Codec D) (P : PathOramConfig) :
    PathSystem D (TreeOramServerStorage C) where
  client := .new
  server := .new C P.numberOfLeafs

end ObliviousRam
