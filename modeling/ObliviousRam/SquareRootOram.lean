import ObliviousRam.SqrtStorage
import Mathlib.Data.List.Sort

set_option autoImplicit false

/-!
# The square-root ORAM controller

`SquareRootOramController` (`core/square_root_oram_controller.cc`): the position
map sends an address to the tag of its word on the server, an access scans the
shelter and then reads one word of main memory or a dummy, and every `√m`-th
access merges the shelter into the memory and permutes it.
-/

namespace ObliviousRam

variable {D : Type} {C : Codec D}

/-- The members of `SquareRootOramController` that its constructor fixes. -/
structure SquareRootOramConfig where
  blockNum : ℕ
  sqrtM : ℕ

namespace SquareRootOramConfig

/-- The constructor, with its check that `m + √m` is a power of two. -/
def new (blockNum : ℕ) : Except Exit SquareRootOramConfig :=
  if (ceilSqrt blockNum + blockNum) &&& (ceilSqrt blockNum + blockNum - 1) ≠ 0 then
    .error (.abort ("Currently, m + \\sqrt\x7bm\x7d should be some power of 2, where m denotes " ++
      "the block number."))
  else .ok ⟨blockNum, ceilSqrt blockNum⟩

/-- How many words the permuted memory has. -/
def words (K : SquareRootOramConfig) : ℕ := K.blockNum + K.sqrtM

end SquareRootOramConfig

/-- The mutable members of `SquareRootOramController`. -/
structure SquareRootOramController where
  positionMap : PositionMap
  nextDummy : ℕ
  counter : ℕ
  isInitialized : Bool

/-- A client together with the state its stub talks to. -/
structure SqrtSystem (σ : Type) where
  client : SquareRootOramController
  server : σ

/-- The random choices of `FillWithData`: the permutation, the nonces. -/
structure SqrtFillDraws (C : Codec D) where
  perm : List ℕ
  iv : ℕ → C.Iv

/-- The random choices of one access. -/
structure SqrtDraws (C : Codec D) where
  perm : List ℕ
  iv : C.Iv

/-- `Padded`, up to `num` blocks. What the bytes of the padding are is left to
the caller: they are not initialised. -/
def padded {D : Type} (garbage : ℕ → OramBlock D) (data : List (OramBlock D)) (num : ℕ) :
    List (OramBlock D) :=
  data ++ (List.range' data.length (num - data.length)).map fun i =>
    { garbage i with header := ⟨i, .kInvalid, (garbage i).header.dataLen⟩ }

/-- The comparison of `FillWithData`'s `std::sort`. -/
def byId {D : Type} (lhs rhs : OramBlock D) : Bool := lhs.id ≤ rhs.id

namespace SquareRootOramController

variable {σ : Type} (S : SqrtStub C σ) (K : SquareRootOramConfig)

/-- The controller after its constructor. -/
def new : SquareRootOramController where
  positionMap := .empty
  nextDummy := 0
  counter := 0
  isInitialized := false

/-- Change the client's half of the system. -/
def update {ε : Type} (f : SquareRootOramController → SquareRootOramController) :
    Prog ε (SqrtSystem σ) Unit :=
  Prog.modify fun w => { w with client := f w.client }

/-- A remote call; its failure is reported as `kServerError`. -/
def remote {α : Type} (location : String) (m : Prog String σ α) : Prog Exit (SqrtSystem σ) α :=
  fun w =>
    match m w.server with
    | (.ok a, server) => (.ok a, { w with server := server })
    | (.error msg, server) => fail .kServerError msg location { w with server := server }

/-- One step of `UpdatePosition`: the first permutation places element `i` at
`perm[i]`, a later one moves it on from where it is. (A position is a tag, so
the index is in range.) -/
def updateOne (perm : List ℕ) (m : PositionMap) (i : ℕ) : PositionMap :=
  m.set i (perm.getD ((m i).getD i) 0)

/-- `UpdatePosition`. -/
def updatePosition {ε : Type} (perm : List ℕ) : Prog ε (SqrtSystem σ) Unit :=
  update fun c => { c with
    positionMap := (List.range perm.length).foldl (updateOne perm) c.positionMap }

/-- `oram_crypto::RandomPermutation` of an array of `size` elements; `draw` is
the permutation it arrives at. -/
def randomPermutation (size : ℕ) (draw : List ℕ) : Except OramStatus (List ℕ) :=
  if size = 0 then
    .error (.make .kInvalidArgument "The input array cannot be empty" "RandomPermutation")
  else .ok draw

/-! ## The initial load -/

/-- `FillWithData`. The status of `RandomPermutation` is not looked at. `Padded`
runs away if there is more data than words. -/
def fillWithData (garbage : ℕ → OramBlock D) (data : List (OramBlock D))
    (draws : SqrtFillDraws C) : Prog Exit (SqrtSystem σ) Unit :=
  if data.length > K.words then Prog.throw (.undefined "the loop of Padded does not end")
  else do
    let perm := match randomPermutation K.words draws.perm with
      | .ok perm => perm
      | .error _ => List.range K.words
    updatePosition perm
    let sorted := (padded garbage data K.words).mergeSort byId
    let contents := (permuteBy perm sorted).mapIdx fun i b => C.encryptBlock (draws.iv i) b
    remote "FillWithData" (S.loadSqrtOram contents)
    update fun c => { c with isInitialized := true }

/-! ## Reading -/

/-- The loop of `ReadShelter` over the slots still to come, with what has been
found so far. Every slot is read, and a later match replaces an earlier one. -/
def scanShelter (address : ℕ) :
    List ℕ → Option (OramBlock D) → Prog Exit (SqrtSystem σ) (Option (OramBlock D))
  | [], found => pure found
  | i :: is, found => do
    let content ← remote "ReadShelter" (S.readSqrtMemory .kShelter i)
    match content with
    | none => scanShelter address is found
    | some c =>
      let block := (C.decryptBlock c).2
      scanShelter address is (if blockEqual address block then some block else found)

/-- `ReadShelter`. -/
def readShelter (address : ℕ) : Prog Exit (SqrtSystem σ) (OramBlock D) := do
  let found ← scanShelter S address (List.range K.sqrtM) none
  match found with
  | some block => pure block
  | none => fail .kObjectNotFound s!"The target block {address} is not found in the shelter." ""

/-- `ReadBlock` from main memory. -/
def readMain (pos : ℕ) : Prog Exit (SqrtSystem σ) (OramBlock D) := do
  let content ← remote "ReadBlock" (S.readSqrtMemory .kMainMemory pos)
  match content with
  | some c => pure (C.decryptBlock c).2
  | none =>
    fail .kObjectNotFound
      "The target block cannot be found both in shelter and main memory." ""

/-- `ReadBlock` from the dummies: what is read is not looked at. -/
def readDummy (pos : ℕ) : Prog Exit (SqrtSystem σ) Unit := do
  let _ ← remote "ReadBlock" (S.readSqrtMemory .kDummy pos)
  pure ()

/-! ## Writing -/

/-- `WriteBlock` of a block that has been sealed already: `EncryptBlock` works
in place, so `content` is also what the caller's buffer holds afterwards. -/
def writeBlock (position : ℕ) (content : C.Sealed) : Prog Exit (SqrtSystem σ) Unit :=
  remote "WriteBlock" (S.writeSqrtMemory position content)

/-- `DoPermute`. -/
def doPermute (perm : List ℕ) : Prog Exit (SqrtSystem σ) Unit := do
  remote "DoPermute" (S.sqrtPermute perm)
  updatePosition perm

/-- `PermuteOnFull`. -/
def permuteOnFull (draw : List ℕ) : Prog Exit (SqrtSystem σ) Unit := do
  update fun c => { c with counter := c.counter + 1 }
  let w ← Prog.get
  if w.client.counter = K.sqrtM then do
    update fun c => { c with counter := 0, nextDummy := 0 }
    match randomPermutation K.words draw with
    | .ok perm => doPermute S perm
    | .error st => Prog.throw (.status (st.append (.make .kInvalidOperation
        "Sqaure Root Oram Controller cannot permute the memory" "PermuteOnFull")))
  else pure ()

/-! ## An access -/

/-- Steps 1 and 2 of an access, the block found and the shelter scanned. -/
def fetch (address position : ℕ) : Prog Exit (SqrtSystem σ) (OramBlock D) := do
  let inShelter ← Prog.attempt (readShelter S K address)
  match inShelter with
  | .ok block => do
    let w ← Prog.get
    update fun c => { c with nextDummy := c.nextDummy + 1 }
    Prog.mapError (Exit.append (.make .kInvalidOperation
      "Square Root Oram Controller cannot read the block from the dummy area" "InternalAccess"))
      (readDummy S w.client.nextDummy)
    pure block
  | .error (.status st) =>
    if st.errorCode ≠ .kObjectNotFound then
      Prog.throw (.status (st.append (.make .kInvalidOperation
        "Square Root Oram Controller cannot read the block from the shelter" "InternalAccess")))
    else
      Prog.mapError (Exit.append (.make .kInvalidOperation
        "Square Root Oram Controller cannot read the block from the main memory"
        "InternalAccess")) (readMain S position)
  | .error e => Prog.throw e

/-- `InternalAccess`: returns what `*data` holds afterwards, which is the block
as it was sent to the shelter. A read does not look at the status of that write. -/
def internalAccess (op : Operation) (address : ℕ) (buffer : OramBlock D) (draws : SqrtDraws C) :
    Prog Exit (SqrtSystem σ) C.Sealed := do
  let w ← Prog.get
  if w.client.isInitialized = false then
    fail .kInvalidOperation ("Cannot access ORAM before it is initialized." ++
      " You may need to call `InitOram()` and `FillWithData()` method first.") "InternalAccess"
  else if op = .kInvalid then Prog.throw (.abort "Invalid ORAM operation!")
  else
    match w.client.positionMap address with
    | none => fail .kInvalidArgument "The requested block does not exist!" "InternalAccess"
    | some position => do
      let block ← fetch S K address position
      if block.isNormal && block.id != address then
        fail .kUnknownError
          s!"The requested id {address} does not match with the fetched block {block.id}"
          "InternalAccess"
      else do
        let content := C.encryptBlock draws.iv (if op = .kRead then block else buffer)
        if op = .kRead then do
          let _ ← Prog.attempt (writeBlock S position content)
        else
          Prog.mapError (Exit.append (.make .kInvalidOperation "Cannot write back the block"
            "InternalAccess")) (writeBlock S position content)
        Prog.mapError (Exit.append (.make .kUnknownError
          "Permutation failed or internal logic error!" "InternalAccess"))
          (permuteOnFull S K draws.perm)
        pure content

/-- `OramController::Access`. -/
def access (op : Operation) (address : ℕ) (buffer : OramBlock D) (draws : SqrtDraws C) :
    Prog Exit (SqrtSystem σ) C.Sealed := do
  let w ← Prog.get
  if w.client.isInitialized = false then
    fail .kInvalidOperation "Cannot access ORAM before it is initialized" ""
  else internalAccess S K op address buffer draws

end SquareRootOramController

/-- The system once the constructor and `InitOram` are done. -/
def SqrtSystem.init (C : Codec D) (K : SquareRootOramConfig) :
    SqrtSystem (SqrtOramServerStorage C) where
  client := .new
  server := .new C K.blockNum

end ObliviousRam
