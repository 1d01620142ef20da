import ObliviousRam.TreeStorage
import ObliviousRam.SqrtStorage
import ObliviousRam.Trace

set_option autoImplicit false

/-!
# The server

`OramService` (`server/oram_server.cc`): one table of storages, which all
clients share, and the handlers that reach it.

* `OramServer` — the table `storages_`.
* `withStorage` — what nine of the handlers do first: look the id up, cast the
  storage to the class the request is for, compare type and hash.
* `handle` — the dispatch, for a handler that is alone in the server. The threads
  of the server may run several at once; `ServerThreads` takes them apart into
  their checks and their work.

`ResetServer`, which empties the table, is not a request here.
-/

namespace ObliviousRam

variable {D : Type} {C : Codec D}

/-! ## Storages

The server keeps a pointer to the base class for every id. What is behind it is one of
three storages; a handler casts it to the one it is for. -/

/-- A `std::string` that is compared, not looked into. -/
abbrev ByteString : Type := List UInt8

/-- `server_flat_storage_t`, one string: the blocks that it holds one after the
other, and the bytes that are left over. -/
structure FlatString (C : Codec D) where
  blocks : List C.Sealed
  rest : ByteString

/-- `FlatOramServerStorage` (`server/flat_oram_storage.h`). -/
structure FlatOramServerStorage (C : Codec D) where
  storage : FlatString C

namespace FlatOramServerStorage

/-- `GetStorage`. -/
def getStorage : Prog Exit (FlatOramServerStorage C) (FlatString C) := fun s => (.ok s.storage, s)

/-- `ResetStorage`. -/
def resetStorage : Prog Exit (FlatOramServerStorage C) Unit := Prog.modify fun _ => ⟨⟨[], []⟩⟩

/-- `From`. -/
def assignFrom (storage : FlatString C) : Prog Exit (FlatOramServerStorage C) Unit :=
  Prog.modify fun _ => ⟨storage⟩

end FlatOramServerStorage

/-- `oram_impl::OramStorageType`. -/
inductive OramStorageType where
  | kFlatStorage
  | kSqrtStorage
  | kTreeStorage
  | kLayeredStorage
  | kInvalidStorage
  deriving DecidableEq, Repr

/-- An object of a class derived from `BaseOramServerStorage`. -/
inductive DerivedStorage (C : Codec D) where
  | flat : FlatOramServerStorage C → DerivedStorage C
  | sqrt : SqrtOramServerStorage C → DerivedStorage C
  | tree : TreeOramServerStorage C → DerivedStorage C

/-- The type of a storage: each class has its constructor set the member. -/
def DerivedStorage.oramStorageType : DerivedStorage C → OramStorageType
  | .flat _ => .kFlatStorage
  | .sqrt _ => .kSqrtStorage
  | .tree _ => .kTreeStorage

/-- The `const` members of `BaseOramServerStorage`. -/
structure BaseOramServerStorage where
  id : ℕ
  capacity : ℕ
  blockSize : ℕ
  instanceHash : ByteString
  deriving DecidableEq, Repr

/-- A storage of the table. -/
structure OramServerStorage (C : Codec D) where
  base : BaseOramServerStorage
  derived : DerivedStorage C

/-- `GetOramStorageType`. -/
def OramServerStorage.getOramStorageType (s : OramServerStorage C) : OramStorageType :=
  s.derived.oramStorageType

/-- A class `T` to which `CheckStorage<T>` casts. -/
structure StorageClass (C : Codec D) (T : Type) where
  type : OramStorageType
  /-- `dynamic_cast<T*>` -/
  cast : DerivedStorage C → Option T
  /-- the object, as one of its base class -/
  upcast : T → DerivedStorage C
  cast_upcast : ∀ t, cast (upcast t) = some t
  type_upcast : ∀ t, (upcast t).oramStorageType = type

/-- `FlatOramServerStorage`, as a class. -/
def flatClass (C : Codec D) : StorageClass C (FlatOramServerStorage C) where
  type := .kFlatStorage
  cast
    | .flat s => some s
    | _ => none
  upcast := .flat
  cast_upcast := fun _ => rfl
  type_upcast := fun _ => rfl

/-- `SqrtOramServerStorage`, as a class. -/
def sqrtClass (C : Codec D) : StorageClass C (SqrtOramServerStorage C) where
  type := .kSqrtStorage
  cast
    | .sqrt s => some s
    | _ => none
  upcast := .sqrt
  cast_upcast := fun _ => rfl
  type_upcast := fun _ => rfl

/-- `TreeOramServerStorage`, as a class. -/
def treeClass (C : Codec D) : StorageClass C (TreeOramServerStorage C) where
  type := .kTreeStorage
  cast
    | .tree s => some s
    | _ => none
  upcast := .tree
  cast_upcast := fun _ => rfl
  type_upcast := fun _ => rfl

/-! ## Strings that may be empty

A client of its own makes requests whose strings are encrypted blocks. The
server takes any string, the empty one (`none`) included. -/

namespace SqrtOramServerStorage

/-- The loop of `WriteBlockToShelter`, for any string. -/
def putFirstFree (tag : ℕ) (data : Option C.Sealed) :
    List (ℕ × Option C.Sealed) → Option (List (ℕ × Option C.Sealed))
  | [] => none
  | (t, some c) :: slots => (putFirstFree tag data slots).map ((t, some c) :: ·)
  | (t, none) :: slots =>
    if t = kInvalidMask then some ((tag, data) :: slots)
    else (putFirstFree tag data slots).map ((t, none) :: ·)

/-- `WriteBlockToShelter`, for any string. -/
def writeToShelter (tag : ℕ) (data : Option C.Sealed) :
    Prog Exit (SqrtOramServerStorage C) Unit := fun s =>
  match putFirstFree tag data s.shelter with
  | none => (.error (.abort ("No available space in the shelter." ++
      " This is an internal logic error.")), s)
  | some shelter => (.ok (), { s with shelter := shelter })

/-- `Fill`, for any strings. -/
def fillStrings (data : List (Option C.Sealed)) : Prog Exit (SqrtOramServerStorage C) Unit :=
  Prog.modify fun s => { s with
    mainMemory := s.mainMemory ++ data.take s.capacity
    dummy := s.dummy ++ data.drop s.capacity
    shelter := s.shelter ++ (data.drop s.capacity).map fun _ => freeSlot C }

/-- For a string that is not empty this is the function of the storage. -/
theorem putFirstFree_some (tag : ℕ) (c : C.Sealed) (slots : List (ℕ × Option C.Sealed)) :
    putFirstFree tag (some c) slots = writeFirstFree tag c slots := by
  induction slots with
  | nil => rfl
  | cons slot slots ih =>
    obtain ⟨t, _ | d⟩ := slot
    · simp only [putFirstFree, writeFirstFree, ih]
    · simp only [putFirstFree, writeFirstFree, ih]

theorem writeToShelter_some (tag : ℕ) (c : C.Sealed) :
    writeToShelter tag (some c) = writeBlockToShelter tag c := by
  funext s
  cases h : writeFirstFree tag c s.shelter with
  | none => simp [writeToShelter, writeBlockToShelter, putFirstFree_some, h]
  | some shelter => simp [writeToShelter, writeBlockToShelter, putFirstFree_some, h]

theorem fillStrings_map_some (data : List C.Sealed) : fillStrings (data.map some) = fill data := by
  funext s
  simp only [fillStrings, fill, List.map_take, List.map_drop, List.map_map, Function.comp_def]

end SqrtOramServerStorage

/-! ## The service -/

/-- The codes of `grpc::Status` that the handlers return, `OK` apart. -/
inductive RpcCode where
  | invalidArgument
  | notFound
  | alreadyExists
  | internal
  | unavailable
  deriving DecidableEq, Repr

/-- A `grpc::Status` that is not `OK`. -/
structure RpcStatus where
  errorCode : RpcCode
  errorMessage : String
  deriving DecidableEq, Repr

/-- Why a handler stopped without `grpc::Status::OK`. -/
inductive HandlerExit where
  /-- it returned another status -/
  | status : RpcStatus → HandlerExit
  /-- `PANIC`, a failed assertion: the process is gone -/
  | abort : String → HandlerExit
  /-- undefined behaviour of the C++ abstract machine -/
  | undefined : String → HandlerExit

namespace HandlerExit

/-- The server does not survive the stop. -/
def fatal : HandlerExit → Bool
  | status _ => false
  | abort _ => true
  | undefined _ => true

/-- A storage has stopped; a status of its own becomes `INTERNAL`. -/
def ofExit (message : String) : Exit → HandlerExit
  | .status _ => status ⟨.internal, message⟩
  | .abort why => abort why
  | .undefined why => undefined why

end HandlerExit

/-- `kMaximumOramStorageNum`. -/
def kMaximumOramStorageNum : ℕ := 100000

/-- `RequestHeader`, without the version, which no handler reads. -/
structure RequestHeader where
  id : ℕ
  instanceHash : ByteString
  deriving DecidableEq, Repr

/-- What a handler puts into its response. -/
inductive OramResponse (C : Codec D) where
  | empty
  | bucket (blocks : List C.Sealed)
  | content (block : Option C.Sealed)
  | flat (content : FlatString C)

/-- `OramService`: the member `storages_`. -/
structure OramServer (C : Codec D) where
  storages : ℕ → Option (OramServerStorage C)

namespace OramServer

/-- No storage yet. -/
def new (C : Codec D) : OramServer C := ⟨fun _ => none⟩

/-- `storages_[id] = s`. -/
def put (w : OramServer C) (id : ℕ) (s : OramServerStorage C) : OramServer C :=
  ⟨fun i => if i = id then some s else w.storages i⟩

@[simp] theorem put_storages_self (w : OramServer C) (id : ℕ) (s : OramServerStorage C) :
    (w.put id s).storages id = some s := if_pos rfl

theorem put_storages_ne (w : OramServer C) {id i : ℕ} (s : OramServerStorage C) (h : i ≠ id) :
    (w.put id s).storages i = w.storages i := if_neg h

theorem put_same {w : OramServer C} {id : ℕ} {s : OramServerStorage C}
    (h : w.storages id = some s) : w.put id s = w := by
  obtain ⟨storages⟩ := w
  rw [put, mk.injEq]
  funext i
  by_cases hi : i = id
  · rw [if_pos hi, hi]
    exact h.symm
  · rw [if_neg hi]

/-- `CheckInitRequest`. -/
def checkInitRequest (id : ℕ) : Prog HandlerExit (OramServer C) Unit := fun w =>
  if (w.storages id).isSome then
    (.error (.status ⟨.alreadyExists, s!"ORAM id: {id} already exists."⟩), w)
  else if id ≥ kMaximumOramStorageNum then
    (.error (.status ⟨.invalidArgument, s!"PathORAM id: {id}" ++
      s!" exceeds the maximum number of ORAM storages: {kMaximumOramStorageNum}"⟩), w)
  else (.ok (), w)

/-- `CheckIdValid`, and the pointer it makes valid. -/
def checkIdValid (id : ℕ) : Prog HandlerExit (OramServer C) (OramServerStorage C) := fun w =>
  match w.storages id with
  | none => (.error (.status ⟨.notFound, s!"ORAM id: {id} does not exist."⟩), w)
  | some s => (.ok s, w)

/-- `CheckStorage<T>`. -/
def checkStorage {T : Type} (K : StorageClass C T) (instanceHash : ByteString)
    (s : OramServerStorage C) : Except HandlerExit T :=
  match K.cast s.derived with
  | none => .error (.abort "Trying to cast to a non-derived class of `BaseOramServerStorage`.")
  | some t =>
    if K.type ≠ s.getOramStorageType then
      .error (.status ⟨.unavailable, "The remote storage cannot match the given ORAM type."⟩)
    else if s.base.instanceHash ≠ instanceHash then
      .error (.status ⟨.unavailable, "The remote storage cannot match the given ORAM hash."⟩)
    else .ok t

/-- Both checks, and then `body` on the storage that passed them. -/
def withStorage {T : Type} (K : StorageClass C T) (header : RequestHeader)
    (body : Prog HandlerExit T (OramResponse C)) :
    Prog HandlerExit (OramServer C) (OramResponse C) := do
  let s ← checkIdValid header.id
  match checkStorage K header.instanceHash s with
  | .error e => Prog.throw e
  | .ok t => fun w =>
    ((body t).1, w.put header.id { s with derived := K.upcast (body t).2 })

/-- The end of the three `Init` handlers. -/
def createStorage (id : ℕ) (s : OramServerStorage C) :
    Prog HandlerExit (OramServer C) (OramResponse C) := do
  checkInitRequest id
  Prog.modify fun w => w.put id s
  pure .empty

/-! ## The handlers

A handler is the one call of the storage that it is for, behind `withStorage`. The four
`Init` handlers make the storages, and `PrintOramTree` only looks at one. -/

/-- `InitTreeOram`. For no bucket at all the constructor computes the level `-1`,
which wraps, and runs into a shift by `32`. -/
def initTreeOram (header : RequestHeader) (bucketNum blockSize : ℕ) :
    Prog HandlerExit (OramServer C) (OramResponse C) :=
  if bucketNum = 0 then do
    checkInitRequest header.id
    Prog.throw (.undefined "the shift exponent is too large")
  else createStorage header.id
    ⟨⟨header.id, bucketNum, blockSize, header.instanceHash⟩, .tree (.new C bucketNum)⟩

/-- `InitFlatOram`. -/
def initFlatOram (header : RequestHeader) (capacity blockSize : ℕ) :
    Prog HandlerExit (OramServer C) (OramResponse C) :=
  createStorage header.id
    ⟨⟨header.id, capacity, blockSize, header.instanceHash⟩, .flat ⟨⟨[], []⟩⟩⟩

/-- `InitSqrtOram`. -/
def initSqrtOram (header : RequestHeader) (capacity blockSize : ℕ) :
    Prog HandlerExit (OramServer C) (OramResponse C) :=
  createStorage header.id
    ⟨⟨header.id, capacity, blockSize, header.instanceHash⟩, .sqrt (.new C capacity)⟩

/-- The memories that `read_from` can name. -/
def areaOfCode : ℕ → Option SqrtArea
  | 0 => some .kShelter
  | 1 => some .kMainMemory
  | 2 => some .kDummy
  | _ => none

/-- `ReadSqrtMemory`, once the storage is found. -/
def readSqrtWork (readFrom tag : ℕ) :
    Prog HandlerExit (SqrtOramServerStorage C) (OramResponse C) := fun s =>
  match (areaOfCode readFrom).filter (s.check tag) with
  | none => (.error (.status ⟨.invalidArgument,
      s!"Sanity check failed. Read type is {readFrom}, tag is {tag}."⟩), s)
  | some area =>
    let read := match area with
      | .kShelter => SqrtOramServerStorage.readBlockFromShelter tag
      | .kMainMemory => SqrtOramServerStorage.readBlockFromMain tag
      | .kDummy => SqrtOramServerStorage.readBlockFromDummy tag
    (do
      let block ← Prog.mapError (HandlerExit.ofExit "") read
      pure (OramResponse.content block)) s

/-- `ReadSqrtMemory`. -/
def readSqrtMemory (header : RequestHeader) (readFrom tag : ℕ) :
    Prog HandlerExit (OramServer C) (OramResponse C) :=
  withStorage (sqrtClass C) header (readSqrtWork readFrom tag)

/-- `WriteSqrtMemory`, once the storage is found. -/
def writeSqrtWork (pos : ℕ) (content : Option C.Sealed) :
    Prog HandlerExit (SqrtOramServerStorage C) (OramResponse C) := do
  Prog.mapError (HandlerExit.ofExit "") (SqrtOramServerStorage.writeToShelter pos content)
  pure .empty

/-- `WriteSqrtMemory`. -/
def writeSqrtMemory (header : RequestHeader) (pos : ℕ) (content : Option C.Sealed) :
    Prog HandlerExit (OramServer C) (OramResponse C) :=
  withStorage (sqrtClass C) header (writeSqrtWork pos content)

/-- `SqrtPermute`, once the storage is found. -/
def sqrtPermuteWork (perms : List ℕ) :
    Prog HandlerExit (SqrtOramServerStorage C) (OramResponse C) := do
  Prog.mapError (HandlerExit.ofExit "") (SqrtOramServerStorage.doPermute perms)
  pure .empty

/-- `SqrtPermute`. -/
def sqrtPermute (header : RequestHeader) (perms : List ℕ) :
    Prog HandlerExit (OramServer C) (OramResponse C) :=
  withStorage (sqrtClass C) header (sqrtPermuteWork perms)

/-- `LoadSqrtOram`, once the storage is found. -/
def loadSqrtWork (contents : List (Option C.Sealed)) :
    Prog HandlerExit (SqrtOramServerStorage C) (OramResponse C) := do
  Prog.mapError (HandlerExit.ofExit "") (SqrtOramServerStorage.fillStrings contents)
  pure .empty

/-- `LoadSqrtOram`. -/
def loadSqrtOram (header : RequestHeader) (contents : List (Option C.Sealed)) :
    Prog HandlerExit (OramServer C) (OramResponse C) :=
  withStorage (sqrtClass C) header (loadSqrtWork contents)

/-- `ReadFlatMemory`, once the storage is found. -/
def readFlatWork : Prog HandlerExit (FlatOramServerStorage C) (OramResponse C) := do
  let blocks ← Prog.mapError (HandlerExit.ofExit "") FlatOramServerStorage.getStorage
  pure (.flat blocks)

/-- `ReadFlatMemory`. -/
def readFlatMemory (header : RequestHeader) :
    Prog HandlerExit (OramServer C) (OramResponse C) :=
  withStorage (flatClass C) header readFlatWork

/-- `WriteFlatMemory`, once the storage is found. -/
def writeFlatWork (content : FlatString C) :
    Prog HandlerExit (FlatOramServerStorage C) (OramResponse C) := do
  Prog.mapError (HandlerExit.ofExit "") FlatOramServerStorage.resetStorage
  Prog.mapError (HandlerExit.ofExit "") (FlatOramServerStorage.assignFrom content)
  pure .empty

/-- `WriteFlatMemory`. -/
def writeFlatMemory (header : RequestHeader) (content : FlatString C) :
    Prog HandlerExit (OramServer C) (OramResponse C) :=
  withStorage (flatClass C) header (writeFlatWork content)

/-- `ReadPath`, once the storage is found. -/
def readPathWork (id path level : ℕ) :
    Prog HandlerExit (TreeOramServerStorage C) (OramResponse C) := do
  let bucket ← Prog.mapError (HandlerExit.ofExit
    s!"Failed to read path: {path} in level: {level} in PathORAM id: {id}")
    (TreeOramServerStorage.readPath level path)
  pure (.bucket bucket)

/-- `ReadPath`. -/
def readPath (header : RequestHeader) (path level : ℕ) :
    Prog HandlerExit (OramServer C) (OramResponse C) :=
  withStorage (treeClass C) header (readPathWork header.id path level)

/-- `WritePath`, once the storage is found. (The text of the storage's own status is left
out of the message.) -/
def writePathWork (id : ℕ) (request : WritePathRequest C) :
    Prog HandlerExit (TreeOramServerStorage C) (OramResponse C) := do
  Prog.mapError (HandlerExit.ofExit (s!"Failed to write path: {request.path}" ++
      s!" in level: {request.level} in PathORAM id: {id}:\n "))
    (if request.type = .kInit then
      TreeOramServerStorage.accurateWritePath request.level request.offset request.bucket
        request.type
    else TreeOramServerStorage.writePath request.level request.path request.bucket)
  pure .empty

/-- `WritePath`. -/
def writePath (header : RequestHeader) (request : WritePathRequest C) :
    Prog HandlerExit (OramServer C) (OramResponse C) :=
  withStorage (treeClass C) header (writePathWork header.id request)

/-- `PrintOramTree`: the request has an id and no hash. (The text goes to the log.) -/
def printOramTree (id : ℕ) : Prog HandlerExit (OramServer C) (OramResponse C) := do
  let s ← checkIdValid id
  match (treeClass C).cast s.derived with
  | none => Prog.throw (.status ⟨.unavailable,
      "The remote storage cannot match the given ORAM type."⟩)
  | some _ => pure .empty

/-- A request. `session` stands for `KeyExchange`, `SendHello`,
`CloseConnection` and `ReportServerInformation`: they do not reach `storages_`,
and their answer, which the cryptor decides, is part of the request here. -/
inductive Request (C : Codec D) where
  | initTreeOram (header : RequestHeader) (bucketNum blockSize : ℕ)
  | initFlatOram (header : RequestHeader) (capacity blockSize : ℕ)
  | initSqrtOram (header : RequestHeader) (capacity blockSize : ℕ)
  | readSqrtMemory (header : RequestHeader) (readFrom tag : ℕ)
  | writeSqrtMemory (header : RequestHeader) (pos : ℕ) (content : Option C.Sealed)
  | sqrtPermute (header : RequestHeader) (perms : List ℕ)
  | loadSqrtOram (header : RequestHeader) (contents : List (Option C.Sealed))
  | readFlatMemory (header : RequestHeader)
  | writeFlatMemory (header : RequestHeader) (content : FlatString C)
  | readPath (header : RequestHeader) (path level : ℕ)
  | writePath (header : RequestHeader) (request : WritePathRequest C)
  | printOramTree (id : ℕ)
  | session (answer : Option RpcStatus)

/-- The handler of a request, run from its first statement to its last without another in
between. -/
def handle : Request C → Prog HandlerExit (OramServer C) (OramResponse C)
  | .initTreeOram header bucketNum blockSize => initTreeOram header bucketNum blockSize
  | .initFlatOram header capacity blockSize => initFlatOram header capacity blockSize
  | .initSqrtOram header capacity blockSize => initSqrtOram header capacity blockSize
  | .readSqrtMemory header readFrom tag => readSqrtMemory header readFrom tag
  | .writeSqrtMemory header pos content => writeSqrtMemory header pos content
  | .sqrtPermute header perms => sqrtPermute header perms
  | .loadSqrtOram header contents => loadSqrtOram header contents
  | .readFlatMemory header => readFlatMemory header
  | .writeFlatMemory header content => writeFlatMemory header content
  | .readPath header path level => readPath header path level
  | .writePath header request => writePath header request
  | .printOramTree id => printOramTree id
  | .session none => pure .empty
  | .session (some st) => Prog.throw (.status st)

/-! ## The clients' stubs

A client with a storage of its own reaches it through a stub, which takes the
storage for the state of the server. The handlers do the same on the shared
table: the stub is what is left of them past the checks. -/

section

variable {T α : Type} {K : StorageClass C T} {header : RequestHeader}

/-- The table holds the client's storage, under the client's id and hash. -/
def Serves (K : StorageClass C T) (header : RequestHeader) (t : T) (w : OramServer C) : Prop :=
  ∃ base, w.storages header.id = some ⟨base, K.upcast t⟩ ∧
    base.instanceHash = header.instanceHash

/-- A request that is addressed well reaches the storage. -/
theorem withStorage_serves (body : Prog HandlerExit T (OramResponse C)) {t : T} {w : OramServer C}
    (h : Serves K header t w) :
    (withStorage K header body w).1 = (body t).1 ∧
      Serves K header (body t).2 (withStorage K header body w).2 := by
  obtain ⟨base, hs, hhash⟩ := h
  have hcheck : checkStorage K header.instanceHash ⟨base, K.upcast t⟩ = .ok t := by
    simp only [checkStorage, K.cast_upcast, OramServerStorage.getOramStorageType, K.type_upcast,
      hhash, ne_eq, not_true_eq_false, if_false]
  have hvalid : checkIdValid header.id w = (.ok ⟨base, K.upcast t⟩, w) := by
    simp only [checkIdValid, hs]
  have hrun : withStorage K header body w =
      ((body t).1, w.put header.id ⟨base, K.upcast (body t).2⟩) := by
    rw [withStorage, Prog.bind_ok hvalid, hcheck]
  rw [hrun]
  exact ⟨rfl, base, put_storages_self _ _ _, hhash⟩

/-- Up to the text of its errors, a remote call does to the table what it does
to the storage. -/
theorem relates_handler {m : Prog String T α} {body : Prog HandlerExit T (OramResponse C)}
    (f : α → OramResponse C)
    (h : ∀ t, (body t).2 = (m t).2 ∧ (body t).1.toOption = (m t).1.toOption.map f) :
    Prog.Relates (Serves K header) (fun a response => response = f a)
      (m.mapError fun _ => ()) ((withStorage K header body).mapError fun _ => ()) := by
  intro t w hserves
  obtain ⟨hout, hserves'⟩ := withStorage_serves body hserves
  obtain ⟨hstate, hvalue⟩ := h t
  rw [hstate] at hserves'
  refine ⟨?_, hserves'⟩
  rw [Prog.mapError, Prog.mapError, hout]
  cases hm : (m t).1 <;> cases hb : (body t).1 <;> rw [hm, hb] at hvalue
  case error.error => rfl
  case error.ok => cases hvalue
  case ok.error => cases hvalue
  case ok.ok => exact Option.some.inj hvalue

/-- A call to the storage, and its value in the response. -/
theorem call_toOption (call : Prog Exit T α) (f : α → OramResponse C) (g : Exit → String)
    (g' : Exit → HandlerExit) (t : T) :
    ((call.mapError g' >>= fun a => pure (f a)) t).2 = (call.mapError g t).2 ∧
      ((call.mapError g' >>= fun a => pure (f a)) t).1.toOption =
        (call.mapError g t).1.toOption.map f := by
  cases hcall : call t with
  | mk r t' =>
    cases r with
    | error e =>
      rw [Prog.bind_error (Prog.mapError_error hcall), Prog.mapError_error hcall]
      exact ⟨rfl, rfl⟩
    | ok a =>
      rw [Prog.bind_ok (Prog.mapError_ok hcall), Prog.mapError_ok hcall]
      exact ⟨rfl, rfl⟩

/-- What the client's stub gives for `ReadPath` is what the handler answers. -/
theorem relates_readPath (header : RequestHeader) (path level : ℕ) :
    Prog.Relates (Serves (treeClass C) header) (fun bucket response => response = .bucket bucket)
      (((OramService.stub C header.id).readPath path level).mapError fun _ => ())
      ((readPath header path level).mapError fun _ => ()) :=
  relates_handler OramResponse.bucket (call_toOption _ _ _ _)

theorem relates_writePath (header : RequestHeader) (request : WritePathRequest C) :
    Prog.Relates (Serves (treeClass C) header) (fun _ response => response = .empty)
      (((OramService.stub C header.id).writePath request).mapError fun _ => ())
      ((writePath header request).mapError fun _ => ()) :=
  relates_handler (fun _ => OramResponse.empty) (call_toOption _ _ _ _)

/-- What the stub gives for `LoadSqrtOram` is what the handler answers. -/
theorem relates_loadSqrtOram (header : RequestHeader) (contents : List C.Sealed) :
    Prog.Relates (Serves (sqrtClass C) header) (fun _ response => response = .empty)
      (((OramService.sqrtStub C).loadSqrtOram contents).mapError fun _ => ())
      ((loadSqrtOram header (contents.map some)).mapError fun _ => ()) := by
  rw [loadSqrtOram, loadSqrtWork, SqrtOramServerStorage.fillStrings_map_some]
  exact relates_handler (fun _ => OramResponse.empty) (call_toOption _ _ _ _)

theorem relates_writeSqrtMemory (header : RequestHeader) (pos : ℕ) (content : C.Sealed) :
    Prog.Relates (Serves (sqrtClass C) header) (fun _ response => response = .empty)
      (((OramService.sqrtStub C).writeSqrtMemory pos content).mapError fun _ => ())
      ((writeSqrtMemory header pos (some content)).mapError fun _ => ()) := by
  rw [writeSqrtMemory, writeSqrtWork, SqrtOramServerStorage.writeToShelter_some]
  exact relates_handler (fun _ => OramResponse.empty) (call_toOption _ _ _ _)

theorem relates_sqrtPermute (header : RequestHeader) (perms : List ℕ) :
    Prog.Relates (Serves (sqrtClass C) header) (fun _ response => response = .empty)
      (((OramService.sqrtStub C).sqrtPermute perms).mapError fun _ => ())
      ((sqrtPermute header perms).mapError fun _ => ()) :=
  relates_handler (fun _ => OramResponse.empty) (call_toOption _ _ _ _)

theorem relates_readSqrtMemory (header : RequestHeader) (area : SqrtArea) (tag : ℕ) :
    Prog.Relates (Serves (sqrtClass C) header) (fun block response => response = .content block)
      (((OramService.sqrtStub C).readSqrtMemory area tag).mapError fun _ => ())
      ((readSqrtMemory header area.code tag).mapError fun _ => ()) := by
  have harea : areaOfCode area.code = some area := by cases area <;> rfl
  apply relates_handler
  intro s
  simp only [readSqrtWork, OramService.sqrtStub, OramService.readSqrtMemory, harea, Option.filter]
  cases s.check tag area with
  | false => exact ⟨rfl, rfl⟩
  | true => cases area <;> exact call_toOption _ _ _ _ s

end

end OramServer

end ObliviousRam
