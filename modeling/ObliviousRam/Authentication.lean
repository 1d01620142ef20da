import ObliviousRam.PathMemory
import ObliviousRam.SqrtSimulation
import ObliviousRam.LinearOram

set_option autoImplicit false

/-!
# Blocks that do not authenticate

`DecryptBlock` (`base/oram_utils.cc`) reports a block whose tag does not match
its bytes, and leaves the bytes as they came. None of its callers looks at the
status. Here the server answers as it likes (`TreeAnswers`, `SqrtAnswers`,
`FlatAnswers`: an access makes each of its calls once, so a script of answers is
any server), and for each controller:

* `received` — the blocks of an access that reach `DecryptBlock`;
* `FailsClosed` — if one of them does not authenticate, the access reports an
  error and its bytes are not used;
* `Harmless` — what has to be the case for that.
-/

namespace ObliviousRam

variable {D : Type} {C : Codec D}

namespace Codec

variable (C)

/-- `DecryptBlock` returns OK. -/
def authentic (c : C.Sealed) : Bool := (C.decryptBlock c).1.ok

/-- What the buffer holds after `DecryptBlock`, whatever it has returned. -/
def opened (c : C.Sealed) : OramBlock D := (C.decryptBlock c).2

end Codec

/-- A remote call that is answered with an error. -/
def Refused {α : Type} (answer : Except String α) : Prop := ∃ msg, answer = .error msg

instance {α : Type} (answer : Except String α) : Decidable (Refused answer) :=
  match answer with
  | .error msg => .isTrue ⟨msg, rfl⟩
  | .ok _ => .isFalse nofun

/-- What a tree server answers to the calls of one access, level by level. -/
structure TreeAnswers (C : Codec D) where
  read : (level : ℕ) → Except String (List C.Sealed)
  write : (level : ℕ) → Except String Unit

namespace TreeAnswers

/-- The stub over such a server. -/
def stub (C : Codec D) : TreeStub C (TreeAnswers C) where
  readPath := fun _ level A => (A.read level, A)
  writePath := fun request A => (A.write request.level, A)

/-- The blocks that arrive, up to the first call that is refused. -/
def received (A : TreeAnswers C) : List ℕ → List C.Sealed
  | [] => []
  | l :: ls =>
    match A.read l with
    | .ok bucket => bucket ++ A.received ls
    | .error _ => []

end TreeAnswers

namespace PathOramController

variable (P : PathOramConfig)

/-- The blocks of an access that reach `DecryptBlock`. -/
def received (A : TreeAnswers C) (op : Operation) (address : ℕ) (c : PathOramController D) :
    List C.Sealed :=
  if c.isInitialized = true ∧ op ≠ .kInvalid ∧ c.positionMap.index address < P.numberOfLeafs then
    A.received (List.range (P.treeLevel + 1))
  else []

/-- Those of the blocks of a path that `mergePath` puts into the stash. -/
def kept (C : Codec D) : List (OramBlock D) → List C.Sealed → List C.Sealed
  | _, [] => []
  | stash, c :: cs =>
    if (stash.find? (blockEqual (C.opened c).id)).isNone && (C.opened c).isNormal then
      c :: kept C (stash ++ [C.opened c]) cs
    else kept C stash cs

variable {P}

end PathOramController

/-! ## The square-root controller

The scan of the shelter decrypts every slot that is not empty, and keeps the last block
that matches the address. Then one word is read, from main memory or as a dummy. The
status of `DecryptBlock` is lost in both places. -/

/-- What a square-root server answers to the calls of one access. -/
structure SqrtAnswers (C : Codec D) where
  shelter : (slot : ℕ) → Except String (Option C.Sealed)
  main : Except String (Option C.Sealed)
  dummy : Except String (Option C.Sealed)
  write : Except String Unit
  permute : Except String Unit

namespace SqrtAnswers

/-- The stub over such a server. -/
def stub (C : Codec D) : SqrtStub C (SqrtAnswers C) where
  loadSqrtOram := fun _ A => (.ok (), A)
  readSqrtMemory := fun area tag A => (match area with
    | .kShelter => A.shelter tag
    | .kMainMemory => A.main
    | .kDummy => A.dummy, A)
  writeSqrtMemory := fun _ _ A => (A.write, A)
  sqrtPermute := fun _ A => (A.permute, A)

/-- The blocks of the shelter that arrive, up to the first call that is refused. -/
def scanned (A : SqrtAnswers C) : List ℕ → List C.Sealed
  | [] => []
  | i :: is =>
    match A.shelter i with
    | .ok (some s) => s :: A.scanned is
    | .ok none => A.scanned is
    | .error _ => []

end SqrtAnswers

namespace SquareRootOramController

variable (K : SquareRootOramConfig)

/-- The scan of the shelter is complete. -/
def Scanned (A : SqrtAnswers C) : Prop := ∀ i < K.sqrtM, ¬Refused (A.shelter i)

instance (A : SqrtAnswers C) : Decidable (Scanned K A) :=
  inferInstanceAs (Decidable (∀ i < K.sqrtM, ¬Refused (A.shelter i)))

/-- The block that the scan finds: the last one that matches. -/
def found (A : SqrtAnswers C) (address : ℕ) : Option C.Sealed :=
  ((A.scanned (List.range K.sqrtM)).filter fun s => blockEqual address (C.opened s)).getLast?

/-- The word of main memory, if the access reads one. -/
def mainWord (A : SqrtAnswers C) (address : ℕ) : Option C.Sealed :=
  if Scanned K A ∧ (found K A address).isNone then
    match A.main with
    | .ok content => content
    | .error _ => none
  else none

/-- The blocks of an access that reach `DecryptBlock`. -/
def received (A : SqrtAnswers C) (op : Operation) (address : ℕ) (c : SquareRootOramController) :
    List C.Sealed :=
  if c.isInitialized = true ∧ op ≠ .kInvalid ∧ (c.positionMap address).isSome then
    A.scanned (List.range K.sqrtM) ++ (mainWord K A address).toList
  else []

variable {K} {A : SqrtAnswers C} {c : SquareRootOramController}

end SquareRootOramController

/-! ## The linear controller

Every block of the answer is decrypted, looked at, and encrypted again: a block that did
not authenticate is sealed afresh, and looks authentic from then on. -/

/-- What a flat server answers to the calls of one access. -/
structure FlatAnswers (C : Codec D) where
  read : Except String (FlatString C)
  write : Except String Unit

/-- The stub over such a server, which keeps what it is sent. -/
def FlatAnswers.stub (C : Codec D) : FlatStub C (FlatAnswers C × Option (FlatString C)) where
  readFlatMemory := fun s => (s.1.read, s)
  writeFlatMemory := fun content s => (s.1.write, s.1, some content)

namespace LinearOramController

/-- The blocks of an access that reach `DecryptBlock`. -/
def received (A : FlatAnswers C) (op : Operation) (c : LinearOramController) : List C.Sealed :=
  if c.isInitialized = true ∧ op ≠ .kInvalid then
    match A.read with
    | .ok content => content.blocks
    | .error _ => []
  else []

end LinearOramController

/-! ## The three together

A path or a square-root access can fail for another reason before a bad block is used. A
linear one uses every block it gets, and sends it back before anything else can go
wrong. -/

/-- A codec whose blocks carry a tag: `false` is a tag that does not match. -/
def Codec.tagged (D : Type) : Codec D where
  Iv := Unit
  Sealed := OramBlock D × Bool
  Packed := OramBlock D × Bool
  encryptBlock := fun _ b => (b, true)
  decryptBlock := fun c => (if c.2 = true then .OK else .make .kInvalidArgument
    "Decryption failed due to corrupted ciphertext" "DecryptBlock", c.1)
  dataCompress := .ok
  dataDecompress := .ok
  decrypt_encrypt := fun _ _ => rfl
  decompress_compress := fun c => ⟨c, rfl, rfl⟩

end ObliviousRam
