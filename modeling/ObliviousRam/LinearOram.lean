import ObliviousRam.OramServer

set_option autoImplicit false

/-!
# The linear ORAM controller

`LinearOramController` (`core/linear_oram_controller.cc`): every access reads
the whole storage, decrypts and re-encrypts it block by block, and writes it
back. The blocks that carry the address are read or changed in passing.
-/

namespace ObliviousRam

variable {D : Type} {C : Codec D}

/-- The client's side of the connection of a linear ORAM. -/
structure FlatStub (C : Codec D) (σ : Type) where
  readFlatMemory : Prog String σ (FlatString C)
  writeFlatMemory : (content : FlatString C) → Prog String σ Unit

namespace OramService

/-- The stub of a client whose requests all reach one storage. -/
def flatStub (C : Codec D) : FlatStub C (FlatOramServerStorage C) where
  readFlatMemory := Prog.mapError connectionLost FlatOramServerStorage.getStorage
  writeFlatMemory := fun content => Prog.mapError connectionLost do
    FlatOramServerStorage.resetStorage
    FlatOramServerStorage.assignFrom content

end OramService

/-- The mutable members of `LinearOramController`. -/
structure LinearOramController where
  isInitialized : Bool

/-- A client together with the state its stub talks to. -/
structure LinearSystem (σ : Type) where
  client : LinearOramController
  server : σ

namespace LinearOramController

variable {σ : Type} (S : FlatStub C σ)

/-- The controller after its constructor. -/
def new : LinearOramController := ⟨false⟩

/-- `ReadFromServer`. -/
def readFromServer : Prog Exit (LinearSystem σ) (FlatString C) := fun w =>
  match S.readFlatMemory w.server with
  | (.ok content, server) => (.ok content, { w with server := server })
  | (.error msg, server) => fail .kServerError msg "ReadFromServer" { w with server := server }

/-- `WriteToServer`. -/
def writeToServer (input : FlatString C) : Prog Exit (LinearSystem σ) Unit := fun w =>
  match S.writeFlatMemory input w.server with
  | (.ok (), server) => (.ok (), { w with server := server })
  | (.error msg, server) => fail .kServerError msg "WriteToServer" { w with server := server }

/-- One block of the loop of `InternalAccess`, past `DecryptBlock`, whose status
is not looked at: what `*data` holds afterwards, and the block. A write replaces
the data bytes and leaves `data_len`. -/
def accessBlock (op : Operation) (address : ℕ) (data block : OramBlock D) :
    OramBlock D × OramBlock D :=
  if block.isNormal && block.id == address then
    if op = .kRead then (block, block) else (data, { block with data := data.data })
  else (data, block)

/-- The loop of `InternalAccess` over the blocks still to come; block `i` is
encrypted under the nonce `iv i`. -/
def accessBlocks (op : Operation) (address : ℕ) (iv : ℕ → C.Iv) :
    ℕ → OramBlock D → List C.Sealed → OramBlock D × List C.Sealed
  | _, data, [] => (data, [])
  | i, data, c :: cs =>
    let r := accessBlock op address data (C.decryptBlock c).2
    let rest := accessBlocks op address iv (i + 1) r.1 cs
    (rest.1, C.encryptBlock (iv i) r.2 :: rest.2)

/-- `InternalAccess`: returns what `*data` holds afterwards. -/
def internalAccess (op : Operation) (address : ℕ) (data : OramBlock D) (iv : ℕ → C.Iv) :
    Prog Exit (LinearSystem σ) (OramBlock D) :=
  if op = .kInvalid then Prog.throw (.abort "Invalid ORAM operation!")
  else do
    let storage ← Prog.mapError (Exit.append (.make .kInvalidOperation
      "Cannot read from the server" "InternalAccess")) (readFromServer S)
    let r := accessBlocks op address iv 0 data storage.blocks
    Prog.mapError (fun _ => .status (.make .kServerError
      "Cannot invoke WriteToServer on the server side" "InternalAccess"))
      (writeToServer S { storage with blocks := r.2 })
    pure r.1

/-- `OramController::Access`. -/
def access (op : Operation) (address : ℕ) (data : OramBlock D) (iv : ℕ → C.Iv) :
    Prog Exit (LinearSystem σ) (OramBlock D) := do
  let w ← Prog.get
  if w.client.isInitialized = false then
    fail .kInvalidOperation "Cannot access ORAM before it is initialized" ""
  else internalAccess S op address data iv

/-- `FillWithData`: the controller counts as initialised even if the write fails. -/
def fillWithData (data : List (OramBlock D)) (iv : ℕ → C.Iv) :
    Prog Exit (LinearSystem σ) Unit := do
  Prog.modify fun w => { w with client := ⟨true⟩ }
  Prog.mapError (fun _ => .status (.make .kServerError
    "Cannot invoke WriteFlatMemory on the server side" "FillWithData"))
    (writeToServer S ⟨data.mapIdx fun i b => C.encryptBlock (iv i) b, []⟩)

/-- What becomes of a block does not depend on the blocks before it. -/
theorem accessBlock_data (op : Operation) (address : ℕ) (data b b' : OramBlock D) :
    (accessBlock op address (accessBlock op address data b).1 b').2 =
      (accessBlock op address data b').2 := by
  by_cases hop : op = .kRead
  · simp only [accessBlock, hop, if_true, apply_ite Prod.snd, ite_self]
  · have hdata : (accessBlock op address data b).1 = data := by
      simp only [accessBlock, hop, if_false, apply_ite Prod.fst, ite_self]
    rw [hdata]

/-- Every block that is received goes back, encrypted again. -/
theorem accessBlocks_sent (op : Operation) (address : ℕ) (iv : ℕ → C.Iv) (cs : List C.Sealed)
    (i : ℕ) (data : OramBlock D) :
    (accessBlocks op address iv i data cs).2 = cs.mapIdx fun j c =>
      C.encryptBlock (iv (i + j)) (accessBlock op address data (C.decryptBlock c).2).2 := by
  induction cs generalizing i data with
  | nil => rfl
  | cons c cs ih =>
    rw [accessBlocks, List.mapIdx_cons, ih]
    simp only [accessBlock_data, Nat.add_zero, Nat.add_assoc, Nat.add_comm 1]

end LinearOramController

end ObliviousRam
