import ObliviousRam.PathDummy

set_option autoImplicit false

/-!
# The Partition ORAM controller

`PartitionOramController` (`core/partition_oram_controller.cc`): `√N` embedded
Path ORAMs, each with a slot of blocks on the client in front of it. An access
fetches the block from its slot or its Path ORAM, puts it into a random slot,
and evicts from `nu_` random slots.

Every Path ORAM talks to the storage of its own id, so the state of the whole is
one `PathSystem` for each slot.
-/

namespace ObliviousRam

variable {D : Type} {C : Codec D}

/-- The members of `PartitionOramController` that `Run` and `SetNu` fix. -/
structure PartitionOramConfig where
  /-- `slots_.size()`, which is also `partition_size_` -/
  size : ℕ
  bucketSize : ℕ
  nu : ℕ

namespace PartitionOramConfig

/-- `Run`, after `SetNu(nu)`. -/
def run (blockNum bucketSize nu : ℕ) : PartitionOramConfig where
  size := ceilSqrt blockNum
  bucketSize := bucketSize
  nu := nu

/-- The Path ORAM behind slot `i`. -/
def oram (Q : PartitionOramConfig) (i : ℕ) : PathOramConfig := .new i Q.size Q.bucketSize false

/-- `tree_size` of `FillWithData`. The bucket size of the main controller is not
truncated. -/
def treeSize (Q : PartitionOramConfig) : ℕ := (2 ^ ((Q.oram 0).treeLevel + 1) - 1) * Q.bucketSize

end PartitionOramConfig

/-- The mutable members of `PartitionOramController`, and the storages of its
Path ORAMs. -/
structure PartitionOramController (C : Codec D) where
  positionMap : PositionMap
  slots : ℕ → List (OramBlock D)
  orams : ℕ → PathSystem D (TreeOramServerStorage C)
  isInitialized : Bool

/-- The random choices of one eviction. -/
structure EvictDraws (C : Codec D) where
  slot : ℕ
  access : AccessDraws C

/-- The random choices of one access. The local `block` is not initialised:
`garbage` are the bytes that happen to be there. -/
structure PartitionDraws (C : Codec D) where
  slot : ℕ
  garbage : OramBlock D
  access : AccessDraws C
  evict : ℕ → EvictDraws C

namespace PartitionOramController

variable (Q : PartitionOramConfig)

/-- The controller after `Run`, which also creates the Path ORAMs and their storages. -/
def new (C : Codec D) (Q : PartitionOramConfig) : PartitionOramController C where
  positionMap := .empty
  slots := fun _ => []
  orams := fun i => .init C (Q.oram i)
  isInitialized := false

/-- Change the client's own members. -/
def update {ε : Type} (f : PartitionOramController C → PartitionOramController C) :
    Prog ε (PartitionOramController C) Unit := Prog.modify f

/-- Replace slot `i`. -/
def setSlot (i : ℕ) (blocks : List (OramBlock D)) (w : PartitionOramController C) :
    PartitionOramController C :=
  { w with slots := Function.update w.slots i blocks }

/-- Replace the position of an address. -/
def setPosition (a i : ℕ) (w : PartitionOramController C) : PartitionOramController C :=
  { w with positionMap := w.positionMap.set a i }

/-- Replace the state of Path ORAM `i`. -/
def setOram (i : ℕ) (s : PathSystem D (TreeOramServerStorage C)) (w : PartitionOramController C) :
    PartitionOramController C :=
  { w with orams := Function.update w.orams i s }

/-- Run a program on Path ORAM `i`. -/
def onOram {ε α : Type} (i : ℕ) (m : Prog ε (PathSystem D (TreeOramServerStorage C)) α) :
    Prog ε (PartitionOramController C) α :=
  Prog.zoom (fun w => w.orams i) (setOram i) m

/-- `path_oram_controllers_[i]->InternalAccess`. -/
def oramAccess (i : ℕ) (op : Operation) (address : ℕ) (buffer : OramBlock D)
    (draws : AccessDraws C) (dummy : Bool) :
    Prog Exit (PartitionOramController C) (OramBlock D) :=
  onOram i (PathOramController.internalAccess (OramService.stub C (Q.oram i).id) (Q.oram i) op
    address buffer draws dummy)

/-! ## Evictions -/

/-- `Evict`: the last block of the slot is written to the Path ORAM behind it;
an empty slot makes a fake write. -/
def evict (id : ℕ) (draws : AccessDraws C) (garbage : OramBlock D) :
    Prog Exit (PartitionOramController C) Unit := do
  let w ← Prog.get
  match (w.slots id).getLast? with
  | none => do
    let _ ← oramAccess Q id .kWrite 0 garbage draws true
    pure ()
  | some block => do
    update (setSlot id (w.slots id).dropLast)
    let _ ← oramAccess Q id .kWrite block.id block draws false
    pure ()

/-- One iteration of `RandomEvict`. -/
def evictRandom (garbage : OramBlock D) (draws : EvictDraws C) :
    Prog Exit (PartitionOramController C) Unit := do
  let id ← checkedRandom "Failed to sample a new slot id." draws.slot 0 (Q.size - 1)
  evict Q id draws.access garbage

/-- `RandomEvict`, over the draws of its iterations. -/
def randomEvict (garbage : OramBlock D) (draws : List (EvictDraws C)) :
    Prog Exit (PartitionOramController C) Unit :=
  Prog.forEach (evictRandom Q garbage) draws

/-! ## An access -/

/-- The first half of `Access`, up to the local `block` and the new slot: from
the slot if the block is there, with a fake read of the Path ORAM, and else from
the Path ORAM, whose status is not looked at. -/
def fetch (op : Operation) (address : ℕ) (draws : PartitionDraws C) :
    Prog Exit (PartitionOramController C) (OramBlock D × ℕ) := do
  let newSlot ← checkedRandom "Failed to sample a new slot id." draws.slot 0 (Q.size - 1)
  let w ← Prog.get
  let slot := w.positionMap.index address
  update (setPosition address newSlot)
  if slot ≥ Q.size then Prog.throw (.undefined "slots_[slot_id] is out of range")
  else
    match (w.slots slot).find? (blockEqual address) with
    | none => do
      let block ← ignoreStatus draws.garbage
        (oramAccess Q slot op address draws.garbage draws.access false)
      pure (block, newSlot)
    | some block => do
      let _ ← checkStatus "Cannot perform fake read!"
        (oramAccess Q slot .kRead address draws.garbage draws.access true)
      update (setSlot slot ((w.slots slot).eraseP (blockEqual address)))
      pure (block, newSlot)

/-- `slots_[i].emplace_back(block)`. -/
def putInSlot (i : ℕ) (block : OramBlock D) : Prog Exit (PartitionOramController C) Unit :=
  update fun w => setSlot i (w.slots i ++ [block]) w

/-- `Access` without the eviction: returns what `*data` holds afterwards, which
is also what went into the new slot. -/
def relocate (op : Operation) (address : ℕ) (buffer : OramBlock D) (draws : PartitionDraws C) :
    Prog Exit (PartitionOramController C) (OramBlock D) := do
  let r ← fetch Q op address draws
  let block := if op = .kWrite then buffer else r.1
  putInSlot r.2 block
  pure block

/-- `Access`. -/
def access (op : Operation) (address : ℕ) (buffer : OramBlock D) (draws : PartitionDraws C) :
    Prog Exit (PartitionOramController C) (OramBlock D) := do
  let block ← relocate Q op address buffer draws
  checkStatus "Failed to perform eviction!"
    (randomEvict Q draws.garbage ((List.range Q.nu).map draws.evict))
  pure block

/-! ## The initial load -/

/-- `ProcessSlot`. -/
def processSlot (data : List (OramBlock D)) (slot : ℕ) :
    Prog Exit (PartitionOramController C) Unit :=
  update fun w => { w with
    positionMap := (data.filter OramBlock.isNormal).foldl (fun m b => m.set b.id slot)
      w.positionMap }

/-- The loop of `FillWithData`: the Path ORAMs from `i` on take `k` slices of the data. -/
def fillSlots (draws : ℕ → FillDraws C) : (i k : ℕ) → List (OramBlock D) →
    Prog Exit (PartitionOramController C) Unit
  | _, 0, _ => pure ()
  | i, k + 1, data => do
    processSlot (data.take Q.treeSize) i
    checkStatus "Failed to fill the data into the Path ORAM."
      (onOram i (PathOramController.fillWithData (OramService.stub C (Q.oram i).id) (Q.oram i)
        (data.take Q.treeSize) (draws i)))
    fillSlots draws (i + 1) k (data.drop Q.treeSize)

/-- `FillWithData`. -/
def fillWithData (data : List (OramBlock D)) (draws : ℕ → FillDraws C) :
    Prog Exit (PartitionOramController C) Unit := do
  if Q.size = 0 then Prog.throw (.undefined "front() of an empty vector")
  else if data.length ≠ Q.treeSize * Q.size then
    fail .kInvalidArgument "Data size is wrong" "FillWithData"
  else do
    fillSlots Q draws 0 Q.size data
    update fun w => { w with isInitialized := true }

end PartitionOramController

end ObliviousRam
