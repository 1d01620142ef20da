import ObliviousRam.PartitionOram

set_option autoImplicit false

/-!
# The Partition ORAM controller from its constructor on

`PartitionOram` has the controller after `Run`, when every slot has its Path ORAM. Here the
containers are what they are in the source: `path_oram_controllers_` grows with every call
of `InitOram`, whatever becomes of it, and the calls of all the Path ORAMs go over one stub.

`Access` is overridden and does not look at `is_initialized_`. Whatever state it is called
in, it returns no error status: what goes wrong inside is ignored, or ends the process.
-/

namespace ObliviousRam

variable {D σ α : Type} {C : Codec D}

/-- The client's side of the connection of a Partition ORAM: the tree calls carry the id of
a Path ORAM. -/
structure ForestStub (C : Codec D) (σ : Type) where
  initTreeOram : PathOramConfig → Prog String σ Unit
  tree : ℕ → TreeStub C σ

/-- The mutable members of `PartitionOramController`. -/
structure PartitionMembers (D : Type) where
  positionMap : PositionMap
  slots : List (List (OramBlock D))
  pathOramControllers : List (PathOramConfig × PathOramController D)
  isInitialized : Bool

/-- A client together with the state its stub talks to. -/
structure PartitionSystem (D σ : Type) where
  client : PartitionMembers D
  server : σ

namespace PartitionSystem

variable (S : ForestStub C σ) (Q : PartitionOramConfig)

/-- The controller after its constructor and `slots_.resize(n)`. -/
def new (D : Type) (n : ℕ) (server : σ) : PartitionSystem D σ where
  client := ⟨.empty, List.replicate n [], [], false⟩
  server := server

/-- Change the client's half of the system. -/
def update {ε : Type} (f : PartitionMembers D → PartitionMembers D) :
    Prog ε (PartitionSystem D σ) Unit :=
  Prog.modify fun w => { w with client := f w.client }

/-- Use `path_oram_controllers_[i]`. -/
def onController (i : ℕ) (m : PathOramConfig → Prog Exit (PathSystem D σ) α) :
    Prog Exit (PartitionSystem D σ) α := fun w =>
  match w.client.pathOramControllers[i]? with
  | none => (.error (.undefined "path_oram_controllers_[i] is out of range"), w)
  | some (P, c) =>
    let r := m P ⟨c, w.server⟩
    (r.1, ⟨{ w.client with
      pathOramControllers := w.client.pathOramControllers.set i (P, r.2.client) }, r.2.server⟩)

/-- Use `slots_[i]`. -/
def slot (i : ℕ) : Prog Exit (PartitionSystem D σ) (List (OramBlock D)) := fun w =>
  match w.client.slots[i]? with
  | none => (.error (.undefined "slots_[slot_id] is out of range"), w)
  | some blocks => (.ok blocks, w)

/-- Replace `slots_[i]`. -/
def setSlot (i : ℕ) (blocks : List (OramBlock D)) : Prog Exit (PartitionSystem D σ) Unit :=
  update fun c => { c with slots := c.slots.set i blocks }

/-- `UniformRandom(0, path_oram_controllers_.size() - 1)`. Of no controllers the upper end is
`2^32 - 1`, and the range wraps to zero. -/
def sampleSlot (value : ℕ) : Prog Exit (PartitionSystem D σ) ℕ := fun w =>
  if w.client.pathOramControllers.length = 0 then
    (.error (.undefined "division by zero in UniformRandom"), w)
  else checkedRandom "Failed to sample a new slot id." value 0
    (w.client.pathOramControllers.length - 1) w

/-- `path_oram_controllers_[i]->InternalAccess`. -/
def oramAccess (i : ℕ) (op : Operation) (address : ℕ) (buffer : OramBlock D)
    (draws : AccessDraws C) (dummy : Bool) : Prog Exit (PartitionSystem D σ) (OramBlock D) :=
  onController i fun P => PathOramController.internalAccess (S.tree P.id) P op address buffer
    draws dummy

/-! ## `InitOram`

Every turn of the loop appends a Path ORAM before it asks the server for a tree. A turn
that fails leaves the new Path ORAM there, and a second call of `InitOram` appends as
many again. -/

/-- The loop of `InitOram` over the slots still to come. -/
def initControllers : List ℕ → Prog Exit (PartitionSystem D σ) Unit
  | [] => pure ()
  | i :: is => do
    update fun c => { c with
      pathOramControllers := c.pathOramControllers ++ [(Q.oram i, .new)] }
    fun w => match S.initTreeOram (Q.oram i) w.server with
      | (.ok (), server) => initControllers is { w with server := server }
      | (.error msg, server) => fail .kServerError msg "InitOram" { w with server := server }

/-- `InitOram`. -/
def initOram : Prog Exit (PartitionSystem D σ) Unit := do
  let w ← Prog.get
  initControllers S Q (List.range w.client.slots.length)

/-! ## `FillWithData` -/

/-- The loop of `FillWithData` over the controllers still to come. -/
def fillControllers (draws : ℕ → FillDraws C) :
    List ℕ → List (OramBlock D) → Prog Exit (PartitionSystem D σ) Unit
  | [], _ => pure ()
  | i :: is, data => do
    update fun c => { c with
      positionMap := ((data.take Q.treeSize).filter OramBlock.isNormal).foldl
        (fun m b => m.set b.id i) c.positionMap }
    checkStatus "Failed to fill the data into the Path ORAM."
      (onController i fun P =>
        PathOramController.fillWithData (S.tree P.id) P (data.take Q.treeSize) (draws i))
    fillControllers draws is (data.drop Q.treeSize)

/-- `FillWithData`. -/
def fillWithData (data : List (OramBlock D)) (draws : ℕ → FillDraws C) :
    Prog Exit (PartitionSystem D σ) Unit := do
  let w ← Prog.get
  let count := w.client.pathOramControllers.length
  if count = 0 then Prog.throw (.undefined "front() of an empty vector")
  else if data.length ≠ Q.treeSize * count then
    fail .kInvalidArgument "Data size is wrong" "FillWithData"
  else do
    fillControllers S Q draws (List.range count) data
    update fun c => { c with isInitialized := true }

/-! ## `Access` -/

/-- `Evict`. -/
def evict (id : ℕ) (draws : AccessDraws C) (garbage : OramBlock D) :
    Prog Exit (PartitionSystem D σ) Unit := do
  let blocks ← slot id
  match blocks.getLast? with
  | none => do
    let _ ← oramAccess S id .kWrite 0 garbage draws true
    pure ()
  | some block => do
    setSlot id blocks.dropLast
    let _ ← oramAccess S id .kWrite block.id block draws false
    pure ()

/-- One iteration of `RandomEvict`. -/
def evictRandom (garbage : OramBlock D) (draws : EvictDraws C) :
    Prog Exit (PartitionSystem D σ) Unit := do
  let id ← sampleSlot draws.slot
  evict S id draws.access garbage

/-- The local `block` of `Access`: from the slot if it is there, else from the Path ORAM,
whose status is not looked at. -/
def fetch (op : Operation) (address slotId : ℕ) (draws : PartitionDraws C) :
    Prog Exit (PartitionSystem D σ) (OramBlock D) := do
  let blocks ← slot slotId
  match blocks.find? (blockEqual address) with
  | none =>
    ignoreStatus draws.garbage (oramAccess S slotId op address draws.garbage draws.access false)
  | some block => do
    let _ ← checkStatus "Cannot perform fake read!"
      (oramAccess S slotId .kRead address draws.garbage draws.access true)
    setSlot slotId (blocks.eraseP (blockEqual address))
    pure block

/-- `Access`. -/
def access (op : Operation) (address : ℕ) (buffer : OramBlock D) (draws : PartitionDraws C) :
    Prog Exit (PartitionSystem D σ) (OramBlock D) := do
  let newSlot ← sampleSlot draws.slot
  let w ← Prog.get
  let slotId := w.client.positionMap.index address
  update fun c => { c with positionMap := c.positionMap.set address newSlot }
  let fetched ← fetch S op address slotId draws
  let block := if op = .kWrite then buffer else fetched
  let blocks ← slot newSlot
  setSlot newSlot (blocks ++ [block])
  checkStatus "Failed to perform eviction!"
    (Prog.forEach (evictRandom S draws.garbage) ((List.range Q.nu).map draws.evict))
  pure block

end PartitionSystem

/-! ## No status gets out of an access

`Reports P` says that a program returns no error status but those that meet `P`. For
`Access` it holds with nothing for `P`: each status that comes up on the way is checked,
and then the process ends, or it is ignored. -/

/-- Every error status that the program returns is as `P` says. -/
def Prog.Reports (P : OramStatus → Prop) (m : Prog Exit σ α) : Prop :=
  ∀ s st, (m s).1 = .error (.status st) → P st

namespace Prog.Reports

variable {β : Type} {P Q : OramStatus → Prop} {m : Prog Exit σ α} {f : α → Prog Exit σ β}

/-- What returns reports nothing. -/
theorem pure (a : α) : Reports P (pure a : Prog Exit σ α) := fun _ _ => nofun

theorem get : Reports P (Prog.get : Prog Exit σ σ) := fun _ _ => nofun

theorem modify (g : σ → σ) : Reports P (Prog.modify g : Prog Exit σ Unit) := fun _ _ => nofun

theorem abort (why : String) : Reports P (Prog.throw (.abort why) : Prog Exit σ α) :=
  fun _ _ => nofun

/-- A sequence reports what its parts do. -/
theorem bind (hm : Reports P m) (hf : ∀ a, Reports P (f a)) : Reports P (m >>= f) := by
  intro s st h
  rcases hrun : m s with ⟨e | a, s'⟩
  · rw [Prog.bind_error hrun] at h
    refine hm s st ?_
    rw [hrun]
    exact congrArg Except.error (Except.error.inj h)
  · rw [Prog.bind_ok hrun] at h
    exact hf a s' st h

/-- A status may be replaced on the way out. -/
theorem mapError {g : Exit → Exit} (hm : Reports P m)
    (hg : ∀ e st, (∀ st', e = .status st' → P st') → g e = .status st → Q st) :
    Reports Q (mapError g m) := by
  intro s st h
  rw [Prog.mapError] at h
  rcases hrun : (m s).1 with e | a
  · rw [hrun] at h
    refine hg e st (fun st' he => hm s st' ?_) (Except.error.inj h)
    rw [hrun, he]
  · rw [hrun] at h
    cases h

/-- A status that is checked ends the process instead of being returned. -/
theorem checkStatus (reason : String) (m : Prog Exit σ α) :
    Reports P (checkStatus reason m) := by
  intro s st h
  rw [ObliviousRam.checkStatus, Prog.mapError] at h
  rcases hrun : (m s).1 with e | a
  · rw [hrun] at h
    cases e <;> cases h
  · rw [hrun] at h
    cases h

/-- A status that is ignored is gone. -/
theorem ignoreStatus (default : α) (m : Prog Exit σ α) :
    Reports P (ignoreStatus default m) := by
  intro s st h
  rw [ObliviousRam.ignoreStatus] at h
  rcases hrun : m s with ⟨e | a, s'⟩
  · rw [hrun] at h
    cases e <;> cases h
  · rw [hrun] at h
    cases h

end Prog.Reports

namespace PartitionSystem

variable {P : OramStatus → Prop}

theorem slot_reports (i : ℕ) :
    (slot i : Prog Exit (PartitionSystem D σ) (List (OramBlock D))).Reports P := by
  intro w st
  rw [slot]
  split <;> exact nofun

theorem sampleSlot_reports (value : ℕ) :
    (sampleSlot value : Prog Exit (PartitionSystem D σ) ℕ).Reports P := by
  intro w st
  rw [sampleSlot, checkedRandom]
  split
  · rintro ⟨⟩
  · split <;> rintro ⟨⟩

/-- The first half of an access: the real access is ignored and the fake one is checked. -/
theorem fetch_reports (S : ForestStub C σ) (op : Operation) (address slotId : ℕ)
    (draws : PartitionDraws C) : (fetch S op address slotId draws).Reports P := by
  refine .bind (slot_reports _) fun blocks => ?_
  split
  · exact .ignoreStatus _ _
  · exact .bind (.checkStatus _ _) fun _ => .bind (.modify _) fun _ => .pure _

/-- **An access returns no error status**, in whatever state it is made. -/
theorem access_reports_nothing (S : ForestStub C σ) (Q : PartitionOramConfig) (op : Operation)
    (address : ℕ) (buffer : OramBlock D) (draws : PartitionDraws C) :
    (access S Q op address buffer draws).Reports fun _ => False :=
  .bind (sampleSlot_reports _) fun _ => .bind .get fun _ => .bind (.modify _) fun _ =>
    .bind (fetch_reports S op address _ draws) fun _ => .bind (slot_reports _) fun _ =>
      .bind (.modify _) fun _ => .bind (.checkStatus _ _) fun _ => .pure _

end PartitionSystem

end ObliviousRam
