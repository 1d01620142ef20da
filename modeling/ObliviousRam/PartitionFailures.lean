import ObliviousRam.PartitionRefinement
import ObliviousRam.PathMemory

set_option autoImplicit false

/-!
# Failures of the Path ORAM behind a Partition ORAM

`Access` makes one access to the Path ORAM for the block it is asked for: a real one, or a fake
read if the block is in its slot. The position map has been updated by then.

* the status of the real access is not looked at: `Access` goes on with whatever its local `block`
  holds, stores it in the new slot and evicts (`access_goes_on`).
* the status of the fake read ends the process.

Either way no status other than `OK` comes out of `Access`.
-/

namespace ObliviousRam

variable {D σ : Type} {C : Codec D}

namespace PartitionSystem

variable (S : ForestStub C σ) (Q : PartitionOramConfig) (op : Operation) (address : ℕ)
  (buffer : OramBlock D) (draws : PartitionDraws C)

/-- The access to the Path ORAM that `Access` makes for the requested block. -/
def requestedAccess : Prog Exit (PartitionSystem D σ) (OramBlock D) := do
  let w ← Prog.get
  let slotId := w.client.positionMap.index address
  let blocks ← slot slotId
  match blocks.find? (blockEqual address) with
  | none => oramAccess S slotId op address draws.garbage draws.access false
  | some _ => oramAccess S slotId .kRead address draws.garbage draws.access true

/-- The Path ORAM access for the requested block returns a status other than `OK`. -/
def RequestFails (w : PartitionSystem D σ) : Prop :=
  ∃ st w', requestedAccess S op address draws w = (.error (.status st), w')

/-- The failure is passed on: `Access` returns a status other than `OK`, with the position map and
the slots as they were. (So nothing is stored, in particular.) -/
def PassedOn (w : PartitionSystem D σ) : Prop :=
  ∃ st w', access S Q op address buffer draws w = (.error (.status st), w') ∧
    w'.client.positionMap = w.client.positionMap ∧ w'.client.slots = w.client.slots

/-- If there is a failure, it is passed on. -/
def PropagatesFailure (w : PartitionSystem D σ) : Prop :=
  RequestFails S op address draws w → PassedOn S Q op address buffer draws w

/-- `Access` returns no status, so it passes none on. -/
theorem not_passedOn (w : PartitionSystem D σ) : ¬ PassedOn S Q op address buffer draws w := by
  rintro ⟨st, w', hrun, -⟩
  refine access_reports_nothing S Q op address buffer draws w st ?_
  rw [hrun]

/-- **Failures are never passed on**: the implication holds where there is none. -/
theorem propagatesFailure_iff (w : PartitionSystem D σ) :
    PropagatesFailure S Q op address buffer draws w ↔ ¬ RequestFails S op address draws w :=
  ⟨fun h hfail => not_passedOn S Q op address buffer draws w (h hfail),
    fun h hfail => absurd hfail h⟩

/-! ## What happens instead

`block` is not initialised, and after a failed access it holds what was in that place on
the stack. A read hands it out; and it goes to the new slot, unless a write puts `*data`
in its place. -/

variable {S Q op address buffer draws}

/-- The position map has been updated. -/
def moved (address newSlot : ℕ) (w : PartitionSystem D σ) : PartitionSystem D σ :=
  { w with client := { w.client with positionMap := w.client.positionMap.set address newSlot } }

/-- After a real access that failed, the position map names the new slot, and the new slot holds
the caller's block or, for a read, what the local variable held. -/
theorem access_goes_on {w w' : PartitionSystem D σ} {blocks : List (OramBlock D)} {st : OramStatus}
    {newSlot : ℕ} (hsample : sampleSlot draws.slot w = (.ok newSlot, w))
    (hslot : w.client.slots[w.client.positionMap.index address]? = some blocks)
    (habsent : blocks.find? (blockEqual address) = none)
    (hfail : oramAccess S (w.client.positionMap.index address) op address draws.garbage
      draws.access false (moved address newSlot w) = (.error (.status st), w')) :
    access S Q op address buffer draws w =
      (do
        let block := if op = Operation.kWrite then buffer else draws.garbage
        let blocks ← slot newSlot
        setSlot newSlot (blocks ++ [block])
        checkStatus "Failed to perform eviction!"
          (Prog.forEach (evictRandom S draws.garbage) ((List.range Q.nu).map draws.evict))
        pure block) w' := by
  have hfetch : fetch S op address (w.client.positionMap.index address) draws
      (moved address newSlot w) = (.ok draws.garbage, w') := by
    have hread : slot (w.client.positionMap.index address) (moved address newSlot w) =
        (.ok blocks, moved address newSlot w) := by
      rw [slot, moved, hslot]
    rw [fetch, Prog.bind_ok hread, habsent]
    simp only [ignoreStatus, hfail]
  rw [access, Prog.bind_ok hsample, Prog.get_bind, update, Prog.modify_bind]
  exact Prog.bind_ok hfetch

/-! ## An unknown address -/

/-- A Partition ORAM of one slot, on its server. -/
def smallPartition : PartitionOramConfig := .run 1 2 0

/-- After `InitOram` and `FillWithData` with the one block 0. -/
def smallPartitionLoaded : PartitionSystem ℕ (Forest (Codec.plain ℕ)) :=
  (fillWithData (OramService.forestStub _) smallPartition [smallBlock 0 10, dummyBlock]
    (fun _ => smallFill) (initOram (OramService.forestStub _) smallPartition
      (.new ℕ 1 fun _ => .new _ 1)).2).2

/-- The draws of an access. -/
def smallPartitionDraws : PartitionDraws (Codec.plain ℕ) :=
  ⟨0, dummyBlock, smallDraws, fun _ => ⟨0, smallDraws⟩⟩

/-- Address 5 is not known. -/
theorem smallPartition_fails :
    RequestFails (OramService.forestStub _) .kRead 5 smallPartitionDraws smallPartitionLoaded :=
  ⟨_, _, rfl⟩

/-- A read of an unknown address, right after the load: the Path ORAM access fails, `Access`
returns `OK`, the position map has changed, and the caller has what was in the local variable. -/
theorem smallPartition_not_passedOn :
    (fillWithData (OramService.forestStub _) smallPartition [smallBlock 0 10, dummyBlock]
      (fun _ => smallFill) (initOram (OramService.forestStub _) smallPartition
        (.new ℕ 1 fun _ => .new _ 1)).2).1 = .ok () ∧
    (∃ w', access (OramService.forestStub _) smallPartition .kRead 5 dummyBlock
        smallPartitionDraws smallPartitionLoaded = (.ok dummyBlock, w') ∧
      w'.client.positionMap 5 = some 0 ∧ w'.client.slots = [[dummyBlock]]) ∧
    smallPartitionLoaded.client.positionMap 5 = none ∧
    ¬ PropagatesFailure (OramService.forestStub _) smallPartition .kRead 5 dummyBlock
      smallPartitionDraws smallPartitionLoaded := by
  refine ⟨rfl, ⟨_, rfl, rfl, rfl⟩, rfl, fun h => ?_⟩
  exact not_passedOn _ _ _ _ _ _ _ (h smallPartition_fails)

end PartitionSystem

end ObliviousRam
