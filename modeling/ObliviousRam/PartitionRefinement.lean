import ObliviousRam.PartitionStart
import ObliviousRam.PathSimulation

set_option autoImplicit false

/-!
# The Partition ORAM controller once it runs

After `InitOram` went through, the controller of `PartitionStart` is the one of `PartitionOram`:
its containers hold one slot and one Path ORAM for every index below `slots_.size()`, and each
Path ORAM talks to a storage of its own.

* `OramService.forestStub` — a server that keeps the storages of all the Path ORAMs.
* `Runs` — the containers of the one controller hold what the functions of the other say.
* `run_relates` — no sequence of calls tells the two apart.
-/

namespace ObliviousRam

variable {D α : Type} {C : Codec D}

/-- The state of a server with a storage for every Path ORAM. -/
abbrev Forest (C : Codec D) : Type := ℕ → TreeOramServerStorage C

/-- The server of a Partition ORAM: a call goes to the storage of the id it carries. -/
def OramService.forestStub (C : Codec D) : ForestStub C (Forest C) where
  initTreeOram := fun P => Prog.modify fun f => Function.update f P.id (.new C P.numberOfLeafs)
  tree := fun i =>
    { readPath := fun path level =>
        Prog.zoom (fun f => f i) (fun s f => Function.update f i s)
          ((OramService.stub C i).readPath path level)
      writePath := fun request =>
        Prog.zoom (fun f => f i) (fun s f => Function.update f i s)
          ((OramService.stub C i).writePath request) }

/-- A program on one storage is the same program on the storage alone. -/
theorem relates_zoom_update {τ ε : Type} (f : ℕ → τ) (i : ℕ) (m : Prog ε τ α) :
    Prog.Relates (fun g s => g = Function.update f i s) Eq
      (Prog.zoom (fun f => f i) (fun s f => Function.update f i s) m) m := by
  rintro _ s rfl
  rw [Prog.zoom, Function.update_self, Function.update_idem]
  exact ⟨Prog.agree_eq.mpr rfl, rfl⟩

/-- Seen through the stub of one Path ORAM, the forest is its one storage. -/
theorem simulates_forestStub (f : Forest C) (i : ℕ) :
    ((OramService.forestStub C).tree i).Simulates (fun g s => g = Function.update f i s)
      (OramService.stub C i) where
  read := fun _ _ => relates_zoom_update f i _
  write := fun _ => relates_zoom_update f i _

/-- Setting an entry of the container is updating the function that it tabulates. -/
theorem set_map_range {β : Type} (f : ℕ → β) (n i : ℕ) (x : β) :
    ((List.range n).map f).set i x = (List.range n).map (Function.update f i x) := by
  refine List.ext_getElem (by simp) fun j hj _ => ?_
  simp [List.getElem_set, Function.update_apply, eq_comm]

/-- An index in range finds its entry. -/
theorem getElem?_map_range {β : Type} (f : ℕ → β) {n i : ℕ} (h : i < n) :
    ((List.range n).map f)[i]? = some (f i) := by
  rw [List.getElem?_map, List.getElem?_range h, Option.map_some]

/-! ## Statuses that are checked, or not

Where the source asserts the status of a call or ignores it, both models do. -/

section

variable {σ τ : Type} {R : σ → τ → Prop} {m : Prog Exit σ α} {m' : Prog Exit τ α}

theorem relates_checkStatus (reason : String) (hm : Prog.Relates R Eq m m') :
    Prog.Relates R Eq (checkStatus reason m) (checkStatus reason m') := .mapError _ hm

theorem relates_ignoreStatus (default : α) (hm : Prog.Relates R Eq m m') :
    Prog.Relates R Eq (ignoreStatus default m) (ignoreStatus default m') := by
  intro w v h
  obtain ⟨hagree, hnext⟩ := hm w v h
  rw [Prog.agree_eq] at hagree
  rw [ignoreStatus, ignoreStatus]
  rcases hw : m w with ⟨r, w'⟩
  rcases hv : m' v with ⟨r', v'⟩
  rw [hw, hv] at hagree hnext
  cases hagree
  rcases r with (_ | _ | _) | a <;> exact ⟨Prog.agree_eq.mpr rfl, hnext⟩

end

namespace PartitionSystem

/-- The containers hold what the functions of `v` say, below `slots_.size()`. -/
structure Runs (Q : PartitionOramConfig) (w : PartitionSystem D (Forest C))
    (v : PartitionOramController C) : Prop where
  positionMap_eq : w.client.positionMap = v.positionMap
  slots_eq : w.client.slots = (List.range Q.size).map v.slots
  controllers_eq : w.client.pathOramControllers =
    (List.range Q.size).map fun i => (Q.oram i, (v.orams i).client)
  server_eq : ∀ i < Q.size, w.server i = (v.orams i).server
  initialized_eq : w.client.isInitialized = v.isInitialized

variable {Q : PartitionOramConfig}

/-- There is a Path ORAM for each slot. -/
theorem Runs.length_eq {w : PartitionSystem D (Forest C)} {v : PartitionOramController C}
    (h : Runs Q w v) : w.client.pathOramControllers.length = Q.size := by
  rw [h.controllers_eq, List.length_map, List.length_range]

/-! ## The steps of a call

A vector is the table of a function below its length. Every step looks up or changes one
entry, so it has its counterpart on the function; what has to be shown is that the index
is in range. -/

/-- Anything that is done with a Path ORAM. -/
theorem relates_onController {i : ℕ} (hi : i < Q.size)
    {m : PathOramConfig → Prog Exit (PathSystem D (Forest C)) α}
    {m' : Prog Exit (PathSystem D (TreeOramServerStorage C)) α}
    (hm : ∀ f, Prog.Relates (PathSystem.Lift fun g s => g = Function.update f i s) Eq
      (m (Q.oram i)) m') :
    Prog.Relates (Runs Q) Eq (onController i m) (PartitionOramController.onOram i m') := by
  intro w v h
  have hstart : w.server = Function.update w.server i (v.orams i).server := by
    rw [← h.server_eq i hi, Function.update_eq_self]
  obtain ⟨hagree, hclient, hserver⟩ := hm w.server ⟨(v.orams i).client, w.server⟩ (v.orams i)
    ⟨rfl, hstart⟩
  have hlookup : w.client.pathOramControllers[i]? = some (Q.oram i, (v.orams i).client) := by
    rw [h.controllers_eq, getElem?_map_range _ hi]
  rw [onController, hlookup]
  refine ⟨hagree, h.positionMap_eq, h.slots_eq, ?_, ?_, h.initialized_eq⟩
  · show w.client.pathOramControllers.set i _ = _
    rw [h.controllers_eq, set_map_range]
    refine List.map_congr_left fun j _ => ?_
    by_cases hj : j = i
    · subst hj
      simp [PartitionOramController.onOram, PartitionOramController.setOram, Prog.zoom, hclient]
    · simp [PartitionOramController.onOram, PartitionOramController.setOram, Prog.zoom, hj]
  · intro j hsize
    show (m (Q.oram i) _).2.server j = _
    rw [hserver]
    by_cases hj : j = i
    · subst hj
      simp [PartitionOramController.onOram, PartitionOramController.setOram, Prog.zoom]
    · simp [PartitionOramController.onOram, PartitionOramController.setOram, Prog.zoom, hj,
        h.server_eq j hsize]

/-- An access to one of the Path ORAMs has the same outcome in both. -/
theorem relates_oramAccess {i : ℕ} (hi : i < Q.size) (op : Operation) (address : ℕ)
    (buffer : OramBlock D) (draws : AccessDraws C) (dummy : Bool) :
    Prog.Relates (Runs Q) Eq
      (oramAccess (OramService.forestStub C) i op address buffer draws dummy)
      (PartitionOramController.oramAccess Q i op address buffer draws dummy) :=
  relates_onController hi fun f =>
    (simulates_forestStub f i).internalAccess op address buffer draws dummy

/-- The same slot is drawn, and it exists. -/
theorem relates_sampleSlot (hsize : 0 < Q.size) (value : ℕ) :
    Prog.Relates (Runs (C := C) Q) (fun i j => i = j ∧ i < Q.size) (sampleSlot value)
      (checkedRandom "Failed to sample a new slot id." value 0 (Q.size - 1)) := by
  intro w v h
  rw [sampleSlot, h.length_eq, if_neg (Nat.ne_of_gt hsize),
    checkedRandom_ok _ _ (Nat.zero_le _), checkedRandom_ok _ _ (Nat.zero_le _)]
  refine ⟨⟨rfl, ?_⟩, h⟩
  have := Nat.mod_lt value hsize
  simpa only [Nat.sub_zero, Nat.sub_add_cancel hsize, Nat.add_zero] using this

/-- Other positions. -/
theorem Runs.changePositions {w : PartitionSystem D (Forest C)} {v : PartitionOramController C}
    (h : Runs Q w v) (g : PositionMap → PositionMap) :
    Runs Q { w with client := { w.client with positionMap := g w.client.positionMap } }
      { v with positionMap := g v.positionMap } where
  positionMap_eq := congrArg g h.positionMap_eq
  slots_eq := h.slots_eq
  controllers_eq := h.controllers_eq
  server_eq := h.server_eq
  initialized_eq := h.initialized_eq

/-- Another slot. -/
theorem Runs.setSlot {w : PartitionSystem D (Forest C)} {v : PartitionOramController C}
    (h : Runs Q w v) (i : ℕ) (blocks : List (OramBlock D)) :
    Runs Q { w with client := { w.client with slots := w.client.slots.set i blocks } }
      (PartitionOramController.setSlot i blocks v) where
  positionMap_eq := h.positionMap_eq
  slots_eq := (congrArg (·.set i blocks) h.slots_eq).trans (set_map_range _ _ _ _)
  controllers_eq := h.controllers_eq
  server_eq := h.server_eq
  initialized_eq := h.initialized_eq

theorem relates_setSlot (i : ℕ) (blocks : List (OramBlock D)) :
    Prog.Relates (Runs Q) Eq (setSlot i blocks)
      (PartitionOramController.update (PartitionOramController.setSlot (C := C) i blocks)) :=
  fun _ _ h => ⟨rfl, h.setSlot i blocks⟩

theorem slot_ok {w : PartitionSystem D (Forest C)} {v : PartitionOramController C}
    (h : Runs Q w v) {i : ℕ} (hi : i < Q.size) :
    slot i w = (.ok (v.slots i), w) := by
  rw [slot, h.slots_eq, getElem?_map_range _ hi]

theorem slot_out_of_range {w : PartitionSystem D (Forest C)} {v : PartitionOramController C}
    (h : Runs Q w v) {i : ℕ} (hi : ¬i < Q.size) :
    slot i w = (.error (.undefined "slots_[slot_id] is out of range"), w) := by
  rw [slot, h.slots_eq, List.getElem?_eq_none]
  rw [List.length_map, List.length_range]
  exact Nat.not_lt.mp hi

/-! ## An access -/

/-- An eviction has the same outcome in both. -/
theorem relates_evict {i : ℕ} (hi : i < Q.size) (draws : AccessDraws C)
    (garbage : OramBlock D) :
    Prog.Relates (Runs Q) Eq (evict (OramService.forestStub C) i draws garbage)
      (PartitionOramController.evict Q i draws garbage) := by
  intro w v h
  rw [evict, Prog.bind_ok (slot_ok h hi), PartitionOramController.evict, Prog.get_bind]
  cases (v.slots i).getLast? with
  | none =>
    exact Prog.Relates.bind_eq (relates_oramAccess hi .kWrite 0 garbage draws true)
      (fun _ => .pure rfl) w v h
  | some block =>
    refine Prog.Relates.bind_eq (relates_setSlot i _) (fun _ => ?_) w v h
    exact .bind_eq (relates_oramAccess hi .kWrite block.id block draws false) fun _ => .pure rfl

theorem relates_randomEvict (hsize : 0 < Q.size) (garbage : OramBlock D)
    (draws : List (EvictDraws C)) :
    Prog.Relates (Runs Q) Eq
      (Prog.forEach (evictRandom (OramService.forestStub C) garbage) draws)
      (PartitionOramController.randomEvict Q garbage draws) := by
  rw [PartitionOramController.randomEvict]
  induction draws with
  | nil => exact .pure rfl
  | cons draw draws ih =>
    refine .bind_eq (.bind (relates_sampleSlot hsize draw.slot) ?_) fun _ => ih
    rintro i _ ⟨rfl, hi⟩
    exact relates_evict hi draw.access garbage

/-- The first half of `Access`, up to the local `block` and the new slot. -/
def fetchAndRemap (op : Operation) (address : ℕ) (draws : PartitionDraws C) :
    Prog Exit (PartitionSystem D (Forest C)) (OramBlock D × ℕ) := do
  let newSlot ← sampleSlot draws.slot
  let w ← Prog.get
  let slotId := w.client.positionMap.index address
  update fun c => { c with positionMap := c.positionMap.set address newSlot }
  let block ← fetch (OramService.forestStub C) op address slotId draws
  pure (block, newSlot)

theorem relates_fetch (hsize : 0 < Q.size) (op : Operation) (address : ℕ)
    (draws : PartitionDraws C) :
    Prog.Relates (Runs Q) (fun r r' => r = r' ∧ r.2 < Q.size) (fetchAndRemap op address draws)
      (PartitionOramController.fetch Q op address draws) := by
  refine .bind (relates_sampleSlot hsize draws.slot) ?_
  rintro n _ ⟨rfl, hn⟩ ⟨⟨positionMap, slots, controllers, flag⟩, server⟩ v h
  obtain rfl : positionMap = v.positionMap := h.positionMap_eq
  have h' : Runs Q _ (PartitionOramController.setPosition address n v) :=
    h.changePositions (·.set address n)
  rw [Prog.get_bind, Prog.get_bind, update, Prog.modify_bind, PartitionOramController.update,
    Prog.modify_bind, fetch, Prog.bind_assoc]
  by_cases hi : v.positionMap.index address < Q.size
  · rw [Prog.bind_ok (slot_ok h' hi), if_neg (Nat.not_le.mpr hi)]
    have hsame : (PartitionOramController.setPosition address n v).slots = v.slots := rfl
    rw [hsame]
    cases (v.slots (v.positionMap.index address)).find? (blockEqual address) with
    | none =>
      refine Prog.Relates.bind_eq (relates_ignoreStatus draws.garbage
        (relates_oramAccess hi op address draws.garbage draws.access false)) (fun block => ?_)
        _ _ h'
      exact .pure ⟨rfl, hn⟩
    | some block =>
      rw [Prog.bind_assoc]
      refine Prog.Relates.bind_eq (relates_checkStatus "Cannot perform fake read!"
        (relates_oramAccess hi .kRead address draws.garbage draws.access true)) (fun _ => ?_)
        _ _ h'
      rw [Prog.bind_assoc]
      exact .bind_eq (relates_setSlot _ _) fun _ => .pure ⟨rfl, hn⟩
  · rw [Prog.bind_error (slot_out_of_range h' hi), if_pos (Nat.not_lt.mp hi)]
    exact ⟨rfl, h'⟩

/-- **An access** of the one controller is an access of the other. -/
theorem relates_access (hsize : 0 < Q.size) (op : Operation) (address : ℕ)
    (buffer : OramBlock D) (draws : PartitionDraws C) :
    Prog.Relates (Runs Q) Eq
      (access (OramService.forestStub C) Q op address buffer draws)
      (PartitionOramController.access Q op address buffer draws) := by
  have hsplit : access (OramService.forestStub C) Q op address buffer draws = (do
      let r ← fetchAndRemap op address draws
      let block := if op = .kWrite then buffer else r.1
      let blocks ← slot r.2
      setSlot r.2 (blocks ++ [block])
      checkStatus "Failed to perform eviction!" (Prog.forEach
        (evictRandom (OramService.forestStub C) draws.garbage) ((List.range Q.nu).map draws.evict))
      pure block) := by
    simp only [access, fetchAndRemap, Prog.bind_assoc, Prog.pure_bind]
  have hsplit' : PartitionOramController.access Q op address buffer draws = (do
      let r ← PartitionOramController.fetch Q op address draws
      let block := if op = .kWrite then buffer else r.1
      PartitionOramController.putInSlot r.2 block
      checkStatus "Failed to perform eviction!" (PartitionOramController.randomEvict Q
        draws.garbage ((List.range Q.nu).map draws.evict))
      pure block) := by
    simp only [PartitionOramController.access, PartitionOramController.relocate, Prog.bind_assoc,
      Prog.pure_bind]
  rw [hsplit, hsplit']
  refine .bind (relates_fetch hsize op address draws) ?_
  rintro ⟨block, newSlot⟩ _ ⟨rfl, hn⟩ w v h
  rw [Prog.bind_ok (slot_ok h hn)]
  have hput := relates_setSlot (C := C) (Q := Q) newSlot
    (v.slots newSlot ++ [if op = .kWrite then buffer else block])
  have hevict := relates_checkStatus "Failed to perform eviction!"
    (relates_randomEvict hsize draws.garbage ((List.range Q.nu).map draws.evict))
  have hreturn : ∀ b : OramBlock D, Prog.Relates (Runs (C := C) Q) Eq
      (pure b : Prog Exit (PartitionSystem D (Forest C)) (OramBlock D))
      (pure b : Prog Exit (PartitionOramController C) (OramBlock D)) := fun _ => .pure rfl
  exact Prog.Relates.bind_eq hput (fun _ => .bind_eq hevict fun _ => hreturn _) w v h

/-! ## The load -/

theorem relates_fillControllers (draws : ℕ → FillDraws C) (k : ℕ) :
    ∀ (i : ℕ) (data : List (OramBlock D)), i + k ≤ Q.size →
      Prog.Relates (Runs Q) Eq
        (fillControllers (OramService.forestStub C) Q draws (List.range' i k) data)
        (PartitionOramController.fillSlots Q draws i k data) := by
  induction k with
  | zero => exact fun _ _ _ => .pure rfl
  | succ k ih =>
    intro i data hik
    rw [List.range'_succ, fillControllers, PartitionOramController.fillSlots]
    have hpositions : Prog.Relates (Runs Q) Eq
        (update (ε := Exit) fun c : PartitionMembers D => { c with
          positionMap := ((data.take Q.treeSize).filter OramBlock.isNormal).foldl
            (fun m b => m.set b.id i) c.positionMap })
        (PartitionOramController.processSlot (C := C) (data.take Q.treeSize) i) := by
      intro w v h
      have hplaced := h.changePositions fun m =>
        ((data.take Q.treeSize).filter OramBlock.isNormal).foldl (fun m b => m.set b.id i) m
      exact ⟨rfl, hplaced⟩
    refine .bind_eq hpositions fun _ => .bind_eq (relates_checkStatus _ ?_) fun _ =>
      ih (i + 1) _ (by omega)
    exact relates_onController (by omega) fun f =>
      (simulates_forestStub f i).fillWithData _ _

/-- **A load** of the one controller is a load of the other. -/
theorem relates_fillWithData (hsize : 0 < Q.size) (data : List (OramBlock D))
    (draws : ℕ → FillDraws C) :
    Prog.Relates (Runs Q) Eq (fillWithData (OramService.forestStub C) Q data draws)
      (PartitionOramController.fillWithData Q data draws) := by
  intro w v h
  rw [fillWithData, Prog.get_bind, PartitionOramController.fillWithData, h.length_eq,
    if_neg (Nat.ne_of_gt hsize)]
  simp only [if_neg (Nat.ne_of_gt hsize)]
  by_cases hlen : data.length ≠ Q.treeSize * Q.size
  · rw [if_pos hlen, if_pos hlen]
    exact ⟨rfl, h⟩
  · rw [if_neg hlen, if_neg hlen, List.range_eq_range']
    refine Prog.Relates.bind_eq (relates_fillControllers draws Q.size 0 data (by omega))
      (fun _ w v h => ?_) w v h
    exact ⟨rfl, h.positionMap_eq, h.slots_eq, h.controllers_eq, h.server_eq, rfl⟩

/-! ## The start

`InitOram` makes the Path ORAMs in a loop, each with a tree on the server. When it is
through, the containers have an entry for every slot, and from then on no call changes
their number. -/

/-- `InitOram` after the first `i` slots. -/
structure Started (Q : PartitionOramConfig) (i : ℕ) (w : PartitionSystem D (Forest C)) :
    Prop where
  positionMap_eq : w.client.positionMap = .empty
  slots_eq : w.client.slots = List.replicate Q.size []
  controllers_eq : w.client.pathOramControllers = (List.range i).map fun j => (Q.oram j, .new)
  server_eq : ∀ j < i, w.server j = .new C (Q.oram j).numberOfLeafs
  initialized_eq : w.client.isInitialized = false

/-- The loop of `InitOram` adds one Path ORAM in each turn, and its tree on the server. -/
theorem initControllers_started (k : ℕ) :
    ∀ (i : ℕ) (w : PartitionSystem D (Forest C)), Started Q i w →
      ∃ w', initControllers (OramService.forestStub C) Q (List.range' i k) w = (.ok (), w') ∧
        Started Q (i + k) w' := by
  induction k with
  | zero => exact fun i w h => ⟨w, rfl, h⟩
  | succ k ih =>
    intro i w h
    have hnext : Started Q (i + 1) (C := C)
        ⟨{ w.client with
            pathOramControllers := w.client.pathOramControllers ++ [(Q.oram i, .new)] },
          Function.update w.server i (.new C (Q.oram i).numberOfLeafs)⟩ := by
      refine ⟨h.positionMap_eq, h.slots_eq, ?_, fun j hj => ?_, h.initialized_eq⟩
      · rw [h.controllers_eq, List.range_succ, List.map_append, List.map_singleton]
      · by_cases he : j = i
        · subst he
          exact Function.update_self _ _ _
        · exact (Function.update_of_ne he _ _).trans (h.server_eq j (by omega))
    obtain ⟨w', hrun, hw'⟩ := ih (i + 1) _ hnext
    refine ⟨w', ?_, by rwa [Nat.add_assoc, Nat.add_comm 1] at hw'⟩
    rw [List.range'_succ, initControllers]
    exact hrun

/-- **`InitOram` leads to the controller that runs.** -/
theorem runs_of_initOram (f : Forest C) :
    ∃ w, initOram (OramService.forestStub C) Q (.new D Q.size f) = (.ok (), w) ∧
      Runs Q w (PartitionOramController.new C Q) := by
  have hstart : Started Q 0 (C := C) (.new D Q.size f) :=
    ⟨rfl, rfl, rfl, fun j hj => absurd hj (Nat.not_lt_zero j), rfl⟩
  obtain ⟨w, hrun, hw⟩ := initControllers_started Q.size 0 _ hstart
  rw [Nat.zero_add] at hw
  refine ⟨w, ?_, hw.positionMap_eq, ?_, hw.controllers_eq, hw.server_eq, hw.initialized_eq⟩
  · have hslots : (new D Q.size f).client.slots.length = Q.size := List.length_replicate
    rw [initOram, Prog.get_bind, hslots, List.range_eq_range']
    exact hrun
  · rw [hw.slots_eq, PartitionOramController.new, List.map_const', List.length_range]

/-- What a client does with a Partition ORAM that runs. -/
inductive Call (C : Codec D) where
  | fillWithData (data : List (OramBlock D)) (draws : ℕ → FillDraws C)
  | access (op : Operation) (address : ℕ) (buffer : OramBlock D) (draws : PartitionDraws C)

/-- The call on the controller with its containers. -/
def Call.run (Q : PartitionOramConfig) :
    Call C → Prog Exit (PartitionSystem D (Forest C)) (Option (OramBlock D))
  | fillWithData data draws => do
    PartitionSystem.fillWithData (OramService.forestStub C) Q data draws
    pure none
  | access op address buffer draws => do
    let block ← PartitionSystem.access (OramService.forestStub C) Q op address buffer draws
    pure (some block)

/-- The call on the controller of `PartitionOram`. -/
def Call.runs (Q : PartitionOramConfig) :
    Call C → Prog Exit (PartitionOramController C) (Option (OramBlock D))
  | fillWithData data draws => do
    PartitionOramController.fillWithData Q data draws
    pure none
  | access op address buffer draws => do
    let block ← PartitionOramController.access Q op address buffer draws
    pure (some block)

/-- One call of a client, on both. -/
theorem relates_call (hsize : 0 < Q.size) (c : Call C) :
    Prog.Relates (Runs Q) Eq (c.run Q) (c.runs Q) := by
  cases c with
  | fillWithData data draws =>
    exact .bind_eq (relates_fillWithData hsize data draws) fun _ => .pure rfl
  | access op address buffer draws =>
    exact .bind_eq (relates_access hsize op address buffer draws) fun _ => .pure rfl

/-- **From `InitOram` on**, no sequence of calls tells the two controllers apart. -/
theorem run_relates (hsize : 0 < Q.size) (f : Forest C) (calls : List (Call C)) :
    ∃ w, initOram (OramService.forestStub C) Q (.new D Q.size f) = (.ok (), w) ∧
      (Prog.trace Exit.fatal (Call.run Q) calls w).map Prod.fst =
        (Prog.trace Exit.fatal (Call.runs Q) calls (PartitionOramController.new C Q)).map
          Prod.fst := by
  obtain ⟨w, hrun, hw⟩ := runs_of_initOram (Q := Q) f
  exact ⟨w, hrun, Prog.trace_relates (relates_call hsize) calls hw⟩

end PartitionSystem

end ObliviousRam
