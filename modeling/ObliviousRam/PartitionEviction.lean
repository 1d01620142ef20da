import ObliviousRam.PartitionMemory

set_option autoImplicit false

/-!
# What an eviction does with the block it takes

`Evict` takes the last block out of a slot and writes it to the Path ORAM behind
the slot. A write of a Path ORAM changes a block that is there; it never adds
one. So the block arrives exactly if the Path ORAM knows its id already, and
otherwise `Evict` fails with the block in neither place.

This holds after any accesses, whatever they were: all it takes is that the Path
ORAMs keep their invariant (`Serving`), which no access can break.
-/

namespace ObliviousRam

open TreeOramServerStorage PathSystem PartitionOramController

variable {D : Type} {C : Codec D}

/-! ## One Path ORAM

`Serves` is what is left of the invariant after accesses that fail: whatever a call
does, the Path ORAM still answers. -/

/-- A loaded Path ORAM whose invariant holds. -/
def PathSystem.Serves (P : PathOramConfig) (w : PathSystem D (TreeOramServerStorage C)) : Prop :=
  w.Inv P ∧ w.client.isInitialized = true

/-- An internal access of any kind keeps a Path ORAM serving. -/
theorem keeps_serves_internalAccess {P : PathOramConfig} (op : Operation) (address : ℕ)
    (buffer : OramBlock D) {draws : AccessDraws C}
    (hpad : ∀ l j, (draws.pad l j).isNormal = false) (dummy : Bool) :
    Prog.Keeps (Serves P) (PathOramController.internalAccess (OramService.stub C P.id) P op address
      buffer draws dummy) := by
  rintro w ⟨hinv, hinit⟩
  by_cases hop : op = .kInvalid
  · rw [PathOramController.internalAccess, Prog.get_bind, hinit, if_neg Bool.false_ne_true.symm,
      if_pos hop]
    exact ⟨hinv, hinit⟩
  · cases dummy with
    | true =>
      obtain ⟨w', hrun, hinv', hinit', -⟩ :=
        internalAccess_dummy_inv address buffer draws hinv hinit hop
      rw [hrun]
      exact ⟨hinv', hinit'⟩
    | false =>
      by_cases hmem : ∃ b ∈ w.contents P, b.id = address
      · obtain ⟨b, hb, hid⟩ := hmem
        obtain ⟨w', hrun, hinv', -, hinit'⟩ :=
          PathOramController.internalAccess_found buffer hinv hinit hop hpad hb hid
        rw [hrun]
        exact ⟨hinv', hinit'⟩
      · obtain ⟨st, w', hrun, -, hinv', -, hinit'⟩ :=
          PathOramController.internalAccess_missing buffer draws hinv hinit hop
            fun b hb he => hmem ⟨b, hb, he⟩
        rw [hrun]
        exact ⟨hinv', hinit'⟩

namespace PartitionOramController

variable {Q : PartitionOramConfig}

/-! ## All Path ORAMs

Every part of an access to a Partition ORAM changes at most one Path ORAM, by one access
of it. So the run lemma is that of one Path ORAM, once for each of them. -/

/-- Every Path ORAM serves, whatever the slots hold. -/
def Serving (Q : PartitionOramConfig) (w : PartitionOramController C) : Prop :=
  ∀ i < Q.size, (w.orams i).Serves (Q.oram i)

/-- A Path ORAM may be replaced by one that serves. -/
theorem Serving.setOram {w : PartitionOramController C} (hw : Serving Q w) {i : ℕ}
    {u : PathSystem D (TreeOramServerStorage C)} (hu : i < Q.size → u.Serves (Q.oram i)) :
    Serving Q (setOram i u w) := by
  intro j hj
  by_cases h : j = i
  · subst h
    rw [setOram_orams_self]
    exact hu hj
  · rw [setOram_orams_ne h]
    exact hw j hj

/-- The slots and the positions do not matter. -/
theorem keeps_serving_update {ε : Type} {f : PartitionOramController C → PartitionOramController C}
    (hf : ∀ w, (f w).orams = w.orams) : Prog.Keeps (Serving Q) (update (ε := ε) f) := by
  intro w hw i hi
  show ((f w).orams i).Serves (Q.oram i)
  rw [hf]
  exact hw i hi

theorem keeps_serving_checkedRandom (reason : String) (value min max : ℕ) :
    Prog.Keeps (Serving (C := C) Q) (checkedRandom reason value min max) := by
  intro w hw
  rw [checkedRandom]
  split <;> exact hw

theorem keeps_serving_ignoreStatus {α : Type} {default : α}
    {m : Prog Exit (PartitionOramController C) α} (hm : Prog.Keeps (Serving Q) m) :
    Prog.Keeps (Serving Q) (ignoreStatus default m) := by
  intro w hw
  have hw' := hm w hw
  rw [ignoreStatus]
  rcases hrun : m w with ⟨e | a, w'⟩ <;> rw [hrun] at hw'
  · cases e <;> exact hw'
  · exact hw'

/-- An access to a Path ORAM leaves them all serving, however it ends. -/
theorem keeps_serving_oramAccess (i : ℕ) (op : Operation) (address : ℕ) (buffer : OramBlock D)
    {draws : AccessDraws C} (hpad : ∀ l j, (draws.pad l j).isNormal = false) (dummy : Bool) :
    Prog.Keeps (Serving Q) (oramAccess Q i op address buffer draws dummy) := by
  intro w hw
  rw [oramAccess_eq rfl]
  exact hw.setOram fun hi =>
    keeps_serves_internalAccess (P := Q.oram i) op address buffer hpad dummy (w.orams i) (hw i hi)

/-- An eviction leaves all Path ORAMs serving. -/
theorem keeps_serving_evict (id : ℕ) {draws : AccessDraws C}
    (hpad : ∀ l j, (draws.pad l j).isNormal = false) (garbage : OramBlock D) :
    Prog.Keeps (Serving Q) (evict Q id draws garbage) := by
  refine .bind .get fun w => ?_
  split
  · exact .bind (keeps_serving_oramAccess _ _ _ _ hpad _) fun _ => .pure _
  · exact .bind (keeps_serving_update fun _ => rfl) fun _ =>
      .bind (keeps_serving_oramAccess _ _ _ _ hpad _) fun _ => .pure _

theorem keeps_serving_randomEvict (garbage : OramBlock D) {draws : List (EvictDraws C)}
    (hpad : ∀ d ∈ draws, ∀ l j, (d.access.pad l j).isNormal = false) :
    Prog.Keeps (Serving Q) (randomEvict Q garbage draws) := by
  rw [randomEvict]
  induction draws with
  | nil => exact .pure _
  | cons d draws ih =>
    refine .bind (.bind (keeps_serving_checkedRandom _ _ _ _) fun id => ?_) fun _ => ?_
    · exact keeps_serving_evict id (hpad d List.mem_cons_self) garbage
    · exact ih fun e he => hpad e (List.mem_cons_of_mem _ he)

theorem keeps_serving_fetch (op : Operation) (address : ℕ) {draws : PartitionDraws C}
    (hpad : ∀ l j, (draws.access.pad l j).isNormal = false) :
    Prog.Keeps (Serving Q) (fetch Q op address draws) := by
  refine .bind (keeps_serving_checkedRandom _ _ _ _) fun newSlot => .bind .get fun w =>
    .bind (keeps_serving_update fun _ => rfl) fun _ => ?_
  split
  · exact .throw _
  · split
    · exact .bind (keeps_serving_ignoreStatus (keeps_serving_oramAccess _ _ _ _ hpad _))
        fun _ => .pure _
    · exact .bind (.mapError (keeps_serving_oramAccess _ _ _ _ hpad _)) fun _ =>
        .bind (keeps_serving_update fun _ => rfl) fun _ => .pure _

end PartitionOramController

/-- The padding that a request draws does not pose as a real block. -/
structure PartitionRequest.PadsDummy (r : PartitionRequest C) : Prop where
  access : ∀ l j, (r.draws.access.pad l j).isNormal = false
  evict : ∀ i l j, ((r.draws.evict i).access.pad l j).isNormal = false

namespace PartitionOramController

variable {Q : PartitionOramConfig}

/-- No access can make a Path ORAM lose its invariant. -/
theorem keeps_serving_run {r : PartitionRequest C} (hr : r.PadsDummy) :
    Prog.Keeps (Serving Q) (r.run Q) := by
  refine .bind (.bind (keeps_serving_fetch _ _ hr.access) fun _ =>
    .bind (keeps_serving_update fun _ => rfl) fun _ => .pure _) fun _ => .bind (.mapError ?_)
      fun _ => .pure _
  refine keeps_serving_randomEvict _ fun d hd => ?_
  obtain ⟨i, -, rfl⟩ := List.mem_map.mp hd
  exact hr.evict i

/-- The loop of `FillWithData`: the Path ORAMs it comes to serve afterwards, whatever they
could not hold. -/
theorem fillSlots_serves {draws : ℕ → FillDraws C}
    (hpad : ∀ i t j, ((draws i).pad t j).isNormal = false) :
    ∀ (k i : ℕ) (rest : List (OramBlock D)) (w w' : PartitionOramController C),
      UniqueKeys OramBlock.id (loadedBlocks rest) →
      (∀ j, i ≤ j → w.orams j = PathSystem.init C (Q.oram j)) →
      fillSlots Q draws i k rest w = (.ok (), w') →
      (∀ j < i, w'.orams j = w.orams j) ∧
        ∀ j, i ≤ j → j < i + k → (w'.orams j).Serves (Q.oram j) := by
  intro k
  induction k with
  | zero =>
    intro i rest w w' _ _ hrun
    cases hrun
    exact ⟨fun j _ => rfl, fun j hj hj' => absurd hj' (Nat.not_lt.mpr hj)⟩
  | succ k ih =>
    intro i rest w w' hids hinit hrun
    rw [loadedBlocks_split Q.treeSize rest] at hids
    obtain ⟨u, hfill, hinv, -, hready⟩ := PathOramController.fillWithData_inv (P := Q.oram i)
      (hpad i) (show UniqueKeys OramBlock.id (loadedBlocks (rest.take Q.treeSize)) from hids.left)
    let w₁ : PartitionOramController C := { w with
      positionMap := ((rest.take Q.treeSize).filter OramBlock.isNormal).foldl
        (fun m b => m.set b.id i) w.positionMap }
    have honOram : onOram i (PathOramController.fillWithData (OramService.stub C (Q.oram i).id)
        (Q.oram i) (rest.take Q.treeSize) (draws i)) w₁ = (.ok (), setOram i u w₁) := by
      rw [onOram]
      refine Prog.zoom_eq (?_ : _ = (_, u))
      rw [hinit i le_rfl]
      exact hfill
    rw [fillSlots, processSlot, update, Prog.modify_bind,
      Prog.bind_ok (checkStatus_ok honOram)] at hrun
    obtain ⟨hbefore, hserves⟩ := ih (i + 1) (rest.drop Q.treeSize) (setOram i u w₁) w'
      hids.right
      (fun j hj => (setOram_orams_ne (Nat.ne_of_gt hj) _ _).trans
        (hinit j (Nat.le_of_succ_le hj))) hrun
    refine ⟨fun j hj => ?_, fun j hj hj' => ?_⟩
    · rw [hbefore j (by omega)]
      exact setOram_orams_ne (Nat.ne_of_lt hj) _ _
    · rcases Nat.eq_or_lt_of_le hj with rfl | hlt
      · rw [hbefore i (Nat.lt_succ_self i), setOram_orams_self]
        exact ⟨hinv, hready⟩
      · exact hserves j hlt (by omega)

/-- After a load every Path ORAM serves. -/
theorem serving_of_fillWithData {data : List (OramBlock D)} {draws : ℕ → FillDraws C}
    {w : PartitionOramController C} (hfill : fillWithData Q data draws (new C Q) = (.ok (), w))
    (hids : UniqueKeys OramBlock.id (loadedBlocks data))
    (hpad : ∀ i t j, ((draws i).pad t j).isNormal = false) : Serving Q w := by
  rw [fillWithData] at hfill
  split at hfill
  · cases hfill
  · split at hfill
    · cases hfill
    · obtain ⟨_, w₁, hslots, hupdate⟩ := Prog.bind_eq_ok hfill
      cases hupdate
      obtain ⟨-, hserves⟩ := fillSlots_serves hpad Q.size 0 data (new C Q) w₁ hids
        (fun j _ => rfl) hslots
      exact fun i hi => hserves i (Nat.zero_le i) (by omega)

/-! ## The eviction of a block

A write to a Path ORAM replaces a block that it has and fails for one that it has not.
Before, `Evict` has taken the block out of its slot. -/

/-- What `Evict` is for: it returns, the slot loses its last block `b`, and the Path ORAM
behind it holds one real block of that id with the payload of `b`; everything else
is as before. -/
def StoresEvicted (Q : PartitionOramConfig) (id : ℕ) (draws : AccessDraws C)
    (garbage b : OramBlock D) (w : PartitionOramController C) : Prop :=
  ∃ w', evict Q id draws garbage w = (.ok (), w') ∧
    w'.positionMap = w.positionMap ∧
    w'.slots id = (w.slots id).dropLast ∧
    (∀ j ≠ id, w'.slots j = w.slots j ∧ w'.orams j = w.orams j) ∧
    oramCopies Q w' id b.id = 1 ∧
    (∀ c ∈ oramBlocks Q w' id, c.id = b.id → c.isNormal = true ∧ c.payload = b.payload) ∧
    dropKey OramBlock.id b.id (oramBlocks Q w' id) = dropKey OramBlock.id b.id (oramBlocks Q w id)

variable {w : PartitionOramController C} {id : ℕ} {b : OramBlock D}

/-- A block the Path ORAM knows. -/
theorem storesEvicted_of_known (hw : Serving Q w) (hid : id < Q.size)
    (hlast : (w.slots id).getLast? = some b) {c : OramBlock D} (hc : c ∈ oramBlocks Q w id)
    (hcid : c.id = b.id) {draws : AccessDraws C} (hpad : ∀ l j, (draws.pad l j).isNormal = false)
    (garbage : OramBlock D) : StoresEvicted Q id draws garbage b w := by
  obtain ⟨hinv, hinit⟩ := hw id hid
  obtain ⟨u, hrun, hinv', hcont, -⟩ := PathOramController.internalAccess_found b hinv hinit
    (show Operation.kWrite ≠ .kInvalid from nofun) hpad hc hcid
  rw [PathOramController.accessed, if_pos rfl] at hcont
  let w' := setOram id u (setSlot id (w.slots id).dropLast w)
  have horam : oramBlocks Q w' id = u.contents (Q.oram id) := by
    rw [oramBlocks, setOram_orams_self]
  have hblocks : oramBlocks Q w' id =
      replaceKey OramBlock.id b.id (·.store b) (oramBlocks Q w id) := horam.trans hcont
  have hstored : c.store b ∈ oramBlocks Q w' id := by
    rw [hblocks]
    exact Multiset.mem_map.mpr ⟨c, hc, if_pos hcid⟩
  refine ⟨w', ?_, rfl, setSlot_slots_self _ _ _,
    fun j hj => ⟨setSlot_slots_ne hj _ _, setOram_orams_ne hj _ _⟩, ?_, ?_, ?_⟩
  · rw [evict, Prog.get_bind]
    simp only [hlast, update, Prog.modify_bind]
    exact Prog.bind_ok (oramAccess_eq (w := setSlot id (w.slots id).dropLast w) hrun)
  · have hunique : UniqueKeys OramBlock.id (oramBlocks Q w' id) := horam ▸ hinv'.unique
    have hcount := hunique.count_eq_one hstored
    rw [OramBlock.store_id, hcid] at hcount
    exact hcount
  · intro d hd hdid
    refine ⟨isNormal_of_mem_contents hd, ?_⟩
    rw [hblocks] at hd
    obtain ⟨e, -, rfl⟩ := Multiset.mem_map.mp hd
    by_cases he : e.id = b.id
    · rw [if_pos he]
      rfl
    · rw [if_neg he] at hdid
      exact absurd hdid he
  · rw [hblocks]
    exact dropKey_replaceKey fun e => e.store_id b

/-- A block the Path ORAM does not know is lost. -/
theorem evict_unknown (hw : Serving Q w) (hid : id < Q.size)
    (hlast : (w.slots id).getLast? = some b) (hmiss : ∀ c ∈ oramBlocks Q w id, c.id ≠ b.id)
    (draws : AccessDraws C) (garbage : OramBlock D) :
    ∃ st w', evict Q id draws garbage w = (.error (.status st), w') ∧
      st.errorCode = .kObjectNotFound ∧
      w'.slots id = (w.slots id).dropLast ∧ oramBlocks Q w' id = oramBlocks Q w id := by
  obtain ⟨hinv, hinit⟩ := hw id hid
  obtain ⟨st, u, hrun, hcode, -, hcont, -⟩ := PathOramController.internalAccess_missing b draws
    hinv hinit (show Operation.kWrite ≠ .kInvalid from nofun) hmiss
  refine ⟨st, setOram id u (setSlot id (w.slots id).dropLast w), ?_, hcode,
    setSlot_slots_self _ _ _, ?_⟩
  · rw [evict, Prog.get_bind]
    simp only [hlast, update, Prog.modify_bind]
    exact Prog.bind_error (oramAccess_eq (w := setSlot id (w.slots id).dropLast w) hrun)
  · rw [oramBlocks, setOram_orams_self, hcont, oramBlocks]

end PartitionOramController

/-- **An eviction stores its block exactly if the Path ORAM knows it.** After a load and
any accesses, for every slot that holds a block. -/
theorem evict_stores_iff {Q : PartitionOramConfig} {data : List (OramBlock D)}
    {fill : ℕ → FillDraws C} {w : PartitionOramController C}
    (hfill : PartitionOramController.fillWithData Q data fill (PartitionOramController.new C Q) =
      (.ok (), w))
    (hids : UniqueKeys OramBlock.id (loadedBlocks data))
    (hpad : ∀ i t j, ((fill i).pad t j).isNormal = false)
    {requests : List (PartitionRequest C)} (hrequests : ∀ r ∈ requests, r.PadsDummy)
    {outs : List (Except Exit (OramBlock D))} {w' : PartitionOramController C}
    (hrun : Prog.trace Exit.fatal (PartitionRequest.run Q) requests w = some (outs, w'))
    {id : ℕ} (hid : id < Q.size) {b : OramBlock D} (hlast : (w'.slots id).getLast? = some b)
    {draws : AccessDraws C} (hdraws : ∀ l j, (draws.pad l j).isNormal = false)
    (garbage : OramBlock D) :
    StoresEvicted Q id draws garbage b w' ↔ ∃ c ∈ oramBlocks Q w' id, c.id = b.id := by
  have hserving : Serving Q w' := Prog.trace_history Exit.fatal
    (fun (r : PartitionRequest C) _ => r.PadsDummy) (fun _ w => Serving Q w)
    (fun _ r w out w' hr hw hstep => by
      have hkeep := keeps_serving_run hr w hw
      rw [(Prog.eq_of_survive hstep).1] at hkeep
      exact hkeep)
    [] (serving_of_fillWithData hfill hids hpad)
    (Prog.Along.of_forall (fun r hr _ => hrequests r hr) _) hrun
  constructor
  · rintro ⟨w₁, hevict, -⟩
    by_contra hmiss
    obtain ⟨st, w₂, hfail, -⟩ := evict_unknown hserving hid hlast
      (fun c hc he => hmiss ⟨c, hc, he⟩) draws garbage
    cases hevict.symm.trans hfail
  · rintro ⟨c, hc, hcid⟩
    exact storesEvicted_of_known hserving hid hlast hc hcid hdraws garbage

/-! ### A small instance -/

/-- The partition after a write, which has left a copy in the Path ORAM. -/
def afterWrite : PartitionOramController (Codec.plain ℕ) :=
  (writeZero.run (onePartition 0) (onePartitionLoaded 0)).2

/-- The partition after a read, which has taken the block out of the Path ORAM. -/
def afterRead : PartitionOramController (Codec.plain ℕ) :=
  (readZero.run (onePartition 0) (onePartitionLoaded 0)).2

theorem evict_stores_iff_small :
    StoresEvicted (onePartition 0) 0 smallDraws dummyBlock (smallBlock 0 11) afterWrite := by
  have hknown : ∃ c ∈ oramBlocks (onePartition 0) afterWrite 0, c.id = (smallBlock 0 11).id :=
    ⟨(smallBlock 0 10).store dummyBlock, by decide, rfl⟩
  have hpads : ∀ r ∈ [writeZero], r.PadsDummy :=
    fun r hr => List.mem_singleton.mp hr ▸ ⟨fun _ _ => rfl, fun _ _ _ => rfl⟩
  have hrun : Prog.trace Exit.fatal (PartitionRequest.run (onePartition 0)) [writeZero]
      (onePartitionLoaded 0) =
        some ([(writeZero.run (onePartition 0) (onePartitionLoaded 0)).1], afterWrite) := rfl
  exact (evict_stores_iff (onePartition_fill 0) (by decide) (fun _ => smallFill_pad) hpads hrun
    (by decide) (b := smallBlock 0 11) (by decide) (fun _ _ => rfl) dummyBlock).mpr hknown

/-- After a read, the eviction of the block that was read fails: it has left its slot and
is nowhere else. -/
theorem evict_loses_block :
    afterRead.slots 0 = [smallBlock 0 10] ∧
      outcomeCode (evict (onePartition 0) 0 smallDraws dummyBlock afterRead).1 =
        some .kObjectNotFound ∧
      (evict (onePartition 0) 0 smallDraws dummyBlock afterRead).2.slots 0 = [] ∧
      oramBlocks (onePartition 0)
        (evict (onePartition 0) 0 smallDraws dummyBlock afterRead).2 0 = 0 ∧
      ¬StoresEvicted (onePartition 0) 0 smallDraws dummyBlock (smallBlock 0 10) afterRead := by
  have hfail : (evict (onePartition 0) 0 smallDraws dummyBlock afterRead).1.isOk = false := by
    decide
  refine ⟨by decide, by decide, by decide, by decide, fun ⟨w', hevict, _⟩ => ?_⟩
  rw [hevict] at hfail
  cases hfail

end ObliviousRam
