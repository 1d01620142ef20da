import ObliviousRam.PathTraffic
import ObliviousRam.PartitionEviction
import Mathlib.Algebra.BigOperators.Ring.Finset

set_option autoImplicit false

/-!
# What a Partition ORAM stores and sends

`ReportNetworkCommunication` of a Partition ORAM is the sum of the reports of
its Path ORAMs, and `ReportServerInformation` sums up what their storages report
(in bytes, as in `PathTraffic`).

Every access makes one access to a Path ORAM, real or fake, and `nu_` more to
evict; each moves at most two paths, whatever comes of it.
-/

namespace ObliviousRam

open PathOramController TreeOramServerStorage

variable {D : Type} {C : Codec D} {Q : PartitionOramConfig}

namespace PartitionOramController

/-- `ReportNetworkCommunication`. -/
def reportNetworkCommunication (Q : PartitionOramConfig) (w : PartitionOramController C) : ℕ :=
  ∑ i ∈ Finset.range Q.size, (w.orams i).client.reportNetworkCommunication

/-- The sum of `ReportServerInformation` over the storages of the Path ORAMs. -/
def reportStorage (Q : PartitionOramConfig) (w : PartitionOramController C) : ℕ :=
  ∑ i ∈ Finset.range Q.size, (w.orams i).server.reportStorage

/-- The meter: how many blocks the Path ORAMs have sent and received. -/
def moved (Q : PartitionOramConfig) (w : PartitionOramController C) : ℕ :=
  ∑ i ∈ Finset.range Q.size, sent (w.orams i)

/-- The reports of the Path ORAMs are about blocks, all of one size. -/
theorem reportNetworkCommunication_eq (w : PartitionOramController C) :
    reportNetworkCommunication Q w = moved Q w * ORAM_BLOCK_SIZE :=
  (Finset.sum_mul _ _ _).symm

/-- Every tree has the size of its Path ORAM. -/
def AllSized (Q : PartitionOramConfig) (w : PartitionOramController C) : Prop :=
  ∀ i ∈ Finset.range Q.size, Sized (Q.oram i) (w.orams i).server

theorem AllSized.reportStorage_eq {w : PartitionOramController C} (hw : AllSized Q w) :
    reportStorage Q w = Q.size * ((Q.oram 0).capacity * ORAM_BLOCK_SIZE) := by
  rw [reportStorage, Finset.sum_congr rfl fun i hi => (hw i hi).reportStorage_eq]
  change ∑ _ ∈ Finset.range Q.size, (Q.oram 0).capacity * ORAM_BLOCK_SIZE = _
  rw [Finset.sum_const, Finset.card_range, Nat.nsmul_eq_mul]

/-! ## One access

The bound of a Path ORAM access is the bound of every access to a Path ORAM here, as
they all have trees of one size. What is counted is the blocks that were moved, and this
goes through all outcomes: an access that fails or aborts has moved some. -/

theorem spends_members {ε : Type} {f : PartitionOramController C → PartitionOramController C}
    (hf : ∀ w, (f w).orams = w.orams) :
    Prog.Spends (moved Q) (AllSized Q) 0 (update (ε := ε) f) := by
  refine .modify (fun w hw => ?_) fun w => ?_
  · rw [AllSized, hf]
    exact hw
  · rw [moved, hf]
    rfl

theorem spends_sampleSlot (reason : String) (value min max : ℕ) :
    Prog.Spends (moved (C := C) Q) (AllSized Q) 0 (checkedRandom reason value min max) := by
  intro w hw
  rw [checkedRandom]
  split
  · exact ⟨hw, Nat.le_refl _⟩
  · exact ⟨hw, Nat.le_refl _⟩

/-- An access to one of the Path ORAMs, real or fake. -/
theorem spends_oramAccess (i : ℕ) (op : Operation) (address : ℕ) (buffer : OramBlock D)
    (draws : AccessDraws C) (dummy : Bool) :
    Prog.Spends (moved Q) (AllSized Q) (roundTrip (Q.oram 0))
      (oramAccess Q i op address buffer draws dummy) := by
  have hput : ∀ (i : ℕ) (u : PathSystem D (TreeOramServerStorage C))
      (w : PartitionOramController C), (setOram i u w).orams = Function.update w.orams i u :=
    fun _ _ _ => rfl
  exact .component hput (fun _ => sent) (fun j u => Sized (Q.oram j) u.server)
    (spends_internalAccess op address buffer draws dummy) (Finset.range Q.size)

/-- An access that failed has moved its blocks all the same. -/
theorem spends_ignoreStatus {α : Type} {k : ℕ} {default : α}
    {m : Prog Exit (PartitionOramController C) α} (hm : Prog.Spends (moved Q) (AllSized Q) k m) :
    Prog.Spends (moved Q) (AllSized Q) k (ignoreStatus default m) := by
  intro w hw
  rw [ignoreStatus_apply]
  exact hm w hw

theorem spends_evict (id : ℕ) (draws : AccessDraws C) (garbage : OramBlock D) :
    Prog.Spends (moved Q) (AllSized Q) (roundTrip (Q.oram 0)) (evict Q id draws garbage) := by
  refine .get_bind fun w => ?_
  split
  · exact .bind (l := 0) (spends_oramAccess _ _ _ _ _ _) fun _ => .pure ()
  · exact .free_bind (spends_members fun _ => rfl) fun _ =>
      .bind (l := 0) (spends_oramAccess _ _ _ _ _ _) fun _ => .pure ()

/-- The evictions cost the same again for each. -/
theorem spends_randomEvict (garbage : OramBlock D) (draws : List (EvictDraws C)) :
    Prog.Spends (moved Q) (AllSized Q) (draws.length * roundTrip (Q.oram 0))
      (randomEvict Q garbage draws) :=
  .forEach fun d _ => .free_bind (spends_sampleSlot _ _ _ _) fun id =>
    spends_evict id d.access garbage

/-- A hit costs what a miss does. -/
theorem spends_fetch (op : Operation) (address : ℕ) (draws : PartitionDraws C) :
    Prog.Spends (moved Q) (AllSized Q) (roundTrip (Q.oram 0)) (fetch Q op address draws) := by
  refine .free_bind (spends_sampleSlot _ _ _ _) fun newSlot => .get_bind fun w =>
    .free_bind (spends_members fun _ => rfl) fun _ => ?_
  split
  · exact .mono (.throw _) (Nat.zero_le _)
  · split
    · exact .bind (l := 0) (spends_ignoreStatus (spends_oramAccess _ _ _ _ _ _)) fun _ => .pure _
    · exact .bind (l := 0) (.mapError (spends_oramAccess _ _ _ _ _ _)) fun _ =>
        .free_bind (spends_members fun _ => rfl) fun _ => .pure _

/-- **One access**, whatever comes of it. -/
theorem spends_run (r : PartitionRequest C) :
    Prog.Spends (moved Q) (AllSized Q) ((1 + Q.nu) * roundTrip (Q.oram 0)) (r.run Q) := by
  have hevict := spends_randomEvict (Q := Q) r.draws.garbage ((List.range Q.nu).map r.draws.evict)
  rw [List.length_map, List.length_range] at hevict
  rw [Nat.add_mul, Nat.one_mul]
  refine .bind (.bind (l := 0) (spends_fetch _ _ _) fun _ =>
    .free_bind (spends_members fun _ => rfl) fun _ => .pure _) fun block => ?_
  exact .bind (l := 0) (.mapError hevict) fun _ => .pure block

/-! ## The load -/

/-- The loop of `FillWithData` loads every Path ORAM it comes to. -/
theorem fillSlots_loads {draws : ℕ → FillDraws C} (k i : ℕ) (data : List (OramBlock D))
    {w w' : PartitionOramController C}
    (hnew : ∀ j, i ≤ j → w.orams j = PathSystem.init C (Q.oram j))
    (hrun : fillSlots Q draws i k data w = (.ok (), w')) :
    (∀ j < i, w'.orams j = w.orams j) ∧
      ∀ j, i ≤ j → j < i + k → ∃ share, PathOramController.fillWithData
        (OramService.stub C (Q.oram j).id) (Q.oram j) share (draws j)
        (PathSystem.init C (Q.oram j)) = (.ok (), w'.orams j) := by
  induction k generalizing i data w with
  | zero =>
    cases hrun
    exact ⟨fun j _ => rfl, fun j hj hj' => absurd hj' (Nat.not_lt.mpr hj)⟩
  | succ k ih =>
    rw [fillSlots] at hrun
    obtain ⟨_, w₁, hpositions, hrest⟩ := Prog.bind_eq_ok hrun
    have hw₁ : w₁.orams = w.orams := by
      cases hpositions
      rfl
    obtain ⟨_, w₂, hload, hlater⟩ := Prog.bind_eq_ok hrest
    obtain ⟨hok, rfl⟩ := Prod.mk.inj (Prog.mapError_eq_ok hload)
    obtain ⟨hbefore, hloaded⟩ := ih (i + 1) _ (fun j hj => by
      rw [setOram_orams_ne (Nat.ne_of_gt hj), hw₁, hnew j (Nat.le_of_succ_le hj)]) hlater
    refine ⟨fun j hj => ?_, fun j hj hj' => ?_⟩
    · rw [hbefore j (Nat.lt_succ_of_lt hj), setOram_orams_ne (Nat.ne_of_lt hj), hw₁]
    · rcases Nat.eq_or_lt_of_le hj with rfl | hlt
      · rw [hbefore i (Nat.lt_succ_self i), setOram_orams_self, ← hnew i (Nat.le_refl i), ← hw₁]
        exact ⟨data.take Q.treeSize, Prod.ext hok rfl⟩
      · exact hloaded j hlt (by omega)

/-- A load leaves every tree with the size of its Path ORAM, and the meter at zero. -/
theorem sized_of_fillWithData {data : List (OramBlock D)} {draws : ℕ → FillDraws C}
    {w : PartitionOramController C} (hfill : fillWithData Q data draws (new C Q) = (.ok (), w)) :
    AllSized Q w ∧ moved Q w = 0 := by
  rw [fillWithData] at hfill
  split at hfill
  · cases hfill
  · split at hfill
    · cases hfill
    · obtain ⟨_, w₁, hslots, hupdate⟩ := Prog.bind_eq_ok hfill
      cases hupdate
      obtain ⟨-, hloads⟩ := fillSlots_loads Q.size 0 data (fun j _ => rfl) hslots
      have hone : ∀ i ∈ Finset.range Q.size, Filled (Q.oram i) (w₁.orams i) ∧
          sent (w₁.orams i) = 0 := by
        intro i hi
        have hlt := Finset.mem_range.mp hi
        obtain ⟨share, hshare⟩ := hloads i (Nat.zero_le i) (by omega)
        exact filled_of_fillWithData hshare
      exact ⟨fun i hi => (hone i hi).1.toSized, Finset.sum_eq_zero fun i hi => (hone i hi).2⟩

end PartitionOramController

open PartitionOramController

/-- **What a Partition ORAM stores and sends.** After a load, whatever is
accessed and whatever comes of it, the storages report the size of the full
trees, and the controller no more than two paths for each access and each
eviction: also if the last access takes the client down. -/
theorem partitionOram_traffic {data : List (OramBlock D)} {draws : ℕ → FillDraws C}
    {w v : PartitionOramController C} (hfill : fillWithData Q data draws (new C Q) = (.ok (), w))
    {requests : List (PartitionRequest C)} {outs : List (Except Exit (OramBlock D))}
    (hrun : Prog.trace Exit.fatal (PartitionRequest.run Q) requests w = some (outs, v))
    (r : PartitionRequest C) :
    reportStorage Q (r.run Q v).2 = Q.size * ((Q.oram 0).capacity * ORAM_BLOCK_SIZE) ∧
      reportNetworkCommunication Q (r.run Q v).2 ≤ (requests.length + 1) * ((1 + Q.nu) *
        (2 * ((Q.oram 0).treeLevel + 1) * (Q.oram 0).bucketSize * ORAM_BLOCK_SIZE)) := by
  obtain ⟨hw, hzero⟩ := sized_of_fillWithData hfill
  obtain ⟨hv, hle⟩ := Prog.Spends.trace (fun r _ => spends_run r) hw hrun
  obtain ⟨hlast, hle'⟩ := spends_run r v hv
  rw [hzero, Nat.zero_add] at hle
  have htrip : roundTrip (Q.oram 0) * ORAM_BLOCK_SIZE =
      2 * ((Q.oram 0).treeLevel + 1) * (Q.oram 0).bucketSize * ORAM_BLOCK_SIZE := by
    rw [roundTrip, Nat.mul_assoc 2, Nat.two_mul]
  refine ⟨hlast.reportStorage_eq, ?_⟩
  rw [reportNetworkCommunication_eq, ← htrip, ← Nat.mul_assoc (1 + Q.nu), ← Nat.mul_assoc]
  refine Nat.mul_le_mul_right _ ?_
  rw [Nat.succ_mul]
  omega

/-- A write whose block is evicted, and two reads with fake evictions: three
accesses, each with two trips to a tree of two levels. -/
theorem partitionOram_traffic_small :
    ∃ outs v, Prog.trace Exit.fatal (PartitionRequest.run twoPartitions)
        [writeTwo 0 11 0 0, readTwo 1 0 1] twoPartitionsLoaded = some (outs, v) ∧
      reportStorage twoPartitions ((readTwo 0 0 1).run twoPartitions v).2 =
        2 * (3 * ORAM_BLOCK_SIZE) ∧
      reportNetworkCommunication twoPartitions ((readTwo 0 0 1).run twoPartitions v).2 ≤
        3 * (2 * (4 * ORAM_BLOCK_SIZE)) := by
  obtain ⟨outs, v, hrun⟩ : ∃ outs v, Prog.trace Exit.fatal (PartitionRequest.run twoPartitions)
      [writeTwo 0 11 0 0, readTwo 1 0 1] twoPartitionsLoaded = some (outs, v) := ⟨_, _, rfl⟩
  have hcapacity : (twoPartitions.oram 0).capacity = 3 := by decide
  have htrip : 2 * ((twoPartitions.oram 0).treeLevel + 1) *
      (twoPartitions.oram 0).bucketSize = 4 := by decide
  obtain ⟨hstorage, htraffic⟩ := partitionOram_traffic twoPartitions_fill hrun (readTwo 0 0 1)
  rw [hcapacity] at hstorage
  rw [htrip] at htraffic
  exact ⟨outs, v, hrun, hstorage, htraffic⟩

end ObliviousRam
