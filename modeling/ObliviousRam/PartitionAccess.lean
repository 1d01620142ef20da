import ObliviousRam.PartitionOram

set_option autoImplicit false

/-!
# One access of a Partition ORAM

`Sound` is what every access keeps, whatever it does to the data: the Path ORAMs
keep their invariant, and a slot holds only blocks whose position it is.

A block is **live** (`Live`) if it is the copy an access would find: it is in the
slot its position names, or no block of its id is there and the Path ORAM behind
that slot holds it. A Path ORAM may hold other, stale copies. The lemmas of this
file say what the two parts of an access, `relocate` and `evictRandom`, do to
the live blocks.
-/

namespace ObliviousRam

open TreeOramServerStorage PathSystem

variable {D : Type} {C : Codec D} {Q : PartitionOramConfig}

namespace PartitionOramController

/-! ## Members after an update -/

@[simp] theorem setSlot_positionMap (i : ℕ) (bs : List (OramBlock D))
    (w : PartitionOramController C) : (setSlot i bs w).positionMap = w.positionMap := rfl

@[simp] theorem setSlot_orams (i : ℕ) (bs : List (OramBlock D)) (w : PartitionOramController C) :
    (setSlot i bs w).orams = w.orams := rfl

@[simp] theorem setOram_positionMap (i : ℕ) (u : PathSystem D (TreeOramServerStorage C))
    (w : PartitionOramController C) : (setOram i u w).positionMap = w.positionMap := rfl

@[simp] theorem setOram_slots (i : ℕ) (u : PathSystem D (TreeOramServerStorage C))
    (w : PartitionOramController C) : (setOram i u w).slots = w.slots := rfl

@[simp] theorem setPosition_slots (a i : ℕ) (w : PartitionOramController C) :
    (setPosition a i w).slots = w.slots := rfl

@[simp] theorem setPosition_orams (a i : ℕ) (w : PartitionOramController C) :
    (setPosition a i w).orams = w.orams := rfl

theorem setSlot_slots_self (i : ℕ) (bs : List (OramBlock D)) (w : PartitionOramController C) :
    (setSlot i bs w).slots i = bs := Function.update_self _ _ _

theorem setSlot_slots_ne {i j : ℕ} (h : j ≠ i) (bs : List (OramBlock D))
    (w : PartitionOramController C) : (setSlot i bs w).slots j = w.slots j :=
  Function.update_of_ne h _ _

theorem setOram_orams_self (i : ℕ) (u : PathSystem D (TreeOramServerStorage C))
    (w : PartitionOramController C) : (setOram i u w).orams i = u := Function.update_self _ _ _

theorem setOram_orams_ne {i j : ℕ} (h : j ≠ i) (u : PathSystem D (TreeOramServerStorage C))
    (w : PartitionOramController C) : (setOram i u w).orams j = w.orams j :=
  Function.update_of_ne h _ _

theorem setSlot_self (i : ℕ) (w : PartitionOramController C) : setSlot i (w.slots i) w = w := by
  rw [setSlot, Function.update_eq_self]

/-- The state after an access to one of the Path ORAMs. -/
theorem oramAccess_eq {i : ℕ} {op : Operation} {a : ℕ} {buffer : OramBlock D}
    {draws : AccessDraws C} {dummy : Bool} {w : PartitionOramController C}
    {r : Except Exit (OramBlock D)} {u : PathSystem D (TreeOramServerStorage C)}
    (h : PathOramController.internalAccess (OramService.stub C (Q.oram i).id) (Q.oram i) op a buffer
      draws dummy (w.orams i) = (r, u)) :
    oramAccess Q i op a buffer draws dummy w = (r, setOram i u w) := by
  rw [oramAccess, onOram]
  exact Prog.zoom_eq h

/-! ## The invariant

`Sound` is kept by every update that an access is made of, each with its own condition:
a Path ORAM may be replaced by one that keeps its invariant, a slot may lose blocks, and
the position of an address may change if its slot is emptied of it. -/

/-- The blocks of Path ORAM `i`. -/
def oramBlocks (Q : PartitionOramConfig) (w : PartitionOramController C) (i : ℕ) :
    Multiset (OramBlock D) := (w.orams i).contents (Q.oram i)

/-- The real blocks on the path that a dummy access to Path ORAM `i` samples. -/
def sampledPath (Q : PartitionOramConfig) (w : PartitionOramController C) (i : ℕ)
    (draws : AccessDraws C) : List (OramBlock D) :=
  pathBlocks (Q.oram i).treeLevel (draws.position % (Q.oram i).numberOfLeafs) (w.orams i).server

/-- What every access keeps. -/
structure Sound (Q : PartitionOramConfig) (w : PartitionOramController C) : Prop where
  oram_inv : ∀ i < Q.size, (w.orams i).Inv (Q.oram i)
  oram_initialized : ∀ i < Q.size, (w.orams i).client.isInitialized = true
  position_lt : ∀ a, w.positionMap.index a < Q.size
  slot_normal : ∀ i, ∀ b ∈ w.slots i, b.isNormal = true
  slot_at : ∀ i, ∀ b ∈ w.slots i, w.positionMap.index b.id = i
  slot_unique : ∀ i, UniqueKeys OramBlock.id (w.slots i : Multiset (OramBlock D))

/-- The copy of its id that an access would find. -/
def Live (Q : PartitionOramConfig) (w : PartitionOramController C) (b : OramBlock D) : Prop :=
  b ∈ w.slots (w.positionMap.index b.id) ∨
    (∀ c ∈ w.slots (w.positionMap.index b.id), c.id ≠ b.id) ∧
      b ∈ oramBlocks Q w (w.positionMap.index b.id)

/-- A slot matches an address where its blocks say so. -/
theorem Sound.blockEqual_iff_id {w : PartitionOramController C} (hw : Sound Q w) {i a : ℕ} :
    ∀ b ∈ w.slots i, blockEqual a b ↔ b.id = a := by
  intro b hb
  rw [blockEqual_iff]
  exact ⟨And.left, fun h => ⟨h, hw.slot_normal i b hb⟩⟩

/-- There is at least one slot. -/
theorem Sound.size_pos {w : PartitionOramController C} (hw : Sound Q w) : 0 < Q.size :=
  Nat.zero_lt_of_lt (hw.position_lt 0)

/-- Changing one Path ORAM for another that keeps its invariant. -/
theorem Sound.setOram {w : PartitionOramController C} (hw : Sound Q w) (i : ℕ)
    {u : PathSystem D (TreeOramServerStorage C)} (hu : u.Inv (Q.oram i))
    (hinit : u.client.isInitialized = true) : Sound Q (setOram i u w) where
  oram_inv := by
    intro j hj
    by_cases h : j = i
    · subst h
      rw [setOram_orams_self]
      exact hu
    · rw [setOram_orams_ne h]
      exact hw.oram_inv j hj
  oram_initialized := by
    intro j hj
    by_cases h : j = i
    · subst h
      rw [setOram_orams_self]
      exact hinit
    · rw [setOram_orams_ne h]
      exact hw.oram_initialized j hj
  position_lt := hw.position_lt
  slot_normal := hw.slot_normal
  slot_at := hw.slot_at
  slot_unique := hw.slot_unique

/-- Shrinking one slot. -/
theorem Sound.shrinkSlot {w : PartitionOramController C} (hw : Sound Q w) {i : ℕ}
    {bs : List (OramBlock D)} (hbs : bs.Sublist (w.slots i)) : Sound Q (setSlot i bs w) := by
  have hmem : ∀ j, ∀ b ∈ (setSlot i bs w).slots j, b ∈ w.slots j := by
    intro j b hb
    by_cases h : j = i
    · subst h
      rw [setSlot_slots_self] at hb
      exact hbs.subset hb
    · rw [setSlot_slots_ne h] at hb
      exact hb
  refine ⟨hw.oram_inv, hw.oram_initialized, hw.position_lt,
    fun j b hb => hw.slot_normal j b (hmem j b hb), fun j b hb => hw.slot_at j b (hmem j b hb),
    fun j => ?_⟩
  by_cases h : j = i
  · subst h
    rw [setSlot_slots_self]
    exact (hw.slot_unique j).of_le (Multiset.coe_le.mpr hbs.subperm)
  · rw [setSlot_slots_ne h]
    exact hw.slot_unique j

/-- Giving a new position to an address that no slot holds. -/
theorem Sound.setPosition {w : PartitionOramController C} (hw : Sound Q w) {a i : ℕ}
    (hi : i < Q.size) (hno : ∀ j, ∀ c ∈ w.slots j, c.id ≠ a) : Sound Q (setPosition a i w) where
  oram_inv := hw.oram_inv
  oram_initialized := hw.oram_initialized
  position_lt := by
    intro b
    by_cases h : b = a
    · subst h
      rw [PartitionOramController.setPosition, PositionMap.index_set_self]
      exact hi
    · rw [PartitionOramController.setPosition, PositionMap.index_set_ne _ _ h]
      exact hw.position_lt b
  slot_normal := hw.slot_normal
  slot_at := by
    intro j b hb
    rw [PartitionOramController.setPosition, PositionMap.index_set_ne _ _ (hno j b hb)]
    exact hw.slot_at j b hb
  slot_unique := hw.slot_unique

/-- Putting a block into the slot of its position, if no slot holds its id. -/
theorem Sound.put {w : PartitionOramController C} (hw : Sound Q w) {b : OramBlock D} {i : ℕ}
    (hb : b.isNormal = true) (hi : w.positionMap.index b.id = i)
    (hno : ∀ j, ∀ c ∈ w.slots j, c.id ≠ b.id) :
    Sound Q (setSlot i (w.slots i ++ [b]) w) := by
  have hmem : ∀ j, ∀ c ∈ (setSlot i (w.slots i ++ [b]) w).slots j, c ∈ w.slots j ∨ j = i ∧ c = b := by
    intro j c hc
    by_cases h : j = i
    · subst h
      rw [setSlot_slots_self] at hc
      exact (List.mem_append.mp hc).imp id fun hc => ⟨rfl, List.mem_singleton.mp hc⟩
    · rw [setSlot_slots_ne h] at hc
      exact .inl hc
  refine ⟨hw.oram_inv, hw.oram_initialized, hw.position_lt, fun j c hc => ?_, fun j c hc => ?_,
    fun j => ?_⟩
  · rcases hmem j c hc with hc | ⟨-, rfl⟩
    · exact hw.slot_normal j c hc
    · exact hb
  · rcases hmem j c hc with hc | ⟨rfl, rfl⟩
    · exact hw.slot_at j c hc
    · exact hi
  · by_cases h : j = i
    · subst h
      rw [setSlot_slots_self, ← Multiset.coe_add, UniqueKeys, Multiset.map_add, Multiset.nodup_add]
      refine ⟨hw.slot_unique j, Multiset.nodup_singleton _, ?_⟩
      refine Multiset.disjoint_left.mpr fun hk hk' => ?_
      obtain ⟨c, hc, rfl⟩ := Multiset.mem_map.mp hk
      exact hno j c (Multiset.mem_coe.mp hc) (Multiset.mem_singleton.mp hk')
    · rw [setSlot_slots_ne h]
      exact hw.slot_unique j

/-! ## Fetching a block

A hit makes a dummy access and takes the block out of its slot. A miss makes the access
to the Path ORAM. One that reads removes the block there, one that writes does not: this
is how stale copies come about. -/

/-- The slot that a raw draw stands for. -/
def drawnSlot (Q : PartitionOramConfig) (value : ℕ) : ℕ := value % Q.size

/-- The slot that is drawn exists. -/
theorem checkedRandom_slot {σ : Type} (hsize : 0 < Q.size) (reason : String) (value : ℕ) (s : σ) :
    checkedRandom reason value 0 (Q.size - 1) s = (.ok (drawnSlot Q value), s) := by
  rw [checkedRandom_ok _ _ (Nat.zero_le _), Nat.sub_zero, Nat.sub_add_cancel hsize, Nat.add_zero,
    drawnSlot]

/-- The state after `fetch`: the address has its new position and has left its
slot, and the Path ORAM behind the slot is in state `u`. -/
def fetched (a newSlot : ℕ) (u : PathSystem D (TreeOramServerStorage C))
    (w : PartitionOramController C) : PartitionOramController C :=
  let slot := w.positionMap.index a
  setOram slot u
    (setPosition a newSlot (setSlot slot ((w.slots slot).eraseP (blockEqual a)) w))

/-- The block is in its slot: the Path ORAM only sees a dummy access. -/
theorem fetch_hit {w : PartitionOramController C} (hw : Sound Q w) (op : Operation)
    (draws : PartitionDraws C) {a : ℕ} {b : OramBlock D}
    (hb : b ∈ w.slots (w.positionMap.index a)) (hid : b.id = a) :
    ∃ u, fetch Q op a draws w = (.ok (b, drawnSlot Q draws.slot),
        fetched a (drawnSlot Q draws.slot) u w) ∧
      u.Inv (Q.oram (w.positionMap.index a)) ∧ u.client.isInitialized = true ∧
      u.contents (Q.oram (w.positionMap.index a)) +
        (sampledPath Q w (w.positionMap.index a) draws.access : Multiset (OramBlock D)) =
          oramBlocks Q w (w.positionMap.index a) := by
  have hlt := hw.position_lt a
  have hfind : (w.slots (w.positionMap.index a)).find? (blockEqual a) = some b :=
    find?_eq_some_of_unique (hw.slot_unique _) hw.blockEqual_iff_id hb hid
  obtain ⟨u, hrun, hinv, hinit, hcont⟩ := internalAccess_dummy_inv a
    draws.garbage draws.access (hw.oram_inv _ hlt) (hw.oram_initialized _ hlt)
    (show Operation.kRead ≠ .kInvalid from nofun)
  refine ⟨u, ?_, hinv, hinit, hcont⟩
  have hdummy := oramAccess_eq (w := setPosition a (drawnSlot Q draws.slot) w) hrun
  rw [fetch, Prog.bind_ok (checkedRandom_slot hw.size_pos _ _ _), Prog.get_bind]
  simp only [update, Prog.modify_bind]
  rw [if_neg (Nat.not_le.mpr hlt)]
  simp only [hfind]
  rw [Prog.bind_ok (checkStatus_ok hdummy)]
  rfl

/-- The block is not in its slot, but in the Path ORAM behind it: a real access
there, of the same operation, on whatever the local `block` holds. -/
theorem fetch_miss {w : PartitionOramController C} (hw : Sound Q w) {op : Operation}
    {draws : PartitionDraws C} {a : ℕ} {b : OramBlock D} (hop : op ≠ .kInvalid)
    (hpad : ∀ l j, (draws.access.pad l j).isNormal = false)
    (hmiss : ∀ c ∈ w.slots (w.positionMap.index a), c.id ≠ a)
    (hb : b ∈ oramBlocks Q w (w.positionMap.index a)) (hid : b.id = a) :
    ∃ u, fetch Q op a draws w =
        (.ok (PathOramController.output op draws.garbage b, drawnSlot Q draws.slot),
          fetched a (drawnSlot Q draws.slot) u w) ∧
      u.Inv (Q.oram (w.positionMap.index a)) ∧ u.client.isInitialized = true ∧
      u.contents (Q.oram (w.positionMap.index a)) =
        PathOramController.accessed (Q.oram (w.positionMap.index a)) op a draws.garbage
          (oramBlocks Q w (w.positionMap.index a)) := by
  have hlt := hw.position_lt a
  have hnone : ∀ c ∈ w.slots (w.positionMap.index a), ¬blockEqual a c = true := fun c hc he =>
    hmiss c hc (blockEqual_iff.mp he).1
  obtain ⟨u, hrun, hinv, hcont, hinit⟩ := PathOramController.internalAccess_found draws.garbage
    (hw.oram_inv _ hlt) (hw.oram_initialized _ hlt) hop hpad hb hid
  refine ⟨u, ?_, hinv, hinit, hcont⟩
  have haccess := oramAccess_eq (w := setPosition a (drawnSlot Q draws.slot) w) hrun
  rw [fetch, Prog.bind_ok (checkedRandom_slot hw.size_pos _ _ _), Prog.get_bind]
  simp only [update, Prog.modify_bind]
  rw [if_neg (Nat.not_le.mpr hlt)]
  simp only [List.find?_eq_none.mpr hnone]
  rw [Prog.bind_ok (a := PathOramController.output op draws.garbage b)
    (by rw [ignoreStatus, haccess]), fetched]
  simp only [List.eraseP_of_forall_not hnone, setSlot_self]
  rfl

/-- After the fetch no slot holds the address. -/
theorem fetched_slots_ne {w : PartitionOramController C} (hw : Sound Q w) (a newSlot : ℕ)
    (u : PathSystem D (TreeOramServerStorage C)) :
    ∀ j, ∀ c ∈ (fetched a newSlot u w).slots j, c.id ≠ a := by
  intro j c hc he
  rw [fetched, setOram_slots, setPosition_slots] at hc
  by_cases h : j = w.positionMap.index a
  · subst h
    rw [setSlot_slots_self, ← Multiset.mem_coe,
      coe_eraseP (hw.slot_unique _) hw.blockEqual_iff_id] at hc
    exact (mem_dropKey.mp hc).2 he
  · rw [setSlot_slots_ne h] at hc
    exact h (he ▸ (hw.slot_at j c hc).symm)

/-- Fetching keeps the invariant. -/
theorem Sound.fetched {w : PartitionOramController C} (hw : Sound Q w) {a newSlot : ℕ}
    (hnew : newSlot < Q.size) {u : PathSystem D (TreeOramServerStorage C)}
    (hu : u.Inv (Q.oram (w.positionMap.index a))) (hinit : u.client.isInitialized = true) :
    Sound Q (fetched a newSlot u w) :=
  ((hw.shrinkSlot List.eraseP_sublist).setPosition hnew
    (fetched_slots_ne hw a newSlot u)).setOram _ hu hinit

/-! ## The block in its new slot

After the move, the block of the address is the one in the new slot, whatever the Path
ORAM of that slot holds under the id. For all other addresses nothing has changed. -/

/-- The state after `relocate`. -/
def relocated (a newSlot : ℕ) (u : PathSystem D (TreeOramServerStorage C)) (block : OramBlock D)
    (w : PartitionOramController C) : PartitionOramController C :=
  setSlot newSlot ((fetched a newSlot u w).slots newSlot ++ [block]) (fetched a newSlot u w)

theorem relocate_eq {w : PartitionOramController C} {op : Operation} {a newSlot : ℕ}
    (buffer : OramBlock D) {out : OramBlock D} {draws : PartitionDraws C}
    {u : PathSystem D (TreeOramServerStorage C)}
    (h : fetch Q op a draws w = (.ok (out, newSlot), fetched a newSlot u w)) :
    relocate Q op a buffer draws w =
      (.ok (if op = .kWrite then buffer else out),
        relocated a newSlot u (if op = .kWrite then buffer else out) w) := by
  rw [relocate, Prog.bind_ok h]
  rfl

/-- The block is now where the position map says. -/
theorem relocated_index_self (a newSlot : ℕ) (u : PathSystem D (TreeOramServerStorage C))
    (block : OramBlock D) (w : PartitionOramController C) :
    (relocated a newSlot u block w).positionMap.index a = newSlot :=
  PositionMap.index_set_self _ _ _

theorem relocated_index_ne {a newSlot k : ℕ} (h : k ≠ a)
    (u : PathSystem D (TreeOramServerStorage C)) (block : OramBlock D)
    (w : PartitionOramController C) :
    (relocated a newSlot u block w).positionMap.index k = w.positionMap.index k :=
  PositionMap.index_set_ne _ _ h

/-- The move to the new slot keeps the invariant. -/
theorem Sound.relocated {w : PartitionOramController C} (hw : Sound Q w) {a newSlot : ℕ}
    (hnew : newSlot < Q.size) {u : PathSystem D (TreeOramServerStorage C)}
    (hu : u.Inv (Q.oram (w.positionMap.index a))) (hinit : u.client.isInitialized = true)
    {block : OramBlock D} (hid : block.id = a) (hnormal : block.isNormal = true) :
    Sound Q (relocated a newSlot u block w) := by
  subst hid
  exact (hw.fetched hnew hu hinit).put hnormal (PositionMap.index_set_self _ _ _)
    (fetched_slots_ne hw _ _ _)

/-- The blocks of the slots after `relocate`, but for the one that moved. -/
theorem mem_relocated_slots {a newSlot j : ℕ} {u : PathSystem D (TreeOramServerStorage C)}
    {block c : OramBlock D} {w : PartitionOramController C} (hblock : block.id = a)
    (hc : c.id ≠ a) :
    c ∈ (relocated a newSlot u block w).slots j ↔ c ∈ w.slots j := by
  have hfetched : ∀ k, c ∈ (fetched a newSlot u w).slots k ↔ c ∈ w.slots k := by
    intro k
    rw [fetched, setOram_slots, setPosition_slots]
    by_cases h : k = w.positionMap.index a
    · subst h
      rw [setSlot_slots_self]
      exact List.mem_eraseP_of_neg fun he => hc (blockEqual_iff.mp he).1
    · rw [setSlot_slots_ne h]
  rw [relocated]
  by_cases h : j = newSlot
  · subst h
    rw [setSlot_slots_self, List.mem_append, List.mem_singleton, hfetched]
    exact or_iff_left fun he => hc (he ▸ hblock)
  · rw [setSlot_slots_ne h, hfetched]

/-- The Path ORAM of the old slot is the one that was accessed. -/
theorem oramBlocks_relocated_self (Q : PartitionOramConfig) (a newSlot : ℕ)
    (u : PathSystem D (TreeOramServerStorage C)) (block : OramBlock D)
    (w : PartitionOramController C) :
    oramBlocks Q (relocated a newSlot u block w) (w.positionMap.index a) =
      u.contents (Q.oram (w.positionMap.index a)) := by
  rw [oramBlocks, relocated, setSlot_orams, fetched, setOram_orams_self]

/-- The other Path ORAMs hold what they held. -/
theorem oramBlocks_relocated_ne (Q : PartitionOramConfig) {a j : ℕ} (newSlot : ℕ)
    (u : PathSystem D (TreeOramServerStorage C)) (block : OramBlock D)
    {w : PartitionOramController C} (h : j ≠ w.positionMap.index a) :
    oramBlocks Q (relocated a newSlot u block w) j = oramBlocks Q w j := by
  rw [oramBlocks, relocated, setSlot_orams, fetched, setOram_orams_ne h]
  rfl

/-- The relocated block is the live copy of its address. -/
theorem live_relocated_self {a newSlot : ℕ} {u : PathSystem D (TreeOramServerStorage C)}
    {block : OramBlock D} {w : PartitionOramController C} (hid : block.id = a) :
    Live Q (relocated a newSlot u block w) block := by
  refine .inl ?_
  rw [hid, relocated_index_self, relocated, setSlot_slots_self]
  exact List.mem_append_right _ List.mem_cons_self

/-- The live copy of another address stays live, if the Path ORAM keeps it. -/
theorem live_relocated_ne {a newSlot : ℕ} {u : PathSystem D (TreeOramServerStorage C)}
    {block c : OramBlock D} {w : PartitionOramController C} (hid : block.id = a) (hc : c.id ≠ a)
    (hlive : Live Q w c)
    (hkeep : w.positionMap.index c.id = w.positionMap.index a →
      c ∈ oramBlocks Q w (w.positionMap.index a) →
      c ∈ u.contents (Q.oram (w.positionMap.index a))) :
    Live Q (relocated a newSlot u block w) c := by
  rw [Live, relocated_index_ne hc]
  rcases hlive with hslot | ⟨hno, horam⟩
  · exact .inl ((mem_relocated_slots hid hc).mpr hslot)
  · refine .inr ⟨fun d hd hdc => ?_, ?_⟩
    · exact hno d ((mem_relocated_slots hid (hdc ▸ hc)).mp hd) hdc
    · by_cases h : w.positionMap.index c.id = w.positionMap.index a
      · rw [h] at horam ⊢
        rw [oramBlocks_relocated_self]
        exact hkeep h horam
      · rw [oramBlocks_relocated_ne Q newSlot u block h]
        exact horam

/-! ## Evicting a slot

An eviction takes the last block of a slot and writes it to the Path ORAM behind it. If
the Path ORAM knows the id its copy is replaced, and the block stays live; if not it is
live no more. -/

theorem evictRandom_eq (hsize : 0 < Q.size) (garbage : OramBlock D) (draws : EvictDraws C)
    (w : PartitionOramController C) :
    evictRandom Q garbage draws w = evict Q (drawnSlot Q draws.slot) draws.access garbage w :=
  Prog.bind_ok (checkedRandom_slot hsize _ _ _)

/-- An empty slot: a dummy access to the Path ORAM. -/
theorem evict_empty {w : PartitionOramController C} (hw : Sound Q w) {i : ℕ} (hi : i < Q.size)
    (hslot : w.slots i = []) (draws : AccessDraws C) (garbage : OramBlock D) :
    ∃ u, evict Q i draws garbage w = (.ok (), setOram i u w) ∧
      Sound Q (setOram i u w) ∧
      u.contents (Q.oram i) + (sampledPath Q w i draws : Multiset (OramBlock D)) =
        oramBlocks Q w i := by
  obtain ⟨u, hrun, hinv, hinit, hcont⟩ := internalAccess_dummy_inv 0 garbage draws
    (hw.oram_inv i hi) (hw.oram_initialized i hi) (show Operation.kWrite ≠ .kInvalid from nofun)
  refine ⟨u, ?_, hw.setOram i hinv hinit, hcont⟩
  rw [evict, Prog.get_bind, hslot]
  exact Prog.bind_ok (oramAccess_eq hrun)

/-- A slot whose last block the Path ORAM knows: the block is written there. -/
theorem evict_found {w : PartitionOramController C} (hw : Sound Q w) {i : ℕ} (hi : i < Q.size)
    {b c : OramBlock D} (hlast : (w.slots i).getLast? = some b) (hc : c ∈ oramBlocks Q w i)
    (hid : c.id = b.id) {draws : AccessDraws C} (hpad : ∀ l j, (draws.pad l j).isNormal = false)
    (garbage : OramBlock D) :
    ∃ u, evict Q i draws garbage w =
        (.ok (), setOram i u (setSlot i (w.slots i).dropLast w)) ∧
      Sound Q (setOram i u (setSlot i (w.slots i).dropLast w)) ∧
      u.contents (Q.oram i) = replaceKey OramBlock.id b.id (·.store b) (oramBlocks Q w i) := by
  obtain ⟨u, hrun, hinv, hcont, hinit⟩ := PathOramController.internalAccess_found b
    (hw.oram_inv i hi) (hw.oram_initialized i hi) (show Operation.kWrite ≠ .kInvalid from nofun)
    hpad hc hid
  refine ⟨u, ?_, (hw.shrinkSlot (List.dropLast_sublist _)).setOram i hinv hinit, ?_⟩
  · rw [evict, Prog.get_bind]
    simp only [hlast, update, Prog.modify_bind]
    exact Prog.bind_ok (oramAccess_eq (w := setSlot i (w.slots i).dropLast w) hrun)
  · rw [hcont, PathOramController.accessed, if_pos rfl, oramBlocks]

/-- A slot whose last block the Path ORAM does not know: the eviction fails. -/
theorem evict_missing {w : PartitionOramController C} (hw : Sound Q w) {i : ℕ} (hi : i < Q.size)
    {b : OramBlock D} (hlast : (w.slots i).getLast? = some b)
    (hmiss : ∀ c ∈ oramBlocks Q w i, c.id ≠ b.id) (draws : AccessDraws C)
    (garbage : OramBlock D) :
    ∃ st w', evict Q i draws garbage w = (.error (.status st), w') := by
  obtain ⟨st, u, hrun, -⟩ := PathOramController.internalAccess_missing b draws
    (hw.oram_inv i hi) (hw.oram_initialized i hi) (show Operation.kWrite ≠ .kInvalid from nofun)
    hmiss
  refine ⟨st, setOram i u (setSlot i (w.slots i).dropLast w), ?_⟩
  rw [evict, Prog.get_bind]
  simp only [hlast, update, Prog.modify_bind]
  exact Prog.bind_error (oramAccess_eq (w := setSlot i (w.slots i).dropLast w) hrun)

/-- A Path ORAM that loses no live block keeps every live block live. -/
theorem live_setOram {w : PartitionOramController C} {i : ℕ}
    {u : PathSystem D (TreeOramServerStorage C)} {c : OramBlock D} (hlive : Live Q w c)
    (hkeep : w.positionMap.index c.id = i → c ∈ oramBlocks Q w i → c ∈ u.contents (Q.oram i)) :
    Live Q (setOram i u w) c := by
  rcases hlive with hslot | ⟨hno, horam⟩
  · exact .inl hslot
  · refine .inr ⟨hno, ?_⟩
    by_cases h : w.positionMap.index c.id = i
    · rw [h] at horam
      rw [setOram_positionMap, h, oramBlocks, setOram_orams_self]
      exact hkeep h horam
    · rw [setOram_positionMap, oramBlocks, setOram_orams_ne h]
      exact horam

end PartitionOramController

end ObliviousRam
