import ObliviousRam.PartitionAccess

set_option autoImplicit false

/-!
# Whole runs of a Partition ORAM

The initial load, and two results about the runs that follow it, each under a
condition on the steps of the run: when the ORAM is a memory, and when every
address is stored exactly once. The conditions are there because the code does
not meet its purpose without them; the runs at the end of each part show where.
-/

namespace ObliviousRam

open TreeOramServerStorage PathSystem PartitionOramController

variable {D : Type} {C : Codec D} {Q : PartitionOramConfig}

/-! ## The initial load

The data is cut into pieces, one for each Path ORAM, and address `a` gets the position
of its piece. The slots are empty. -/

/-- As long as the bucket size fits into a byte, a slice of the data is what a
Path ORAM can hold. -/
theorem oram_capacity (hbucket : Q.bucketSize < 256) (i : ℕ) :
    (Q.oram i).capacity = Q.treeSize := by
  have hsize : (Q.oram i).bucketSize = Q.bucketSize := Nat.mod_eq_of_lt hbucket
  rw [PathOramConfig.capacity, PartitionOramConfig.treeSize, hsize]
  rfl

/-- `ProcessSlot` on the real blocks of a slice. -/
theorem index_foldl_set (slot : ℕ) (bs : List (OramBlock D)) (m : PositionMap) :
    (∀ b ∈ bs, (bs.foldl (fun m b => m.set b.id slot) m).index b.id = slot) ∧
      ∀ a, (∀ b ∈ bs, b.id ≠ a) →
        (bs.foldl (fun m b => m.set b.id slot) m).index a = m.index a := by
  induction bs generalizing m with
  | nil => exact ⟨fun b hb => absurd hb List.not_mem_nil, fun a _ => rfl⟩
  | cons b bs ih =>
    obtain ⟨hset, hother⟩ := ih (m.set b.id slot)
    refine ⟨fun c hc => ?_, fun a ha => ?_⟩
    · by_cases hmem : ∃ d ∈ bs, d.id = c.id
      · obtain ⟨d, hd, hid⟩ := hmem
        rw [List.foldl_cons, ← hid]
        exact hset d hd
      · rcases List.mem_cons.mp hc with rfl | hc
        · rw [List.foldl_cons, hother c.id fun d hd he => hmem ⟨d, hd, he⟩,
            PositionMap.index_set_self]
        · exact absurd ⟨c, hc, rfl⟩ hmem
    · rw [List.foldl_cons, hother a fun c hc => ha c (List.mem_cons_of_mem _ hc),
        PositionMap.index_set_ne _ _ (Ne.symm (ha b List.mem_cons_self))]

/-- The data is handed out in pieces. -/
theorem loadedBlocks_split (n : ℕ) (data : List (OramBlock D)) :
    loadedBlocks data = loadedBlocks (data.take n) + loadedBlocks (data.drop n) := by
  rw [loadedBlocks, loadedBlocks, loadedBlocks, Multiset.coe_add, ← List.filter_append,
    List.take_append_drop]

/-- What the loop of `FillWithData` has done once it has filled the Path ORAMs from
`i` up to, but not including, `stop`, from `rest`. -/
structure SlotsFilled (Q : PartitionOramConfig) (i stop : ℕ) (rest : List (OramBlock D))
    (w w' : PartitionOramController C) : Prop where
  slots_eq : w'.slots = w.slots
  before : ∀ j < i, w'.orams j = w.orams j
  position_eq : ∀ a, (∀ b ∈ loadedBlocks rest, b.id ≠ a) →
    w'.positionMap.index a = w.positionMap.index a
  oram_ready : ∀ j, i ≤ j → j < stop →
    (w'.orams j).Inv (Q.oram j) ∧ (w'.orams j).client.isInitialized = true
  loaded : ∀ b ∈ loadedBlocks rest, i ≤ w'.positionMap.index b.id ∧
    w'.positionMap.index b.id < stop ∧ b ∈ oramBlocks Q w' (w'.positionMap.index b.id)
  only : ∀ j, i ≤ j → j < stop → ∀ b ∈ oramBlocks Q w' j,
    b ∈ loadedBlocks rest ∧ w'.positionMap.index b.id = j

/-- Each Path ORAM is loaded with its piece, and they all fit. -/
theorem fillSlots_spec (hbucket : Q.bucketSize < 256) {draws : ℕ → FillDraws C}
    (hpad : ∀ i t j, ((draws i).pad t j).isNormal = false) :
    ∀ (k i : ℕ) (rest : List (OramBlock D)) (w : PartitionOramController C),
      rest.length = Q.treeSize * k → UniqueKeys OramBlock.id (loadedBlocks rest) →
      (∀ j, i ≤ j → w.orams j = PathSystem.init C (Q.oram j)) →
      ∃ w', fillSlots Q draws i k rest w = (.ok (), w') ∧ SlotsFilled Q i (i + k) rest w w' := by
  intro k
  induction k with
  | zero =>
    intro i rest w hlen _ _
    have hrest : rest = [] := List.eq_nil_of_length_eq_zero (by rw [hlen, Nat.mul_zero])
    subst hrest
    refine ⟨w, rfl, rfl, fun j _ => rfl, fun a _ => rfl, fun j hj hj' => absurd hj' (by omega),
      fun b hb => absurd hb (Multiset.notMem_zero b), fun j hj hj' => absurd hj' (by omega)⟩
  | succ k ih =>
    intro i rest w hlen hids hinit
    have hsplit := loadedBlocks_split Q.treeSize rest
    rw [hsplit] at hids
    generalize hslice : rest.take Q.treeSize = slice at *
    -- the Path ORAM of this slot
    have hlen' : slice.length ≤ (Q.oram i).capacity := by
      rw [oram_capacity hbucket, ← hslice]
      exact List.length_take_le _ _
    obtain ⟨u, hfill, hinv, hcont, hready⟩ :=
      PathOramController.fillWithData_spec (P := Q.oram i) (hpad i) hlen' hids.left
    rw [← loadedBlocks] at hcont
    obtain ⟨hset, hother⟩ := index_foldl_set i (slice.filter OramBlock.isNormal) w.positionMap
    let w₁ : PartitionOramController C := setOram i u { w with
      positionMap := (slice.filter OramBlock.isNormal).foldl (fun m b => m.set b.id i)
        w.positionMap }
    obtain ⟨w', hrest, hw'⟩ := ih (i + 1) (rest.drop Q.treeSize) w₁
      (by rw [List.length_drop, hlen, Nat.mul_succ]; omega) hids.right fun j hj =>
        (setOram_orams_ne (by omega) _ _).trans (hinit j (by omega))
    rw [show i + 1 + k = i + (k + 1) by omega] at hw'
    have horam : w'.orams i = u := (hw'.before i (Nat.lt_succ_self i)).trans
      (setOram_orams_self _ _ _)
    have hblocks : oramBlocks Q w' i = loadedBlocks slice := by
      rw [oramBlocks, horam, hcont]
    have hposition : ∀ b ∈ loadedBlocks slice, w'.positionMap.index b.id = i := by
      intro b hb
      rw [hw'.position_eq b.id fun c hc he => hids.ne_of_mem hb hc he.symm]
      exact hset b (Multiset.mem_coe.mp hb)
    refine ⟨w', ?_, hw'.slots_eq, fun j hj => ?_, fun a ha => ?_, fun j hj hj' => ?_,
      fun b hb => ?_, fun j hj hj' b hb => ?_⟩
    · have honOram : onOram i (PathOramController.fillWithData (OramService.stub C (Q.oram i).id)
          (Q.oram i) slice (draws i)) { w with
            positionMap := (slice.filter OramBlock.isNormal).foldl (fun m b => m.set b.id i)
              w.positionMap } = (.ok (), w₁) := by
        rw [onOram]
        refine Prog.zoom_eq (?_ : _ = (_, u))
        rw [hinit i le_rfl]
        exact hfill
      rw [fillSlots, processSlot, update, Prog.modify_bind, hslice,
        Prog.bind_ok (checkStatus_ok honOram)]
      exact hrest
    · rw [hw'.before j (by omega)]
      exact setOram_orams_ne (by omega) _ _
    · rw [hsplit] at ha
      rw [hw'.position_eq a fun b hb => ha b (Multiset.mem_add.mpr (.inr hb))]
      exact hother a fun b hb =>
        ha b (Multiset.mem_add.mpr (.inl (Multiset.mem_coe.mpr hb)))
    · rcases Nat.eq_or_lt_of_le hj with rfl | hlt
      · rw [horam]
        exact ⟨hinv, hready⟩
      · exact hw'.oram_ready j hlt hj'
    · rw [hsplit] at hb
      rcases Multiset.mem_add.mp hb with hb | hb
      · rw [hposition b hb, hblocks]
        exact ⟨le_rfl, by omega, hb⟩
      · obtain ⟨hle, hlt, hmem⟩ := hw'.loaded b hb
        exact ⟨by omega, hlt, hmem⟩
    · rw [hsplit]
      rcases Nat.eq_or_lt_of_le hj with rfl | hlt
      · rw [hblocks] at hb
        exact ⟨Multiset.mem_add.mpr (.inl hb), hposition b hb⟩
      · obtain ⟨hmem, hindex⟩ := hw'.only j hlt hj' b hb
        exact ⟨Multiset.mem_add.mpr (.inr hmem), hindex⟩

/-- The state after a successful load. -/
structure Loaded (Q : PartitionOramConfig) (data : List (OramBlock D))
    (w : PartitionOramController C) : Prop where
  sound : Sound Q w
  slots_empty : ∀ i, w.slots i = []
  stored : ∀ b ∈ loadedBlocks data, b ∈ oramBlocks Q w (w.positionMap.index b.id)
  only : ∀ i < Q.size, ∀ b ∈ oramBlocks Q w i,
    b ∈ loadedBlocks data ∧ w.positionMap.index b.id = i

/-- `FillWithData` on a controller fresh from `Run`, with data of the right size. -/
theorem partition_fillWithData_spec (hbucket : Q.bucketSize < 256) {data : List (OramBlock D)}
    {draws : ℕ → FillDraws C} (hsize : Q.size ≠ 0) (hlen : data.length = Q.treeSize * Q.size)
    (hids : UniqueKeys OramBlock.id (loadedBlocks data))
    (hpad : ∀ i t j, ((draws i).pad t j).isNormal = false) :
    ∃ w, fillWithData Q data draws (new C Q) = (.ok (), w) ∧ Loaded Q data w := by
  obtain ⟨w, hrun, hw⟩ := fillSlots_spec hbucket hpad Q.size 0 data (new C Q) hlen hids
    fun j _ => rfl
  rw [Nat.zero_add] at hw
  have hslots : ∀ i, w.slots i = [] := fun i => congrFun hw.slots_eq i
  refine ⟨{ w with isInitialized := true }, ?_, ⟨fun i hi => (hw.oram_ready i (Nat.zero_le i) hi).1,
    fun i hi => (hw.oram_ready i (Nat.zero_le i) hi).2, fun a => ?_, fun i b hb => ?_,
    fun i b hb => ?_, fun i => ?_⟩, hslots, fun b hb => (hw.loaded b hb).2.2,
    fun i hi b hb => hw.only i (Nat.zero_le i) hi b hb⟩
  · rw [fillWithData, if_neg hsize, if_neg (not_not.mpr hlen), Prog.bind_ok hrun]
    rfl
  · by_cases ha : ∃ b ∈ loadedBlocks data, b.id = a
    · obtain ⟨b, hb, rfl⟩ := ha
      exact (hw.loaded b hb).2.1
    · rw [hw.position_eq a fun b hb he => ha ⟨b, hb, he⟩]
      exact Nat.pos_of_ne_zero hsize
  · exact absurd (hslots i ▸ hb) List.not_mem_nil
  · exact absurd (hslots i ▸ hb) List.not_mem_nil
  · simp only [hslots i]
    exact UniqueKeys.zero

/-- A load that has succeeded. -/
theorem loaded_of_fillWithData (hbucket : Q.bucketSize < 256) {data : List (OramBlock D)}
    {draws : ℕ → FillDraws C} {w : PartitionOramController C}
    (hfill : fillWithData Q data draws (new C Q) = (.ok (), w))
    (hids : UniqueKeys OramBlock.id (loadedBlocks data))
    (hpad : ∀ i t j, ((draws i).pad t j).isNormal = false) : Loaded Q data w := by
  have hsize : Q.size ≠ 0 := by
    intro h
    rw [fillWithData, if_pos h] at hfill
    cases hfill
  have hlen : data.length = Q.treeSize * Q.size := by
    by_contra h
    rw [fillWithData, if_neg hsize, if_pos h] at hfill
    cases hfill
  obtain ⟨w', hrun, hw'⟩ := partition_fillWithData_spec hbucket hsize hlen hids hpad
  cases hrun.symm.trans hfill
  exact hw'

/-- After the load every real block of the data is live. -/
theorem Loaded.live {data : List (OramBlock D)} {w : PartitionOramController C}
    (hw : Loaded Q data w) {b : OramBlock D} (hb : b ∈ loadedBlocks data) : Live Q w b := by
  refine .inr ⟨fun c hc => ?_, hw.stored b hb⟩
  rw [hw.slots_empty] at hc
  exact absurd hc List.not_mem_nil

/-! ## Requests -/

/-- The arguments of one `Access`, and its random choices. -/
structure PartitionRequest (C : Codec D) where
  op : Operation
  address : ℕ
  buffer : OramBlock D
  draws : PartitionDraws C

namespace PartitionRequest

/-- `Access` with these arguments. -/
def run (Q : PartitionOramConfig) (r : PartitionRequest C) :
    Prog Exit (PartitionOramController C) (OramBlock D) :=
  PartitionOramController.access Q r.op r.address r.buffer r.draws

/-- The draws of the evictions that the request makes. -/
def evictions (Q : PartitionOramConfig) (r : PartitionRequest C) : List (EvictDraws C) :=
  (List.range Q.nu).map r.draws.evict

/-- What the request writes under `a`. -/
def written (r : PartitionRequest C) (a : ℕ) : Option (D × ℕ) :=
  if r.op = .kWrite ∧ r.address = a then some r.buffer.payload else none

/-- A read or a write of a loaded address. The padding blocks do not pose as
real ones, and the buffer of a write carries the address and the type of a real
block: all of it is stored. -/
structure Proper (data : List (OramBlock D)) (r : PartitionRequest C) : Prop where
  op_valid : r.op = .kRead ∨ r.op = .kWrite
  loaded : ∃ b ∈ data, b.isNormal = true ∧ b.id = r.address
  pad_dummy : ∀ l j, (r.draws.access.pad l j).isNormal = false
  evict_pad_dummy : ∀ i l j, ((r.draws.evict i).access.pad l j).isNormal = false
  buffer_named : r.op = .kWrite → r.buffer.id = r.address ∧ r.buffer.isNormal = true

/-- A proper request is a read or a write. -/
theorem Proper.op_ne {data : List (OramBlock D)} {r : PartitionRequest C} (hr : r.Proper data) :
    r.op ≠ .kInvalid := by
  rcases hr.op_valid with h | h <;> rw [h] <;> exact nofun

end PartitionRequest

/-- An access whose first half and whose evictions return. -/
theorem access_eq_ok {r : PartitionRequest C} {w w₁ w₂ : PartitionOramController C}
    {out : OramBlock D}
    (hrelocate : relocate Q r.op r.address r.buffer r.draws w = (.ok out, w₁))
    (hevict : randomEvict Q r.draws.garbage (r.evictions Q) w₁ = (.ok (), w₂)) :
    r.run Q w = (.ok out, w₂) := by
  rw [PartitionRequest.run, access, Prog.bind_ok hrelocate]
  exact Prog.bind_ok (checkStatus_ok hevict)

/-! ## When a Partition ORAM is a memory

A value is lost in two ways. A dummy access empties the path that it samples, and an
eviction writes to a Path ORAM that does not know the id. As long as no live block is
hit (`SafeAccess`), the live block of every address has the value that was written last
(`Holds`): the access finds it and moves it, and the evictions keep it live. -/

namespace PartitionOramController

/-- The system holds the memory `m` on the loaded addresses. -/
structure Holds (Q : PartitionOramConfig) (data : List (OramBlock D)) (m : ℕ → Option (D × ℕ))
    (w : PartitionOramController C) : Prop where
  sound : Sound Q w
  live : ∀ b₀ ∈ loadedBlocks data, ∃ b, Live Q w b ∧ b.id = b₀.id ∧ m b₀.id = some b.payload

/-- An eviction that does no harm: from an empty slot, the sampled path holds no
live block; from another, the Path ORAM knows the block that is evicted. -/
structure SafeEvict (Q : PartitionOramConfig) (draws : EvictDraws C)
    (w : PartitionOramController C) : Prop where
  empty : w.slots (drawnSlot Q draws.slot) = [] →
    ∀ c ∈ sampledPath Q w (drawnSlot Q draws.slot) draws.access, ¬Live Q w c
  known : ∀ b, (w.slots (drawnSlot Q draws.slot)).getLast? = some b →
    ∃ c ∈ oramBlocks Q w (drawnSlot Q draws.slot), c.id = b.id

/-- An access that does no harm: if the block is in its slot, the path sampled
for the dummy access holds no live block; and so for every eviction, in the
state it is made in. -/
structure SafeAccess (Q : PartitionOramConfig) (r : PartitionRequest C)
    (w : PartitionOramController C) : Prop where
  fetch : (∃ b ∈ w.slots (w.positionMap.index r.address), b.id = r.address) →
    ∀ c ∈ sampledPath Q w (w.positionMap.index r.address) r.draws.access, ¬Live Q w c
  evict : ∀ out w', relocate Q r.op r.address r.buffer r.draws w = (.ok out, w') →
    Prog.EachTime (evictRandom Q r.draws.garbage) (SafeEvict Q) (r.evictions Q) w'

/-- Every update of the memory that follows the relocated block. -/
theorem Holds.relocated {data : List (OramBlock D)} {m m' : ℕ → Option (D × ℕ)}
    {w : PartitionOramController C} (hw : Holds Q data m w) {a newSlot : ℕ}
    (hnew : newSlot < Q.size) {u : PathSystem D (TreeOramServerStorage C)}
    (hu : u.Inv (Q.oram (w.positionMap.index a))) (hinit : u.client.isInitialized = true)
    {block : OramBlock D} (hid : block.id = a) (hnormal : block.isNormal = true)
    (hkeep : ∀ c, c.id ≠ a → Live Q w c → w.positionMap.index c.id = w.positionMap.index a →
      c ∈ oramBlocks Q w (w.positionMap.index a) →
      c ∈ u.contents (Q.oram (w.positionMap.index a)))
    (hself : m' a = some block.payload) (hother : ∀ k, k ≠ a → m' k = m k) :
    Holds Q data m' (relocated a newSlot u block w) where
  sound := hw.sound.relocated hnew hu hinit hid hnormal
  live := by
    intro b₀ hb₀
    by_cases h : b₀.id = a
    · exact ⟨block, live_relocated_self hid, hid.trans h.symm, by rw [h, hself]⟩
    · obtain ⟨b, hlive, hb, hm⟩ := hw.live b₀ hb₀
      have hne : b.id ≠ a := fun he => h (hb.symm.trans he)
      exact ⟨b, live_relocated_ne hid hne hlive (hkeep b hne hlive), hb, by rw [hother _ h, hm]⟩

/-- The first half of an access: the address gets the block a memory would have
for it, and every other address keeps its own. -/
theorem relocate_holds {data : List (OramBlock D)} {past : List (PartitionRequest C)}
    {r : PartitionRequest C} (hr : r.Proper data) {w : PartitionOramController C}
    (hw : Holds Q data (latest PartitionRequest.written (loadedValue data) past) w)
    (hsafe : (∃ b ∈ w.slots (w.positionMap.index r.address), b.id = r.address) →
      ∀ c ∈ sampledPath Q w (w.positionMap.index r.address) r.draws.access, ¬Live Q w c) :
    ∃ out w', relocate Q r.op r.address r.buffer r.draws w = (.ok out, w') ∧
      Holds Q data (latest PartitionRequest.written (loadedValue data) (past ++ [r])) w' ∧
      (r.op = .kRead →
        some out.payload = latest PartitionRequest.written (loadedValue data) past r.address) := by
  obtain ⟨b₀, hb₀, hnormal₀, hid₀⟩ := hr.loaded
  obtain ⟨b, hlive, hb, hm⟩ := hw.live b₀ (mem_loadedBlocks.mpr ⟨hb₀, hnormal₀⟩)
  rw [hid₀] at hb hm
  have hnew : drawnSlot Q r.draws.slot < Q.size := Nat.mod_lt _ hw.sound.size_pos
  have hlatest := latest_snoc PartitionRequest.written (loadedValue data) past r
  have hself : ∀ out : OramBlock D, (r.op ≠ .kWrite → out.payload = b.payload) →
      latest PartitionRequest.written (loadedValue data) (past ++ [r]) r.address =
        some (if r.op = .kWrite then r.buffer else out).payload := by
    intro out hout
    rw [hlatest, PartitionRequest.written]
    by_cases h : r.op = .kWrite
    · rw [if_pos ⟨h, rfl⟩, if_pos h, Option.some_or]
    · rw [if_neg fun hw => h hw.1, if_neg h, Option.none_or, hm, hout h]
  have hother : ∀ k, k ≠ r.address →
      latest PartitionRequest.written (loadedValue data) (past ++ [r]) k =
        latest PartitionRequest.written (loadedValue data) past k := by
    intro k hk
    rw [hlatest, PartitionRequest.written, if_neg fun hw => hk hw.2.symm, Option.none_or]
  have hstored : ∀ out : OramBlock D, out.id = r.address → out.isNormal = true →
      (if r.op = .kWrite then r.buffer else out).id = r.address ∧
        (if r.op = .kWrite then r.buffer else out).isNormal = true := by
    intro out hid hnormal
    split
    · exact hr.buffer_named ‹_›
    · exact ⟨hid, hnormal⟩
  have hread : ∀ out : OramBlock D, out.payload = b.payload → r.op = .kRead →
      some (if r.op = .kWrite then r.buffer else out).payload =
        latest PartitionRequest.written (loadedValue data) past r.address := by
    intro out hout h
    rw [h, if_neg nofun, hm, hout]
  by_cases hslot : b ∈ w.slots (w.positionMap.index r.address)
  · -- in the slot: the dummy access spares the live blocks
    obtain ⟨u, hfetch, hinv, hinit, hcont⟩ := fetch_hit hw.sound r.op r.draws hslot hb
    obtain ⟨hbid, hbnormal⟩ := hstored b hb (hw.sound.slot_normal _ b hslot)
    refine ⟨_, _, relocate_eq r.buffer hfetch, ?_, hread b rfl⟩
    refine hw.relocated hnew hinv hinit hbid hbnormal (fun c _ hlive _ hc => ?_)
      (hself b fun _ => rfl) hother
    rw [← hcont] at hc
    exact (Multiset.mem_add.mp hc).resolve_right fun hpath =>
      hsafe ⟨b, hslot, hb⟩ c (Multiset.mem_coe.mp hpath) hlive
  · -- in the Path ORAM: a read takes it out, a write overwrites it there
    rw [Live, hb] at hlive
    obtain ⟨hmiss, horam⟩ := hlive.resolve_left hslot
    obtain ⟨u, hfetch, hinv, hinit, hcont⟩ :=
      fetch_miss hw.sound hr.op_ne hr.pad_dummy hmiss horam hb
    have hout : r.op ≠ .kWrite → PathOramController.output r.op r.draws.garbage b = b :=
      fun h => if_neg h
    have hblock : (if r.op = .kWrite then r.buffer
        else PathOramController.output r.op r.draws.garbage b) =
        if r.op = .kWrite then r.buffer else b := by
      split
      · rfl
      next h => exact hout h
    obtain ⟨hbid, hbnormal⟩ := hstored b hb (isNormal_of_mem_contents horam)
    have hrelocate := relocate_eq r.buffer hfetch
    rw [hblock] at hrelocate
    refine ⟨_, _, hrelocate, ?_, hread b rfl⟩
    refine hw.relocated hnew hinv hinit hbid hbnormal (fun c hne _ _ hc => ?_)
      (hself b fun _ => rfl) hother
    rw [hcont, PathOramController.accessed]
    split
    · exact Multiset.mem_map.mpr ⟨c, hc, if_neg hne⟩
    · split
      · exact mem_dropKey.mpr ⟨hc, hne⟩
      · exact hc

/-- One eviction keeps the memory. -/
theorem evictRandom_holds {data : List (OramBlock D)} {m : ℕ → Option (D × ℕ)}
    {w : PartitionOramController C} (hw : Holds Q data m w) {draws : EvictDraws C}
    (hpad : ∀ l j, (draws.access.pad l j).isNormal = false) (hsafe : SafeEvict Q draws w)
    (garbage : OramBlock D) :
    ∃ w', evictRandom Q garbage draws w = (.ok (), w') ∧ Holds Q data m w' := by
  rw [evictRandom_eq hw.sound.size_pos]
  have hi : drawnSlot Q draws.slot < Q.size := Nat.mod_lt _ hw.sound.size_pos
  generalize hslot : drawnSlot Q draws.slot = i at *
  rcases hlast : (w.slots i).getLast? with _ | b
  · have hempty : w.slots i = [] := List.getLast?_eq_none_iff.mp hlast
    obtain ⟨u, hrun, hsound, hcont⟩ := evict_empty hw.sound hi hempty draws.access garbage
    refine ⟨_, hrun, hsound, fun b₀ hb₀ => ?_⟩
    obtain ⟨b, hlive, hid, hm⟩ := hw.live b₀ hb₀
    refine ⟨b, live_setOram hlive fun _ hb => ?_, hid, hm⟩
    rw [← hcont] at hb
    exact (Multiset.mem_add.mp hb).resolve_right fun hpath =>
      hsafe.empty (hslot ▸ hempty) b (by rw [hslot]; exact Multiset.mem_coe.mp hpath) hlive
  · obtain ⟨c, hc, hcid⟩ := hsafe.known b (hslot ▸ hlast)
    rw [hslot] at hc
    obtain ⟨u, hrun, hsound, hcont⟩ := evict_found hw.sound hi hlast hc hcid hpad garbage
    refine ⟨_, hrun, hsound, fun b₀ hb₀ => ?_⟩
    obtain ⟨d, hlive, hid, hm⟩ := hw.live b₀ hb₀
    have hbmem : b ∈ w.slots i := List.mem_of_getLast? hlast
    have hbat := hw.sound.slot_at i b hbmem
    -- the slot without its last block
    have hdrop : ∀ e, e ∈ (w.slots i).dropLast ↔ e ∈ w.slots i ∧ e.id ≠ b.id := by
      intro e
      have hsplit := List.dropLast_append_getLast? b hlast
      have hunique := hw.sound.slot_unique i
      rw [← hsplit, ← Multiset.coe_add] at hunique
      constructor
      · intro he
        exact ⟨List.mem_of_mem_dropLast he, hunique.ne_of_mem (Multiset.mem_coe.mpr he)
          (Multiset.mem_coe.mpr List.mem_cons_self)⟩
      · rintro ⟨he, hne⟩
        rw [← hsplit] at he
        exact (List.mem_append.mp he).resolve_right fun he =>
          hne (congrArg OramBlock.id (List.mem_singleton.mp he))
    by_cases hd : d.id = b.id
    · -- the evicted block: its copy in the Path ORAM has become the live one
      have hdb : d = b := by
        rw [Live, hd, hbat] at hlive
        rcases hlive with hslot | ⟨hno, -⟩
        · exact (hw.sound.slot_unique i).eq_of_key_eq (Multiset.mem_coe.mpr hslot)
            (Multiset.mem_coe.mpr hbmem) hd
        · exact absurd rfl (hno b hbmem)
      subst hdb
      refine ⟨c.store d, .inr ⟨fun e he => ?_, ?_⟩, hcid.trans hid, hm⟩
      · rw [OramBlock.store_id, hcid, setOram_slots, setOram_positionMap, setSlot_positionMap, hbat,
          setSlot_slots_self] at he
        rw [OramBlock.store_id, hcid]
        exact ((hdrop e).mp he).2
      · rw [OramBlock.store_id, hcid, setOram_positionMap, setSlot_positionMap, hbat, oramBlocks,
          setOram_orams_self, hcont]
        exact Multiset.mem_map.mpr ⟨c, hc, if_pos hcid⟩
    · -- any other block
      refine ⟨d, live_setOram ?_ fun _ hmem => ?_, hid, hm⟩
      · rcases hlive with hslot | ⟨hno, horam⟩
        · refine .inl ?_
          by_cases h : w.positionMap.index d.id = i
          · rw [setSlot_positionMap, h, setSlot_slots_self]
            exact (hdrop d).mpr ⟨h ▸ hslot, hd⟩
          · rw [setSlot_positionMap, setSlot_slots_ne h]
            exact hslot
        · refine .inr ⟨fun e he => ?_, horam⟩
          by_cases h : w.positionMap.index d.id = i
          · rw [setSlot_positionMap, h, setSlot_slots_self] at he
            exact hno e (h ▸ ((hdrop e).mp he).1)
          · rw [setSlot_positionMap, setSlot_slots_ne h] at he
            exact hno e he
      · rw [hcont]
        exact Multiset.mem_map.mpr ⟨d, hmem, if_neg hd⟩

/-- A whole access. -/
theorem access_holds {data : List (OramBlock D)} {past : List (PartitionRequest C)}
    {r : PartitionRequest C} (hr : r.Proper data) {w : PartitionOramController C}
    (hw : Holds Q data (latest PartitionRequest.written (loadedValue data) past) w)
    (hsafe : SafeAccess Q r w) :
    ∃ out w', r.run Q w = (.ok out, w') ∧
      Holds Q data (latest PartitionRequest.written (loadedValue data) (past ++ [r])) w' ∧
      (r.op = .kRead →
        some out.payload = latest PartitionRequest.written (loadedValue data) past r.address) := by
  obtain ⟨out, w₁, hrelocate, hw₁, hread⟩ := relocate_holds hr hw hsafe.fetch
  have hgood : ∀ d ∈ r.evictions Q, ∀ l j, (d.access.pad l j).isNormal = false := by
    intro d hd
    obtain ⟨i, -, rfl⟩ := List.mem_map.mp hd
    exact hr.evict_pad_dummy i
  obtain ⟨w₂, hevict, hw₂⟩ := Prog.forEach_total
    (Holds Q data (latest PartitionRequest.written (loadedValue data) (past ++ [r])))
    (fun d w hd hw => evictRandom_holds hw hd.1 hd.2 r.draws.garbage)
    (r.evictions Q) w₁ hw₁ ((hsafe.evict out w₁ hrelocate).and hgood)
  exact ⟨out, w₂, access_eq_ok hrelocate hevict, hw₂, hread⟩

end PartitionOramController

/-- **A Partition ORAM whose steps do no harm is a memory.** After a load, if
every access of a run is safe in the state it is made in, then no access aborts,
and a read returns what the latest write has left, or the loaded value. -/
theorem partitionOram_refines_memory (hbucket : Q.bucketSize < 256) {data : List (OramBlock D)}
    {fill : ℕ → FillDraws C} {w : PartitionOramController C}
    (hfill : PartitionOramController.fillWithData Q data fill (PartitionOramController.new C Q) =
      (.ok (), w))
    (hids : UniqueKeys OramBlock.id (loadedBlocks data))
    (hpad : ∀ i t j, ((fill i).pad t j).isNormal = false)
    (past : List (PartitionRequest C)) (r : PartitionRequest C)
    (hproper : ∀ q ∈ past ++ [r], q.Proper data)
    (hsafe : Prog.Along Exit.fatal (PartitionRequest.run Q) (SafeAccess Q) (past ++ [r]) w) :
    ∃ (outs : List (OramBlock D)) (w' : PartitionOramController C) (out : OramBlock D)
        (w'' : PartitionOramController C),
      Prog.trace Exit.fatal (PartitionRequest.run Q) past w = some (outs.map .ok, w') ∧
      r.run Q w' = (.ok out, w'') ∧
      (r.op = .kRead →
        some out.payload =
          latest PartitionRequest.written (loadedValue data) past r.address) := by
  have hloaded := loaded_of_fillWithData hbucket hfill hids hpad
  have hstart : Holds Q data (loadedValue data) w := by
    refine ⟨hloaded.sound, fun b hb => ⟨b, hloaded.live hb, rfl, ?_⟩⟩
    exact (stores_loadedBlocks hids).get hb
  obtain ⟨hpast, hlast⟩ := hsafe.append
  obtain ⟨outs, w', hrun, hw'⟩ := Prog.trace_total Exit.fatal
    (fun (q : PartitionRequest C) w => q.Proper data ∧ SafeAccess Q q w)
    (fun past w => Holds Q data (latest PartitionRequest.written (loadedValue data) past) w)
    (fun past q _ w _ hq hw => by
      obtain ⟨out, w', hrun, hw', -⟩ := access_holds hq.1 hw hq.2
      exact ⟨out, w', hrun, hw'⟩)
    hstart (hpast.and fun q hq => hproper q (List.mem_append_left _ hq))
  obtain ⟨out, w'', hrun', -, hread⟩ :=
    access_holds (hproper r (List.mem_append_right _ List.mem_cons_self)) hw'
      (hlast _ _ hrun).1
  exact ⟨outs, w', out, w'', hrun, hrun', hread⟩

/-! ### A small instance -/

/-- One partition: a tree of one bucket of two blocks. -/
def onePartition (nu : ℕ) : PartitionOramConfig := .run 1 2 nu

def onePartitionData : List (OramBlock ℕ) := [smallBlock 0 10, dummyBlock]

def onePartitionDraws : PartitionDraws (Codec.plain ℕ) :=
  ⟨0, dummyBlock, smallDraws, fun _ => ⟨0, smallDraws⟩⟩

/-- The controller after the load. -/
def onePartitionLoaded (nu : ℕ) : PartitionOramController (Codec.plain ℕ) :=
  (PartitionOramController.fillWithData (onePartition nu) onePartitionData (fun _ => smallFill)
    (PartitionOramController.new _ (onePartition nu))).2

def readZero : PartitionRequest (Codec.plain ℕ) := ⟨.kRead, 0, dummyBlock, onePartitionDraws⟩

def writeZero : PartitionRequest (Codec.plain ℕ) := ⟨.kWrite, 0, smallBlock 0 11, onePartitionDraws⟩

theorem onePartition_fill (nu : ℕ) :
    PartitionOramController.fillWithData (onePartition nu) onePartitionData (fun _ => smallFill)
      (PartitionOramController.new _ (onePartition nu)) = (.ok (), onePartitionLoaded nu) := by
  have hlen : onePartitionData.length = (onePartition nu).treeSize * (onePartition nu).size := by
    show 2 = (onePartition 0).treeSize * (onePartition 0).size
    decide
  have hids : UniqueKeys OramBlock.id (loadedBlocks onePartitionData) := by decide
  obtain ⟨w, hfill, -⟩ := partition_fillWithData_spec (Q := onePartition nu)
    (show 2 < 256 by decide) (show 1 ≠ 0 by decide) hlen hids (fun _ => smallFill_pad)
  rw [hfill, onePartitionLoaded, hfill]

/-- The evictions of an access go on from the one state that its first half leaves. -/
theorem eachEviction_of_relocate {cond : EvictDraws C → PartitionOramController C → Prop}
    {r : PartitionRequest C} {w : PartitionOramController C}
    (h : Prog.EachTime (evictRandom Q r.draws.garbage) cond (r.evictions Q)
      (relocate Q r.op r.address r.buffer r.draws w).2) (out : OramBlock D)
    (w' : PartitionOramController C)
    (hrun : relocate Q r.op r.address r.buffer r.draws w = (.ok out, w')) :
    Prog.EachTime (evictRandom Q r.draws.garbage) cond (r.evictions Q) w' := by
  rwa [hrun] at h

/-- Two partitions, each with a tree of three buckets of one block, and an
eviction for every access: what `Run` makes of four blocks. -/
def twoPartitions : PartitionOramConfig := ⟨2, 1, 1⟩

def twoPartitionsData : List (OramBlock ℕ) :=
  [smallBlock 0 10, dummyBlock, dummyBlock, smallBlock 1 20, dummyBlock, dummyBlock]

/-- The controller after the load: each block is on the left path of its tree. -/
def twoPartitionsLoaded : PartitionOramController (Codec.plain ℕ) :=
  (PartitionOramController.fillWithData twoPartitions twoPartitionsData (fun _ => smallFill)
    (PartitionOramController.new _ twoPartitions)).2

theorem twoPartitions_fill :
    PartitionOramController.fillWithData twoPartitions twoPartitionsData (fun _ => smallFill)
      (PartitionOramController.new _ twoPartitions) = (.ok (), twoPartitionsLoaded) := rfl

/-- The block goes to `slot`, and `evicted` is the slot that is evicted. A path
that is sampled is the right one. -/
def twoDraws (slot evicted : ℕ) : PartitionDraws (Codec.plain ℕ) :=
  ⟨slot, dummyBlock, smallDraws, fun _ => ⟨evicted, smallDraws⟩⟩

def readTwo (a slot evicted : ℕ) : PartitionRequest (Codec.plain ℕ) :=
  ⟨.kRead, a, dummyBlock, twoDraws slot evicted⟩

def writeTwo (a v slot evicted : ℕ) : PartitionRequest (Codec.plain ℕ) :=
  ⟨.kWrite, a, smallBlock a v, twoDraws slot evicted⟩

theorem readTwo_proper {a slot evicted : ℕ}
    (ha : ∃ b ∈ twoPartitionsData, b.isNormal = true ∧ b.id = a) :
    (readTwo a slot evicted).Proper twoPartitionsData where
  op_valid := .inl rfl
  loaded := ha
  pad_dummy := fun _ _ => rfl
  evict_pad_dummy := fun _ _ _ => rfl
  buffer_named := nofun

theorem writeTwo_proper {a v slot evicted : ℕ}
    (ha : ∃ b ∈ twoPartitionsData, b.isNormal = true ∧ b.id = a) :
    (writeTwo a v slot evicted).Proper twoPartitionsData where
  op_valid := .inr rfl
  loaded := ha
  pad_dummy := fun _ _ => rfl
  evict_pad_dummy := fun _ _ _ => rfl
  buffer_named := fun _ => ⟨rfl, rfl⟩

/-- Block 0 is written and evicted to the Path ORAM that still has its old value;
block 1 takes its place in the slot, and the empty slot behind it makes a fake
write. Then block 0 is read. -/
theorem partitionOram_refines_memory_small :
    ∃ (outs : List (OramBlock ℕ)) (w' : _) (out : _) (w'' : _),
      Prog.trace Exit.fatal (PartitionRequest.run twoPartitions)
        [writeTwo 0 11 0 0, readTwo 1 0 1] twoPartitionsLoaded = some (outs.map .ok, w') ∧
      (readTwo 0 0 1).run twoPartitions w' = (.ok out, w'') ∧ out.payload = (11, 1) := by
  have hproper : ∀ q ∈ [writeTwo 0 11 0 0, readTwo 1 0 1] ++ [readTwo 0 0 1],
      q.Proper twoPartitionsData := by
    intro q hq
    simp only [List.cons_append, List.nil_append, List.mem_cons, List.not_mem_nil, or_false] at hq
    rcases hq with rfl | rfl | rfl
    · exact writeTwo_proper ⟨smallBlock 0 10, by decide⟩
    · exact readTwo_proper ⟨smallBlock 1 20, by decide⟩
    · exact readTwo_proper ⟨smallBlock 0 10, by decide⟩
  have hsafe : Prog.Along Exit.fatal (PartitionRequest.run twoPartitions)
      (SafeAccess twoPartitions) ([writeTwo 0 11 0 0, readTwo 1 0 1] ++ [readTwo 0 0 1])
      twoPartitionsLoaded := by
    -- none of the three finds its block in the slot
    refine .cons ⟨fun h => absurd h (by decide), eachEviction_of_relocate ⟨⟨?_, ?_⟩, ?_⟩⟩
      (.cons ⟨fun h => absurd h (by decide), eachEviction_of_relocate ⟨⟨?_, ?_⟩, ?_⟩⟩
        (.cons ⟨fun h => absurd h (by decide), eachEviction_of_relocate ⟨⟨?_, ?_⟩, ?_⟩⟩ trivial))
    · exact fun h => absurd h (by decide)
    · rintro b ⟨⟩
      exact ⟨(smallBlock 0 10).store dummyBlock, by decide +kernel, rfl⟩
    · exact fun _ _ _ => trivial
    · exact fun _ c hc => absurd hc (by decide +revert +kernel)
    · exact fun b h => absurd h (by decide +revert +kernel)
    · exact fun _ _ _ => trivial
    · exact fun _ c hc => absurd hc (by decide +revert +kernel)
    · exact fun b h => absurd h (by decide +revert +kernel)
    · exact fun _ _ _ => trivial
  obtain ⟨outs, w', out, w'', hpast, hrun, hread⟩ := partitionOram_refines_memory
    (by decide) twoPartitions_fill (by decide) (fun _ => smallFill_pad)
    [writeTwo 0 11 0 0, readTwo 1 0 1] (readTwo 0 0 1) hproper hsafe
  exact ⟨outs, w', out, w'', hpast, hrun, Option.some.inj (hread rfl)⟩

/-- With one eviction, the first read of a loaded address aborts: the block has
left the Path ORAM, and the eviction cannot put it back. -/
theorem partition_read_aborts :
    outcomeCode (PartitionOramController.fillWithData (onePartition 1) onePartitionData
      (fun _ => smallFill) (PartitionOramController.new _ (onePartition 1))).1 = some .kOK ∧
    outcomeCode (readZero.run (onePartition 1) (onePartitionLoaded 1)).1 = none := by
  decide

/-! ## When every address is stored once

A write to a block that is not in its slot leaves a second copy behind, and a dummy
access loses those on the path that it samples. `CarefulAccess` excludes both, for the
access and for each of its evictions. -/

namespace PartitionOramController

/-- How many blocks of slot `i` carry the id `a`. -/
def slotCopies (w : PartitionOramController C) (i a : ℕ) : ℕ :=
  (w.slots i).countP fun b => b.id = a

/-- How many real blocks of Path ORAM `i` carry the id `a`. -/
def oramCopies (Q : PartitionOramConfig) (w : PartitionOramController C) (i a : ℕ) : ℕ :=
  ((oramBlocks Q w i).map OramBlock.id).count a

/-- The address is stored exactly once in the whole system: in the slot its
position names or in the Path ORAM behind that slot, and nowhere else. -/
def StoredOnce (Q : PartitionOramConfig) (w : PartitionOramController C) (a : ℕ) : Prop :=
  w.positionMap.index a < Q.size ∧
    (slotCopies w (w.positionMap.index a) a = 1 ∧ oramCopies Q w (w.positionMap.index a) a = 0 ∨
      slotCopies w (w.positionMap.index a) a = 0 ∧ oramCopies Q w (w.positionMap.index a) a = 1) ∧
    ∀ j < Q.size, j ≠ w.positionMap.index a → slotCopies w j a = 0 ∧ oramCopies Q w j a = 0

/-- The invariant behind it: every loaded address has a live copy, and the Path
ORAMs hold no other copies. -/
structure Exact (Q : PartitionOramConfig) (data : List (OramBlock D))
    (w : PartitionOramController C) : Prop where
  sound : Sound Q w
  live : ∀ b₀ ∈ loadedBlocks data, ∃ b, Live Q w b ∧ b.id = b₀.id
  oram_live : ∀ i < Q.size, ∀ b ∈ oramBlocks Q w i,
    w.positionMap.index b.id = i ∧ ∀ c ∈ w.slots i, c.id ≠ b.id

/-- A slot has no two blocks of one id. -/
theorem Sound.slotCopies_eq_one {w : PartitionOramController C} (hw : Sound Q w) {i : ℕ}
    {b : OramBlock D} (hb : b ∈ w.slots i) : slotCopies w i b.id = 1 := by
  have hcount := (hw.slot_unique i).count_eq_one (Multiset.mem_coe.mpr hb)
  rw [Multiset.map_coe, Multiset.coe_count, List.count, List.countP_map] at hcount
  rw [slotCopies, ← hcount]
  exact List.countP_congr fun c _ => by simp

theorem slotCopies_eq_zero {w : PartitionOramController C} {i a : ℕ} :
    slotCopies w i a = 0 ↔ ∀ b ∈ w.slots i, b.id ≠ a := by
  simp [slotCopies, List.countP_eq_zero]

theorem oramCopies_eq_zero {w : PartitionOramController C} {i a : ℕ} :
    oramCopies Q w i a = 0 ↔ ∀ b ∈ oramBlocks Q w i, b.id ≠ a := by
  simp [oramCopies, Multiset.count_eq_zero]

/-- Where every loaded block has one place, its address is stored once. -/
theorem Exact.storedOnce {data : List (OramBlock D)} {w : PartitionOramController C}
    (hw : Exact Q data w) {b₀ : OramBlock D} (hb₀ : b₀ ∈ loadedBlocks data) :
    StoredOnce Q w b₀.id := by
  obtain ⟨b, hlive, hid⟩ := hw.live b₀ hb₀
  rw [← hid]
  have hlt := hw.sound.position_lt b.id
  refine ⟨hlt, ?_, fun j hj hne => ⟨slotCopies_eq_zero.mpr fun c hc he => ?_,
    oramCopies_eq_zero.mpr fun c hc he => ?_⟩⟩
  · rcases hlive with hslot | ⟨hno, horam⟩
    · refine .inl ⟨hw.sound.slotCopies_eq_one hslot, oramCopies_eq_zero.mpr fun c hc he => ?_⟩
      exact (hw.oram_live _ hlt c hc).2 b hslot he.symm
    · exact .inr ⟨slotCopies_eq_zero.mpr hno,
        (hw.sound.oram_inv _ hlt).unique.count_eq_one horam⟩
  · exact hne (he ▸ (hw.sound.slot_at j c hc).symm)
  · exact hne (he ▸ (hw.oram_live j hj c hc).1.symm)

/-- An eviction under which nothing is lost: from an empty slot, the sampled
path holds no real block. (From another slot it does not return at all.) -/
def CarefulEvict (Q : PartitionOramConfig) (draws : EvictDraws C)
    (w : PartitionOramController C) : Prop :=
  w.slots (drawnSlot Q draws.slot) = [] →
    sampledPath Q w (drawnSlot Q draws.slot) draws.access = []

/-- An access under which nothing is lost or left behind: a write finds its
block in the slot, and no dummy access samples a path with a real block. -/
structure CarefulAccess (Q : PartitionOramConfig) (r : PartitionRequest C)
    (w : PartitionOramController C) : Prop where
  fetch : (∃ b ∈ w.slots (w.positionMap.index r.address), b.id = r.address) →
    sampledPath Q w (w.positionMap.index r.address) r.draws.access = []
  write_hit : r.op = .kWrite → ∃ b ∈ w.slots (w.positionMap.index r.address), b.id = r.address
  evict : ∀ out w', relocate Q r.op r.address r.buffer r.draws w = (.ok out, w') →
    Prog.EachTime (evictRandom Q r.draws.garbage) (CarefulEvict Q) (r.evictions Q) w'

/-- A relocation after which no Path ORAM holds the address any more. -/
theorem Exact.relocated {data : List (OramBlock D)} {w : PartitionOramController C}
    (hw : Exact Q data w) {a newSlot : ℕ} (hnew : newSlot < Q.size)
    {u : PathSystem D (TreeOramServerStorage C)}
    (hu : u.Inv (Q.oram (w.positionMap.index a))) (hinit : u.client.isInitialized = true)
    {block : OramBlock D} (hid : block.id = a) (hnormal : block.isNormal = true)
    (hblocks : ∀ c, c ∈ u.contents (Q.oram (w.positionMap.index a)) ↔
      c ∈ oramBlocks Q w (w.positionMap.index a) ∧ c.id ≠ a) :
    Exact Q data (relocated a newSlot u block w) where
  sound := hw.sound.relocated hnew hu hinit hid hnormal
  live := by
    intro b₀ hb₀
    by_cases h : b₀.id = a
    · exact ⟨block, live_relocated_self hid, hid.trans h.symm⟩
    · obtain ⟨b, hlive, hb⟩ := hw.live b₀ hb₀
      have hne : b.id ≠ a := fun he => h (hb.symm.trans he)
      exact ⟨b, live_relocated_ne hid hne hlive fun _ hmem => (hblocks b).mpr ⟨hmem, hne⟩, hb⟩
  oram_live := by
    intro i hi c hc
    -- the block was there before, and is not of the address that moved
    have hold : c ∈ oramBlocks Q w i ∧ c.id ≠ a := by
      by_cases h : i = w.positionMap.index a
      · subst h
        rw [oramBlocks_relocated_self] at hc
        exact (hblocks c).mp hc
      · rw [oramBlocks_relocated_ne Q newSlot u block h] at hc
        exact ⟨hc, fun he => h (he ▸ (hw.oram_live i hi c hc).1.symm)⟩
    obtain ⟨hindex, hno⟩ := hw.oram_live i hi c hold.1
    refine ⟨(relocated_index_ne hold.2 u block w).trans hindex, fun d hd hdc => ?_⟩
    exact hno d ((mem_relocated_slots hid (hdc ▸ hold.2)).mp hd) hdc

/-- The first half of a careful access leaves every address with one place. -/
theorem relocate_exact {data : List (OramBlock D)} {r : PartitionRequest C} (hr : r.Proper data)
    {w : PartitionOramController C} (hw : Exact Q data w) (hcare : CarefulAccess Q r w) :
    ∃ out w', relocate Q r.op r.address r.buffer r.draws w = (.ok out, w') ∧ Exact Q data w' := by
  obtain ⟨b₀, hb₀, hnormal₀, hid₀⟩ := hr.loaded
  obtain ⟨b, hlive, hb⟩ := hw.live b₀ (mem_loadedBlocks.mpr ⟨hb₀, hnormal₀⟩)
  rw [hid₀] at hb
  have hnew : drawnSlot Q r.draws.slot < Q.size := Nat.mod_lt _ hw.sound.size_pos
  by_cases hslot : b ∈ w.slots (w.positionMap.index r.address)
  · obtain ⟨u, hfetch, hinv, hinit, hcont⟩ := fetch_hit hw.sound r.op r.draws hslot hb
    rw [hcare.fetch ⟨b, hslot, hb⟩, Multiset.coe_nil, add_zero] at hcont
    have hstored : (if r.op = .kWrite then r.buffer else b).id = r.address ∧
        (if r.op = .kWrite then r.buffer else b).isNormal = true := by
      split
      · exact hr.buffer_named ‹_›
      · exact ⟨hb, hw.sound.slot_normal _ b hslot⟩
    refine ⟨_, _, relocate_eq r.buffer hfetch,
      hw.relocated hnew hinv hinit hstored.1 hstored.2 fun c => ?_⟩
    rw [hcont]
    refine ⟨fun hc => ⟨hc, fun he => ?_⟩, And.left⟩
    exact (hw.oram_live _ (hw.sound.position_lt _) c hc).2 b hslot (hb.trans he.symm)
  · rw [Live, hb] at hlive
    obtain ⟨hmiss, horam⟩ := hlive.resolve_left hslot
    have hop : r.op = .kRead := hr.op_valid.resolve_right fun h => by
      obtain ⟨c, hc, hca⟩ := hcare.write_hit h
      exact hmiss c hc hca
    obtain ⟨u, hfetch, hinv, hinit, hcont⟩ :=
      fetch_miss hw.sound hr.op_ne hr.pad_dummy hmiss horam hb
    have hrelocate := relocate_eq r.buffer hfetch
    rw [hop, PathOramController.output, if_neg (by decide), if_neg (by decide)] at hrelocate
    rw [hop]
    refine ⟨b, _, hrelocate,
      hw.relocated hnew hinv hinit hb (isNormal_of_mem_contents horam) fun c => ?_⟩
    have hembedded : (Q.oram (w.positionMap.index r.address)).standalone = false := rfl
    rw [hcont, PathOramController.accessed, hop, if_neg (by decide), if_pos hembedded]
    exact mem_dropKey

/-- Careful evictions leave every address with one place. -/
theorem evictRandom_exact {data : List (OramBlock D)} {w w' : PartitionOramController C}
    (hw : Exact Q data w) {draws : EvictDraws C} (hcare : CarefulEvict Q draws w)
    {garbage : OramBlock D} (hrun : evictRandom Q garbage draws w = (.ok (), w')) :
    Exact Q data w' := by
  rw [evictRandom_eq hw.sound.size_pos] at hrun
  have hi : drawnSlot Q draws.slot < Q.size := Nat.mod_lt _ hw.sound.size_pos
  rw [CarefulEvict] at hcare
  generalize drawnSlot Q draws.slot = i at *
  rcases hlast : (w.slots i).getLast? with _ | b
  · have hempty : w.slots i = [] := List.getLast?_eq_none_iff.mp hlast
    obtain ⟨u, hevict, hsound, hcont⟩ := evict_empty hw.sound hi hempty draws.access garbage
    rw [hcare hempty, Multiset.coe_nil, add_zero] at hcont
    cases hevict.symm.trans hrun
    have hsame : ∀ j, oramBlocks Q (setOram i u w) j = oramBlocks Q w j := by
      intro j
      by_cases h : j = i
      · rw [h, oramBlocks, setOram_orams_self, hcont]
      · rw [oramBlocks, setOram_orams_ne h, oramBlocks]
    refine ⟨hsound, fun b₀ hb₀ => ?_, fun j hj c hc => hw.oram_live j hj c (hsame j ▸ hc)⟩
    obtain ⟨b, hlive, hid⟩ := hw.live b₀ hb₀
    exact ⟨b, live_setOram hlive fun _ hb => hcont.symm ▸ hb, hid⟩
  · -- the Path ORAM behind the slot cannot know the block: it is in the slot
    have hmiss : ∀ c ∈ oramBlocks Q w i, c.id ≠ b.id := fun c hc he =>
      (hw.oram_live i hi c hc).2 b (List.mem_of_getLast? hlast) he.symm
    obtain ⟨st, w₁, hevict⟩ := evict_missing hw.sound hi hlast hmiss draws.access garbage
    cases hevict.symm.trans hrun

/-- A whole access, if the process survives it. -/
theorem access_exact {data : List (OramBlock D)} {r : PartitionRequest C} (hr : r.Proper data)
    {w w' : PartitionOramController C} {out : Except Exit (OramBlock D)} (hw : Exact Q data w)
    (hcare : CarefulAccess Q r w)
    (hrun : Prog.survive Exit.fatal (r.run Q) w = some (out, w')) : Exact Q data w' := by
  obtain ⟨block, w₁, hrelocate, hw₁⟩ := relocate_exact hr hw hcare
  obtain ⟨hrun, hfatal⟩ := Prog.eq_of_survive hrun
  rw [PartitionRequest.run, access, Prog.bind_ok hrelocate] at hrun
  rcases hevict : checkStatus "Failed to perform eviction!"
      (randomEvict Q r.draws.garbage (r.evictions Q)) w₁ with ⟨e | _, w₂⟩
  · rw [PartitionRequest.evictions] at hevict
    rw [Prog.bind_error hevict] at hrun
    cases hrun
    exact Bool.noConfusion ((fatal_of_checkStatus hevict).symm.trans (hfatal e rfl))
  · have hloop : randomEvict Q r.draws.garbage (r.evictions Q) w₁ = (.ok (), w₂) := by
      rw [checkStatus, Prog.mapError] at hevict
      rcases hm : randomEvict Q r.draws.garbage (r.evictions Q) w₁ with ⟨e | _, w₃⟩
      · rw [hm] at hevict
        cases hevict
      · rw [hm] at hevict
        cases hevict
        rfl
    rw [PartitionRequest.evictions] at hevict
    rw [Prog.bind_ok hevict] at hrun
    cases hrun
    exact Prog.forEach_ok (Exact Q data)
      (fun d w w' hd hw hstep => evictRandom_exact hw hd hstep) (r.evictions Q) w₁ w' hw₁
      (hcare.evict block w₁ hrelocate) hloop

end PartitionOramController

/-- **In a run whose steps are careful, every loaded address is stored once.** -/
theorem partitionOram_stores_once (hbucket : Q.bucketSize < 256) {data : List (OramBlock D)}
    {fill : ℕ → FillDraws C} {w : PartitionOramController C}
    (hfill : PartitionOramController.fillWithData Q data fill (PartitionOramController.new C Q) =
      (.ok (), w))
    (hids : UniqueKeys OramBlock.id (loadedBlocks data))
    (hpad : ∀ i t j, ((fill i).pad t j).isNormal = false)
    (requests : List (PartitionRequest C)) (hproper : ∀ r ∈ requests, r.Proper data)
    (hcare : Prog.Along Exit.fatal (PartitionRequest.run Q) (CarefulAccess Q) requests w)
    {outs : List (Except Exit (OramBlock D))} {w' : PartitionOramController C}
    (hrun : Prog.trace Exit.fatal (PartitionRequest.run Q) requests w = some (outs, w')) :
    ∀ b ∈ data, b.isNormal = true → StoredOnce Q w' b.id := by
  have hloaded := loaded_of_fillWithData hbucket hfill hids hpad
  have hstart : Exact Q data w := by
    refine ⟨hloaded.sound, fun b hb => ⟨b, hloaded.live hb, rfl⟩, fun i hi b hb => ?_⟩
    refine ⟨(hloaded.only i hi b hb).2, fun c hc => ?_⟩
    rw [hloaded.slots_empty] at hc
    exact absurd hc List.not_mem_nil
  have hend := Prog.trace_history Exit.fatal
    (fun (r : PartitionRequest C) w => r.Proper data ∧ CarefulAccess Q r w)
    (fun _ w => Exact Q data w)
    (fun _ r w out w' hr hw hstep => access_exact hr.1 hw hr.2 hstep)
    [] hstart (hcare.and hproper) hrun
  exact fun b hb hnormal => hend.storedOnce (mem_loadedBlocks.mpr ⟨hb, hnormal⟩)

/-- Block 0 is read from its Path ORAM, written in its slot and read from the
other slot. Each access ends with the fake eviction of an empty slot, the first
and the third one of a Path ORAM that holds a block. -/
theorem partitionOram_stores_once_small :
    ∃ outs w', Prog.trace Exit.fatal (PartitionRequest.run twoPartitions)
        [readTwo 0 0 1, writeTwo 0 11 1 0, readTwo 0 0 1] twoPartitionsLoaded = some (outs, w') ∧
      StoredOnce twoPartitions w' 0 ∧ StoredOnce twoPartitions w' 1 := by
  have hproper : ∀ q ∈ [readTwo 0 0 1, writeTwo 0 11 1 0, readTwo 0 0 1],
      q.Proper twoPartitionsData := by
    intro q hq
    simp only [List.mem_cons, List.not_mem_nil, or_false] at hq
    rcases hq with rfl | rfl | rfl
    · exact readTwo_proper ⟨smallBlock 0 10, by decide⟩
    · exact writeTwo_proper ⟨smallBlock 0 10, by decide⟩
    · exact readTwo_proper ⟨smallBlock 0 10, by decide⟩
  have hcare : Prog.Along Exit.fatal (PartitionRequest.run twoPartitions)
      (CarefulAccess twoPartitions) [readTwo 0 0 1, writeTwo 0 11 1 0, readTwo 0 0 1]
      twoPartitionsLoaded := by
    refine .cons ⟨fun h => absurd h (by decide), nofun, eachEviction_of_relocate ⟨?_, ?_⟩⟩
      (.cons ⟨fun _ => ?_, fun _ => ⟨smallBlock 0 10, ?_⟩, eachEviction_of_relocate ⟨?_, ?_⟩⟩
        (.cons ⟨fun _ => ?_, nofun, eachEviction_of_relocate ⟨?_, ?_⟩⟩ trivial))
    -- no path that is sampled holds a block
    · exact fun _ => by decide
    · exact fun _ _ _ => trivial
    · decide
    · decide
    · exact fun _ => by decide
    · exact fun _ _ _ => trivial
    · decide
    · exact fun _ => by decide
    · exact fun _ _ _ => trivial
  obtain ⟨outs, w', hrun⟩ : ∃ outs w', Prog.trace Exit.fatal (PartitionRequest.run twoPartitions)
      [readTwo 0 0 1, writeTwo 0 11 1 0, readTwo 0 0 1] twoPartitionsLoaded = some (outs, w') :=
    ⟨_, _, rfl⟩
  have honce := partitionOram_stores_once (by decide) twoPartitions_fill (by decide)
    (fun _ => smallFill_pad) _ hproper hcare hrun
  exact ⟨outs, w', hrun, honce (smallBlock 0 10) (by decide) rfl,
    honce (smallBlock 1 20) (by decide) rfl⟩

/-- A write of a block that is not in its slot leaves a second copy in the Path ORAM. -/
theorem partition_write_leaves_copy :
    outcomeCode (writeZero.run (onePartition 0) (onePartitionLoaded 0)).1 = some .kOK ∧
      ¬StoredOnce (onePartition 0)
        (writeZero.run (onePartition 0) (onePartitionLoaded 0)).2 0 := by
  refine ⟨by decide, ?_⟩
  rw [StoredOnce]
  decide

end ObliviousRam
