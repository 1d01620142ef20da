import ObliviousRam.PathReplay
import ObliviousRam.SharedPartition

set_option autoImplicit false

/-!
# A Partition ORAM on a server that replays

The Path ORAMs of the partitions make nothing up, but `Access` does not look at
their status: a block that a server withholds is replaced by the local `block`,
which is not initialised. So what a read returns was given to the address, or is
what was in such a local block, now or in an earlier access.
-/

namespace ObliviousRam

variable {D σ : Type} {C : Codec D} {Q : PartitionOramConfig}

/-- The stub of a server that can only replay. -/
structure ForestStub.Replays (knows : σ → C.Sealed → Prop) (S : ForestStub C σ) : Prop where
  init : ∀ P, (S.initTreeOram P).Replays knows (fun _ => False) fun _ _ => False
  tree : ∀ i, (S.tree i).Replays knows

namespace PartitionSystem

open PathOramController (Returned)

/-- The call gives `a` the value `v`. What the local block of an access holds can get to
any address. -/
def Call.Offers : Call C → ℕ → D × ℕ → Prop
  | .fillWithData data _, a, v => ∃ b ∈ data, b.isNormal = true ∧ b.id = a ∧ b.payload = v
  | .access op _ buffer draws, a, v =>
    op = .kWrite ∧ buffer.id = a ∧ buffer.payload = v ∨ v = draws.garbage.payload

/-- The padding does not pose as data. -/
def Call.PadsDummy : Call C → Prop
  | .fillWithData _ draws => ∀ j t i, ((draws j).pad t i).isNormal = false
  | .access _ _ _ draws => (∀ l j, (draws.access.pad l j).isNormal = false) ∧
    ∀ i l j, ((draws.evict i).access.pad l j).isNormal = false

/-- All that the server knows, and all that the client keeps, has a value that was given. -/
structure Faithful (knows : σ → C.Sealed → Prop) (V : ℕ → D × ℕ → Prop)
    (w : PartitionSystem D σ) : Prop where
  server : Prog.Only knows (fun c => (C.decryptBlock c).2.Vouched OramBlock.payload V) w.server
  stashes : ∀ p ∈ w.client.pathOramControllers, ∀ b ∈ p.2.stash, b.Vouched OramBlock.payload V
  slots : ∀ blocks ∈ w.client.slots, ∀ b ∈ blocks, V b.id b.payload

variable {knows : σ → C.Sealed → Prop} {S : ForestStub C σ} {V : ℕ → D × ℕ → Prop}

/-! ## The containers

The client keeps blocks, too: in its slots and in the stashes of its Path ORAMs.
`Faithful` is about them as well as about what the server knows. -/

/-- An update that leaves the containers alone makes nothing up. -/
theorem yields_update {f : PartitionMembers D → PartitionMembers D}
    (hcontrollers : ∀ c, (f c).pathOramControllers = c.pathOramControllers)
    (hslots : ∀ c, (f c).slots = c.slots) :
    Prog.Yields (Faithful knows V) (update (ε := Exit) f) fun _ => True :=
  .modify fun w hw => ⟨hw.server, (hcontrollers w.client).symm ▸ hw.stashes,
    (hslots w.client).symm ▸ hw.slots⟩

/-- A call of one of the Path ORAMs has the promises of `PathReplay`. -/
theorem yields_onController {α : Type} (i : ℕ) {m : PathOramConfig → Prog Exit (PathSystem D σ) α}
    {R : α → Prop} (hm : ∀ P, (m P).Yields (PathOramController.Faithful knows V) R) :
    Prog.Yields (Faithful knows V) (onController i m) R := by
  have hstart : ∀ {w : PartitionSystem D σ} {P c}, Faithful knows V w →
      w.client.pathOramControllers[i]? = some (P, c) →
        PathOramController.Faithful knows V ⟨c, w.server⟩ :=
    fun hw h => ⟨hw.server, hw.stashes _ (List.mem_of_getElem? h)⟩
  have hend : ∀ {w : PartitionSystem D σ} {P} {u : PathSystem D σ}, Faithful knows V w →
      PathOramController.Faithful knows V u → Faithful knows V ⟨{ w.client with
        pathOramControllers := w.client.pathOramControllers.set i (P, u.client) }, u.server⟩ := by
    intro w P u hw hu
    refine ⟨hu.server, fun p hp => ?_, hw.slots⟩
    rcases List.mem_or_eq_of_mem_set hp with hp | rfl
    · exact hw.stashes p hp
    · exact hu.stash
  constructor
  · intro w a w' hw hrun
    rw [onController] at hrun
    split at hrun
    · cases hrun
    next P c h =>
      obtain ⟨hok, rfl⟩ := Prod.mk.inj hrun
      obtain ⟨hu, ha⟩ := (hm P).ok (hstart hw h) (Prod.ext hok rfl)
      exact ⟨hend hw hu, ha⟩
  · intro w e w' hw hrun
    rw [onController] at hrun
    split at hrun
    · cases hrun
      exact hw
    next P c h =>
      obtain ⟨-, rfl⟩ := Prod.mk.inj hrun
      exact hend hw ((hm P).keeps _ (hstart hw h))

/-- A slot holds blocks with values that were given. -/
theorem yields_slot (i : ℕ) :
    Prog.Yields (Faithful knows V) (slot i) fun blocks => ∀ b ∈ blocks, V b.id b.payload := by
  constructor
  · intro w blocks w' hw hrun
    rw [slot] at hrun
    split at hrun
    · cases hrun
    next h =>
      cases hrun
      exact ⟨hw, hw.slots _ (List.mem_of_getElem? h)⟩
  · intro w e w' hw hrun
    rw [slot] at hrun
    split at hrun
    · cases hrun
      exact hw
    · cases hrun

theorem yields_setSlot (i : ℕ) {blocks : List (OramBlock D)}
    (hblocks : ∀ b ∈ blocks, V b.id b.payload) :
    Prog.Yields (Faithful knows V) (setSlot i blocks) fun _ => True := by
  refine .modify fun w hw => ⟨hw.server, hw.stashes, fun blocks' h => ?_⟩
  rcases List.mem_or_eq_of_mem_set h with h | rfl
  · exact hw.slots _ h
  · exact hblocks

theorem yields_sampleSlot (value : ℕ) :
    Prog.Yields (Faithful knows V) (sampleSlot value) fun _ => True := by
  have hsame : ∀ w : PartitionSystem D σ, (sampleSlot value w).2 = w := by
    intro w
    rw [sampleSlot]
    split
    · rfl
    · rw [checkedRandom]
      split <;> rfl
  constructor
  · intro w x w' hw hrun
    obtain rfl : w = w' := (hsame w).symm.trans (congrArg Prod.snd hrun)
    exact ⟨hw, trivial⟩
  · intro w e w' hw hrun
    obtain rfl : w = w' := (hsame w).symm.trans (congrArg Prod.snd hrun)
    exact hw

section

variable (hS : S.Replays knows)
include hS

/-- An access gives its address the value of `buffer` if it writes. -/
theorem yields_oramAccess (i : ℕ) {op : Operation} {address : ℕ} {buffer : OramBlock D}
    (hV : op = .kWrite → V address buffer.payload) {draws : AccessDraws C}
    (hpad : ∀ l j, (draws.pad l j).isNormal = false) :
    Prog.Yields (Faithful knows V) (oramAccess S i op address buffer draws false)
      (Returned V op address buffer) :=
  yields_onController i fun P =>
    PathOramController.yields_internalAccess (hS.tree P.id) hV hpad

/-- A dummy access gives nothing to anyone. -/
theorem yields_dummyAccess (i : ℕ) (op : Operation) (address : ℕ) (buffer : OramBlock D)
    (draws : AccessDraws C) :
    Prog.Yields (Faithful knows V) (oramAccess S i op address buffer draws true) fun _ => True :=
  yields_onController i fun P => PathOramController.yields_dummyAccess (hS.tree P.id) _ _ _ _

/-! ## The start and the load -/

theorem yields_fillControllers {draws : ℕ → FillDraws C}
    (hpad : ∀ j t i, ((draws j).pad t i).isNormal = false) (is : List ℕ)
    {data : List (OramBlock D)} (hdata : ∀ b ∈ data, b.Vouched OramBlock.payload V) :
    Prog.Yields (Faithful knows V) (fillControllers S Q draws is data) fun _ => True := by
  induction is generalizing data with
  | nil => exact .pure trivial
  | cons i is ih =>
    have htake : ∀ b ∈ data.take Q.treeSize, b.Vouched OramBlock.payload V :=
      fun b hb => hdata b (List.mem_of_mem_take hb)
    have hload := yields_onController (V := V) i fun P =>
      PathOramController.yields_fillWithData (P := P) (hS.tree P.id) (hpad i) htake
    exact .bind (yields_update (fun _ => rfl) fun _ => rfl) fun _ _ =>
      .bind (.mapError hload) fun _ _ => ih fun b hb => hdata b (List.mem_of_mem_drop hb)

/-- The load gives every block its own value. -/
theorem yields_fillWithData {draws : ℕ → FillDraws C}
    (hpad : ∀ j t i, ((draws j).pad t i).isNormal = false) {data : List (OramBlock D)}
    (hdata : ∀ b ∈ data, b.Vouched OramBlock.payload V) :
    Prog.Yields (Faithful knows V) (fillWithData S Q data draws) fun _ => True :=
  .get_bind fun _ _ => .ite (fun _ => .throw _) fun _ => .ite (fun _ => .throw _) fun _ =>
    .bind (yields_fillControllers hS hpad _ hdata) fun _ _ =>
      yields_update (fun _ => rfl) fun _ => rfl

/-! ## An access

The local `block` is filled by the slot or by the Path ORAM, or by neither. In the last
case it is whatever the stack held, and goes to a slot as the block of an address; from
there an eviction sends it to the server. -/

/-- An eviction writes a block of a slot under its own id. -/
theorem yields_evict (id : ℕ) {draws : AccessDraws C}
    (hpad : ∀ l j, (draws.pad l j).isNormal = false) (garbage : OramBlock D) :
    Prog.Yields (Faithful knows V) (evict S id draws garbage) fun _ => True := by
  refine .bind (yields_slot id) fun blocks hblocks => ?_
  cases hlast : blocks.getLast? with
  | none => exact .bind (yields_dummyAccess hS id _ _ _ _) fun _ _ => .pure trivial
  | some block =>
    have hblock : V block.id block.payload := hblocks block (List.mem_of_getLast? hlast)
    exact .bind (yields_setSlot id fun b hb => hblocks b (List.mem_of_mem_dropLast hb)) fun _ _ =>
      .bind (yields_oramAccess hS id (fun _ => hblock) hpad) fun _ _ => .pure trivial

theorem yields_randomEvict (garbage : OramBlock D) (draws : List (EvictDraws C))
    (hpad : ∀ d ∈ draws, ∀ l j, (d.access.pad l j).isNormal = false) :
    Prog.Yields (Faithful knows V) (Prog.forEach (evictRandom S garbage) draws)
      fun _ => True := by
  induction draws with
  | nil => exact .pure trivial
  | cons d draws ih =>
    obtain ⟨hd, hrest⟩ := List.forall_mem_cons.mp hpad
    exact .bind (.bind (yields_sampleSlot d.slot) fun id _ => yields_evict hS id hd garbage)
      fun _ _ => ih hrest

/-- What a read fetches: the local block as it is, if the Path ORAM fails. A write
sends its local block to the address. -/
theorem yields_fetch {op : Operation} {address slotId : ℕ} {draws : PartitionDraws C}
    (hV : op = .kWrite → V address draws.garbage.payload)
    (hpad : ∀ l j, (draws.access.pad l j).isNormal = false) :
    Prog.Yields (Faithful knows V) (fetch S op address slotId draws) fun out => op ≠ .kWrite →
      out = draws.garbage ∨ blockEqual address out = true ∧ V address out.payload := by
  refine .bind (yields_slot slotId) fun blocks hblocks => ?_
  cases hfind : blocks.find? (blockEqual address) with
  | none =>
    have haccess : Prog.Yields (Faithful knows V)
        (oramAccess S slotId op address draws.garbage draws.access false) fun out =>
          op ≠ .kWrite → out = draws.garbage ∨
            blockEqual address out = true ∧ V address out.payload := by
      refine (yields_oramAccess hS slotId hV hpad).weaken fun out hout hop => .inr ?_
      rwa [Returned, if_neg hop] at hout
    exact yields_ignoreStatus haccess fun _ => .inl rfl
  | some block =>
    have hequal := List.find?_some hfind
    have hblock := hblocks block (List.mem_of_find?_eq_some hfind)
    rw [(blockEqual_iff.mp hequal).1] at hblock
    exact .bind (.mapError (yields_dummyAccess hS slotId _ _ _ _)) fun _ _ =>
      .bind (yields_setSlot slotId fun b hb => hblocks b (List.mem_of_mem_eraseP hb)) fun _ _ =>
        .pure fun _ => .inr ⟨hequal, hblock⟩

/-- What an access returns was given, or was in its local `block`. -/
theorem yields_access {op : Operation} {address : ℕ} {buffer : OramBlock D}
    {draws : PartitionDraws C} (hwrite : op = .kWrite → V buffer.id buffer.payload)
    (hgarbage : ∀ a, V a draws.garbage.payload)
    (hpad : ∀ l j, (draws.access.pad l j).isNormal = false)
    (hevict : ∀ i l j, ((draws.evict i).access.pad l j).isNormal = false) :
    Prog.Yields (Faithful knows V) (access S Q op address buffer draws) fun _ => True := by
  refine .bind (yields_sampleSlot _) fun newSlot _ => .get_bind fun w _ =>
    .bind (yields_update (fun _ => rfl) fun _ => rfl) fun _ _ =>
      .bind (yields_fetch hS (fun _ => hgarbage address) hpad) fun fetched hfetched => ?_
  have hblock : V (if op = .kWrite then buffer else fetched).id
      (if op = .kWrite then buffer else fetched).payload := by
    split
    next hop => exact hwrite hop
    next hop =>
      rcases hfetched hop with rfl | ⟨hequal, hV⟩
      · exact hgarbage _
      · exact (blockEqual_iff.mp hequal).1.symm ▸ hV
  refine .bind (yields_slot newSlot) fun blocks hblocks => .bind (yields_setSlot newSlot ?_)
    fun _ _ => .bind (.mapError (yields_randomEvict hS _ _ fun d hd => ?_)) fun _ _ =>
      .pure trivial
  · intro b hb
    rcases List.mem_append.mp hb with hb | hb
    · exact hblocks b hb
    · rw [List.mem_singleton.mp hb]
      exact hblock
  · obtain ⟨i, -, rfl⟩ := List.mem_map.mp hd
    exact hevict i

/-- A call keeps the server to what is offered. -/
theorem Call.keeps_faithful {call : Call C} (hpad : call.PadsDummy)
    (hV : ∀ a v, call.Offers a v → V a v) :
    Prog.Keeps (Faithful knows V) (call.runOver S Q) := by
  cases call with
  | fillWithData data draws =>
    have hdata : ∀ b ∈ data, b.Vouched OramBlock.payload V :=
      fun b hb hnormal => hV _ _ ⟨b, hb, hnormal, rfl, rfl⟩
    exact (Prog.Yields.bind (yields_fillWithData hS hpad hdata) fun _ _ =>
      .pure (R := fun _ => True) trivial).keeps
  | access op address buffer draws =>
    have hwrite : op = .kWrite → V buffer.id buffer.payload :=
      fun hop => hV _ _ (.inl ⟨hop, rfl, rfl⟩)
    exact (Prog.Yields.bind (yields_access hS hwrite (fun a => hV a _ (.inr rfl)) hpad.1 hpad.2)
      fun _ _ => .pure (R := fun _ => True) trivial).keeps

end

end PartitionSystem

end ObliviousRam
