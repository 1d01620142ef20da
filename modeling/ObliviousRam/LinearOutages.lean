import ObliviousRam.Contract
import ObliviousRam.FailingMemory
import ObliviousRam.LinearMemory
import ObliviousRam.PathMemory

set_option autoImplicit false

/-!
# A linear ORAM over a connection that fails

`LinearMemory` lets the connection lose calls, but no answers. Here an answer may
be lost as well: the storage is then replaced, and the client does not know.

A linear ORAM sends the whole storage back, so it cannot lose a block: each is
where it was loaded, under its header, and has a value that its address can have
(`Kept`). A Path ORAM promises less over such a connection (`PathOutages`).
-/

namespace ObliviousRam

open LinearOramController

variable {D : Type} {C : Codec D} {V V' : ℕ → D → Prop} {data : List (OramBlock D)}

/-- What a loaded block can have become. -/
structure Kept (V : ℕ → D → Prop) (b b' : OramBlock D) : Prop where
  header : b'.header = b.header
  value : b.isNormal = true → V b.id b'.data
  dummy : b.isNormal = false → b' = b

/-- The storage after some calls: every loaded block, in its place. -/
structure LinearSystem.Remembers (V : ℕ → D → Prop) (data : List (OramBlock D))
    (w : LinearWorld C) : Prop where
  initialized : w.client.isInitialized = true
  blocks : List.Forall₂ (Kept V) data w.contents

namespace Kept

variable {b b' : OramBlock D}

/-- More values may be possible later on. -/
theorem mono (h : Kept V b b') (hV : ∀ k v, V k v → V' k v) : Kept V' b b' :=
  ⟨h.header, fun hn => hV _ _ (h.value hn), h.dummy⟩

/-- A block never changes its address. -/
theorem blockEqual_eq (h : Kept V b b') (a : ℕ) : blockEqual a b' = blockEqual a b := by
  rw [blockEqual, blockEqual, OramBlock.id, OramBlock.isNormal, h.header]
  rfl

/-- The storage has the addresses of the data. -/
theorem unique {bs : List (OramBlock D)} (hids : UniqueKeys OramBlock.id (loadedBlocks data))
    (hblocks : List.Forall₂ (Kept V) data bs) : UniqueKeys OramBlock.id (loadedBlocks bs) := by
  have hsame : (bs.filter OramBlock.isNormal).map OramBlock.id =
      (data.filter OramBlock.isNormal).map OramBlock.id := by
    clear hids
    induction hblocks with
    | nil => rfl
    | @cons b b' _ _ h _ ih =>
      have hnormal : b'.isNormal = b.isNormal :=
        congrArg (fun header : OramBlockHeader => header.type == .kNormal) h.header
      have hid : b'.id = b.id := congrArg OramBlockHeader.blockId h.header
      rw [List.filter_cons, List.filter_cons, hnormal]
      split
      · rw [List.map_cons, List.map_cons, ih, hid]
      · exact ih
  rw [UniqueKeys, loadedBlocks, Multiset.map_coe, Multiset.coe_nodup] at hids ⊢
  rwa [hsame]

end Kept

namespace LinearRequest

/-- What an access asks of the memory. -/
def call (r : LinearRequest C) : MemoryCall ℕ D :=
  match r.op with
  | .kInvalid => .other
  | .kRead => .read r.address
  | .kWrite => .write r.address r.buffer.data

/-- The access, and the data bytes that it has returned. -/
def recorded (p : LinearRequest C × Except Exit (OramBlock D)) :
    MemoryCall ℕ D × Except Exit (Option D) :=
  (p.1.call, p.2.map fun out => some out.data)

end LinearRequest

namespace LinearOramController

/-! ## One pass

A pass over the storage keeps every block in its place. The value of the block that is
written becomes possible as soon as the write is asked for, whether it arrives or not. -/

/-- A read of a stored address hands out the block that is stored under it. -/
theorem read_stored {bs : List (OramBlock D)} (hids : UniqueKeys OramBlock.id (loadedBlocks bs))
    {a : ℕ} {b buffer : OramBlock D} (hb : b ∈ bs) (hequal : blockEqual a b = true) :
    (bs.filter (blockEqual a)).getLast?.getD buffer = b := by
  have hmem : b ∈ bs.filter (blockEqual a) := List.mem_filter.mpr ⟨hb, hequal⟩
  cases hlast : (bs.filter (blockEqual a)).getLast? with
  | none =>
    rw [List.getLast?_eq_none_iff.mp hlast] at hmem
    cases hmem
  | some c =>
    obtain ⟨hc, hc'⟩ := List.mem_filter.mp (List.mem_of_getLast? hlast)
    obtain ⟨hid, hnormal⟩ := blockEqual_iff.mp hequal
    obtain ⟨hid', hnormal'⟩ := blockEqual_iff.mp hc'
    exact hids.eq_of_key_eq (mem_loadedBlocks.mpr ⟨hc, hnormal'⟩)
      (mem_loadedBlocks.mpr ⟨hb, hnormal⟩) (hid'.trans hid.symm)

/-- A read hands out the value of the one block with that address. -/
theorem kept_read {bs : List (OramBlock D)} (hids : UniqueKeys OramBlock.id (loadedBlocks data))
    (hblocks : List.Forall₂ (Kept V) data bs) {a : ℕ} {b buffer : OramBlock D} (hb : b ∈ data)
    (hequal : blockEqual a b = true) :
    Kept V b ((bs.filter (blockEqual a)).getLast?.getD buffer) := by
  -- the block that is stored where this one was loaded
  obtain ⟨i, hi, rfl⟩ := List.mem_iff_getElem.mp hb
  have hkept := hblocks.get hi (hblocks.length_eq ▸ hi)
  rw [read_stored (Kept.unique hids hblocks) (List.get_mem _ _)
    ((hkept.blockEqual_eq a).trans hequal)]
  exact hkept

/-- What an access makes of a block, if a read has returned what is stored. -/
theorem kept_touchBlock {b b' : OramBlock D} (h : Kept V b b') (r : LinearRequest C)
    (hop : r.op ≠ .kInvalid) {out : OramBlock D}
    (hout : r.op = .kRead → blockEqual r.address b' = true → out = b') :
    Kept (r.call.returned V (some out.data)) b (touchBlock r.op r.address r.buffer.data b') := by
  have hequal := h.blockEqual_eq r.address
  refine ⟨?_, fun hnormal => ?_, fun hdummy => ?_⟩
  · rw [touchBlock]
    split
    · exact h.header
    · exact h.header
  · have hvalue := h.value hnormal
    have hid : blockEqual r.address b' = true ↔ b.id = r.address := by
      rw [hequal, blockEqual_iff, and_iff_left hnormal]
    rw [touchBlock, LinearRequest.call]
    cases hr : r.op with
    | kInvalid => exact absurd hr hop
    | kRead =>
      rw [if_neg fun hwrite => hwrite.2 rfl]
      refine ⟨hvalue, fun ha => ?_⟩
      rw [hout hr (hid.mpr ha)]
    | kWrite =>
      by_cases ha : b.id = r.address
      · rw [if_pos ⟨hid.mpr ha, fun he => Operation.noConfusion he⟩, ha]
        exact MemoryCall.returned_write_self (ha ▸ hvalue)
      · rw [if_neg fun hwrite => ha (hid.mp hwrite.1)]
        exact MemoryCall.returned_write_of_ne ha hvalue
  · have hne : ¬blockEqual r.address b' = true := by
      rw [hequal, blockEqual_iff, hdummy]
      exact fun hwrite => Bool.false_ne_true hwrite.2
    rw [touchBlock, if_neg fun hwrite => hne hwrite.1]
    exact h.dummy hdummy

/-- What one makes of the storage. -/
theorem kept_accessBlocks {cs : List C.Sealed}
    (hids : UniqueKeys OramBlock.id (loadedBlocks data))
    (hblocks : List.Forall₂ (Kept V) data (cs.map fun c => (C.decryptBlock c).2))
    (r : LinearRequest C) (hop : r.op ≠ .kInvalid) :
    List.Forall₂ (Kept (r.call.returned V
        (some (accessBlocks r.op r.address r.iv 0 r.buffer cs).1.data))) data
      ((accessBlocks r.op r.address r.iv 0 r.buffer cs).2.map fun c => (C.decryptBlock c).2) := by
  rw [decrypt_accessBlocks, List.forall₂_map_right_iff, List.forall₂_iff_zip]
  refine ⟨hblocks.length_eq, fun hz => kept_touchBlock (List.forall₂_zip hblocks hz) r hop ?_⟩
  intro hread hequal
  rw [hread, accessBlocks_read]
  exact read_stored (Kept.unique hids hblocks) (List.of_mem_zip hz).2 hequal

/-! ## One access

A lost answer and a lost request look the same to the client. In the first case the
storage was replaced by what the access has made of it, in the second it was not; `Kept`
covers both. -/

/-- A read of the storage, whatever becomes of it. -/
theorem readFromServer_outcome (w : LinearWorld C) : ∃ ds,
    readFromServer (OramService.flatStub C).relayed w =
      (.ok w.server.1.storage, { w with server := (w.server.1, ds) }) ∨
    ∃ e, readFromServer (OramService.flatStub C).relayed w =
      (.error e, { w with server := (w.server.1, ds) }) := by
  obtain ⟨ds, hread | ⟨msg, hread | hread⟩⟩ := Delivery.relay_cases
    (OramService.flatStub C).readFlatMemory w.server.1 w.server.2
  · exact ⟨ds, .inl (by simp only [readFromServer, FlatStub.relayed, hread]; rfl)⟩
  · exact ⟨ds, .inr ⟨_, by simp only [readFromServer, FlatStub.relayed, hread]; rfl⟩⟩
  · exact ⟨ds, .inr ⟨_, by simp only [readFromServer, FlatStub.relayed, hread]; rfl⟩⟩

/-- A write that has failed may have replaced the storage. -/
theorem writeToServer_outcome (input : FlatString C) (w : LinearWorld C) : ∃ ds,
    writeToServer (OramService.flatStub C).relayed input w =
      (.ok (), { w with server := (⟨input⟩, ds) }) ∨
    ∃ e, writeToServer (OramService.flatStub C).relayed input w =
        (.error e, { w with server := (w.server.1, ds) }) ∨
      writeToServer (OramService.flatStub C).relayed input w =
        (.error e, { w with server := (⟨input⟩, ds) }) := by
  obtain ⟨ds, hwrite | ⟨msg, hwrite | hwrite⟩⟩ := Delivery.relay_cases
    ((OramService.flatStub C).writeFlatMemory input) w.server.1 w.server.2
  · exact ⟨ds, .inl (by simp only [writeToServer, FlatStub.relayed, hwrite]; rfl)⟩
  · exact ⟨ds, .inr ⟨_, .inl (by simp only [writeToServer, FlatStub.relayed, hwrite]; rfl)⟩⟩
  · exact ⟨ds, .inr ⟨_, .inr (by simp only [writeToServer, FlatStub.relayed, hwrite]; rfl)⟩⟩

/-- **One access**, whatever becomes of its two calls. -/
theorem leads_access (hids : UniqueKeys OramBlock.id (loadedBlocks data)) (r : LinearRequest C) :
    Prog.Leads (LinearSystem.Remembers V data) r.run
      (fun out w => w.Remembers (r.call.returned V (some out.data)) data ∧
        (r.op = .kRead → ∀ b ∈ data, blockEqual r.address b = true → Kept V b out))
      fun _ => LinearSystem.Remembers (r.call.failed V) data := by
  refine .of_outcome fun w hw => ?_
  have hunchanged : List.Forall₂ (Kept (r.call.failed V)) data w.contents :=
    hw.blocks.imp fun _ _ h => h.mono fun _ _ => MemoryCall.failed_of
  rw [LinearRequest.run, access, Prog.get_bind, hw.initialized, if_neg Bool.false_ne_true.symm,
    internalAccess]
  by_cases hop : r.op = .kInvalid
  · rw [if_pos hop]
    exact .inr ⟨_, w, rfl, hw.initialized, hunchanged⟩
  rw [if_neg hop]
  obtain ⟨ds, hread | ⟨e, hread⟩⟩ := readFromServer_outcome w
  · rw [Prog.bind_ok (Prog.mapError_ok hread)]
    have hsent := kept_accessBlocks hids hw.blocks r hop
    obtain ⟨ds', hwrite | ⟨e, hwrite | hwrite⟩⟩ := writeToServer_outcome
      { w.server.1.storage with
        blocks := (accessBlocks r.op r.address r.iv 0 r.buffer w.server.1.storage.blocks).2 }
      { w with server := (w.server.1, ds) }
    · refine .inl ⟨_, _, Prog.bind_ok (Prog.mapError_ok hwrite), ⟨hw.initialized, hsent⟩, ?_⟩
      intro hread b hb hequal
      rw [hread, accessBlocks_read]
      exact kept_read hids hw.blocks hb hequal
    · exact .inr ⟨_, _, Prog.bind_error (Prog.mapError_error hwrite), hw.initialized, hunchanged⟩
    · exact .inr ⟨_, _, Prog.bind_error (Prog.mapError_error hwrite), hw.initialized,
        hsent.imp fun _ _ h => h.mono fun _ _ => MemoryCall.failed_of_returned⟩
  · exact .inr ⟨_, _, Prog.bind_error (Prog.mapError_error hread), hw.initialized, hunchanged⟩

/-- An access whose calls go through returns. -/
theorem access_returns {w : LinearWorld C} (hinit : w.client.isInitialized = true)
    (hclear : ∀ d ∈ w.server.2.take 2, d = .carried) {r : LinearRequest C}
    (hop : r.op ≠ .kInvalid) : ∃ out w', r.run w = (.ok out, w') := by
  obtain ⟨client, storage, ds⟩ := w
  rw [LinearRequest.run, access, Prog.get_bind, hinit, if_neg Bool.false_ne_true.symm,
    internalAccess, if_neg hop]
  rcases ds with _ | ⟨d, _ | ⟨d', ds⟩⟩
  · exact ⟨_, _, rfl⟩
  · obtain rfl := hclear d (by simp)
    exact ⟨_, _, rfl⟩
  · obtain rfl := hclear d (by simp)
    obtain rfl := hclear d' (by simp)
    exact ⟨_, _, rfl⟩

/-- A load that has returned. -/
theorem remembers_load (hids : UniqueKeys OramBlock.id (loadedBlocks data)) {iv : ℕ → C.Iv}
    {w w' : LinearWorld C}
    (h : fillWithData (OramService.flatStub C).relayed data iv w = (.ok (), w')) :
    w'.Remembers (fun a v => (loadedValue data a).map Prod.fst = some v) data := by
  have hcall := Prog.mapError_eq_ok h
  obtain ⟨ds, hwrite | ⟨e, hwrite | hwrite⟩⟩ := writeToServer_outcome
    ⟨data.mapIdx fun i b => C.encryptBlock (iv i) b, []⟩ { w with client := ⟨true⟩ }
  · cases hwrite.symm.trans hcall
    refine ⟨rfl, ?_⟩
    rw [LinearSystem.contents, contents_encrypted, List.forall₂_same]
    refine fun b hb => ⟨rfl, fun hnormal => ?_, fun _ => rfl⟩
    rw [(stores_loadedBlocks hids).get (mem_loadedBlocks.mpr ⟨hb, hnormal⟩)]
    rfl
  · cases hwrite.symm.trans hcall
  · cases hwrite.symm.trans hcall

end LinearOramController

/-! ## Whole runs -/

/-- **A linear ORAM forgets nothing.** After a load and any accesses, of which
any may fail in any way, every loaded block is in its place, under its header,
with the value that was written last with success, or one whose write has failed
since; after a read that has returned, the value that it returned. A read of a
loaded address that returns, returns such a value. And an access returns as soon
as its own calls go through. -/
theorem linearOram_forgets_nothing (hids : UniqueKeys OramBlock.id (loadedBlocks data))
    {iv : ℕ → C.Iv} {w₀ w w' : LinearWorld C}
    (hload : fillWithData (OramService.flatStub C).relayed data iv w₀ = (.ok (), w))
    {calls : List (LinearRequest C)} {outs : List (Except Exit (OramBlock D))}
    (hrun : Prog.trace Exit.fatal LinearRequest.run calls w = some (outs, w')) :
    List.Forall₂ (Kept (MemoryCall.possible (fun a => (loadedValue data a).map Prod.fst)
        ((calls.zip outs).map LinearRequest.recorded))) data w'.contents ∧
      (∀ (r : LinearRequest C) (out : OramBlock D) (w'' : LinearWorld C), r.op = .kRead →
        r.run w' = (.ok out, w'') → ∀ b ∈ data, blockEqual r.address b = true →
          Kept (MemoryCall.possible (fun a => (loadedValue data a).map Prod.fst)
            ((calls.zip outs).map LinearRequest.recorded)) b out) ∧
      ((∀ d ∈ w'.server.2.take 2, d = .carried) → ∀ r : LinearRequest C, r.op ≠ .kInvalid →
        ∃ out w'', r.run w' = (.ok out, w'')) := by
  have hw := Prog.trace_history Exit.fatal (fun _ _ => True)
    (fun past w => w.Remembers (MemoryCall.possible
      (fun a => (loadedValue data a).map Prod.fst) (past.map LinearRequest.recorded)) data)
    ?_ [] (remembers_load hids hload) (Prog.Along.of_forall (fun _ _ _ => trivial) _) hrun
  · rw [List.nil_append] at hw
    refine ⟨hw.blocks, fun r out w'' hop hread => ?_, fun hclear r hop => ?_⟩
    · exact ((leads_access hids r).ok hw hread).2 hop
    · exact access_returns hw.initialized hclear hop
  · intro past r w o w' _ hw hstep
    obtain ⟨hcall, -⟩ := Prog.eq_of_survive hstep
    rw [List.map_append, List.map_singleton, MemoryCall.possible_snoc]
    cases o with
    | ok out => exact ((leads_access hids r).ok hw hcall).1
    | error e => exact (leads_access hids r).error hw hcall

/-- The storage is loaded; then a write gets no answer. -/
def linearOutage : LinearWorld (Codec.plain ℕ) :=
  ⟨.new, ⟨⟨[], []⟩⟩, [.carried, .carried, .unanswered "Deadline Exceeded"]⟩

/-- A write without an answer, and a read after it. -/
theorem linearOram_forgets_nothing_small : ∃ w e out w' out' w'',
    fillWithData (OramService.flatStub (Codec.plain ℕ)).relayed linearData (fun _ => ())
      linearOutage = (.ok (), w) ∧
    Prog.trace Exit.fatal LinearRequest.run [linearWrite, linearRead] w =
      some ([.error e, .ok out], w') ∧
    out.data = 11 ∧ linearRead.run w' = (.ok out', w'') ∧ out'.data = out.data := by
  obtain ⟨w, e, out, w', hload, hrun, hout⟩ : ∃ w e out w',
      fillWithData (OramService.flatStub (Codec.plain ℕ)).relayed linearData (fun _ => ())
        linearOutage = (.ok (), w) ∧
      Prog.trace Exit.fatal LinearRequest.run [linearWrite, linearRead] w =
        some ([.error e, .ok out], w') ∧ out.data = 11 ∧ w'.server.2 = [] :=
    ⟨_, _, _, _, rfl, rfl, rfl, rfl⟩
  obtain ⟨-, hread, hreturns⟩ := linearOram_forgets_nothing (by decide) hload hrun
  obtain ⟨out', w'', hout'⟩ := hreturns (by rw [hout.2]; simp) linearRead (by decide)
  have hkept := hread linearRead out' w'' rfl hout' ⟨⟨0, .kNormal, 1⟩, 10⟩ (by decide) rfl
  -- the first read has settled what the write has left open
  exact ⟨w, e, out, w', out', w'', hload, hrun, hout.1, hout',
    (Option.some.inj ((hkept.value rfl).2 rfl)).symm⟩

end ObliviousRam
