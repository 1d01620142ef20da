import ObliviousRam.LinearOram
import ObliviousRam.Connection
import ObliviousRam.KeyedBag

set_option autoImplicit false

/-!
# A linear ORAM is a memory

After `FillWithData`, over a connection that loses calls but none of their
effects: a read that returns yields the data bytes of the latest write that did,
or the loaded ones, and an access changes nothing but the data bytes of the
block it is about.

All of it is read off one equation (`Holds.contents_eq`): the decrypted contents
of the server are the loaded blocks, in their order, each with the data bytes of
the latest write to it.
-/

namespace ObliviousRam

variable {D : Type} {C : Codec D}

/-- The stub over a connection that loses calls. -/
def FlatStub.relayed {σ : Type} (S : FlatStub C σ) : FlatStub C (σ × List Delivery) where
  readFlatMemory := Delivery.relay S.readFlatMemory
  writeFlatMemory := fun content => Delivery.relay (S.writeFlatMemory content)

/-- The client, the storage, and what becomes of the calls to come. -/
abbrev LinearWorld (C : Codec D) : Type :=
  LinearSystem (FlatOramServerStorage C × List Delivery)

/-- The blocks of a storage, decrypted. -/
def FlatOramServerStorage.contents (s : FlatOramServerStorage C) : List (OramBlock D) :=
  s.storage.blocks.map fun c => (C.decryptBlock c).2

/-- The blocks on the server, decrypted. -/
def LinearSystem.contents (w : LinearWorld C) : List (OramBlock D) := w.server.1.contents

/-- The arguments of one `Access`, and its nonces. -/
structure LinearRequest (C : Codec D) where
  op : Operation
  address : ℕ
  buffer : OramBlock D
  iv : ℕ → C.Iv

namespace LinearRequest

/-- `Access` with these arguments. -/
def run (r : LinearRequest C) : Prog Exit (LinearWorld C) (OramBlock D) :=
  LinearOramController.access (OramService.flatStub C).relayed r.op r.address r.buffer r.iv

/-- What a finished call has written under `a`. -/
def written (p : LinearRequest C × Except Exit (OramBlock D)) (a : ℕ) : Option D :=
  if p.1.op = .kWrite ∧ p.1.address = a ∧ p.2.isOk = true then some p.1.buffer.data else none

end LinearRequest

namespace LinearOramController

/-! ## One pass over the storage

`InternalAccess` decrypts every block, looks at it and encrypts it again. Over the
plaintexts this is a `map`: a write changes the data bytes of the blocks that carry the
address, and nothing else changes anything. -/

/-- What an access does to a block it comes across. -/
def touchBlock (op : Operation) (address : ℕ) (bytes : D) (b : OramBlock D) : OramBlock D :=
  if blockEqual address b ∧ op ≠ .kRead then { b with data := bytes } else b

/-- The block that is sent back does not depend on what `*data` holds by then. -/
theorem accessBlock_block (op : Operation) (address : ℕ) (data b : OramBlock D) :
    (accessBlock op address data b).2 = touchBlock op address data.data b := by
  have hsame : (b.isNormal && b.id == address) = blockEqual address b := by
    rw [blockEqual, Bool.and_comm]
  rw [accessBlock, touchBlock, hsame]
  cases blockEqual address b with
  | false => simp
  | true => by_cases hop : op = .kRead <;> simp [hop]

/-- A read hands out the last block of the address, or nothing. -/
theorem accessBlocks_read (address : ℕ) (iv : ℕ → C.Iv) (cs : List C.Sealed) (i : ℕ)
    (data : OramBlock D) :
    (accessBlocks .kRead address iv i data cs).1 =
      ((cs.map fun c => (C.decryptBlock c).2).filter (blockEqual address)).getLast?.getD data := by
  induction cs generalizing i data with
  | nil => rfl
  | cons c cs ih =>
    rw [accessBlocks, ih, List.map_cons, List.filter_cons]
    have hsame : ((C.decryptBlock c).2.isNormal && (C.decryptBlock c).2.id == address) =
        blockEqual address (C.decryptBlock c).2 := by
      rw [blockEqual, Bool.and_comm]
    simp only [accessBlock, hsame, if_true]
    cases blockEqual address (C.decryptBlock c).2 with
    | false => rfl
    | true =>
      rw [if_pos rfl, if_pos rfl, List.getLast?_cons]
      rfl

/-- The blocks that an access sends back. -/
theorem decrypt_accessBlocks (op : Operation) (address : ℕ) (iv : ℕ → C.Iv) (cs : List C.Sealed)
    (i : ℕ) (data : OramBlock D) :
    ((accessBlocks op address iv i data cs).2.map fun c => (C.decryptBlock c).2) =
      (cs.map fun c => (C.decryptBlock c).2).map (touchBlock op address data.data) := by
  rw [accessBlocks_sent]
  refine List.ext_getElem? fun j => ?_
  rw [List.getElem?_map, List.getElem?_mapIdx, Option.map_map, List.map_map, List.getElem?_map]
  simp only [Function.comp_def, C.decrypt_encrypt, accessBlock_block]

/-! ## One call

A call has two remote calls. If either is lost the client gives up, and by then the
storage is either as it was or has been replaced; the connection here loses a call
before it has any effect. -/

/-- `ReadFromServer` over a connection that loses calls. -/
theorem readFromServer_relayed (client : LinearOramController) (storage : FlatOramServerStorage C)
    {ds : List Delivery} (hclean : Delivery.Clean ds) :
    ∃ ds', Delivery.Clean ds' ∧
      (readFromServer (OramService.flatStub C).relayed ⟨client, storage, ds⟩ =
        (.ok storage.storage, ⟨client, storage, ds'⟩) ∨
      ∃ e, readFromServer (OramService.flatStub C).relayed ⟨client, storage, ds⟩ =
        (.error e, ⟨client, storage, ds'⟩)) := by
  obtain ⟨ds', hclean', hread | ⟨msg, hread⟩⟩ :=
    Delivery.relay_clean (OramService.flatStub C).readFlatMemory storage hclean
  · exact ⟨ds', hclean', .inl (by simp only [readFromServer, FlatStub.relayed, hread]; rfl)⟩
  · exact ⟨ds', hclean', .inr ⟨_, by simp only [readFromServer, FlatStub.relayed, hread]; rfl⟩⟩

/-- `WriteToServer` over a connection that loses calls. -/
theorem writeToServer_relayed (client : LinearOramController) (storage : FlatOramServerStorage C)
    {ds : List Delivery} (hclean : Delivery.Clean ds) (input : FlatString C) :
    ∃ ds', Delivery.Clean ds' ∧
      (writeToServer (OramService.flatStub C).relayed input ⟨client, storage, ds⟩ =
        (.ok (), ⟨client, ⟨input⟩, ds'⟩) ∨
      ∃ e, writeToServer (OramService.flatStub C).relayed input ⟨client, storage, ds⟩ =
        (.error e, ⟨client, storage, ds'⟩)) := by
  obtain ⟨ds', hclean', hwrite | ⟨msg, hwrite⟩⟩ :=
    Delivery.relay_clean ((OramService.flatStub C).writeFlatMemory input) storage hclean
  · exact ⟨ds', hclean', .inl (by simp only [writeToServer, FlatStub.relayed, hwrite]; rfl)⟩
  · exact ⟨ds', hclean', .inr ⟨_, by simp only [writeToServer, FlatStub.relayed, hwrite]; rfl⟩⟩

/-- What an access that returned has done. -/
structure Returned (op : Operation) (address : ℕ) (data out : OramBlock D)
    (w w' : LinearWorld C) : Prop where
  op_valid : op ≠ .kInvalid
  initialized : w'.client.isInitialized = true
  clean : Delivery.Clean w'.server.2
  contents : w'.contents = w.contents.map (touchBlock op address data.data)
  out_eq : op = .kRead → out = (w.contents.filter (blockEqual address)).getLast?.getD data

/-- What one that did not return has done. -/
structure GaveUp (w w' : LinearWorld C) : Prop where
  initialized : w'.client.isInitialized = true
  clean : Delivery.Clean w'.server.2
  contents : w'.contents = w.contents

/-- **One access** over a connection that loses calls. -/
theorem access_cases {w : LinearWorld C} (hinit : w.client.isInitialized = true)
    (hclean : Delivery.Clean w.server.2) (op : Operation) (address : ℕ) (data : OramBlock D)
    (iv : ℕ → C.Iv) :
    (∃ out w', access (OramService.flatStub C).relayed op address data iv w = (.ok out, w') ∧
      Returned op address data out w w') ∨
    ∃ e w', access (OramService.flatStub C).relayed op address data iv w = (.error e, w') ∧
      GaveUp w w' := by
  rw [access, Prog.get_bind, hinit, if_neg Bool.false_ne_true.symm, internalAccess]
  by_cases hop : op = .kInvalid
  · rw [if_pos hop]
    exact .inr ⟨_, _, rfl, hinit, hclean, rfl⟩
  rw [if_neg hop]
  obtain ⟨client, storage, ds⟩ := w
  obtain ⟨ds', hclean', hread | ⟨e, hread⟩⟩ :=
    readFromServer_relayed client storage hclean
  · rw [Prog.bind_ok (Prog.mapError_ok hread)]
    -- the storage as it is sent back
    obtain ⟨ds'', hclean'', hwrite | ⟨e, hwrite⟩⟩ :=
      writeToServer_relayed client storage hclean' { storage.storage with
        blocks := (accessBlocks op address iv 0 data storage.storage.blocks).2 }
    · refine .inl ⟨_, _, Prog.bind_ok (Prog.mapError_ok hwrite), hop, hinit, hclean'', ?_, ?_⟩
      · exact decrypt_accessBlocks op address iv storage.storage.blocks 0 data
      · rintro rfl
        exact accessBlocks_read address iv storage.storage.blocks 0 data
    · exact .inr ⟨_, _, Prog.bind_error (Prog.mapError_error hwrite), hinit, hclean'', rfl⟩
  · exact .inr ⟨_, _, Prog.bind_error (Prog.mapError_error hread), hinit, hclean', rfl⟩

/-- The storage that `FillWithData` sends. -/
theorem contents_encrypted (data : List (OramBlock D)) (iv : ℕ → C.Iv) :
    (⟨⟨data.mapIdx fun i b => C.encryptBlock (iv i) b, []⟩⟩ : FlatOramServerStorage C).contents =
      data := by
  refine List.ext_getElem? fun j => ?_
  simp only [FlatOramServerStorage.contents, List.getElem?_map, List.getElem?_mapIdx,
    Option.map_map, Function.comp_def, C.decrypt_encrypt, Option.map_id']

/-- `FillWithData` that returned has put the data on the server. -/
theorem fillWithData_spec {data : List (OramBlock D)} {iv : ℕ → C.Iv} {w w' : LinearWorld C}
    (hclean : Delivery.Clean w.server.2)
    (h : fillWithData (OramService.flatStub C).relayed data iv w = (.ok (), w')) :
    w'.client.isInitialized = true ∧ Delivery.Clean w'.server.2 ∧ w'.contents = data := by
  obtain ⟨client, storage, ds⟩ := w
  have hcall := Prog.mapError_eq_ok h
  obtain ⟨ds', hclean', hwrite | ⟨e, hwrite⟩⟩ :=
    writeToServer_relayed ⟨true⟩ storage hclean
      ⟨data.mapIdx fun i b => C.encryptBlock (iv i) b, []⟩
  · cases hwrite.symm.trans hcall
    exact ⟨rfl, hclean', contents_encrypted data iv⟩
  · cases hwrite.symm.trans hcall

end LinearOramController

/-! ## Runs

The history of a run is the list of its accesses with their outcomes. It determines the
contents of the server (`current`), and each access that returns adds one entry. -/

open LinearOramController

/-- A loaded block, with the data bytes of the latest write to it. -/
def current (past : List (LinearRequest C × Except Exit (OramBlock D))) (b : OramBlock D) :
    OramBlock D :=
  if b.isNormal then
    { b with data := (latest LinearRequest.written (fun _ => none) past b.id).getD b.data }
  else b

/-- The system after a history of calls. -/
structure LinearSystem.Holds (data : List (OramBlock D))
    (past : List (LinearRequest C × Except Exit (OramBlock D))) (w : LinearWorld C) : Prop where
  initialized : w.client.isInitialized = true
  clean : Delivery.Clean w.server.2
  contents_eq : w.contents = data.map (current past)

/-- A write changes data bytes, so a block keeps its address. -/
theorem blockEqual_current (a : ℕ) (past : List (LinearRequest C × Except Exit (OramBlock D)))
    (b : OramBlock D) : blockEqual a (current past b) = blockEqual a b := by
  rw [current]
  split <;> rfl

theorem map_current_nil (data : List (OramBlock D)) :
    data.map (current ([] : List (LinearRequest C × Except Exit (OramBlock D)))) = data := by
  rw [List.map_congr_left (g := id) fun b _ => ?_, List.map_id]
  rw [current]
  split <;> rfl

/-- A call that wrote nothing leaves the latest values. -/
theorem current_snoc_of_not_written
    {past : List (LinearRequest C × Except Exit (OramBlock D))}
    {p : LinearRequest C × Except Exit (OramBlock D)} {b : OramBlock D}
    (h : LinearRequest.written p b.id = none) : current (past ++ [p]) b = current past b := by
  rw [current, current, latest_snoc, h, Option.none_or]

/-- A call that returned does to the latest values what `touchBlock` does. -/
theorem current_snoc_ok (past : List (LinearRequest C × Except Exit (OramBlock D)))
    {r : LinearRequest C} (hop : r.op ≠ .kInvalid) (out b : OramBlock D) :
    current (past ++ [(r, .ok out)]) b =
      touchBlock r.op r.address r.buffer.data (current past b) := by
  rw [touchBlock, blockEqual_current]
  by_cases hnormal : b.isNormal = true
  · by_cases hwrite : r.op ≠ .kRead ∧ b.id = r.address
    · have hop' : r.op = .kWrite := Operation.eq_kWrite hwrite.1 hop
      have hwritten : LinearRequest.written (r, .ok out) b.id = some r.buffer.data :=
        if_pos ⟨hop', hwrite.2.symm, rfl⟩
      rw [if_pos ⟨blockEqual_iff.mpr ⟨hwrite.2, hnormal⟩, hwrite.1⟩, current, current,
        if_pos hnormal, if_pos hnormal, latest_snoc, hwritten]
      rfl
    · rw [if_neg fun h => hwrite ⟨h.2, (blockEqual_iff.mp h.1).1⟩]
      refine current_snoc_of_not_written (if_neg fun h => hwrite ⟨?_, h.2.1.symm⟩)
      exact fun hread => nomatch hread.symm.trans h.1
  · rw [if_neg fun h => hnormal (blockEqual_iff.mp h.1).2, current, current, if_neg hnormal,
      if_neg hnormal]

/-- **One call keeps the memory.** -/
theorem LinearRequest.run_holds {data : List (OramBlock D)}
    {past : List (LinearRequest C × Except Exit (OramBlock D))} {w w' : LinearWorld C}
    (hw : w.Holds data past) (r : LinearRequest C) {o : Except Exit (OramBlock D)}
    (hrun : r.run w = (o, w')) : w'.Holds data (past ++ [(r, o)]) := by
  obtain ⟨out, w₁, hcall, hdone⟩ | ⟨e, w₁, hcall, hdone⟩ :=
    access_cases hw.initialized hw.clean r.op r.address r.buffer r.iv
  · cases hcall.symm.trans hrun
    refine ⟨hdone.initialized, hdone.clean, ?_⟩
    rw [hdone.contents, hw.contents_eq, List.map_map]
    exact List.map_congr_left fun b _ => (current_snoc_ok past hdone.op_valid out b).symm
  · cases hcall.symm.trans hrun
    refine ⟨hdone.initialized, hdone.clean, ?_⟩
    rw [hdone.contents, hw.contents_eq]
    exact List.map_congr_left fun b _ =>
      (current_snoc_of_not_written (if_neg fun h => nomatch h.2.2)).symm

/-- What a read gets is the block of that address. -/
theorem getLast?_filter_current {data : List (OramBlock D)}
    (past : List (LinearRequest C × Except Exit (OramBlock D)))
    (hids : UniqueKeys OramBlock.id (data.filter OramBlock.isNormal : Multiset (OramBlock D)))
    {b : OramBlock D} (hb : b ∈ data) (hnormal : b.isNormal = true) :
    ((data.map (current past)).filter (blockEqual b.id)).getLast? = some (current past b) := by
  have hmem : current past b ∈ (data.map (current past)).filter (blockEqual b.id) :=
    List.mem_filter.mpr ⟨List.mem_map_of_mem hb,
      (blockEqual_current _ _ _).trans (blockEqual_iff.mpr ⟨rfl, hnormal⟩)⟩
  cases hlast : ((data.map (current past)).filter (blockEqual b.id)).getLast? with
  | none =>
    rw [List.getLast?_eq_none_iff.mp hlast] at hmem
    cases hmem
  | some c =>
    obtain ⟨hc, hequal⟩ := List.mem_filter.mp (List.mem_of_getLast? hlast)
    obtain ⟨b', hb', rfl⟩ := List.mem_map.mp hc
    rw [blockEqual_current] at hequal
    obtain ⟨hid, hnormal'⟩ := blockEqual_iff.mp hequal
    rw [hids.eq_of_key_eq (Multiset.mem_coe.mpr (List.mem_filter.mpr ⟨hb', hnormal'⟩))
      (Multiset.mem_coe.mpr (List.mem_filter.mpr ⟨hb, hnormal⟩)) hid]

/-- Every system that a sequence of calls leads to. -/
theorem holds_of_trace {data : List (OramBlock D)} {iv : ℕ → C.Iv} {w₀ w w' : LinearWorld C}
    (hclean : Delivery.Clean w₀.server.2)
    (hfill : fillWithData (OramService.flatStub C).relayed data iv w₀ = (.ok (), w))
    {past : List (LinearRequest C)} {outs : List (Except Exit (OramBlock D))}
    (hpast : Prog.trace Exit.fatal LinearRequest.run past w = some (outs, w')) :
    w'.Holds data (past.zip outs) := by
  obtain ⟨hinit, hclean', hcontents⟩ := fillWithData_spec hclean hfill
  have hstart : w.Holds data [] := ⟨hinit, hclean', hcontents.trans (map_current_nil data).symm⟩
  refine Prog.trace_history Exit.fatal (fun _ _ => True) (fun past w => w.Holds data past) ?_ []
    hstart (Prog.Along.of_forall (fun _ _ _ => trivial) _) hpast
  intro past r w o w' _ hw hstep
  exact r.run_holds hw (Prog.eq_of_survive hstep).1

/-- **A linear ORAM is a memory whose accesses have their whole effect or none.**
After a load and any accesses `past`, over a connection that loses calls: a read
that returns yields the data bytes of the latest write that did, or the loaded
ones; every block but the one of the address stays as it is, that one keeps its
header, and all keep their places; an access that does not return leaves the
contents alone. -/
theorem linearOram_memory {data : List (OramBlock D)} {iv : ℕ → C.Iv} {w₀ w w' w'' : LinearWorld C}
    (hclean : Delivery.Clean w₀.server.2)
    (hids : UniqueKeys OramBlock.id (data.filter OramBlock.isNormal : Multiset (OramBlock D)))
    (hfill : fillWithData (OramService.flatStub C).relayed data iv w₀ = (.ok (), w))
    {past : List (LinearRequest C)} {outs : List (Except Exit (OramBlock D))}
    (hpast : Prog.trace Exit.fatal LinearRequest.run past w = some (outs, w'))
    {r : LinearRequest C} {o : Except Exit (OramBlock D)} (hrun : r.run w' = (o, w'')) :
    (∀ out b, o = .ok out → r.op = .kRead → b ∈ data → blockEqual r.address b = true →
      out.data = (latest LinearRequest.written (fun _ => none) (past.zip outs) r.address).getD
        b.data) ∧
    (w''.contents.length = w'.contents.length ∧
      ∀ (i : ℕ) (b b' : OramBlock D), w'.contents[i]? = some b → w''.contents[i]? = some b' →
        b'.header = b.header ∧ (blockEqual r.address b = false → b' = b)) ∧
    (∀ e, o = .error e → w''.contents = w'.contents) := by
  have hw := holds_of_trace hclean hfill hpast
  obtain ⟨out, w₁, hcall, hdone⟩ | ⟨e, w₁, hcall, hdone⟩ :=
    access_cases hw.initialized hw.clean r.op r.address r.buffer r.iv
  · cases hcall.symm.trans hrun
    refine ⟨?_, ⟨by rw [hdone.contents, List.length_map], ?_⟩, fun e he => (nomatch he)⟩
    · intro out' b hout hread hb hequal
      cases hout
      obtain ⟨hid, hnormal⟩ := blockEqual_iff.mp hequal
      rw [hdone.out_eq hread, hw.contents_eq, ← hid, getLast?_filter_current _ hids hb hnormal,
        Option.getD_some, current, if_pos hnormal]
    · intro i b b' hb hb'
      rw [hdone.contents, List.getElem?_map, hb, Option.map_some, Option.some.injEq] at hb'
      subst hb'
      rw [touchBlock]
      split
      next h => exact ⟨rfl, fun hne => nomatch hne.symm.trans h.1⟩
      next => exact ⟨rfl, fun _ => rfl⟩
  · cases hcall.symm.trans hrun
    refine ⟨fun out b h => (nomatch h), ⟨by rw [hdone.contents], ?_⟩, fun _ _ => hdone.contents⟩
    intro i b b' hb hb'
    rw [hdone.contents, hb, Option.some.injEq] at hb'
    subst hb'
    exact ⟨rfl, fun _ => rfl⟩

/-! ### A small instance -/

/-- A client in front of an empty storage; the third call is going to be lost. -/
def linearStart : LinearWorld (Codec.plain ℕ) :=
  ⟨.new, ⟨⟨[], []⟩⟩, [.carried, .carried, .lost "Deadline Exceeded"]⟩

def linearData : List (OramBlock ℕ) := [⟨⟨0, .kNormal, 1⟩, 10⟩, ⟨⟨1, .kNormal, 1⟩, 20⟩]

/-- After the load: two blocks as they are, one call to go through, one to be lost. -/
def linearLoaded : LinearWorld (Codec.plain ℕ) :=
  ⟨⟨true⟩, ⟨⟨linearData, []⟩⟩, [.carried, .lost "Deadline Exceeded"]⟩

def linearWrite : LinearRequest (Codec.plain ℕ) :=
  ⟨.kWrite, 0, ⟨⟨0, .kNormal, 1⟩, 11⟩, fun _ => ()⟩

def linearRead : LinearRequest (Codec.plain ℕ) :=
  ⟨.kRead, 0, ⟨⟨9, .kDummy, 0⟩, 0⟩, fun _ => ()⟩

/-- The load that the small run begins with. -/
theorem linear_fill : fillWithData (OramService.flatStub (Codec.plain ℕ)).relayed linearData
    (fun _ => ()) linearStart = (.ok (), linearLoaded) := rfl

/-- The write fails between its two calls, and the read finds the loaded bytes. -/
theorem linearOram_memory_small : ∃ out w'',
    linearRead.run ⟨⟨true⟩, ⟨⟨linearData, []⟩⟩, []⟩ = (.ok out, w'') ∧ out.data = 10 := by
  have hclean : Delivery.Clean linearStart.server.2 := by
    intro d hd message he
    subst he
    simp [linearStart] at hd
  have hpast : Prog.trace Exit.fatal LinearRequest.run [linearWrite] linearLoaded =
      some (_, ⟨⟨true⟩, ⟨⟨linearData, []⟩⟩, []⟩) := rfl
  obtain ⟨out, hread⟩ := Prog.ok_of_isOk (m := linearRead.run)
    (s := ⟨⟨true⟩, ⟨⟨linearData, []⟩⟩, []⟩) (by decide)
  exact ⟨out, _, hread, (linearOram_memory hclean (by decide) linear_fill hpast hread).1 out
    ⟨⟨0, .kNormal, 1⟩, 10⟩ rfl rfl (by decide) rfl⟩

end ObliviousRam
