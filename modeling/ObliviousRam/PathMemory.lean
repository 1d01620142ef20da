import ObliviousRam.PathFill
import ObliviousRam.Trace

set_option autoImplicit false

/-!
# Whole runs of a Path ORAM

The two results the controller is used for, both about every sequence of calls
that follows a successful load:

* a standalone controller is a **memory**: every access to a loaded address
  returns, and a read returns the latest value written;
* whatever is called, in either mode, every stored address has one copy, and
  the copies in the tree lie on the paths the position map names.
-/

namespace ObliviousRam

open TreeOramServerStorage PathSystem PathOramController

variable {D : Type} {C : Codec D} {P : PathOramConfig}

/-- The real blocks of the data given to `FillWithData`. -/
def loadedBlocks (data : List (OramBlock D)) : Multiset (OramBlock D) :=
  (data.filter OramBlock.isNormal : List (OramBlock D))

theorem mem_loadedBlocks {data : List (OramBlock D)} {b : OramBlock D} :
    b ∈ loadedBlocks data ↔ b ∈ data ∧ b.isNormal = true := by
  rw [loadedBlocks, Multiset.mem_coe, List.mem_filter]

/-! ## Reads and writes of loaded addresses

The run lemma is an induction over the history. What is carried from call to call is
that the bag of real blocks has the values of a memory, which each access reads or
updates. -/

/-- The arguments of one `Access`, and its random choices. -/
structure PathRequest (C : Codec D) where
  op : Operation
  address : ℕ
  buffer : OramBlock D
  draws : AccessDraws C

namespace PathRequest

/-- `Access` with these arguments. -/
def run (P : PathOramConfig) (r : PathRequest C) :
    Prog Exit (PathSystem D (TreeOramServerStorage C)) (OramBlock D) :=
  PathOramController.access (OramService.stub C P.id) P r.op r.address r.buffer r.draws

/-- What the request writes under `a`. -/
def written (r : PathRequest C) (a : ℕ) : Option (D × ℕ) :=
  if r.op = .kWrite ∧ r.address = a then some r.buffer.payload else none

/-- A read or a write of a loaded address; the padding blocks do not pose as real ones. -/
structure Proper (data : List (OramBlock D)) (r : PathRequest C) : Prop where
  op_valid : r.op = .kRead ∨ r.op = .kWrite
  loaded : ∃ b ∈ data, b.isNormal = true ∧ b.id = r.address
  pad_dummy : ∀ l j, (r.draws.pad l j).isNormal = false

end PathRequest

/-- The values `FillWithData` has loaded. -/
def loadedValue (data : List (OramBlock D)) (a : ℕ) : Option (D × ℕ) :=
  (data.find? (blockEqual a)).map OramBlock.payload

/-- The bag of the loaded blocks is the map of the loaded values. -/
theorem stores_loadedBlocks {data : List (OramBlock D)}
    (hids : UniqueKeys OramBlock.id (loadedBlocks data)) :
    Stores OramBlock.id OramBlock.payload (loadedBlocks data) (loadedValue data) := by
  intro a v
  rw [loadedValue, Option.map_eq_some_iff]
  constructor
  · rintro ⟨b, hb, hv⟩
    have hmem := List.mem_of_find?_eq_some hb
    obtain ⟨hid, hnormal⟩ := blockEqual_iff.mp (List.find?_some hb)
    exact ⟨b, mem_loadedBlocks.mpr ⟨hmem, hnormal⟩, hid, hv⟩
  · rintro ⟨b, hb, hid, hv⟩
    obtain ⟨hmem, hnormal⟩ := mem_loadedBlocks.mp hb
    rcases hfind : data.find? (blockEqual a) with _ | c
    · exact absurd (blockEqual_iff.mpr ⟨hid, hnormal⟩) (List.find?_eq_none.mp hfind b hmem)
    · obtain ⟨hcid, hcnormal⟩ := blockEqual_iff.mp (List.find?_some hfind)
      have hc := mem_loadedBlocks.mpr ⟨List.mem_of_find?_eq_some hfind, hcnormal⟩
      exact ⟨b, congrArg some (hids.eq_of_key_eq hc hb (hcid.trans hid.symm)), hv⟩

namespace PathSystem

/-- The system holds the memory `m`: its bag of real blocks has the values of `m`,
under the addresses that were loaded. -/
structure Holds (P : PathOramConfig) (data : List (OramBlock D)) (m : ℕ → Option (D × ℕ))
    (w : PathSystem D (TreeOramServerStorage C)) : Prop where
  inv : w.Inv P
  initialized : w.client.isInitialized = true
  ids : (w.contents P).map OramBlock.id = (loadedBlocks data).map OramBlock.id
  stores : Stores OramBlock.id OramBlock.payload (w.contents P) m

end PathSystem

/-- An initialised `Access` is an `InternalAccess`. -/
theorem access_eq {σ : Type} {S : TreeStub C σ} {op : Operation} {address : ℕ}
    {buffer : OramBlock D} {draws : AccessDraws C} {w : PathSystem D σ}
    (h : w.client.isInitialized = true) :
    access S P op address buffer draws w =
      internalAccess S P op address buffer draws false w := by
  rw [access, Prog.get_bind, h, if_neg Bool.false_ne_true.symm]

/-- A valid access remaps the block and goes to its old path. -/
theorem access_direct {σ : Type} {S : TreeStub C σ} {w : PathSystem D σ}
    (hinit : w.client.isInitialized = true) {op : Operation} (hop : op ≠ .kInvalid) (address : ℕ)
    (buffer : OramBlock D) (draws : AccessDraws C) :
    access S P op address buffer draws w =
      internalAccessDirect S P op address (w.client.positionMap.index address) buffer draws false
        { w with client := { w.client with
          positionMap := w.client.positionMap.set address
            (draws.position % P.numberOfLeafs) } } := by
  rw [access_eq hinit, internalAccess, Prog.get_bind, hinit, if_neg Bool.false_ne_true.symm,
    if_neg hop, Prog.bind_ok (randomPosition_spec _ _)]
  rfl

/-- One request on a system that holds a memory: it returns what the memory
has under the address, and the memory goes on. -/
theorem PathRequest.run_spec {data : List (OramBlock D)} {past : List (PathRequest C)}
    {r : PathRequest C} (hstand : P.standalone = true) (hr : r.Proper data)
    {w : PathSystem D (TreeOramServerStorage C)}
    (hw : w.Holds P data (latest written (loadedValue data) past)) :
    ∃ out w', r.run P w = (.ok out, w') ∧
      w'.Holds P data (latest written (loadedValue data) (past ++ [r])) ∧
      (r.op = .kRead → some out.payload = latest written (loadedValue data) past r.address) := by
  obtain ⟨b₀, hb₀, hnormal₀, hid₀⟩ := hr.loaded
  have hmem : r.address ∈ (w.contents P).map OramBlock.id := by
    rw [hw.ids, ← hid₀]
    exact Multiset.mem_map_of_mem _ (mem_loadedBlocks.mpr ⟨hb₀, hnormal₀⟩)
  obtain ⟨b, hb, hid⟩ := Multiset.mem_map.mp hmem
  have hop : r.op ≠ .kInvalid := by
    rcases hr.op_valid with h | h <;> rw [h] <;> decide
  obtain ⟨w', hrun, hinv, hcont, hinit⟩ := internalAccess_found r.buffer hw.inv
    hw.initialized hop hr.pad_dummy hb hid
  have hlatest : ∀ a, latest written (loadedValue data) (past ++ [r]) a =
      (r.written a).or (latest written (loadedValue data) past a) := latest_snoc _ _ _ _
  refine ⟨_, w', (access_eq hw.initialized).trans hrun, ⟨hinv, hinit, ?_, ?_⟩, ?_⟩
  · rw [hcont, ← hw.ids, accessed]
    split
    · exact map_key_replaceKey fun b => b.store_id r.buffer
    · rw [hstand, if_neg (by decide)]
  · rw [hcont, accessed]
    rcases hr.op_valid with h | h
    · -- a read leaves the bag and the memory alone
      rw [h, if_neg (by decide), hstand, if_neg (by decide)]
      intro a v
      rw [hlatest, written, h, if_neg (fun hw => absurd hw.1 (by decide)), Option.none_or]
      exact hw.stores a v
    · rw [h, if_pos rfl]
      refine hw.stores.replaceKey hb hid (fun b => b.store_id r.buffer)
        (fun b => b.store_payload r.buffer) fun a => ?_
      rw [hlatest, written]
      by_cases ha : a = r.address
      · rw [if_pos ⟨h, ha.symm⟩, if_pos ha, Option.some_or]
      · rw [if_neg (fun hw => ha hw.2.symm), if_neg ha, Option.none_or]
  · intro hread
    rw [output, hread, if_neg (by decide), ← hid]
    exact (hw.stores.get hb).symm

/-- `FillWithData` sets up the memory of the loaded values. -/
theorem holds_of_fillWithData {data : List (OramBlock D)} {fill : FillDraws C}
    {w : PathSystem D (TreeOramServerStorage C)}
    (hfill : fillWithData (OramService.stub C P.id) P data fill (PathSystem.init C P) = (.ok (), w))
    (hlen : data.length ≤ P.capacity) (hids : UniqueKeys OramBlock.id (loadedBlocks data))
    (hpad : ∀ t i, (fill.pad t i).isNormal = false) :
    w.Holds P data (loadedValue data) := by
  obtain ⟨w', hrun, hinv, hcont, hinit⟩ := fillWithData_spec hpad hlen hids
  obtain rfl : w' = w := congrArg Prod.snd (hrun.symm.trans hfill)
  rw [← loadedBlocks] at hcont
  exact ⟨hinv, hinit, by rw [hcont], by rw [hcont]; exact stores_loadedBlocks hids⟩

/-- **A standalone Path ORAM is a memory.** After a load, every sequence `past`
of reads and writes of loaded addresses returns; so does every further one, and
a read returns the data and the length that the latest write has left there, or
the loaded ones. -/
theorem pathOram_refines_memory {P : PathOramConfig} (hstand : P.standalone = true)
    {data : List (OramBlock D)} {fill : FillDraws C}
    {w : PathSystem D (TreeOramServerStorage C)}
    (hfill : fillWithData (OramService.stub C P.id) P data fill (PathSystem.init C P) = (.ok (), w))
    (hlen : data.length ≤ P.capacity) (hids : UniqueKeys OramBlock.id (loadedBlocks data))
    (hpad : ∀ t i, (fill.pad t i).isNormal = false)
    (past : List (PathRequest C)) (r : PathRequest C)
    (hproper : ∀ q ∈ past ++ [r], q.Proper data) :
    ∃ (outs : List (OramBlock D)) (w' : PathSystem D (TreeOramServerStorage C))
        (out : OramBlock D) (w'' : PathSystem D (TreeOramServerStorage C)),
      Prog.trace Exit.fatal (PathRequest.run P) past w = some (outs.map .ok, w') ∧
      r.run P w' = (.ok out, w'') ∧
      (r.op = .kRead →
        some out.payload = latest PathRequest.written (loadedValue data) past r.address) := by
  have hstart := holds_of_fillWithData hfill hlen hids hpad
  obtain ⟨outs, w', hpast, hw'⟩ := Prog.trace_total Exit.fatal
    (fun (q : PathRequest C) (_ : PathSystem D (TreeOramServerStorage C)) => q.Proper data)
    (fun past w => w.Holds P data (latest PathRequest.written (loadedValue data) past))
    (fun past q _ w _ hq hw => by
      obtain ⟨out, w', hrun, hw', -⟩ := q.run_spec hstand hq hw
      exact ⟨out, w', hrun, hw'⟩)
    hstart (Prog.Along.of_forall (fun q hq _ => hproper q (List.mem_append_left _ hq)) w)
  obtain ⟨out, w'', hrun, -, hread⟩ :=
    r.run_spec hstand (hproper r (List.mem_append_right _ List.mem_cons_self)) hw'
  exact ⟨outs, w', out, w'', hpast, hrun, hread⟩

/-! ### A small instance -/

/-- Two leaves, buckets of two blocks. -/
def smallTree : PathOramConfig := .new 0 4 2 true

/-- One bucket of one block. -/
def oneBucket : PathOramConfig := .new 0 1 1 true

def smallBlock (a v : ℕ) : OramBlock ℕ := ⟨⟨a, .kNormal, 1⟩, v⟩

def dummyBlock : OramBlock ℕ := ⟨⟨0, .kDummy, 0⟩, 0⟩

def smallFill : FillDraws (Codec.plain ℕ) := ⟨fun _ _ => 0, fun _ _ => dummyBlock, fun _ _ => ()⟩

theorem smallFill_pad (t : Tag) (i : ℕ) : (smallFill.pad t i).isNormal = false := rfl

def smallDraws : AccessDraws (Codec.plain ℕ) := ⟨1, fun _ _ => dummyBlock, fun _ _ => ()⟩

theorem pathOram_refines_memory_small :
    ∃ w, fillWithData (OramService.stub _ 0) smallTree [smallBlock 3 30, smallBlock 5 50] smallFill
        (PathSystem.init _ smallTree) = (.ok (), w) ∧
      ∃ (outs : List (OramBlock ℕ)) (w' : _) (out : _) (w'' : _),
        Prog.trace Exit.fatal (PathRequest.run smallTree)
          [⟨.kWrite, 3, smallBlock 3 31, smallDraws⟩, ⟨.kRead, 5, dummyBlock, smallDraws⟩] w =
            some (outs.map .ok, w') ∧
        PathRequest.run smallTree ⟨.kRead, 3, dummyBlock, smallDraws⟩ w' = (.ok out, w'') ∧
        out.payload = (31, 1) := by
  have hids : UniqueKeys OramBlock.id (loadedBlocks [smallBlock 3 30, smallBlock 5 50]) := by
    decide
  obtain ⟨w, hfill, -⟩ := fillWithData_spec (P := smallTree) smallFill_pad (by decide) hids
  obtain ⟨outs, w', out, w'', hpast, hrun, hread⟩ := pathOram_refines_memory rfl hfill
    (by decide) hids (fun _ _ => rfl)
    [⟨.kWrite, 3, smallBlock 3 31, smallDraws⟩, ⟨.kRead, 5, dummyBlock, smallDraws⟩]
    ⟨.kRead, 3, dummyBlock, smallDraws⟩ (by
      intro q hq
      simp only [List.cons_append, List.nil_append, List.mem_cons, List.not_mem_nil, or_false] at hq
      rcases hq with rfl | rfl | rfl
      · exact ⟨.inr rfl, ⟨smallBlock 3 30, by decide⟩, fun _ _ => rfl⟩
      · exact ⟨.inl rfl, ⟨smallBlock 5 50, by decide⟩, fun _ _ => rfl⟩
      · exact ⟨.inl rfl, ⟨smallBlock 3 30, by decide⟩, fun _ _ => rfl⟩)
  exact ⟨w, hfill, outs, w', out, w'', hpast, hrun, Option.some.inj (hread rfl)⟩

/-! ## Any call, in either mode

An embedded controller takes the block of a successful read out of the ORAM, and
`AccessDirect` reads a path that its caller names. So what is stored after a history is
what was loaded, less what has been taken out (`storedIds`). -/

/-- A call on an initialised controller: a real `InternalAccess`, or an
`AccessDirect` whose caller names the path. -/
inductive PathCall (C : Codec D) where
  | access (op : Operation) (address : ℕ) (buffer : OramBlock D) (draws : AccessDraws C)
  | direct (op : Operation) (address position : ℕ) (buffer : OramBlock D) (draws : AccessDraws C)

namespace PathCall

/-- The operation of the call. -/
def op : PathCall C → Operation
  | access op .. => op
  | direct op .. => op

/-- The address the call is about. -/
def address : PathCall C → ℕ
  | access _ a .. => a
  | direct _ a .. => a

/-- The random choices of the call. -/
def draws : PathCall C → AccessDraws C
  | access _ _ _ draws => draws
  | direct _ _ _ _ draws => draws

/-- The call itself. -/
def run (P : PathOramConfig) : PathCall C →
    Prog Exit (PathSystem D (TreeOramServerStorage C)) (OramBlock D)
  | access op a buffer draws =>
    internalAccess (OramService.stub C P.id) P op a buffer draws false
  | direct op a position buffer draws =>
    accessDirect (OramService.stub C P.id) P op a position buffer draws

/-- The call took the block of `a` out of the ORAM: a successful read of `a` by
an embedded controller. -/
def TookOut (P : PathOramConfig) (a : ℕ) (p : PathCall C × Except Exit (OramBlock D)) : Prop :=
  P.standalone = false ∧ p.1.op ≠ .kWrite ∧ p.1.address = a ∧ p.2.isOk = true

instance (P : PathOramConfig) (a : ℕ) (p : PathCall C × Except Exit (OramBlock D)) :
    Decidable (TookOut P a p) :=
  inferInstanceAs (Decidable (_ ∧ _ ∧ _ ∧ _))

end PathCall

/-- The addresses that are stored after a history of calls: those loaded, less
those taken out. -/
def storedIds (P : PathOramConfig) (data : List (OramBlock D))
    (past : List (PathCall C × Except Exit (OramBlock D))) : Multiset ℕ :=
  ((loadedBlocks data).map OramBlock.id).filter fun a => ¬∃ p ∈ past, PathCall.TookOut P a p

theorem storedIds_snoc (P : PathOramConfig) (data : List (OramBlock D))
    (past : List (PathCall C × Except Exit (OramBlock D)))
    (p : PathCall C × Except Exit (OramBlock D)) :
    storedIds P data (past ++ [p]) =
      (storedIds P data past).filter fun a => ¬PathCall.TookOut P a p := by
  rw [storedIds, storedIds, Multiset.filter_filter]
  refine Multiset.filter_congr fun a _ => ?_
  constructor
  · intro h
    exact ⟨fun hp => h ⟨p, List.mem_append_right _ List.mem_cons_self, hp⟩,
      fun ⟨q, hq, hqa⟩ => h ⟨q, List.mem_append_left _ hq, hqa⟩⟩
  · rintro ⟨hp, hpast⟩ ⟨q, hq, hqa⟩
    rcases List.mem_append.mp hq with hq | hq
    · exact hpast ⟨q, hq, hqa⟩
    · exact hp (List.mem_singleton.mp hq ▸ hqa)

/-- Nothing is taken out by a call that did not return. -/
theorem storedIds_snoc_error (P : PathOramConfig) (data : List (OramBlock D))
    (past : List (PathCall C × Except Exit (OramBlock D))) (c : PathCall C) (e : Exit) :
    storedIds P data (past ++ [(c, .error e)]) = storedIds P data past := by
  rw [storedIds_snoc]
  exact Multiset.filter_eq_self.mpr fun a _ h => nomatch h.2.2.2

namespace PathSystem

/-- The system after a history of calls. -/
structure Tracks (P : PathOramConfig) (data : List (OramBlock D))
    (past : List (PathCall C × Except Exit (OramBlock D)))
    (w : PathSystem D (TreeOramServerStorage C)) : Prop where
  inv : w.Inv P
  initialized : w.client.isInitialized = true
  ids : (w.contents P).map OramBlock.id = storedIds P data past

end PathSystem

/-- A call that returned: its effect on the bag is its effect on the stored addresses. -/
theorem storedIds_snoc_ok {data : List (OramBlock D)}
    {past : List (PathCall C × Except Exit (OramBlock D))} (c : PathCall C)
    {buffer out : OramBlock D} {s : Multiset (OramBlock D)}
    (h : s.map OramBlock.id = storedIds P data past) :
    (accessed P c.op c.address buffer s).map OramBlock.id =
      storedIds P data (past ++ [(c, .ok out)]) := by
  rw [storedIds_snoc, ← h, accessed]
  have hkeep : (P.standalone = false → c.op = .kWrite) →
      (s.map OramBlock.id).filter (fun a => ¬PathCall.TookOut P a (c, .ok out)) =
        s.map OramBlock.id :=
    fun hk => Multiset.filter_eq_self.mpr fun a _ ht => ht.2.1 (hk ht.1)
  split
  next hop => rw [hkeep fun _ => hop, map_key_replaceKey fun b => b.store_id buffer]
  next hop =>
    split
    next hstand =>
      rw [map_key_dropKey]
      refine Multiset.filter_congr fun a _ => ?_
      constructor
      · intro hne ht
        exact hne ht.2.2.1.symm
      · intro ht he
        exact ht ⟨hstand, hop, he.symm, rfl⟩
    next hstand => rw [hkeep fun hs => absurd hs hstand]

/-- The step: whatever the process survives keeps the system on track. -/
theorem PathCall.run_tracks {data : List (OramBlock D)}
    {past : List (PathCall C × Except Exit (OramBlock D))} {c : PathCall C}
    (hpad : ∀ l j, (c.draws.pad l j).isNormal = false)
    {w w' : PathSystem D (TreeOramServerStorage C)} {r : Except Exit (OramBlock D)}
    (hw : w.Tracks P data past) (hrun : Prog.survive Exit.fatal (c.run P) w = some (r, w')) :
    w'.Tracks P data (past ++ [(c, r)]) := by
  obtain ⟨hrun, hfatal⟩ := Prog.eq_of_survive hrun
  -- a call that stops with a status and leaves the bag alone
  have hstop : ∀ st, w'.Inv P → w'.contents P = w.contents P → w'.client.isInitialized = true →
      r = .error (.status st) → w'.Tracks P data (past ++ [(c, r)]) := by
    rintro st hinv hcont hinit rfl
    exact ⟨hinv, hinit, by rw [storedIds_snoc_error, hcont, hw.ids]⟩
  cases c with
  | access op a buffer draws =>
    have hop : op ≠ .kInvalid := by
      rintro rfl
      rw [run, internalAccess, Prog.get_bind, hw.initialized, if_neg Bool.false_ne_true.symm,
        if_pos rfl] at hrun
      cases hrun
      exact Bool.noConfusion (hfatal _ rfl)
    by_cases hmem : ∃ b ∈ w.contents P, b.id = a
    · obtain ⟨b, hb, hid⟩ := hmem
      obtain ⟨w₁, haccess, hinv, hcont, hinit⟩ :=
        internalAccess_found buffer hw.inv hw.initialized hop hpad hb hid
      cases haccess.symm.trans hrun
      exact ⟨hinv, hinit, by rw [hcont]; exact storedIds_snoc_ok (.access op a buffer draws) hw.ids⟩
    · obtain ⟨st, w₁, haccess, -, hinv, hcont, hinit⟩ := internalAccess_missing buffer
        draws hw.inv hw.initialized hop fun b hb he => hmem ⟨b, hb, he⟩
      cases haccess.symm.trans hrun
      exact hstop st hinv hcont hinit rfl
  | direct op a x buffer draws =>
    rw [run, accessDirect, Prog.get_bind, hw.initialized, if_neg Bool.false_ne_true.symm] at hrun
    by_cases hx : x < P.numberOfLeafs
    · have hsettled : w.Settled P (· ∈ pathTags P.treeLevel x) := hw.inv.mono fun _ hf => hf.elim
      by_cases hmem : ∃ b, (b ∈ w.client.stash ∨ b ∈ pathBlocks P.treeLevel x w.server) ∧ b.id = a
      · obtain ⟨b, hb, hid⟩ := hmem
        obtain ⟨w₁, haccess, hinv, hcont, hinit, -⟩ :=
          internalAccessDirect_found op buffer hx hpad hsettled hb hid
        cases haccess.symm.trans hrun
        refine ⟨hinv, hinit.trans hw.initialized, ?_⟩
        rw [hcont]
        exact storedIds_snoc_ok (.direct op a x buffer draws) hw.ids
      · obtain ⟨st, w₁, haccess, -, hinv, hcont, hinit, -⟩ := internalAccessDirect_missing op
          buffer draws hx hsettled fun b hb he => hmem ⟨b, hb, he⟩
        cases haccess.symm.trans hrun
        exact hstop st hinv hcont (hinit.trans hw.initialized) rfl
    · have haccess := internalAccessDirect_out_of_range (OramService.stub C P.id) op a buffer draws
        false (w := w) hx
      cases haccess.symm.trans hrun
      exact hstop _ hw.inv rfl hw.initialized rfl

/-- **Where a Path ORAM keeps its blocks.** After a load, whatever sequence of
real accesses and direct accesses the process survives, found blocks or not,
named paths or drawn ones: a stored address has exactly one real copy in stash
and tree, a copy in the bucket at level `l`, offset `o` has a position whose path
runs through that bucket, and nothing else is stored. -/
theorem pathOram_location_invariant {P : PathOramConfig}
    {data : List (OramBlock D)} {fill : FillDraws C}
    {w : PathSystem D (TreeOramServerStorage C)}
    (hfill : fillWithData (OramService.stub C P.id) P data fill (PathSystem.init C P) = (.ok (), w))
    (hlen : data.length ≤ P.capacity) (hids : UniqueKeys OramBlock.id (loadedBlocks data))
    (hpad : ∀ t i, (fill.pad t i).isNormal = false)
    (calls : List (PathCall C)) (hcalls : ∀ c ∈ calls, ∀ l j, (c.draws.pad l j).isNormal = false)
    {outcomes : List (Except Exit (OramBlock D))} {w' : PathSystem D (TreeOramServerStorage C)}
    (hrun : Prog.trace Exit.fatal (PathCall.run P) calls w = some (outcomes, w')) :
    (∀ a ∈ storedIds P data (calls.zip outcomes),
        ((w'.contents P).map OramBlock.id).count a = 1) ∧
      (∀ l o, l ≤ P.treeLevel → o < 2 ^ l → ∀ b ∈ w'.server.normalAt (l, o),
        w'.client.positionMap.index b.id >>> (P.treeLevel - l) = o) ∧
      ∀ b ∈ w'.contents P, b.id ∈ storedIds P data (calls.zip outcomes) := by
  have hstart := holds_of_fillWithData hfill hlen hids hpad
  have hw : w.Tracks P data ([] : List (PathCall C × Except Exit (OramBlock D))) :=
    ⟨hstart.inv, hstart.initialized, by
      rw [hstart.ids, storedIds]
      exact (Multiset.filter_eq_self.mpr fun a _ ⟨p, hp, _⟩ => absurd hp List.not_mem_nil).symm⟩
  have hend := Prog.trace_history Exit.fatal
    (fun (c : PathCall C) (_ : PathSystem D (TreeOramServerStorage C)) =>
      ∀ l j, (c.draws.pad l j).isNormal = false)
    (fun past w => w.Tracks P data past)
    (fun past c w r w' hc hw hstep => PathCall.run_tracks hc hw hstep)
    [] hw (Prog.Along.of_forall (fun c hc _ => hcalls c hc) w) hrun
  rw [List.nil_append] at hend
  refine ⟨fun a ha => ?_, fun l o hl ho b hb => ?_, fun b hb => ?_⟩
  · exact Multiset.count_eq_one_of_mem hend.inv.unique (hend.ids ▸ ha)
  · rw [Nat.shiftRight_eq_div_pow]
    exact hend.inv.on_path (l, o) (mem_treeTags.mpr ⟨hl, ho⟩) not_false b hb
  · rw [← hend.ids]
    exact Multiset.mem_map_of_mem _ hb

/-- An embedded controller: a direct access to the wrong path, a read that takes
a block out, and a read of what is gone. -/
theorem pathOram_location_invariant_small :
    ∃ w, fillWithData (OramService.stub _ 0) { smallTree with standalone := false }
        [smallBlock 3 30, smallBlock 5 50] smallFill
        (PathSystem.init _ { smallTree with standalone := false }) = (.ok (), w) ∧
      ∀ outcomes w', Prog.trace Exit.fatal (PathCall.run { smallTree with standalone := false })
          [.direct .kRead 3 7 dummyBlock smallDraws, .access .kRead 3 dummyBlock smallDraws,
            .access .kRead 3 dummyBlock smallDraws] w = some (outcomes, w') →
        ∀ b ∈ w'.contents smallTree, b.id = 3 ∨ b.id = 5 := by
  have hids : UniqueKeys OramBlock.id (loadedBlocks [smallBlock 3 30, smallBlock 5 50]) := by
    decide
  obtain ⟨w, hfill, -⟩ := fillWithData_spec (P := { smallTree with standalone := false })
    smallFill_pad (by decide) hids
  refine ⟨w, hfill, fun outcomes w' hrun b hb => ?_⟩
  have hmem := (pathOram_location_invariant hfill (by decide) hids (fun _ _ => rfl) _ (by
    intro c hc
    simp only [List.mem_cons, List.not_mem_nil, or_false] at hc
    rcases hc with rfl | rfl | rfl <;> exact fun _ _ => rfl) hrun).2.2 b hb
  obtain ⟨c, hc, hid⟩ := Multiset.mem_map.mp (Multiset.mem_filter.mp hmem).1
  obtain ⟨hc, -⟩ := mem_loadedBlocks.mp hc
  simp only [List.mem_cons, List.not_mem_nil, or_false] at hc
  rcases hc with rfl | rfl
  · exact .inl hid.symm
  · exact .inr hid.symm

end ObliviousRam
