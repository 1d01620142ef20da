import ObliviousRam.LinearMemory
import ObliviousRam.PathMemory

set_option autoImplicit false

/-!
# Linear and Path ORAM behind one interface

The same calls on a linear and on a standalone Path controller that hold the
same data. The two are not the same memory: a Path ORAM refuses an address that
is not stored where a linear one does nothing and says `OK`, and a write replaces
`data_len` in the one and leaves it in the other.

`Interchangeable` is the condition on a call and the calls before it under which
neither shows, and the calls of a sequence agree exactly if all of them meet it.
-/

namespace ObliviousRam

variable {D : Type} {C : Codec D}

/-- The arguments of one `Access`, with the random choices of either controller. -/
structure OramCall (C : Codec D) where
  op : Operation
  address : ℕ
  buffer : OramBlock D
  iv : ℕ → C.Iv
  draws : AccessDraws C

namespace OramCall

/-- The call on a linear ORAM. -/
def linear (c : OramCall C) : Prog Exit (LinearSystem (FlatOramServerStorage C)) (OramBlock D) :=
  LinearOramController.access (OramService.flatStub C) c.op c.address c.buffer c.iv

/-- The call on a Path ORAM, as a request. -/
def request (c : OramCall C) : PathRequest C := ⟨c.op, c.address, c.buffer, c.draws⟩

/-- A read or a write; the padding blocks do not pose as real ones. -/
structure Proper (c : OramCall C) : Prop where
  op_valid : c.op = .kRead ∨ c.op = .kWrite
  pad_dummy : ∀ l j, (c.draws.pad l j).isNormal = false

/-- What the call writes under `a`. -/
def written (c : OramCall C) (a : ℕ) : Option (D × ℕ) := c.request.written a

/-- The two controllers agree on the call: both succeed or both fail, and what
a read hands out has the same bytes and the same length. -/
def Agree (c : OramCall C) (l p : Except Exit (OramBlock D)) : Prop :=
  l.isOk = p.isOk ∧ (c.op = .kRead → ∀ b b', l = .ok b → p = .ok b' → b.payload = b'.payload)

end OramCall

/-- A linear and a Path ORAM. -/
abbrev OramPair (C : Codec D) : Type :=
  LinearSystem (FlatOramServerStorage C) × PathSystem D (TreeOramServerStorage C)

/-- The call, made on both. -/
def OramCall.both (P : PathOramConfig) (c : OramCall C) :
    Prog Exit (OramPair C) (Except Exit (OramBlock D) × Except Exit (OramBlock D)) := fun w =>
  (.ok ((c.linear w.1).1, (c.request.run P w.2).1), ((c.linear w.1).2, (c.request.run P w.2).2))

/-- The address is stored, and a read of it finds the length that was loaded. -/
def Interchangeable (data : List (OramBlock D)) (past : List (OramCall C)) (c : OramCall C) :
    Prop :=
  ∃ b ∈ data, blockEqual c.address b = true ∧
    (c.op = .kRead → ∀ v, latest OramCall.written (fun _ => none) past c.address = some v →
      v.2 = b.header.dataLen)

/-! ## The linear side

A linear ORAM answers every call: an address that is not stored leaves `*data` as it
was. -/

open LinearOramController in
/-- An access that nothing disturbs. -/
theorem linear_access {w : LinearSystem (FlatOramServerStorage C)}
    (hinit : w.client.isInitialized = true) {c : OramCall C} (hop : c.op ≠ .kInvalid) :
    ∃ out w', c.linear w = (.ok out, w') ∧ w'.client.isInitialized = true ∧
      w'.server.contents = w.server.contents.map (touchBlock c.op c.address c.buffer.data) ∧
      (c.op = .kRead →
        out = (w.server.contents.filter (blockEqual c.address)).getLast?.getD c.buffer) := by
  have hrun : c.linear w =
      (.ok (accessBlocks c.op c.address c.iv 0 c.buffer w.server.storage.blocks).1,
        ⟨w.client, ⟨{ w.server.storage with
          blocks := (accessBlocks c.op c.address c.iv 0 c.buffer w.server.storage.blocks).2 }⟩⟩) := by
    rw [OramCall.linear, access, Prog.get_bind, hinit, if_neg Bool.false_ne_true.symm,
      internalAccess, if_neg hop]
    rfl
  refine ⟨_, _, hrun, hinit, ?_, fun hread => ?_⟩
  · exact decrypt_accessBlocks c.op c.address c.iv w.server.storage.blocks 0 c.buffer
  · rw [hread]
    exact accessBlocks_read c.address c.iv w.server.storage.blocks 0 c.buffer

/-- A call that has returned, in the history of the linear ORAM. -/
def OramCall.finished (c : OramCall C) : LinearRequest C × Except Exit (OramBlock D) :=
  (⟨c.op, c.address, c.buffer, c.iv⟩, .ok c.buffer)

/-- What a call writes, seen from the history of the linear ORAM. -/
theorem written_finished (c : OramCall C) (a : ℕ) :
    LinearRequest.written c.finished a = (c.written a).map Prod.fst := by
  have hwritten : c.written a =
      if c.op = .kWrite ∧ c.address = a then some c.buffer.payload else none := rfl
  rw [LinearRequest.written, hwritten]
  by_cases h : c.op = .kWrite ∧ c.address = a
  · rw [if_pos ⟨h.1, h.2, rfl⟩, if_pos h]
    rfl
  · rw [if_neg fun h' => h ⟨h'.1, h'.2.1⟩, if_neg h]
    rfl

/-- What a loaded block has become on the linear side. -/
theorem current_finished (past : List (OramCall C)) {b : OramBlock D} (hb : b.isNormal = true) :
    current (past.map OramCall.finished) b =
      ⟨b.header, ((latest OramCall.written (fun _ => none) past b.id).map Prod.fst).getD b.data⟩ := by
  have hwritten : (fun c : OramCall C => LinearRequest.written c.finished) =
      fun c a => (c.written a).map Prod.fst :=
    funext fun c => funext (written_finished c)
  rw [current, if_pos hb, latest_map_list, hwritten]
  exact congrArg (fun v : Option D => (⟨b.header, v.getD b.data⟩ : OramBlock D))
    (latest_map Prod.fst OramCall.written (fun _ => none) past b.id)

/-! ## The Path side

A Path ORAM fails for an address that is not stored. For one that is, `PathAccess` says
what is returned, length included. -/

/-- The address of the call is stored. -/
def OramCall.stored (data : List (OramBlock D)) (c : OramCall C) : Bool :=
  data.any (blockEqual c.address)

/-- What the Path ORAM has under the address of a loaded block. -/
theorem latest_request {data : List (OramBlock D)}
    (hids : UniqueKeys OramBlock.id (loadedBlocks data)) (past : List (OramCall C))
    {b : OramBlock D} (hb : b ∈ data) (hnormal : b.isNormal = true) :
    latest PathRequest.written (loadedValue data)
        ((past.filter (OramCall.stored data)).map OramCall.request) b.id =
      some ((latest OramCall.written (fun _ => none) past b.id).getD b.payload) := by
  have hloaded : loadedValue data b.id = some b.payload :=
    (stores_loadedBlocks hids).get (mem_loadedBlocks.mpr ⟨hb, hnormal⟩)
  have hkept : ∀ c ∈ past, c.stored data = false → c.written b.id = none := by
    intro c _ hc
    refine if_neg fun h => ?_
    rw [OramCall.stored, List.any_eq_false] at hc
    exact hc b hb (blockEqual_iff.mpr ⟨h.2.symm, hnormal⟩)
  rw [latest_map_list, latest_eq_or, hloaded]
  rw [show (latest (fun c : OramCall C => c.request.written) (fun _ => none)
    (past.filter (OramCall.stored data)) b.id) = _ from latest_filter _ OramCall.written _ hkept]
  cases latest OramCall.written (fun _ => none) past b.id with
  | none => rfl
  | some v => rfl

/-! ## Both at once

Both histories are kept, one beside the other. A call agrees exactly if it meets
`Interchangeable` in the histories so far, and the run lemma needs this of one call at a
time. -/

/-- The two ORAMs after a history of calls. -/
structure OramPair.Holds (P : PathOramConfig) (data : List (OramBlock D))
    (past : List (OramCall C)) (w : OramPair C) : Prop where
  initialized : w.1.client.isInitialized = true
  contents_eq : w.1.server.contents = data.map (current (past.map OramCall.finished))
  path : w.2.Holds P data (latest PathRequest.written (loadedValue data)
    ((past.filter (OramCall.stored data)).map OramCall.request))

/-- **One call on both.** They go on holding the data, and they agree exactly if
the call is interchangeable. -/
theorem both_spec {P : PathOramConfig} (hstand : P.standalone = true) {data : List (OramBlock D)}
    (hids : UniqueKeys OramBlock.id (loadedBlocks data)) {past : List (OramCall C)}
    {c : OramCall C} (hc : c.Proper) {w : OramPair C} (hw : w.Holds P data past) :
    (c.Agree (c.linear w.1).1 (c.request.run P w.2).1 ↔ Interchangeable data past c) ∧
      ∃ r w', Prog.survive Exit.fatal (c.both P) w = some (r, w') ∧
        w'.Holds P data (past ++ [c]) := by
  have hop : c.op ≠ .kInvalid := by
    rcases hc.op_valid with h | h <;> rw [h] <;> exact nofun
  obtain ⟨out, wl, hlinear, hinit, hcontents, hread⟩ := linear_access hw.initialized hop
  have hcontents' : wl.server.contents =
      data.map (current ((past ++ [c]).map OramCall.finished)) := by
    rw [hcontents, hw.contents_eq, List.map_map, List.map_append, List.map_singleton]
    exact List.map_congr_left fun b _ =>
      (current_snoc_ok _ (r := ⟨c.op, c.address, c.buffer, c.iv⟩) hop c.buffer b).symm
  by_cases hstored : ∃ b ∈ data, blockEqual c.address b = true
  · obtain ⟨b, hb, hequal⟩ := hstored
    obtain ⟨hid, hnormal⟩ := blockEqual_iff.mp hequal
    have hkeep : c.stored data = true := List.any_eq_true.mpr ⟨b, hb, hequal⟩
    obtain ⟨out', wp, hpath, hholds, hread'⟩ := PathRequest.run_spec (r := c.request) hstand
      ⟨hc.op_valid, ⟨b, hb, hnormal, hid⟩, hc.pad_dummy⟩ hw.path
    refine ⟨?_, _, (wl, wp), Prog.survive_ok (by rw [OramCall.both, hlinear, hpath]), hinit,
      hcontents', ?_⟩
    · rw [hlinear, hpath, Interchangeable]
      have hlatest := latest_request hids past hb hnormal
      rw [hid] at hlatest
      -- what the two reads hand out
      have hvalues : c.op = .kRead →
          out.payload = (((latest OramCall.written (fun _ => none) past c.address).map
              Prod.fst).getD b.data, b.header.dataLen) ∧
            out'.payload = (latest OramCall.written (fun _ => none) past c.address).getD
              b.payload := by
        intro hop
        refine ⟨?_, ?_⟩
        · rw [hread hop, hw.contents_eq, ← hid, getLast?_filter_current _ hids hb hnormal,
            Option.getD_some, current_finished past hnormal]
          rfl
        · exact Option.some.inj ((hread' hop).trans hlatest)
      constructor
      · rintro ⟨-, hagree⟩
        refine ⟨b, hb, hequal, fun hop v hv => ?_⟩
        have hsame := hagree hop out out' rfl rfl
        rw [(hvalues hop).1, (hvalues hop).2, hv] at hsame
        exact (congrArg Prod.snd hsame).symm
      · rintro ⟨b', hb', hequal', hlen⟩
        obtain rfl : b' = b := hids.eq_of_key_eq
          (mem_loadedBlocks.mpr ⟨hb', (blockEqual_iff.mp hequal').2⟩)
          (mem_loadedBlocks.mpr ⟨hb, hnormal⟩) ((blockEqual_iff.mp hequal').1.trans hid.symm)
        refine ⟨rfl, fun hop b₁ b₂ h₁ h₂ => ?_⟩
        cases h₁
        cases h₂
        rw [(hvalues hop).1, (hvalues hop).2]
        cases hv : latest OramCall.written (fun _ => none) past c.address with
        | none => rfl
        | some v => exact Prod.ext rfl (hlen hop v hv).symm
    · rw [List.filter_append, List.filter_singleton, hkeep, cond_true, List.map_append]
      exact hholds
  · have hskip : c.stored data = false := List.any_eq_false.mpr fun b hb h => hstored ⟨b, hb, h⟩
    have hmiss : ∀ b ∈ w.2.contents P, b.id ≠ c.address := by
      intro b hb hid
      have hmem : c.address ∈ (loadedBlocks data).map OramBlock.id := by
        rw [← hw.path.ids, ← hid]
        exact Multiset.mem_map_of_mem _ hb
      obtain ⟨b', hb', hid'⟩ := Multiset.mem_map.mp hmem
      obtain ⟨hb', hnormal⟩ := mem_loadedBlocks.mp hb'
      exact hstored ⟨b', hb', blockEqual_iff.mpr ⟨hid', hnormal⟩⟩
    obtain ⟨st, wp, haccess, -, hinv, hcont, hinit'⟩ := PathOramController.internalAccess_missing
      c.buffer c.draws hw.path.inv hw.path.initialized hop hmiss
    have hpath : c.request.run P w.2 = (.error (.status st), wp) :=
      (access_eq hw.path.initialized).trans haccess
    refine ⟨?_, _, (wl, wp), Prog.survive_ok (by rw [OramCall.both, hlinear, hpath]), hinit,
      hcontents', ?_⟩
    · rw [hlinear, hpath]
      exact ⟨fun h => (nomatch h.1), fun ⟨b, hb, hequal, _⟩ => absurd ⟨b, hb, hequal⟩ hstored⟩
    · rw [List.filter_append, List.filter_singleton, hskip, cond_false, List.append_nil]
      exact ⟨hinv, hinit', by rw [hcont, hw.path.ids], by rw [hcont]; exact hw.path.stores⟩

/-- The two ORAMs after they have been loaded. -/
theorem holds_of_fills {P : PathOramConfig} {data : List (OramBlock D)}
    (hlen : data.length ≤ P.capacity) (hids : UniqueKeys OramBlock.id (loadedBlocks data))
    {iv : ℕ → C.Iv} {fill : FillDraws C} (hpad : ∀ t i, (fill.pad t i).isNormal = false)
    {wl₀ wl : LinearSystem (FlatOramServerStorage C)} {wp : PathSystem D (TreeOramServerStorage C)}
    (hlinear : LinearOramController.fillWithData (OramService.flatStub C) data iv wl₀ =
      (.ok (), wl))
    (hpath : PathOramController.fillWithData (OramService.stub C P.id) P data fill
      (PathSystem.init C P) = (.ok (), wp)) : OramPair.Holds P data [] (wl, wp) := by
  cases hlinear
  refine ⟨rfl, ?_, holds_of_fillWithData hpath hlen hids hpad⟩
  rw [List.map_nil, map_current_nil]
  exact LinearOramController.contents_encrypted data iv

/-- **When a linear and a Path ORAM cannot be told apart.** Two controllers
loaded with the same data agree on every call of a sequence exactly if every one
of them is to an address that is stored, and every read of an address that has
been written finds the length it was loaded with. -/
theorem linear_path_agree_iff {P : PathOramConfig} (hstand : P.standalone = true)
    {data : List (OramBlock D)} (hlen : data.length ≤ P.capacity)
    (hids : UniqueKeys OramBlock.id (loadedBlocks data)) {iv : ℕ → C.Iv} {fill : FillDraws C}
    (hpad : ∀ t i, (fill.pad t i).isNormal = false)
    {wl₀ wl : LinearSystem (FlatOramServerStorage C)} {wp : PathSystem D (TreeOramServerStorage C)}
    (hlinear : LinearOramController.fillWithData (OramService.flatStub C) data iv wl₀ =
      (.ok (), wl))
    (hpath : PathOramController.fillWithData (OramService.stub C P.id) P data fill
      (PathSystem.init C P) = (.ok (), wp))
    {calls : List (OramCall C)} (hcalls : ∀ c ∈ calls, c.Proper) :
    Prog.Along Exit.fatal (OramCall.both P)
        (fun c w => c.Agree (c.linear w.1).1 (c.request.run P w.2).1) calls (wl, wp) ↔
      ∀ past c rest, calls = past ++ c :: rest → Interchangeable data past c := by
  exact Prog.along_iff_forall_history (fun past w => OramPair.Holds P data past w)
    (Interchangeable data) (fun past c w hc hw => both_spec hstand hids hc hw) hcalls []
    (holds_of_fills hlen hids hpad hlinear hpath)

/-! ### A small instance -/

def pairData : List (OramBlock ℕ) := [smallBlock 3 30, smallBlock 5 50]

/-- A read or a write of one word of 30 bytes. -/
def pairCall (op : Operation) (a v : ℕ) : OramCall (Codec.plain ℕ) :=
  ⟨op, a, ⟨⟨a, .kNormal, 30⟩, v⟩, fun _ => (), smallDraws⟩

theorem pairCall_proper (op : Operation) (hop : op = .kRead ∨ op = .kWrite) (a v : ℕ) :
    (pairCall op a v).Proper := ⟨hop, fun _ _ => rfl⟩

/-- The linear ORAM after the load. -/
def pairLinear : LinearSystem (FlatOramServerStorage (Codec.plain ℕ)) :=
  ⟨⟨true⟩, ⟨⟨pairData, []⟩⟩⟩

theorem pair_fill : LinearOramController.fillWithData (OramService.flatStub (Codec.plain ℕ))
    pairData (fun _ => ()) ⟨.new, ⟨⟨[], []⟩⟩⟩ = (.ok (), pairLinear) := rfl

/-- The two blocks have different ids. -/
theorem pairData_unique : UniqueKeys OramBlock.id (loadedBlocks pairData) := by decide

/-- A read or a write of a word of the length that was loaded. -/
def wordCall (op : Operation) (a v : ℕ) : OramCall (Codec.plain ℕ) :=
  ⟨op, a, smallBlock a v, fun _ => (), smallDraws⟩

/-- A write that keeps the length, a read of the other block, and a read of what was
written. -/
theorem linear_path_agree_iff_small : ∃ wp,
    PathOramController.fillWithData (OramService.stub _ 0) smallTree pairData smallFill
      (PathSystem.init _ smallTree) = (.ok (), wp) ∧
    Prog.Along Exit.fatal (OramCall.both smallTree)
      (fun c w => c.Agree (c.linear w.1).1 (c.request.run smallTree w.2).1)
      [wordCall .kWrite 3 7, wordCall .kRead 5 0, wordCall .kRead 3 0] (pairLinear, wp) := by
  obtain ⟨wp, hfill, -⟩ := PathOramController.fillWithData_spec (P := smallTree) smallFill_pad
    (by decide) pairData_unique
  refine ⟨wp, hfill, (linear_path_agree_iff rfl (by decide) pairData_unique smallFill_pad pair_fill
    hfill fun c hc => ?_).mpr fun past c rest he => ?_⟩
  · simp only [List.mem_cons, List.not_mem_nil, or_false] at hc
    rcases hc with rfl | rfl | rfl
    · exact ⟨.inr rfl, fun _ _ => rfl⟩
    · exact ⟨.inl rfl, fun _ _ => rfl⟩
    · exact ⟨.inl rfl, fun _ _ => rfl⟩
  · -- the call is the first, the second or the third
    rcases past with _ | ⟨c₁, _ | ⟨c₂, _ | ⟨c₃, past⟩⟩⟩
    · cases he
      exact ⟨smallBlock 3 30, by decide, rfl, nofun⟩
    · cases he
      exact ⟨smallBlock 5 50, by decide, rfl, fun _ v hv => nomatch hv⟩
    · cases he
      refine ⟨smallBlock 3 30, by decide, rfl, fun _ v hv => ?_⟩
      cases hv
      rfl
    · simp at he

/-- A write of 30 bytes and a read: one ORAM says 30, the other the length that was loaded. -/
theorem linear_keeps_length : ∃ wp,
    PathOramController.fillWithData (OramService.stub _ 0) smallTree pairData smallFill
      (PathSystem.init _ smallTree) = (.ok (), wp) ∧
    ¬Prog.Along Exit.fatal (OramCall.both smallTree)
      (fun c w => c.Agree (c.linear w.1).1 (c.request.run smallTree w.2).1)
      [pairCall .kWrite 3 7, pairCall .kRead 3 0] (pairLinear, wp) := by
  obtain ⟨wp, hfill, -⟩ := PathOramController.fillWithData_spec (P := smallTree) smallFill_pad
    (by decide) pairData_unique
  refine ⟨wp, hfill, fun hagree => ?_⟩
  have hstart : OramPair.Holds smallTree pairData [] (pairLinear, wp) :=
    holds_of_fills (by decide) pairData_unique smallFill_pad pair_fill hfill
  obtain ⟨-, r, w', hcall, hw'⟩ := both_spec rfl pairData_unique
    (pairCall_proper .kWrite (.inr rfl) 3 7) hstart
  obtain ⟨b, hb, hequal, hlength⟩ := (both_spec rfl pairData_unique
    (pairCall_proper .kRead (.inl rfl) 3 0) hw').1.mp (hagree.2 r w' hcall).1
  have hloaded : 30 = b.header.dataLen := hlength rfl (7, 30) rfl
  rcases List.mem_cons.mp hb with rfl | hb
  · cases hloaded
  · rw [List.mem_singleton.mp hb] at hloaded
    cases hloaded

end ObliviousRam
