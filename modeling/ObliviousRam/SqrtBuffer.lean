import ObliviousRam.SqrtBounds

set_option autoImplicit false

/-!
# The caller's block in a square-root access

`Access` works on the caller's `*data` in place: a read copies the block there and
hands it to `WriteBlock`, a write hands `*data` itself to `WriteBlock`, and
`WriteBlock` calls `EncryptBlock` on what it is given before it is sent. `SqrtCaller`
has the caller's block in the state and runs the access as the source does.

* `SqrtCaller.access_line` — the outcome and the system are those of the access that hands
  the sealed block back; the caller's block is that sealed block, as bytes, or untouched.
* `sqrtOram_delivers_plaintext_iff` — in every reachable state, over any line: a read
  delivers plaintext and a write leaves the block alone exactly if the access is refused
  before `WriteBlock`, or is a read that returns an error.
-/

namespace ObliviousRam

open SqrtSystem SquareRootOramController

variable {D σ : Type} {C : Codec D} {K : SquareRootOramConfig}

/-- The fields of a block that `EncryptBlock` encrypts: `type`, `data_len` and `data`. -/
def OramBlock.encryptedPart (b : OramBlock D) : BlockType × D × ℕ := (b.header.type, b.payload)

/-- Read as a block, what `EncryptBlock` leaves is another block than before. -/
def Codec.Scrambles (C : Codec D) (V : C.Sealed → OramBlock D) : Prop :=
  ∀ iv b, (V (C.encryptBlock iv b)).encryptedPart ≠ b.encryptedPart

/-- A system together with the caller's `*data`. -/
structure SqrtCaller (D σ : Type) where
  system : SqrtSystem σ
  data : OramBlock D

namespace SqrtCaller

variable {α : Type} (S : SqrtStub C σ) (K : SquareRootOramConfig) (V : C.Sealed → OramBlock D)

/-- What is done without `*data`. -/
def besides (m : Prog Exit (SqrtSystem σ) α) : Prog Exit (SqrtCaller D σ) α :=
  Prog.zoom system (fun w x => { x with system := w }) m

/-- `WriteBlock` of `*data`, which it encrypts in place; `V` reads the bytes as a block. -/
def writeBlock (position : ℕ) (iv : C.Iv) : Prog Exit (SqrtCaller D σ) Unit := do
  let x ← Prog.get
  Prog.modify fun x => { x with data := V (C.encryptBlock iv x.data) }
  besides (SquareRootOramController.writeBlock S position (C.encryptBlock iv x.data))

/-- The steps of `InternalAccess` behind the two reads. -/
def finish (op : Operation) (address position : ℕ) (draws : SqrtDraws C) (block : OramBlock D) :
    Prog Exit (SqrtCaller D σ) Unit :=
  if block.isNormal && block.id != address then
    fail .kUnknownError
      s!"The requested id {address} does not match with the fetched block {block.id}"
      "InternalAccess"
  else do
    if op = .kRead then do
      Prog.modify fun x => { x with data := block }
      let _ ← Prog.attempt (writeBlock S V position draws.iv)
    else
      Prog.mapError (Exit.append (.make .kInvalidOperation "Cannot write back the block"
        "InternalAccess")) (writeBlock S V position draws.iv)
    Prog.mapError (Exit.append (.make .kUnknownError
      "Permutation failed or internal logic error!" "InternalAccess"))
      (besides (permuteOnFull S K draws.perm))

/-- `InternalAccess`. -/
def internalAccess (op : Operation) (address : ℕ) (draws : SqrtDraws C) :
    Prog Exit (SqrtCaller D σ) Unit := do
  let x ← Prog.get
  if x.system.client.isInitialized = false then
    fail .kInvalidOperation ("Cannot access ORAM before it is initialized." ++
      " You may need to call `InitOram()` and `FillWithData()` method first.") "InternalAccess"
  else if op = .kInvalid then Prog.throw (.abort "Invalid ORAM operation!")
  else
    match x.system.client.positionMap address with
    | none => fail .kInvalidArgument "The requested block does not exist!" "InternalAccess"
    | some position => do
      let block ← besides (fetch S K address position)
      finish S K V op address position draws block

/-- `OramController::Access`. -/
def access (op : Operation) (address : ℕ) (draws : SqrtDraws C) :
    Prog Exit (SqrtCaller D σ) Unit := do
  let x ← Prog.get
  if x.system.client.isInitialized = false then
    fail .kInvalidOperation "Cannot access ORAM before it is initialized" ""
  else internalAccess S K V op address draws

variable {S K V}

theorem besides_eq {m : Prog Exit (SqrtSystem σ) α} {w w' : SqrtSystem σ} {r : Except Exit α}
    (hm : m w = (r, w')) (b : OramBlock D) : besides m ⟨w, b⟩ = (r, ⟨w', b⟩) := by
  rw [besides, Prog.zoom, hm]

theorem writeBlock_eq {position : ℕ} {iv : C.Iv} {w w' : SqrtSystem σ} {b : OramBlock D}
    {r : Except Exit Unit}
    (hm : SquareRootOramController.writeBlock S position (C.encryptBlock iv b) w = (r, w')) :
    writeBlock S V position iv ⟨w, b⟩ = (r, ⟨w', V (C.encryptBlock iv b)⟩) := by
  rw [writeBlock, Prog.get_bind, Prog.modify_bind]
  exact besides_eq hm _

/-- The bytes that a step behind the reads leaves in `*data`. -/
def left (V : C.Sealed → OramBlock D) (op : Operation) (address : ℕ) (iv : C.Iv)
    (buffer block : OramBlock D) : OramBlock D :=
  if fits address block then V (C.encryptBlock iv (if op = .kRead then block else buffer))
  else buffer

/-- The two ways to write the steps behind the reads agree. -/
theorem finish_eq {op : Operation} {a t : ℕ} {buffer block : OramBlock D} {draws : SqrtDraws C}
    {w w' : SqrtSystem σ} {r : Except Exit C.Sealed}
    (hrun : SquareRootOramController.finish S K op a t buffer draws block w = (r, w')) :
    finish S K V op a t draws block ⟨w, buffer⟩ =
      (r.map fun _ => (), ⟨w', left V op a draws.iv buffer block⟩) := by
  rw [SquareRootOramController.finish] at hrun
  rw [finish, left, fits]
  split at hrun
  next hmiss =>
    rw [if_pos hmiss, hmiss]
    cases hrun
    rfl
  next hmatch =>
    rw [if_neg hmatch, Bool.eq_false_iff.mpr hmatch, Bool.not_false, if_pos rfl]
    -- from the write-back on, if it does not stop the access
    have hrest : ∀ (content : C.Sealed) (v : SqrtSystem σ) (g : Exit → Exit),
        (Prog.mapError g (permuteOnFull S K draws.perm) >>= fun _ =>
          (pure content : Prog Exit (SqrtSystem σ) C.Sealed)) v = (r, w') →
        ∀ b : OramBlock D, Prog.mapError g (besides (permuteOnFull S K draws.perm)) ⟨v, b⟩ =
          (r.map fun _ => (), ⟨w', b⟩) := by
      intro content v g hpermute b
      rcases hstep : permuteOnFull S K draws.perm v with ⟨e | u, v'⟩
      · rw [Prog.bind_error (Prog.mapError_error hstep)] at hpermute
        cases hpermute
        exact Prog.mapError_error (besides_eq hstep b)
      · rw [Prog.bind_ok (Prog.mapError_ok hstep)] at hpermute
        cases hpermute
        exact Prog.mapError_ok (besides_eq hstep b)
    by_cases hread : op = .kRead
    · simp only [if_pos hread] at hrun ⊢
      rcases hwrite : SquareRootOramController.writeBlock S t (C.encryptBlock draws.iv block) w with
        ⟨q, v⟩
      rw [Prog.attempt_bind, hwrite] at hrun
      rw [Prog.modify_bind, Prog.attempt_bind, writeBlock_eq hwrite]
      exact hrest _ v _ hrun _
    · simp only [if_neg hread] at hrun ⊢
      rcases hwrite : SquareRootOramController.writeBlock S t (C.encryptBlock draws.iv buffer) w
        with ⟨e | u, v⟩
      · rw [Prog.bind_error (Prog.mapError_error hwrite)] at hrun
        cases hrun
        exact Prog.bind_error (Prog.mapError_error (writeBlock_eq hwrite))
      · rw [Prog.bind_ok (Prog.mapError_ok hwrite)] at hrun
        rw [Prog.bind_ok (Prog.mapError_ok (writeBlock_eq hwrite))]
        exact hrest _ v _ hrun _

/-- An access that is refused at once leaves everything as it is. -/
theorem access_refused {op : Operation} {a : ℕ} {w : SqrtSystem σ}
    (h : op = .kInvalid ∨ w.client.positionMap a = none) (buffer : OramBlock D)
    (draws : SqrtDraws C) : ∃ e, access S K V op a draws ⟨w, buffer⟩ = (.error e, ⟨w, buffer⟩) := by
  rw [access, Prog.get_bind]
  split
  · exact ⟨_, rfl⟩
  rw [internalAccess, Prog.get_bind]
  split
  · exact ⟨_, rfl⟩
  split
  · exact ⟨_, rfl⟩
  next hop =>
    rcases h with h | h
    · exact absurd h hop
    · simp only [h]
      exact ⟨_, rfl⟩

/-- Any other access fetches the block and goes on with it. -/
theorem access_eq {op : Operation} {a t : ℕ} {w : SqrtSystem σ}
    (hinit : w.client.isInitialized = true) (hop : op ≠ .kInvalid)
    (ht : w.client.positionMap a = some t) (buffer : OramBlock D) (draws : SqrtDraws C) :
    access S K V op a draws ⟨w, buffer⟩ =
      (besides (fetch S K a t) >>= finish S K V op a t draws) ⟨w, buffer⟩ := by
  rw [access, Prog.get_bind, hinit, if_neg Bool.false_ne_true.symm, internalAccess, Prog.get_bind,
    hinit, if_neg Bool.false_ne_true.symm, if_neg hop]
  simp only [ht]

end SqrtCaller

/-! ## Over the line

Every outcome of an access over the line is known from `SqrtLine`. So it is enough to
add, case by case, what has become of the caller's block by then: it was handed to
`EncryptBlock`, or it was not. -/

/-- The value of `a`: the copy in the shelter if there is one, else the word behind its tag. -/
def SqrtSystem.currentValue (a : ℕ) (w : SqrtSystem (SqrtLine C)) : Option (OramBlock D) :=
  (w.server.storage.shelterHit a).or ((w.client.positionMap a).bind w.server.storage.wordAt)

theorem SqrtSystem.currentValue_of_fetched {a : ℕ} {w : SqrtSystem (SqrtLine C)} {b : OramBlock D}
    (h : w.fetched K a = some b) : w.currentValue a = some b := by
  rw [fetched] at h
  split at h
  · rw [located] at h
    rw [currentValue]
    rcases hhit : w.server.storage.shelterHit a with _ | c
    · rw [hhit] at h
      exact h
    · simp only [hhit] at h
      split at h
      · exact h
      · cases h
  · cases h

/-- **An access over the line**, with what it leaves in `*data`. -/
theorem SqrtCaller.access_line {op : Operation} (hop : op ≠ .kInvalid) {a t : ℕ}
    (buffer : OramBlock D) {draws : SqrtDraws C} {V : C.Sealed → OramBlock D}
    (hperm : draws.perm.Perm (List.range K.words)) (hsize : 0 < K.sqrtM)
    {w : SqrtSystem (SqrtLine C)} (hw : w.Answering K) (ht : w.client.positionMap a = some t) :
    ∃ out w', Accessed K op a buffer draws.iv w w' out ∧
      SqrtCaller.access (SqrtLine.stub C) K V op a draws ⟨w, buffer⟩ = (out.map fun _ => (),
        ⟨w', (w.fetched K a).elim buffer (left V op a draws.iv buffer)⟩) := by
  obtain ⟨q, w₁, hfetch, hf⟩ := fetch_line hw.shaped ht
  obtain ⟨out, w', hrun, hdone⟩ :=
    SquareRootOramController.access_line hop buffer hperm hsize hw.shaped hw.initialized ht
  refine ⟨out, w', hdone, ?_⟩
  rw [SquareRootOramController.access_eq hw.initialized hop ht] at hrun
  rw [access_eq hw.initialized hop ht]
  have hfetched : ∀ b, q = .ok b ↔ w.fetched K a = some b := by
    intro b
    rw [hf.returns b, fetched]
    split <;> simp [*]
  rcases hf.reports with ⟨b, rfl⟩ | ⟨st, rfl⟩
  · rw [Prog.bind_ok hfetch] at hrun
    rw [Prog.bind_ok (besides_eq hfetch _), finish_eq hrun, (hfetched b).mp rfl]
    rfl
  · have hnone : w.fetched K a = none :=
      Option.eq_none_iff_forall_ne_some.mpr fun b hb => by cases (hfetched b).mpr hb
    rw [Prog.bind_error hfetch] at hrun
    cases hrun
    rw [Prog.bind_error (besides_eq hfetch _), hnone]
    rfl

namespace SqrtRequest

/-- `Access` over the line, on the caller's block. -/
def runInPlace (V : C.Sealed → OramBlock D) (K : SquareRootOramConfig) (r : SqrtRequest C)
    (w : SqrtSystem (SqrtLine C)) : Except Exit Unit × SqrtCaller D (SqrtLine C) :=
  SqrtCaller.access (SqrtLine.stub C) K V r.op r.address r.draws ⟨w, r.buffer⟩

/-- A read that returns OK has the value of its address in `*data`; a write leaves `*data` as
it was. -/
def DeliversPlaintext (V : C.Sealed → OramBlock D) (K : SquareRootOramConfig) (r : SqrtRequest C)
    (w : SqrtSystem (SqrtLine C)) : Prop :=
  (r.op = .kRead → (r.runInPlace V K w).1 = .ok () → ∃ v, w.currentValue r.address = some v ∧
    (r.runInPlace V K w).2.data.encryptedPart = v.encryptedPart) ∧
  (r.op = .kWrite → (r.runInPlace V K w).2.data = r.buffer)

/-- The access does not get to `WriteBlock`, or it is a read whose permutation fails. -/
def SparesBuffer (K : SquareRootOramConfig) (r : SqrtRequest C) (w : SqrtSystem (SqrtLine C)) :
    Prop :=
  r.op = .kInvalid ∨ w.client.positionMap r.address = none ∨
  (∀ b, w.fetched K r.address = some b → fits r.address b = false) ∨
  (r.op = .kRead ∧ w.client.counter + 1 = K.sqrtM ∧
    Delivery.passing 1 ((w.restOfCalls K).drop 1) = false)

variable {V : C.Sealed → OramBlock D} {r : SqrtRequest C} {w : SqrtSystem (SqrtLine C)}

/-- An access that reports an error and has not got to `*data`. -/
theorem delivers_of_error {out : Except Exit Unit} {w' : SqrtSystem (SqrtLine C)}
    (hrun : r.runInPlace V K w = (out, ⟨w', r.buffer⟩)) (hout : out ≠ .ok ()) :
    r.DeliversPlaintext V K w := by
  rw [DeliversPlaintext, hrun]
  exact ⟨fun _ hok => absurd hok hout, fun _ => rfl⟩

/-- A read that has got to `*data` is in order only if it does not return. -/
theorem delivers_iff_of_read (hview : C.Scrambles V) (hread : r.op = .kRead)
    {out : Except Exit Unit} {w' : SqrtSystem (SqrtLine C)} {iv : C.Iv} {b : OramBlock D}
    (hb : w.fetched K r.address = some b)
    (hrun : r.runInPlace V K w = (out, ⟨w', V (C.encryptBlock iv b)⟩)) :
    r.DeliversPlaintext V K w ↔ out ≠ .ok () := by
  rw [DeliversPlaintext, hrun]
  constructor
  · rintro ⟨hplain, -⟩ hok
    obtain ⟨v, hv, hsame⟩ := hplain hread hok
    cases (currentValue_of_fetched hb).symm.trans hv
    exact hview _ _ hsame
  · refine fun hout => ⟨fun _ hok => absurd hok hout, fun hwrite => ?_⟩
    rw [hread] at hwrite
    cases hwrite

/-- **One access**, in a state that a run reaches. -/
theorem delivers_iff (hview : C.Scrambles V) (hw : w.Answering K)
    (hsqrt : K.blockNum ≠ 0 → K.sqrtM ≠ 0) (hperm : r.draws.perm.Perm (List.range K.words)) :
    r.DeliversPlaintext V K w ↔ r.SparesBuffer K w := by
  by_cases hcalls : r.op = .kInvalid ∨ w.client.positionMap r.address = none
  · obtain ⟨e, hrefused⟩ := SqrtCaller.access_refused (S := SqrtLine.stub C) (K := K) (V := V)
      hcalls r.buffer r.draws
    exact iff_of_true (delivers_of_error hrefused (by rintro ⟨⟩)) (or_assoc.mp (.inl hcalls))
  obtain ⟨hop, hpos⟩ := not_or.mp hcalls
  obtain ⟨t, ht⟩ := Option.ne_none_iff_exists'.mp hpos
  have hsize : 0 < K.sqrtM := by
    have hwords := (hw.shaped.tag_lt _ _ ht).1
    rw [SquareRootOramConfig.words] at hwords
    omega
  obtain ⟨out, w', hdone, hrun⟩ :=
    SqrtCaller.access_line (V := V) hop r.buffer hperm hsize hw ht
  have hok : out.map (fun _ => ()) = .ok () ↔ ∃ c, out = .ok c := by
    cases out <;> simp [Except.map]
  by_cases hreached : ∃ b, w.fetched K r.address = some b ∧ fits r.address b = true
  · obtain ⟨b, hb, hfits⟩ := hreached
    have hspares : r.SparesBuffer K w ↔ r.op = .kRead ∧ w.client.counter + 1 = K.sqrtM ∧
        Delivery.passing 1 ((w.restOfCalls K).drop 1) = false := by
      refine ⟨fun h => ?_, fun h => .inr (.inr (.inr h))⟩
      rcases h with h | h | h | h
      · exact absurd h hop
      · exact absurd h hpos
      · rw [h b hb] at hfits
        cases hfits
      · exact h
    rw [hb, Option.elim_some, SqrtCaller.left, hfits, if_pos rfl] at hrun
    rw [hspares]
    by_cases hread : r.op = .kRead
    · rw [if_pos hread] at hrun
      rw [delivers_iff_of_read hview hread hb hrun, ne_eq, hok, hread]
      -- the read returns unless its permutation fails
      have hreach : reachesPermute r.op r.address b (w.restOfCalls K) = true := by
        rw [reachesPermute, hfits, hread]
        rfl
      refine ⟨fun hnot => ⟨rfl, ?_⟩, fun hlate hreturned => ?_⟩
      · by_contra hpass
        refine hnot ⟨_, (hdone.returns _).mpr ⟨b, hb, hreach, fun hfull => ?_, rfl⟩⟩
        exact Bool.eq_true_of_not_eq_false fun hfail => hpass ⟨hfull, hfail⟩
      · obtain ⟨-, hfull, hfail⟩ := hlate
        obtain ⟨c, hc⟩ := hreturned
        obtain ⟨_, -, -, hlast, -⟩ := (hdone.returns c).mp hc
        rw [hlast hfull] at hfail
        cases hfail
    · -- a write has been encrypted in place
      have hwrite : r.op = .kWrite := by
        rcases hkind : r.op with _ | _ | _
        · exact absurd hkind hread
        · rfl
        · exact absurd hkind hop
      rw [if_neg hread] at hrun
      refine iff_of_false (fun h => ?_) fun h => hread h.1
      rw [DeliversPlaintext, runInPlace, hrun] at h
      exact hview r.draws.iv r.buffer (congrArg OramBlock.encryptedPart (h.2 hwrite))
  · have hfits : ∀ b, w.fetched K r.address = some b → fits r.address b = false :=
      fun b hb => Bool.eq_false_iff.mpr fun h => hreached ⟨b, hb, h⟩
    have hleft : (w.fetched K r.address).elim r.buffer
        (SqrtCaller.left V r.op r.address r.draws.iv r.buffer) = r.buffer := by
      rcases hb : w.fetched K r.address with _ | b
      · rfl
      · rw [Option.elim_some, SqrtCaller.left, hfits b hb, if_neg Bool.false_ne_true]
    rw [hleft] at hrun
    refine iff_of_true (delivers_of_error hrun fun h => ?_) (.inr (.inr (.inl hfits)))
    obtain ⟨c, hc⟩ := hok.mp h
    obtain ⟨b, hb, hreach, -⟩ := (hdone.returns c).mp hc
    rw [reachesPermute, hfits b hb] at hreach
    cases hreach

end SqrtRequest

variable {V : C.Sealed → OramBlock D}

/-- **When an access leaves plaintext behind.** After an answered load and any run over any
line: a read that returns leaves plaintext and a write leaves its block alone exactly if the
access does not get to `WriteBlock`, or is a read that does not return. -/
theorem sqrtOram_delivers_plaintext_iff (hview : C.Scrambles V) {m : ℕ}
    (hK : SquareRootOramConfig.new m = .ok K) {garbage : ℕ → OramBlock D}
    {data : List (OramBlock D)} {fill : SqrtFillDraws C} {ds : List Delivery}
    {w w' : SqrtSystem (SqrtLine C)}
    (hfill : fillWithData (SqrtLine.stub C) K garbage data fill (atStart C K ds) = (.ok (), w))
    (hfillPerm : fill.perm.Perm (List.range K.words)) {requests : List (SqrtRequest C)}
    (hperms : ∀ r ∈ requests, r.draws.perm.Perm (List.range K.words))
    {outs : List (Except Exit C.Sealed)}
    (hrun : Prog.trace Exit.fatal (SqrtRequest.runOverLine K) requests w = some (outs, w'))
    {r : SqrtRequest C} (hperm : r.draws.perm.Perm (List.range K.words)) :
    r.DeliversPlaintext V K w' ↔ r.SparesBuffer K w' :=
  SqrtRequest.delivers_iff hview (answering_of_trace hK hfill hfillPerm hperms hrun)
    (SquareRootOramConfig.sqrtM_ne_zero hK) hperm

/-! ### A small instance -/

/-- A codec that adds one to the data. -/
def Codec.shifted : Codec ℕ where
  Iv := Unit
  Sealed := OramBlock ℕ
  Packed := OramBlock ℕ
  encryptBlock := fun _ b => { b with data := b.data + 1 }
  decryptBlock := fun c => (.OK, { c with data := c.data - 1 })
  dataCompress := .ok
  dataDecompress := .ok
  decrypt_encrypt := fun _ _ => rfl
  decompress_compress := fun c => ⟨c, rfl, rfl⟩

theorem Codec.shifted_scrambles : Codec.shifted.Scrambles fun c => c := by
  intro _ b h
  have hdata : b.data + 1 = b.data := congrArg (fun p => p.2.1) h
  omega

def shiftedFill : SqrtFillDraws Codec.shifted := ⟨[2, 0, 3, 1], fun _ => ()⟩

/-- The state after the load, with the line as it will be. -/
def shiftedLoaded (ds : List Delivery) : SqrtSystem (SqrtLine Codec.shifted) where
  client := smallSqrtLoaded.client
  server := ⟨((SqrtOramServerStorage.fill ((permuteBy shiftedFill.perm smallSqrtWords).mapIdx
    fun _ b => Codec.shifted.encryptBlock () b)) (.new Codec.shifted 2)).2, ds, []⟩

theorem shifted_fill (ds : List Delivery) :
    fillWithData (SqrtLine.stub _) smallSqrt (fun _ => dummyWord) smallSqrtData shiftedFill
      (atStart _ smallSqrt (.carried :: ds)) = (.ok (), shiftedLoaded ds) := by
  have hsorted : (padded (fun _ => dummyWord) smallSqrtData smallSqrt.words).mergeSort byId =
      smallSqrtWords := List.mergeSort_of_pairwise (by decide)
  rw [fillWithData, if_neg (by decide), hsorted]
  rfl

def shiftedDraws : SqrtDraws Codec.shifted := ⟨[1, 2, 3, 0], ()⟩

def shiftedWrite : SqrtRequest Codec.shifted :=
  ⟨.kWrite, 0, ⟨⟨0, .kNormal, 1⟩, 11⟩, shiftedDraws⟩

def shiftedRead : SqrtRequest Codec.shifted := ⟨.kRead, 0, dummyWord, shiftedDraws⟩

/-- The line goes down after a write: the read after it is in order. -/
theorem sqrtOram_delivers_plaintext_iff_small :
    shiftedRead.DeliversPlaintext (fun c => c) smallSqrt
      (shiftedWrite.runOverLine smallSqrt (shiftedLoaded
        [.carried, .carried, .carried, .carried, .lost "Unavailable"])).2 := by
  let w := shiftedLoaded [.carried, .carried, .carried, .carried, .lost "Unavailable"]
  have hrun : Prog.trace Exit.fatal (SqrtRequest.runOverLine smallSqrt) [shiftedWrite] w =
      some ([(shiftedWrite.runOverLine smallSqrt w).1],
        (shiftedWrite.runOverLine smallSqrt w).2) := rfl
  have hnone : (shiftedWrite.runOverLine smallSqrt w).2.fetched smallSqrt 0 = none := by decide
  refine (sqrtOram_delivers_plaintext_iff Codec.shifted_scrambles smallSqrt_new (shifted_fill _)
    (by decide) (fun r hr => ?_) hrun (by decide)).mpr (.inr (.inr (.inl fun b hb => ?_)))
  · cases List.mem_singleton.mp hr
    decide
  · cases hnone.symm.trans hb

/-- Nothing fails: the read of address 0 returns, with 11 in place of 10 in `*data`, and the
block of a write holds 12 in place of 11 afterwards. -/
theorem sqrtOram_returns_ciphertext :
    SquareRootOramConfig.new 2 = .ok smallSqrt ∧
    fillWithData (SqrtLine.stub _) smallSqrt (fun _ => dummyWord) smallSqrtData shiftedFill
      (atStart _ smallSqrt [.carried]) = (.ok (), shiftedLoaded []) ∧
    (shiftedLoaded []).currentValue 0 = some ⟨⟨0, .kNormal, 1⟩, 10⟩ ∧
    (shiftedRead.runInPlace (fun c => c) smallSqrt (shiftedLoaded [])).1.isOk = true ∧
    (shiftedRead.runInPlace (fun c => c) smallSqrt (shiftedLoaded [])).2.data =
      ⟨⟨0, .kNormal, 1⟩, 11⟩ ∧
    (shiftedWrite.runInPlace (fun c => c) smallSqrt (shiftedLoaded [])).1.isOk = true ∧
    (shiftedWrite.runInPlace (fun c => c) smallSqrt (shiftedLoaded [])).2.data =
      ⟨⟨0, .kNormal, 1⟩, 12⟩ :=
  ⟨smallSqrt_new, shifted_fill [], by decide, by decide, by decide, by decide, by decide⟩

end ObliviousRam
