import ObliviousRam.SharedServer
import ObliviousRam.PathSimulation

set_option autoImplicit false

/-!
# A Path ORAM among other clients

What `PathSimulation` says of servers that behave alike is said here of a server
that may go down: from stubs that are mirrored, every call of the controller is
(`TreeStub.Mirrors`). With the stub of `SharedServer` this puts a Path ORAM on
the server that all clients share.

* `pathOram_shared` — as long as the server is up, no sequence of calls tells
  the shared server from a tree of one's own, whatever the others send in the
  meantime.
* `pathOram_shared_memory` — so a Path ORAM on a shared server is a memory.
-/

namespace ObliviousRam

open Prog (Mirrors Keeps)

variable {D σ τ : Type} {C : Codec D} {L : Sodium} {P : PathOramConfig}

/-! ## Mirrored stubs

`Mirrors` is a simulation that may end: either both sides go on alike, or the server of
the one is gone. The rules follow the syntax of the controller, and only the remote
calls say anything about servers. -/

/-- The calls of `T` mirror those of `S`. -/
structure TreeStub.Mirrors (Bad : τ → Prop) (R : σ → τ → Prop) (S : TreeStub C σ)
    (T : TreeStub C τ) : Prop where
  read : ∀ path level, Prog.Mirrors Bad Eq R Eq (S.readPath path level) (T.readPath path level)
  write : ∀ request, Prog.Mirrors Bad Eq R Eq (S.writePath request) (T.writePath request)

open PathSystem PathOramController

namespace TreeStub.Mirrors

variable {Bad : τ → Prop} {R : σ → τ → Prop} {S : TreeStub C σ} {T : TreeStub C τ}

/-- The server of the system has met the bad event. -/
def OnServer (Bad : τ → Prop) (w : PathSystem D τ) : Prop := Bad w.server

/-- What does not reach the server cannot go wrong there. -/
theorem of_relates {α : Type} {m : Prog Exit (PathSystem D σ) α} {m' : Prog Exit (PathSystem D τ) α}
    (hserver : ∀ w, (m' w).2.server = w.server) (h : Prog.Relates (Lift R) Eq m m') :
    Prog.Mirrors (OnServer Bad) Eq (Lift R) Eq m m' := by
  refine .of_relates (fun w hw => ?_) h
  rw [OnServer, hserver w]
  exact hw

/-- Related clients are changed alike. -/
theorem update (f : PathOramController D → PathOramController D) :
    Prog.Mirrors (OnServer Bad) Eq (Lift R) Eq (PathOramController.update (ε := Exit) f)
      (PathOramController.update f) :=
  of_relates (fun _ => rfl) (Simulates.update f)

/-- A choice of the client is the same on both sides. -/
theorem checkedRandom (reason : String) (value start stop : ℕ) :
    Prog.Mirrors (OnServer (D := D) Bad) Eq (Lift R) Eq
      (ObliviousRam.checkedRandom reason value start stop)
      (ObliviousRam.checkedRandom reason value start stop) := by
  refine of_relates (fun w => ?_) (Simulates.checkedRandom reason value start stop)
  rw [ObliviousRam.checkedRandom]
  split <;> rfl

/-- What is done to the stash is the same on both sides. -/
theorem updateBlock (op : Operation) (address : ℕ) (buffer block : OramBlock D) :
    Prog.Mirrors (OnServer Bad) Eq (Lift R) Eq
      (PathOramController.updateBlock P op address buffer block)
      (PathOramController.updateBlock P op address buffer block) := by
  refine of_relates (fun w => ?_) (Simulates.updateBlock op address buffer block)
  rw [PathOramController.updateBlock]
  cases op with
  | kWrite => rfl
  | kRead => cases P.standalone <;> rfl
  | kInvalid => cases P.standalone <;> rfl

theorem fillBucket (start stop : ℕ) (draw : ℕ → ℕ) (k : ℕ) (data : List (OramBlock D)) :
    Prog.Mirrors (OnServer Bad) Eq (Lift R) Eq
      (PathOramController.fillBucket start stop draw k data)
      (PathOramController.fillBucket start stop draw k data) := by
  induction k generalizing data with
  | zero => exact .pure rfl
  | succ k ih =>
    cases data with
    | nil => exact .pure rfl
    | cons b data =>
      rw [PathOramController.fillBucket, PathOramController.fillBucket]
      apply Prog.Mirrors.ite
      · exact .bind_eq (checkedRandom _ _ _ _) fun _ => .bind_eq (update _) fun _ =>
          .bind_eq (ih _) fun _ => .pure rfl
      · exact ih _

/-- A program that makes one remote call, and goes on from its result on the client. -/
theorem of_call {α β : Type} {call : Prog String σ α} {call' : Prog String τ α}
    (hcall : Prog.Mirrors Bad Eq R Eq call call')
    (next : Except String α → PathOramController D → Except Exit β × PathOramController D)
    {m : Prog Exit (PathSystem D σ) β} {m' : Prog Exit (PathSystem D τ) β}
    (hm : ∀ c s, m ⟨c, s⟩ = ((next (call s).1 c).1, ⟨(next (call s).1 c).2, (call s).2⟩))
    (hm' : ∀ c t, m' ⟨c, t⟩ = ((next (call' t).1 c).1, ⟨(next (call' t).1 c).2, (call' t).2⟩)) :
    Prog.Mirrors (OnServer Bad) Eq (Lift R) Eq m m' where
  keeps := by
    rintro ⟨c, t⟩ hbad
    rw [hm']
    exact hcall.keeps t hbad
  step := by
    rintro ⟨c, s⟩ ⟨_, t⟩ ⟨rfl, hR⟩
    rw [hm, hm']
    rcases hcall.step s t hR with hbad | ⟨hout, hR'⟩
    · exact .inl hbad
    · rw [← hout.eq]
      exact .inr ⟨.of_eq rfl, rfl, hR'⟩

variable (h : S.Mirrors Bad R T)
include h

/-- The remote calls are where the two servers come in. -/
theorem readBucket (path level : ℕ) :
    Prog.Mirrors (OnServer Bad) Eq (Lift R) Eq (PathOramController.readBucket S P path level)
      (PathOramController.readBucket T P path level) := by
  by_cases hrange : path ≥ P.numberOfLeafs ∨ level > P.treeLevel
  · have hrefused : ∀ {ρ : Type} (U : TreeStub C ρ), PathOramController.readBucket U P path level =
        fail .kInvalidArgument "The path or the level given is not correct" "ReadBucket" :=
      fun U => funext fun w => if_pos hrange
    rw [hrefused S, hrefused T]
    exact .throw rfl
  · apply of_call (h.read path level) fun r c =>
      match r with
      | .error msg => (.error (.status (.make .kServerError msg "ReadBucket")), c)
      | .ok response => (.ok (response.map fun b => (C.decryptBlock b).2),
          { c with networkCommunication := c.networkCommunication + response.length })
    · intro c s
      rw [PathOramController.readBucket, if_neg hrange]
      rcases S.readPath path level s with ⟨_ | _, _⟩ <;> rfl
    · intro c t
      rw [PathOramController.readBucket, if_neg hrange]
      rcases T.readPath path level t with ⟨_ | _, _⟩ <;> rfl

theorem writeBucket (path level : ℕ) (iv : ℕ → C.Iv) (bucket : List (OramBlock D)) :
    Prog.Mirrors (OnServer Bad) Eq (Lift R) Eq
      (PathOramController.writeBucket S path level iv bucket)
      (PathOramController.writeBucket T path level iv bucket) := by
  apply of_call (h.write ⟨path, level, 0, .kNormal, sealBucket iv bucket⟩) fun r c =>
    (r.mapError fun msg => .status (.make .kServerError msg "WriteBucket"),
      { c with networkCommunication := c.networkCommunication + bucket.length })
  · intro c s
    rw [PathOramController.writeBucket]
    rcases S.writePath ⟨path, level, 0, .kNormal, sealBucket iv bucket⟩ s with ⟨_ | _, _⟩ <;> rfl
  · intro c t
    rw [PathOramController.writeBucket]
    rcases T.writePath ⟨path, level, 0, .kNormal, sealBucket iv bucket⟩ t with ⟨_ | _, _⟩ <;> rfl

theorem accurateWriteBucket (level offset : ℕ) (iv : ℕ → C.Iv) (bucket : List (OramBlock D)) :
    Prog.Mirrors (OnServer Bad) Eq (Lift R) Eq
      (PathOramController.accurateWriteBucket S level offset iv bucket)
      (PathOramController.accurateWriteBucket T level offset iv bucket) := by
  apply of_call (h.write ⟨0, level, offset, .kInit, sealBucket iv bucket⟩) fun r c =>
    (r.mapError fun msg => .status (.make .kServerError msg "AccurateWriteBucket"), c)
  · intro c s
    rw [PathOramController.accurateWriteBucket]
    rcases S.writePath ⟨0, level, offset, .kInit, sealBucket iv bucket⟩ s with ⟨_ | _, _⟩ <;> rfl
  · intro c t
    rw [PathOramController.accurateWriteBucket]
    rcases T.writePath ⟨0, level, offset, .kInit, sealBucket iv bucket⟩ t with ⟨_ | _, _⟩ <;> rfl

/-! ## The calls of the controller -/

theorem readLevels (x : ℕ) (ls : List ℕ) :
    Prog.Mirrors (OnServer Bad) Eq (Lift R) Eq (PathOramController.readLevels S P x ls)
      (PathOramController.readLevels T P x ls) := by
  induction ls with
  | nil => exact .pure rfl
  | cons l ls ih =>
    exact .bind_eq (.mapError_eq _ (readBucket h x l)) fun _ => .bind_eq ih fun _ => .pure rfl

theorem writeLevels (x : ℕ) (draws : AccessDraws C) (i : ℕ) :
    Prog.Mirrors (OnServer Bad) Eq (Lift R) Eq (PathOramController.writeLevels S P x draws i)
      (PathOramController.writeLevels T P x draws i) := by
  induction i with
  | zero => exact .pure rfl
  | succ i ih =>
    exact .bind_eq (of_relates (fun _ => rfl) (Simulates.findSubsetOf x _)) fun _ =>
      .bind_eq (.mapError_eq _ (writeBucket h x i _ _)) fun _ => ih

omit h in
/-- Every client can be the client of either server. -/
theorem exists_client [Nonempty σ] (v : PathSystem D τ) :
    ∃ w : PathSystem D σ, w.client = v.client :=
  ⟨⟨v.client, Classical.arbitrary σ⟩, rfl⟩

variable [Nonempty σ]

theorem internalAccessDirect (op : Operation) (address x : ℕ) (buffer : OramBlock D)
    (draws : AccessDraws C) (dummy : Bool) :
    Prog.Mirrors (OnServer Bad) Eq (Lift R) Eq
      (PathOramController.internalAccessDirect S P op address x buffer draws dummy)
      (PathOramController.internalAccessDirect T P op address x buffer draws dummy) := by
  refine .bind_eq (readLevels h x _) fun path => .ite (.pure rfl) ?_
  refine .bind_eq (update _) fun _ =>
    .get_bind client client (fun _ _ hwv => hwv.1) exists_client fun w v hclient => ?_
  rw [hclient]
  cases v.client.stash.find? (blockEqual address) with
  | none => exact .throw rfl
  | some block =>
    exact .bind_eq (updateBlock op address buffer block) fun _ =>
      .bind_eq (writeLevels h x draws _) fun _ => .pure rfl

/-- The whole access. -/
theorem internalAccess (op : Operation) (address : ℕ) (buffer : OramBlock D) (draws : AccessDraws C)
    (dummy : Bool) :
    Prog.Mirrors (OnServer Bad) Eq (Lift R) Eq
      (PathOramController.internalAccess S P op address buffer draws dummy)
      (PathOramController.internalAccess T P op address buffer draws dummy) := by
  refine .get_bind client client (fun _ _ hwv => hwv.1) exists_client fun w v hclient => ?_
  rw [hclient]
  refine .ite (.throw rfl) (.ite (.throw rfl) (.bind_eq (checkedRandom _ _ _ _) fun x => ?_))
  exact .ite (internalAccessDirect h _ _ _ _ _ _)
    (.bind_eq (update _) fun _ => internalAccessDirect h _ _ _ _ _ _)

theorem access (op : Operation) (address : ℕ) (buffer : OramBlock D) (draws : AccessDraws C) :
    Prog.Mirrors (OnServer Bad) Eq (Lift R) Eq
      (PathOramController.access S P op address buffer draws)
      (PathOramController.access T P op address buffer draws) := by
  refine .get_bind client client (fun _ _ hwv => hwv.1) exists_client fun w v hclient => ?_
  rw [hclient]
  exact .ite (.throw rfl) (internalAccess h op address buffer draws false)

theorem accessDirect (op : Operation) (address position : ℕ) (buffer : OramBlock D)
    (draws : AccessDraws C) :
    Prog.Mirrors (OnServer Bad) Eq (Lift R) Eq
      (PathOramController.accessDirect S P op address position buffer draws)
      (PathOramController.accessDirect T P op address position buffer draws) := by
  refine .get_bind client client (fun _ _ hwv => hwv.1) exists_client fun w v hclient => ?_
  rw [hclient]
  exact .ite (.throw rfl) (internalAccessDirect h op address position buffer draws false)

omit [Nonempty σ] in
theorem fillTree (draws : FillDraws C) (ts : List Tag) (data : List (OramBlock D)) :
    Prog.Mirrors (OnServer Bad) Eq (Lift R) Eq (PathOramController.fillTree S P draws ts data)
      (PathOramController.fillTree T P draws ts data) := by
  induction ts generalizing data with
  | nil => exact .pure rfl
  | cons t ts ih =>
    rw [fillTree_cons, fillTree_cons]
    exact .bind_eq (fillBucket _ _ _ _ _) fun _ =>
      .bind_eq (.mapError_eq _ (accurateWriteBucket h t.1 t.2 _ _)) fun _ => ih _

omit [Nonempty σ] in
/-- The load sends one bucket after the other. -/
theorem fillWithData (data : List (OramBlock D)) (draws : FillDraws C) :
    Prog.Mirrors (OnServer Bad) Eq (Lift R) Eq (PathOramController.fillWithData S P data draws)
      (PathOramController.fillWithData T P data draws) :=
  .bind_eq (fillTree h draws _ data) fun _ => update _

end TreeStub.Mirrors

/-! ## On the shared server

What remains is the relation to start from. `InitTreeOram` has put an empty tree on the
table under the id and the hash of the client, and an empty tree is what a client with a
server of its own begins with. -/

open OramServer (ServerEvent Shared Gone Shares ByOthers)
open ServiceState (serve)

/-- The stub of a client among others mirrors the stub of a client of its own. -/
theorem OramServer.mirrors_treeStub (header : RequestHeader) (lost : String) :
    (OramService.stub C header.id).Mirrors Gone (Shares (L := L) (treeClass C) header)
      (OramServer.treeStub header lost) :=
  ⟨fun _ _ => mirrors_readPath _ _, fun _ => mirrors_writePath _⟩

/-- An `InitTreeOram` that goes through puts the client's tree on the table. -/
theorem OramServer.shares_of_initTreeOram {header : RequestHeader} {bucketNum blockSize : ℕ}
    {w w' : ServiceState L C} {answer : RpcAnswer C}
    (hinit : serve (.table (.request (.initTreeOram header bucketNum blockSize))) w =
      (.ok answer, w'))
    {schedule : List (List (ServerEvent C))} (hothers : ByOthers header schedule) :
    Shares (treeClass C) header (.new C bucketNum) (some w', schedule) := by
  refine ⟨⟨w', rfl, ?_⟩, hothers⟩
  rw [ServiceState.serve_table, receive, handle] at hinit
  cases bucketNum with
  | zero =>
    obtain ⟨e, he⟩ := initTreeOram_empty w.storages header blockSize
    rw [he] at hinit
    cases hinit
  | succ n =>
    rw [initTreeOram, if_neg (Nat.succ_ne_zero n)] at hinit
    obtain ⟨-, -, hnew⟩ | ⟨-, st, hrefused⟩ := createStorage_cases w.storages header.id
      ⟨⟨header.id, n + 1, blockSize, header.instanceHash⟩, .tree (.new C (n + 1))⟩
    · rw [hnew] at hinit
      cases hinit
      exact ⟨_, put_storages_self _ _ _, rfl⟩
    · rw [hrefused] at hinit
      cases hinit

/-- What is called on a Path ORAM controller, by its user or by a controller that
it is embedded in. -/
inductive PathOp (C : Codec D) where
  | fillWithData (data : List (OramBlock D)) (draws : FillDraws C)
  | access (op : Operation) (address : ℕ) (buffer : OramBlock D) (draws : AccessDraws C)
  | internalAccess (op : Operation) (address : ℕ) (buffer : OramBlock D) (draws : AccessDraws C)
      (dummy : Bool)
  | accessDirect (op : Operation) (address position : ℕ) (buffer : OramBlock D)
      (draws : AccessDraws C)

/-- The call over a stub, and what it leaves in `*data`. -/
def PathOp.run (S : TreeStub C σ) (P : PathOramConfig) :
    PathOp C → Prog Exit (PathSystem D σ) (Option (OramBlock D))
  | .fillWithData data draws => do
    PathOramController.fillWithData S P data draws
    pure none
  | .access op address buffer draws => do
    let out ← PathOramController.access S P op address buffer draws
    pure (some out)
  | .internalAccess op address buffer draws dummy => do
    let out ← PathOramController.internalAccess S P op address buffer draws dummy
    pure (some out)
  | .accessDirect op address position buffer draws => do
    let out ← PathOramController.accessDirect S P op address position buffer draws
    pure (some out)

/-- The call is an access. -/
def PathOp.isAccess : PathOp C → Bool
  | .fillWithData .. => false
  | _ => true

/-- The process behind the client's stub is gone. -/
def PathSystem.ServerGone (v : PathSystem D (Shared L C)) : Prop := Gone v.server

instance : Nonempty (TreeOramServerStorage C) := ⟨.new C 1⟩

theorem PathOp.mirrors [Nonempty σ] {Bad : τ → Prop} {R : σ → τ → Prop} {S : TreeStub C σ}
    {T : TreeStub C τ} (h : S.Mirrors Bad R T) (call : PathOp C) :
    Prog.Mirrors (fun v => Bad v.server) Eq (Lift R) Eq (call.run S P) (call.run T P) := by
  cases call with
  | fillWithData data draws => exact .bind_eq (h.fillWithData data draws) fun _ => .pure rfl
  | access op a buffer draws => exact .bind_eq (h.access op a buffer draws) fun _ => .pure rfl
  | internalAccess op a buffer draws dummy =>
    exact .bind_eq (h.internalAccess op a buffer draws dummy) fun _ => .pure rfl
  | accessDirect op a x buffer draws =>
    exact .bind_eq (h.accessDirect op a x buffer draws) fun _ => .pure rfl

section

variable {header : RequestHeader} {lost : String} {blockSize : ℕ} {w w' : ServiceState L C}
  {answer : RpcAnswer C} {schedule : List (List (ServerEvent C))}

/-- **The shared server as a server of one's own.** Whatever the other clients
call between the calls of a Path ORAM, but for `ResetServer` and what carries its
id and hash: as long as the server is up, every sequence of calls has the
outcomes it has over a tree of its own, and so has any call that follows, unless
the server goes down in it. -/
theorem pathOram_shared (hid : header.id = P.id)
    (hinit : serve (.table (.request (.initTreeOram header P.numberOfLeafs blockSize))) w =
      (.ok answer, w'))
    (hothers : ByOthers header schedule)
    {calls : List (PathOp C)} {outs : List (Except Exit (Option (OramBlock D)))}
    {v : PathSystem D (Shared L C)}
    (hrun : Prog.trace Exit.fatal (PathOp.run (OramServer.treeStub header lost) P) calls
      ⟨.new, some w', schedule⟩ = some (outs, v)) (hup : ¬v.ServerGone) :
    ∃ u, Prog.trace Exit.fatal (PathOp.run (OramService.stub C P.id) P) calls
        (PathSystem.init C P) = some (outs, u) ∧
      v.client = u.client ∧ Shares (treeClass C) header u.server v.server ∧
      ∀ call : PathOp C, (call.run (OramServer.treeStub header lost) P v).2.ServerGone ∨
        (call.run (OramServer.treeStub header lost) P v).1 =
          (call.run (OramService.stub C P.id) P u).1 := by
  have hstub := OramServer.mirrors_treeStub (C := C) (L := L) header lost
  rw [hid] at hstub
  have hstart : Lift (Shares (treeClass C) header) (PathSystem.init C P)
      ⟨.new, some w', schedule⟩ := ⟨rfl, OramServer.shares_of_initTreeOram hinit hothers⟩
  obtain ⟨outs', u, htrace, houts, hclient, hserver⟩ := Prog.trace_mirrors
    (fun call => PathOp.mirrors (P := P) hstub call) (Prog.fatal_of_eq Exit.fatal) hstart hrun hup
  rw [Prog.eq_of_forall₂_corresponds houts] at htrace
  refine ⟨u, htrace, hclient.symm, hserver, fun call => ?_⟩
  rcases (PathOp.mirrors (P := P) hstub call).step u v ⟨hclient, hserver⟩ with hbad | ⟨hout, -⟩
  · exact .inl hbad
  · exact .inr hout.eq.symm

/-- A load that the server has survived, on a tree of one's own. -/
theorem shared_load (hid : header.id = P.id)
    (hinit : serve (.table (.request (.initTreeOram header P.numberOfLeafs blockSize))) w =
      (.ok answer, w'))
    (hothers : ByOthers header schedule)
    {data : List (OramBlock D)} {fill : FillDraws C} {v₀ : PathSystem D (Shared L C)}
    (hfill : fillWithData (OramServer.treeStub header lost) P data fill
      ⟨.new, some w', schedule⟩ = (.ok (), v₀)) (hup : ¬v₀.ServerGone) :
    ∃ u₀, fillWithData (OramService.stub C P.id) P data fill (PathSystem.init C P) = (.ok (), u₀) ∧
      Lift (Shares (treeClass C) header) u₀ v₀ := by
  have hstub := OramServer.mirrors_treeStub (C := C) (L := L) header lost
  rw [hid] at hstub
  have hload := (hstub.fillWithData (P := P) data fill).step (PathSystem.init C P)
    ⟨.new, some w', schedule⟩ ⟨rfl, OramServer.shares_of_initTreeOram hinit hothers⟩
  rw [hfill] at hload
  rcases hload with hbad | ⟨hout, hshared⟩
  · exact absurd hbad hup
  · rcases hown : fillWithData (OramService.stub C P.id) P data fill (PathSystem.init C P) with
      ⟨_ | _, u₀⟩
    · rw [hown] at hout
      cases hout
    · rw [hown] at hshared
      exact ⟨u₀, rfl, hshared⟩

/-- **A Path ORAM among other clients is a memory.** After a load, and with the
server still up, every sequence of reads and writes of loaded addresses has
returned; so does a further one unless the server goes down in it, and a read
returns the latest value written. In between the others may have called anything
but `ResetServer` and what carries the client's id and hash. -/
theorem pathOram_shared_memory (hstand : P.standalone = true) (hid : header.id = P.id)
    (hinit : serve (.table (.request (.initTreeOram header P.numberOfLeafs blockSize))) w =
      (.ok answer, w'))
    (hothers : ByOthers header schedule)
    {data : List (OramBlock D)} {fill : FillDraws C} {v₀ v : PathSystem D (Shared L C)}
    (hfill : fillWithData (OramServer.treeStub header lost) P data fill
      ⟨.new, some w', schedule⟩ = (.ok (), v₀))
    (hlen : data.length ≤ P.capacity) (hids : UniqueKeys OramBlock.id (loadedBlocks data))
    (hpad : ∀ t i, (fill.pad t i).isNormal = false) {past : List (PathRequest C)}
    {outs : List (Except Exit (OramBlock D))}
    (hpast : Prog.trace Exit.fatal (fun q : PathRequest C =>
      access (OramServer.treeStub header lost) P q.op q.address q.buffer q.draws) past v₀ =
        some (outs, v)) (hup : ¬v.ServerGone) (r : PathRequest C)
    (hproper : ∀ q ∈ past ++ [r], q.Proper data) :
    (∀ out ∈ outs, out.isOk = true) ∧
      ((access (OramServer.treeStub header lost) P r.op r.address r.buffer r.draws v).2.ServerGone ∨
        ∃ out v', access (OramServer.treeStub header lost) P r.op r.address r.buffer r.draws v =
            (.ok out, v') ∧
          (r.op = .kRead →
            some out.payload = latest PathRequest.written (loadedValue data) past r.address)) := by
  have hstub := OramServer.mirrors_treeStub (C := C) (L := L) header lost
  rw [hid] at hstub
  have hcall : ∀ q : PathRequest C, Prog.Mirrors (fun v => Gone v.server) Eq
      (Lift (Shares (treeClass C) header)) Eq (q.run P)
      (access (OramServer.treeStub header lost) P q.op q.address q.buffer q.draws) :=
    fun q => hstub.access q.op q.address q.buffer q.draws
  have hup₀ : ¬v₀.ServerGone :=
    fun hbad => hup (Prog.bad_of_trace (fun q _ => (hcall q).keeps) hbad hpast)
  obtain ⟨u₀, hown, hshared⟩ := shared_load hid hinit hothers hfill hup₀
  have hstart := holds_of_fillWithData hown hlen hids hpad
  obtain ⟨outs', u, htrace, houts, hu⟩ :=
    Prog.trace_mirrors hcall (Prog.fatal_of_eq Exit.fatal) hshared hpast hup
  rw [← Prog.eq_of_forall₂_corresponds houts] at hpast ⊢
  -- the calls so far, on the memory
  obtain ⟨values, u', htrace', hw'⟩ := Prog.trace_total Exit.fatal
    (fun (q : PathRequest C) (_ : PathSystem D (TreeOramServerStorage C)) => q.Proper data)
    (fun past w => w.Holds P data (latest PathRequest.written (loadedValue data) past))
    (fun past q _ w _ hq hw => by
      obtain ⟨out, w', hrun, hw', -⟩ := q.run_spec hstand hq hw
      exact ⟨out, w', hrun, hw'⟩)
    hstart (Prog.Along.of_forall (fun q hq _ => hproper q (List.mem_append_left _ hq)) u₀)
  cases htrace.symm.trans htrace'
  refine ⟨fun out hmem => ?_, ?_⟩
  · obtain ⟨value, -, rfl⟩ := List.mem_map.mp hmem
    rfl
  · obtain ⟨out, w'', hrun, -, hread⟩ :=
      r.run_spec hstand (hproper r (List.mem_append_right _ List.mem_cons_self)) hw'
    rcases (hcall r).step u v hu with hbad | ⟨hcorr, -⟩
    · exact .inl hbad
    · rw [hrun] at hcorr
      obtain ⟨out', hout', rfl⟩ := hcorr.eq_ok
      exact .inr ⟨_, _, Prod.ext hout' rfl, hread⟩

end

/-! ### A small instance -/

/-- A second client gets a session, makes a storage of its own, and tries the
first client's id. -/
def secondClient : List (List (ServerEvent (Codec.plain ℕ))) :=
  [[.call (.keyExchange 2 []), .call (.table (.request (.initFlatOram ⟨1, [2]⟩ 4 8))),
      .call (.table (.request (.readPath ⟨0, [2]⟩ 0 0)))],
    [.monitor, .call (.table (.request (.readFlatMemory ⟨1, [2]⟩)))]]

/-- The server once the first client has its tree. -/
def oneBucketServer : ServiceState Sodium.toy (Codec.plain ℕ) where
  storages := (OramServer.new _).put 0 ⟨⟨0, 1, 8, [1]⟩, .tree (.new _ 1)⟩
  cryptor := some OramController.freshCryptor
  serverRunning := true

theorem oneBucket_init :
    serve (.table (.request (.initTreeOram ⟨0, [1]⟩ oneBucket.numberOfLeafs 8)))
      (.start (Codec.plain ℕ) OramController.freshCryptor) =
        (.ok (.table .empty), oneBucketServer) := rfl

/-- A load, a read and a dummy access. -/
def oneBucketOps : List (PathOp (Codec.plain ℕ)) :=
  [.fillWithData [smallBlock 3 30] smallFill, .access .kRead 3 dummyBlock smallDraws,
    .internalAccess .kRead 3 dummyBlock smallDraws true]

/-- A load and an access, while the others are busy. -/
theorem pathOram_shared_small :
    ∃ outs v u, Prog.trace Exit.fatal
        (PathOp.run (OramServer.treeStub ⟨0, [1]⟩ "Socket closed") oneBucket) oneBucketOps
        ⟨.new, some oneBucketServer, secondClient⟩ = some (outs, v) ∧
      Prog.trace Exit.fatal (PathOp.run (OramService.stub _ 0) oneBucket) oneBucketOps
        (PathSystem.init _ oneBucket) = some (outs, u) ∧ v.client = u.client := by
  obtain ⟨outs, v, hrun, hup⟩ : ∃ outs v, Prog.trace Exit.fatal
      (PathOp.run (OramServer.treeStub ⟨0, [1]⟩ "Socket closed") oneBucket) oneBucketOps
      ⟨.new, some oneBucketServer, secondClient⟩ = some (outs, v) ∧ ¬v.ServerGone :=
    ⟨_, _, rfl, by rintro ⟨⟩⟩
  obtain ⟨u, htrace, hclient, -⟩ :=
    pathOram_shared rfl oneBucket_init (by decide) hrun hup
  exact ⟨outs, v, u, hrun, htrace, hclient⟩

/-- The write of the run. -/
def oneBucketWrite : PathRequest (Codec.plain ℕ) := ⟨.kWrite, 3, smallBlock 3 31, smallDraws⟩

/-- The read after it. -/
def oneBucketRead : PathRequest (Codec.plain ℕ) := ⟨.kRead, 3, dummyBlock, smallDraws⟩

/-- The controller after the load, on the shared server. -/
def oneBucketShared : PathSystem ℕ (Shared Sodium.toy (Codec.plain ℕ)) :=
  (fillWithData (OramServer.treeStub ⟨0, [1]⟩ "Socket closed") oneBucket [smallBlock 3 30] smallFill
    ⟨.new, some oneBucketServer, secondClient⟩).2

theorem pathOram_shared_memory_small :
    ∃ outs v out v', fillWithData (OramServer.treeStub ⟨0, [1]⟩ "Socket closed") oneBucket
        [smallBlock 3 30] smallFill ⟨.new, some oneBucketServer, secondClient⟩ =
          (.ok (), oneBucketShared) ∧
      Prog.trace Exit.fatal (fun q : PathRequest (Codec.plain ℕ) =>
        access (OramServer.treeStub ⟨0, [1]⟩ "Socket closed") oneBucket q.op q.address q.buffer
          q.draws) [oneBucketWrite] oneBucketShared = some (outs, v) ∧
      access (OramServer.treeStub ⟨0, [1]⟩ "Socket closed") oneBucket .kRead 3 dummyBlock
        smallDraws v = (.ok out, v') ∧ out.payload = (31, 1) := by
  have hfill : fillWithData (OramServer.treeStub ⟨0, [1]⟩ "Socket closed") oneBucket
      [smallBlock 3 30] smallFill ⟨.new, some oneBucketServer, secondClient⟩ =
        (.ok (), oneBucketShared) := rfl
  have hproper : ∀ q ∈ [oneBucketWrite] ++ [oneBucketRead], q.Proper [smallBlock 3 30] := by
    intro q hq
    simp only [List.cons_append, List.nil_append, List.mem_cons, List.not_mem_nil, or_false] at hq
    rcases hq with rfl | rfl
    · exact ⟨.inr rfl, ⟨smallBlock 3 30, by decide⟩, fun _ _ => rfl⟩
    · exact ⟨.inl rfl, ⟨smallBlock 3 30, by decide⟩, fun _ _ => rfl⟩
  obtain ⟨outs, v, hpast, hup⟩ : ∃ outs v, Prog.trace Exit.fatal (fun q : PathRequest
      (Codec.plain ℕ) => access (OramServer.treeStub ⟨0, [1]⟩ "Socket closed") oneBucket q.op
        q.address q.buffer q.draws) [oneBucketWrite] oneBucketShared = some (outs, v) ∧
      ¬v.ServerGone ∧ ¬(access (OramServer.treeStub ⟨0, [1]⟩ "Socket closed") oneBucket .kRead 3
        dummyBlock smallDraws v).2.ServerGone :=
    ⟨_, _, rfl, by rintro ⟨⟩, by rintro ⟨⟩⟩
  obtain ⟨-, hgone | ⟨out, v', hread, hlatest⟩⟩ := pathOram_shared_memory rfl rfl oneBucket_init
    (by decide) hfill (by decide) (by decide) (fun _ _ => rfl) hpast hup.1 oneBucketRead
    hproper
  · exact absurd hgone hup.2
  · exact ⟨outs, v, out, v', hfill, hpast, hread, Option.some.inj (hlatest rfl)⟩

end ObliviousRam
