import ObliviousRam.SharedServer
import ObliviousRam.SqrtSimulation
import ObliviousRam.SquareRootMemory

set_option autoImplicit false

/-!
# A square-root ORAM among other clients

`SharedPath` for the square-root controller: from mirrored stubs, its load and
its accesses are mirrored, and with them whole runs on the shared server
(`squareRootOram_shared`).
-/

namespace ObliviousRam

open Prog (Mirrors Keeps Corresponds)

variable {D σ τ : Type} {C : Codec D} {L : Sodium} {K : SquareRootOramConfig}

/-- The calls of `T` mirror those of `S`. -/
structure SqrtStub.Mirrors (Bad : τ → Prop) (R : σ → τ → Prop) (S : SqrtStub C σ)
    (T : SqrtStub C τ) : Prop where
  load : ∀ contents, Prog.Mirrors Bad Eq R Eq (S.loadSqrtOram contents) (T.loadSqrtOram contents)
  read : ∀ area tag,
    Prog.Mirrors Bad Eq R Eq (S.readSqrtMemory area tag) (T.readSqrtMemory area tag)
  write : ∀ pos content,
    Prog.Mirrors Bad Eq R Eq (S.writeSqrtMemory pos content) (T.writeSqrtMemory pos content)
  permute : ∀ perms, Prog.Mirrors Bad Eq R Eq (S.sqrtPermute perms) (T.sqrtPermute perms)

open SqrtSystem SquareRootOramController

namespace SqrtStub.Mirrors

variable {Bad : τ → Prop} {R : σ → τ → Prop} {S : SqrtStub C σ} {T : SqrtStub C τ}

/-- The server of the system has met the bad event. -/
def OnServer (Bad : τ → Prop) (w : SqrtSystem τ) : Prop := Bad w.server

/-- Related clients are changed alike. -/
theorem update (f : SquareRootOramController → SquareRootOramController) :
    Prog.Mirrors (OnServer Bad) Eq (Lift R) Eq (SquareRootOramController.update (ε := Exit) f)
      (SquareRootOramController.update f) :=
  .of_relates (fun _ hw => hw) (relates_update f)

/-- A remote call of the controller. -/
theorem remote {α : Type} (location : String) {call : Prog String σ α} {call' : Prog String τ α}
    (hcall : Prog.Mirrors Bad Eq R Eq call call') :
    Prog.Mirrors (OnServer Bad) Eq (Lift R) Eq (SquareRootOramController.remote location call)
      (SquareRootOramController.remote location call') where
  keeps := by
    intro w hw
    have hbad := hcall.keeps w.server hw
    rw [SquareRootOramController.remote]
    rcases hrun : call' w.server with ⟨_ | _, server⟩ <;> rw [hrun] at hbad
    · exact hbad
    · exact hbad
  step := by
    rintro ⟨c, s⟩ ⟨_, t⟩ ⟨rfl, hR⟩
    have hstep := hcall.step s t hR
    simp only [SquareRootOramController.remote]
    rcases hrun : call s with ⟨r, s'⟩
    rcases hrun' : call' t with ⟨r', t'⟩
    rw [hrun, hrun'] at hstep
    rcases hstep with hbad | ⟨hout, hR'⟩
    · left
      cases r' <;> exact hbad
    · cases hout.eq
      right
      cases r with
      | error msg => exact ⟨.error rfl, rfl, hR'⟩
      | ok a => exact ⟨.ok rfl, rfl, hR'⟩

variable (h : S.Mirrors Bad R T)
include h

/-- The load is one call. -/
theorem fillWithData (garbage : ℕ → OramBlock D) (data : List (OramBlock D))
    (draws : SqrtFillDraws C) :
    Prog.Mirrors (OnServer Bad) Eq (Lift R) Eq
      (SquareRootOramController.fillWithData S K garbage data draws)
      (SquareRootOramController.fillWithData T K garbage data draws) :=
  .ite (.throw rfl) (.bind_eq (update _) fun _ =>
    .bind_eq (remote _ (h.load _)) fun _ => update _)

theorem scanShelter (address : ℕ) (is : List ℕ) (found : Option (OramBlock D)) :
    Prog.Mirrors (OnServer Bad) Eq (Lift R) Eq
      (SquareRootOramController.scanShelter S address is found)
      (SquareRootOramController.scanShelter T address is found) := by
  induction is generalizing found with
  | nil => exact .pure rfl
  | cons i is ih =>
    refine .bind_eq (remote _ (h.read _ _)) fun content => ?_
    cases content with
    | none => exact ih found
    | some c => exact ih _

theorem readShelter (address : ℕ) :
    Prog.Mirrors (OnServer Bad) Eq (Lift R) Eq (SquareRootOramController.readShelter S K address)
      (SquareRootOramController.readShelter T K address) := by
  refine .bind_eq (scanShelter h _ _ _) fun found => ?_
  cases found with
  | none => exact .throw rfl
  | some b => exact .pure rfl

theorem readMain (pos : ℕ) :
    Prog.Mirrors (OnServer Bad) Eq (Lift R) Eq (SquareRootOramController.readMain S pos)
      (SquareRootOramController.readMain T pos) := by
  refine .bind_eq (remote _ (h.read _ _)) fun content => ?_
  cases content with
  | none => exact .throw rfl
  | some c => exact .pure rfl

theorem readDummy (pos : ℕ) :
    Prog.Mirrors (OnServer Bad) Eq (Lift R) Eq (SquareRootOramController.readDummy S pos)
      (SquareRootOramController.readDummy T pos) :=
  .bind_eq (remote _ (h.read _ _)) fun _ => .pure rfl

theorem writeBlock (pos : ℕ) (content : C.Sealed) :
    Prog.Mirrors (OnServer Bad) Eq (Lift R) Eq (SquareRootOramController.writeBlock S pos content)
      (SquareRootOramController.writeBlock T pos content) :=
  remote _ (h.write _ _)

theorem doPermute (perm : List ℕ) :
    Prog.Mirrors (OnServer Bad) Eq (Lift R) Eq (SquareRootOramController.doPermute S perm)
      (SquareRootOramController.doPermute T perm) :=
  .bind_eq (remote _ (h.permute _)) fun _ => update _

omit h in
/-- Every client can be the client of either server. -/
theorem exists_client [Nonempty σ] (v : SqrtSystem τ) : ∃ w : SqrtSystem σ, w.client = v.client :=
  ⟨⟨v.client, Classical.arbitrary σ⟩, rfl⟩

variable [Nonempty σ]

/-- At the end of an epoch both sides permute. -/
theorem permuteOnFull (draw : List ℕ) :
    Prog.Mirrors (OnServer Bad) Eq (Lift R) Eq (SquareRootOramController.permuteOnFull S K draw)
      (SquareRootOramController.permuteOnFull T K draw) := by
  refine .bind_eq (update _) fun _ =>
    .get_bind client client (fun _ _ hwv => hwv.1) exists_client fun w v hclient => ?_
  rw [hclient]
  refine .ite (.bind_eq (update _) fun _ => ?_) (.pure rfl)
  cases randomPermutation K.words draw with
  | ok perm => exact doPermute h perm
  | error st => exact .throw rfl

/-- The word is asked for under the same tag. -/
theorem fetch (address position : ℕ) :
    Prog.Mirrors (OnServer Bad) Eq (Lift R) Eq
      (SquareRootOramController.fetch S K address position)
      (SquareRootOramController.fetch T K address position) := by
  refine .bind (fun r => ⟨r, .of_eq rfl⟩) (.attempt (readShelter h address)) fun r r' hr => ?_
  cases hr.eq
  rcases r with (st | why | why) | block
  · exact .ite (.throw rfl) (.mapError_eq _ (readMain h position))
  · exact .throw rfl
  · exact .throw rfl
  · refine .get_bind client client (fun _ _ hwv => hwv.1) exists_client fun w v hclient => ?_
    rw [hclient]
    exact .bind_eq (update _) fun _ => .bind_eq (.mapError_eq _ (readDummy h _)) fun _ => .pure rfl

theorem internalAccess (op : Operation) (address : ℕ) (buffer : OramBlock D)
    (draws : SqrtDraws C) :
    Prog.Mirrors (OnServer Bad) Eq (Lift R) Eq
      (SquareRootOramController.internalAccess S K op address buffer draws)
      (SquareRootOramController.internalAccess T K op address buffer draws) := by
  refine .get_bind client client (fun _ _ hwv => hwv.1) exists_client fun w v hclient => ?_
  rw [hclient]
  refine .ite (.throw rfl) (.ite (.throw rfl) ?_)
  cases v.client.positionMap address with
  | none => exact .throw rfl
  | some position =>
    refine .bind_eq (fetch h address position) fun block => .ite (.throw rfl) ?_
    -- a read does not look at the outcome of its write
    have hpermute : ∀ content : C.Sealed, Prog.Mirrors (OnServer Bad) Eq (Lift R) Eq
        (Prog.mapError (Exit.append (.make .kUnknownError
          "Permutation failed or internal logic error!" "InternalAccess"))
          (SquareRootOramController.permuteOnFull S K draws.perm) >>= fun _ => pure content)
        (Prog.mapError (Exit.append (.make .kUnknownError
          "Permutation failed or internal logic error!" "InternalAccess"))
          (SquareRootOramController.permuteOnFull T K draws.perm) >>= fun _ => pure content) :=
      fun content => .bind_eq (.mapError_eq _ (permuteOnFull h draws.perm)) fun _ => .pure rfl
    split
    · refine .bind (fun r => ⟨r, .of_eq rfl⟩) (.attempt (writeBlock h _ _)) fun r r' _ => ?_
      exact hpermute _
    · exact .bind_eq (.mapError_eq _ (writeBlock h _ _)) fun _ => hpermute _

/-- The whole access. -/
theorem access (op : Operation) (address : ℕ) (buffer : OramBlock D) (draws : SqrtDraws C) :
    Prog.Mirrors (OnServer Bad) Eq (Lift R) Eq
      (SquareRootOramController.access S K op address buffer draws)
      (SquareRootOramController.access T K op address buffer draws) := by
  refine .get_bind client client (fun _ _ hwv => hwv.1) exists_client fun w v hclient => ?_
  rw [hclient]
  exact .ite (.throw rfl) (internalAccess h op address buffer draws)

end SqrtStub.Mirrors

/-! ## On the shared server -/

open OramServer (ServerEvent Shared Gone Shares ByOthers)
open ServiceState (serve)

/-- The stub of a client among others mirrors the stub of a client of its own. -/
theorem OramServer.mirrors_sqrtStub (header : RequestHeader) (lost : String) :
    (OramService.sqrtStub C).Mirrors Gone (Shares (L := L) (sqrtClass C) header)
      (OramServer.sqrtStub header lost) :=
  ⟨fun _ => mirrors_loadSqrtOram _, fun _ _ => mirrors_readSqrtMemory _ _,
    fun _ _ => mirrors_writeSqrtMemory _ _, fun _ => mirrors_sqrtPermute _⟩

/-- An `InitSqrtOram` that goes through puts the client's memory on the table. -/
theorem OramServer.shares_of_initSqrtOram {header : RequestHeader} {capacity blockSize : ℕ}
    {w w' : ServiceState L C} {answer : RpcAnswer C}
    (hinit : serve (.table (.request (.initSqrtOram header capacity blockSize))) w =
      (.ok answer, w'))
    {schedule : List (List (ServerEvent C))} (hothers : ByOthers header schedule) :
    Shares (sqrtClass C) header (.new C capacity) (some w', schedule) := by
  refine ⟨⟨w', rfl, ?_⟩, hothers⟩
  rw [ServiceState.serve_table, receive, handle, initSqrtOram] at hinit
  obtain ⟨-, -, hnew⟩ | ⟨-, st, hrefused⟩ := createStorage_cases w.storages header.id
    ⟨⟨header.id, capacity, blockSize, header.instanceHash⟩, .sqrt (.new C capacity)⟩
  · rw [hnew] at hinit
    cases hinit
    exact ⟨_, put_storages_self _ _ _, rfl⟩
  · rw [hrefused] at hinit
    cases hinit

/-- What is called on a square-root controller. -/
inductive SqrtOp (C : Codec D) where
  | fillWithData (garbage : ℕ → OramBlock D) (data : List (OramBlock D)) (draws : SqrtFillDraws C)
  | access (op : Operation) (address : ℕ) (buffer : OramBlock D) (draws : SqrtDraws C)

/-- The call over a stub, and what it leaves in `*data`. -/
def SqrtOp.run (S : SqrtStub C σ) (K : SquareRootOramConfig) :
    SqrtOp C → Prog Exit (SqrtSystem σ) (Option C.Sealed)
  | .fillWithData garbage data draws => do
    SquareRootOramController.fillWithData S K garbage data draws
    pure none
  | .access op address buffer draws => do
    let out ← SquareRootOramController.access S K op address buffer draws
    pure (some out)

/-- The process behind the client's stub is gone. -/
def SqrtSystem.ServerGone (v : SqrtSystem (Shared L C)) : Prop := Gone v.server

instance : Nonempty (SqrtOramServerStorage C) := ⟨.new C 1⟩

theorem SqrtOp.mirrors [Nonempty σ] {Bad : τ → Prop} {R : σ → τ → Prop} {S : SqrtStub C σ}
    {T : SqrtStub C τ} (h : S.Mirrors Bad R T) (call : SqrtOp C) :
    Prog.Mirrors (fun v => Bad v.server) Eq (Lift R) Eq (call.run S K) (call.run T K) := by
  cases call with
  | fillWithData garbage data draws =>
    exact .bind_eq (h.fillWithData garbage data draws) fun _ => .pure rfl
  | access op a buffer draws => exact .bind_eq (h.access op a buffer draws) fun _ => .pure rfl

/-- **The shared server as a server of one's own**, for a square-root ORAM. What
the other clients call (no `ResetServer`, and nothing with its id and hash) shows
in no outcome, as long as the server is up: neither in those of a whole run nor
in that of a call that follows. -/
theorem squareRootOram_shared {header : RequestHeader} {lost : String} {blockSize : ℕ}
    {w w' : ServiceState L C} {answer : RpcAnswer C} {schedule : List (List (ServerEvent C))}
    (hinit : serve (.table (.request (.initSqrtOram header K.blockNum blockSize))) w =
      (.ok answer, w'))
    (hothers : ByOthers header schedule)
    {calls : List (SqrtOp C)} {outs : List (Except Exit (Option C.Sealed))}
    {v : SqrtSystem (Shared L C)}
    (hrun : Prog.trace Exit.fatal (SqrtOp.run (OramServer.sqrtStub header lost) K) calls
      ⟨.new, some w', schedule⟩ = some (outs, v)) (hup : ¬v.ServerGone) :
    ∃ u, Prog.trace Exit.fatal (SqrtOp.run (OramService.sqrtStub C) K) calls
        (SqrtSystem.init C K) = some (outs, u) ∧
      v.client = u.client ∧ Shares (sqrtClass C) header u.server v.server ∧
      ∀ call : SqrtOp C, (call.run (OramServer.sqrtStub header lost) K v).2.ServerGone ∨
        (call.run (OramServer.sqrtStub header lost) K v).1 =
          (call.run (OramService.sqrtStub C) K u).1 := by
  have hcall := SqrtOp.mirrors (K := K) (OramServer.mirrors_sqrtStub (C := C) (L := L) header lost)
  have hstart : Lift (Shares (sqrtClass C) header) (SqrtSystem.init C K)
      ⟨.new, some w', schedule⟩ := ⟨rfl, OramServer.shares_of_initSqrtOram hinit hothers⟩
  obtain ⟨outs', u, htrace, houts, hclient, hserver⟩ :=
    Prog.trace_mirrors hcall (Prog.fatal_of_eq Exit.fatal) hstart hrun hup
  rw [Prog.eq_of_forall₂_corresponds houts] at htrace
  refine ⟨u, htrace, hclient.symm, hserver, fun call => ?_⟩
  rcases (hcall call).step u v ⟨hclient, hserver⟩ with hbad | ⟨hout, -⟩
  · exact .inl hbad
  · exact .inr hout.eq.symm

/-! ### A small instance -/

/-- A second client makes a storage of its own, and tries to read the first one's shelter. -/
def secondSqrtClient : List (List (ServerEvent (Codec.plain ℕ))) :=
  [[.call (.table (.request (.initFlatOram ⟨1, [2]⟩ 4 8))), .monitor,
    .call (.table (.request (.readSqrtMemory ⟨0, [2]⟩ 0 0)))]]

/-- The server once the first client has its memory. -/
def smallSqrtServer : ServiceState Sodium.toy (Codec.plain ℕ) where
  storages := (OramServer.new _).put 0 ⟨⟨0, 2, 8, [1]⟩, .sqrt (.new _ 2)⟩
  cryptor := some OramController.freshCryptor
  serverRunning := true

/-- A load and a read. -/
def smallSqrtOps : List (SqrtOp (Codec.plain ℕ)) :=
  [.fillWithData (fun _ => dummyWord) smallSqrtData smallSqrtFill,
    .access .kRead 1 dummyWord smallSqrtDraws]

/-- A load and an access, while the others are busy. -/
theorem squareRootOram_shared_small :
    ∃ outs v u, Prog.trace Exit.fatal
        (SqrtOp.run (OramServer.sqrtStub ⟨0, [1]⟩ "Socket closed") smallSqrt) smallSqrtOps
        ⟨.new, some smallSqrtServer, secondSqrtClient⟩ = some (outs, v) ∧
      Prog.trace Exit.fatal (SqrtOp.run (OramService.sqrtStub _) smallSqrt) smallSqrtOps
        (SqrtSystem.init _ smallSqrt) = some (outs, u) ∧ v.client = u.client := by
  have hsorted : (padded (fun _ => dummyWord) smallSqrtData
      smallSqrt.words).mergeSort byId = smallSqrtWords :=
    List.mergeSort_of_pairwise (by decide)
  obtain ⟨outs, v, hrun, hup⟩ : ∃ outs v, Prog.trace Exit.fatal
      (SqrtOp.run (OramServer.sqrtStub ⟨0, [1]⟩ "Socket closed") smallSqrt) smallSqrtOps
      ⟨.new, some smallSqrtServer, secondSqrtClient⟩ = some (outs, v) ∧ ¬v.ServerGone := by
    rw [smallSqrtOps, Prog.trace, SqrtOp.run, SquareRootOramController.fillWithData,
      if_neg (by decide), hsorted]
    exact ⟨_, _, rfl, by rintro ⟨⟩⟩
  have hinit : serve (.table (.request (.initSqrtOram ⟨0, [1]⟩ smallSqrt.blockNum 8)))
      (.start (Codec.plain ℕ) OramController.freshCryptor) =
        (.ok (.table .empty), smallSqrtServer) := rfl
  obtain ⟨u, htrace, hclient, -⟩ := squareRootOram_shared hinit (by decide) hrun hup
  exact ⟨outs, v, u, hrun, htrace, hclient⟩

end ObliviousRam
