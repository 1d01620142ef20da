import ObliviousRam.SharedServer
import ObliviousRam.LinearPattern

set_option autoImplicit false

/-!
# A linear ORAM among other clients

The stub of `SharedServer` mirrors a storage of one's own, and so do all calls of
the controller by `FlatStub.Mirrors`.

* `linearOram_shared` — as long as the server is up, no sequence of calls tells
  the shared server from a storage of one's own.
-/

namespace ObliviousRam

variable {D σ τ : Type} {C : Codec D} {L : Sodium}

open OramServer (ServerEvent Shared Gone Shares ByOthers)
open ServiceState (serve)
open LinearSystem LinearOramController

/-- The same call from mirrored stubs. -/
theorem LinearOp.mirrors [Nonempty σ] {Bad : τ → Prop} {R : σ → τ → Prop} {S : FlatStub C σ}
    {T : FlatStub C τ} (h : S.Mirrors Bad R Eq T) (call : LinearOp C) :
    Prog.Mirrors (fun v => Bad v.server) Eq (Lift R) Eq (call.run S) (call.run T) := by
  cases call with
  | fillWithData data iv => exact .bind_eq (h.fillWithData rfl) fun _ => .pure rfl
  | access op address buffer iv =>
    refine .bind_eq (h.access Iff.rfl ?_) fun _ => .pure rfl
    rintro content _ rfl
    exact ⟨rfl, rfl⟩

namespace OramServer

/-- The stub of a client among others mirrors the stub of a client of its own. -/
theorem mirrors_flatStub (header : RequestHeader) (lost : String) :
    (OramService.flatStub C).Mirrors Gone (Shares (L := L) (flatClass C) header) Eq
      (flatStub header lost) where
  refl := fun _ => rfl
  read := mirrors_readFlatMemory
  write := by
    rintro content _ rfl
    exact mirrors_writeFlatMemory content

/-- An `InitFlatOram` that goes through puts the client's storage on the table. -/
theorem shares_of_initFlatOram {header : RequestHeader} {capacity blockSize : ℕ}
    {w w' : ServiceState L C} {answer : RpcAnswer C}
    (hinit : serve (.table (.request (.initFlatOram header capacity blockSize))) w =
      (.ok answer, w'))
    {schedule : List (List (ServerEvent C))} (hothers : ByOthers header schedule) :
    Shares (flatClass C) header ⟨⟨[], []⟩⟩ (some w', schedule) := by
  refine ⟨⟨w', rfl, ?_⟩, hothers⟩
  rw [ServiceState.serve_table, receive, handle, initFlatOram] at hinit
  obtain ⟨-, -, hnew⟩ | ⟨-, st, hrefused⟩ := createStorage_cases w.storages header.id
    ⟨⟨header.id, capacity, blockSize, header.instanceHash⟩, .flat ⟨⟨[], []⟩⟩⟩
  · rw [hnew] at hinit
    cases hinit
    exact ⟨_, put_storages_self _ _ _, rfl⟩
  · rw [hrefused] at hinit
    cases hinit

end OramServer

/-- The process behind the client's stub is gone. -/
def LinearSystem.ServerGone (v : LinearSystem (Shared L C)) : Prop := Gone v.server

instance : Nonempty (FlatOramServerStorage C) := ⟨⟨⟨[], []⟩⟩⟩

/-- **The shared server as a server of one's own**, for a linear ORAM. What the
other clients call (no `ResetServer`, and nothing with its id and hash) shows in
no outcome, as long as the server is up: neither in those of a whole run nor in
that of a call that follows. -/
theorem linearOram_shared {header : RequestHeader} {lost : String} {capacity blockSize : ℕ}
    {w w' : ServiceState L C} {answer : RpcAnswer C} {schedule : List (List (ServerEvent C))}
    (hinit : serve (.table (.request (.initFlatOram header capacity blockSize))) w =
      (.ok answer, w'))
    (hothers : ByOthers header schedule) {calls : List (LinearOp C)}
    {outs : List (Except Exit (Option (OramBlock D)))} {v : LinearSystem (Shared L C)}
    (hrun : Prog.trace Exit.fatal (LinearOp.run (OramServer.flatStub header lost)) calls
      ⟨.new, some w', schedule⟩ = some (outs, v)) (hup : ¬v.ServerGone) :
    ∃ u, Prog.trace Exit.fatal (LinearOp.run (OramService.flatStub C)) calls
        ⟨.new, ⟨⟨[], []⟩⟩⟩ = some (outs, u) ∧
      v.client = u.client ∧ Shares (flatClass C) header u.server v.server ∧
      ∀ call : LinearOp C, (call.run (OramServer.flatStub header lost) v).2.ServerGone ∨
        (call.run (OramServer.flatStub header lost) v).1 =
          (call.run (OramService.flatStub C) u).1 := by
  have hcall := LinearOp.mirrors (OramServer.mirrors_flatStub (C := C) (L := L) header lost)
  have hstart : Lift (Shares (flatClass C) header) ⟨.new, ⟨⟨[], []⟩⟩⟩
      ⟨.new, some w', schedule⟩ := ⟨rfl, OramServer.shares_of_initFlatOram hinit hothers⟩
  obtain ⟨outs', u, htrace, houts, hclient, hserver⟩ :=
    Prog.trace_mirrors hcall (Prog.fatal_of_eq Exit.fatal) hstart hrun hup
  rw [Prog.eq_of_forall₂_corresponds houts] at htrace
  refine ⟨u, htrace, hclient.symm, hserver, fun call => ?_⟩
  rcases (hcall call).step u v ⟨hclient, hserver⟩ with hbad | ⟨hout, -⟩
  · exact .inl hbad
  · exact .inr hout.eq.symm

/-! ### A small instance -/

/-- A second client tries the first one's id, and closes the server. -/
def secondFlatClient : List (List (ServerEvent (Codec.plain ℕ))) :=
  [[.call (.table (.request (.writeFlatMemory ⟨0, [2]⟩ ⟨[], [0]⟩)))], [.monitor],
    [.call .closeConnection]]

/-- The server once the first client has its storage. -/
def smallFlatServer : ServiceState Sodium.toy (Codec.plain ℕ) where
  storages := (OramServer.new _).put 0 ⟨⟨0, 2, 8, [1]⟩, .flat ⟨⟨[], []⟩⟩⟩
  cryptor := some OramController.freshCryptor
  serverRunning := true

/-- A load and a read, while another client asks for a storage of its own. -/
theorem linearOram_shared_small :
    ∃ outs v u, Prog.trace Exit.fatal
        (LinearOp.run (OramServer.flatStub ⟨0, [1]⟩ "Socket closed")) readOnce
        ⟨.new, some smallFlatServer, secondFlatClient⟩ = some (outs, v) ∧
      Prog.trace Exit.fatal (LinearOp.run (OramService.flatStub _)) readOnce
        ⟨.new, ⟨⟨[], []⟩⟩⟩ = some (outs, u) ∧ v.client = u.client := by
  have hinit : serve (.table (.request (.initFlatOram ⟨0, [1]⟩ 2 8)))
      (.start (Codec.plain ℕ) OramController.freshCryptor) =
        (.ok (.table .empty), smallFlatServer) := rfl
  obtain ⟨outs, v, hrun, hup⟩ : ∃ outs v, Prog.trace Exit.fatal
      (LinearOp.run (OramServer.flatStub ⟨0, [1]⟩ "Socket closed")) readOnce
      ⟨.new, some smallFlatServer, secondFlatClient⟩ = some (outs, v) ∧ ¬v.ServerGone :=
    ⟨_, _, rfl, by rintro ⟨⟩⟩
  obtain ⟨u, htrace, hclient, -⟩ := linearOram_shared hinit (by decide) hrun hup
  exact ⟨outs, v, u, hrun, htrace, hclient⟩

end ObliviousRam
