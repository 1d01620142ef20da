import ObliviousRam.LinearMemory
import ObliviousRam.Mirror

set_option autoImplicit false

/-!
# The access pattern of a linear ORAM

The controller takes the whole storage from its server, and puts a whole storage
back. From stubs that mirror each other, with strings that are related in some
way, its calls are mirrored too (`FlatStub.Mirrors`).

* `linearOram_oblivious` — with strings of the same size for related ones, this
  says what calls and sizes tell an observer of the connection: of two sequences
  of calls that load as many blocks in the same places, over whatever connection,
  he cannot tell which of them he watches.
-/

namespace ObliviousRam

variable {D σ τ : Type} {C : Codec D}

/-- The calls of `T` mirror those of `S`, on strings related by `V`. -/
structure FlatStub.Mirrors (Bad : τ → Prop) (R : σ → τ → Prop)
    (V : FlatString C → FlatString C → Prop) (S : FlatStub C σ) (T : FlatStub C τ) : Prop where
  refl : ∀ content, V content content
  read : Prog.Mirrors Bad Eq R V S.readFlatMemory T.readFlatMemory
  write : ∀ content content', V content content' →
    Prog.Mirrors Bad Eq R Eq (S.writeFlatMemory content) (T.writeFlatMemory content')

namespace LinearSystem

/-- One client on two related servers. -/
def Lift (R : σ → τ → Prop) (w : LinearSystem σ) (v : LinearSystem τ) : Prop :=
  w.client = v.client ∧ R w.server v.server

end LinearSystem

open LinearSystem LinearOramController

namespace FlatStub.Mirrors

variable {Bad : τ → Prop} {R : σ → τ → Prop} {V : FlatString C → FlatString C → Prop}
  {S : FlatStub C σ} {T : FlatStub C τ}

/-- The server of the system has met the bad event. -/
def OnServer (Bad : τ → Prop) (w : LinearSystem τ) : Prop := Bad w.server

/-- A remote call of the controller. -/
theorem remote {α α' : Type} {W : α → α' → Prop} {call : Prog String σ α}
    {call' : Prog String τ α'} (hcall : Prog.Mirrors Bad Eq R W call call') (g : String → Exit)
    {m : Prog Exit (LinearSystem σ) α} {m' : Prog Exit (LinearSystem τ) α'}
    (hm : ∀ w, m w = ((call w.server).1.mapError g, { w with server := (call w.server).2 }))
    (hm' : ∀ v, m' v = ((call' v.server).1.mapError g, { v with server := (call' v.server).2 })) :
    Prog.Mirrors (OnServer Bad) Eq (Lift R) W m m' where
  keeps := by
    intro v hbad
    rw [hm']
    exact hcall.keeps v.server hbad
  step := by
    rintro ⟨c, s⟩ ⟨_, t⟩ ⟨rfl, hR⟩
    rw [hm, hm']
    rcases hcall.step s t hR with hbad | ⟨hout, hR'⟩
    · exact .inl hbad
    · exact .inr ⟨hout.mapError fun _ _ he => congrArg g he, rfl, hR'⟩

variable (h : S.Mirrors Bad R V T)
include h

/-- Both clients read a storage, or both are refused. -/
theorem readFromServer :
    Prog.Mirrors (OnServer Bad) Eq (Lift R) V (LinearOramController.readFromServer S)
      (LinearOramController.readFromServer T) := by
  refine remote h.read (fun msg => .status (.make .kServerError msg "ReadFromServer"))
    (fun w => ?_) fun v => ?_
  · rw [LinearOramController.readFromServer]
    rcases S.readFlatMemory w.server with ⟨_ | _, _⟩ <;> rfl
  · rw [LinearOramController.readFromServer]
    rcases T.readFlatMemory v.server with ⟨_ | _, _⟩ <;> rfl

/-- Both clients write a storage back, or both are refused. -/
theorem writeToServer {content content' : FlatString C} (hV : V content content') :
    Prog.Mirrors (OnServer Bad) Eq (Lift R) Eq (LinearOramController.writeToServer S content)
      (LinearOramController.writeToServer T content') := by
  refine remote (h.write _ _ hV) (fun msg => .status (.make .kServerError msg "WriteToServer"))
    (fun w => ?_) fun v => ?_
  · rw [LinearOramController.writeToServer]
    rcases S.writeFlatMemory content w.server with ⟨_ | _, _⟩ <;> rfl
  · rw [LinearOramController.writeToServer]
    rcases T.writeFlatMemory content' v.server with ⟨_ | _, _⟩ <;> rfl

/-- What one pass over the storage makes of related strings. -/
def Passes (V : FlatString C → FlatString C → Prop) (W : OramBlock D → OramBlock D → Prop)
    (op op' : Operation) (address address' : ℕ) (data data' : OramBlock D) (iv iv' : ℕ → C.Iv) :
    Prop :=
  ∀ content content', V content content' →
    W (accessBlocks op address iv 0 data content.blocks).1
        (accessBlocks op' address' iv' 0 data' content'.blocks).1 ∧
      V { content with blocks := (accessBlocks op address iv 0 data content.blocks).2 }
        { content' with blocks := (accessBlocks op' address' iv' 0 data' content'.blocks).2 }

variable {W : OramBlock D → OramBlock D → Prop} {op op' : Operation} {address address' : ℕ}
  {data data' : OramBlock D} {iv iv' : ℕ → C.Iv}

/-- The pass in between is the client's own affair, as long as it takes related strings
to related strings. -/
theorem internalAccess (hop : op = .kInvalid ↔ op' = .kInvalid)
    (hpass : Passes V W op op' address address' data data' iv iv') :
    Prog.Mirrors (OnServer Bad) Eq (Lift R) W
      (LinearOramController.internalAccess S op address data iv)
      (LinearOramController.internalAccess T op' address' data' iv') := by
  rw [LinearOramController.internalAccess, LinearOramController.internalAccess]
  by_cases hinvalid : op = .kInvalid
  · rw [if_pos hinvalid, if_pos (hop.mp hinvalid)]
    exact .throw rfl
  · rw [if_neg hinvalid, if_neg fun h => hinvalid (hop.mpr h)]
    refine .bind (fun content => ⟨content, h.refl content⟩)
      ((readFromServer h).mapError_eq _) fun content content' hV => ?_
    obtain ⟨hout, hV'⟩ := hpass content content' hV
    exact .bind_eq ((writeToServer h hV').mapError_eq _) fun _ => .pure hout

omit h in
/-- Every client can be the client of either server. -/
theorem exists_client [Nonempty σ] (v : LinearSystem τ) :
    ∃ w : LinearSystem σ, w.client = v.client :=
  ⟨⟨v.client, Classical.arbitrary σ⟩, rfl⟩

/-- `Access` asks the flag first, which related clients have in common. -/
theorem access [Nonempty σ] (hop : op = .kInvalid ↔ op' = .kInvalid)
    (hpass : Passes V W op op' address address' data data' iv iv') :
    Prog.Mirrors (OnServer Bad) Eq (Lift R) W
      (LinearOramController.access S op address data iv)
      (LinearOramController.access T op' address' data' iv') := by
  refine .get_bind client client (fun _ _ hwv => hwv.1) exists_client fun w v hclient => ?_
  rw [hclient]
  exact .ite (.throw rfl) (internalAccess h hop hpass)

/-- The load of related strings. -/
theorem fillWithData {data data' : List (OramBlock D)} {iv iv' : ℕ → C.Iv}
    (hV : V ⟨data.mapIdx fun i b => C.encryptBlock (iv i) b, []⟩
      ⟨data'.mapIdx fun i b => C.encryptBlock (iv' i) b, []⟩) :
    Prog.Mirrors (OnServer Bad) Eq (Lift R) Eq (LinearOramController.fillWithData S data iv)
      (LinearOramController.fillWithData T data' iv') := by
  refine .bind_eq (.modify (fun w v hwv => ⟨rfl, hwv.2⟩) fun v hbad => hbad) fun _ => ?_
  exact (writeToServer h hV).mapError fun _ _ _ => rfl

end FlatStub.Mirrors

/-! ## The calls of a client -/

/-- What is called on a linear controller. -/
inductive LinearOp (C : Codec D) where
  | fillWithData (data : List (OramBlock D)) (iv : ℕ → C.Iv)
  | access (op : Operation) (address : ℕ) (buffer : OramBlock D) (iv : ℕ → C.Iv)

/-- The call over a stub, and what it leaves in `*data`. -/
def LinearOp.run (S : FlatStub C σ) : LinearOp C → Prog Exit (LinearSystem σ) (Option (OramBlock D))
  | .fillWithData data iv => do
    LinearOramController.fillWithData S data iv
    pure none
  | .access op address buffer iv => do
    let out ← LinearOramController.access S op address buffer iv
    pure (some out)

/-! ## What an observer sees

The observer is on the wire: he sees which call is made, how long every request and
every response is, and which of them get lost. The bytes of the blocks, their ids in the
clear among them, are not in this view. -/

/-- The size of a string on the wire: its blocks, and the bytes left over. -/
def FlatString.size (content : FlatString C) : ℕ × ℕ :=
  (content.blocks.length, content.rest.length)

/-- A remote call as an observer sees it. -/
inductive FlatEvent where
  /-- with the size of the response, if there is one -/
  | readFlatMemory (response : Option (ℕ × ℕ))
  | writeFlatMemory (size : ℕ × ℕ)
  deriving DecidableEq, Repr

/-- A stub whose calls are written down. -/
def loggedFlatStub (S : FlatStub C σ) : FlatStub C (σ × List FlatEvent) where
  readFlatMemory := fun s =>
    ((S.readFlatMemory s.1).1, (S.readFlatMemory s.1).2,
      s.2 ++ [.readFlatMemory ((S.readFlatMemory s.1).1.toOption.map FlatString.size)])
  writeFlatMemory := fun content =>
    Prog.logged (.writeFlatMemory content.size) (S.writeFlatMemory content)

/-- A storage behind a connection that fails as the list says, and what has been seen. -/
abbrev WatchedStorage (C : Codec D) : Type :=
  (FlatOramServerStorage C × List Delivery) × List FlatEvent

/-- The stub of a client that is watched. -/
def watchedStub (C : Codec D) : FlatStub C (WatchedStorage C) :=
  loggedFlatStub (OramService.flatStub C).relayed

/-- Strings of the same size. -/
def SameSize (content content' : FlatString C) : Prop := content.size = content'.size

/-- Storages of the same size, behind the same connection, with the same log. -/
def LooksLike (s t : WatchedStorage C) : Prop :=
  SameSize s.1.1.storage t.1.1.storage ∧ s.1.2 = t.1.2 ∧ s.2 = t.2

instance : Nonempty (WatchedStorage C) := ⟨((⟨⟨[], []⟩⟩, []), [])⟩

/-- The watched stub shows sizes only. -/
theorem mirrors_watchedStub :
    (watchedStub C).Mirrors (fun _ => False) LooksLike SameSize (watchedStub C) where
  refl := fun _ => rfl
  read := by
    refine ⟨fun _ hbad => hbad, ?_⟩
    rintro ⟨⟨s, ds⟩, log⟩ ⟨⟨t, _⟩, _⟩ ⟨hsize, rfl, rfl⟩
    have hlog : some s.storage.size = some t.storage.size := congrArg some hsize
    right
    rcases ds with _ | ⟨_ | message | message, ds⟩
    · exact ⟨.ok hsize, hsize, rfl, congrArg (fun n => log ++ [.readFlatMemory n]) hlog⟩
    · exact ⟨.ok hsize, hsize, rfl, congrArg (fun n => log ++ [.readFlatMemory n]) hlog⟩
    · exact ⟨.error rfl, hsize, rfl, rfl⟩
    · exact ⟨.error rfl, hsize, rfl, rfl⟩
  write := by
    intro content content' hV
    refine ⟨fun _ hbad => hbad, ?_⟩
    rintro ⟨⟨s, ds⟩, log⟩ ⟨⟨t, _⟩, _⟩ ⟨hsize, rfl, rfl⟩
    have hlog : log ++ [FlatEvent.writeFlatMemory content.size] =
        log ++ [.writeFlatMemory content'.size] := by
      rw [show content.size = content'.size from hV]
    right
    rcases ds with _ | ⟨_ | message | message, ds⟩
    · exact ⟨.ok rfl, hV, rfl, hlog⟩
    · exact ⟨.ok rfl, hV, rfl, hlog⟩
    · exact ⟨.error rfl, hsize, rfl, hlog⟩
    · exact ⟨.error rfl, hV, rfl, hlog⟩

/-- Two calls that may differ in all but the number of blocks they load. -/
inductive LinearOp.Alike : LinearOp C → LinearOp C → Prop
  | fillWithData {data data' : List (OramBlock D)} (iv iv') (h : data.length = data'.length) :
      Alike (.fillWithData data iv) (.fillWithData data' iv')
  | access {op op' : Operation} (address address' buffer buffer' iv iv')
      (h : op = .kInvalid ↔ op' = .kInvalid) :
      Alike (.access op address buffer iv) (.access op' address' buffer' iv')

/-- A pass over the storage keeps its size. -/
theorem size_accessBlocks (op : Operation) (address : ℕ) (data : OramBlock D) (iv : ℕ → C.Iv)
    (content : FlatString C) :
    ({ content with blocks := (accessBlocks op address iv 0 data content.blocks).2 } :
      FlatString C).size = content.size := by
  rw [FlatString.size, accessBlocks_sent, List.length_mapIdx]
  rfl

theorem LinearOp.Alike.mirrors {call call' : LinearOp C} (h : call.Alike call') :
    Prog.Mirrors (fun _ => False) Eq (Lift LooksLike) (fun _ _ => True)
      (call.run (watchedStub C)) (call'.run (watchedStub C)) := by
  have hstub := mirrors_watchedStub (C := C)
  cases h with
  | fillWithData iv iv' hlen =>
    refine .bind_eq (hstub.fillWithData ?_) fun _ => .pure trivial
    rw [SameSize, FlatString.size, FlatString.size, List.length_mapIdx, List.length_mapIdx, hlen]
  | access address address' buffer buffer' iv iv' hop =>
    refine .bind (V := fun _ _ => True) (fun out => ⟨out, trivial⟩) (hstub.access hop ?_)
      fun _ _ _ => .pure trivial
    intro content content' hV
    refine ⟨trivial, ?_⟩
    rw [SameSize, size_accessBlocks, size_accessBlocks]
    exact hV

/-- **A linear ORAM is oblivious**, over whatever connection. Of two sequences of
loads and accesses that differ in all but the lengths of the loads (in the
operations, the addresses, the data and the nonces) the one goes through if the
other does; the same calls return, the others stop for the same reasons, and an
observer of the connection has seen the same calls with the same sizes. -/
theorem linearOram_oblivious {calls calls' : List (LinearOp C)}
    (halike : List.Forall₂ LinearOp.Alike calls calls') {storage : FlatOramServerStorage C}
    {ds : List Delivery} {outs' : List (Except Exit (Option (OramBlock D)))}
    {v : LinearSystem (WatchedStorage C)}
    (hrun : Prog.trace Exit.fatal (LinearOp.run (watchedStub C)) calls'
      ⟨.new, (storage, ds), []⟩ = some (outs', v)) :
    ∃ outs u, Prog.trace Exit.fatal (LinearOp.run (watchedStub C)) calls
        ⟨.new, (storage, ds), []⟩ = some (outs, u) ∧
      u.server.2 = v.server.2 ∧
      List.Forall₂ (Prog.Corresponds Eq fun _ _ => True) outs outs' := by
  have hstart : Lift LooksLike (⟨.new, (storage, ds), []⟩ : LinearSystem (WatchedStorage C))
      ⟨.new, (storage, ds), []⟩ := ⟨rfl, rfl, rfl, rfl⟩
  have hcalls := halike.imp fun _ _ h => LinearOp.Alike.mirrors h
  obtain ⟨outs, u, htrace, houts, -, -, -, hlog⟩ :=
    Prog.trace_mirrors_forall₂ hcalls (Prog.fatal_of_eq Exit.fatal) hstart hrun not_false
  exact ⟨outs, u, htrace, hlog, houts⟩

/-! ### A small instance -/

/-- A load, and a read of the one block of which the answer is lost. -/
def readOnce : List (LinearOp (Codec.plain ℕ)) :=
  [.fillWithData [⟨⟨0, .kNormal, 1⟩, 10⟩] fun _ => (),
    .access .kRead 0 ⟨⟨9, .kDummy, 0⟩, 0⟩ fun _ => ()]

/-- Another load, and a write to an address that is not there. -/
def writeElsewhere : List (LinearOp (Codec.plain ℕ)) :=
  [.fillWithData [⟨⟨5, .kNormal, 1⟩, 77⟩] fun _ => (),
    .access .kWrite 3 ⟨⟨3, .kNormal, 1⟩, 42⟩ fun _ => ()]

/-- A load of one block and a read that gets no answer look like another load and a write. -/
theorem linearOram_oblivious_small :
    ∃ outs u outs' v,
      Prog.trace Exit.fatal (LinearOp.run (watchedStub _)) writeElsewhere
        ⟨.new, (⟨⟨[], []⟩⟩, [.carried, .carried, .unanswered "Deadline Exceeded"]), []⟩ =
          some (outs', v) ∧
      Prog.trace Exit.fatal (LinearOp.run (watchedStub _)) readOnce
        ⟨.new, (⟨⟨[], []⟩⟩, [.carried, .carried, .unanswered "Deadline Exceeded"]), []⟩ =
          some (outs, u) ∧
      u.server.2 = [.writeFlatMemory (1, 0), .readFlatMemory (some (1, 0)),
        .writeFlatMemory (1, 0)] := by
  have halike : List.Forall₂ LinearOp.Alike readOnce writeElsewhere :=
    .cons (.fillWithData _ _ rfl) (.cons (.access _ _ _ _ _ _ (by decide)) .nil)
  obtain ⟨outs', v, hrun, hlog⟩ : ∃ outs' v,
      Prog.trace Exit.fatal (LinearOp.run (watchedStub (Codec.plain ℕ))) writeElsewhere
        ⟨.new, (⟨⟨[], []⟩⟩, [.carried, .carried, .unanswered "Deadline Exceeded"]), []⟩ =
          some (outs', v) ∧
      v.server.2 = [.writeFlatMemory (1, 0), .readFlatMemory (some (1, 0)),
        .writeFlatMemory (1, 0)] := ⟨_, _, rfl, rfl⟩
  obtain ⟨outs, u, htrace, hsame, -⟩ := linearOram_oblivious halike hrun
  exact ⟨outs, u, outs', v, hrun, htrace, hsame.trans hlog⟩

end ObliviousRam
