import ObliviousRam.ReplayingServer
import ObliviousRam.LinearMemory
import ObliviousRam.SharedLinear

set_option autoImplicit false

/-!
# A linear ORAM on a server that replays

Nobody but the client can seal a block, so all that a server can do is to answer
with blocks that it has been sent: in the wrong place, outdated, or twice. The
client looks at the id of a block, and so takes none for another.

A block is **vouched** for if it is no real one, or its value was given under its
id, by a load or by a write that may have failed.
-/

namespace ObliviousRam

variable {D υ σ : Type} {C : Codec D}

/-- If the block is real, its value is one that `V` has under its id. -/
def OramBlock.Vouched (val : OramBlock D → υ) (V : ℕ → υ → Prop) (b : OramBlock D) : Prop :=
  b.isNormal = true → V b.id (val b)

/-- The stub of a server that can only replay. -/
structure FlatStub.Replays (knows : σ → C.Sealed → Prop) (S : FlatStub C σ) : Prop where
  read : S.readFlatMemory.Replays knows (fun _ => False) fun content c => c ∈ content.blocks
  write : ∀ content,
    (S.writeFlatMemory content).Replays knows (· ∈ content.blocks) fun _ _ => False

namespace FlatStub.Replays

variable {knows : σ → C.Sealed → Prop} {S : FlatStub C σ}

/-- A connection that loses calls and answers tells the server nothing new. -/
theorem relayed (h : S.Replays knows) : S.relayed.Replays fun s => knows s.1 :=
  ⟨h.read.relay, fun content => (h.write content).relay⟩

end FlatStub.Replays

/-- The server of a linear ORAM knows its storage. -/
theorem OramService.flatStub_replays :
    (OramService.flatStub C).Replays fun s c => c ∈ s.storage.blocks := by
  constructor
  · refine .mapError ⟨.inl, ?_⟩
    rintro s _ _ c ⟨⟩ hc
    exact .inl hc
  · intro content
    refine .mapError ⟨.inr, ?_⟩
    rintro s _ _ c _ ⟨⟩

namespace LinearOp

/-- The call gives `a` the value `v`. -/
def Offers : LinearOp C → ℕ → D → Prop
  | .fillWithData data _, a, v => ∃ b ∈ data, b.isNormal = true ∧ b.id = a ∧ b.data = v
  | .access op address buffer _, a, v => op = .kWrite ∧ address = a ∧ buffer.data = v

end LinearOp

namespace LinearOramController

variable {knows : σ → C.Sealed → Prop} {S : FlatStub C σ} {V : ℕ → D → Prop}

/-- All that the server knows opens to a block whose value was given. -/
def Faithful (knows : σ → C.Sealed → Prop) (V : ℕ → D → Prop) (w : LinearSystem σ) : Prop :=
  Prog.Only knows (fun c => (C.decryptBlock c).2.Vouched OramBlock.data V) w.server

/-- `ReadFromServer` is a call of the stub, with a status of its own for the errors. -/
theorem readFromServer_eq (S : FlatStub C σ) : readFromServer S =
    Prog.mapError (fun msg => .status (.make .kServerError msg "ReadFromServer"))
      (Prog.zoom LinearSystem.server (fun server w => { w with server := server })
        S.readFlatMemory) := by
  funext w
  rw [readFromServer, Prog.mapError, Prog.zoom]
  rcases S.readFlatMemory w.server with ⟨_ | _, _⟩ <;> rfl

theorem writeToServer_eq (S : FlatStub C σ) (input : FlatString C) : writeToServer S input =
    Prog.mapError (fun msg => .status (.make .kServerError msg "WriteToServer"))
      (Prog.zoom LinearSystem.server (fun server w => { w with server := server })
        (S.writeFlatMemory input)) := by
  funext w
  rw [writeToServer, Prog.mapError, Prog.zoom]
  rcases S.writeFlatMemory input w.server with ⟨_ | _, _⟩ <;> rfl

theorem yields_readFromServer (hS : S.Replays knows) :
    Prog.Yields (Faithful knows V) (readFromServer S) fun content =>
      ∀ c ∈ content.blocks, (C.decryptBlock c).2.Vouched OramBlock.data V := by
  rw [readFromServer_eq]
  exact .mapError ((hS.read.yields fun c hc => hc.elim).zoom (fun _ h => h) fun _ _ _ h => h)

theorem yields_writeToServer (hS : S.Replays knows) {input : FlatString C}
    (hinput : ∀ c ∈ input.blocks, (C.decryptBlock c).2.Vouched OramBlock.data V) :
    Prog.Yields (Faithful knows V) (writeToServer S input) fun _ => True := by
  rw [writeToServer_eq]
  exact .mapError ((((hS.write input).yields hinput).zoom (fun _ h => h) fun _ _ _ h => h).weaken
    fun _ _ => trivial)

/-- A write gives the block that it touches the value of the buffer. -/
theorem vouched_touchBlock {op : Operation} {address : ℕ} {bytes : D}
    (hvalid : op ≠ .kInvalid) (hV : op = .kWrite → V address bytes) {b : OramBlock D}
    (hb : b.Vouched OramBlock.data V) :
    (touchBlock op address bytes b).Vouched OramBlock.data V := by
  rw [touchBlock]
  split
  next h =>
    intro _
    obtain ⟨hid, -⟩ := blockEqual_iff.mp h.1
    show V b.id bytes
    rw [hid]
    exact hV (op.eq_kWrite h.2 hvalid)
  next => exact hb

/-- What an access leaves in `*data`: a read that has not found its block leaves
the buffer alone. -/
theorem yields_access (hS : S.Replays knows) {op : Operation} {address : ℕ} {buffer : OramBlock D}
    (hV : op = .kWrite → V address buffer.data) (iv : ℕ → C.Iv) :
    Prog.Yields (Faithful knows V) (access S op address buffer iv) fun out => op = .kRead →
      out = buffer ∨ blockEqual address out = true ∧ V address out.data := by
  refine .get_bind fun w _ => .ite (fun _ => .throw _) fun _ => .ite (fun _ => .throw _)
    fun hvalid => .bind (.mapError (yields_readFromServer hS)) fun content hcontent => ?_
  refine .bind (.mapError (yields_writeToServer hS fun c hc => ?_)) fun _ _ => .pure ?_
  · -- a block that is sent back
    have hmem := List.mem_map_of_mem (f := fun c => (C.decryptBlock c).2) hc
    rw [decrypt_accessBlocks, List.mem_map] at hmem
    obtain ⟨b, hb, he⟩ := hmem
    obtain ⟨c', hc', rfl⟩ := List.mem_map.mp hb
    rw [← he]
    exact vouched_touchBlock hvalid hV (hcontent c' hc')
  · rintro rfl
    rw [accessBlocks_read]
    cases hlast : ((content.blocks.map fun c => (C.decryptBlock c).2).filter
        (blockEqual address)).getLast? with
    | none => exact .inl rfl
    | some b =>
      obtain ⟨hb, hequal⟩ := List.mem_filter.mp (List.mem_of_getLast? hlast)
      obtain ⟨c, hc, rfl⟩ := List.mem_map.mp hb
      obtain ⟨hid, hnormal⟩ := blockEqual_iff.mp hequal
      exact .inr ⟨hequal, hid ▸ hcontent c hc hnormal⟩

/-- A load seals blocks whose values are given by loading them. -/
theorem yields_fillWithData (hS : S.Replays knows) {data : List (OramBlock D)}
    (hV : ∀ b ∈ data, b.Vouched OramBlock.data V) (iv : ℕ → C.Iv) :
    Prog.Yields (Faithful knows V) (fillWithData S data iv) fun _ => True := by
  refine .bind (.modify fun _ hw => hw) fun _ _ => .mapError (yields_writeToServer hS ?_)
  intro c hc
  obtain ⟨i, hi, rfl⟩ := List.mem_mapIdx.mp hc
  rw [C.decrypt_encrypt]
  exact hV _ (List.getElem_mem hi)

end LinearOramController

open LinearOramController

/-- A call keeps the server to what is offered. -/
theorem LinearOp.keeps_faithful {knows : σ → C.Sealed → Prop} {S : FlatStub C σ}
    (hS : S.Replays knows) {V : ℕ → D → Prop} {call : LinearOp C}
    (hV : ∀ a v, call.Offers a v → V a v) :
    Prog.Keeps (Faithful knows V) (call.run S) := by
  cases call with
  | fillWithData data iv =>
    refine (Prog.Yields.bind (yields_fillWithData hS (fun b hb hnormal => ?_) iv) fun _ _ =>
      .pure (R := fun _ => True) trivial).keeps
    exact hV _ _ ⟨b, hb, hnormal, rfl, rfl⟩
  | access op address buffer iv =>
    exact (Prog.Yields.bind (yields_access hS (fun hop => hV _ _ ⟨hop, rfl, rfl⟩) iv) fun _ _ =>
      .pure (R := fun _ => True) trivial).keeps

/-- **A linear ORAM makes nothing up**, whatever the server replays. A read that
returns leaves the buffer alone, or fills it with a block of the address and
bytes that the address has been given. -/
theorem linearOram_authentic {knows : σ → C.Sealed → Prop} {S : FlatStub C σ}
    (hS : S.Replays knows) {s : σ} (hnew : ∀ c, ¬knows s c) {calls : List (LinearOp C)}
    {outs : List (Except Exit (Option (OramBlock D)))} {w : LinearSystem σ}
    (hrun : Prog.trace Exit.fatal (LinearOp.run S) calls ⟨.new, s⟩ = some (outs, w))
    {address : ℕ} {buffer out : OramBlock D} {iv : ℕ → C.Iv} {w' : LinearSystem σ}
    (hread : (LinearOp.access .kRead address buffer iv).run S w = (.ok (some out), w')) :
    out = buffer ∨
      blockEqual address out = true ∧ ∃ call ∈ calls, call.Offers address out.data := by
  let V : ℕ → D → Prop := fun a v => ∃ call ∈ calls, call.Offers a v
  have hw : Faithful knows V w := Prog.Keeps.trace (fun call hcall =>
    LinearOp.keeps_faithful hS fun a v hoffer => ⟨call, hcall, hoffer⟩)
    (fun c hc => absurd hc (hnew c)) hrun
  obtain ⟨out', w₁, haccess, hlast⟩ := Prog.bind_eq_ok hread
  cases hlast
  exact ((yields_access (V := V) hS (fun h => by cases h) iv).ok hw haccess).2 rfl

/-- The first answer of a write is lost: the server has the new bytes all the same. -/
theorem linearOram_authentic_small : ∃ outs w out w',
    Prog.trace Exit.fatal (LinearOp.run (OramService.flatStub (Codec.plain ℕ)).relayed)
      [.fillWithData linearData fun _ => (),
        .access .kWrite 0 ⟨⟨0, .kNormal, 1⟩, 11⟩ fun _ => ()]
      ⟨.new, ⟨⟨[], []⟩⟩, [.carried, .carried, .unanswered "Deadline Exceeded"]⟩ = some (outs, w) ∧
    (LinearOp.access .kRead 0 ⟨⟨9, .kDummy, 0⟩, 0⟩ fun _ => ()).run
      (OramService.flatStub (Codec.plain ℕ)).relayed w = (.ok (some out), w') ∧
    (out.data = 0 ∨ out.data = 10 ∨ out.data = 11) := by
  obtain ⟨outs, w, out, w', hrun, hread⟩ : ∃ outs w out w',
      Prog.trace Exit.fatal (LinearOp.run (OramService.flatStub (Codec.plain ℕ)).relayed)
        [.fillWithData linearData fun _ => (),
          .access .kWrite 0 ⟨⟨0, .kNormal, 1⟩, 11⟩ fun _ => ()]
        ⟨.new, ⟨⟨[], []⟩⟩, [.carried, .carried, .unanswered "Deadline Exceeded"]⟩ = some (outs, w) ∧
      (LinearOp.access .kRead 0 ⟨⟨9, .kDummy, 0⟩, 0⟩ fun _ => ()).run
        (OramService.flatStub (Codec.plain ℕ)).relayed w = (.ok (some out), w') :=
    ⟨_, _, _, _, rfl, rfl⟩
  refine ⟨outs, w, out, w', hrun, hread, ?_⟩
  rcases linearOram_authentic OramService.flatStub_replays.relayed (fun _ => List.not_mem_nil)
    hrun hread with rfl | ⟨-, call, hcall, hoffer⟩
  · exact .inl rfl
  · rcases List.mem_pair.mp hcall with rfl | rfl
    · obtain ⟨b, hb, -, hid, hdata⟩ := hoffer
      rcases List.mem_pair.mp hb with rfl | rfl
      · exact .inr (.inl hdata.symm)
      · cases hid
    · exact .inr (.inr hoffer.2.2.symm)

end ObliviousRam
