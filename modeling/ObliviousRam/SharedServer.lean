import ObliviousRam.Service
import ObliviousRam.LinearOram
import ObliviousRam.Mirror

set_option autoImplicit false

/-!
# A client among others on one server

The controllers are verified over a storage of their own (`OramService.stub`,
`sqrtStub`, `flatStub`). Here their stubs reach the one process that all clients
share: between any two calls of a controller the server may handle any calls of
the others, and it may go down, by a fatal stop or because it has been closed.

* `Process`, `arrive` — the server process, and what happens to it in between.
* `ask` — a remote call on the process, as the caller sees it.
* `treeStub`, `sqrtStub`, `flatStub` — the stubs, with what happens in between as
  part of the state.
* `mirrors_readPath`, ... — as long as the server is up, a client whose storage
  is on the table gets from these stubs what it would get from a storage of its
  own. The others may call whatever they like, but for `ResetServer` and what
  carries the client's id and hash (`ByOthers`).
-/

namespace ObliviousRam

open Prog (Mirrors Keeps)

variable {D : Type} {C : Codec D} {L : Sodium}

/-! ## Responses -/

/-- The blocks of a response. A field that the handler has not set is empty. -/
def OramResponse.blocks : OramResponse C → List C.Sealed
  | .bucket blocks => blocks
  | _ => []

/-- The string of a response of the square-root service. -/
def OramResponse.block? : OramResponse C → Option C.Sealed
  | .content block => block
  | _ => none

/-- The string of a response of the flat service. -/
def OramResponse.flatString : OramResponse C → FlatString C
  | .flat string => string
  | _ => ⟨[], []⟩

/-- The response, of a call for the table. -/
def RpcAnswer.response : RpcAnswer C → OramResponse C
  | .table response => response
  | _ => .empty

namespace OramServer

/-! ## The messages of others

A message of the others is no reset, and it names another id or another hash. By
`ServerIsolation` it leaves the storage of the client as it is. -/

/-- The message is addressed to the storage made under this id and hash. -/
def Message.belongsTo (id : ℕ) (hash : ByteString) : Message C → Bool
  | .writePath header _ => header.id == id && header.instanceHash == hash
  | .request r => r.belongsTo id hash

/-- A storage stays, and changes only under a message addressed to it. -/
theorem receive_kept (m : Message C) {w : OramServer C} {id : ℕ} {s : OramServerStorage C}
    (h : w.storages id = some s) :
    ∃ s', (receive m w).2.storages id = some s' ∧ SameObject s s' ∧
      (m.belongsTo id s.base.instanceHash = false → s' = s) := by
  cases m with
  | request r => exact handle_kept r h
  | writePath header message =>
    have hforeign : (Message.writePath header message).belongsTo id s.base.instanceHash = false →
        ¬(header.id = id ∧ header.instanceHash = s.base.instanceHash) := by
      intro hmine he
      rw [Message.belongsTo, he.1, he.2, beq_self_eq_true, beq_self_eq_true] at hmine
      cases hmine
    rcases BlockString.deserialize_cases message.bucket with ⟨bucket, -, hok⟩ | ⟨-, why, herror⟩
    · -- strings of the right length make a request
      have hrequest : receive (.writePath header message) w = handle (.writePath header
          ⟨message.path, message.level, message.offset, message.type, bucket⟩) w := by
        rw [receive, writePathMessage, hok, handle]
      rw [hrequest]
      obtain ⟨s', hs', hobject, hother⟩ := handle_kept (.writePath header
        ⟨message.path, message.level, message.offset, message.type, bucket⟩) h
      refine ⟨s', hs', hobject, fun hmine => hother ?_⟩
      rw [Request.belongsTo]
      have hne := hforeign hmine
      simp only [Request.isInit, Bool.not_false, Request.address, Bool.true_and,
        beq_eq_false_iff_ne, ne_eq, Option.some.injEq, Prod.mk.injEq]
      exact hne
    · have hthrow : receive (.writePath header message) w =
          withStorage (treeClass C) header (Prog.throw (.abort why)) w := by
        rw [receive, writePathMessage, herror]
      rw [hthrow]
      cases hs : w.storages header.id with
      | none =>
        obtain ⟨st, hrefused⟩ := withStorage_none hs
        rw [hrefused]
        exact ⟨s, h, .refl s, fun _ => rfl⟩
      | some t =>
        rw [withStorage_some hs]
        by_cases hid : id = header.id
        · subst hid
          cases h.symm.trans hs
          refine ⟨_, put_storages_self _ _ _, onStorage_sameObject _, fun hmine => ?_⟩
          obtain ⟨e, he⟩ : ∃ e, onStorage (treeClass C) header.instanceHash
              (Prog.throw (.abort why)) s = (.error e, s) :=
            onStorage_foreign fun he => hforeign hmine ⟨rfl, he.symm⟩
          rw [he]
        · exact ⟨s, (put_storages_ne _ _ hid).trans h, .refl s, fun _ => rfl⟩

/-! ## The process

Events arrive one after the other. An event that stops the process fatally, or one that
closes it, ends it for all clients. -/

/-- The server process; `none` when it is gone. -/
abbrev Process (L : Sodium) (C : Codec D) : Type := Option (ServiceState L C)

/-- The process is gone. -/
def Down (p : Process L C) : Prop := p = none

/-- What happens to the server: it handles a call, or the monitor thread of
`ServerRunner::Run` wakes up and looks at `server_running`. -/
inductive ServerEvent (C : Codec D) where
  | call (r : Rpc C)
  | monitor

/-- The event concerns the storage made under this id and hash. -/
def ServerEvent.belongsTo (id : ℕ) (hash : ByteString) : ServerEvent C → Bool
  | .call (.table m) => m.belongsTo id hash
  | .call r => r.isReset
  | .monitor => false

/-- The process after an event. -/
def arrive : ServerEvent C → Process L C → Process L C
  | .call r, p => p.bind fun w =>
    (Prog.survive HandlerExit.fatal (ServiceState.serve r) w).map Prod.snd
  | .monitor, p => p.filter ServiceState.serverRunning

/-- What is down stays down. -/
theorem arrive_down (e : ServerEvent C) (p : Process L C) (h : Down p) : Down (arrive e p) := by
  rw [Down] at h
  rw [h]
  cases e <;> rfl

/-- The table of the process has the client's storage. -/
def Hosts {T : Type} (K : StorageClass C T) (header : RequestHeader) (t : T) (p : Process L C) :
    Prop :=
  ∃ w, p = some w ∧ Serves K header t w.storages

/-- A call that does not concern a storage leaves it alone. -/
theorem serves_serve {T : Type} {K : StorageClass C T} {header : RequestHeader} {r : Rpc C} {t : T}
    {w : ServiceState L C}
    (hr : (ServerEvent.call r).belongsTo header.id header.instanceHash = false)
    (h : Serves K header t w.storages) :
    Serves K header t (ServiceState.serve r w).2.storages := by
  cases hmessage : r.message? with
  | none =>
    have hreset : r.isReset = false := by
      cases r <;> first | exact hr | cases hmessage
    rw [ServiceState.serve_storages hmessage, hreset, if_neg Bool.false_ne_true]
    exact h
  | some m =>
    obtain rfl : r = .table m := by
      cases r <;> cases hmessage
      rfl
    obtain ⟨base, hs, hhash⟩ := h
    obtain ⟨s', hs', -, hsame⟩ := receive_kept m hs
    rw [hsame (by rw [hhash]; exact hr)] at hs'
    rw [ServiceState.serve_table]
    exact ⟨base, hs', hhash⟩

/-- What others do leaves the client's storage alone, or takes the process down. -/
theorem arrive_hosts {T : Type} {K : StorageClass C T} {header : RequestHeader} {e : ServerEvent C}
    {t : T} {p : Process L C} (he : e.belongsTo header.id header.instanceHash = false)
    (h : Hosts K header t p) : Down (arrive e p) ∨ Hosts K header t (arrive e p) := by
  obtain ⟨w, rfl, hserves⟩ := h
  cases e with
  | call r =>
    have hserves' := serves_serve he hserves
    rw [arrive, Option.bind_some]
    cases hcall : Prog.survive HandlerExit.fatal (ServiceState.serve r) w with
    | none => exact .inl rfl
    | some out =>
      rw [(Prog.eq_of_survive hcall).1] at hserves'
      exact .inr ⟨out.2, rfl, hserves'⟩
  | monitor =>
    rw [arrive]
    cases hrunning : w.serverRunning with
    | false => exact .inl (by rw [Option.filter_some, hrunning]; rfl)
    | true => exact .inr ⟨w, by rw [Option.filter_some, hrunning]; rfl, hserves⟩

/-! ## Remote calls -/

section

variable {α : Type}

/-- A remote call: what the caller takes out of the response, or the message of
the status. A call that does not come back, or finds no server, fails with `lost`. -/
def ask (lost : String) (pick : OramResponse C → α) (request : Request C) :
    Prog String (Process L C) α
  | none => (.error lost, none)
  | some w =>
    match ServiceState.serve (.table (.request request)) w with
    | (.ok answer, w') => (.ok (pick answer.response), some w')
    | (.error (.status st), w') => (.error st.errorMessage, some w')
    | (.error (.abort _), _) => (.error lost, none)
    | (.error (.undefined _), _) => (.error lost, none)

/-- A call brings nobody back. -/
theorem keeps_ask (lost : String) (pick : OramResponse C → α) (request : Request C) :
    Keeps Down (ask (L := L) lost pick request) := by
  rintro _ rfl
  rfl

/-- A handler does to a storage what the call does, and tells the client the
same, unless it takes the process down. -/
def AnswersLike {T : Type} (pick : OramResponse C → α) (m : Prog String T α)
    (body : Prog HandlerExit T (OramResponse C)) (t : T) : Prop :=
  (body t).2 = (m t).2 ∧
    match (body t).1 with
    | .ok response => (m t).1 = .ok (pick response)
    | .error (.status st) => (m t).1 = .error st.errorMessage
    | .error (.abort _) => True
    | .error (.undefined _) => True

/-- What a handler answers depends on its run only. -/
theorem AnswersLike.congr {T : Type} {pick : OramResponse C → α} {m m' : Prog String T α}
    {body body' : Prog HandlerExit T (OramResponse C)} {t : T} (h : AnswersLike pick m' body' t)
    (hm : m t = m' t) (hbody : body t = body' t) : AnswersLike pick m body t := by
  rw [AnswersLike, hm, hbody]
  exact h

/-- A call that reaches the client's storage gives what the storage gives. -/
theorem mirrors_ask {T : Type} {K : StorageClass C T} {header : RequestHeader}
    {m : Prog String T α} {body : Prog HandlerExit T (OramResponse C)} {request : Request C}
    (lost : String) {pick : OramResponse C → α}
    (hhandler : handle request = withStorage K header body)
    (h : ∀ t, AnswersLike pick m body t) :
    Mirrors Down Eq (Hosts (L := L) K header) Eq m (ask lost pick request) where
  keeps := keeps_ask _ _ _
  step := by
    rintro t _ ⟨w, rfl, hserves⟩
    obtain ⟨hout, hserves'⟩ := withStorage_serves body hserves
    obtain ⟨hstate, hvalue⟩ := h t
    rw [hstate] at hserves'
    rw [ask, ServiceState.serve_table, receive, hhandler]
    cases hrun : withStorage K header body w.storages with
    | mk r table =>
      rw [hrun] at hout hserves'
      rw [← hout] at hvalue
      rcases r with (st | why | why) | response
      · exact .inr ⟨.of_eq hvalue, _, rfl, hserves'⟩
      · exact .inl rfl
      · exact .inl rfl
      · exact .inr ⟨.of_eq hvalue, _, rfl, hserves'⟩

/-- The usual handler: one call of the storage, whose status gets a text. -/
theorem answersLike_call {T : Type} (call : Prog Exit T α) (f : α → OramResponse C)
    {pick : OramResponse C → α} (hpick : ∀ a, pick (f a) = a) (message : String)
    {g : Exit → String} (hg : ∀ t st, (call t).1 = .error (.status st) → g (.status st) = message)
    (t : T) :
    AnswersLike pick (call.mapError g)
      (call.mapError (HandlerExit.ofExit message) >>= fun a => pure (f a)) t := by
  rw [AnswersLike]
  rcases hcall : call t with ⟨e | a, t'⟩
  · rw [Prog.bind_error (Prog.mapError_error hcall), Prog.mapError_error hcall]
    cases e with
    | status st => exact ⟨rfl, congrArg Except.error (hg t st (congrArg Prod.fst hcall))⟩
    | abort why => exact ⟨rfl, trivial⟩
    | undefined why => exact ⟨rfl, trivial⟩
  · rw [Prog.bind_ok (Prog.mapError_ok hcall), Prog.mapError_ok hcall]
    exact ⟨rfl, congrArg Except.ok (hpick a).symm⟩

end

/-! ## The stubs of a client -/

/-- The process, and what happens to it before each of the client's next calls. -/
abbrev Shared (L : Sodium) (C : Codec D) : Type := Process L C × List (List (ServerEvent C))

/-- What happens in between: anything but a reset, and messages that carry the
client's id and hash. -/
def ByOthers (header : RequestHeader) (schedule : List (List (ServerEvent C))) : Prop :=
  ∀ events ∈ schedule, ∀ e ∈ events, e.belongsTo header.id header.instanceHash = false

instance (header : RequestHeader) (schedule : List (List (ServerEvent C))) :
    Decidable (ByOthers header schedule) :=
  inferInstanceAs (Decidable (∀ events ∈ schedule, ∀ e ∈ events, _ = _))

/-- The client's storage is on the table, and what happens there is done by others. -/
def Shares {T : Type} (K : StorageClass C T) (header : RequestHeader) : T → Shared L C → Prop :=
  Prog.Amid (fun e : ServerEvent C => e.belongsTo header.id header.instanceHash = false)
    (Hosts K header)

section

variable (header : RequestHeader) (lost : String)

/-- The stub of a tree client. -/
def treeStub : TreeStub C (Shared L C) where
  readPath := fun path level =>
    Prog.amid arrive (ask lost OramResponse.blocks (.readPath header path level))
  writePath := fun request =>
    Prog.amid arrive (ask lost (fun _ => ()) (.writePath header request))

/-- The stub of a square-root client. -/
def sqrtStub : SqrtStub C (Shared L C) where
  loadSqrtOram := fun contents =>
    Prog.amid arrive (ask lost (fun _ => ()) (.loadSqrtOram header (contents.map some)))
  readSqrtMemory := fun area tag =>
    Prog.amid arrive (ask lost OramResponse.block? (.readSqrtMemory header area.code tag))
  writeSqrtMemory := fun pos content =>
    Prog.amid arrive (ask lost (fun _ => ()) (.writeSqrtMemory header pos (some content)))
  sqrtPermute := fun perms =>
    Prog.amid arrive (ask lost (fun _ => ()) (.sqrtPermute header perms))

/-- The stub of a linear client. -/
def flatStub : FlatStub C (Shared L C) where
  readFlatMemory := Prog.amid arrive (ask lost OramResponse.flatString (.readFlatMemory header))
  writeFlatMemory := fun content =>
    Prog.amid arrive (ask lost (fun _ => ()) (.writeFlatMemory header content))

end

/-- The process behind a client's stub is gone. -/
def Gone (v : Shared L C) : Prop := Down v.1

/-- A call in the midst of what others do. -/
theorem mirrors_shared {T α : Type} {K : StorageClass C T} {header : RequestHeader}
    {m : Prog String T α} {call : Prog String (Process L C) α}
    (h : Mirrors Down Eq (Hosts K header) Eq m call) :
    Mirrors Gone Eq (Shares K header) Eq m (Prog.amid arrive call) :=
  Prog.mirrors_amid arrive_down (fun _ _ _ hm hp => arrive_hosts hm hp) h

/-- A call of a storage that returns or takes the process down. -/
def NoStatus {T α : Type} (call : Prog Exit T α) : Prop := ∀ t st, (call t).1 ≠ .error (.status st)

/-- The handler of such a call. -/
theorem answersLike_silent {T α : Type} {call : Prog Exit T α} (hcall : NoStatus call)
    (f : α → OramResponse C) {pick : OramResponse C → α} (hpick : ∀ a, pick (f a) = a)
    (g : Exit → String) (t : T) :
    AnswersLike pick (call.mapError g)
      (call.mapError (HandlerExit.ofExit "") >>= fun a => pure (f a)) t :=
  answersLike_call call f hpick "" (fun t st h => absurd h (hcall t st)) t

/-- The handlers of the square-root storage return no status of their own. -/
theorem noStatus_fill (data : List C.Sealed) : NoStatus (SqrtOramServerStorage.fill data) := by
  rintro s st ⟨⟩

theorem noStatus_writeBlockToShelter (tag : ℕ) (c : C.Sealed) :
    NoStatus (SqrtOramServerStorage.writeBlockToShelter tag c) := by
  intro s st
  rw [SqrtOramServerStorage.writeBlockToShelter]
  split <;> rintro ⟨⟩

theorem noStatus_doPermute (perm : List ℕ) :
    NoStatus (SqrtOramServerStorage.doPermute (C := C) perm) := by
  intro s st
  rw [SqrtOramServerStorage.doPermute]
  split
  · rintro ⟨⟩
  · split
    · rintro ⟨⟩
    · split <;> rintro ⟨⟩

theorem noStatus_readBlockFromShelter (pos : ℕ) :
    NoStatus (SqrtOramServerStorage.readBlockFromShelter (C := C) pos) := by
  intro s st
  rw [SqrtOramServerStorage.readBlockFromShelter]
  split <;> rintro ⟨⟩

theorem noStatus_readBlockFromDummy (pos : ℕ) :
    NoStatus (SqrtOramServerStorage.readBlockFromDummy (C := C) pos) := by
  intro s st
  rw [SqrtOramServerStorage.readBlockFromDummy]
  split <;> rintro ⟨⟩

theorem noStatus_readBlockFromMain (pos : ℕ) :
    NoStatus (SqrtOramServerStorage.readBlockFromMain (C := C) pos) := by
  intro s st
  rw [SqrtOramServerStorage.readBlockFromMain]
  split
  · rintro ⟨⟩
  · exact noStatus_readBlockFromDummy _ s st

/-! ## What the stubs give

For each remote call: over the shared process the client gets what its own storage would
have answered, or an error because the server is gone. -/

variable {header : RequestHeader} {lost : String}

theorem mirrors_readPath (path level : ℕ) :
    Mirrors Gone Eq (Shares (L := L) (treeClass C) header) Eq
      ((OramService.stub C header.id).readPath path level)
      ((treeStub header lost).readPath path level) :=
  mirrors_shared (mirrors_ask lost rfl (answersLike_call _ OramResponse.bucket (fun _ => rfl) _
    fun _ _ _ => rfl))

theorem mirrors_writePath (request : WritePathRequest C) :
    Mirrors Gone Eq (Shares (L := L) (treeClass C) header) Eq
      ((OramService.stub C header.id).writePath request)
      ((treeStub header lost).writePath request) :=
  mirrors_shared (mirrors_ask lost rfl (answersLike_call _ (fun _ => OramResponse.empty)
    (fun _ => rfl) _ fun _ _ _ => by simp [String.append_assoc]))

theorem mirrors_loadSqrtOram (contents : List C.Sealed) :
    Mirrors Gone Eq (Shares (L := L) (sqrtClass C) header) Eq
      ((OramService.sqrtStub C).loadSqrtOram contents)
      ((sqrtStub header lost).loadSqrtOram contents) := by
  have hhandler : handle (.loadSqrtOram header (contents.map some)) =
      withStorage (sqrtClass C) header
        (Prog.mapError (HandlerExit.ofExit "") (SqrtOramServerStorage.fill contents) >>=
          fun _ => pure .empty) := by
    rw [handle, loadSqrtOram, loadSqrtWork, SqrtOramServerStorage.fillStrings_map_some]
  exact mirrors_shared (mirrors_ask lost hhandler (answersLike_silent (noStatus_fill contents)
    (fun _ => OramResponse.empty) (fun _ => rfl) _))

theorem mirrors_writeSqrtMemory (pos : ℕ) (content : C.Sealed) :
    Mirrors Gone Eq (Shares (L := L) (sqrtClass C) header) Eq
      ((OramService.sqrtStub C).writeSqrtMemory pos content)
      ((sqrtStub header lost).writeSqrtMemory pos content) := by
  have hhandler : handle (.writeSqrtMemory header pos (some content)) =
      withStorage (sqrtClass C) header
        (Prog.mapError (HandlerExit.ofExit "")
          (SqrtOramServerStorage.writeBlockToShelter pos content) >>= fun _ => pure .empty) := by
    rw [handle, writeSqrtMemory, writeSqrtWork, SqrtOramServerStorage.writeToShelter_some]
  exact mirrors_shared (mirrors_ask lost hhandler
    (answersLike_silent (noStatus_writeBlockToShelter pos content)
      (fun _ => OramResponse.empty) (fun _ => rfl) _))

theorem mirrors_sqrtPermute (perms : List ℕ) :
    Mirrors Gone Eq (Shares (L := L) (sqrtClass C) header) Eq
      ((OramService.sqrtStub C).sqrtPermute perms)
      ((sqrtStub header lost).sqrtPermute perms) :=
  mirrors_shared (mirrors_ask lost rfl (answersLike_silent (noStatus_doPermute perms)
    (fun _ => OramResponse.empty) (fun _ => rfl) _))

theorem mirrors_readSqrtMemory (area : SqrtArea) (tag : ℕ) :
    Mirrors Gone Eq (Shares (L := L) (sqrtClass C) header) Eq
      ((OramService.sqrtStub C).readSqrtMemory area tag)
      ((sqrtStub header lost).readSqrtMemory area tag) := by
  have harea : areaOfCode area.code = some area := by cases area <;> rfl
  apply mirrors_shared
  apply mirrors_ask lost rfl
  intro s
  cases hcheck : s.check tag area with
  | false =>
    simp only [AnswersLike, readSqrtWork, OramService.sqrtStub, OramService.readSqrtMemory, harea,
      Option.filter, hcheck, Bool.false_eq_true, if_false, if_true, and_self]
  | true =>
    -- past the check, each memory answers for itself
    have hread : ∀ call : Prog Exit (SqrtOramServerStorage C) (Option C.Sealed), NoStatus call →
        AnswersLike OramResponse.block? (call.mapError OramService.connectionLost)
          (call.mapError (HandlerExit.ofExit "") >>= fun block => pure (.content block)) s :=
      fun _ hcall => answersLike_silent hcall OramResponse.content (fun _ => rfl) _ s
    cases area with
    | kShelter =>
      apply (hread _ (noStatus_readBlockFromShelter tag)).congr
      · simp [OramService.sqrtStub, OramService.readSqrtMemory, hcheck]
      · simp [readSqrtWork, harea, Option.filter, hcheck]
    | kMainMemory =>
      apply (hread _ (noStatus_readBlockFromMain tag)).congr
      · simp [OramService.sqrtStub, OramService.readSqrtMemory, hcheck]
      · simp [readSqrtWork, harea, Option.filter, hcheck]
    | kDummy =>
      apply (hread _ (noStatus_readBlockFromDummy tag)).congr
      · simp [OramService.sqrtStub, OramService.readSqrtMemory, hcheck]
      · simp [readSqrtWork, harea, Option.filter, hcheck]

theorem mirrors_readFlatMemory :
    Mirrors Gone Eq (Shares (L := L) (flatClass C) header) Eq
      (OramService.flatStub C).readFlatMemory (flatStub header lost).readFlatMemory :=
  mirrors_shared (mirrors_ask lost rfl (answersLike_silent (fun _ _ => by rintro ⟨⟩)
    OramResponse.flat (fun _ => rfl) _))

theorem mirrors_writeFlatMemory (content : FlatString C) :
    Mirrors Gone Eq (Shares (L := L) (flatClass C) header) Eq
      ((OramService.flatStub C).writeFlatMemory content)
      ((flatStub header lost).writeFlatMemory content) :=
  mirrors_shared (mirrors_ask lost rfl fun _ => ⟨rfl, rfl⟩)

end OramServer

end ObliviousRam
