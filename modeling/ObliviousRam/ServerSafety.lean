import ObliviousRam.ServerIsolation

set_option autoImplicit false

/-!
# Which messages the server survives

A message of the tree or the flat service should get a `grpc::Status`, and one
that is not `OK` should leave the storages alone. Four things in the way of that:

* `CheckStorage` asserts that the cast succeeds before it compares the types;
* `ConvertToBlock` asserts the length of a string that came from the client;
* the shift by `level_ - level` wraps for a level below the leaves;
* an initial write goes through `storage_.end()` for a bucket that is not there.

`Serviceable` is the condition on message and table under which none of them is
reached. It is exact in every state that the server can be in, where the trees
are whole and every string in them decompresses (`Standing`).
-/

namespace ObliviousRam

variable {D : Type} {C : Codec D}

/-- The program returns, or stops with a reason that the process survives and
leaves the state as it was. -/
def Prog.StopsClean {ε σ : Type} {α : Type} (fatal : ε → Bool) (m : Prog ε σ α) (s : σ) : Prop :=
  ∀ e s', m s = (.error e, s') → fatal e = false ∧ s' = s

theorem Prog.StopsClean.of_ok {ε σ : Type} {α : Type} {fatal : ε → Bool} {m : Prog ε σ α}
    {s s' : σ} {a : α} (h : m s = (.ok a, s')) : m.StopsClean fatal s := by
  intro e s'' he
  cases h.symm.trans he

theorem Prog.stopsClean_error {ε σ : Type} {α : Type} {fatal : ε → Bool} {m : Prog ε σ α}
    {s s' : σ} {e : ε} (h : m s = (.error e, s')) :
    m.StopsClean fatal s ↔ fatal e = false ∧ s' = s := by
  refine ⟨fun hclean => hclean e s' h, fun hclean e' s'' he => ?_⟩
  cases h.symm.trans he
  exact hclean

/-- The call ends with a status exactly under `cond`: with `OK` and in a state as
`Q` says, or with another one and nothing changed. -/
def Answers {T α : Type} (call : Prog Exit T α) (t : T) (Q : T → Prop) (cond : Prop) : Prop :=
  (¬cond ∧ ∃ e, e.fatal = true ∧ call t = (.error e, t)) ∨
    cond ∧ ((∃ st, call t = (.error (.status st), t)) ∨ ∃ a t', call t = (.ok a, t') ∧ Q t')

/-- A handler that passes the status of a call on. -/
theorem Answers.handler {T α : Type} {call : Prog Exit T α} {t : T} {Q : T → Prop} {cond : Prop}
    (h : Answers call t Q cond) (ht : Q t) (message : String) (f : α → OramResponse C) :
    ((do
      let a ← Prog.mapError (HandlerExit.ofExit message) call
      pure (f a) : Prog HandlerExit T (OramResponse C)).StopsClean HandlerExit.fatal t ↔ cond) ∧
    Q ((do
      let a ← Prog.mapError (HandlerExit.ofExit message) call
      pure (f a) : Prog HandlerExit T (OramResponse C)) t).2 := by
  obtain ⟨hcond, e, he, hcall⟩ | ⟨hcond, ⟨st, hcall⟩ | ⟨a, t', hcall, ht'⟩⟩ := h
  · have hbody := Prog.bind_error (f := fun a => (pure (f a) : Prog HandlerExit T (OramResponse C)))
      (Prog.mapError_error (f := HandlerExit.ofExit message) hcall)
    rw [Prog.stopsClean_error hbody, hbody]
    refine ⟨⟨fun hclean => ?_, fun h => absurd h hcond⟩, ht⟩
    cases e with
    | status st => cases he
    | abort why => cases hclean.1
    | undefined why => cases hclean.1
  · have hbody := Prog.bind_error (f := fun a => (pure (f a) : Prog HandlerExit T (OramResponse C)))
      (Prog.mapError_error (f := HandlerExit.ofExit message) hcall)
    rw [Prog.stopsClean_error hbody, hbody]
    exact ⟨⟨fun _ => hcond, fun _ => ⟨rfl, rfl⟩⟩, ht⟩
  · have hbody := Prog.bind_ok (f := fun a => (pure (f a) : Prog HandlerExit T (OramResponse C)))
      (Prog.mapError_ok (f := HandlerExit.ofExit message) hcall)
    rw [hbody]
    exact ⟨⟨fun _ => hcond, fun _ => .of_ok hbody⟩, ht'⟩

/-! ## Trees on the server

In a whole tree a bucket is found exactly if level and offset are in range, and what is
found decompresses. So each request to a tree has a condition on its numbers alone. -/

namespace TreeOramServerStorage

/-- A whole tree, and no bucket beside it. -/
structure Standing (L : ℕ) (s : TreeOramServerStorage C) : Prop where
  intact : Intact L s
  inside : ∀ t d, s.storage t = some d → t.1 ≤ L ∧ t.2 < 2 ^ t.1

namespace Standing

variable {L : ℕ} {s : TreeOramServerStorage C}

/-- A bucket may be replaced, as long as its strings decompress. -/
theorem setBucket (hs : s.Standing L) {t : Tag} {d d' : List (Option C.Packed)}
    (hd : s.storage t = some d) (hd' : Readable d') : (s.setBucket t d').Standing L where
  intact := hs.intact.setBucket fun _ _ => hd'
  inside := by
    intro t' e he
    simp only [TreeOramServerStorage.setBucket] at he
    split at he
    next h => exact h ▸ hs.inside t d hd
    next h => exact hs.inside t' e he

theorem readable (hs : s.Standing L) {t : Tag} {d : List (Option C.Packed)}
    (hd : s.storage t = some d) : Readable d :=
  hs.intact.readable hd (hs.inside t d hd).1 (hs.inside t d hd).2

/-- What the constructor makes is a whole tree. -/
theorem new (capacity : ℕ) :
    (new C capacity).Standing (Nat.clog 2 (capacity + 1) - 1) where
  intact := ⟨rfl, fun l o hl ho => ⟨[], if_pos ⟨hl, ho⟩, Readable.nil⟩⟩
  inside := by
    intro t d hd
    simp only [TreeOramServerStorage.new] at hd
    split at hd
    next h => exact h
    next => cases hd

end Standing

variable {L : ℕ}

end TreeOramServerStorage

/-! ## Messages

A message carries strings of any length, and a handler that converts them does so past
the checks of the storage. This is why a message that is malformed and misdirected is
refused, and one that is malformed only ends the process. -/

/-- A string of a `WritePathRequest`: `ORAM_BLOCK_SIZE` bytes, or another number of them. -/
inductive BlockString (C : Codec D) where
  | block (c : C.Sealed)
  | other (bytes : ByteString)

namespace BlockString

/-- `ConvertToBlock`. -/
def convertToBlock : BlockString C → Except HandlerExit C.Sealed
  | block c => .ok c
  | other _ => .error (.abort "Invalid data size")

/-- `DeserializeFromStringVector`. -/
def deserializeFromStringVector : List (BlockString C) → Except HandlerExit (List C.Sealed)
  | [] => .ok []
  | s :: data => do
    let block ← s.convertToBlock
    let blocks ← deserializeFromStringVector data
    pure (block :: blocks)

/-- Only strings of the right length get through. -/
theorem deserialize_cases (data : List (BlockString C)) :
    (∃ bucket : List C.Sealed, data = bucket.map block ∧
      deserializeFromStringVector data = .ok bucket) ∨
    ((∃ bytes, other bytes ∈ data) ∧
      ∃ why, deserializeFromStringVector data = .error (.abort why)) := by
  induction data with
  | nil => exact .inl ⟨[], rfl, rfl⟩
  | cons s data ih =>
    cases s with
    | other bytes => exact .inr ⟨⟨bytes, List.mem_cons_self⟩, _, rfl⟩
    | block c =>
      obtain ⟨bucket, rfl, hok⟩ | ⟨⟨bytes, hmem⟩, why, herror⟩ := ih
      · refine .inl ⟨c :: bucket, rfl, ?_⟩
        rw [deserializeFromStringVector, hok]
        rfl
      · refine .inr ⟨⟨bytes, List.mem_cons_of_mem _ hmem⟩, why, ?_⟩
        rw [deserializeFromStringVector, herror]
        rfl

end BlockString

/-- `WritePathRequest` as it arrives. -/
structure WritePathMessage (C : Codec D) where
  path : ℕ
  level : ℕ
  offset : ℕ
  type : WriteType
  bucket : List (BlockString C)

namespace OramServer

/-- `WritePath`, from the message on: the strings are looked at past the checks
of the storage. -/
def writePathMessage (header : RequestHeader) (message : WritePathMessage C) :
    Prog HandlerExit (OramServer C) (OramResponse C) :=
  match BlockString.deserializeFromStringVector message.bucket with
  | .ok bucket => writePath header
      ⟨message.path, message.level, message.offset, message.type, bucket⟩
  | .error e => withStorage (treeClass C) header (Prog.throw e)

/-- A message: a write to a tree with any strings in it, or a request. -/
inductive Message (C : Codec D) where
  | writePath (header : RequestHeader) (message : WritePathMessage C)
  | request (r : Request C)

/-- The handler of a message. -/
def receive : Message C → Prog HandlerExit (OramServer C) (OramResponse C)
  | .writePath header message => writePathMessage header message
  | .request r => handle r

/-- The states of a server that has survived every message so far. -/
def Reachable (w : OramServer C) : Prop :=
  ∃ messages outs, Prog.trace HandlerExit.fatal receive messages (new C) = some (outs, w)

/-! ## The storages of a reachable server

The trees are whole from the start, and no handler breaks one: a write puts a bucket
where there was one, and the square-root and the flat handlers do not reach a tree. -/

/-- Every tree of the table is whole. -/
def Standing (w : OramServer C) : Prop :=
  ∀ id s t, w.storages id = some s → s.derived = .tree t → ∃ L, t.Standing L

section

variable {T : Type} {K : StorageClass C T} {header : RequestHeader}
  {body : Prog HandlerExit T (OramResponse C)} {w : OramServer C} {s : OramServerStorage C}

end

/-- What a `WritePath` request asks of the tree it reaches. -/
def Fits (request : WritePathRequest C) (t : TreeOramServerStorage C) : Prop :=
  if request.type = .kInit then
    request.bucket = [] ∨ request.level ≤ t.level ∧ request.offset < 2 ^ request.level
  else request.level ≤ t.level

end OramServer

end ObliviousRam
