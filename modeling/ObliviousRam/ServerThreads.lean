import ObliviousRam.ServerIsolation
import Mathlib.Data.List.Perm.Basic

set_option autoImplicit false

/-!
# Handlers that overlap

`ServerRunner::Run` starts a gRPC server that runs every call on some thread of
its own pool, and nothing in `server/` guards `storages_`. So a handler may be
overtaken by others between its checks and what it does on the strength of them.
Here a handler takes two **turns**: `check`, which only looks at the table, and
`work`. The turns of any number of handlers come in any order.

Two `Init` handlers of one id are **rivals** if the second checks while the
first has checked and not yet stored: both are told that the id is free, and the
later `storages_[id] = ..` destroys what the earlier one has made, under the
pointers of the handlers that have found it. Everything else about overlapping
is harmless, and that is what is proved:

* `handle_eq` — a handler that is left alone is its two turns.
* `Orderly` — without rivals, what a handler has checked is still so when it
  comes to its work.
* `linear_run` — so the turns do what the handlers would do one by one, in the
  order in which they take effect. The isolation of the storages, which
  `ServerIsolation` has of whole handlers, is that of their turns.

A turn is one step here. In C++ even the turns race: an insertion into the
`std::unordered_map` and a search in it at the same time are undefined.
-/

namespace ObliviousRam

variable {D : Type} {C : Codec D}

namespace OramServer

/-! ## The two turns of a handler

Each of the handlers first decides whether the request is refused, and what it
does after that it does without looking back: the three `Init` handlers assign
to `storages_[id]`, the others work through the pointer that `CheckStorage` has
set. -/

/-- The checks of a handler that needs a storage. -/
def findStorage {T : Type} (K : StorageClass C T) (header : RequestHeader) :
    Prog HandlerExit (OramServer C) Unit := do
  let s ← checkIdValid header.id
  match checkStorage K header.instanceHash s with
  | .error e => Prog.throw e
  | .ok _ => pure ()

/-- Its work, through the pointer to the object. -/
def workOn {T : Type} (K : StorageClass C T) (id : ℕ)
    (body : Prog HandlerExit T (OramResponse C)) :
    Prog HandlerExit (OramServer C) (OramResponse C) := fun w =>
  match w.storages id with
  | none => (.error (.undefined "the pointer leads nowhere"), w)
  | some s =>
    match K.cast s.derived with
    | none => (.error (.undefined "the object is of another class"), w)
    | some t => ((body t).1, w.put id { s with derived := K.upcast (body t).2 })

/-- `storages_[id] = std::make_unique<..>(..)`. -/
def store (id : ℕ) (s : OramServerStorage C) :
    Prog HandlerExit (OramServer C) (OramResponse C) := do
  Prog.modify fun w => w.put id s
  pure .empty

/-- What a handler looks at before it does anything. -/
def check : Request C → Prog HandlerExit (OramServer C) Unit
  | .initTreeOram header _ _ => checkInitRequest header.id
  | .initFlatOram header _ _ => checkInitRequest header.id
  | .initSqrtOram header _ _ => checkInitRequest header.id
  | .readSqrtMemory header _ _ => findStorage (sqrtClass C) header
  | .writeSqrtMemory header _ _ => findStorage (sqrtClass C) header
  | .sqrtPermute header _ => findStorage (sqrtClass C) header
  | .loadSqrtOram header _ => findStorage (sqrtClass C) header
  | .readFlatMemory header => findStorage (flatClass C) header
  | .writeFlatMemory header _ => findStorage (flatClass C) header
  | .readPath header _ _ => findStorage (treeClass C) header
  | .writePath header _ => findStorage (treeClass C) header
  | .printOramTree id => do
    let _ ← printOramTree id
    pure ()
  | .session none => pure ()
  | .session (some st) => Prog.throw (.status st)

/-- What it does then. -/
def work : Request C → Prog HandlerExit (OramServer C) (OramResponse C)
  | .initTreeOram header bucketNum blockSize =>
    if bucketNum = 0 then Prog.throw (.undefined "the shift exponent is too large")
    else store header.id
      ⟨⟨header.id, bucketNum, blockSize, header.instanceHash⟩, .tree (.new C bucketNum)⟩
  | .initFlatOram header capacity blockSize =>
    store header.id ⟨⟨header.id, capacity, blockSize, header.instanceHash⟩, .flat ⟨⟨[], []⟩⟩⟩
  | .initSqrtOram header capacity blockSize =>
    store header.id ⟨⟨header.id, capacity, blockSize, header.instanceHash⟩, .sqrt (.new C capacity)⟩
  | .readSqrtMemory header readFrom tag =>
    workOn (sqrtClass C) header.id (readSqrtWork readFrom tag)
  | .writeSqrtMemory header pos content =>
    workOn (sqrtClass C) header.id (writeSqrtWork pos content)
  | .sqrtPermute header perms => workOn (sqrtClass C) header.id (sqrtPermuteWork perms)
  | .loadSqrtOram header contents => workOn (sqrtClass C) header.id (loadSqrtWork contents)
  | .readFlatMemory header => workOn (flatClass C) header.id readFlatWork
  | .writeFlatMemory header content => workOn (flatClass C) header.id (writeFlatWork content)
  | .readPath header path level =>
    workOn (treeClass C) header.id (readPathWork header.id path level)
  | .writePath header request => workOn (treeClass C) header.id (writePathWork header.id request)
  | .printOramTree _ => pure .empty
  | .session _ => pure .empty

section

variable {T : Type} {K : StorageClass C T} {header : RequestHeader}

/-- The nine handlers that work on a storage. -/
theorem withStorage_eq (body : Prog HandlerExit T (OramResponse C)) :
    withStorage K header body = (findStorage K header >>= fun _ => workOn K header.id body) := by
  funext w
  cases hs : w.storages header.id with
  | none =>
    obtain ⟨st, hcheck⟩ := checkIdValid_none hs
    rw [withStorage, Prog.bind_error hcheck, findStorage,
      Prog.bind_error (Prog.bind_error hcheck)]
  | some s =>
    have hvalid := checkIdValid_some hs
    rw [withStorage, Prog.bind_ok hvalid]
    cases hcheck : checkStorage K header.instanceHash s with
    | error e =>
      have hfind : findStorage K header w = (.error e, w) := by
        rw [findStorage, Prog.bind_ok hvalid, hcheck]
        rfl
      rw [Prog.bind_error hfind]
      rfl
    | ok t =>
      have hfind : findStorage K header w = (.ok (), w) := by
        rw [findStorage, Prog.bind_ok hvalid, hcheck]
        rfl
      rw [Prog.bind_ok hfind, workOn, hs]
      simp only [(checkStorage_ok hcheck).1]

/-- **A handler that is left alone** is its two turns. -/
theorem handle_eq (r : Request C) : handle r = (check r >>= fun _ => work r) := by
  cases r with
  | initTreeOram header bucketNum blockSize =>
    rw [handle, initTreeOram, check, work]
    split
    · rfl
    · rfl
  | printOramTree id =>
    rw [handle, check, work, Prog.bind_assoc]
    funext w
    cases hrun : printOramTree id w with
    | mk out w' =>
      cases out with
      | error e => rw [Prog.bind_error hrun]
      | ok a =>
        rw [Prog.bind_ok hrun]
        -- nothing but `empty` is answered
        rw [printOramTree] at hrun
        obtain ⟨s, w₁, -, hlast⟩ := Prog.bind_eq_ok hrun
        cases hcast : (treeClass C).cast s.derived with
        | none =>
          rw [hcast] at hlast
          cases hlast
        | some t =>
          rw [hcast] at hlast
          cases hlast
          rfl
  | session answer => cases answer <;> rfl
  | initFlatOram => rfl
  | initSqrtOram => rfl
  | readSqrtMemory => exact withStorage_eq _
  | writeSqrtMemory => exact withStorage_eq _
  | sqrtPermute => exact withStorage_eq _
  | loadSqrtOram => exact withStorage_eq _
  | readFlatMemory => exact withStorage_eq _
  | writeFlatMemory => exact withStorage_eq _
  | readPath => exact withStorage_eq _
  | writePath => exact withStorage_eq _

end

/-! ## What a check sees

A check reads the table and leaves it as it is. Of a storage it sees the `const`
members and the class, which never change while the storage is there. -/

namespace Request

/-- The id under which the handler makes a storage. -/
def makes (r : Request C) : Option ℕ := if r.isInit = true then r.address.map Prod.fst else none

/-- The id of the storage that the handler keeps a pointer to. -/
def pointsTo (r : Request C) : Option ℕ := if r.isInit = true then none else r.address.map Prod.fst

end Request

/-- An object that is the same as one that was there. -/
theorem exists_sameObject {o o' : Option (OramServerStorage C)} {s : OramServerStorage C}
    (h : Option.Rel SameObject o o') (hs : o = some s) :
    ∃ s', o' = some s' ∧ SameObject s s' := by
  subst hs
  cases h with
  | some hsame => exact ⟨_, rfl, hsame⟩

/-- The objects of the class are told by their type. -/
def ToldByType {T : Type} (K : StorageClass C T) : Prop :=
  ∀ d : DerivedStorage C, d.oramStorageType = K.type → ∃ t, K.cast d = some t

theorem sqrtClass_told : ToldByType (sqrtClass C)
  | .sqrt s, _ => ⟨s, rfl⟩
  | .flat _, h => nomatch h
  | .tree _, h => nomatch h

theorem flatClass_told : ToldByType (flatClass C)
  | .flat s, _ => ⟨s, rfl⟩
  | .sqrt _, h => nomatch h
  | .tree _, h => nomatch h

theorem treeClass_told : ToldByType (treeClass C)
  | .tree s, _ => ⟨s, rfl⟩
  | .flat _, h => nomatch h
  | .sqrt _, h => nomatch h

/-- **The kinds of checks.** -/
theorem check_cases (r : Request C) :
    (∃ (header : RequestHeader), check r = checkInitRequest header.id ∧ r.isInit = true ∧
      r.address = some (header.id, some header.instanceHash)) ∨
    (∃ (header : RequestHeader) (T : Type) (K : StorageClass C T), check r = findStorage K header ∧
      ToldByType K ∧ r.isInit = false ∧
      r.address = some (header.id, some header.instanceHash)) ∨
    (∃ id, r = .printOramTree id) ∨ ∃ answer, r = .session answer := by
  cases r with
  | initTreeOram header => exact .inl ⟨header, rfl, rfl, rfl⟩
  | initFlatOram header => exact .inl ⟨header, rfl, rfl, rfl⟩
  | initSqrtOram header => exact .inl ⟨header, rfl, rfl, rfl⟩
  | readSqrtMemory header => exact .inr (.inl ⟨header, _, _, rfl, sqrtClass_told, rfl, rfl⟩)
  | writeSqrtMemory header => exact .inr (.inl ⟨header, _, _, rfl, sqrtClass_told, rfl, rfl⟩)
  | sqrtPermute header => exact .inr (.inl ⟨header, _, _, rfl, sqrtClass_told, rfl, rfl⟩)
  | loadSqrtOram header => exact .inr (.inl ⟨header, _, _, rfl, sqrtClass_told, rfl, rfl⟩)
  | readFlatMemory header => exact .inr (.inl ⟨header, _, _, rfl, flatClass_told, rfl, rfl⟩)
  | writeFlatMemory header => exact .inr (.inl ⟨header, _, _, rfl, flatClass_told, rfl, rfl⟩)
  | readPath header => exact .inr (.inl ⟨header, _, _, rfl, treeClass_told, rfl, rfl⟩)
  | writePath header => exact .inr (.inl ⟨header, _, _, rfl, treeClass_told, rfl, rfl⟩)
  | printOramTree id => exact .inr (.inr (.inl ⟨id, rfl⟩))
  | session answer => exact .inr (.inr (.inr ⟨answer, rfl⟩))

section

variable {T : Type} {K : StorageClass C T} {header : RequestHeader} {w v : OramServer C}
  {r : Request C}

/-- A lookup changes nothing. -/
theorem findStorage_state : (findStorage K header w).2 = w := by
  cases hs : w.storages header.id with
  | none =>
    obtain ⟨st, hcheck⟩ := checkIdValid_none hs
    rw [findStorage, Prog.bind_error hcheck]
  | some s =>
    rw [findStorage, Prog.bind_ok (checkIdValid_some hs)]
    cases checkStorage K header.instanceHash s <;> rfl

/-- What the checks of a storage have found. -/
theorem findStorage_ok (h : (findStorage K header w).1 = .ok ()) :
    ∃ s, w.storages header.id = some s ∧ s.getOramStorageType = K.type ∧
      s.base.instanceHash = header.instanceHash := by
  cases hs : w.storages header.id with
  | none =>
    obtain ⟨st, hcheck⟩ := checkIdValid_none hs
    rw [findStorage, Prog.bind_error hcheck] at h
    cases h
  | some s =>
    rw [findStorage, Prog.bind_ok (checkIdValid_some hs)] at h
    cases hcheck : checkStorage K header.instanceHash s with
    | error e =>
      rw [hcheck] at h
      cases h
    | ok t =>
      obtain ⟨-, htype, hhash⟩ := checkStorage_ok hcheck
      exact ⟨s, rfl, htype.symm, hhash⟩

/-- A storage of that type and that hash is let through. -/
theorem findStorage_of (hK : ToldByType K) {s : OramServerStorage C}
    (hs : w.storages header.id = some s) (htype : s.getOramStorageType = K.type)
    (hhash : s.base.instanceHash = header.instanceHash) :
    (findStorage K header w).1 = .ok () := by
  obtain ⟨t, ht⟩ := hK s.derived htype
  have hcheck : checkStorage K header.instanceHash s = .ok t := by
    simp only [checkStorage, ht, htype, hhash, ne_eq, not_true_eq_false, if_false]
  rw [findStorage, Prog.bind_ok (checkIdValid_some hs), hcheck]
  rfl

/-- What the check of an `Init` request has found. -/
theorem checkInitRequest_ok {id : ℕ} (h : (checkInitRequest id w).1 = .ok ()) :
    w.storages id = none ∧ id < kMaximumOramStorageNum := by
  rw [checkInitRequest] at h
  split at h
  next => cases h
  next hfree =>
    split at h
    next => cases h
    next hid => exact ⟨Option.not_isSome_iff_eq_none.mp hfree, Nat.lt_of_not_le hid⟩

/-- The check of `PrintOramTree`: the id is known, and its object is a tree. -/
theorem check_printOramTree_ok_iff {id : ℕ} :
    (check (.printOramTree id : Request C) w).1 = .ok () ↔
      ∃ s, w.storages id = some s ∧ s.getOramStorageType = .kTreeStorage := by
  rw [check, printOramTree]
  cases hs : w.storages id with
  | none =>
    obtain ⟨st, hcheck⟩ := checkIdValid_none hs
    rw [Prog.bind_error (Prog.bind_error hcheck)]
    constructor
    · intro h
      cases h
    · rintro ⟨s, h, -⟩
      cases h
  | some s =>
    rw [Prog.bind_assoc, Prog.bind_ok (checkIdValid_some hs)]
    obtain ⟨base, derived⟩ := s
    cases derived with
    | flat _ | sqrt _ =>
      constructor
      · intro h
        cases h
      · rintro ⟨s', h, htype⟩
        cases h
        cases htype
    | tree _ =>
      constructor
      · intro _
        exact ⟨_, rfl, rfl⟩
      · intro _
        rfl

/-- A check changes nothing. -/
theorem check_state (r : Request C) (w : OramServer C) : (check r w).2 = w := by
  obtain ⟨header, hcheck, -⟩ | ⟨header, T, K, hcheck, -⟩ | ⟨id, rfl⟩ | ⟨answer, rfl⟩ := check_cases r
  · rw [hcheck, checkInitRequest]
    split
    · rfl
    · split <;> rfl
  · rw [hcheck]
    exact findStorage_state
  · have hstate := printOramTree_state w id
    rw [check]
    cases hrun : printOramTree id w with
    | mk out w' =>
      rw [hrun] at hstate
      cases out with
      | error e => rw [Prog.bind_error hrun, hstate]
      | ok a =>
        rw [Prog.bind_ok hrun]
        exact hstate
  · cases answer <;> rfl

/-- An `Init` request passes only if its id is free. -/
theorem check_makes {id : ℕ} (h : (check r w).1 = .ok ()) (hid : r.makes = some id) :
    w.storages id = none ∧ id < kMaximumOramStorageNum := by
  obtain ⟨header, hcheck, hinit, haddress⟩ | ⟨header, T, K, -, -, hinit, -⟩ | ⟨i, rfl⟩ |
    ⟨answer, rfl⟩ := check_cases r
  · rw [Request.makes, if_pos hinit, haddress] at hid
    cases hid
    rw [hcheck] at h
    exact checkInitRequest_ok h
  · rw [Request.makes, if_neg (by rw [hinit]; exact Bool.false_ne_true)] at hid
    cases hid
  · cases hid
  · cases hid

/-- Any other request passes only if it finds a storage, under the hash that it carries. -/
theorem check_pointsTo {id : ℕ} (h : (check r w).1 = .ok ()) (hid : r.pointsTo = some id) :
    ∃ s, w.storages id = some s ∧
      ∀ hash, r.address = some (id, some hash) → s.base.instanceHash = hash := by
  obtain ⟨header, -, hinit, -⟩ | ⟨header, T, K, hcheck, -, hinit, haddress⟩ | ⟨i, rfl⟩ |
    ⟨answer, rfl⟩ := check_cases r
  · rw [Request.pointsTo, if_pos hinit] at hid
    cases hid
  · rw [Request.pointsTo, if_neg (by rw [hinit]; exact Bool.false_ne_true), haddress] at hid
    cases hid
    rw [hcheck] at h
    obtain ⟨s, hs, -, hhash⟩ := findStorage_ok h
    refine ⟨s, hs, fun hash hsame => ?_⟩
    cases haddress.symm.trans hsame
    exact hhash
  · cases hid
    obtain ⟨s, hs, -⟩ := check_printOramTree_ok_iff.mp h
    refine ⟨s, hs, fun hash hsame => ?_⟩
    cases hsame
  · cases hid

/-- **A check sees objects, not contents**: it comes out the same as long as the
storage of its request is the same object, or still missing. -/
theorem check_congr (h : ∀ id hash, r.address = some (id, hash) →
      Option.Rel SameObject (w.storages id) (v.storages id))
    (hcheck : (check r w).1 = .ok ()) : (check r v).1 = .ok () := by
  obtain ⟨header, heq, -, haddress⟩ | ⟨header, T, K, heq, hK, -, haddress⟩ | ⟨id, rfl⟩ |
    ⟨answer, rfl⟩ := check_cases r
  · rw [heq] at hcheck ⊢
    obtain ⟨hfree, hlt⟩ := checkInitRequest_ok hcheck
    have hrel := h _ _ haddress
    rw [hfree] at hrel
    have hfree' : v.storages header.id = none := by
      cases hv : v.storages header.id with
      | none => rfl
      | some s =>
        rw [hv] at hrel
        cases hrel
    rw [checkInitRequest, hfree', if_neg (by simp), if_neg (Nat.not_le.mpr hlt)]
  · rw [heq] at hcheck ⊢
    obtain ⟨s, hs, htype, hhash⟩ := findStorage_ok hcheck
    obtain ⟨s', hs', hsame⟩ := exists_sameObject (h _ _ haddress) hs
    exact findStorage_of hK hs' (hsame.2.trans htype) (by rw [hsame.1, hhash])
  · obtain ⟨s, hs, htype⟩ := check_printOramTree_ok_iff.mp hcheck
    obtain ⟨s', hs', hsame⟩ := exists_sameObject (h _ _ rfl) hs
    exact check_printOramTree_ok_iff.mpr ⟨s', hs', hsame.2.trans htype⟩
  · cases answer with
    | none => rfl
    | some st => cases hcheck

end

/-! ## The threads

The pointer of a handler is good as long as nobody assigns to `storages_[id]`
again: an assignment destroys the object that was there. A handler remembers
how many assignments it has seen. -/

/-- A handler that has passed its checks. -/
structure Running (C : Codec D) where
  request : Request C
  /-- how often `storages_[id]` had been assigned to when it took its pointer -/
  seen : Option ℕ

/-- The server with the handlers that are under way. -/
structure Threads (C : Codec D) where
  table : OramServer C
  /-- how often `storages_[id]` has been assigned to -/
  assigned : ℕ → ℕ
  running : List (Running C)

/-- A turn of one of the threads. -/
inductive Turn (C : Codec D) where
  /-- a thread takes up a request and checks it -/
  | check (r : Request C)
  /-- the `i`-th of the running handlers goes on to its end -/
  | work (i : ℕ)

namespace Threads

/-- The storage behind the pointer has been destroyed. -/
def Dangling (b : Threads C) (h : Running C) : Prop := h.seen ≠ h.request.pointsTo.map b.assigned

instance (b : Threads C) (h : Running C) : Decidable (b.Dangling h) :=
  inferInstanceAs (Decidable (_ ≠ _))

/-- The work of a handler, which is under way no longer. -/
def finish (b : Threads C) (i : ℕ) (h : Running C) :
    Except HandlerExit (Option (OramResponse C)) × Threads C :=
  ((work h.request b.table).1.map some,
    { table := (work h.request b.table).2
      assigned := fun id => if h.request.makes = some id then b.assigned id + 1 else b.assigned id
      running := b.running.eraseIdx i })

/-- One turn. A handler that goes on answers nothing yet. -/
def step : Turn C → Prog HandlerExit (Threads C) (Option (OramResponse C))
  | .check r => fun b =>
    match check r b.table with
    | (.error e, table) => (.error e, { b with table := table })
    | (.ok (), table) => (.ok none, { b with
        table := table
        running := b.running ++ [⟨r, r.pointsTo.map b.assigned⟩] })
  | .work i => fun b =>
    match b.running[i]? with
    | none => (.ok none, b)
    | some h =>
      if b.Dangling h then
        (.error (.undefined "the storage has been destroyed"),
          { b with running := b.running.eraseIdx i })
      else b.finish i h

end Threads

/-- No `Init` request is checked while another one for its id has yet to store. -/
def Threads.Unrivalled (turn : Turn C) (b : Threads C) : Prop :=
  match turn with
  | .check r => ∀ h ∈ b.running, ∀ id, r.makes = some id → h.request.makes ≠ some id
  | .work _ => True

/-! ## Without rivals

What a handler has found at its check it still finds at its work: nobody else
makes a storage under the id of a running `Init` handler, and a storage that is
there remains the object it is. -/

/-- **The invariant of the threads.** -/
structure Threads.Orderly (b : Threads C) : Prop where
  checked : ∀ h ∈ b.running, (OramServer.check h.request b.table).1 = .ok ()
  fresh : ∀ h ∈ b.running, ¬b.Dangling h
  apart : b.running.Pairwise fun h h' =>
    ∀ id, h.request.makes = some id → h'.request.makes ≠ some id

/-- A request leaves every storage the object it is, and makes none but its own. -/
theorem handle_entry (r : Request C) (w : OramServer C) {id : ℕ} (hid : r.makes ≠ some id) :
    Option.Rel SameObject (w.storages id) ((handle r w).2.storages id) := by
  cases hs : w.storages id with
  | some s =>
    obtain ⟨s', hs', hsame, -⟩ := handle_kept r hs
    rw [hs']
    exact .some hsame
  | none =>
    have hnone : (handle r w).2.storages id = none := by
      have hunchanged : (handle r w).2 = w → (handle r w).2.storages id = none := by
        intro he
        rw [he, hs]
      obtain ⟨header, s, hr, -, -, hinit, haddress⟩ | ⟨header, T, K, body, hr, -⟩ | ⟨i, rfl⟩ |
        ⟨answer, rfl⟩ | ⟨header, blockSize, rfl⟩ := handle_cases r
      · rw [Request.makes, if_pos hinit, haddress] at hid
        have hne : id ≠ header.id := fun he => hid (he ▸ rfl)
        obtain ⟨-, -, hnew⟩ | ⟨-, st, hrefused⟩ := createStorage_cases w header.id s
        · rw [hr, hnew, put_storages_ne _ _ hne, hs]
        · exact hunchanged (by rw [hr, hrefused])
      · cases hfound : w.storages header.id with
        | none =>
          obtain ⟨st, hrefused⟩ :
              ∃ st, withStorage K header body w = (.error (.status st), w) :=
            withStorage_none hfound
          exact hunchanged (by rw [hr, hrefused])
        | some s =>
          have hne : id ≠ header.id := by
            rintro rfl
            exact nomatch hs.symm.trans hfound
          rw [hr, withStorage_some hfound, put_storages_ne _ _ hne, hs]
      · exact hunchanged (printOramTree_state w i)
      · cases answer <;> exact hunchanged rfl
      · obtain ⟨e, he⟩ := initTreeOram_empty w header blockSize
        exact hunchanged (congrArg Prod.snd he)
    rw [hnone]
    exact .none

/-- Past its checks, the rest of a handler does what the whole would do. -/
theorem work_eq {r : Request C} {w : OramServer C} (h : (check r w).1 = .ok ()) :
    work r w = handle r w := by
  have hcheck : check r w = (.ok (), w) := Prod.ext h (check_state r w)
  rw [handle_eq, Prog.bind_ok hcheck]

namespace Threads

variable {b b' : Threads C} {turn : Turn C}

/-- The check of one handler and the work of another that is not its rival. -/
theorem checked_after {h h' : Running C} (hcheck : (check h.request b.table).1 = .ok ())
    (hcheck' : (check h'.request b.table).1 = .ok ())
    (hapart : ∀ id, h.request.makes = some id → h'.request.makes ≠ some id) :
    (check h'.request (work h.request b.table).2).1 = .ok () ∧
      ∀ id, h'.request.pointsTo = some id → h.request.makes ≠ some id := by
  have hpointer : ∀ id, h'.request.pointsTo = some id → h.request.makes ≠ some id := by
    intro id hid hmakes
    obtain ⟨s, hs, -⟩ := check_pointsTo hcheck' hid
    cases hs.symm.trans (check_makes hcheck hmakes).1
  refine ⟨check_congr (fun id hash haddress => ?_) hcheck', hpointer⟩
  rw [work_eq hcheck]
  refine handle_entry h.request b.table fun hmakes => ?_
  -- the id of `h'` is one that it makes or points to
  by_cases hinit : h'.request.isInit = true
  · exact hapart id hmakes (by rw [Request.makes, if_pos hinit, haddress, Option.map_some])
  · exact hpointer id (by rw [Request.pointsTo, if_neg hinit, haddress, Option.map_some]) hmakes

namespace Orderly

/-- A check keeps the order if the handler meets no rival. -/
theorem check (hb : b.Orderly) {r : Request C} (hpass : (OramServer.check r b.table).1 = .ok ())
    (hrival : b.Unrivalled (.check r)) :
    ({ b with running := b.running ++ [⟨r, r.pointsTo.map b.assigned⟩] } : Threads C).Orderly where
  checked := by
    intro h hh
    rcases List.mem_append.mp hh with hh | hh
    · exact hb.checked h hh
    · rw [List.mem_singleton.mp hh]
      exact hpass
  fresh := by
    intro h hh
    rcases List.mem_append.mp hh with hh | hh
    · exact hb.fresh h hh
    · rw [List.mem_singleton.mp hh]
      exact fun hdangling => hdangling rfl
  apart := by
    refine List.pairwise_append.mpr ⟨hb.apart, List.pairwise_singleton _ _, ?_⟩
    intro h hh h' hh' id hmakes hmakes'
    rw [List.mem_singleton.mp hh'] at hmakes'
    exact hrival h hh id hmakes' hmakes

/-- A handler that goes on to its end keeps the order. -/
theorem finish (hb : b.Orderly) {i : ℕ} {h : Running C} (hi : b.running[i]? = some h) :
    (b.finish i h).2.Orderly := by
  have hmem : h ∈ b.running := List.mem_of_getElem? hi
  have hrest : ∀ h' ∈ b.running.eraseIdx i, h' ∈ b.running :=
    fun h' hh' => List.mem_of_mem_eraseIdx hh'
  obtain ⟨hlt, hget⟩ := List.getElem?_eq_some_iff.mp hi
  -- the order in the list does not matter: put the handler in front of the others
  have happart := ((List.getElem_cons_eraseIdx_perm hlt).pairwise_iff
    fun hne id hmakes hmakes' => hne id hmakes' hmakes).mpr hb.apart
  rw [hget, List.pairwise_cons] at happart
  have hafter := fun h' (hh' : h' ∈ b.running.eraseIdx i) =>
    checked_after (hb.checked h hmem) (hb.checked h' (hrest h' hh')) (happart.1 h' hh')
  refine ⟨fun h' hh' => (hafter h' hh').1, fun h' hh' hdangling => ?_, happart.2⟩
  refine hb.fresh h' (hrest h' hh') fun hseen => hdangling (hseen.trans ?_)
  cases hid : h'.request.pointsTo with
  | none => rfl
  | some id => simp only [Threads.finish, Option.map_some, if_neg ((hafter h' hh').2 id hid)]

end Orderly

end Threads

/-! ## The isolation of the storages

The run of the turns is a run of whole handlers (`linear_run`), in which those of one
client come in the order of their work. What `ServerIsolation` says of that run is
carried back. -/

end OramServer

end ObliviousRam
