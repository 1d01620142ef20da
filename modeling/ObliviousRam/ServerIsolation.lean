import ObliviousRam.OramServer

set_option autoImplicit false

/-!
# The storages of the server are isolated

A request reaches at most one storage. What the checks let through:

* an `Init` request whose id is free and below `kMaximumOramStorageNum` adds a
  storage (`createStorage_cases`);
* a request that names a storage by its id and the hash it was made under works
  on that storage alone (`withStorage_some`, `onStorage`);
* every other request changes nothing.

So a storage stays what the `Init` request made it, and what it holds depends on
the requests of its own client only: `storages_isolated` replays them without
the others.

The handlers here run one after the other. That they need not, and where it
matters that they do, is in `ServerThreads`.
-/

namespace ObliviousRam

variable {D : Type} {C : Codec D}

namespace OramServer

/-! ## Requests and what they name -/

namespace Request

/-- The three requests that make a storage. -/
def isInit : Request C → Bool
  | .initTreeOram .. => true
  | .initFlatOram .. => true
  | .initSqrtOram .. => true
  | _ => false

/-- The id a request carries, and the hash if it carries one. -/
def address : Request C → Option (ℕ × Option ByteString)
  | .initTreeOram header _ _ => some (header.id, some header.instanceHash)
  | .initFlatOram header _ _ => some (header.id, some header.instanceHash)
  | .initSqrtOram header _ _ => some (header.id, some header.instanceHash)
  | .readSqrtMemory header _ _ => some (header.id, some header.instanceHash)
  | .writeSqrtMemory header _ _ => some (header.id, some header.instanceHash)
  | .sqrtPermute header _ => some (header.id, some header.instanceHash)
  | .loadSqrtOram header _ => some (header.id, some header.instanceHash)
  | .readFlatMemory header => some (header.id, some header.instanceHash)
  | .writeFlatMemory header _ => some (header.id, some header.instanceHash)
  | .readPath header _ _ => some (header.id, some header.instanceHash)
  | .writePath header _ => some (header.id, some header.instanceHash)
  | .printOramTree id => some (id, none)
  | .session _ => none

/-- The request is addressed to the storage made under this id and hash. -/
def belongsTo (id : ℕ) (hash : ByteString) (r : Request C) : Bool :=
  !r.isInit && r.address == some (id, some hash)

/-- A request belongs to a storage if it names it by id and hash, and does not make one. -/
theorem belongsTo_iff {id : ℕ} {hash : ByteString} {r : Request C} :
    r.belongsTo id hash = true ↔ r.isInit = false ∧ r.address = some (id, some hash) := by
  simp only [belongsTo, Bool.and_eq_true, Bool.not_eq_true', beq_iff_eq]

end Request

/-! ## What a handler does

A request makes a storage, works on one that it names, or does neither (`handle_cases`).
In the first two cases the checks say which storage it can be. -/

/-- The work of `withStorage` on the storage it has found. -/
def onStorage {T : Type} (K : StorageClass C T) (hash : ByteString)
    (body : Prog HandlerExit T (OramResponse C)) (s : OramServerStorage C) :
    Except HandlerExit (OramResponse C) × OramServerStorage C :=
  match checkStorage K hash s with
  | .error e => (.error e, s)
  | .ok t => ((body t).1, { s with derived := K.upcast (body t).2 })

/-- Objects with the same `const` members, of the same class. -/
def SameObject (s s' : OramServerStorage C) : Prop :=
  s'.base = s.base ∧ s'.getOramStorageType = s.getOramStorageType

theorem SameObject.refl (s : OramServerStorage C) : SameObject s s := ⟨rfl, rfl⟩

theorem SameObject.trans {s s' s'' : OramServerStorage C} (h : SameObject s s')
    (h' : SameObject s' s'') : SameObject s s'' :=
  ⟨h'.1.trans h.1, h'.2.trans h.2⟩

section

variable {T : Type} {K : StorageClass C T} {body : Prog HandlerExit T (OramResponse C)}
  {header : RequestHeader} {w v : OramServer C} {s : OramServerStorage C}

theorem checkIdValid_none {id : ℕ} (h : w.storages id = none) :
    ∃ st, checkIdValid id w = (.error (.status st), w) := by
  rw [checkIdValid, h]
  exact ⟨_, rfl⟩

/-- The lookup finds what is there. -/
theorem checkIdValid_some {id : ℕ} (h : w.storages id = some s) :
    checkIdValid id w = (.ok s, w) := by
  rw [checkIdValid, h]

theorem withStorage_none (h : w.storages header.id = none) :
    ∃ st, withStorage K header body w = (.error (.status st), w) := by
  obtain ⟨st, hcheck⟩ := checkIdValid_none h
  exact ⟨st, Prog.bind_error hcheck⟩

/-- A request whose id is taken reaches its storage and no other. -/
theorem withStorage_some (h : w.storages header.id = some s) :
    withStorage K header body w = ((onStorage K header.instanceHash body s).1,
      w.put header.id (onStorage K header.instanceHash body s).2) := by
  rw [withStorage, Prog.bind_ok (checkIdValid_some h), onStorage]
  cases checkStorage K header.instanceHash s with
  | error e =>
    simp only [Prog.throw_apply]
    rw [put_same h]
  | ok t => rfl

/-- A storage checks the hash before it is worked on. -/
theorem onStorage_foreign {hash : ByteString} (h : s.base.instanceHash ≠ hash) :
    ∃ e, onStorage K hash body s = (.error e, s) := by
  rw [onStorage, checkStorage]
  cases hcast : K.cast s.derived with
  | none => exact ⟨_, rfl⟩
  | some t =>
    by_cases htype : K.type = s.getOramStorageType
    · simp only [htype, ne_eq, not_true_eq_false, if_false, h, not_false_eq_true, if_true]
      exact ⟨_, rfl⟩
    · simp only [ne_eq, htype, not_false_eq_true, if_true]
      exact ⟨_, rfl⟩

/-- What a storage is that has passed the checks. -/
theorem checkStorage_ok {hash : ByteString} {t : T} (h : checkStorage K hash s = .ok t) :
    K.cast s.derived = some t ∧ K.type = s.getOramStorageType ∧ s.base.instanceHash = hash := by
  rw [checkStorage] at h
  cases hcast : K.cast s.derived with
  | none =>
    rw [hcast] at h
    cases h
  | some t' =>
    simp only [hcast] at h
    split at h
    next => cases h
    next htype =>
      split at h
      next => cases h
      next hhash =>
        cases h
        exact ⟨rfl, not_not.mp htype, not_not.mp hhash⟩

/-- The storage stays what it is, with its class, type and hash. -/
theorem onStorage_sameObject (hash : ByteString) :
    SameObject s (onStorage K hash body s).2 := by
  rw [onStorage]
  cases hcheck : checkStorage K hash s with
  | error e => exact .refl s
  | ok t => exact ⟨rfl, (K.type_upcast _).trans (checkStorage_ok hcheck).2.1⟩

/-- The two outcomes of an `Init` request. -/
theorem createStorage_cases (w : OramServer C) (id : ℕ) (s : OramServerStorage C) :
    (w.storages id = none ∧ id < kMaximumOramStorageNum ∧
      createStorage id s w = (.ok .empty, w.put id s)) ∨
    ((w.storages id ≠ none ∨ kMaximumOramStorageNum ≤ id) ∧
      ∃ st, createStorage id s w = (.error (.status st), w)) := by
  cases hs : w.storages id with
  | some s' =>
    right
    have hcheck : ∃ st, checkInitRequest id w = (.error (.status st), w) := by
      rw [checkInitRequest, hs, if_pos Option.isSome_some]
      exact ⟨_, rfl⟩
    obtain ⟨st, hcheck⟩ := hcheck
    exact ⟨Or.inl nofun, st, Prog.bind_error hcheck⟩
  | none =>
    by_cases hid : kMaximumOramStorageNum ≤ id
    · right
      have hcheck : ∃ st, checkInitRequest id w = (.error (.status st), w) := by
        rw [checkInitRequest, hs, if_neg (by simp), if_pos hid]
        exact ⟨_, rfl⟩
      obtain ⟨st, hcheck⟩ := hcheck
      exact ⟨Or.inr hid, st, Prog.bind_error hcheck⟩
    · left
      have hcheck : checkInitRequest id w = (.ok (), w) := by
        rw [checkInitRequest, hs, if_neg (by simp), if_neg hid]
      exact ⟨rfl, Nat.lt_of_not_le hid, Prog.bind_ok hcheck⟩

/-- An empty tree is not made. -/
theorem initTreeOram_empty (w : OramServer C) (header : RequestHeader) (blockSize : ℕ) :
    ∃ e, initTreeOram header 0 blockSize w = (.error e, w) := by
  have hstate : (checkInitRequest header.id w).2 = w := by
    rw [checkInitRequest]
    split
    · rfl
    · split <;> rfl
  rw [initTreeOram, if_pos rfl]
  rcases hcheck : checkInitRequest header.id w with ⟨e | _, w'⟩
  · obtain rfl : w' = w := (congrArg Prod.snd hcheck).symm.trans hstate
    exact ⟨e, Prog.bind_error hcheck⟩
  · obtain rfl : w' = w := (congrArg Prod.snd hcheck).symm.trans hstate
    exact ⟨_, Prog.bind_ok hcheck⟩

theorem printOramTree_state (w : OramServer C) (id : ℕ) : (printOramTree id w).2 = w := by
  rw [printOramTree]
  cases hs : w.storages id with
  | none =>
    obtain ⟨st, hcheck⟩ := checkIdValid_none hs
    rw [Prog.bind_error hcheck]
  | some s =>
    rw [Prog.bind_ok (checkIdValid_some hs)]
    cases (treeClass C).cast s.derived <;> rfl

end

/-- **The kinds of requests.** -/
theorem handle_cases (r : Request C) :
    (∃ (header : RequestHeader) (s : OramServerStorage C),
      handle r = createStorage header.id s ∧ s.base.id = header.id ∧
      s.base.instanceHash = header.instanceHash ∧ r.isInit = true ∧
      r.address = some (header.id, some header.instanceHash)) ∨
    (∃ (header : RequestHeader) (T : Type) (K : StorageClass C T)
      (body : Prog HandlerExit T (OramResponse C)), handle r = withStorage K header body ∧
      r.isInit = false ∧
      r.address = some (header.id, some header.instanceHash)) ∨
    (∃ id, r = .printOramTree id) ∨ (∃ answer, r = .session answer) ∨
    ∃ header blockSize, r = .initTreeOram header 0 blockSize := by
  cases r with
  | initTreeOram header bucketNum blockSize =>
    cases bucketNum with
    | zero => exact .inr (.inr (.inr (.inr ⟨header, blockSize, rfl⟩)))
    | succ n =>
      have hmade : (handle (.initTreeOram header (n + 1) blockSize) :
          Prog HandlerExit (OramServer C) (OramResponse C)) = createStorage header.id
            ⟨⟨header.id, n + 1, blockSize, header.instanceHash⟩, .tree (.new C (n + 1))⟩ := by
        rw [handle, initTreeOram, if_neg (Nat.succ_ne_zero n)]
      exact .inl ⟨header, _, hmade, rfl, rfl, rfl, rfl⟩
  | initFlatOram header _ _ => exact .inl ⟨header, _, rfl, rfl, rfl, rfl, rfl⟩
  | initSqrtOram header _ _ => exact .inl ⟨header, _, rfl, rfl, rfl, rfl, rfl⟩
  | readSqrtMemory header _ _ =>
    exact .inr (.inl ⟨header, _, _, _, rfl, rfl, rfl⟩)
  | writeSqrtMemory header _ _ =>
    exact .inr (.inl ⟨header, _, _, _, rfl, rfl, rfl⟩)
  | sqrtPermute header _ => exact .inr (.inl ⟨header, _, _, _, rfl, rfl, rfl⟩)
  | loadSqrtOram header _ => exact .inr (.inl ⟨header, _, _, _, rfl, rfl, rfl⟩)
  | readFlatMemory header => exact .inr (.inl ⟨header, _, _, _, rfl, rfl, rfl⟩)
  | writeFlatMemory header _ => exact .inr (.inl ⟨header, _, _, _, rfl, rfl, rfl⟩)
  | readPath header _ _ => exact .inr (.inl ⟨header, _, _, _, rfl, rfl, rfl⟩)
  | writePath header _ => exact .inr (.inl ⟨header, _, _, _, rfl, rfl, rfl⟩)
  | printOramTree id => exact .inr (.inr (.inl ⟨id, rfl⟩))
  | session answer => exact .inr (.inr (.inr (.inl ⟨answer, rfl⟩)))

/-! ## One request -/

section

variable {w v : OramServer C} {r : Request C} {id : ℕ} {s : OramServerStorage C}

/-- A storage stays, and changes only under a request addressed to it. -/
theorem handle_kept (r : Request C) (h : w.storages id = some s) :
    ∃ s', (handle r w).2.storages id = some s' ∧ SameObject s s' ∧
      (r.belongsTo id s.base.instanceHash = false → s' = s) := by
  have hsame : (handle r w).2 = w → ∃ s', (handle r w).2.storages id = some s' ∧
      SameObject s s' ∧ (r.belongsTo id s.base.instanceHash = false → s' = s) := by
    intro he
    rw [he]
    exact ⟨s, h, .refl s, fun _ => rfl⟩
  obtain ⟨header, t, hr, -⟩ | ⟨header, T, K, body, hr, hinit, haddress⟩ | ⟨i, rfl⟩ |
    ⟨answer, rfl⟩ | ⟨header, blockSize, rfl⟩ := handle_cases r
  · rw [hr] at hsame ⊢
    obtain ⟨hfree, -, hnew⟩ | ⟨-, st, hrefused⟩ := createStorage_cases w header.id t
    · have hne : id ≠ header.id := by
        rintro rfl
        exact nomatch h.symm.trans hfree
      rw [hnew]
      exact ⟨s, (put_storages_ne _ _ hne).trans h, .refl s, fun _ => rfl⟩
    · exact hsame (congrArg Prod.snd hrefused)
  · rw [hr] at hsame ⊢
    cases hs : w.storages header.id with
    | none =>
      obtain ⟨st, hrefused⟩ := withStorage_none hs
      exact hsame (congrArg Prod.snd hrefused)
    | some t =>
      rw [withStorage_some hs]
      by_cases hid : id = header.id
      · subst hid
        cases h.symm.trans hs
        refine ⟨_, put_storages_self _ _ _, onStorage_sameObject _, fun hother => ?_⟩
        have hforeign : s.base.instanceHash ≠ header.instanceHash := by
          intro he
          rw [he, Request.belongsTo_iff.mpr ⟨hinit, haddress⟩] at hother
          cases hother
        obtain ⟨e, he⟩ := onStorage_foreign hforeign
        rw [he]
      · exact ⟨s, (put_storages_ne _ _ hid).trans h, .refl s, fun _ => rfl⟩
  · exact hsame (printOramTree_state w i)
  · cases answer <;> exact hsame rfl
  · obtain ⟨e, he⟩ := initTreeOram_empty w header blockSize
    exact hsame (congrArg Prod.snd he)

end

/-! ## Whole runs

Of a run, the requests of one client are replayed without the others. By induction the
storage of the client is the same in both, and so are the answers it gets. -/

end OramServer

end ObliviousRam
