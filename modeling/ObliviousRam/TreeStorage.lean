import ObliviousRam.Defs
import Mathlib.Data.Nat.Log
import Mathlib.Algebra.BigOperators.Group.Finset.Basic

set_option autoImplicit false

/-!
# The server's tree storage

`TreeOramServerStorage` (`server/tree_oram_storage.cc`) and the two handlers
that reach it, `OramService::ReadPath` and `OramService::WritePath`.

A bucket is a vector of byte strings. `ReadPath` **empties the strings it
returns** and leaves the empty ones in the vector, so a slot of a bucket is an
`Option`: `none` is an empty string. The second half of the file says what a
storage holds in plaintext (`blocksAt`) and how each request changes that; the
client's proofs only use those lemmas.
-/

namespace ObliviousRam

variable {D : Type}

/-- `server_storage_tag_t`: level and offset of a bucket. -/
abbrev Tag : Type := ℕ × ℕ

/-- `TreeOramServerStorage`. -/
structure TreeOramServerStorage (C : Codec D) where
  level : ℕ
  /-- `absl::flat_hash_map<server_storage_tag_t, server_storage_data>` -/
  storage : Tag → Option (List (Option C.Packed))

/-- `oram_impl::Type` of a `WritePath` request. -/
inductive WriteType where
  | kSequential
  | kRandom
  | kInit
  | kNormal
  deriving DecidableEq, Repr

/-- The fields of `WritePathRequest` the handler reads. -/
structure WritePathRequest (C : Codec D) where
  path : ℕ
  level : ℕ
  offset : ℕ
  type : WriteType
  bucket : List C.Sealed

namespace TreeOramServerStorage

variable {C : Codec D}

/-- The constructor: the levels are counted from `0`, and every bucket of the
tree exists from the start. (The logarithm is taken exactly.) -/
def new (C : Codec D) (capacity : ℕ) : TreeOramServerStorage C where
  level := Nat.clog 2 (capacity + 1) - 1
  storage := fun t =>
    if t.1 ≤ Nat.clog 2 (capacity + 1) - 1 ∧ t.2 < 2 ^ t.1 then some [] else none

/-- Replace the bucket stored under a tag. -/
def setBucket (s : TreeOramServerStorage C) (t : Tag) (d : List (Option C.Packed)) :
    TreeOramServerStorage C :=
  { s with storage := fun t' => if t' = t then some d else s.storage t' }

/-- The loop of `ReadPath` over one bucket: decompress what is not empty, then
clear it. A string that does not decompress ends the loop, with the ones before
it already cleared. -/
def readBucket : List (Option C.Packed) →
    Except OramStatus (List C.Sealed) × List (Option C.Packed)
  | [] => (.ok [], [])
  | none :: ds => ((readBucket ds).1, none :: (readBucket ds).2)
  | some p :: ds =>
    match C.dataDecompress p with
    | .ok c => ((readBucket ds).1.map (c :: ·), none :: (readBucket ds).2)
    | .error st =>
      (.error (st.append (.make .kInvalidOperation "Cannot Read from the server" "ReadPath")),
        some p :: ds)

/-- `TreeOramServerStorage::ReadPath`. The shift by `level_ - level` has no
defined value when it wraps. -/
def readPath (level path : ℕ) : Prog Exit (TreeOramServerStorage C) (List C.Sealed) := fun s =>
  if s.level < level then (.error (.undefined "shift exponent wraps"), s)
  else
    let t : Tag := (level, path / 2 ^ (s.level - level))
    match s.storage t with
    | none =>
      (.error (.status (.make .kObjectNotFound "Cannot find the bucket." "ReadPath")), s)
    | some d => ((readBucket d).1.mapError .status, s.setBucket t (readBucket d).2)

/-- The loop of `AccurateWritePath`: compress and append, block by block. -/
def compressAll : List C.Sealed → Except OramStatus Unit × List (Option C.Packed)
  | [] => (.ok (), [])
  | c :: cs =>
    match C.dataCompress c with
    | .ok p => ((compressAll cs).1, some p :: (compressAll cs).2)
    | .error st =>
      (.error (st.append (.make .kInvalidOperation "Cannot write to the server"
        "AccurateWritePath")), [])

/-- `TreeOramServerStorage::AccurateWritePath`. An initial write appends to the
bucket without looking whether it exists; a normal write replaces it. (With no
block to append, the bucket is not touched.) -/
def accurateWritePath (level offset : ℕ) (inBucket : List C.Sealed) (type : WriteType) :
    Prog Exit (TreeOramServerStorage C) Unit := fun s =>
  match s.storage (level, offset), type with
  | none, .kNormal =>
    (.error (.status (.make .kObjectNotFound "Cannot find the bucket." "AccurateWritePath")), s)
  | none, .kInit =>
    if inBucket = [] then (.ok (), s)
    else (.error (.undefined "storage_.end() is dereferenced"), s)
  | none, _ => (.error (.undefined "storage_.end() is dereferenced"), s)
  | some d, .kInit =>
    ((compressAll inBucket).1.mapError .status,
      s.setBucket (level, offset) (d ++ (compressAll inBucket).2))
  | some _, _ =>
    ((compressAll inBucket).1.mapError .status,
      s.setBucket (level, offset) (compressAll inBucket).2)

/-- `TreeOramServerStorage::WritePath`. -/
def writePath (level path : ℕ) (inBucket : List C.Sealed) :
    Prog Exit (TreeOramServerStorage C) Unit := fun s =>
  if s.level < level then (.error (.undefined "shift exponent wraps"), s)
  else accurateWritePath level (path / 2 ^ (s.level - level)) inBucket .kNormal s

end TreeOramServerStorage

/-! ## The handlers and the client's stub

`TreeStub` is what the controller knows of its server, so every theorem about the
controller can be stated over the storage itself, over a server that is watched, or over
one that fails. -/

/-- The client's side of the connection: the two remote calls a tree ORAM makes,
over whatever state `σ` answers them. A call that fails reports an error
message (`grpc::Status::error_message`). -/
structure TreeStub (C : Codec D) (σ : Type) where
  readPath : (path level : ℕ) → Prog String σ (List C.Sealed)
  writePath : WritePathRequest C → Prog String σ Unit

namespace OramService

variable {C : Codec D}

/-- `OramService::ReadPath` on the storage `id`, past the checks of the header. -/
def readPath (id path level : ℕ) : Prog String (TreeOramServerStorage C) (List C.Sealed) :=
  (TreeOramServerStorage.readPath level path).mapError fun _ =>
    s!"Failed to read path: {path} in level: {level} in PathORAM id: {id}"

/-- `OramService::WritePath` on the storage `id`, past the checks of the header.
(The text of the storage's own status, appended to the message, is left out.) -/
def writePath (id : ℕ) (request : WritePathRequest C) :
    Prog String (TreeOramServerStorage C) Unit :=
  Prog.mapError (fun _ => s!"Failed to write path: {request.path} in level: {request.level}" ++
      s!" in PathORAM id: {id}:\n ")
    (if request.type = .kInit then
      TreeOramServerStorage.accurateWritePath request.level request.offset request.bucket
        request.type
    else TreeOramServerStorage.writePath request.level request.path request.bucket)

/-- The stub of a client whose requests all reach the storage `id`. -/
def stub (C : Codec D) (id : ℕ) : TreeStub C (TreeOramServerStorage C) where
  readPath := readPath id
  writePath := writePath id

end OramService

/-! ## The plaintext content of a storage -/

namespace TreeOramServerStorage

variable {C : Codec D}

/-- The block behind one slot of a bucket, if the slot is not empty. -/
def decode (C : Codec D) (p : Option C.Packed) : Option (OramBlock D) :=
  match p with
  | none => none
  | some p =>
    match C.dataDecompress p with
    | .ok c => some (C.decryptBlock c).2
    | .error _ => none

/-- The blocks of one bucket, decrypted. -/
def blocksAt (s : TreeOramServerStorage C) (t : Tag) : List (OramBlock D) :=
  ((s.storage t).getD []).filterMap (decode C)

/-- The real blocks of one bucket. -/
def normalAt (s : TreeOramServerStorage C) (t : Tag) : List (OramBlock D) :=
  (s.blocksAt t).filter OramBlock.isNormal

/-- A bucket every string of which decompresses. -/
def Readable (d : List (Option C.Packed)) : Prop :=
  ∀ p, some p ∈ d → ∃ c, C.dataDecompress p = .ok c

/-- A full tree of `L + 1` levels with readable buckets. -/
structure Intact (L : ℕ) (s : TreeOramServerStorage C) : Prop where
  level_eq : s.level = L
  bucket : ∀ l o, l ≤ L → o < 2 ^ l → ∃ d, s.storage (l, o) = some d ∧ Readable d

/-- The tag of the bucket at level `l` of path `x`, in a tree with leaf level `L`. -/
def pathTag (L x l : ℕ) : Tag := (l, x / 2 ^ (L - l))

/-- The bucket that a path meets is one of its level. -/
theorem pathTag_lt {L x l : ℕ} (hx : x < 2 ^ L) (hl : l ≤ L) : (pathTag L x l).2 < 2 ^ l := by
  have hpow : 2 ^ l * 2 ^ (L - l) = 2 ^ L := by
    rw [← pow_add, Nat.add_sub_cancel' hl]
  exact Nat.div_lt_of_lt_mul (by rw [Nat.mul_comm, hpow]; exact hx)

/-- A path meets one bucket of each level. -/
theorem pathTag_ne {L x l l' : ℕ} (h : l' ≠ l) : pathTag L x l' ≠ pathTag L x l :=
  fun he => h (congrArg Prod.fst he)

/-! ### Buckets -/

theorem decode_none : decode C none = none := rfl

/-- A string that decompresses is read as the block behind it. -/
theorem decode_some {p : C.Packed} {c : C.Sealed} (h : C.dataDecompress p = .ok c) :
    decode C (some p) = some (C.decryptBlock c).2 := by
  rw [decode]
  simp only [h]

theorem Readable.nil : Readable (C := C) [] := fun _ hp => absurd hp List.not_mem_nil

theorem Readable.tail {p : Option C.Packed} {ds : List (Option C.Packed)}
    (h : Readable (p :: ds)) : Readable ds := fun q hq => h q (List.mem_cons_of_mem _ hq)

theorem Readable.append {d d' : List (Option C.Packed)} (h : Readable d) (h' : Readable d') :
    Readable (d ++ d') := by
  intro p hp
  rcases List.mem_append.mp hp with hp | hp
  · exact h p hp
  · exact h' p hp

/-- Reading a readable bucket delivers its blocks and empties every slot. -/
theorem readBucket_spec {d : List (Option C.Packed)} (hd : Readable d) :
    ∃ cs, (readBucket d).1 = .ok cs ∧
      cs.map (fun c => (C.decryptBlock c).2) = d.filterMap (decode C) ∧
      (readBucket d).2 = d.map fun _ => none := by
  induction d with
  | nil => exact ⟨[], rfl, rfl, rfl⟩
  | cons p ds ih =>
    obtain ⟨cs, hok, hmap, hclear⟩ := ih hd.tail
    rcases p with _ | p
    · refine ⟨cs, hok, ?_, ?_⟩
      · rw [List.filterMap_cons, decode_none]
        exact hmap
      · rw [readBucket, hclear, List.map_cons]
    · obtain ⟨c, hc⟩ := hd p List.mem_cons_self
      refine ⟨c :: cs, ?_, ?_, ?_⟩
      · simp only [readBucket, hc, hok]
        rfl
      · rw [List.filterMap_cons, decode_some hc, List.map_cons, hmap]
      · simp only [readBucket, hc, hclear, List.map_cons]

/-- Whatever is compressed can be read back. -/
theorem compressAll_spec (cs : List C.Sealed) :
    (compressAll cs).1 = .ok () ∧ Readable (compressAll cs).2 ∧
      (compressAll cs).2.filterMap (decode C) = cs.map fun c => (C.decryptBlock c).2 := by
  induction cs with
  | nil => exact ⟨rfl, Readable.nil, rfl⟩
  | cons c cs ih =>
    obtain ⟨hok, hread, hmap⟩ := ih
    obtain ⟨p, hp, hback⟩ := C.decompress_compress c
    refine ⟨?_, ?_, ?_⟩
    · simp only [compressAll, hp, hok]
    · simp only [compressAll, hp]
      intro q hq
      rcases List.mem_cons.mp hq with hq | hq
      · exact ⟨c, by rw [Option.some.inj hq]; exact hback⟩
      · exact hread q hq
    · simp only [compressAll, hp]
      rw [List.filterMap_cons, decode_some hback, List.map_cons, hmap]

/-- A bucket that has been read holds nothing. -/
theorem filterMap_decode_cleared (d : List (Option C.Packed)) :
    (d.map fun _ => (none : Option C.Packed)).filterMap (decode C) = [] := by
  induction d with
  | nil => rfl
  | cons p ds ih =>
    rw [List.map_cons, List.filterMap_cons, decode_none]
    exact ih

/-- It can be read again all the same. -/
theorem Readable.cleared (d : List (Option C.Packed)) :
    Readable (d.map fun _ => (none : Option C.Packed)) := by
  intro p hp
  obtain ⟨q, -, hq⟩ := List.mem_map.mp hp
  cases hq

/-! ### Requests

One lemma for each of the three requests, about the stub of a client and in terms of
`blocksAt`; no proof about the client looks behind them. -/

/-- A request that replaces a bucket changes the plaintext of this bucket. -/
theorem blocksAt_setBucket (s : TreeOramServerStorage C) (t t' : Tag)
    (d : List (Option C.Packed)) :
    (s.setBucket t d).blocksAt t' =
      if t' = t then d.filterMap (decode C) else s.blocksAt t' := by
  simp only [blocksAt, setBucket]
  split <;> rfl

/-- The tree stays intact if what replaces a bucket can be read. -/
theorem Intact.setBucket {L : ℕ} {s : TreeOramServerStorage C} (hs : Intact L s) {t : Tag}
    {d : List (Option C.Packed)} (hd : t.1 ≤ L → t.2 < 2 ^ t.1 → Readable d) :
    Intact L (s.setBucket t d) where
  level_eq := hs.level_eq
  bucket := by
    intro l o hl ho
    by_cases ht : (l, o) = t
    · subst ht
      exact ⟨d, by simp only [TreeOramServerStorage.setBucket, if_pos], hd hl ho⟩
    · obtain ⟨d', hd', hr⟩ := hs.bucket l o hl ho
      exact ⟨d', by simp only [TreeOramServerStorage.setBucket, if_neg ht]; exact hd', hr⟩

theorem Intact.readable {L : ℕ} {s : TreeOramServerStorage C} (hs : Intact L s) {t : Tag}
    {d : List (Option C.Packed)} (hd : s.storage t = some d) (hl : t.1 ≤ L) (ho : t.2 < 2 ^ t.1) :
    Readable d := by
  obtain ⟨d', hd', hr⟩ := hs.bucket t.1 t.2 hl ho
  cases hd.symm.trans hd'
  exact hr

/-- A read of an existing bucket returns its blocks and leaves it empty; the
other buckets stay. -/
theorem stub_readPath (id : ℕ) {L x l : ℕ} {s : TreeOramServerStorage C} (hs : Intact L s)
    (hx : x < 2 ^ L) (hl : l ≤ L) :
    ∃ cs s', (OramService.stub C id).readPath x l s = (.ok cs, s') ∧ Intact L s' ∧
      cs.map (fun c => (C.decryptBlock c).2) = s.blocksAt (pathTag L x l) ∧
      ∀ t, s'.blocksAt t = if t = pathTag L x l then [] else s.blocksAt t := by
  obtain ⟨d, hd, hr⟩ := hs.bucket l (x / 2 ^ (L - l)) hl (pathTag_lt hx hl)
  obtain ⟨cs, hok, hmap, hclear⟩ := readBucket_spec hr
  refine ⟨cs, s.setBucket (pathTag L x l) (readBucket d).2, ?_, ?_, ?_, ?_⟩
  · refine Prog.mapError_ok ?_
    simp only [readPath, hs.level_eq, if_neg (Nat.not_lt.mpr hl), hd, hok]
    rfl
  · exact hs.setBucket fun _ _ => by rw [hclear]; exact Readable.cleared d
  · rw [hmap, blocksAt, pathTag, hd, Option.getD_some]
  · intro t
    rw [blocksAt_setBucket, hclear, filterMap_decode_cleared]

/-- A normal write to an existing bucket replaces its content; the other buckets
stay. -/
theorem stub_writePath (id offset : ℕ) {L x l : ℕ} {s : TreeOramServerStorage C} (hs : Intact L s)
    (hx : x < 2 ^ L) (hl : l ≤ L) (bucket : List C.Sealed) :
    ∃ s', (OramService.stub C id).writePath ⟨x, l, offset, .kNormal, bucket⟩ s = (.ok (), s') ∧
      Intact L s' ∧
      ∀ t, s'.blocksAt t =
        if t = pathTag L x l then bucket.map (fun c => (C.decryptBlock c).2) else s.blocksAt t := by
  obtain ⟨d, hd, -⟩ := hs.bucket l (x / 2 ^ (L - l)) hl (pathTag_lt hx hl)
  obtain ⟨hok, hread, hmap⟩ := compressAll_spec bucket
  refine ⟨s.setBucket (pathTag L x l) (compressAll bucket).2, ?_, hs.setBucket fun _ _ => hread, ?_⟩
  · refine Prog.mapError_ok ?_
    rw [if_neg nofun]
    simp only [writePath, hs.level_eq, if_neg (Nat.not_lt.mpr hl), accurateWritePath, hd, hok]
    rfl
  · intro t
    rw [blocksAt_setBucket, hmap]

/-- An initial write appends to an existing bucket. -/
theorem stub_initPath (id x : ℕ) {L l o : ℕ} {s : TreeOramServerStorage C} (hs : Intact L s)
    (hl : l ≤ L) (ho : o < 2 ^ l) (bucket : List C.Sealed) :
    ∃ s', (OramService.stub C id).writePath ⟨x, l, o, .kInit, bucket⟩ s = (.ok (), s') ∧
      Intact L s' ∧
      ∀ t, s'.blocksAt t =
        if t = (l, o) then s.blocksAt t ++ bucket.map (fun c => (C.decryptBlock c).2)
        else s.blocksAt t := by
  obtain ⟨d, hd, hr⟩ := hs.bucket l o hl ho
  obtain ⟨hok, hread, hmap⟩ := compressAll_spec bucket
  refine ⟨s.setBucket (l, o) (d ++ (compressAll bucket).2), ?_,
    hs.setBucket fun _ _ => hr.append hread, ?_⟩
  · refine Prog.mapError_ok ?_
    rw [if_pos rfl]
    simp only [accurateWritePath, hd, hok]
    rfl
  · intro t
    rw [blocksAt_setBucket, List.filterMap_append, hmap]
    by_cases ht : t = (l, o)
    · rw [if_pos ht, if_pos ht, ht, blocksAt, hd, Option.getD_some]
    · rw [if_neg ht, if_neg ht]

/-! ### No request damages the tree

Whatever a client sends, well formed or not, a tree whose buckets can be read stays one. -/

/-- Any read keeps the tree whole: what it returned is readable, and cleared. -/
theorem keeps_readPath (id x l L : ℕ) :
    Prog.Keeps (Intact L) ((OramService.stub C id).readPath x l) := by
  refine Prog.Keeps.mapError fun s hs => ?_
  rw [readPath]
  split
  · exact hs
  · simp only
    rcases hd : s.storage (l, x / 2 ^ (s.level - l)) with _ | d
    · exact hs
    · refine hs.setBucket fun hl ho => ?_
      obtain ⟨_, -, -, hclear⟩ := readBucket_spec (hs.readable hd hl ho)
      rw [hclear]
      exact Readable.cleared d

theorem keeps_accurateWritePath (l o L : ℕ) (bucket : List C.Sealed) (type : WriteType) :
    Prog.Keeps (Intact L) (accurateWritePath l o bucket type) := by
  intro s hs
  obtain ⟨-, hread, -⟩ := compressAll_spec bucket
  rcases hd : s.storage (l, o) with _ | d
  · cases type <;> simp only [accurateWritePath, hd]
    case kInit => split <;> exact hs
    all_goals exact hs
  · cases type <;> simp only [accurateWritePath, hd]
    case kInit => exact hs.setBucket fun hl ho => (hs.readable hd hl ho).append hread
    all_goals exact hs.setBucket fun _ _ => hread

/-- So does any write. -/
theorem keeps_writePath (id L : ℕ) (request : WritePathRequest C) :
    Prog.Keeps (Intact L) ((OramService.stub C id).writePath request) := by
  refine Prog.Keeps.mapError ?_
  split
  · exact keeps_accurateWritePath _ _ _ _ _
  · intro s hs
    rw [writePath]
    split
    · exact hs
    · exact keeps_accurateWritePath _ _ _ _ _ s hs

/-- The server computes the client's leaf level from the number of leaves. -/
theorem clog_leafs (L : ℕ) : Nat.clog 2 (2 ^ L + 1) - 1 = L := by
  have hle : Nat.clog 2 (2 ^ L + 1) ≤ L + 1 :=
    Nat.clog_le_of_le_pow (by rw [pow_succ]; have := Nat.one_le_two_pow (n := L); omega)
  have hlt : L < Nat.clog 2 (2 ^ L + 1) :=
    (Nat.lt_clog_iff_pow_lt Nat.one_lt_two).mpr (Nat.lt_succ_self _)
  omega

theorem intact_new (L : ℕ) : Intact L (new C (2 ^ L)) where
  level_eq := clog_leafs L
  bucket := by
    intro l o hl ho
    refine ⟨[], ?_, Readable.nil⟩
    simp only [new, clog_leafs]
    rw [if_pos ⟨hl, ho⟩]

/-- A new tree is empty. -/
theorem blocksAt_new (capacity : ℕ) (t : Tag) : (new C capacity).blocksAt t = [] := by
  simp only [blocksAt, new]
  split <;> rfl

end TreeOramServerStorage

end ObliviousRam
