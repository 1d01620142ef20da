import ObliviousRam.LinearMemory
import ObliviousRam.PathMemory
import ObliviousRam.RandomShuffle
import ObliviousRam.SqrtBuffer

set_option autoImplicit false

/-!
# Reading the sampled data

`OramClient` (`client/oram_client.cc`) over the three controllers that it makes itself, filled
with what `SampleRandomBucket` (`base/oram_utils.cc`) makes up, and read back.

`SampleRandomBucket` halves `size` before it looks at it. The addresses in the upper half are
given dummies, which no controller finds: a Path ORAM reports that, a linear one returns `OK` and
leaves the caller's block as it was. A square-root ORAM hands out ciphertext.

* `OramConfig.Readable` — the first read of an address delivers the block that was sampled for it.
* `OramClient.Stores` — the real blocks that a linear or a Path ORAM holds. Reads keep it.
* `sampledData_readable_iff` — which addresses are readable.
-/

namespace ObliviousRam

open OramCrypto

variable {R : Type} {C : Codec (UInt8 × R)}

/-! ## The sample

`SampleRandomBucket` makes as many blocks as the tree takes. The first ones, up to half
of `size`, are real, and the others are dummies; then the whole is shuffled. -/

/-- Block `i` of the sample, with `size` halved already. `dataLen` is not initialised, and `bytes`
are the data bytes behind the first one. -/
def sampledBlock (dataLen : ℕ → ℕ) (bytes : ℕ → R) (size initialOffset i : ℕ) :
    OramBlock (UInt8 × R) where
  header := ⟨(i + initialOffset) % 2 ^ 32, if i < size then .kNormal else .kDummy, dataLen i⟩
  data := (UInt8.ofNat (i + initialOffset), bytes i)

/-- The bucket before it is shuffled. -/
def sampledBlocks (dataLen : ℕ → ℕ) (bytes : ℕ → R) (size treeSize initialOffset : ℕ) :
    List (OramBlock (UInt8 × R)) :=
  (List.range treeSize).map (sampledBlock dataLen bytes (size / 2) initialOffset)

/-- `SampleRandomBucket`. -/
def sampleRandomBucket (dataLen : ℕ → ℕ) (bytes : ℕ → R) (words : ℕ → List UInt32)
    (size treeSize initialOffset : ℕ) : Except Exit (List (OramBlock (UInt8 × R))) :=
  match randomShuffle words (sampledBlocks dataLen bytes size treeSize initialOffset).toArray with
  | .ok bucket => .ok bucket.toList
  | .error (.status _) => .error (.abort "Random shuffle failed due to internal error.")
  | .error e => .error e

/-- The block is the one that was sampled for address `i`. -/
structure OramBlock.IsSampled (i : ℕ) (b : OramBlock (UInt8 × R)) : Prop where
  id_eq : b.id = i
  normal : b.isNormal = true
  first_eq : b.data.1.toNat = i % 256

section

variable {dataLen : ℕ → ℕ} {bytes : ℕ → R} {words : ℕ → List UInt32} {size treeSize : ℕ}
  {blocks : List (OramBlock (UInt8 × R))}

/-- Block `i` is the one for address `i`. -/
theorem isSampled_sampledBlock {i : ℕ} (hi : i < size) (hlt : i < 2 ^ 32) :
    (sampledBlock dataLen bytes size 0 i).IsSampled i where
  id_eq := Nat.mod_eq_of_lt hlt
  normal := by simp [sampledBlock, OramBlock.isNormal, hi]
  first_eq := UInt8.toNat_ofNat'

/-- The real blocks are those below half of `size`. -/
theorem mem_loadedBlocks_sampledBlocks {b : OramBlock (UInt8 × R)} :
    b ∈ loadedBlocks (sampledBlocks dataLen bytes size treeSize 0) ↔
      ∃ i < treeSize, i < size / 2 ∧ b = sampledBlock dataLen bytes (size / 2) 0 i := by
  rw [mem_loadedBlocks, sampledBlocks, List.mem_map]
  constructor
  · rintro ⟨⟨i, hi, rfl⟩, hnormal⟩
    refine ⟨i, List.mem_range.mp hi, ?_, rfl⟩
    by_contra hhalf
    simp [sampledBlock, OramBlock.isNormal, hhalf] at hnormal
  · rintro ⟨i, hi, hhalf, rfl⟩
    refine ⟨⟨i, List.mem_range.mpr hi, rfl⟩, ?_⟩
    simp [sampledBlock, OramBlock.isNormal, hhalf]

@[simp]
theorem length_sampledBlocks :
    (sampledBlocks dataLen bytes size treeSize 0).length = treeSize := by
  rw [sampledBlocks, List.length_map, List.length_range]

/-- Every address has its block. -/
theorem ids_sampledBlocks (hsize : treeSize ≤ 2 ^ 32) :
    (sampledBlocks dataLen bytes size treeSize 0).map OramBlock.id = List.range treeSize := by
  rw [sampledBlocks, List.map_map]
  refine (List.map_congr_left fun i hi => ?_).trans (List.map_id _)
  exact Nat.mod_eq_of_lt (Nat.lt_of_lt_of_le (List.mem_range.mp hi) hsize)

/-- No two real blocks have one address. -/
theorem uniqueKeys_sampledBlocks (hsize : treeSize ≤ 2 ^ 32) :
    UniqueKeys OramBlock.id (loadedBlocks (sampledBlocks dataLen bytes size treeSize 0)) := by
  have hnodup : ((sampledBlocks dataLen bytes size treeSize 0).map OramBlock.id).Nodup := by
    rw [ids_sampledBlocks hsize]
    exact List.nodup_range
  exact Multiset.coe_nodup.mpr (hnodup.sublist (List.filter_sublist.map _))

/-- A sample that is returned is not empty, and no larger than `RandomShuffle` can deal with. -/
theorem sampleRandomBucket_perm
    (h : sampleRandomBucket dataLen bytes words size treeSize 0 = .ok blocks) :
    0 < treeSize ∧ treeSize < 2 ^ 32 ∧
      blocks.Perm (sampledBlocks dataLen bytes size treeSize 0) := by
  rw [sampleRandomBucket] at h
  split at h
  next bucket hshuffle =>
    cases h
    obtain ⟨hpos, hlt, hperm⟩ := randomShuffle_perm hshuffle
    rw [List.size_toArray, length_sampledBlocks] at hpos hlt
    exact ⟨hpos, hlt, Array.perm_iff_toList_perm.mp hperm⟩
  next => cases h
  next => cases h

/-- Every order of the sampled blocks may come out. -/
theorem exists_sampleRandomBucket (hpos : 0 < treeSize) (hlt : treeSize < 2 ^ 32)
    (hperm : blocks.Perm (sampledBlocks dataLen bytes size treeSize 0)) :
    ∃ words, sampleRandomBucket dataLen bytes words size treeSize 0 = .ok blocks := by
  have hsize : (sampledBlocks dataLen bytes size treeSize 0).toArray.size = treeSize := by
    rw [List.size_toArray, length_sampledBlocks]
  have hnodup : (sampledBlocks dataLen bytes size treeSize 0).Nodup := by
    refine List.Nodup.of_map OramBlock.id ?_
    rw [ids_sampledBlocks (Nat.le_of_lt hlt)]
    exact List.nodup_range
  have hbij := @bijOn_of_size_lt _ (sampledBlocks dataLen bytes size treeSize 0).toArray
    (hsize.symm ▸ hpos) hnodup (hsize.symm ▸ hlt)
  obtain ⟨j, -, hj⟩ := hbij.surjOn ⟨blocks.toArray, List.perm_iff_toArray_perm.mp hperm, rfl⟩
  exact ⟨j.words, by rw [sampleRandomBucket, show randomShuffle _ _ = _ from hj]⟩

theorem loadedBlocks_perm {D : Type} {data data' : List (OramBlock D)} (h : data.Perm data') :
    loadedBlocks data = loadedBlocks data' :=
  Multiset.coe_eq_coe.mpr (h.filter _)

end

/-! ## The client -/

/-- The values of `OramType` for which `OramClient` makes the controller itself. (That of
`kPartitionOram` is a singleton, and the others are refused.) -/
inductive OramType where
  | kLinearOram
  | kSquareOram
  | kPathOram
  deriving DecidableEq, Repr

/-- What the client hands on of `OramConfig`. The path of the file is empty. -/
structure OramConfig where
  oramType : OramType
  blockNum : ℕ
  bucketSize : ℕ
  id : ℕ

/-- The constructor of a Path ORAM, whose arguments are `uint32_t`. -/
def OramConfig.pathOram (config : OramConfig) : PathOramConfig :=
  .new config.id (config.blockNum % 2 ^ 32) (config.bucketSize % 2 ^ 32) true

/-- The constructor of a square-root ORAM, past its check. -/
def OramConfig.squareOram (config : OramConfig) : SquareRootOramConfig :=
  ⟨config.blockNum, ceilSqrt config.blockNum⟩

/-- `OramClient`: the controller, and the server behind its stub. No call is lost. -/
inductive OramClient (C : Codec (UInt8 × R)) where
  | linear (w : LinearSystem (FlatOramServerStorage C))
  | square (K : SquareRootOramConfig) (w : SqrtSystem (SqrtLine C))
  | path (P : PathOramConfig) (w : PathSystem (UInt8 × R) (TreeOramServerStorage C))

/-- The random choices of `FillWithData`, and the bytes that it does not initialise. -/
structure SampleDraws (C : Codec (UInt8 × R)) where
  dataLen : ℕ → ℕ
  bytes : ℕ → R
  words : ℕ → List UInt32
  linear : ℕ → C.Iv
  square : SqrtFillDraws C
  garbage : ℕ → OramBlock (UInt8 × R)
  path : FillDraws C

/-- The arguments of a `Read`, and its random choices. -/
structure OramRead (C : Codec (UInt8 × R)) where
  address : ℕ
  block : OramBlock (UInt8 × R)
  linear : ℕ → C.Iv
  square : SqrtDraws C
  path : AccessDraws C

namespace OramClient

/-- The constructor, with `InitOram`. -/
def new (C : Codec (UInt8 × R)) (config : OramConfig) : Except Exit (OramClient C) :=
  match config.oramType with
  | .kLinearOram => .ok (.linear ⟨.new, ⟨⟨[], []⟩⟩⟩)
  | .kSquareOram => (SquareRootOramConfig.new config.blockNum).map fun K =>
      .square K (SquareRootOramController.atStart C K [])
  | .kPathOram => .ok (.path config.pathOram (PathSystem.init C config.pathOram))

/-- `FillWithData` of the controller. -/
def load (draws : SampleDraws C) (blocks : List (OramBlock (UInt8 × R))) :
    Prog Exit (OramClient C) Unit
  | .linear w =>
    let r := LinearOramController.fillWithData (OramService.flatStub C) blocks draws.linear w
    (r.1, .linear r.2)
  | .square K w =>
    let r := SquareRootOramController.fillWithData (SqrtLine.stub C) K draws.garbage blocks
      draws.square w
    (r.1, .square K r.2)
  | .path P w =>
    let r := PathOramController.fillWithData (OramService.stub C P.id) P blocks draws.path w
    (r.1, .path P r.2)

/-- How many blocks `FillWithData` samples. -/
def treeSize (config : OramConfig) : OramClient C → ℕ
  | .path P _ => (2 ^ (P.treeLevel + 1) - 1) * config.bucketSize
  | _ => config.blockNum

/-- `OramClient::FillWithData`. -/
def fillWithData (config : OramConfig) (draws : SampleDraws C) : Prog Exit (OramClient C) Unit :=
  fun client =>
    match sampleRandomBucket draws.dataLen draws.bytes draws.words config.blockNum
        (client.treeSize config) 0 with
    | .error e => (.error e, client)
    | .ok blocks => load draws blocks client

/-- `OramController::Access` with `kRead`; `V` reads what `EncryptBlock` leaves as a block. -/
def access (V : C.Sealed → OramBlock (UInt8 × R)) (r : OramRead C) :
    Prog Exit (OramClient C) (OramBlock (UInt8 × R))
  | .linear w =>
    let q := LinearOramController.access (OramService.flatStub C) .kRead (r.address % 2 ^ 32)
      r.block r.linear w
    (q.1, .linear q.2)
  | .square K w =>
    let q := SqrtCaller.access (SqrtLine.stub C) K V .kRead (r.address % 2 ^ 32) r.square
      ⟨w, r.block⟩
    (q.1.map fun _ => q.2.data, .square K q.2.system)
  | .path P w =>
    let q := PathOramController.access (OramService.stub C P.id) P .kRead (r.address % 2 ^ 32)
      r.block r.path w
    (q.1, .path P q.2)

/-- `OramClient::Read`, whose address is a `uint32_t`: what the caller's block holds afterwards. -/
def read (V : C.Sealed → OramBlock (UInt8 × R)) (r : OramRead C) :
    Prog Exit (OramClient C) (OramBlock (UInt8 × R)) :=
  Prog.mapError (Exit.append (.make .kInvalidOperation "The client cannot read the block!" "Read"))
    (access V r)

end OramClient

/-! ## What the reads are to deliver -/

/-- Draws of `FillWithData`: the permutation is one, and no padding poses as a real block. -/
structure SampleDraws.Proper (config : OramConfig) (draws : SampleDraws C) : Prop where
  perm : draws.square.perm.Perm (List.range config.squareOram.words)
  pad_dummy : ∀ t i, (draws.path.pad t i).isNormal = false

/-- The same of the draws of a read. -/
structure OramRead.Proper (config : OramConfig) (r : OramRead C) : Prop where
  perm : r.square.perm.Perm (List.range config.squareOram.words)
  pad_dummy : ∀ l j, (r.path.pad l j).isNormal = false

/-- Address `i` is readable: after a load that returned, and reads of other addresses, whatever
came of them, the first read of `i` returns the block that was sampled for `i`. -/
def OramConfig.Readable (V : C.Sealed → OramBlock (UInt8 × R)) (config : OramConfig) (i : ℕ) :
    Prop :=
  ∀ (draws : SampleDraws C) (fresh client : OramClient C), draws.Proper config →
    OramClient.new C config = .ok fresh →
    OramClient.fillWithData config draws fresh = (.ok (), client) →
    ∀ (past : List (OramRead C)) (r : OramRead C),
      (∀ q ∈ past, q.Proper config ∧ q.address ≠ i) → r.Proper config → r.address = i →
      ∀ outcomes client', Prog.trace Exit.fatal (OramClient.read V) past client =
        some (outcomes, client') →
        ∃ b client'', OramClient.read V r client' = (.ok b, client'') ∧ b.IsSampled i

/-! ## Linear and Path ORAMs

A read changes nothing in a linear ORAM, and no value in a Path ORAM. So whether an
address is readable is decided by the load. -/

namespace OramClient

/-- The controller is in use, and these are the real blocks behind it. -/
def Stores (data : Multiset (OramBlock (UInt8 × R))) : OramClient C → Prop
  | .linear w => w.client.isInitialized = true ∧ loadedBlocks w.server.contents = data
  | .square _ _ => False
  | .path P w => w.client.isInitialized = true ∧ P.standalone = true ∧ w.Inv P ∧
      w.contents P = data

end OramClient

/-- A linear ORAM whose calls all go through: a read delivers the last block of the address, or
leaves the caller's block as it is. -/
theorem LinearOramController.access_read {D : Type} {C : Codec D}
    {w : LinearSystem (FlatOramServerStorage C)} (hinit : w.client.isInitialized = true)
    (address : ℕ) (data : OramBlock D) (iv : ℕ → C.Iv) :
    ∃ w', access (OramService.flatStub C) .kRead address data iv w =
        (.ok ((w.server.contents.filter (blockEqual address)).getLast?.getD data), w') ∧
      w'.client.isInitialized = true ∧ w'.server.contents = w.server.contents := by
  let blocks := w.server.storage.blocks
  refine ⟨⟨w.client, ⟨⟨(accessBlocks .kRead address iv 0 data blocks).2, w.server.storage.rest⟩⟩⟩,
    ?_, hinit, ?_⟩
  · rw [access, Prog.get_bind, hinit, if_neg Bool.false_ne_true.symm, internalAccess,
      if_neg (by decide), FlatOramServerStorage.contents,
      ← accessBlocks_read address iv blocks 0 data]
    rfl
  · have hsame : ∀ b : OramBlock D, touchBlock .kRead address data.data b = b := by
      intro b
      rw [touchBlock, if_neg fun h => h.2 rfl]
    have hsent := decrypt_accessBlocks .kRead address iv blocks 0 data
    rw [List.map_congr_left fun b _ => hsame b, List.map_id'] at hsent
    exact hsent

/-- The last block of an address, where there is only one. -/
theorem getLast?_filter_blockEqual {D : Type} {contents : List (OramBlock D)}
    (hids : UniqueKeys OramBlock.id (loadedBlocks contents)) {b : OramBlock D}
    (hb : b ∈ loadedBlocks contents) :
    (contents.filter (blockEqual b.id)).getLast? = some b := by
  have hmem : b ∈ contents.filter (blockEqual b.id) :=
    List.mem_filter.mpr ⟨(mem_loadedBlocks.mp hb).1,
      blockEqual_iff.mpr ⟨rfl, (mem_loadedBlocks.mp hb).2⟩⟩
  have hne : contents.filter (blockEqual b.id) ≠ [] := List.ne_nil_of_mem hmem
  rw [List.getLast?_eq_some_getLast hne]
  obtain ⟨hlast, hequal⟩ := List.mem_filter.mp (List.getLast_mem hne)
  obtain ⟨hid, hnormal⟩ := blockEqual_iff.mp hequal
  exact congrArg some (hids.eq_of_key_eq (mem_loadedBlocks.mpr ⟨hlast, hnormal⟩) hb hid)

theorem filter_blockEqual_eq_nil {D : Type} {contents : List (OramBlock D)} {a : ℕ}
    (h : ∀ b ∈ loadedBlocks contents, b.id ≠ a) : contents.filter (blockEqual a) = [] := by
  refine List.filter_eq_nil_iff.mpr fun b hb hequal => ?_
  obtain ⟨hid, hnormal⟩ := blockEqual_iff.mp hequal
  exact h b (mem_loadedBlocks.mpr ⟨hb, hnormal⟩) hid

namespace OramClient

variable {V : C.Sealed → OramBlock (UInt8 × R)} {data : Multiset (OramBlock (UInt8 × R))}

/-- **One read**: the block that is stored under the address, or an error, or nothing. -/
theorem access_stores {client : OramClient C} (hids : UniqueKeys OramBlock.id data)
    (h : client.Stores data) (r : OramRead C) (hpad : ∀ l j, (r.path.pad l j).isNormal = false) :
    ∃ q client', access V r client = (q, client') ∧ client'.Stores data ∧
      (∀ b ∈ data, b.id = r.address % 2 ^ 32 → q = .ok b) ∧
      ((∀ b ∈ data, b.id ≠ r.address % 2 ^ 32) → ∀ b, q = .ok b → b = r.block) := by
  cases client with
  | linear w =>
    obtain ⟨hinit, rfl⟩ := h
    obtain ⟨w', haccess, hinit', hcontents⟩ :=
      LinearOramController.access_read hinit (r.address % 2 ^ 32) r.block r.linear
    refine ⟨_, .linear w', by rw [access, haccess], ⟨hinit', by rw [hcontents]⟩, ?_, ?_⟩
    · rintro b hb hid
      rw [← hid, getLast?_filter_blockEqual hids hb]
      rfl
    · intro hmiss b hb
      rw [filter_blockEqual_eq_nil hmiss] at hb
      exact (Except.ok.inj hb).symm
  | square K w => exact h.elim
  | path P w =>
    obtain ⟨hinit, hstand, hinv, rfl⟩ := h
    by_cases hmem : ∃ b ∈ w.contents P, b.id = r.address % 2 ^ 32
    · obtain ⟨b, hb, hid⟩ := hmem
      obtain ⟨w', haccess, hinv', hcontents, hinit'⟩ := PathOramController.internalAccess_found
        r.block hinv hinit (show Operation.kRead ≠ .kInvalid by decide) hpad hb hid
      rw [PathOramController.accessed, if_neg (by decide), hstand, if_neg (by decide)] at hcontents
      refine ⟨_, .path P w', by rw [access, access_eq hinit, haccess],
        ⟨hinit', hstand, hinv', hcontents⟩, fun c hc hcid => ?_, fun hmiss => ?_⟩
      · rw [hids.eq_of_key_eq hc hb (hcid.trans hid.symm)]
        rfl
      · exact absurd hid (hmiss b hb)
    · have hmiss : ∀ b ∈ w.contents P, b.id ≠ r.address % 2 ^ 32 :=
        fun b hb hid => hmem ⟨b, hb, hid⟩
      obtain ⟨st, w', haccess, -, hinv', hcontents, hinit'⟩ :=
        PathOramController.internalAccess_missing r.block r.path hinv hinit
          (show Operation.kRead ≠ .kInvalid by decide) hmiss
      refine ⟨_, .path P w', by rw [access, access_eq hinit, haccess],
        ⟨hinit', hstand, hinv', hcontents⟩, fun b hb hid => absurd hid (hmiss b hb),
        fun _ b hb => ?_⟩
      cases hb

/-- The same of `Read`. -/
theorem read_stores {client : OramClient C} (hids : UniqueKeys OramBlock.id data)
    (h : client.Stores data) (r : OramRead C) (hpad : ∀ l j, (r.path.pad l j).isNormal = false) :
    ∃ q client', read V r client = (q, client') ∧ client'.Stores data ∧
      (∀ b ∈ data, b.id = r.address % 2 ^ 32 → q = .ok b) ∧
      ((∀ b ∈ data, b.id ≠ r.address % 2 ^ 32) → ∀ b, q = .ok b → b = r.block) := by
  obtain ⟨q, client', haccess, hstores, hfound, hmissing⟩ := access_stores hids h r hpad
  refine ⟨_, client', by rw [read, Prog.mapError, haccess], hstores, fun b hb hid => ?_,
    fun hmiss b hb => hmissing hmiss b ?_⟩
  · rw [hfound b hb hid]
    rfl
  · cases q with
    | error e => cases hb
    | ok c => exact hb

/-- Any reads keep what the client stores. -/
theorem stores_of_trace {client client' : OramClient C} (hids : UniqueKeys OramBlock.id data)
    (h : client.Stores data) {past : List (OramRead C)}
    (hpad : ∀ r ∈ past, ∀ l j, (r.path.pad l j).isNormal = false)
    {outcomes : List (Except Exit (OramBlock (UInt8 × R)))}
    (hrun : Prog.trace Exit.fatal (read V) past client = some (outcomes, client')) :
    client'.Stores data := by
  refine Prog.trace_history Exit.fatal
    (fun (r : OramRead C) (_ : OramClient C) => ∀ l j, (r.path.pad l j).isNormal = false)
    (fun _ client => client.Stores data) (fun _ r client q client' hr hclient hstep => ?_) [] h
    (Prog.Along.of_forall (fun r hr _ => hpad r hr) client) hrun
  obtain ⟨_, _, hread, hstores, -⟩ := read_stores hids hclient r hr
  cases hread.symm.trans (Prog.eq_of_survive hstep).1
  exact hstores

end OramClient

/-! ## The load -/

namespace OramConfig

variable (config : OramConfig)

/-- How many blocks are sampled. -/
def treeSize : ℕ :=
  match config.oramType with
  | .kPathOram => (2 ^ (config.pathOram.treeLevel + 1) - 1) * config.bucketSize
  | _ => config.blockNum

theorem treeSize_square {config : OramConfig} (htype : config.oramType = .kSquareOram) :
    config.treeSize = config.blockNum := by
  rw [treeSize, htype]

/-- The blocks that the controller has room for. -/
def kept (blocks : List (OramBlock (UInt8 × R))) : List (OramBlock (UInt8 × R)) :=
  match config.oramType with
  | .kPathOram => blocks.take config.pathOram.capacity
  | _ => blocks

/-- A tree may have no room for some of the blocks. -/
theorem loadedBlocks_kept_le (blocks : List (OramBlock (UInt8 × R))) :
    loadedBlocks (config.kept blocks) ≤ loadedBlocks blocks := by
  rw [kept]
  split
  · exact Multiset.coe_le.mpr ((List.take_sublist _ _).filter _).subperm
  · exact le_refl _

/-- `FillWithData` can return: the constructor takes the sizes, and there is something to shuffle,
but not more than a `uint32_t` can count. -/
structure Valid : Prop where
  accepted : config.oramType = .kSquareOram → ∃ K, SquareRootOramConfig.new config.blockNum = .ok K
  size_pos : 0 < config.treeSize
  size_lt : config.treeSize < 2 ^ 32

end OramConfig

namespace OramClient

variable {config : OramConfig} {fresh client : OramClient C} {draws : SampleDraws C}

theorem new_square (htype : config.oramType = .kSquareOram) (hnew : new C config = .ok fresh) :
    ∃ K, SquareRootOramConfig.new config.blockNum = .ok K ∧
      fresh = .square K (SquareRootOramController.atStart C K []) := by
  simp only [new, htype] at hnew
  cases hK : SquareRootOramConfig.new config.blockNum with
  | error e =>
    rw [hK] at hnew
    cases hnew
  | ok K =>
    rw [hK] at hnew
    cases hnew
    exact ⟨K, rfl, rfl⟩

theorem treeSize_new (hnew : new C config = .ok fresh) :
    fresh.treeSize config = config.treeSize := by
  rcases h : config.oramType with _ | _ | _
  · simp only [new, h] at hnew
    cases hnew
    rw [OramConfig.treeSize, h]
    rfl
  · obtain ⟨K, -, rfl⟩ := new_square h hnew
    exact (OramConfig.treeSize_square h).symm
  · simp only [new, h] at hnew
    cases hnew
    rw [OramConfig.treeSize, h]
    rfl

/-- A load that returned has sampled the blocks and handed them to the controller. -/
theorem fillWithData_returns (hnew : new C config = .ok fresh)
    (hfill : fillWithData config draws fresh = (.ok (), client)) :
    ∃ blocks, blocks.Perm
        (sampledBlocks draws.dataLen draws.bytes config.blockNum config.treeSize 0) ∧
      load draws blocks fresh = (.ok (), client) := by
  rw [fillWithData, treeSize_new hnew] at hfill
  split at hfill
  next => cases hfill
  next blocks hsample => exact ⟨blocks, (sampleRandomBucket_perm hsample).2.2, hfill⟩

/-- A load that returns has sizes that are valid. -/
theorem valid_of_fillWithData (hnew : new C config = .ok fresh)
    (hfill : fillWithData config draws fresh = (.ok (), client)) : config.Valid := by
  have hsize := treeSize_new hnew
  rw [fillWithData, hsize] at hfill
  split at hfill
  next => cases hfill
  next blocks hsample =>
    obtain ⟨hpos, hlt, -⟩ := sampleRandomBucket_perm hsample
    refine ⟨fun htype => ?_, hpos, hlt⟩
    obtain ⟨K, hK, -⟩ := new_square htype hnew
    exact ⟨K, hK⟩

/-- The load of a linear or a Path ORAM. -/
theorem load_stores (htype : config.oramType ≠ .kSquareOram) (hnew : new C config = .ok fresh)
    (hpad : ∀ t i, (draws.path.pad t i).isNormal = false)
    {blocks : List (OramBlock (UInt8 × R))} (hids : UniqueKeys OramBlock.id (loadedBlocks blocks)) :
    ∃ client, load draws blocks fresh = (.ok (), client) ∧
      client.Stores (loadedBlocks (config.kept blocks)) := by
  rw [OramConfig.kept]
  rcases h : config.oramType with _ | _ | _
  · simp only [new, h] at hnew
    cases hnew
    refine ⟨.linear ⟨⟨true⟩, ⟨⟨blocks.mapIdx fun i b => C.encryptBlock (draws.linear i) b, []⟩⟩⟩,
      rfl, rfl, ?_⟩
    exact congrArg loadedBlocks (LinearOramController.contents_encrypted blocks draws.linear)
  · exact absurd h htype
  · simp only [new, h] at hnew
    cases hnew
    obtain ⟨w, hrun, hinv, hcontents, hinit⟩ :=
      @PathOramController.fillWithData_inv _ _ config.pathOram draws.path hpad blocks hids
    exact ⟨.path config.pathOram w, by rw [load, hrun], hinit, rfl, hinv, hcontents⟩

end OramClient

/-! ## Which addresses are readable

For each type of ORAM, what is not readable is shown by one read in a run that can
occur, and what is readable by all of them. -/

/-- Under some nonce, the bytes that `EncryptBlock` leaves do not show the type of a real block. -/
def Codec.HidesType (C : Codec (UInt8 × R)) (V : C.Sealed → OramBlock (UInt8 × R)) : Prop :=
  ∀ b, ∃ iv, (V (C.encryptBlock iv b)).isNormal = false

/-- A block for a caller to read into, and for padding. -/
def blankBlock (data : UInt8 × R) : OramBlock (UInt8 × R) := ⟨⟨0, .kDummy, 0⟩, data⟩

section

variable {V : C.Sealed → OramBlock (UInt8 × R)} {config : OramConfig}

/-- Draws with one nonce, for a shuffle by these words. -/
def plainDraws (config : OramConfig) (data : UInt8 × R) (iv : C.Iv) (words : ℕ → List UInt32) :
    SampleDraws C where
  dataLen := fun _ => 0
  bytes := fun _ => data.2
  words := words
  linear := fun _ => iv
  square := ⟨List.range config.squareOram.words, fun _ => iv⟩
  garbage := fun _ => blankBlock data
  path := ⟨fun _ _ => 0, fun _ _ => blankBlock data, fun _ _ => iv⟩

theorem plainDraws_proper (config : OramConfig) (data : UInt8 × R) (iv : C.Iv)
    (words : ℕ → List UInt32) : (plainDraws config data iv words).Proper config :=
  ⟨.refl _, fun _ _ => rfl⟩

/-- A read into a blank block, with one nonce. -/
def plainRead (config : OramConfig) (data : UInt8 × R) (iv : C.Iv) (address : ℕ) : OramRead C where
  address := address
  block := blankBlock data
  linear := fun _ => iv
  square := ⟨List.range config.squareOram.words, iv⟩
  path := ⟨0, fun _ _ => blankBlock data, fun _ _ => iv⟩

theorem plainRead_proper (config : OramConfig) (data : UInt8 × R) (iv : C.Iv) (address : ℕ) :
    (plainRead config data iv address).Proper config :=
  ⟨.refl _, fun _ _ => rfl⟩

namespace OramConfig

/-- Nothing is read that is not stored. -/
theorem not_readable_of_stores {draws : SampleDraws C} (hproper : draws.Proper config)
    {fresh client : OramClient C} (hnew : OramClient.new C config = .ok fresh)
    (hfill : OramClient.fillWithData config draws fresh = (.ok (), client))
    {data : Multiset (OramBlock (UInt8 × R))} (hids : UniqueKeys OramBlock.id data)
    (hstores : client.Stores data) {i : ℕ} (hmiss : ∀ b ∈ data, b.id ≠ i) :
    ¬ config.Readable V i := by
  intro hreadable
  let r : OramRead C := plainRead config (draws.garbage 0).data (draws.linear 0) i
  obtain ⟨b, client', hread, hb⟩ := hreadable draws fresh client hproper hnew hfill [] r nofun
    (plainRead_proper config _ _ i) rfl [] client rfl
  obtain ⟨q, _, hread', -, hfound, hmissing⟩ :=
    OramClient.read_stores (V := V) hids hstores r fun _ _ => rfl
  cases hread'.symm.trans hread
  by_cases hmem : ∃ c ∈ data, c.id = i % 2 ^ 32
  · obtain ⟨c, hc, hid⟩ := hmem
    cases hfound c hc hid
    exact hmiss b hc hb.id_eq
  · have hblank : b = r.block := hmissing (fun c hc hid => hmem ⟨c, hc, hid⟩) b rfl
    have hnormal := hb.normal
    rw [hblank] at hnormal
    cases hnormal

/-- A valid load of a linear or a Path ORAM, in any order of the blocks. -/
theorem exists_fillWithData (hvalid : config.Valid) (htype : config.oramType ≠ .kSquareOram)
    (data : UInt8 × R) (iv : C.Iv) {blocks : List (OramBlock (UInt8 × R))}
    (hperm : blocks.Perm
      (sampledBlocks (fun _ => 0) (fun _ => data.2) config.blockNum config.treeSize 0)) :
    ∃ (draws : SampleDraws C) (fresh client : OramClient C), draws.Proper config ∧
      OramClient.new C config = .ok fresh ∧
      OramClient.fillWithData config draws fresh = (.ok (), client) ∧
      client.Stores (loadedBlocks (config.kept blocks)) ∧
      UniqueKeys OramBlock.id (loadedBlocks (config.kept blocks)) := by
  obtain ⟨words, hwords⟩ := exists_sampleRandomBucket hvalid.size_pos hvalid.size_lt hperm
  have hids : UniqueKeys OramBlock.id (loadedBlocks blocks) := by
    rw [loadedBlocks_perm hperm]
    exact uniqueKeys_sampledBlocks (Nat.le_of_lt hvalid.size_lt)
  obtain ⟨fresh, hnew⟩ : ∃ fresh, OramClient.new C config = .ok fresh := by
    rw [OramClient.new]
    rcases h : config.oramType with _ | _ | _
    · exact ⟨_, rfl⟩
    · exact absurd h htype
    · exact ⟨_, rfl⟩
  have hproper := plainDraws_proper config data iv words
  obtain ⟨client, hload, hstores⟩ :=
    OramClient.load_stores htype hnew hproper.pad_dummy hids
  refine ⟨plainDraws config data iv words, fresh, client, hproper, hnew, ?_, hstores,
    hids.of_le (config.loadedBlocks_kept_le blocks)⟩
  rw [OramClient.fillWithData, OramClient.treeSize_new hnew]
  simp only [plainDraws, hwords]
  exact hload

/-- What is readable: a real block that the controller has kept. -/
theorem readable_of_kept (htype : config.oramType ≠ .kSquareOram)
    (hkept : ∀ blocks : List (OramBlock (UInt8 × R)), blocks.length = config.treeSize →
      config.kept blocks = blocks)
    {i : ℕ} (hsize : i < config.treeSize) (hhalf : i < config.blockNum / 2) :
    config.Readable V i := by
  intro draws fresh client hproper hnew hfill past r hpast hr hri outcomes client' hrun
  have hvalid := OramClient.valid_of_fillWithData hnew hfill
  obtain ⟨blocks, hperm, hload⟩ := OramClient.fillWithData_returns hnew hfill
  have hids := @uniqueKeys_sampledBlocks _ draws.dataLen draws.bytes config.blockNum _
    (Nat.le_of_lt hvalid.size_lt)
  have hlen : blocks.length = config.treeSize := by rw [hperm.length_eq, length_sampledBlocks]
  obtain ⟨_, hload', hstores⟩ := OramClient.load_stores htype hnew hproper.pad_dummy
    (loadedBlocks_perm hperm ▸ hids)
  cases hload'.symm.trans hload
  rw [hkept blocks hlen, loadedBlocks_perm hperm] at hstores
  obtain ⟨_, client'', hread, -, hfound, -⟩ := OramClient.read_stores hids
    (OramClient.stores_of_trace hids hstores (fun q hq => (hpast q hq).1.pad_dummy) hrun) r
    hr.pad_dummy
  have hlt : i < 2 ^ 32 := hsize.trans hvalid.size_lt
  have hsampled := @isSampled_sampledBlock _ draws.dataLen draws.bytes _ i hhalf hlt
  refine ⟨_, client'', hread.trans (congrArg (·, client'') (hfound _ ?_ ?_)), hsampled⟩
  · exact mem_loadedBlocks_sampledBlocks.mpr ⟨i, hsize, hhalf, rfl⟩
  · rw [hsampled.id_eq, hri, Nat.mod_eq_of_lt hlt]

/-- The sample has no real block for an address of the upper half. -/
theorem lt_of_readable (hvalid : config.Valid) (htype : config.oramType ≠ .kSquareOram)
    (data : UInt8 × R) (iv : C.Iv) {i : ℕ} (h : config.Readable V i) :
    i < config.treeSize ∧ i < config.blockNum / 2 := by
  obtain ⟨draws, fresh, client, hproper, hnew, hfill, hstores, hids⟩ :=
    exists_fillWithData hvalid htype data iv (.refl _)
  by_contra hnot
  refine not_readable_of_stores hproper hnew hfill hids hstores (fun b hb hid => ?_) h
  have hmem := Multiset.mem_of_le (config.loadedBlocks_kept_le _) hb
  obtain ⟨k, hk, hhalf, rfl⟩ := mem_loadedBlocks_sampledBlocks.mp hmem
  have hki : k = i :=
    (Nat.mod_eq_of_lt (hk.trans hvalid.size_lt)).symm.trans hid
  exact hnot ⟨hki ▸ hk, hki ▸ hhalf⟩

/-- Where there is more sampled than the buckets hold, any block may be among what is left. -/
theorem not_readable_of_capacity_lt (hvalid : config.Valid) (htype : config.oramType = .kPathOram)
    (hroom : config.pathOram.capacity < config.treeSize) (data : UInt8 × R) (iv : C.Iv) {i : ℕ}
    (hi : i < config.treeSize) : ¬ config.Readable V i := by
  let block := sampledBlock (fun _ => 0) (fun _ => data.2) (config.blockNum / 2) 0
  let others := (List.range config.treeSize).erase i
  have hmem : i ∈ List.range config.treeSize := List.mem_range.mpr hi
  have hlast : (others ++ [i]).Perm (List.range config.treeSize) :=
    (List.perm_append_singleton i others).trans (List.perm_cons_erase hmem).symm
  obtain ⟨draws, fresh, client, hproper, hnew, hfill, hstores, hids⟩ :=
    @exists_fillWithData _ C config hvalid (by rw [htype]; exact nofun) data iv
      ((others ++ [i]).map block) (hlast.map block)
  have hkept : config.kept ((others ++ [i]).map block) =
      (others.map block).take config.pathOram.capacity := by
    have hlen : config.pathOram.capacity ≤ (others.map block).length := by
      rw [List.length_map, List.length_erase_of_mem hmem, List.length_range]
      exact Nat.le_sub_one_of_lt hroom
    rw [kept, htype, List.map_append]
    exact List.take_append_of_le_length hlen
  refine not_readable_of_stores hproper hnew hfill hids hstores fun b hb hid => ?_
  rw [hkept] at hb
  obtain ⟨k, hk, rfl⟩ := List.mem_map.mp (List.mem_of_mem_take (mem_loadedBlocks.mp hb).1)
  obtain ⟨hne, hk⟩ := List.nodup_range.mem_erase_iff.mp hk
  exact hne ((Nat.mod_eq_of_lt ((List.mem_range.mp hk).trans hvalid.size_lt)).symm.trans hid)

/-- A valid load of a square-root ORAM. -/
theorem exists_fillWithData_square (hvalid : config.Valid) (htype : config.oramType = .kSquareOram)
    (data : UInt8 × R) (iv : C.Iv) :
    ∃ (draws : SampleDraws C) (fresh : OramClient C) (w : SqrtSystem (SqrtLine C)),
      draws.Proper config ∧ OramClient.new C config = .ok fresh ∧
      OramClient.fillWithData config draws fresh = (.ok (), .square config.squareOram w) ∧
      w.Answering config.squareOram ∧
      ∀ a < config.blockNum, ∃ t, w.client.positionMap a = some t := by
  let blocks := sampledBlocks (fun _ => 0) (fun _ => data.2) config.blockNum config.treeSize 0
  obtain ⟨words, hwords⟩ :=
    exists_sampleRandomBucket hvalid.size_pos hvalid.size_lt (.refl blocks)
  have hproper := plainDraws_proper config data iv words
  have hlen : blocks.length ≤ config.squareOram.words := by
    rw [length_sampledBlocks, treeSize_square htype]
    exact Nat.le_add_right _ _
  obtain ⟨w, hload, hmap⟩ := SquareRootOramController.fillWithData_line
    (plainDraws config data iv words).garbage hlen hproper.perm
  obtain ⟨hshaped, hinit, -, -, hover⟩ :=
    SquareRootOramController.shaped_of_fillWithData hload hproper.perm
  have hnew : OramClient.new C config =
      .ok (.square config.squareOram
        (SquareRootOramController.atStart C config.squareOram [])) := by
    obtain ⟨K, hK⟩ := hvalid.accepted htype
    rw [OramClient.new, htype]
    simp only [hK, SquareRootOramConfig.eq_of_new hK]
    rfl
  refine ⟨_, _, w, hproper, hnew, ?_, ⟨hshaped, hinit, hover ▸ nofun⟩, fun a ha => ?_⟩
  · rw [OramClient.fillWithData, OramClient.treeSize_new hnew]
    simp only [plainDraws] at hload
    simp only [plainDraws, hwords, OramClient.load]
    rw [hload]
  · rw [hmap]
    exact ⟨_, if_pos (Nat.lt_add_right _ ha)⟩

/-- A square-root ORAM hands out what it has sent to the shelter. -/
theorem not_readable_square (hV : C.HidesType V) (hvalid : config.Valid)
    (htype : config.oramType = .kSquareOram) (data : UInt8 × R) (iv : C.Iv) {i : ℕ}
    (hi : i < config.blockNum) : ¬ config.Readable V i := by
  intro h
  have hsize := treeSize_square htype
  obtain ⟨draws, fresh, w, hproper, hnew, hfill, hw, hpos⟩ :=
    @exists_fillWithData_square _ C config hvalid htype data iv
  obtain ⟨t, ht⟩ := hpos i hi
  have hlt : i % 2 ^ 32 = i := Nat.mod_eq_of_lt (hi.trans (hsize ▸ hvalid.size_lt))
  -- a nonce under which the block that is fetched does not look real
  obtain ⟨iv', hhidden⟩ : ∃ iv', ∀ b, w.fetched config.squareOram i = some b →
      (V (C.encryptBlock iv' b)).isNormal = false := by
    rcases w.fetched config.squareOram i with _ | b
    · exact ⟨iv, nofun⟩
    · obtain ⟨iv', hiv'⟩ := hV b
      exact ⟨iv', fun c hc => Option.some.inj hc ▸ hiv'⟩
  let r : OramRead C := plainRead config data iv' i
  have hr := plainRead_proper config data iv' i
  obtain ⟨out, w', -, haccess⟩ := SqrtCaller.access_line (V := V)
    (show Operation.kRead ≠ .kInvalid from nofun) r.block hr.perm
    (ceilSqrt_pos (Nat.zero_lt_of_lt hi)) hw ht
  obtain ⟨b, client', hread, hb⟩ := h draws fresh _ hproper hnew hfill [] r nofun hr rfl [] _ rfl
  have hnormal : ((w.fetched config.squareOram i).elim r.block
      (SqrtCaller.left V .kRead i iv' r.block)).isNormal = false := by
    rcases hfetched : w.fetched config.squareOram i with _ | c
    · rfl
    · rw [Option.elim_some, SqrtCaller.left]
      split
      · exact hhidden c hfetched
      · rfl
  have hout : b = (w.fetched config.squareOram i).elim r.block
      (SqrtCaller.left V .kRead i iv' r.block) := by
    have haddress : r.address % 2 ^ 32 = i := hlt
    rw [OramClient.read, Prog.mapError, OramClient.access, haddress, haccess] at hread
    cases out with
    | error e => cases hread
    | ok c =>
      cases hread
      rfl
  rw [← hout, hb.normal] at hnormal
  cases hnormal

/-- A Path ORAM has room for its sample if the size of its buckets is a `uint8_t`. -/
theorem capacity_eq (htype : config.oramType = .kPathOram) (hbucket : config.bucketSize < 256) :
    config.pathOram.capacity = config.treeSize := by
  have hmod : config.bucketSize % 2 ^ 32 % 256 = config.bucketSize := by omega
  rw [treeSize, htype, PathOramConfig.capacity]
  simp only [pathOram, PathOramConfig.new, hmod]

theorem capacity_lt (htype : config.oramType = .kPathOram) (hbucket : 256 ≤ config.bucketSize) :
    config.pathOram.capacity < config.treeSize := by
  have hpos : 0 < 2 ^ (config.pathOram.treeLevel + 1) - 1 :=
    Nat.sub_pos_of_lt (Nat.one_lt_two_pow (Nat.succ_ne_zero _))
  have hlt : config.pathOram.bucketSize < config.bucketSize :=
    Nat.lt_of_lt_of_le (Nat.mod_lt _ (by decide)) hbucket
  rw [treeSize, htype, PathOramConfig.capacity]
  exact Nat.mul_lt_mul_of_pos_left hlt hpos

end OramConfig

/-- **Which addresses are readable**: those in the lower half of the addresses, if the ORAM is a
linear one or a Path ORAM whose buckets have the size that they are asked for. -/
theorem sampledData_readable_iff [Inhabited R] (hV : C.HidesType V) (hvalid : config.Valid) {i : ℕ}
    (hi : i < config.blockNum) :
    config.Readable V i ↔ config.oramType ≠ .kSquareOram ∧ i < config.blockNum / 2 ∧
      i < config.treeSize ∧ (config.oramType = .kPathOram → config.bucketSize < 256) := by
  have data : UInt8 × R := default
  obtain ⟨iv, -⟩ := hV (blankBlock data)
  constructor
  · intro h
    have htype : config.oramType ≠ .kSquareOram := fun htype =>
      OramConfig.not_readable_square hV hvalid htype data iv hi h
    obtain ⟨hsize, hhalf⟩ := OramConfig.lt_of_readable hvalid htype data iv h
    refine ⟨htype, hhalf, hsize, fun hpath => ?_⟩
    by_contra hbucket
    exact OramConfig.not_readable_of_capacity_lt hvalid hpath
      (OramConfig.capacity_lt hpath (Nat.not_lt.mp hbucket)) data iv hsize h
  · rintro ⟨htype, hhalf, hsize, hbucket⟩
    refine OramConfig.readable_of_kept htype (fun blocks hlen => ?_) hsize hhalf
    rw [OramConfig.kept]
    split
    next hpath =>
      rw [OramConfig.capacity_eq hpath (hbucket hpath)]
      exact List.take_of_length_le (Nat.le_of_eq hlen)
    next => rfl

end

/-! ### Small instances -/

/-- What the other of two nonces does to a type. -/
def BlockType.masked : BlockType → BlockType
  | .kDummy => .kNormal
  | .kNormal => .kDummy
  | t => t

/-- A cipher that masks the type of a block, or not, as the nonce says. -/
def Codec.masked (D : Type) : Codec D where
  Iv := Bool
  Sealed := Bool × OramBlock D
  Packed := Bool × OramBlock D
  encryptBlock := fun iv b =>
    (iv, if iv then { b with header := { b.header with type := b.header.type.masked } } else b)
  decryptBlock := fun c =>
    (.OK, if c.1 then { c.2 with header := { c.2.header with type := c.2.header.type.masked } }
      else c.2)
  dataCompress := .ok
  dataDecompress := .ok
  decrypt_encrypt := by
    rintro (_ | _) ⟨⟨id, _ | _ | _ | _, len⟩, data⟩ <;> rfl
  decompress_compress := fun c => ⟨c, rfl, rfl⟩

theorem Codec.masked_hidesType : (Codec.masked (UInt8 × Unit)).HidesType Prod.snd := by
  rintro ⟨⟨id, _ | _ | _ | _, len⟩, data⟩
  · exact ⟨false, rfl⟩
  · exact ⟨true, rfl⟩
  · exact ⟨false, rfl⟩
  · exact ⟨false, rfl⟩

/-- A Path ORAM for four blocks. -/
def fourBlocks : OramConfig := ⟨.kPathOram, 4, 2, 0⟩

theorem sampledData_readable_four :
    fourBlocks.Readable (C := Codec.masked (UInt8 × Unit)) Prod.snd 1 := by
  have hsize : fourBlocks.treeSize = 6 := by decide
  have hvalid : fourBlocks.Valid := by
    refine ⟨fun h => absurd h (by decide), ?_, ?_⟩
    · rw [hsize]
      decide
    · rw [hsize]
      decide
  refine (sampledData_readable_iff Codec.masked_hidesType hvalid (by decide)).mpr
    ⟨by decide, by decide, ?_, fun _ => by decide⟩
  rw [hsize]
  decide

/-- A linear ORAM for two blocks. -/
def twoBlocks : OramConfig := ⟨.kLinearOram, 2, 1, 0⟩

/-- Draws that leave the two blocks in their order. -/
def twoBlocksDraws : SampleDraws (Codec.masked (UInt8 × Unit)) :=
  plainDraws twoBlocks (0, ()) true fun i => [UInt32.ofNat i]

/-- Before and after the load. -/
def twoBlocksFresh : OramClient (Codec.masked (UInt8 × Unit)) := .linear ⟨.new, ⟨⟨[], []⟩⟩⟩
@[inherit_doc twoBlocksFresh] def twoBlocksLoaded : OramClient (Codec.masked (UInt8 × Unit)) :=
  (OramClient.fillWithData twoBlocks twoBlocksDraws twoBlocksFresh).2

def twoBlocksRead (address : ℕ) : OramRead (Codec.masked (UInt8 × Unit)) :=
  plainRead twoBlocks (7, ()) true address

/-- Both blocks are read in turn: both reads return `OK`, and the second has left the caller's
block as it was. -/
theorem sampledData_not_readable :
    OramClient.new _ twoBlocks = .ok twoBlocksFresh ∧
    OramClient.fillWithData twoBlocks twoBlocksDraws twoBlocksFresh = (.ok (), twoBlocksLoaded) ∧
    (Prog.trace Exit.fatal (OramClient.read Prod.snd) [twoBlocksRead 0, twoBlocksRead 1]
      twoBlocksLoaded).map (fun t => t.1.map Except.toOption) =
        some [some ⟨⟨0, .kNormal, 0⟩, 0, ()⟩, some (twoBlocksRead 1).block] ∧
    ¬ twoBlocks.Readable (C := Codec.masked (UInt8 × Unit)) Prod.snd 1 := by
  refine ⟨rfl, rfl, by decide, fun h => ?_⟩
  have hvalid : twoBlocks.Valid := ⟨fun h => absurd h (by decide), by decide, by decide⟩
  have hhalf := (OramConfig.lt_of_readable hvalid (by decide) (0, ()) true h).2
  exact absurd hhalf (by decide)

end ObliviousRam
