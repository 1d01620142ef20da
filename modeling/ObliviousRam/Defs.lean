import ObliviousRam.Prog
import Mathlib.Algebra.Ring.Nat
import Mathlib.Data.Multiset.Basic
import Mathlib.Data.Nat.Sqrt

set_option autoImplicit false

/-!
# Blocks, statuses, positions and randomness

The vocabulary shared by the client and the server (`base/oram_defs.h`,
`base/oram_status.h`, `base/oram_utils.cc`).

* A block is kept in **plaintext** here (`OramBlock`); what the server stores
  is an opaque byte string, reached through a `Codec`: `EncryptBlock` /
  `DecryptBlock` on the client and `DataCompress` / `DataDecompress` on the
  server. The codec carries the two round trips the controllers rely on, so no
  theorem has to assume them again.
* The 512 data bytes are only ever copied as a whole by the tree ORAMs, so the
  development is generic in their type `D`.
* Every random choice of the program enters as an argument (a *draw*).
* A C++ function that returns an `OramStatus` early, aborts the process, or
  runs into undefined behaviour is a `Prog` that stops with an `Exit`.
-/

namespace ObliviousRam

/-! ## Statuses

Nearly every C++ function here returns an `OramStatus`, and its callers do one of three
things with it: hand it on with a status of their own in front (`append`), end the process
if it is not `OK` (`checkStatus`), or not look at it at all (`ignoreStatus`). The three are
kept apart: where a caller ignores what a sibling hands on, the two differ in what a failed
call leaves behind. -/

/-- `oram_impl::StatusCode`. -/
inductive StatusCode where
  | kOK
  | kInvalidArgument
  | kInvalidOperation
  | kOutOfMemory
  | kFileNotFound
  | kFileIOError
  | kOutOfRange
  | kServerError
  | kObjectNotFound
  | kUnknownError
  | kVersionMismatch
  | kAlreadyUsed
  | kUnimplemented
  | kExternalError
  deriving DecidableEq, Repr

/-- `oram_impl::OramStatus`: a code, a message, the reporting function, and the
statuses appended to it. -/
structure OramStatus where
  errorCode : StatusCode
  errorMessage : String
  location : String
  nestedStatus : List OramStatus

namespace OramStatus

/-- `OramStatus::OK`. -/
def OK : OramStatus := ⟨.kOK, "", "", []⟩

/-- The constructor from a code, a message and a location. -/
def make (code : StatusCode) (msg location : String) : OramStatus := ⟨code, msg, location, []⟩

/-- `OramStatus::ok`. -/
def ok (st : OramStatus) : Bool := st.errorCode == .kOK

/-- `OramStatus::Append`: an OK status is discarded. -/
def append (st new : OramStatus) : OramStatus :=
  if new.ok then st else { st with nestedStatus := st.nestedStatus ++ [new] }

/-- `Append` adds to the causes and leaves the code alone. -/
@[simp] theorem append_errorCode (st new : OramStatus) :
    (st.append new).errorCode = st.errorCode := by
  rw [append]
  split <;> rfl

end OramStatus

/-- Why a function stopped before its end. -/
inductive Exit where
  /-- an early `return` of a non-OK status -/
  | status : OramStatus → Exit
  /-- `CheckStatus`, `PANIC`, a failed assertion: the process is gone -/
  | abort : String → Exit
  /-- undefined behaviour of the C++ abstract machine -/
  | undefined : String → Exit

namespace Exit

/-- The process does not survive the stop. -/
def fatal : Exit → Bool
  | status _ => false
  | abort _ => true
  | undefined _ => true

/-- `status.Append(..)` on the way out; the other stops do not pass through it. -/
def append (new : OramStatus) : Exit → Exit
  | status st => status (st.append new)
  | abort why => abort why
  | undefined why => undefined why

/-- The status a caller sees, if it sees one. -/
def code? : Exit → Option StatusCode
  | status st => some st.errorCode
  | abort _ => none
  | undefined _ => none

end Exit

/-- The code of a finished call, if the process survives it. -/
def outcomeCode {α : Type} : Except Exit α → Option StatusCode
  | .ok _ => some .kOK
  | .error e => e.code?

/-- `return OramStatus(code, msg, location)`. -/
def fail {σ α : Type} (code : StatusCode) (msg location : String) : Prog Exit σ α :=
  Prog.throw (.status (.make code msg location))

@[simp] theorem fail_apply {σ α : Type} (code : StatusCode) (msg location : String) (s : σ) :
    (fail code msg location : Prog Exit σ α) s =
      (.error (.status (.make code msg location)), s) := rfl

/-- `oram_utils::CheckStatus`: any non-OK outcome ends the process. -/
def checkStatus {σ α : Type} (reason : String) (m : Prog Exit σ α) : Prog Exit σ α :=
  m.mapError fun
    | .status _ => .abort reason
    | e => e

/-- A call that returns is not affected by the check. -/
theorem checkStatus_ok {σ α : Type} {reason : String} {m : Prog Exit σ α} {s s' : σ} {a : α}
    (hm : m s = (.ok a, s')) : checkStatus reason m s = (.ok a, s') :=
  Prog.mapError_ok hm

/-- Past `checkStatus`, no stop is survived. -/
theorem fatal_of_checkStatus {σ α : Type} {reason : String} {m : Prog Exit σ α} {s s' : σ}
    {e : Exit} (h : checkStatus reason m s = (.error e, s')) : e.fatal = true := by
  rw [checkStatus, Prog.mapError] at h
  rcases hm : (m s).1 with e' | a
  · rw [hm] at h
    cases e' <;> cases h <;> rfl
  · rw [hm] at h
    cases h

/-- A status that is assigned and not looked at: the buffer keeps its bytes. -/
def ignoreStatus {σ α : Type} (default : α) (m : Prog Exit σ α) : Prog Exit σ α := fun s =>
  match m s with
  | (.error (.status _), s') => (.ok default, s')
  | r => r

/-- What that makes of an outcome. -/
def statusIgnored {α : Type} (default : α) : Except Exit α → Except Exit α
  | .error (.status _) => .ok default
  | r => r

/-- What a run with an ignored status leaves behind is what the call left behind. -/
theorem ignoreStatus_apply {σ α : Type} (default : α) (m : Prog Exit σ α) (s : σ) :
    ignoreStatus default m s = (statusIgnored default (m s).1, (m s).2) := by
  rw [ignoreStatus]
  rcases m s with ⟨(_ | _ | _) | _, _⟩ <;> rfl

/-! ## Operations and blocks -/

/-- `oram_impl::Operation`. -/
inductive Operation where
  | kRead
  | kWrite
  | kInvalid
  deriving DecidableEq, Repr

/-- What is valid and no read is a write. -/
theorem Operation.eq_kWrite {op : Operation} (hread : op ≠ .kRead) (hvalid : op ≠ .kInvalid) :
    op = .kWrite := by
  cases op with
  | kRead => exact absurd rfl hread
  | kWrite => rfl
  | kInvalid => exact absurd rfl hvalid

/-- `oram_impl::BlockType`. The field is a plain `int`, and `PadStash` fills it
with random bytes: `unnamed` are the bit patterns that name no enumerator. -/
inductive BlockType where
  | kDummy
  | kNormal
  | kInvalid
  | unnamed (bits : ℕ)
  deriving DecidableEq, Repr

/-- The fields of `oram_block_header_t` the client reads. (`iv` and `mac_tag`
belong to the encrypted form of the block.) -/
structure OramBlockHeader where
  blockId : ℕ
  type : BlockType
  dataLen : ℕ
  deriving DecidableEq, Repr

/-- `oram_block_t` in plaintext. -/
structure OramBlock (D : Type) where
  header : OramBlockHeader
  data : D
  deriving DecidableEq, Repr

namespace OramBlock

variable {D : Type}

/-- `header.block_id`. -/
def id (b : OramBlock D) : ℕ := b.header.blockId

/-- `header.type == BlockType::kNormal`. -/
def isNormal (b : OramBlock D) : Bool := b.header.type == .kNormal

/-- What a caller stores in a block: the data bytes and `data_len`. -/
def payload (b : OramBlock D) : D × ℕ := (b.data, b.header.dataLen)

/-- The update of a write: `data` and `data_len` of the buffer replace those of
the block; `block_id` and `type` stay. -/
def store (b buffer : OramBlock D) : OramBlock D :=
  { header := { b.header with dataLen := buffer.header.dataLen }, data := buffer.data }

/-- A write changes the value of a block and not its id. -/
@[simp] theorem store_id (b buffer : OramBlock D) : (b.store buffer).id = b.id := rfl

@[simp] theorem store_isNormal (b buffer : OramBlock D) :
    (b.store buffer).isNormal = b.isNormal := rfl

@[simp] theorem store_payload (b buffer : OramBlock D) :
    (b.store buffer).payload = buffer.payload := rfl

end OramBlock

/-- `BlockEqual`: dummy blocks cannot be accidentally read out. -/
def blockEqual {D : Type} (blockId : ℕ) (b : OramBlock D) : Bool :=
  b.id == blockId && b.isNormal

/-- `BlockEqual` asks for the id and for the type. -/
theorem blockEqual_iff {D : Type} {a : ℕ} {b : OramBlock D} :
    blockEqual a b = true ↔ b.id = a ∧ b.isNormal = true := by
  rw [blockEqual, Bool.and_eq_true, beq_iff_eq]

/-! ## Position maps

The C++ code reads its maps with `operator[]`, which delivers `0` for a key that is not
there and leaves an entry behind. `index` and `touch` are the two halves of that. -/

/-- `p_oram_position_t`, an `unordered_map<uint32_t, uint32_t>`. -/
def PositionMap : Type := ℕ → Option ℕ

namespace PositionMap

/-- The empty map. -/
def empty : PositionMap := fun _ => none

/-- The value `operator[]` delivers: an absent key counts as `0`. -/
def index (m : PositionMap) (a : ℕ) : ℕ := (m a).getD 0

/-- `map[a] = p`. -/
def set (m : PositionMap) (a p : ℕ) : PositionMap := fun b => if b = a then some p else m b

/-- `map.erase(a)`. -/
def erase (m : PositionMap) (a : ℕ) : PositionMap := fun b => if b = a then none else m b

/-- Evaluating `map[a]` leaves an entry behind. -/
def touch (m : PositionMap) (a : ℕ) : PositionMap := m.set a (m.index a)

@[simp] theorem index_empty (a : ℕ) : empty.index a = 0 := rfl

@[simp] theorem index_set_self (m : PositionMap) (a p : ℕ) : (m.set a p).index a = p := by
  simp [index, set]

/-- An assignment leaves the other keys alone. -/
theorem index_set_ne (m : PositionMap) {a b : ℕ} (p : ℕ) (h : b ≠ a) :
    (m.set a p).index b = m.index b := by
  simp [index, set, h]

theorem index_erase_ne (m : PositionMap) {a b : ℕ} (h : b ≠ a) :
    (m.erase a).index b = m.index b := by
  simp [index, erase, h]

@[simp] theorem index_erase_self (m : PositionMap) (a : ℕ) : (m.erase a).index a = 0 := by
  simp [index, erase]

/-- Looking up a key is no assignment as far as `operator[]` can tell. -/
@[simp] theorem index_touch (m : PositionMap) (a b : ℕ) : (m.touch a).index b = m.index b := by
  by_cases h : b = a
  · rw [h, touch, index_set_self]
  · exact index_set_ne m _ h

end PositionMap

/-- `std::ceil(std::sqrt(n))`. (The root is taken exactly.) -/
def ceilSqrt (n : ℕ) : ℕ := if n = 0 then 0 else Nat.sqrt (n - 1) + 1

/-- The shelter of an ORAM that is not empty has a slot. -/
theorem ceilSqrt_pos {n : ℕ} (h : 0 < n) : 0 < ceilSqrt n := by
  rw [ceilSqrt, if_neg (Nat.ne_of_gt h)]
  exact Nat.succ_pos _

/-! ## Randomness -/

/-- `oram_crypto::UniformRandom(min, max)`, where `value` is the raw 32-bit
draw that passed the acceptance test. -/
def uniformRandom (value min max : ℕ) : Except OramStatus ℕ :=
  if min > max then
    .error (.make .kInvalidArgument "The minimum value is greater than the maximum value" "")
  else .ok (value % (max - min + 1) + min)

/-- With the bounds in order, the draw is folded into the range. -/
theorem uniformRandom_ok (value : ℕ) {min max : ℕ} (h : min ≤ max) :
    uniformRandom value min max = .ok (value % (max - min + 1) + min) := by
  rw [uniformRandom, if_neg (by omega)]

/-- `CheckStatus(UniformRandom(min, max, &x), reason)`. -/
def checkedRandom {σ : Type} (reason : String) (value min max : ℕ) : Prog Exit σ ℕ := fun s =>
  match uniformRandom value min max with
  | .ok x => (.ok x, s)
  | .error _ => (.error (.abort reason), s)

/-- With the bounds in order, the status that is checked is `OK`. -/
theorem checkedRandom_ok {σ : Type} (reason : String) (value : ℕ) {min max : ℕ} (h : min ≤ max)
    (s : σ) :
    checkedRandom reason value min max s = (.ok (value % (max - min + 1) + min), s) := by
  rw [checkedRandom, uniformRandom_ok value h]

/-- `oram_utils::PadStash`: fill up to `bucketSize` with blocks of random bytes.
`random i` are the bytes drawn for slot `i`. -/
def padStash {D : Type} (random : ℕ → OramBlock D) (bucketSize : ℕ) (stash : List (OramBlock D)) :
    List (OramBlock D) :=
  stash ++ (List.range' stash.length (bucketSize - stash.length)).map random

/-- Padding adds no real block, as long as no random block poses as one. -/
theorem filter_isNormal_padStash {D : Type} {random : ℕ → OramBlock D}
    (hpad : ∀ i, (random i).isNormal = false) (bucketSize : ℕ) (stash : List (OramBlock D)) :
    (padStash random bucketSize stash).filter OramBlock.isNormal =
      stash.filter OramBlock.isNormal := by
  have hnone : ((List.range' stash.length (bucketSize - stash.length)).map random).filter
      OramBlock.isNormal = [] := by
    refine List.filter_eq_nil_iff.mpr fun b hb => ?_
    obtain ⟨i, -, rfl⟩ := List.mem_map.mp hb
    rw [hpad i]
    exact Bool.false_ne_true
  rw [padStash, List.filter_append, hnone, List.append_nil]

/-! ## The codec between a block and what the server stores -/

/-- How a block travels. `Sealed` are the `ORAM_BLOCK_SIZE` bytes of an
encrypted block, as they stand in a request or a response; `Packed` are the
bytes LZ4 makes of them, as they stand in a server bucket.

`encryptBlock` is what the block's bytes are after `EncryptBlock` (its callers
ignore the status); `decryptBlock` returns the status, which its callers ignore
too, next to the bytes. -/
structure Codec (D : Type) where
  /-- what `RandomBytes` draws for the nonce -/
  Iv : Type
  Sealed : Type
  Packed : Type
  encryptBlock : Iv → OramBlock D → Sealed
  decryptBlock : Sealed → OramStatus × OramBlock D
  dataCompress : Sealed → Except OramStatus Packed
  dataDecompress : Packed → Except OramStatus Sealed
  /-- `DecryptBlock` inverts `EncryptBlock` under every nonce -/
  decrypt_encrypt : ∀ iv b, decryptBlock (encryptBlock iv b) = (OramStatus.OK, b)
  /-- LZ4 is lossless -/
  decompress_compress : ∀ c, ∃ p, dataCompress c = .ok p ∧ dataDecompress p = .ok c

/-- The codec that leaves a block as it is. -/
def Codec.plain (D : Type) : Codec D where
  Iv := Unit
  Sealed := OramBlock D
  Packed := OramBlock D
  encryptBlock := fun _ b => b
  decryptBlock := fun c => (.OK, c)
  dataCompress := .ok
  dataDecompress := .ok
  decrypt_encrypt := fun _ _ => rfl
  decompress_compress := fun c => ⟨c, rfl, rfl⟩

end ObliviousRam
