import ObliviousRam.CLayout
import ObliviousRam.KeyExchange

set_option autoImplicit false

/-!
# What `EncryptBlock` covers

`EncryptBlock` and `DecryptBlock` (`base/oram_utils.cc`) on the bytes of an `oram_block_t`, with
the layout that a compiler for a 64-bit target gives it: four bytes of padding lie between `type`
and `data_len`, so the struct has 560 bytes.

The macros that say how much is encrypted add up the sizes of the fields and leave the padding
out. The ciphertext ends four bytes before the struct does: `data[508]` to `data[511]` are stored
as they are, and nothing authenticates them. The round trip does not show it.
-/

namespace ObliviousRam

open CLayout

/-! ## The layout

The source adds up the sizes of the fields, a compiler puts padding between them. Both
are computed here, from the types of the fields, and compared. -/

/-- `uint8_t`, `uint32_t`, an `enum class` and `size_t` on a 64-bit target. -/
def uint8T : CType := ⟨1, 1⟩
@[inherit_doc uint8T] def uint32T : CType := ⟨4, 4⟩
@[inherit_doc uint8T] def blockTypeT : CType := ⟨4, 4⟩
@[inherit_doc uint8T] def sizeT : CType := ⟨8, 8⟩

/-- `ORAM_CRYPTO_RANDOM_SIZE`, which is `crypto_aead_aes256gcm_NPUBBYTES`. -/
def ORAM_CRYPTO_RANDOM_SIZE : ℕ := 12

/-- `DEFAULT_ORAM_DATA_SIZE`. -/
def DEFAULT_ORAM_DATA_SIZE : ℕ := 512

/-- `DEFAULT_ORAM_METADATA_SIZE`. -/
def DEFAULT_ORAM_METADATA_SIZE : ℕ := blockTypeT.size + sizeT.size

/-- `DEFAULT_ORAM_ENCSKIP_SIZE`. -/
def DEFAULT_ORAM_ENCSKIP_SIZE : ℕ :=
  ORAM_CRYPTO_RANDOM_SIZE + crypto_aead_aes256gcm_ABYTES + uint32T.size

/-- The bytes that `EncryptBlock` encrypts. -/
def encSize : ℕ := DEFAULT_ORAM_DATA_SIZE + DEFAULT_ORAM_METADATA_SIZE

/-- `oram_block_header_t`. -/
def oramBlockHeaderT : List CType :=
  [array uint8T 12, array uint8T 16, uint32T, blockTypeT, sizeT]

/-- `oram_block_t`. -/
def oramBlockT : List CType := [struct oramBlockHeaderT, array uint8T DEFAULT_ORAM_DATA_SIZE]

/-- `ORAM_BLOCK_SIZE`. -/
def ORAM_BLOCK_SIZE : ℕ := (struct oramBlockT).size

/-- The fields of a block. -/
inductive BlockField where
  | iv
  | macTag
  | blockId
  | type
  | dataLen
  | data
  deriving DecidableEq, Repr

namespace BlockField

/-- Where a field begins. -/
def offset : BlockField → ℕ
  | iv => offsetOf oramBlockHeaderT 0
  | macTag => offsetOf oramBlockHeaderT 1
  | blockId => offsetOf oramBlockHeaderT 2
  | type => offsetOf oramBlockHeaderT 3
  | dataLen => offsetOf oramBlockHeaderT 4
  | data => offsetOf oramBlockT 1

/-- How long it is. -/
def size : BlockField → ℕ
  | iv => 12
  | macTag => 16
  | blockId => uint32T.size
  | type => blockTypeT.size
  | dataLen => sizeT.size
  | data => DEFAULT_ORAM_DATA_SIZE

/-- The byte belongs to the field. -/
def Covers (f : BlockField) (p : ℕ) : Prop := f.offset ≤ p ∧ p < f.offset + f.size

end BlockField

/-- The byte belongs to the ciphertext. -/
def InCiphertext (p : ℕ) : Prop :=
  DEFAULT_ORAM_ENCSKIP_SIZE ≤ p ∧ p < DEFAULT_ORAM_ENCSKIP_SIZE + encSize

/-- The fields, from the first byte to the last: `type` ends at 36, and `data_len` begins at 40. -/
theorem covers_iff (f : BlockField) (p : ℕ) :
    f.Covers p ↔ match f with
      | .iv => p < 12
      | .macTag => 12 ≤ p ∧ p < 28
      | .blockId => 28 ≤ p ∧ p < 32
      | .type => 32 ≤ p ∧ p < 36
      | .dataLen => 40 ≤ p ∧ p < 48
      | .data => 48 ≤ p ∧ p < 560 := by
  cases f with
  | iv => exact ⟨And.right, fun h => ⟨Nat.zero_le p, h⟩⟩
  | macTag => exact Iff.rfl
  | blockId => exact Iff.rfl
  | type => exact Iff.rfl
  | dataLen => exact Iff.rfl
  | data => exact Iff.rfl

/-- The ciphertext begins after the header and ends four bytes before the struct. -/
theorem inCiphertext_iff (p : ℕ) : InCiphertext p ↔ 32 ≤ p ∧ p < 556 := Iff.rfl

/-- The bytes of `data` that the macros leave out. -/
def Uncovered (p : ℕ) : Prop :=
  BlockField.data.offset + 508 ≤ p ∧ p < BlockField.data.offset + 512

/-- The four bytes that are left out. -/
theorem uncovered_iff (p : ℕ) : Uncovered p ↔ 556 ≤ p ∧ p < 560 := Iff.rfl

/-! ## `EncryptBlock` and `DecryptBlock` -/

variable {S : Sodium}

/-- What `RandomBytes` draws for the field `iv`. -/
structure Nonce where
  bytes : ByteString
  length_eq : bytes.length = ORAM_CRYPTO_RANDOM_SIZE

/-- `EncryptBlock`; the state is the block. -/
def encryptBlock (cryptor : Cryptor S) (iv : Nonce) : Prog Exit Memory Unit := do
  Prog.modify (memcpy BlockField.iv.offset iv.bytes)
  let block ← Prog.get
  match (Cryptor.encrypt (slice block DEFAULT_ORAM_ENCSKIP_SIZE encSize)
      (slice block BlockField.iv.offset ORAM_CRYPTO_RANDOM_SIZE) cryptor).1 with
  | .error e => Prog.throw (e.append (.make .kInvalidArgument
      "Encryption failed (check if the data size is correct?)" "EncryptBlock"))
  | .ok enc => do
    let tagOffset := enc.length - crypto_aead_aes256gcm_ABYTES
    Prog.modify (memcpy BlockField.macTag.offset
      ((enc.drop tagOffset).take crypto_aead_aes256gcm_ABYTES))
    Prog.modify (memcpy DEFAULT_ORAM_ENCSKIP_SIZE (enc.take tagOffset))

/-- `DecryptBlock`. -/
def decryptBlock (cryptor : Cryptor S) : Prog Exit Memory Unit := do
  let block ← Prog.get
  let encData := slice block DEFAULT_ORAM_ENCSKIP_SIZE encSize ++
    slice block BlockField.macTag.offset crypto_aead_aes256gcm_ABYTES
  match (Cryptor.decrypt encData
      (slice block BlockField.iv.offset ORAM_CRYPTO_RANDOM_SIZE) cryptor).1 with
  | .error e => Prog.throw (e.append (.make .kInvalidArgument
      "Decryption failed due to corrupted ciphertext" "DecryptBlock"))
  | .ok dec => Prog.modify (memcpy DEFAULT_ORAM_ENCSKIP_SIZE dec)

/-! ## Blocks on the wire -/

/-- `ConvertToString`. -/
def convertToString (block : Memory) : ByteString := slice block 0 ORAM_BLOCK_SIZE

/-- `ConvertToBlock`; the state is the block. -/
def convertToBlock (data : ByteString) : Prog Exit Memory Unit := do
  Cryptor.panicIf (data.length != ORAM_BLOCK_SIZE) "Invalid data size"
  Prog.modify (memcpy 0 (data.take ORAM_BLOCK_SIZE))

/-! ## The idealised cipher -/

/-- The plaintext of a block. -/
def plaintext (block : Memory) : ByteString := slice block DEFAULT_ORAM_ENCSKIP_SIZE encSize

/-- `crypto_aead_aes256gcm_decrypt` inverts `crypto_aead_aes256gcm_encrypt`, which appends the tag. -/
def Sodium.Inverts (S : Sodium) : Prop :=
  ∀ {message iv out : ByteString} {key : S.SessionKey},
    S.aes256gcmEncrypt message iv key = some out →
      out.length = message.length + crypto_aead_aes256gcm_ABYTES ∧
        S.aes256gcmDecrypt out iv key = some message

/-- Every message can be encrypted, and the ciphertext is longer by the tag. -/
def Sodium.Encrypts (S : Sodium) (key : S.SessionKey) : Prop :=
  ∀ message iv, ∃ out, S.aes256gcmEncrypt message iv key = some out ∧
    out.length = message.length + crypto_aead_aes256gcm_ABYTES

/-- Under this nonce, the ciphertext of the message opens, and with one byte changed it does
not, be it a byte of the tag. -/
def Sodium.OpensIntact (S : Sodium) (key : S.SessionKey) (iv message : ByteString) : Prop :=
  ∀ out, S.aes256gcmEncrypt message iv key = some out →
    S.aes256gcmDecrypt out iv key = some message ∧
      ∀ i < out.length, ∀ v, out[i]? ≠ some v → S.aes256gcmDecrypt (out.set i v) iv key = none

/-- The block as `EncryptBlock` leaves it, with the ciphertext `out`. -/
def sealedBlock (iv : Nonce) (out : ByteString) (block : Memory) : Memory :=
  memcpy DEFAULT_ORAM_ENCSKIP_SIZE (out.take encSize)
    (memcpy BlockField.macTag.offset ((out.drop encSize).take crypto_aead_aes256gcm_ABYTES)
      (memcpy BlockField.iv.offset iv.bytes block))

section

variable {iv : Nonce} {out : ByteString} {block : Memory}

/-- The nonce is no part of the plaintext. -/
theorem plaintext_memcpy_iv : plaintext (memcpy BlockField.iv.offset iv.bytes block) =
    plaintext block := by
  refine slice_memcpy_disjoint (.inr ?_)
  rw [iv.length_eq]
  decide

/-- The nonce is where it was put. -/
theorem slice_iv_memcpy (iv : Nonce) (block : Memory) :
    slice (memcpy BlockField.iv.offset iv.bytes block) BlockField.iv.offset
      ORAM_CRYPTO_RANDOM_SIZE = iv.bytes := by
  have hself := slice_memcpy_self block BlockField.iv.offset iv.bytes
  rwa [iv.length_eq] at hself

/-- What `EncryptBlock` leaves behind when the cipher goes through. -/
theorem encryptBlock_eq {c : Cryptor S} (hc : c.Ready) (hsetup : c.isSetup = true)
    (hout : S.aes256gcmEncrypt (plaintext block) iv.bytes c.sessionKeyRx = some out)
    (hlen : out.length = encSize + crypto_aead_aes256gcm_ABYTES) :
    encryptBlock c iv block = (.ok (), sealedBlock iv out block) := by
  have hiv := slice_iv_memcpy iv block
  have hrun : Cryptor.encrypt (slice (memcpy BlockField.iv.offset iv.bytes block)
      DEFAULT_ORAM_ENCSKIP_SIZE encSize) iv.bytes c = (.ok out, c) :=
    Cryptor.encrypt_ready hc hsetup ((congrArg (S.aes256gcmEncrypt · iv.bytes c.sessionKeyRx)
      plaintext_memcpy_iv).trans hout)
  rw [encryptBlock, Prog.modify_bind, Prog.get_bind, hiv, hrun]
  simp only [hlen, Nat.add_sub_cancel, Prog.modify_bind, Prog.modify_apply]
  rfl

/-! ### The bytes it leaves -/

/-- The field `iv` holds the nonce. -/
theorem sealedBlock_of_nonce {p : ℕ} (hp : BlockField.iv.Covers p) :
    iv.bytes[p]? = some (sealedBlock iv out block p) := by
  have hlt : p < 12 := (covers_iff _ p).mp hp
  have hin : p < iv.bytes.length := by
    rw [iv.length_eq]
    exact hlt
  have hget := memcpy_inside BlockField.iv.offset block hin
  rw [show BlockField.iv.offset + p = p from Nat.zero_add p] at hget
  rw [sealedBlock, memcpy_outside, memcpy_outside]
  · exact hget
  · exact .inl hlt
  · exact .inl (Nat.lt_trans hlt (by decide))

/-- The bytes beside nonce, tag and ciphertext are those of the block. -/
theorem sealedBlock_outside (hlen : out.length = encSize + crypto_aead_aes256gcm_ABYTES) {p : ℕ}
    (hiv : ¬ BlockField.iv.Covers p) (htag : ¬ BlockField.macTag.Covers p)
    (hout : ¬ InCiphertext p) : sealedBlock iv out block p = block p := by
  rw [covers_iff] at hiv htag
  rw [inCiphertext_iff] at hout
  have hcipher : (out.take encSize).length = 524 := by
    rw [List.length_take, hlen]
    rfl
  have hmac : ((out.drop encSize).take crypto_aead_aes256gcm_ABYTES).length = 16 := by
    rw [List.length_take, List.length_drop, hlen]
    rfl
  rw [sealedBlock, memcpy_outside, memcpy_outside, memcpy_outside]
  · exact .inr (by rw [iv.length_eq]; exact Nat.not_lt.mp hiv)
  · rw [hmac]
    change p < 12 ∨ 12 + 16 ≤ p
    omega
  · rw [hcipher]
    change p < 32 ∨ 32 + 524 ≤ p
    omega

/-- What `DecryptBlock` hands to the cipher. -/
def encData (block : Memory) : ByteString :=
  slice block DEFAULT_ORAM_ENCSKIP_SIZE encSize ++
    slice block BlockField.macTag.offset crypto_aead_aes256gcm_ABYTES

/-- Tag and ciphertext are put together again. -/
theorem encData_sealedBlock (iv : Nonce) (block : Memory)
    (hlen : out.length = encSize + crypto_aead_aes256gcm_ABYTES) :
    encData (sealedBlock iv out block) = out := by
  have hcipher : (out.take encSize).length = encSize := by
    rw [List.length_take, hlen]
    exact Nat.min_eq_left (Nat.le_add_right _ _)
  have hdrop : (out.drop encSize).length = crypto_aead_aes256gcm_ABYTES := by
    rw [List.length_drop, hlen, Nat.add_sub_cancel_left]
  have htag : (out.drop encSize).take crypto_aead_aes256gcm_ABYTES = out.drop encSize := by
    rw [← hdrop, List.take_length]
  have hfirst : slice (sealedBlock iv out block) DEFAULT_ORAM_ENCSKIP_SIZE encSize =
      out.take encSize := by
    have hself := slice_memcpy_self (memcpy BlockField.macTag.offset
      ((out.drop encSize).take crypto_aead_aes256gcm_ABYTES)
      (memcpy BlockField.iv.offset iv.bytes block)) DEFAULT_ORAM_ENCSKIP_SIZE (out.take encSize)
    rwa [hcipher] at hself
  have hsecond : slice (sealedBlock iv out block) BlockField.macTag.offset
      crypto_aead_aes256gcm_ABYTES = out.drop encSize := by
    rw [sealedBlock, slice_memcpy_disjoint (.inl (by decide)), htag]
    have hself := slice_memcpy_self (memcpy BlockField.iv.offset iv.bytes block)
      BlockField.macTag.offset (out.drop encSize)
    rwa [hdrop] at hself
  rw [encData, hfirst, hsecond, List.take_append_drop]

theorem slice_iv_sealedBlock (iv : Nonce) (out : ByteString) (block : Memory) :
    slice (sealedBlock iv out block) BlockField.iv.offset ORAM_CRYPTO_RANDOM_SIZE = iv.bytes := by
  rw [sealedBlock, slice_memcpy_disjoint (.inl (by decide)),
    slice_memcpy_disjoint (.inl (by decide)), slice_iv_memcpy]

end

/-! ### What `DecryptBlock` makes of them -/

section

variable {c : Cryptor S} {block : Memory}

theorem length_encData (block : Memory) :
    (encData block).length = encSize + crypto_aead_aes256gcm_ABYTES := by
  rw [encData, List.length_append, length_slice, length_slice]

theorem abytes_le_length_encData (block : Memory) :
    crypto_aead_aes256gcm_ABYTES ≤ (encData block).length := by
  rw [length_encData]
  exact Nat.le_add_left _ _

theorem decryptBlock_opens (hc : c.Ready) (hsetup : c.isSetup = true) {message : ByteString}
    (hopen : S.aes256gcmDecrypt (encData block)
      (slice block BlockField.iv.offset ORAM_CRYPTO_RANDOM_SIZE) c.sessionKeyRx = some message) :
    decryptBlock c block = (.ok (), memcpy DEFAULT_ORAM_ENCSKIP_SIZE message block) := by
  rw [decryptBlock, Prog.get_bind]
  rcases Cryptor.decrypt_ready hc hsetup (abytes_le_length_encData block)
    (slice block BlockField.iv.offset ORAM_CRYPTO_RANDOM_SIZE) with
    ⟨dec, hdec, hrun⟩ | ⟨hdec, -⟩
  · cases hdec.symm.trans hopen
    rw [encData] at hrun
    simp only [hrun]
    rfl
  · cases hdec.symm.trans hopen

theorem decryptBlock_rejects (hc : c.Ready) (hsetup : c.isSetup = true)
    (hnone : S.aes256gcmDecrypt (encData block)
      (slice block BlockField.iv.offset ORAM_CRYPTO_RANDOM_SIZE) c.sessionKeyRx = none) :
    ∃ st, decryptBlock c block = (.error (.status st), block) := by
  rw [decryptBlock, Prog.get_bind]
  rcases Cryptor.decrypt_ready hc hsetup (abytes_le_length_encData block)
    (slice block BlockField.iv.offset ORAM_CRYPTO_RANDOM_SIZE) with
    ⟨dec, hdec, -⟩ | ⟨-, hrun⟩
  · cases hdec.symm.trans hnone
  · rw [encData] at hrun
    simp only [hrun]
    exact ⟨_, rfl⟩

end

/-! ## The round trip

Encryption and decryption work on the same range of bytes, so they invert each other,
whatever the range is. What lies outside of it is stored and comes back unchanged, too. -/

section

variable {c : Cryptor S} {iv : Nonce} {out : ByteString} {block : Memory}

/-- What a cryptor in order makes of a block. -/
theorem encryptBlock_ok (hc : c.Ready) (hsetup : c.isSetup = true)
    (hencrypts : S.Encrypts c.sessionKeyRx) (iv : Nonce) (block : Memory) :
    ∃ out, S.aes256gcmEncrypt (plaintext block) iv.bytes c.sessionKeyRx = some out ∧
      out.length = encSize + crypto_aead_aes256gcm_ABYTES ∧
      encryptBlock c iv block = (.ok (), sealedBlock iv out block) := by
  obtain ⟨out, hout, hlen⟩ := hencrypts (plaintext block) iv.bytes
  rw [plaintext, length_slice] at hlen
  exact ⟨out, hout, hlen, encryptBlock_eq hc hsetup hout hlen⟩

/-- Inversion: a block that was encrypted is a sealed block. -/
theorem sealedBlock_of_encryptBlock {stored : Memory} (hS : S.Inverts)
    (h : encryptBlock c iv block = (.ok (), stored)) :
    c.Ready ∧ c.isSetup = true ∧ ∃ out,
      S.aes256gcmEncrypt (plaintext block) iv.bytes c.sessionKeyRx = some out ∧
        stored = sealedBlock iv out block := by
  have hiv : slice (memcpy BlockField.iv.offset iv.bytes block) BlockField.iv.offset
      ORAM_CRYPTO_RANDOM_SIZE = iv.bytes := slice_iv_memcpy iv block
  have hplain : slice (memcpy BlockField.iv.offset iv.bytes block) DEFAULT_ORAM_ENCSKIP_SIZE
      encSize = plaintext block := plaintext_memcpy_iv
  have hrun := h
  rw [encryptBlock, Prog.modify_bind, Prog.get_bind, hiv, hplain] at hrun
  cases hcipher : Cryptor.encrypt (plaintext block) iv.bytes c with
  | mk outcome c' =>
    rw [hcipher] at hrun
    cases outcome with
    | error stop => cases hrun
    | ok out =>
      obtain ⟨hc, hsetup, hout⟩ := Cryptor.encrypt_ok hcipher
      obtain ⟨hlen, -⟩ := hS hout
      rw [plaintext, length_slice] at hlen
      refine ⟨hc, hsetup, out, hout, ?_⟩
      rw [encryptBlock_eq hc hsetup hout hlen] at h
      cases h
      rfl

/-- `DecryptBlock` opens every memory that begins with the bytes of the sealed block. -/
theorem decryptBlock_sealedBlock (hS : S.Inverts) (hc : c.Ready) (hsetup : c.isSetup = true)
    (hout : S.aes256gcmEncrypt (plaintext block) iv.bytes c.sessionKeyRx = some out)
    {received : Memory} (hbytes : ∀ p, p < ORAM_BLOCK_SIZE → received p = sealedBlock iv out block p) :
    decryptBlock c received =
      (.ok (), memcpy DEFAULT_ORAM_ENCSKIP_SIZE (plaintext block) received) := by
  obtain ⟨hlen, hopen⟩ := hS hout
  rw [plaintext, length_slice] at hlen
  have hslice {offset n : ℕ} (h : offset + n ≤ ORAM_BLOCK_SIZE) :
      slice received offset n = slice (sealedBlock iv out block) offset n :=
    slice_congr fun i hi => hbytes _ (by omega)
  refine decryptBlock_opens hc hsetup ?_
  rw [encData, hslice (by decide), hslice (by decide), hslice (by decide), ← encData,
    encData_sealedBlock iv block hlen, slice_iv_sealedBlock]
  exact hopen

/-- The bytes it leaves are those of the block, but for nonce and tag. -/
theorem memcpy_plaintext (hlen : out.length = encSize + crypto_aead_aes256gcm_ABYTES)
    {received : Memory} (hbytes : ∀ p, p < ORAM_BLOCK_SIZE → received p = sealedBlock iv out block p)
    {p : ℕ} (hp : p < ORAM_BLOCK_SIZE) (hiv : ¬ BlockField.iv.Covers p)
    (htag : ¬ BlockField.macTag.Covers p) :
    memcpy DEFAULT_ORAM_ENCSKIP_SIZE (plaintext block) received p = block p := by
  by_cases hin : InCiphertext p
  · exact memcpy_slice block received _ _ hin.1 hin.2
  · rw [memcpy_outside, hbytes p hp]
    · exact sealedBlock_outside hlen hiv htag hin
    · rw [plaintext, length_slice]
      rw [inCiphertext_iff] at hin
      change p < 32 ∨ 32 + 524 ≤ p
      omega

/-- What is sent is what is received. -/
theorem convertToBlock_convertToString (stored buffer : Memory) :
    convertToBlock (convertToString stored) buffer =
        (.ok (), memcpy 0 (convertToString stored) buffer) ∧
      ∀ p, p < ORAM_BLOCK_SIZE → memcpy 0 (convertToString stored) buffer p = stored p := by
  have hlen : (convertToString stored).length = ORAM_BLOCK_SIZE := length_slice _ _ _
  constructor
  · simp only [convertToBlock, Cryptor.panicIf, hlen, bne_self_eq_false, Bool.false_eq_true,
      if_false, Prog.pure_bind, Prog.modify_apply]
    rw [← hlen, List.take_length]
  · intro p hp
    exact memcpy_slice stored buffer 0 _ (Nat.zero_le p) (by rwa [Nat.zero_add])

/-- **The round trip of a block**: encrypted, sent, received into any buffer and decrypted, it has
its fields again, the bytes left in the clear included. -/
theorem decryptBlock_encryptBlock (hS : S.Inverts) {stored : Memory}
    (h : encryptBlock c iv block = (.ok (), stored)) (buffer : Memory) :
    ∃ received block', convertToBlock (convertToString stored) buffer = (.ok (), received) ∧
      decryptBlock c received = (.ok (), block') ∧
      ∀ f ∈ [BlockField.blockId, .type, .dataLen, .data],
        slice block' f.offset f.size = slice block f.offset f.size := by
  obtain ⟨hc, hsetup, out, hout, rfl⟩ := sealedBlock_of_encryptBlock hS h
  obtain ⟨hlen, -⟩ := hS hout
  rw [plaintext, length_slice] at hlen
  obtain ⟨hsent, hbytes⟩ := convertToBlock_convertToString (sealedBlock iv out block) buffer
  refine ⟨_, _, hsent, decryptBlock_sealedBlock hS hc hsetup hout hbytes, fun f hf => ?_⟩
  refine slice_congr fun i hi => ?_
  have hfield : f.Covers (f.offset + i) := ⟨Nat.le_add_right _ _, Nat.add_lt_add_left hi _⟩
  have hplace : f.offset + i < ORAM_BLOCK_SIZE ∧ ¬ BlockField.iv.Covers (f.offset + i) ∧
      ¬ BlockField.macTag.Covers (f.offset + i) := by
    generalize f.offset + i = p at hfield
    change p < 560 ∧ _
    simp only [List.mem_cons, List.not_mem_nil, or_false] at hf
    simp only [covers_iff] at hfield ⊢
    rcases hf with rfl | rfl | rfl | rfl <;> simp only at hfield <;> omega
  exact memcpy_plaintext hlen hbytes hplace.1 hplace.2.1 hplace.2.2

end

/-! ### A small instance -/

/-- The sum of the bytes. -/
def checksum : ByteString → UInt8
  | [] => 0
  | b :: bs => b + checksum bs

/-- A changed byte changes the sum. -/
theorem checksum_set_ne {bs : ByteString} {i : ℕ} {v : UInt8} (hi : i < bs.length)
    (hv : bs[i]? ≠ some v) : checksum (bs.set i v) ≠ checksum bs := by
  induction bs generalizing i with
  | nil => cases hi
  | cons b bs ih =>
    cases i with
    | zero =>
      rw [List.set_cons_zero, checksum, checksum]
      intro h
      have hsame : v = b := by grind
      exact hv (congrArg some hsame.symm)
    | succ i =>
      rw [List.set_cons_succ, checksum, checksum]
      intro h
      exact ih (Nat.lt_of_succ_lt_succ hi) hv (by grind)

/-- Sixteen bytes, the last of which is the sum of the message. -/
def sumTag (message : ByteString) : ByteString := List.replicate 15 0 ++ [checksum message]

theorem length_sumTag (message : ByteString) : (sumTag message).length = 16 := rfl

/-- A cipher that hides nothing, but notices it when a byte has been changed. -/
def sumCipher : Sodium where
  SecretKey := Unit
  SessionKey := Unit
  kxKeypair := fun _ => some ([], ())
  kxClientSessionKeys := fun _ _ _ => some ((), ())
  kxServerSessionKeys := fun _ _ _ => some ((), ())
  aes256gcmIsAvailable := true
  aes256gcmEncrypt := fun message _ _ => some (message ++ sumTag message)
  aes256gcmDecrypt := fun message _ _ =>
    if message.drop (message.length - 16) = sumTag (message.take (message.length - 16)) then
      some (message.take (message.length - 16))
    else none

theorem sumCipher_inverts : sumCipher.Inverts := by
  intro message iv out key h
  obtain rfl : message ++ sumTag message = out := Option.some.inj h
  constructor
  · rw [List.length_append, length_sumTag, crypto_aead_aes256gcm_ABYTES]
  · simp [sumCipher, length_sumTag]

theorem sumCipher_encrypts : sumCipher.Encrypts () := fun message _ =>
  ⟨_, rfl, by rw [List.length_append, length_sumTag, crypto_aead_aes256gcm_ABYTES]⟩

/-- A byte that is changed in the message or in the tag changes the sum or the tag, but not both. -/
theorem sumCipher_opensIntact (iv message : ByteString) : sumCipher.OpensIntact () iv message := by
  intro out hout
  refine ⟨(sumCipher_inverts hout).2, fun i hi v hv => if_neg ?_⟩
  obtain rfl : message ++ sumTag message = out := Option.some.inj hout
  have hlength : ((message ++ sumTag message).set i v).length - 16 = message.length := by
    rw [List.length_set, List.length_append, length_sumTag, Nat.add_sub_cancel]
  rw [hlength]
  rcases Nat.lt_or_ge i message.length with hlt | hge
  · -- the sum of the message is no longer that of the tag
    rw [List.getElem?_append_left hlt] at hv
    rw [List.set_append_left _ _ hlt, ← List.length_set (i := i) (a := v), List.drop_left,
      List.take_left]
    intro htag
    exact checksum_set_ne hlt hv (List.cons.inj (List.append_cancel_left htag)).1.symm
  · rw [List.getElem?_append_right hge] at hv
    rw [List.set_append_right _ _ hge, List.drop_left, List.take_left]
    intro htag
    rw [List.length_append] at hi
    refine hv ?_
    have hget := congrArg (fun bytes => bytes[i - message.length]?) htag
    rwa [List.getElem?_set_self (by omega), eq_comm] at hget

/-- A block of counting bytes. -/
def countingBlock : Memory := fun p => p.toUInt8

/-- A nonce. -/
def countingNonce : Nonce := ⟨(List.range 12).map Nat.toUInt8, rfl⟩

/-- A cryptor that is set up. -/
def sumCryptor : Cryptor sumCipher := ⟨(), (), [], (), true, true⟩

/-- It is received into a buffer of zeros. -/
theorem decryptBlock_encryptBlock_small :
    ∃ stored received block', encryptBlock sumCryptor countingNonce countingBlock =
        (.ok (), stored) ∧
      convertToBlock (convertToString stored) (fun _ => 0) = (.ok (), received) ∧
      decryptBlock sumCryptor received = (.ok (), block') ∧
      ∀ f ∈ [BlockField.blockId, .type, .dataLen, .data],
        slice block' f.offset f.size = slice countingBlock f.offset f.size := by
  have hrun : encryptBlock sumCryptor countingNonce countingBlock = (.ok (), _) :=
    encryptBlock_eq ⟨rfl, rfl⟩ rfl rfl
      (by rw [List.length_append, plaintext, length_slice, length_sumTag]; rfl)
  obtain ⟨received, block', hsent, hopened, hfields⟩ :=
    decryptBlock_encryptBlock sumCipher_inverts hrun fun _ => 0
  exact ⟨_, received, block', hrun, hsent, hopened, hfields⟩

section

variable {c : Cryptor S} {iv : Nonce} {out : ByteString} {block : Memory}

/-! ## Coverage

Two blocks, two ciphertexts: a byte is encrypted if the stored blocks do not show where
it differs, and it is authenticated if `DecryptBlock` notices that it was changed. For
the four last bytes of `data` it is neither. -/

/-- Side by side, two stored blocks show whether `data` ends in the same four bytes. -/
theorem sealedBlock_agree_iff {block' : Memory} {out' : ByteString}
    (hlen : out.length = encSize + crypto_aead_aes256gcm_ABYTES)
    (hlen' : out'.length = encSize + crypto_aead_aes256gcm_ABYTES)
    (hid : ∀ p, BlockField.blockId.Covers p → block p = block' p) :
    (∀ p, p < ORAM_BLOCK_SIZE → ¬ BlockField.macTag.Covers p → ¬ InCiphertext p →
      sealedBlock iv out block p = sealedBlock iv out' block' p) ↔
    ∀ p, Uncovered p → block p = block' p := by
  constructor
  · intro hagree p hp
    rw [uncovered_iff] at hp
    have hiv : ¬ BlockField.iv.Covers p := by
      rw [covers_iff]
      omega
    have htag : ¬ BlockField.macTag.Covers p := by
      rw [covers_iff]
      omega
    have hin : ¬ InCiphertext p := by
      rw [inCiphertext_iff]
      omega
    have hstored := hagree p hp.2 htag hin
    rwa [sealedBlock_outside hlen hiv htag hin, sealedBlock_outside hlen' hiv htag hin] at hstored
  · intro hagree p hsize htag hin
    by_cases hiv : BlockField.iv.Covers p
    · exact Option.some.inj ((sealedBlock_of_nonce hiv).symm.trans (sealedBlock_of_nonce hiv))
    · rw [sealedBlock_outside hlen hiv htag hin, sealedBlock_outside hlen' hiv htag hin]
      by_cases hfield : BlockField.blockId.Covers p
      · exact hid p hfield
      · refine hagree p ?_
        change p < 560 at hsize
        rw [covers_iff] at hiv htag hfield
        rw [inCiphertext_iff] at hin
        rw [uncovered_iff]
        simp only at hiv htag hfield
        omega

/-- Changing a byte of the ciphertext changes this byte of what the cipher gets. -/
theorem encData_update_ciphertext {i : ℕ} (hi : i < encSize) (v : UInt8) :
    encData (Function.update block (DEFAULT_ORAM_ENCSKIP_SIZE + i) v) =
      (encData block).set i v := by
  have hciphertext : slice (Function.update block (DEFAULT_ORAM_ENCSKIP_SIZE + i) v)
      DEFAULT_ORAM_ENCSKIP_SIZE encSize =
      (slice block DEFAULT_ORAM_ENCSKIP_SIZE encSize).set i v := by
    refine List.ext_getElem? fun k => ?_
    by_cases hk : k < encSize
    · rw [getElem?_slice hk, List.getElem?_set, length_slice]
      by_cases he : i = k
      · subst he
        rw [if_pos rfl, if_pos hi, Function.update_self]
      · rw [if_neg he, getElem?_slice hk,
          Function.update_of_ne fun h => he (Nat.add_left_cancel h).symm]
    · rw [List.getElem?_eq_none, List.getElem?_eq_none]
      · rw [List.length_set, length_slice]
        exact Nat.not_lt.mp hk
      · rw [length_slice]
        exact Nat.not_lt.mp hk
  have htag : slice (Function.update block (DEFAULT_ORAM_ENCSKIP_SIZE + i) v)
      BlockField.macTag.offset crypto_aead_aes256gcm_ABYTES =
      slice block BlockField.macTag.offset crypto_aead_aes256gcm_ABYTES := by
    refine slice_congr fun k hk => Function.update_of_ne ?_ _ _
    change k < 16 at hk
    change 12 + k ≠ 32 + i
    omega
  rw [encData, encData, hciphertext, htag, List.set_append_left _ _ (by rwa [length_slice])]

/-- Changing a byte behind it does not. -/
theorem encData_update_eq {p : ℕ} (hp : Uncovered p) (v : UInt8) :
    encData (Function.update block p v) = encData block := by
  rw [uncovered_iff] at hp
  have hfirst : slice (Function.update block p v) DEFAULT_ORAM_ENCSKIP_SIZE encSize =
      slice block DEFAULT_ORAM_ENCSKIP_SIZE encSize := by
    refine slice_congr fun i hi => Function.update_of_ne ?_ _ _
    change i < 524 at hi
    change 32 + i ≠ p
    omega
  have hsecond : slice (Function.update block p v) BlockField.macTag.offset
      crypto_aead_aes256gcm_ABYTES =
      slice block BlockField.macTag.offset crypto_aead_aes256gcm_ABYTES := by
    refine slice_congr fun i hi => Function.update_of_ne ?_ _ _
    change i < 16 at hi
    change 12 + i ≠ p
    omega
  rw [encData, encData, hfirst, hsecond]

/-- A byte behind the nonce does not change it. -/
theorem slice_iv_update (block : Memory) {p : ℕ} (hp : 12 ≤ p) (v : UInt8) :
    slice (Function.update block p v) BlockField.iv.offset ORAM_CRYPTO_RANDOM_SIZE =
      slice block BlockField.iv.offset ORAM_CRYPTO_RANDOM_SIZE := by
  refine slice_congr fun i hi => Function.update_of_ne ?_ _ _
  change i < 12 at hi
  change 0 + i ≠ p
  omega

/-- A changed byte is noticed unless it is one of the last four. -/
theorem decryptBlock_update_iff (hc : c.Ready) (hsetup : c.isSetup = true)
    (hlen : out.length = encSize + crypto_aead_aes256gcm_ABYTES)
    (hout : S.aes256gcmEncrypt (plaintext block) iv.bytes c.sessionKeyRx = some out)
    (hopens : S.OpensIntact c.sessionKeyRx iv.bytes (plaintext block)) {p : ℕ}
    (hp : InCiphertext p ∨ Uncovered p) {v : UInt8} (hv : v ≠ sealedBlock iv out block p) :
    (∃ st stored, decryptBlock c (Function.update (sealedBlock iv out block) p v) =
      (.error (.status st), stored)) ↔ ¬ Uncovered p := by
  obtain ⟨hopen, hreject⟩ := hopens out hout
  have hbound : 12 ≤ p := by
    rw [inCiphertext_iff, uncovered_iff] at hp
    omega
  have hiv := (slice_iv_update (sealedBlock iv out block) hbound v).trans
    (slice_iv_sealedBlock iv out block)
  rcases hp with hin | hout'
  · obtain ⟨i, rfl⟩ := Nat.exists_eq_add_of_le hin.1
    have hi : i < encSize := Nat.lt_of_add_lt_add_left hin.2
    have hstored : encData (sealedBlock iv out block) = out := encData_sealedBlock iv block hlen
    have hbyte : out[i]? = some (sealedBlock iv out block (DEFAULT_ORAM_ENCSKIP_SIZE + i)) := by
      have hget : (encData (sealedBlock iv out block))[i]? =
          some (sealedBlock iv out block (DEFAULT_ORAM_ENCSKIP_SIZE + i)) := by
        rw [encData, List.getElem?_append_left (by rwa [length_slice]), getElem?_slice hi]
      rwa [hstored] at hget
    have hnone := hreject i (by rw [hlen]; omega) v fun h =>
      hv (Option.some.inj (h.symm.trans hbyte))
    rw [← hstored, ← encData_update_ciphertext hi, ← hiv] at hnone
    obtain ⟨st, hrun⟩ := decryptBlock_rejects hc hsetup hnone
    refine iff_of_true ⟨st, _, hrun⟩ ?_
    rw [inCiphertext_iff] at hin
    rw [uncovered_iff]
    omega
  · refine iff_of_false ?_ (not_not.mpr hout')
    rw [← encData_sealedBlock iv block hlen,
      ← encData_update_eq hout' v, ← hiv] at hopen
    rintro ⟨st, stored, hrun⟩
    cases (decryptBlock_opens hc hsetup hopen).symm.trans hrun

/-- **What `EncryptBlock` covers.** Two blocks of one id look the same outside of ciphertext and
tag exactly if their last four bytes of `data` agree; and a change of a byte of the secret fields
makes `DecryptBlock` fail exactly if it is not one of these four. -/
theorem encryptBlock_covers_iff (hc : c.Ready) (hsetup : c.isSetup = true)
    (hencrypts : S.Encrypts c.sessionKeyRx) {block' : Memory}
    (hid : ∀ p, BlockField.blockId.Covers p → block p = block' p)
    (hopens : S.OpensIntact c.sessionKeyRx iv.bytes (plaintext block)) :
    ∃ stored stored', encryptBlock c iv block = (.ok (), stored) ∧
      encryptBlock c iv block' = (.ok (), stored') ∧
      ((∀ p, p < ORAM_BLOCK_SIZE → ¬ BlockField.macTag.Covers p → ¬ InCiphertext p →
        stored p = stored' p) ↔ ∀ p, Uncovered p → block p = block' p) ∧
      ∀ f p v, (f = BlockField.type ∨ f = .dataLen ∨ f = .data) → f.Covers p → v ≠ stored p →
        ((∃ st after, decryptBlock c (Function.update stored p v) = (.error (.status st), after)) ↔
          ¬ Uncovered p) := by
  obtain ⟨out, hout, hlen, hrun⟩ := encryptBlock_ok hc hsetup hencrypts iv block
  obtain ⟨out', -, hlen', hrun'⟩ := encryptBlock_ok hc hsetup hencrypts iv block'
  refine ⟨_, _, hrun, hrun', sealedBlock_agree_iff hlen hlen' hid, fun f p v hf hp hv => ?_⟩
  refine decryptBlock_update_iff hc hsetup hlen hout hopens ?_ hv
  rw [covers_iff] at hp
  rw [inCiphertext_iff, uncovered_iff]
  rcases hf with rfl | rfl | rfl <;> simp only at hp <;> omega

end

/-- The same block but for `data[511]`. -/
def lastByteBlock : Memory := fun p => if p = 559 then 0 else countingBlock p

theorem blockId_lastByteBlock :
    ∀ p, BlockField.blockId.Covers p → countingBlock p = lastByteBlock p := by
  intro p hp
  rw [covers_iff] at hp
  exact (if_neg (by simp only at hp; omega)).symm

/-- Two blocks that differ in `data[511]` only. -/
theorem encryptBlock_covers_small :
    ∃ stored stored', encryptBlock sumCryptor countingNonce countingBlock = (.ok (), stored) ∧
      encryptBlock sumCryptor countingNonce lastByteBlock = (.ok (), stored') ∧
      ((∀ p, p < ORAM_BLOCK_SIZE → ¬ BlockField.macTag.Covers p → ¬ InCiphertext p →
        stored p = stored' p) ↔ ∀ p, Uncovered p → countingBlock p = lastByteBlock p) ∧
      ∀ f p v, (f = BlockField.type ∨ f = .dataLen ∨ f = .data) → f.Covers p → v ≠ stored p →
        ((∃ st after, decryptBlock sumCryptor (Function.update stored p v) =
          (.error (.status st), after)) ↔ ¬ Uncovered p) :=
  encryptBlock_covers_iff ⟨rfl, rfl⟩ rfl sumCipher_encrypts blockId_lastByteBlock
    (sumCipher_opensIntact _ _)

/-- Two blocks that differ in `data[511]` only, and are stored differently there. -/
theorem encryptBlock_leaves_uncovered :
    ¬ ∀ stored stored', encryptBlock sumCryptor countingNonce countingBlock = (.ok (), stored) →
      encryptBlock sumCryptor countingNonce lastByteBlock = (.ok (), stored') →
      ∀ p, p < ORAM_BLOCK_SIZE → ¬ BlockField.macTag.Covers p → ¬ InCiphertext p →
        stored p = stored' p := by
  intro hall
  have hready : sumCryptor.Ready := ⟨rfl, rfl⟩
  obtain ⟨out, -, hlen, hrun⟩ :=
    encryptBlock_ok hready rfl sumCipher_encrypts countingNonce countingBlock
  obtain ⟨out', -, hlen', hrun'⟩ :=
    encryptBlock_ok hready rfl sumCipher_encrypts countingNonce lastByteBlock
  have hagree := (sealedBlock_agree_iff hlen hlen' blockId_lastByteBlock).mp
    (hall _ _ hrun hrun') 559 ((uncovered_iff _).mpr (by decide))
  exact absurd hagree (by decide)

end ObliviousRam
