import ObliviousRam.OramServer

set_option autoImplicit false

/-!
# Key exchange

`Cryptor` (`base/oram_crypto.cc`), with what the two sides do to get a session
key: `KeyNegotiate` on the client, `KeyExchange` and `SendHello` on the server.

* `Sodium` — the functions of libsodium that the cryptor calls, and in
  `Sodium.Lawful` what it relies on.
* `Delivers` — what one cryptor encrypts the other one decrypts. As both
  directions go through `session_key_rx_`, that is equality of the receiving
  keys (`delivers_iff`), and a key exchange makes them different.
* `OramService.lastKeys` — the server has one cryptor, and each exchange that goes
  through replaces its session keys, whoever asked for it.
-/

namespace ObliviousRam

/-- What the cryptor calls of libsodium. `none` is a return value other than 0;
a draw is what the random generator puts into a secret key. -/
structure Sodium where
  SecretKey : Type
  SessionKey : Type
  /-- `crypto_kx_keypair`: the public key and the secret key -/
  kxKeypair : (draw : ℕ) → Option (ByteString × SecretKey)
  /-- `crypto_kx_client_session_keys`: the keys to receive and to send with -/
  kxClientSessionKeys : ByteString → SecretKey → (peer : ByteString) →
    Option (SessionKey × SessionKey)
  /-- `crypto_kx_server_session_keys` -/
  kxServerSessionKeys : ByteString → SecretKey → (peer : ByteString) →
    Option (SessionKey × SessionKey)
  aes256gcmIsAvailable : Bool
  aes256gcmEncrypt : (message iv : ByteString) → SessionKey → Option ByteString
  aes256gcmDecrypt : (message iv : ByteString) → SessionKey → Option ByteString

/-- `crypto_kx_PUBLICKEYBYTES`. -/
def crypto_kx_PUBLICKEYBYTES : ℕ := 32

/-- `crypto_aead_aes256gcm_ABYTES`. -/
def crypto_aead_aes256gcm_ABYTES : ℕ := 16

/-- What libsodium promises. -/
structure Sodium.Lawful (S : Sodium) : Prop where
  keypair : ∀ draw, ∃ pair, S.kxKeypair draw = some pair
  /-- the two sides of one exchange have the same keys, the other way round -/
  agree : ∀ {draw draw' pk sk pk' sk'} {rx tx : S.SessionKey},
    S.kxKeypair draw = some (pk, sk) → S.kxKeypair draw' = some (pk', sk') →
    S.kxClientSessionKeys pk sk pk' = some (rx, tx) →
    S.kxServerSessionKeys pk' sk' pk = some (tx, rx)
  distinct : ∀ {pk sk peer} {rx tx : S.SessionKey},
    S.kxClientSessionKeys pk sk peer = some (rx, tx) → rx ≠ tx
  roundtrip : ∀ message iv key, ∃ out, S.aes256gcmEncrypt message iv key = some out ∧
    crypto_aead_aes256gcm_ABYTES ≤ out.length ∧ S.aes256gcmDecrypt out iv key = some message
  /-- a message decrypts only under the key that encrypted it -/
  authentic : ∀ {message iv key out key' message'}, S.aes256gcmEncrypt message iv key = some out →
    S.aes256gcmDecrypt out iv key' = some message' → key' = key

/-- `Cryptor`, without the random value of `Digest`. -/
structure Cryptor (S : Sodium) where
  sessionKeyRx : S.SessionKey
  sessionKeyTx : S.SessionKey
  publicKey : ByteString
  secretKey : S.SecretKey
  isInitialized : Bool
  isSetup : Bool

namespace Cryptor

variable {S : Sodium}

/-- `PANIC_IF`. -/
def panicIf {σ : Type} (cond : Bool) (reason : String) : Prog Exit σ Unit :=
  if cond then Prog.throw (.abort reason) else pure ()

/-- `CryptoPrelogue`. -/
def cryptoPrelogue : Prog Exit (Cryptor S) Unit := do
  let c ← Prog.get
  panicIf (!c.isInitialized) "Cryptor is not initialized."
  panicIf (!S.aes256gcmIsAvailable) "AES-256-GCM is not available on this CPU."

/-- `Encrypt`. -/
def encrypt (message iv : ByteString) : Prog Exit (Cryptor S) ByteString := do
  cryptoPrelogue
  let c ← Prog.get
  panicIf (!c.isSetup) "Cryptor is not yet correctly set up."
  match S.aes256gcmEncrypt message iv c.sessionKeyRx with
  | some out => pure out
  | none => fail .kUnknownError ("Libsodium cannot encrypt the block! Maybe the buffer " ++
      "is truncated or corrupted.") ""

/-- `Decrypt`. Its callers leave `out` alone if the status is not `OK`. -/
def decrypt (message iv : ByteString) : Prog Exit (Cryptor S) ByteString := do
  cryptoPrelogue
  let c ← Prog.get
  panicIf (!c.isSetup) "Cryptor is not yet correctly set up."
  if message.length < crypto_aead_aes256gcm_ABYTES then
    fail .kInvalidArgument "The length of the message is too short" "Decrypt"
  else match S.aes256gcmDecrypt message iv c.sessionKeyRx with
    | some out => pure out
    | none => fail .kUnknownError ("Libsodium cannot decrypt the block! Maybe the buffer " ++
        "is truncated or corrupted.") ""

/-- `SampleKeyPair`. -/
def sampleKeyPair (draw : ℕ) : Prog Exit (Cryptor S) Unit := do
  cryptoPrelogue
  match S.kxKeypair draw with
  | some (pk, sk) => Prog.modify fun c => { c with publicKey := pk, secretKey := sk }
  | none => fail .kUnknownError ("Libsodium cannot sample the key pair! Maybe the buffer " ++
      "is truncated or corrupted.") ""

/-- The keys that `SampleSessionKey` computes: `type` is false for the client. -/
def kxSessionKeys (c : Cryptor S) (peerPk : ByteString) (type : Bool) :
    Option (S.SessionKey × S.SessionKey) :=
  if type then S.kxServerSessionKeys c.publicKey c.secretKey peerPk
  else S.kxClientSessionKeys c.publicKey c.secretKey peerPk

/-- `SampleSessionKey`. -/
def sampleSessionKey (peerPk : ByteString) (type : Bool) : Prog Exit (Cryptor S) Unit := do
  cryptoPrelogue
  let c ← Prog.get
  if peerPk.length ≠ crypto_kx_PUBLICKEYBYTES then
    fail .kInvalidArgument "The length of the peer's public key is not correct." ""
  else match c.kxSessionKeys peerPk type with
    | some (rx, tx) => Prog.modify fun c =>
        { c with sessionKeyRx := rx, sessionKeyTx := tx, isSetup := true }
    | none => fail .kUnknownError ("Libsodium cannot sample the session key! Maybe the buffer " ++
        "is truncated or corrupted.") ""

/-- `GetKeyPair`. -/
def getKeyPair : Prog Exit (Cryptor S) (ByteString × S.SecretKey) := do
  let c ← Prog.get
  panicIf (!c.isInitialized) "Cryptor is not initialized."
  pure (c.publicKey, c.secretKey)

/-! ### What they do -/

/-- The cryptor can be used at all. -/
def Ready (c : Cryptor S) : Prop := c.isInitialized = true ∧ S.aes256gcmIsAvailable = true

/-- With AES available and the library initialised the prelogue does nothing. -/
theorem cryptoPrelogue_ready {c : Cryptor S} (hc : c.Ready) : cryptoPrelogue c = (.ok (), c) := by
  simp only [cryptoPrelogue, panicIf, Prog.get_bind, hc.1, hc.2, Bool.not_true,
    Bool.false_eq_true, if_false, Prog.pure_bind, Prog.pure_apply]

/-- Without them it ends the process. -/
theorem cryptoPrelogue_not_ready {c : Cryptor S} (hc : ¬c.Ready) :
    ∃ why, cryptoPrelogue c = (.error (.abort why), c) := by
  cases hinit : c.isInitialized with
  | false =>
    refine ⟨"Cryptor is not initialized.", ?_⟩
    simp only [cryptoPrelogue, panicIf, Prog.get_bind, hinit, Bool.not_false, if_true,
      Prog.throw_bind, Prog.throw_apply]
  | true =>
    have haes : S.aes256gcmIsAvailable = false := Bool.eq_false_iff.mpr fun h => hc ⟨hinit, h⟩
    refine ⟨"AES-256-GCM is not available on this CPU.", ?_⟩
    simp only [cryptoPrelogue, panicIf, Prog.get_bind, hinit, haes, Bool.not_true,
      Bool.false_eq_true, if_false, Prog.pure_bind, Bool.not_false, if_true, Prog.throw_apply]

/-- Inversion: what returns past the prelogue was called on a cryptor in order. -/
theorem ready_of_prelogue_bind {α : Type} {m : Prog Exit (Cryptor S) α} {c c' : Cryptor S} {a : α}
    (h : (cryptoPrelogue >>= fun _ => m) c = (.ok a, c')) : c.Ready := by
  by_contra hc
  obtain ⟨why, habort⟩ := cryptoPrelogue_not_ready hc
  cases (Prog.bind_error habort).symm.trans h

theorem prelogue_bind_ready {α : Type} {m : Prog Exit (Cryptor S) α} {c : Cryptor S}
    (hc : c.Ready) : (cryptoPrelogue >>= fun _ => m) c = m c :=
  Prog.bind_ok (cryptoPrelogue_ready hc)

/-- A key pair is drawn and stored. -/
theorem sampleKeyPair_ready (hS : S.Lawful) {c : Cryptor S} (hc : c.Ready) (draw : ℕ) :
    ∃ pk sk, S.kxKeypair draw = some (pk, sk) ∧
      sampleKeyPair draw c = (.ok (), { c with publicKey := pk, secretKey := sk }) := by
  obtain ⟨⟨pk, sk⟩, hpair⟩ := hS.keypair draw
  refine ⟨pk, sk, hpair, ?_⟩
  rw [sampleKeyPair, prelogue_bind_ready hc, hpair]
  rfl

/-- The session key is computed for a key of the right length, or the session
keys stay as they are. -/
theorem sampleSessionKey_ready {c : Cryptor S} (hc : c.Ready) (peerPk : ByteString) (type : Bool) :
    (∃ rx tx, peerPk.length = crypto_kx_PUBLICKEYBYTES ∧
      c.kxSessionKeys peerPk type = some (rx, tx) ∧
      sampleSessionKey peerPk type c =
        (.ok (), { c with sessionKeyRx := rx, sessionKeyTx := tx, isSetup := true })) ∨
    ¬(peerPk.length = crypto_kx_PUBLICKEYBYTES ∧ ∃ keys, c.kxSessionKeys peerPk type = some keys) ∧
      ∃ st, sampleSessionKey peerPk type c = (.error (.status st), c) := by
  rw [sampleSessionKey, prelogue_bind_ready hc, Prog.get_bind]
  by_cases hlen : peerPk.length = crypto_kx_PUBLICKEYBYTES
  · rw [if_neg (not_not.mpr hlen)]
    cases hkeys : c.kxSessionKeys peerPk type with
    | none => exact .inr ⟨fun ⟨_, _, hk⟩ => (nomatch hk), _, rfl⟩
    | some keys => exact .inl ⟨keys.1, keys.2, hlen, rfl, rfl⟩
  · rw [if_pos hlen]
    exact .inr ⟨fun h => hlen h.1, _, rfl⟩

/-- The pair is handed out, secret key included. -/
theorem getKeyPair_ready {c : Cryptor S} (hc : c.Ready) :
    getKeyPair c = (.ok (c.publicKey, c.secretKey), c) := by
  simp only [getKeyPair, panicIf, Prog.get_bind, hc.1, Bool.not_true, Bool.false_eq_true,
    if_false, Prog.pure_bind, Prog.pure_apply]

/-- `Encrypt` seals with the receiving key. -/
theorem encrypt_ready {c : Cryptor S} (hc : c.Ready) (hsetup : c.isSetup = true)
    {message iv out : ByteString} (hout : S.aes256gcmEncrypt message iv c.sessionKeyRx = some out) :
    encrypt message iv c = (.ok out, c) := by
  rw [encrypt, prelogue_bind_ready hc, Prog.get_bind]
  simp only [panicIf, hsetup, Bool.not_true, Bool.false_eq_true, if_false, Prog.pure_bind, hout,
    Prog.pure_apply]

/-- Inversion of `Encrypt`. -/
theorem encrypt_ok {c c' : Cryptor S} {message iv out : ByteString}
    (h : encrypt message iv c = (.ok out, c')) :
    c.Ready ∧ c.isSetup = true ∧ S.aes256gcmEncrypt message iv c.sessionKeyRx = some out := by
  have hc : c.Ready := ready_of_prelogue_bind h
  rw [encrypt, prelogue_bind_ready hc, Prog.get_bind] at h
  cases hsetup : c.isSetup with
  | false =>
    simp only [panicIf, hsetup, Bool.not_false, if_true, Prog.throw_bind, Prog.throw_apply] at h
    cases h
  | true =>
    simp only [panicIf, hsetup, Bool.not_true, Bool.false_eq_true, if_false, Prog.pure_bind] at h
    cases hout : S.aes256gcmEncrypt message iv c.sessionKeyRx with
    | none =>
      rw [hout] at h
      cases h
    | some out' =>
      rw [hout] at h
      cases h
      exact ⟨hc, rfl, rfl⟩

/-- `Decrypt` opens with the receiving key. -/
theorem decrypt_ready {c : Cryptor S} (hc : c.Ready) (hsetup : c.isSetup = true)
    {message : ByteString} (hlen : crypto_aead_aes256gcm_ABYTES ≤ message.length)
    (iv : ByteString) :
    (∃ out, S.aes256gcmDecrypt message iv c.sessionKeyRx = some out ∧
      decrypt message iv c = (.ok out, c)) ∨
    S.aes256gcmDecrypt message iv c.sessionKeyRx = none ∧
      decrypt message iv c = (.error (.status (.make .kUnknownError
        ("Libsodium cannot decrypt the block! Maybe the buffer " ++
          "is truncated or corrupted.") "")), c) := by
  rw [decrypt, prelogue_bind_ready hc, Prog.get_bind]
  simp only [panicIf, hsetup, Bool.not_true, Bool.false_eq_true, if_false, Prog.pure_bind,
    Nat.not_lt.mpr hlen]
  cases hout : S.aes256gcmDecrypt message iv c.sessionKeyRx with
  | none => exact .inr ⟨rfl, rfl⟩
  | some out => exact .inl ⟨out, rfl, rfl⟩

end Cryptor

/-! ## Two cryptors -/

section

variable {S : Sodium}

/-- The receiver decrypts what the sender has encrypted. -/
def Delivers (sender receiver : Cryptor S) (message iv : ByteString) : Prop :=
  ∃ out, Cryptor.encrypt message iv sender = (.ok out, sender) ∧
    Cryptor.decrypt out iv receiver = (.ok message, receiver)

/-- Every message gets through in both directions. -/
def Usable (client server : Cryptor S) : Prop :=
  ∀ message iv, Delivers client server message iv ∧ Delivers server client message iv

/-- **Both sides take their receiving key for both directions.** -/
theorem delivers_iff (hS : S.Lawful) (sender receiver : Cryptor S) (hsender : sender.Ready)
    (hreceiver : receiver.Ready) (hsetup : sender.isSetup = true)
    (hsetup' : receiver.isSetup = true) (message iv : ByteString) :
    Delivers sender receiver message iv ↔ receiver.sessionKeyRx = sender.sessionKeyRx := by
  obtain ⟨out, hout, hlen, hback⟩ := hS.roundtrip message iv sender.sessionKeyRx
  have henc := Cryptor.encrypt_ready hsender hsetup hout
  constructor
  · rintro ⟨out', henc', hdec⟩
    cases henc.symm.trans henc'
    obtain ⟨m, hm, -⟩ | ⟨-, hrefused⟩ := Cryptor.decrypt_ready hreceiver hsetup' hlen iv
    · exact hS.authentic hout hm
    · cases hrefused.symm.trans hdec
  · intro hkey
    refine ⟨out, henc, ?_⟩
    obtain ⟨m, hm, hdec⟩ | ⟨hm, -⟩ := Cryptor.decrypt_ready hreceiver hsetup' hlen iv
    · rw [hkey] at hm
      cases hback.symm.trans hm
      exact hdec
    · rw [hkey] at hm
      cases hback.symm.trans hm

end

/-! ## The server

The server keeps one cryptor for everybody. An exchange makes a key pair and replaces
the session keys, so of several clients the last one has the keys. -/

namespace OramService

variable {S : Sodium}

/-- `KeyExchange`: the public key of the server, for one of a client. -/
def keyExchange (draw : ℕ) (publicKeyClient : ByteString) :
    Prog HandlerExit (Cryptor S) ByteString := do
  Prog.mapError (HandlerExit.ofExit "Failed to sample key pair: \n") (Cryptor.sampleKeyPair draw)
  Prog.mapError (HandlerExit.ofExit "Failed to sample session key: \n")
    (Cryptor.sampleSessionKey publicKeyClient true)
  let keyPair ← Prog.mapError (HandlerExit.ofExit "") Cryptor.getKeyPair
  pure keyPair.1

/-- `SendHello`. -/
def sendHello (content iv : ByteString) : Prog HandlerExit (Cryptor S) Unit := do
  let _ ← Prog.mapError (HandlerExit.ofExit "Failed to verify Hello message: \n")
    (Cryptor.decrypt content iv)
  pure ()

/-- What an exchange computes for the server, if it goes through. -/
def exchangedKeys (S : Sodium) (draw : ℕ) (publicKeyClient : ByteString) :
    Option (S.SessionKey × S.SessionKey) := do
  let pair ← S.kxKeypair draw
  if publicKeyClient.length = crypto_kx_PUBLICKEYBYTES then
    S.kxServerSessionKeys pair.1 pair.2 publicKeyClient
  else none

/-- **One key exchange on the server.** If it does not go through, the session
keys of the one before stay. -/
theorem keyExchange_ready (hS : S.Lawful) {s : Cryptor S} (hs : s.Ready) (draw : ℕ)
    (publicKeyClient : ByteString) :
    (∃ pk sk rx tx, S.kxKeypair draw = some (pk, sk) ∧
      S.kxServerSessionKeys pk sk publicKeyClient = some (rx, tx) ∧
      exchangedKeys S draw publicKeyClient = some (rx, tx) ∧
      keyExchange draw publicKeyClient s = (.ok pk, ⟨rx, tx, pk, sk, s.isInitialized, true⟩)) ∨
    exchangedKeys S draw publicKeyClient = none ∧
      ∃ pk sk st, keyExchange draw publicKeyClient s =
        (.error (.status st), { s with publicKey := pk, secretKey := sk }) := by
  obtain ⟨pk, sk, hpair, hsample⟩ := Cryptor.sampleKeyPair_ready hS hs draw
  have hready : ({ s with publicKey := pk, secretKey := sk } : Cryptor S).Ready := hs
  have hkeys : exchangedKeys S draw publicKeyClient =
      if publicKeyClient.length = crypto_kx_PUBLICKEYBYTES then
        S.kxServerSessionKeys pk sk publicKeyClient else none := by
    rw [exchangedKeys, hpair]
    rfl
  rw [hkeys, keyExchange, Prog.bind_ok (Prog.mapError_ok hsample)]
  obtain ⟨rx, tx, hlen, hsession, hcall⟩ | ⟨hnone, st, hcall⟩ :=
    Cryptor.sampleSessionKey_ready hready publicKeyClient true
  · left
    have hready' : (⟨rx, tx, pk, sk, s.isInitialized, true⟩ : Cryptor S).Ready := hs
    refine ⟨pk, sk, rx, tx, hpair, hsession, by rw [if_pos hlen]; exact hsession, ?_⟩
    rw [Prog.bind_ok (Prog.mapError_ok hcall),
      Prog.bind_ok (Prog.mapError_ok (Cryptor.getKeyPair_ready hready'))]
    rfl
  · right
    constructor
    · split
      next hlen =>
        rw [← Option.not_isSome_iff_eq_none, Option.isSome_iff_exists]
        exact fun hsome => hnone ⟨hlen, hsome⟩
      next => rfl
    · exact ⟨pk, sk, _, Prog.bind_error (Prog.mapError_error hcall)⟩

/-- Only a cryptor in order answers. -/
theorem ready_of_keyExchange {s s' : Cryptor S} {draw : ℕ} {publicKeyClient pk : ByteString}
    (h : keyExchange draw publicKeyClient s = (.ok pk, s')) : s.Ready := by
  obtain ⟨_, s₁, hsample, -⟩ := Prog.bind_eq_ok h
  exact Cryptor.ready_of_prelogue_bind (Prog.mapError_eq_ok hsample)

/-- `SendHello` is `Decrypt`, with a status of its own. -/
theorem sendHello_refuses {s : Cryptor S} {content iv : ByteString} {st : OramStatus}
    (h : Cryptor.decrypt content iv s = (.error (.status st), s)) :
    sendHello content iv s =
      (.error (.status ⟨.internal, "Failed to verify Hello message: \n"⟩), s) :=
  Prog.bind_error (Prog.mapError_error h)

/-- The session keys of the last exchange that goes through, or those from before. -/
def lastKeys (S : Sodium) : List (ℕ × ByteString) → S.SessionKey × S.SessionKey →
    S.SessionKey × S.SessionKey
  | [], keys => keys
  | x :: xs, keys => lastKeys S xs ((exchangedKeys S x.1 x.2).getD keys)

end OramService

/-! ## The negotiation

The client draws a pair, sends its public half, and computes its session keys from the
answer. libsodium gives the two sides a key for each direction: what one receives with,
the other sends with. The cryptor receives and sends with one and the same. -/

/-- A client's cryptor together with the state its stub talks to. -/
structure KeySystem (S : Sodium) (σ : Type) where
  client : Cryptor S
  server : σ

namespace OramController

variable {S : Sodium} {σ : Type}

/-- A call of the client's cryptor. -/
def onCryptor {α : Type} (m : Prog Exit (Cryptor S) α) : Prog Exit (KeySystem S σ) α :=
  Prog.zoom KeySystem.client (fun c w => { w with client := c }) m

theorem onCryptor_eq {α : Type} {m : Prog Exit (Cryptor S) α} {w : KeySystem S σ} {c : Cryptor S}
    {r : Except Exit α} (h : m w.client = (r, c)) :
    onCryptor m w = (r, { w with client := c }) := Prog.zoom_eq h

/-- A call whose status is not looked at. -/
def ignoreStatus (m : Prog Exit (Cryptor S) Unit) : Prog Exit (Cryptor S) Unit := fun c =>
  match m c with
  | (.error (.status _), c') => (.ok (), c')
  | r => r

/-- `KeyNegotiate`, over a stub for `KeyExchange`. -/
def keyNegotiate (keyExchange : ByteString → Prog String σ ByteString) (draw : ℕ) :
    Prog Exit (KeySystem S σ) Unit := do
  onCryptor (ignoreStatus (Cryptor.sampleKeyPair draw))
  let keyPair ← onCryptor Cryptor.getKeyPair
  let publicKeyServer ← fun w =>
    match keyExchange keyPair.1 w.server with
    | (.ok response, server) => (.ok response, { w with server := server })
    | (.error msg, server) => fail .kServerError msg "KeyNegotiate" { w with server := server }
  onCryptor (Cryptor.sampleSessionKey publicKeyServer false)

/-- The stub of a client whose `KeyExchange` reaches the server. -/
def keyStub (draw : ℕ) (publicKeyClient : ByteString) : Prog String (Cryptor S) ByteString :=
  Prog.mapError (fun e => match e with
    | .status st => st.errorMessage
    | _ => "Socket closed") (OramService.keyExchange draw publicKeyClient)

theorem ready_of_keyNegotiate {keyExchange : ByteString → Prog String σ ByteString} {draw : ℕ}
    {w w' : KeySystem S σ} (h : keyNegotiate keyExchange draw w = (.ok (), w')) :
    w.client.Ready := by
  by_contra hc
  obtain ⟨why, habort⟩ := Cryptor.cryptoPrelogue_not_ready hc
  have hsample : Cryptor.sampleKeyPair draw w.client = (.error (.abort why), w.client) :=
    Prog.bind_error habort
  have hcall : onCryptor (ignoreStatus (Cryptor.sampleKeyPair draw)) w =
      (.error (.abort why), w) := by
    refine onCryptor_eq (c := w.client) ?_
    rw [ignoreStatus, hsample]
  cases (Prog.bind_error hcall).symm.trans h

/-- **A negotiation that went through.** The client has the keys that belong to
its own new pair and the public key in the answer. -/
theorem keyNegotiate_eq_ok (hS : S.Lawful) {keyExchange : ByteString → Prog String σ ByteString}
    {draw : ℕ} {w w' : KeySystem S σ} (h : keyNegotiate keyExchange draw w = (.ok (), w')) :
    ∃ pk sk pkServer rx tx, S.kxKeypair draw = some (pk, sk) ∧
      keyExchange pk w.server = (.ok pkServer, w'.server) ∧
      S.kxClientSessionKeys pk sk pkServer = some (rx, tx) ∧
      w'.client = ⟨rx, tx, pk, sk, w.client.isInitialized, true⟩ := by
  have hready := ready_of_keyNegotiate h
  obtain ⟨pk, sk, hpair, hsample⟩ := Cryptor.sampleKeyPair_ready hS hready draw
  -- the new pair, and its public half for the request
  have hcall : onCryptor (ignoreStatus (Cryptor.sampleKeyPair draw)) w =
      (.ok (), { w with client := { w.client with publicKey := pk, secretKey := sk } }) := by
    refine onCryptor_eq (c := { w.client with publicKey := pk, secretKey := sk }) ?_
    rw [ignoreStatus, hsample]
  have hpk : onCryptor (σ := σ) Cryptor.getKeyPair
      { w with client := { w.client with publicKey := pk, secretKey := sk } } =
        (.ok (pk, sk), { w with client := { w.client with publicKey := pk, secretKey := sk } }) :=
    onCryptor_eq (Cryptor.getKeyPair_ready (c := { w.client with publicKey := pk, secretKey := sk })
      hready)
  rw [keyNegotiate, Prog.bind_ok hcall, Prog.bind_ok hpk] at h
  obtain ⟨pkServer, w₁, hremote, hsession⟩ := Prog.bind_eq_ok h
  rcases hexchange : keyExchange pk w.server with ⟨msg | response, server⟩
  · simp only [hexchange, fail_apply] at hremote
    cases hremote
  · simp only [hexchange] at hremote
    cases hremote
    obtain ⟨rx, tx, -, hkeys, hdone⟩ | ⟨-, st, hrefused⟩ := Cryptor.sampleSessionKey_ready
      (c := { w.client with publicKey := pk, secretKey := sk }) hready pkServer false
    · cases (onCryptor_eq (w := ⟨{ w.client with publicKey := pk, secretKey := sk }, server⟩)
        hdone).symm.trans hsession
      exact ⟨pk, sk, pkServer, rx, tx, hpair, hexchange, hkeys, rfl⟩
    · cases (onCryptor_eq (w := ⟨{ w.client with publicKey := pk, secretKey := sk }, server⟩)
        hrefused).symm.trans hsession

/-- The pair stays usable whatever other clients ask the server for. -/
def StaysUsable (client server : Cryptor S) : Prop :=
  ∀ (exchanges : List (ℕ × ByteString)) (outs : List (Except HandlerExit ByteString))
    (server' : Cryptor S), Prog.trace HandlerExit.fatal
      (fun x => OramService.keyExchange x.1 x.2) exchanges server = some (outs, server') →
        Usable client server'

/-- **The negotiated keys are of no use.** After every negotiation that went
through, no message gets from the client to the server, and none back. -/
theorem negotiated_not_usable (hS : S.Lawful) {draw drawServer : ℕ}
    {w w' : KeySystem S (Cryptor S)}
    (hneg : keyNegotiate (keyStub drawServer) draw w = (.ok (), w')) :
    ¬StaysUsable w'.client w'.server ∧
      ∀ message iv, ¬Delivers w'.client w'.server message iv ∧
        ¬Delivers w'.server w'.client message iv := by
  have hclient := ready_of_keyNegotiate hneg
  obtain ⟨pk, sk, pkServer, rx, tx, hpair, hstub, hkeys, hw'⟩ := keyNegotiate_eq_ok hS hneg
  have hexchange := Prog.mapError_eq_ok hstub
  have hserver := OramService.ready_of_keyExchange hexchange
  obtain ⟨pk', sk', rx', tx', hpair', hkeys', -, hcall⟩ | ⟨-, _, _, _, hrefused⟩ :=
    OramService.keyExchange_ready hS hserver drawServer pk
  · rw [hexchange] at hcall
    obtain ⟨hpk, hw''⟩ := Prod.mk.inj hcall
    cases hpk
    -- the server has the same two keys, exchanged
    cases (hS.agree hpair hpair' hkeys).symm.trans hkeys'
    have hrejects : ∀ message iv, ¬Delivers w'.client w'.server message iv ∧
        ¬Delivers w'.server w'.client message iv := by
      rw [hw', hw'']
      intro message iv
      rw [delivers_iff hS ⟨rx, tx, pk, sk, w.client.isInitialized, true⟩
          ⟨tx, rx, pkServer, sk', w.server.isInitialized, true⟩ hclient hserver rfl rfl,
        delivers_iff hS ⟨tx, rx, pkServer, sk', w.server.isInitialized, true⟩
          ⟨rx, tx, pk, sk, w.client.isInitialized, true⟩ hserver hclient rfl rfl]
      exact ⟨fun h => hS.distinct hkeys h.symm, hS.distinct hkeys⟩
    exact ⟨fun hstays => (hrejects [] []).1 (hstays [] [] _ rfl [] []).1, hrejects⟩
  · cases hexchange.symm.trans hrefused

end OramController

/-! ### A small instance -/

namespace Sodium

/-- Two session keys, and a tag that says which of them has encrypted. -/
def toy : Sodium where
  SecretKey := Unit
  SessionKey := Bool
  kxKeypair := fun draw => some (List.replicate 32 (UInt8.ofNat draw), ())
  kxClientSessionKeys := fun _ _ _ => some (false, true)
  kxServerSessionKeys := fun _ _ _ => some (true, false)
  aes256gcmIsAvailable := true
  aes256gcmEncrypt := fun message _ key => some (List.replicate 16 key.toUInt8 ++ message)
  aes256gcmDecrypt := fun message _ key =>
    if message.head? = some key.toUInt8 then some (message.drop 16) else none

/-- The toy library keeps the promises of libsodium. -/
theorem toy_lawful : toy.Lawful where
  keypair := fun draw => ⟨_, rfl⟩
  agree := by
    rintro draw draw' pk sk pk' sk' rx tx - - hkeys
    cases hkeys
    rfl
  distinct := by
    rintro pk sk peer rx tx hkeys
    cases hkeys
    exact Bool.false_ne_true
  roundtrip := fun message iv key => ⟨List.replicate 16 key.toUInt8 ++ message, rfl,
    by simp [crypto_aead_aes256gcm_ABYTES], if_pos rfl⟩
  authentic := by
    rintro message iv key out key' message' hout hback
    cases hout
    cases key <;> cases key' <;> first | rfl | cases hback

end Sodium

namespace OramController

/-- A cryptor of a process that has just started. -/
def freshCryptor : Cryptor Sodium.toy := ⟨false, false, [], (), true, false⟩

/-- The two cryptors after a negotiation of theirs. -/
def negotiated : KeySystem Sodium.toy (Cryptor Sodium.toy) where
  client := ⟨false, true, List.replicate 32 1, (), true, true⟩
  server := ⟨true, false, List.replicate 32 2, (), true, true⟩

theorem keyNegotiate_small :
    keyNegotiate (keyStub 2) 1 ⟨freshCryptor, freshCryptor⟩ = (.ok (), negotiated) := rfl

/-- The two cryptors after the negotiation above. -/
theorem negotiated_not_usable_small : ¬StaysUsable negotiated.client negotiated.server :=
  (negotiated_not_usable Sodium.toy_lawful keyNegotiate_small).1

/-- The server cannot verify the Hello of a client that has just negotiated. -/
theorem hello_not_verified :
    keyNegotiate (keyStub 2) 1 ⟨freshCryptor, freshCryptor⟩ = (.ok (), negotiated) ∧
    ∃ out, Cryptor.encrypt [7] [] negotiated.client = (.ok out, negotiated.client) ∧
      OramService.sendHello out [] negotiated.server =
        (.error (.status ⟨.internal, "Failed to verify Hello message: \n"⟩), negotiated.server) :=
  ⟨keyNegotiate_small, _, rfl, rfl⟩

end OramController

end ObliviousRam
