import ObliviousRam.ServerSafety
import ObliviousRam.KeyExchange
import Mathlib.Data.List.DropRight

set_option autoImplicit false

/-!
# The whole service

`OramService` with all of its members, and every handler of
`server/oram_server.cc`: those that reach `storages_`, which are in `OramServer`;
those that reach `cryptor_`, which are in `KeyExchange`; and `ResetServer`, which
empties the one and drops the other. The cryptor is fetched once, when the server
starts, and never again.

* `storages_since_reset` — the table is the work of the messages since the last
  reset: what is known of runs from an empty table holds at any time.
* `service_survives_iff` — which calls of the session the process survives, by
  what it has been called with so far.
* `hello_verified_iff` — whose Hello the server takes.
-/

namespace ObliviousRam

open OramServer (Message receive)

variable {D : Type} {C : Codec D} {S : Sodium}

/-- The members of `OramService`, and `server_running`. -/
structure ServiceState (S : Sodium) (C : Codec D) where
  storages : OramServer C
  /-- `none` is the null pointer -/
  cryptor : Option (Cryptor S)
  serverRunning : Bool

/-- A remote call: a message for the table, or a call of the session. -/
inductive Rpc (C : Codec D) where
  | table (m : Message C)
  | keyExchange (draw : ℕ) (publicKeyClient : ByteString)
  | sendHello (content iv : ByteString)
  | closeConnection
  | reportServerInformation
  | resetServer

/-- What goes back to the client. -/
inductive RpcAnswer (C : Codec D) where
  | table (response : OramResponse C)
  | publicKeyServer (pk : ByteString)
  | empty

namespace ServiceState

/-- The service once the server runs. -/
def start (C : Codec D) (c : Cryptor S) : ServiceState S C := ⟨.new C, some c, true⟩

/-- A handler that reaches `storages_`. -/
def onStorages {α : Type} (m : Prog HandlerExit (OramServer C) α) :
    Prog HandlerExit (ServiceState S C) α :=
  Prog.zoom storages (fun table w => { w with storages := table }) m

/-- A handler that goes through the pointer `cryptor_`. -/
def onCryptor {α : Type} (m : Prog HandlerExit (Cryptor S) α) :
    Prog HandlerExit (ServiceState S C) α := fun w =>
  match w.cryptor with
  | none => (.error (.undefined "cryptor_ is a null pointer"), w)
  | some c => ((m c).1, { w with cryptor := some (m c).2 })

/-- The handler of a call. (The sum that `ReportServerInformation` computes goes
to the log.) -/
def serve : Rpc C → Prog HandlerExit (ServiceState S C) (RpcAnswer C)
  | .table m => do
    let response ← onStorages (receive m)
    pure (.table response)
  | .keyExchange draw publicKeyClient => do
    let pk ← onCryptor (OramService.keyExchange draw publicKeyClient)
    pure (.publicKeyServer pk)
  | .sendHello content iv => do
    onCryptor (OramService.sendHello content iv)
    pure .empty
  | .closeConnection => do
    Prog.modify fun w => { w with serverRunning := false }
    pure .empty
  | .reportServerInformation => pure .empty
  | .resetServer => do
    Prog.modify fun w => { w with storages := .new C, cryptor := none }
    pure .empty

end ServiceState

namespace Rpc

/-- The call is `ResetServer`. -/
def isReset : Rpc C → Bool
  | resetServer => true
  | _ => false

/-- The message for the table. -/
def message? : Rpc C → Option (Message C)
  | table m => some m
  | _ => none

/-- The arguments of a `KeyExchange`. -/
def exchange? : Rpc C → Option (ℕ × ByteString)
  | keyExchange draw publicKeyClient => some (draw, publicKeyClient)
  | _ => none

end Rpc

namespace ServiceState

open Prog

/-- A history: the calls so far, with their outcomes. -/
abbrev History (C : Codec D) : Type := List (Rpc C × Except HandlerExit (RpcAnswer C))

/-- What has happened since the last reset. -/
def sinceReset (past : History C) : History C := past.rtakeWhile fun p => !p.1.isReset

/-- The messages for the table among the calls. -/
def messages (past : History C) : List (Message C) := past.filterMap fun p => p.1.message?

/-- Their outcomes. -/
def outcomes (past : History C) : List (Except HandlerExit (RpcAnswer C)) :=
  past.filterMap fun p => p.1.message?.map fun _ => p.2

/-- The state of the table after a history. -/
def Replayed (past : History C) (w : ServiceState S C) : Prop :=
  ∃ outs, Prog.trace HandlerExit.fatal receive (messages (sinceReset past)) (OramServer.new C) =
      some (outs, w.storages) ∧
    outcomes (sinceReset past) = outs.map (Except.map RpcAnswer.table)

/-- A handler of the table, on the whole service. -/
theorem serve_table (m : Message C) (w : ServiceState S C) :
    serve (.table m) w =
      ((receive m w.storages).1.map .table, { w with storages := (receive m w.storages).2 }) := by
  rw [serve]
  rcases hcall : receive m w.storages with ⟨e | response, table⟩
  · exact Prog.bind_error (Prog.zoom_eq hcall)
  · exact Prog.bind_ok (Prog.zoom_eq hcall)

theorem onCryptor_none {α : Type} {m : Prog HandlerExit (Cryptor S) α} {w : ServiceState S C}
    (h : w.cryptor = none) :
    onCryptor m w = (.error (.undefined "cryptor_ is a null pointer"), w) := by
  rw [onCryptor, h]

/-- With a cryptor, the handler is one of the cryptor. -/
theorem onCryptor_some {α : Type} {m : Prog HandlerExit (Cryptor S) α} {w : ServiceState S C}
    {c c' : Cryptor S} {r : Except HandlerExit α} (h : w.cryptor = some c) (hm : m c = (r, c')) :
    onCryptor m w = (r, { w with cryptor := some c' }) := by
  rw [onCryptor, h]
  simp only [hm]

/-- The session does not reach the table. -/
theorem onCryptor_storages {α : Type} (m : Prog HandlerExit (Cryptor S) α)
    (f : α → RpcAnswer C) (w : ServiceState S C) :
    ((onCryptor m >>= fun a => pure (f a)) w).2.storages = w.storages := by
  cases h : w.cryptor with
  | none => rw [Prog.bind_error (onCryptor_none h)]
  | some c =>
    rcases hm : m c with ⟨e | a, c'⟩
    · rw [Prog.bind_error (onCryptor_some h hm)]
    · rw [Prog.bind_ok (onCryptor_some h hm)]
      rfl

/-- A call that is no message leaves the table alone, or empties it. -/
theorem serve_storages {r : Rpc C} (hr : r.message? = none) (w : ServiceState S C) :
    (serve r w).2.storages = if r.isReset then .new C else w.storages := by
  cases r with
  | table m => cases hr
  | keyExchange draw publicKeyClient => exact onCryptor_storages _ _ w
  | sendHello content iv => exact onCryptor_storages _ (fun _ => .empty) w
  | closeConnection => rfl
  | reportServerInformation => rfl
  | resetServer => rfl

theorem messages_concat (past : History C) (p : Rpc C × Except HandlerExit (RpcAnswer C)) :
    messages (past ++ [p]) = messages past ++ p.1.message?.toList := by
  rw [messages, List.filterMap_append, ← messages]
  cases h : p.1.message? <;> simp [h]

theorem outcomes_concat (past : History C) (p : Rpc C × Except HandlerExit (RpcAnswer C)) :
    outcomes (past ++ [p]) = outcomes past ++ (p.1.message?.map fun _ => p.2).toList := by
  rw [outcomes, List.filterMap_append, ← outcomes]
  cases h : p.1.message? <;> simp [h]

/-- One call. -/
theorem Replayed.step {past : History C} {w w' : ServiceState S C} (hw : Replayed past w)
    {r : Rpc C} {out : Except HandlerExit (RpcAnswer C)}
    (hcall : Prog.survive HandlerExit.fatal (serve r) w = some (out, w')) :
    Replayed (past ++ [(r, out)]) w' := by
  obtain ⟨hserve, hfatal⟩ := Prog.eq_of_survive hcall
  cases hreset : r.isReset with
  | true =>
    -- the history starts anew
    obtain rfl : r = .resetServer := by
      cases r <;> first | rfl | cases hreset
    rw [Replayed, sinceReset, List.rtakeWhile_concat_neg _ _ _ (by simp [Rpc.isReset])]
    cases hserve
    exact ⟨[], rfl, rfl⟩
  | false =>
    obtain ⟨outs, hrun, houts⟩ := hw
    have hsince : sinceReset (past ++ [(r, out)]) = sinceReset past ++ [(r, out)] :=
      List.rtakeWhile_concat_pos _ _ _ (by rw [hreset]; rfl)
    rw [Replayed, hsince, messages_concat, outcomes_concat]
    cases hmessage : r.message? with
    | none =>
      have hstorages := serve_storages hmessage w
      rw [hserve, hreset, if_neg Bool.false_ne_true] at hstorages
      refine ⟨outs, ?_, ?_⟩
      · rw [Option.toList_none, List.append_nil, hstorages]
        exact hrun
      · rw [Option.map_none, Option.toList_none, List.append_nil]
        exact houts
    | some m =>
      obtain rfl : r = .table m := by
        cases r <;> cases hmessage
        rfl
      rw [serve_table] at hserve
      cases hserve
      have hsurvive : Prog.survive HandlerExit.fatal (receive m) w.storages =
          some (receive m w.storages) := by
        rcases hreceive : receive m w.storages with ⟨e | response, table⟩
        · rw [hreceive] at hfatal
          exact Prog.survive_error hreceive (hfatal e rfl)
        · exact Prog.survive_ok hreceive
      refine ⟨_, Prog.trace_concat hrun hsurvive, ?_⟩
      rw [houts, List.map_append]
      rfl

/-- **The table since the last reset.** -/
theorem storages_since_reset {c : Cryptor S} {calls : List (Rpc C)}
    {outs : List (Except HandlerExit (RpcAnswer C))} {w : ServiceState S C}
    (hrun : Prog.trace HandlerExit.fatal serve calls (start C c) = some (outs, w)) :
    Replayed (calls.zip outs) w :=
  Prog.trace_history HandlerExit.fatal (fun _ _ => True) Replayed
    (fun _ _ _ _ _ _ hw hcall => hw.step hcall) [] ⟨[], rfl, rfl⟩
    (Prog.Along.of_forall (fun _ _ _ => trivial) _) hrun

/-- A client makes a storage, the server is reset, and another client takes the
same id. -/
def resetInBetween : List (Rpc (Codec.plain ℕ)) :=
  [.table (.request (.initFlatOram ⟨0, [1]⟩ 4 8)), .closeConnection, .resetServer,
    .table (.request (.initSqrtOram ⟨0, [2]⟩ 1 8)), .reportServerInformation,
    .table (.request (.readFlatMemory ⟨3, [2]⟩))]

/-- A storage, a reset, and another one under the same id. -/
theorem storages_since_reset_small :
    ∃ outs w, Prog.trace HandlerExit.fatal serve resetInBetween
        (start _ OramController.freshCryptor) = some (outs, w) ∧
      Replayed (resetInBetween.zip outs) w := by
  obtain ⟨outs, w, hrun⟩ : ∃ outs w, Prog.trace HandlerExit.fatal serve resetInBetween
      (start _ OramController.freshCryptor) = some (outs, w) := ⟨_, _, rfl⟩
  exact ⟨outs, w, hrun, storages_since_reset hrun⟩

/-! ## The session

The cryptor and the table are apart, but for `ResetServer`: it empties the one and lets
go of the other, which is never fetched again. From then on `KeyExchange` and
`SendHello` go through a null pointer. -/

/-- A reset is among the calls. -/
def wasReset (past : List (Rpc C)) : Bool := past.any Rpc.isReset

/-- The key exchanges among the calls. -/
def exchanges (past : List (Rpc C)) : List (ℕ × ByteString) := past.filterMap Rpc.exchange?

/-- An exchange has gone through. -/
def Exchanged (S : Sodium) (past : List (Rpc C)) : Prop :=
  ∃ x ∈ exchanges past, (OramService.exchangedKeys S x.1 x.2).isSome = true

/-- The cryptor after a history: dropped by the first reset, and until then with
the keys of the last exchange. -/
structure Negotiated (c₀ : Cryptor S) (past : List (Rpc C)) (w : ServiceState S C) : Prop where
  dropped : wasReset past = true → w.cryptor = none
  held : wasReset past = false → ∃ c, w.cryptor = some c ∧ c.Ready ∧
    (c.sessionKeyRx, c.sessionKeyTx) =
      OramService.lastKeys S (exchanges past) (c₀.sessionKeyRx, c₀.sessionKeyTx) ∧
    (c.isSetup = true ↔ c₀.isSetup = true ∨ Exchanged S past)

/-- The last exchange wins if it goes through. -/
theorem lastKeys_concat (xs : List (ℕ × ByteString)) (x : ℕ × ByteString)
    (keys : S.SessionKey × S.SessionKey) :
    OramService.lastKeys S (xs ++ [x]) keys =
      (OramService.exchangedKeys S x.1 x.2).getD (OramService.lastKeys S xs keys) := by
  induction xs generalizing keys with
  | nil => rfl
  | cons y ys ih => exact ih _

theorem exchanges_concat (past : List (Rpc C)) (r : Rpc C) :
    exchanges (past ++ [r]) = exchanges past ++ r.exchange?.toList := by
  rw [exchanges, List.filterMap_append, ← exchanges]
  cases h : r.exchange? <;> simp [h]

theorem exchanged_concat (past : List (Rpc C)) (draw : ℕ) (publicKeyClient : ByteString) :
    Exchanged S (past ++ [.keyExchange draw publicKeyClient]) ↔
      Exchanged S past ∨ (OramService.exchangedKeys S draw publicKeyClient).isSome = true := by
  simp only [Exchanged, exchanges_concat, Rpc.exchange?, Option.toList_some, List.mem_append,
    List.mem_singleton, or_and_right, exists_or, exists_eq_left]

theorem wasReset_concat (past : List (Rpc C)) (r : Rpc C) :
    wasReset (past ++ [r]) = (wasReset past || r.isReset) := by
  rw [wasReset, List.any_append, List.any_cons, List.any_nil, Bool.or_false, ← wasReset]

/-- A call that is neither a reset nor an exchange, and leaves the cryptor alone. -/
theorem Negotiated.same {c₀ : Cryptor S} {past : List (Rpc C)} {w w' : ServiceState S C}
    (hw : Negotiated c₀ past w) {r : Rpc C} (hreset : r.isReset = false)
    (hexchange : r.exchange? = none) (hcryptor : w'.cryptor = w.cryptor) :
    Negotiated c₀ (past ++ [r]) w' := by
  have hexchanges : exchanges (past ++ [r]) = exchanges past := by
    rw [exchanges_concat, hexchange]
    exact List.append_nil _
  refine ⟨fun h => ?_, fun h => ?_⟩
  · rw [wasReset_concat, hreset, Bool.or_false] at h
    rw [hcryptor]
    exact hw.dropped h
  · rw [wasReset_concat, hreset, Bool.or_false] at h
    rw [hcryptor, Exchanged, hexchanges]
    exact hw.held h

/-- `SendHello`, on a cryptor in order. -/
theorem sendHello_ready {c : Cryptor S} (hc : c.Ready) (content iv : ByteString) :
    (c.isSetup = false ∧ ∃ why, OramService.sendHello content iv c = (.error (.abort why), c)) ∨
    c.isSetup = true ∧
      ((crypto_aead_aes256gcm_ABYTES ≤ content.length ∧
          (S.aes256gcmDecrypt content iv c.sessionKeyRx).isSome = true ∧
          OramService.sendHello content iv c = (.ok (), c)) ∨
        ¬(crypto_aead_aes256gcm_ABYTES ≤ content.length ∧
          (S.aes256gcmDecrypt content iv c.sessionKeyRx).isSome = true) ∧
        ∃ st, OramService.sendHello content iv c = (.error (.status st), c)) := by
  cases hsetup : c.isSetup with
  | false =>
    have hpanic : Cryptor.decrypt content iv c =
        (.error (.abort "Cryptor is not yet correctly set up."), c) := by
      rw [Cryptor.decrypt, Cryptor.prelogue_bind_ready hc, Prog.get_bind]
      simp only [Cryptor.panicIf, hsetup, Bool.not_false, if_true, Prog.throw_bind,
        Prog.throw_apply]
    exact .inl ⟨rfl, _, Prog.bind_error (Prog.mapError_error hpanic)⟩
  | true =>
    refine .inr ⟨rfl, ?_⟩
    by_cases hlen : crypto_aead_aes256gcm_ABYTES ≤ content.length
    · obtain ⟨out, hout, hdecrypt⟩ | ⟨hnone, hdecrypt⟩ :=
        Cryptor.decrypt_ready hc hsetup hlen iv
      · exact .inl ⟨hlen, by rw [hout]; rfl, Prog.bind_ok (Prog.mapError_ok hdecrypt)⟩
      · refine .inr ⟨fun h => ?_, _, OramService.sendHello_refuses hdecrypt⟩
        rw [hnone] at h
        cases h.2
    · have hshort : Cryptor.decrypt content iv c = (.error (.status (.make .kInvalidArgument
          "The length of the message is too short" "Decrypt")), c) := by
        rw [Cryptor.decrypt, Cryptor.prelogue_bind_ready hc, Prog.get_bind]
        simp only [Cryptor.panicIf, hsetup, Bool.not_true, Bool.false_eq_true, if_false,
          Prog.pure_bind, Nat.not_le.mp hlen, if_true]
        rfl
      exact .inr ⟨fun h => hlen h.1, _, OramService.sendHello_refuses hshort⟩

/-- One call. -/
theorem Negotiated.step (hS : S.Lawful) {c₀ : Cryptor S} {past : List (Rpc C)}
    {w w' : ServiceState S C} (hw : Negotiated c₀ past w) {r : Rpc C}
    {out : Except HandlerExit (RpcAnswer C)}
    (hcall : Prog.survive HandlerExit.fatal (serve r) w = some (out, w')) :
    Negotiated c₀ (past ++ [r]) w' := by
  obtain ⟨hserve, hfatal⟩ := Prog.eq_of_survive hcall
  cases r with
  | table m =>
    rw [serve_table] at hserve
    cases hserve
    exact hw.same rfl rfl rfl
  | closeConnection =>
    cases hserve
    exact hw.same rfl rfl rfl
  | reportServerInformation =>
    cases hserve
    exact hw.same rfl rfl rfl
  | resetServer =>
    cases hserve
    refine ⟨fun _ => rfl, fun h => ?_⟩
    rw [wasReset_concat] at h
    simp [Rpc.isReset] at h
  | sendHello content iv =>
    cases hreset : wasReset past with
    | true =>
      rw [serve, Prog.bind_error (onCryptor_none (hw.dropped hreset))] at hserve
      cases hserve
      cases hfatal _ rfl
    | false =>
      obtain ⟨c, hc, hready, -⟩ := hw.held hreset
      have hsame : ∀ answer, OramService.sendHello content iv c = (answer, c) →
          w'.cryptor = w.cryptor := by
        intro answer hanswer
        rw [serve] at hserve
        cases answer with
        | error e =>
          rw [Prog.bind_error (onCryptor_some hc hanswer)] at hserve
          cases hserve
          exact hc.symm
        | ok =>
          rw [Prog.bind_ok (onCryptor_some hc hanswer)] at hserve
          cases hserve
          exact hc.symm
      refine hw.same rfl rfl ?_
      obtain ⟨-, why, hpanic⟩ | ⟨-, ⟨-, -, hok⟩ | ⟨-, st, hstatus⟩⟩ :=
        sendHello_ready hready content iv
      · exact hsame _ hpanic
      · exact hsame _ hok
      · exact hsame _ hstatus
  | keyExchange draw publicKeyClient =>
    have hexchange : exchanges (past ++ [.keyExchange draw publicKeyClient]) =
        exchanges past ++ [(draw, publicKeyClient)] := exchanges_concat _ _
    cases hreset : wasReset past with
    | true =>
      rw [serve, Prog.bind_error (onCryptor_none (hw.dropped hreset))] at hserve
      cases hserve
      cases hfatal _ rfl
    | false =>
      refine ⟨fun h => ?_, fun _ => ?_⟩
      · rw [wasReset_concat, hreset] at h
        cases h
      · obtain ⟨c, hc, hready, hkeys, hsetup⟩ := hw.held hreset
        rw [serve] at hserve
        rw [exchanged_concat, hexchange, lastKeys_concat, ← hkeys]
        obtain ⟨pk, sk, rx, tx, -, -, hnew, hok⟩ | ⟨hnone, pk, sk, st, hstatus⟩ :=
          OramService.keyExchange_ready hS hready draw publicKeyClient
        · rw [Prog.bind_ok (onCryptor_some hc hok)] at hserve
          cases hserve
          refine ⟨_, rfl, hready, ?_, ?_⟩
          · rw [hnew]
            rfl
          · rw [hnew]
            exact ⟨fun _ => .inr (.inr rfl), fun _ => rfl⟩
        · rw [Prog.bind_error (onCryptor_some hc hstatus)] at hserve
          cases hserve
          refine ⟨_, rfl, hready, ?_, ?_⟩
          · rw [hnone]
            rfl
          · rw [hnone, hsetup]
            exact or_congr_right ⟨.inl, fun h => h.resolve_right Bool.false_ne_true⟩

/-- **The cryptor after a run.** -/
theorem negotiated_of_trace (hS : S.Lawful) {c₀ : Cryptor S} (hc₀ : c₀.Ready)
    {calls : List (Rpc C)} {outs : List (Except HandlerExit (RpcAnswer C))} {w : ServiceState S C}
    (hrun : Prog.trace HandlerExit.fatal serve calls (start C c₀) = some (outs, w)) :
    Negotiated c₀ calls w := by
  have hstart : Negotiated c₀ [] (start C c₀) :=
    ⟨by rintro ⟨⟩, fun _ => ⟨c₀, rfl, hc₀, rfl, by simp [Exchanged, exchanges]⟩⟩
  have h := Prog.trace_history HandlerExit.fatal (fun _ _ => True)
    (fun past w => Negotiated c₀ (past.map Prod.fst) w)
    (fun past r w out w' _ hw hcall => by
      rw [List.map_append, List.map_singleton]
      exact hw.step hS hcall)
    [] hstart (Prog.Along.of_forall (fun _ _ _ => trivial) _) hrun
  rwa [List.nil_append, List.map_fst_zip (Prog.length_trace hrun).ge] at h

/-- What a call of the session needs, by the calls before it. -/
def Survivable (c₀ : Cryptor S) (past : List (Rpc C)) : Rpc C → Prop
  | .keyExchange _ _ => wasReset past = false
  | .sendHello _ _ => wasReset past = false ∧ (c₀.isSetup = true ∨ Exchanged S past)
  | _ => True

/-- A handler that finds no cryptor. -/
theorem not_survive_onCryptor {α : Type} {m : Prog HandlerExit (Cryptor S) α}
    {f : α → RpcAnswer C} {w : ServiceState S C} (h : w.cryptor = none) :
    Prog.survive HandlerExit.fatal (onCryptor m >>= fun a => pure (f a)) w = none := by
  rw [Prog.survive, Prog.bind_error (onCryptor_none h)]
  rfl

/-- A handler that finds one is survived as the call of the cryptor is. -/
theorem survive_onCryptor {α : Type} {m : Prog HandlerExit (Cryptor S) α} {f : α → RpcAnswer C}
    {w : ServiceState S C} {c : Cryptor S} (h : w.cryptor = some c) :
    (Prog.survive HandlerExit.fatal (onCryptor m >>= fun a => pure (f a)) w).isSome =
      (Prog.survive HandlerExit.fatal m c).isSome := by
  rcases hm : m c with ⟨e | a, c'⟩
  · rw [Prog.survive, Prog.survive, Prog.bind_error (onCryptor_some h hm), hm]
    cases e <;> rfl
  · rw [Prog.survive, Prog.survive, Prog.bind_ok (onCryptor_some h hm), hm]
    rfl

/-- **When a call of the session ends the server.** Whatever it has been called
with so far: a `KeyExchange` after a `ResetServer`, and a `SendHello` after one,
or before a key exchange has gone through. Nothing else does. -/
theorem service_survives_iff (hS : S.Lawful) {c₀ : Cryptor S} (hc₀ : c₀.Ready)
    {calls : List (Rpc C)} {outs : List (Except HandlerExit (RpcAnswer C))} {w : ServiceState S C}
    (hrun : Prog.trace HandlerExit.fatal serve calls (start C c₀) = some (outs, w)) (r : Rpc C)
    (hr : r.message? = none) :
    (Prog.survive HandlerExit.fatal (serve r) w).isSome = true ↔ Survivable c₀ calls r := by
  have hw := negotiated_of_trace hS hc₀ hrun
  cases r with
  | table m => cases hr
  | closeConnection => exact ⟨fun _ => trivial, fun _ => rfl⟩
  | reportServerInformation => exact ⟨fun _ => trivial, fun _ => rfl⟩
  | resetServer => exact ⟨fun _ => trivial, fun _ => rfl⟩
  | keyExchange draw publicKeyClient =>
    rw [serve, Survivable]
    cases hreset : wasReset calls with
    | true =>
      rw [not_survive_onCryptor (hw.dropped hreset)]
      simp
    | false =>
      obtain ⟨c, hc, hready, -⟩ := hw.held hreset
      rw [survive_onCryptor hc]
      obtain ⟨pk, sk, rx, tx, -, -, -, hok⟩ | ⟨-, pk, sk, st, hstatus⟩ :=
        OramService.keyExchange_ready hS hready draw publicKeyClient
      · rw [Prog.survive_ok hok]
        simp
      · rw [Prog.survive_error hstatus rfl]
        simp
  | sendHello content iv =>
    rw [serve, Survivable]
    cases hreset : wasReset calls with
    | true =>
      rw [not_survive_onCryptor (hw.dropped hreset)]
      simp
    | false =>
      obtain ⟨c, hc, hready, -, hsetup⟩ := hw.held hreset
      rw [survive_onCryptor hc, ← hsetup]
      obtain ⟨hnot, why, hpanic⟩ | ⟨hyes, ⟨-, -, hok⟩ | ⟨-, st, hstatus⟩⟩ :=
        sendHello_ready hready content iv
      · rw [Prog.survive, hpanic, hnot]
        simp [HandlerExit.fatal]
      · rw [Prog.survive_ok hok, hyes]
        simp
      · rw [Prog.survive_error hstatus rfl, hyes]
        simp

/-- An exchange that goes through, one that does not, and a reset. -/
def exchangesAndReset : List (Rpc (Codec.plain ℕ)) :=
  [.keyExchange 2 (List.replicate 32 1), .keyExchange 3 [], .resetServer]

/-- After the reset, a Hello ends the process. -/
theorem service_survives_iff_small :
    ∃ outs w, Prog.trace HandlerExit.fatal serve exchangesAndReset
        (start _ OramController.freshCryptor) = some (outs, w) ∧
      (Prog.survive HandlerExit.fatal (serve (.sendHello [] [])) w).isSome = false := by
  obtain ⟨outs, w, hrun⟩ : ∃ outs w, Prog.trace HandlerExit.fatal serve exchangesAndReset
      (start _ OramController.freshCryptor) = some (outs, w) := ⟨_, _, rfl⟩
  refine ⟨outs, w, hrun, Bool.eq_false_iff.mpr fun h => ?_⟩
  have hneeds :=
    (service_survives_iff Sodium.toy_lawful ⟨rfl, rfl⟩ hrun (.sendHello [] []) rfl).mp h
  cases hneeds.1

/-- Only the key that has sealed a message opens it. -/
theorem opens_iff (hS : S.Lawful) {message iv content : ByteString} {key key' : S.SessionKey}
    (hsealed : S.aes256gcmEncrypt message iv key = some content) :
    crypto_aead_aes256gcm_ABYTES ≤ content.length ∧
      (S.aes256gcmDecrypt content iv key').isSome = true ↔ key = key' := by
  obtain ⟨out, hout, hlen, hback⟩ := hS.roundtrip message iv key
  cases hsealed.symm.trans hout
  constructor
  · rintro ⟨-, hopens⟩
    obtain ⟨m, hm⟩ := Option.isSome_iff_exists.mp hopens
    exact (hS.authentic hsealed hm).symm
  · rintro rfl
    exact ⟨hlen, by rw [hback]; rfl⟩

/-- **Whose Hello the server takes**: it is sealed under the key that the last
exchange has given the server to receive with, whichever client asked for it,
and there was an exchange, and no reset. -/
theorem hello_verified_iff (hS : S.Lawful) {c₀ : Cryptor S} (hc₀ : c₀.Ready)
    {calls : List (Rpc C)} {outs : List (Except HandlerExit (RpcAnswer C))} {w : ServiceState S C}
    (hrun : Prog.trace HandlerExit.fatal serve calls (start C c₀) = some (outs, w))
    {message iv content : ByteString} {key : S.SessionKey}
    (hsealed : S.aes256gcmEncrypt message iv key = some content) :
    (serve (.sendHello content iv) w).1.isOk = true ↔
      wasReset calls = false ∧ (c₀.isSetup = true ∨ Exchanged S calls) ∧
        key = (OramService.lastKeys S (exchanges calls) (c₀.sessionKeyRx, c₀.sessionKeyTx)).1 := by
  have hw := negotiated_of_trace hS hc₀ hrun
  rw [serve]
  cases hreset : wasReset calls with
  | true =>
    rw [Prog.bind_error (onCryptor_none (hw.dropped hreset))]
    simp [Except.isOk, Except.toBool]
  | false =>
    obtain ⟨c, hc, hready, hkeys, hsetup⟩ := hw.held hreset
    rw [← hkeys, ← hsetup]
    have hopens : crypto_aead_aes256gcm_ABYTES ≤ content.length ∧
        (S.aes256gcmDecrypt content iv c.sessionKeyRx).isSome = true ↔ key = c.sessionKeyRx :=
      opens_iff hS hsealed
    obtain ⟨hnot, why, hpanic⟩ | ⟨hyes, ⟨hlen, hsome, hok⟩ | ⟨hno, st, hstatus⟩⟩ :=
      sendHello_ready hready content iv
    · rw [Prog.bind_error (onCryptor_some hc hpanic), hnot]
      simp [Except.isOk, Except.toBool]
    · rw [Prog.bind_ok (onCryptor_some hc hok), hyes]
      simp [Except.isOk, Except.toBool, hopens.mp ⟨hlen, hsome⟩]
    · rw [Prog.bind_error (onCryptor_some hc hstatus), hyes]
      simp [Except.isOk, Except.toBool, mt hopens.mpr hno]

/-- Two exchanges, of which the second does not go through. -/
def twoExchanges : List (Rpc (Codec.plain ℕ)) :=
  [.keyExchange 2 (List.replicate 32 1), .keyExchange 3 []]

theorem hello_verified_iff_small :
    ∃ outs w, Prog.trace HandlerExit.fatal serve twoExchanges
        (start _ OramController.freshCryptor) = some (outs, w) ∧
      (serve (.sendHello (List.replicate 16 true.toUInt8 ++ [7]) []) w).1.isOk = true := by
  obtain ⟨outs, w, hrun⟩ : ∃ outs w, Prog.trace HandlerExit.fatal serve twoExchanges
      (start _ OramController.freshCryptor) = some (outs, w) := ⟨_, _, rfl⟩
  have hsealed : Sodium.toy.aes256gcmEncrypt [7] [] true =
      some (List.replicate 16 true.toUInt8 ++ [7]) := rfl
  exact ⟨outs, w, hrun, (hello_verified_iff Sodium.toy_lawful ⟨rfl, rfl⟩ hrun hsealed).mpr
    ⟨rfl, .inr ⟨_, List.mem_cons_self, rfl⟩, rfl⟩⟩

end ServiceState

end ObliviousRam
