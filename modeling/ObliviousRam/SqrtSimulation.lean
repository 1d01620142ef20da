import ObliviousRam.SquareRootOram
import ObliviousRam.Connection

set_option autoImplicit false

/-!
# The square-root controller sees its server through the stub only

`SqrtStub.Simulates` relates two servers whose calls have the same outcomes and
keep the relation. Then every function of the controller has the same outcome
over either of them, and so has every run.
-/

namespace ObliviousRam

open Prog (Relates)

variable {D σ τ : Type} {C : Codec D} {K : SquareRootOramConfig}

/-- The calls of `S` and `T` agree from related servers. -/
structure SqrtStub.Simulates (R : σ → τ → Prop) (S : SqrtStub C σ) (T : SqrtStub C τ) : Prop where
  load : ∀ data, Relates R Eq (S.loadSqrtOram data) (T.loadSqrtOram data)
  read : ∀ area tag, Relates R Eq (S.readSqrtMemory area tag) (T.readSqrtMemory area tag)
  write : ∀ pos content, Relates R Eq (S.writeSqrtMemory pos content) (T.writeSqrtMemory pos content)
  permute : ∀ perms, Relates R Eq (S.sqrtPermute perms) (T.sqrtPermute perms)

/-- One client on two related servers. -/
def SqrtSystem.Lift (R : σ → τ → Prop) (w : SqrtSystem σ) (v : SqrtSystem τ) : Prop :=
  w.client = v.client ∧ R w.server v.server

namespace SquareRootOramController

open SqrtSystem

/-! ## The two halves of an access

An access first fetches the block and then finishes: it writes a word to the shelter and
permutes if the epoch is over. Everything that is known of the address is known after
the first half. -/

/-- Steps 3 to 5 of an access: seal the block, write it to the shelter, permute
the memory if the epoch is over. -/
def finish (S : SqrtStub C σ) (K : SquareRootOramConfig) (op : Operation) (address position : ℕ)
    (buffer : OramBlock D) (draws : SqrtDraws C) (block : OramBlock D) :
    Prog Exit (SqrtSystem σ) C.Sealed :=
  if block.isNormal && block.id != address then
    fail .kUnknownError
      s!"The requested id {address} does not match with the fetched block {block.id}"
      "InternalAccess"
  else do
    let content := C.encryptBlock draws.iv (if op = .kRead then block else buffer)
    if op = .kRead then do
      let _ ← Prog.attempt (writeBlock S position content)
    else
      Prog.mapError (Exit.append (.make .kInvalidOperation "Cannot write back the block"
        "InternalAccess")) (writeBlock S position content)
    Prog.mapError (Exit.append (.make .kUnknownError
      "Permutation failed or internal logic error!" "InternalAccess"))
      (permuteOnFull S K draws.perm)
    pure content

/-- A valid access to an address of the map fetches the block and finishes. -/
theorem access_eq {S : SqrtStub C σ} {w : SqrtSystem σ} (hinit : w.client.isInitialized = true)
    {op : Operation} (hop : op ≠ .kInvalid) {a t : ℕ} (ht : w.client.positionMap a = some t)
    (buffer : OramBlock D) (draws : SqrtDraws C) :
    access S K op a buffer draws w =
      (fetch S K a t >>= finish S K op a t buffer draws) w := by
  rw [access, Prog.get_bind, hinit, if_neg Bool.false_ne_true.symm, internalAccess, Prog.get_bind,
    hinit, if_neg Bool.false_ne_true.symm, if_neg hop]
  simp only [ht]
  rfl

/-- Any other access makes no remote call, and changes nothing. -/
theorem access_refused {S : SqrtStub C σ} {w : SqrtSystem σ} {op : Operation} {a : ℕ}
    (h : op = .kInvalid ∨ w.client.positionMap a = none) (buffer : OramBlock D)
    (draws : SqrtDraws C) : ∃ e, access S K op a buffer draws w = (.error e, w) := by
  rw [access, Prog.get_bind]
  split
  · exact ⟨_, rfl⟩
  rw [internalAccess, Prog.get_bind]
  split
  · exact ⟨_, rfl⟩
  split
  · exact ⟨_, rfl⟩
  rename_i hop
  cases h with
  | inl h => exact absurd h hop
  | inr h =>
    simp only [h]
    exact ⟨_, rfl⟩

/-- A remote call does not change the client. -/
theorem remote_client {α : Type} (location : String) (call : Prog String σ α) (w : SqrtSystem σ) :
    (remote location call w).2.client = w.client := by
  rw [remote]
  cases call w.server with
  | mk r s => cases r <;> rfl

/-- What `ReadShelter` makes of the result of its scan. -/
theorem readShelter_of_scan {S : SqrtStub C σ} {address : ℕ} {found : Option (OramBlock D)}
    {w w' : SqrtSystem σ}
    (h : scanShelter S address (List.range K.sqrtM) none w = (.ok found, w')) :
    readShelter S K address w = (found.elim (.error (.status (.make .kObjectNotFound
      s!"The target block {address} is not found in the shelter." ""))) .ok, w') := by
  rw [readShelter, Prog.bind_ok h]
  cases found <;> rfl

/-! ## The same calls, the same outcomes -/

variable {R : σ → τ → Prop} {S : SqrtStub C σ} {T : SqrtStub C τ}

/-- Related systems have the same client, and it changes alike. -/
theorem relates_update (f : SquareRootOramController → SquareRootOramController) :
    Relates (Lift R) Eq (update (ε := Exit) f) (update f) := by
  rintro w v ⟨hclient, hserver⟩
  exact ⟨rfl, congrArg f hclient, hserver⟩

/-- A remote call gives the same answer on both sides. -/
theorem relates_remote {α : Type} (location : String) {m : Prog String σ α} {m' : Prog String τ α}
    (h : Relates R Eq m m') : Relates (Lift R) Eq (remote location m) (remote location m') := by
  rintro w v ⟨hclient, hserver⟩
  obtain ⟨hagree, hserver'⟩ := h w.server v.server hserver
  rw [Prog.agree_eq] at hagree
  rw [remote, remote]
  cases hm : m w.server with
  | mk r s =>
    cases hm' : m' v.server with
    | mk r' t =>
      rw [hm, hm'] at hagree hserver'
      cases hagree
      cases r with
      | error msg => exact ⟨rfl, hclient, hserver'⟩
      | ok a => exact ⟨rfl, hclient, hserver'⟩

variable (h : S.Simulates R T)
include h

theorem relates_scanShelter (address : ℕ) (is : List ℕ) (found : Option (OramBlock D)) :
    Relates (Lift R) Eq (scanShelter S address is found) (scanShelter T address is found) := by
  induction is generalizing found with
  | nil => exact .pure rfl
  | cons i is ih =>
    refine .bind_eq (relates_remote _ (h.read _ _)) fun content => ?_
    cases content with
    | none => exact ih found
    | some c => exact ih _

theorem relates_readShelter (address : ℕ) :
    Relates (Lift R) Eq (readShelter S K address) (readShelter T K address) := by
  refine .bind_eq (relates_scanShelter h _ _ _) fun found => ?_
  cases found with
  | none => exact .throw _
  | some b => exact .pure rfl

theorem relates_readMain (pos : ℕ) : Relates (Lift R) Eq (readMain S pos) (readMain T pos) := by
  refine .bind_eq (relates_remote _ (h.read _ _)) fun content => ?_
  cases content with
  | none => exact .throw _
  | some c => exact .pure rfl

theorem relates_readDummy (pos : ℕ) : Relates (Lift R) Eq (readDummy S pos) (readDummy T pos) :=
  .bind_eq (relates_remote _ (h.read _ _)) fun _ => .pure rfl

theorem relates_writeBlock (pos : ℕ) (content : C.Sealed) :
    Relates (Lift R) Eq (writeBlock S pos content) (writeBlock T pos content) :=
  relates_remote _ (h.write _ _)

theorem relates_fetch (address position : ℕ) :
    Relates (Lift R) Eq (fetch S K address position) (fetch T K address position) := by
  intro w v hwv
  obtain ⟨hagree, hrel⟩ := relates_readShelter (K := K) h address w v hwv
  rw [Prog.agree_eq] at hagree
  rw [fetch, fetch, Prog.attempt_bind, Prog.attempt_bind, ← hagree]
  generalize (readShelter S K address w).1 = r
  revert hrel
  generalize (readShelter S K address w).2 = w₁
  generalize (readShelter T K address v).2 = v₁
  intro hrel
  cases r with
  | ok block =>
    refine Relates.bind .get (fun w₂ v₂ hclient => ?_) w₁ v₁ hrel
    rw [hclient.1]
    exact .bind_eq (relates_update _) fun _ =>
      .bind_eq (.mapError _ (relates_readDummy h _)) fun _ => .pure rfl
  | error e =>
    cases e with
    | status st =>
      simp only
      split
      · exact Relates.throw _ w₁ v₁ hrel
      · exact Relates.mapError _ (relates_readMain h position) w₁ v₁ hrel
    | abort why => exact Relates.throw _ w₁ v₁ hrel
    | undefined why => exact Relates.throw _ w₁ v₁ hrel

theorem relates_doPermute (perm : List ℕ) :
    Relates (Lift R) Eq (doPermute S perm) (doPermute T perm) :=
  .bind_eq (relates_remote _ (h.permute _)) fun _ => relates_update _

theorem relates_permuteOnFull (draw : List ℕ) :
    Relates (Lift R) Eq (permuteOnFull S K draw) (permuteOnFull T K draw) := by
  refine .bind_eq (relates_update _) fun _ => .bind .get fun w v hwv => ?_
  rw [hwv.1]
  split
  · refine .bind_eq (relates_update _) fun _ => ?_
    split
    · exact relates_doPermute h _
    · exact .throw _
  · exact .pure rfl

/-- The whole access has the same outcome on both sides. -/
theorem relates_internalAccess (op : Operation) (address : ℕ) (buffer : OramBlock D)
    (draws : SqrtDraws C) :
    Relates (Lift R) Eq (internalAccess S K op address buffer draws)
      (internalAccess T K op address buffer draws) := by
  refine .bind .get fun w v hwv => ?_
  rw [hwv.1]
  split
  · exact .throw _
  split
  · exact .throw _
  split
  · exact .throw _
  refine .bind_eq (relates_fetch h address _) fun block => ?_
  split
  · exact .throw _
  have hpermute := Relates.mapError (Exit.append (.make .kUnknownError
    "Permutation failed or internal logic error!" "InternalAccess"))
    (relates_permuteOnFull (K := K) h draws.perm)
  split
  · intro w₁ v₁ hw₁
    obtain ⟨-, hw₂⟩ := relates_writeBlock h _ _ w₁ v₁ hw₁
    exact Relates.bind_eq hpermute (fun _ => .pure rfl) _ _ hw₂
  · exact .bind_eq (.mapError _ (relates_writeBlock h _ _)) fun _ =>
      .bind_eq hpermute fun _ => .pure rfl

/-- No `Access` tells the two servers apart. -/
theorem relates_access (op : Operation) (address : ℕ) (buffer : OramBlock D) (draws : SqrtDraws C) :
    Relates (Lift R) Eq (access S K op address buffer draws)
      (access T K op address buffer draws) := by
  refine .bind .get fun w v hwv => ?_
  rw [hwv.1]
  split
  · exact .throw _
  · exact relates_internalAccess h op address buffer draws

end SquareRootOramController

end ObliviousRam
