import ObliviousRam.SquareRootMemory
import ObliviousRam.SqrtSimulation

set_option autoImplicit false

/-!
# The access pattern of a square-root ORAM

The kinds of the requests that a run of accesses sends, with the region of every
read. An access scans the shelter, reads one word, writes one word, and permutes
the memory at the end of an epoch. The one thing that depends on the addresses
is the region of the word: a dummy if the address is in the shelter, and main
memory if not (`Repeats`).
-/

namespace ObliviousRam

open Prog (Relates)
open SqrtOramServerStorage SqrtSystem SquareRootOramController

variable {D σ : Type} {C : Codec D} {K : SquareRootOramConfig}

/-! ## The log of the server

The log has the kind of each request, and the region of a read. Tags and strings are
left to `SqrtSecrecy`. -/

/-- The kind of a request, with the region that is read. -/
inductive SqrtCall where
  | loadSqrtOram
  | readSqrtMemory (readFrom : SqrtArea)
  | writeSqrtMemory
  | sqrtPermute
  deriving DecidableEq, Repr

/-- A stub that writes its calls down. -/
def loggedSqrtStub (S : SqrtStub C σ) : SqrtStub C (σ × List SqrtCall) where
  loadSqrtOram := fun data => Prog.logged .loadSqrtOram (S.loadSqrtOram data)
  readSqrtMemory := fun area tag => Prog.logged (.readSqrtMemory area) (S.readSqrtMemory area tag)
  writeSqrtMemory := fun pos content => Prog.logged .writeSqrtMemory (S.writeSqrtMemory pos content)
  sqrtPermute := fun perms => Prog.logged .sqrtPermute (S.sqrtPermute perms)

/-- A log changes nothing. -/
theorem simulates_loggedSqrtStub (S : SqrtStub C σ) :
    S.Simulates Prog.Behind (loggedSqrtStub S) where
  load := fun _ => Prog.relates_logged _ _
  read := fun _ _ => Prog.relates_logged _ _
  write := fun _ _ => Prog.relates_logged _ _
  permute := fun _ => Prog.relates_logged _ _

/-- The system, with the log so far. -/
def SqrtSystem.withLog (w : SqrtSystem σ) (log : List SqrtCall) :
    SqrtSystem (σ × List SqrtCall) :=
  ⟨w.client, w.server, log⟩

/-- What an access sends: `hit` if it finds the block in the shelter, `full` if
it ends an epoch. -/
def accessCalls (K : SquareRootOramConfig) (hit full : Bool) : List SqrtCall :=
  List.replicate K.sqrtM (.readSqrtMemory .kShelter) ++
    .readSqrtMemory (if hit then .kDummy else .kMainMemory) :: .writeSqrtMemory ::
      if full then [.sqrtPermute] else []

namespace SquareRootOramController

/-- A program does not notice the log. -/
theorem run_logged {α : Type} {m : Prog Exit (SqrtSystem σ) α}
    {m' : Prog Exit (SqrtSystem (σ × List SqrtCall)) α} (h : Relates (Lift Prog.Behind) Eq m m')
    {w w' : SqrtSystem σ} {r : Except Exit α} (hm : m w = (r, w')) (log : List SqrtCall) :
    ∃ log', m' (w.withLog log) = (r, w'.withLog log') := by
  obtain ⟨hagree, hclient, hserver⟩ := h w (w.withLog log) ⟨rfl, rfl⟩
  cases hm' : m' (w.withLog log) with
  | mk r' v =>
    rw [Prog.agree_eq, hm, hm'] at hagree
    rw [hm, hm'] at hclient hserver
    obtain ⟨client, server, log'⟩ := v
    cases hagree
    cases hclient
    cases hserver
    exact ⟨log', rfl⟩

/-! ## What each step sends -/

variable {S : SqrtStub C σ} {w w' : SqrtSystem (σ × List SqrtCall)}

/-- A call is written down, whatever comes of it. -/
theorem remote_log {α : Type} {location : String} {call : SqrtCall} {m : Prog String σ α}
    {r : Except Exit α} (h : remote location (Prog.logged call m) w = (r, w')) :
    w'.server.2 = w.server.2 ++ [call] ∧ w'.client = w.client := by
  rw [remote, Prog.logged] at h
  cases hm : m w.server.1 with
  | mk r' s =>
    rw [hm] at h
    cases r' with
    | error msg =>
      cases h
      exact ⟨rfl, rfl⟩
    | ok a =>
      cases h
      exact ⟨rfl, rfl⟩

/-- The scan reads every slot of the shelter. -/
theorem scanShelter_log {address : ℕ} {is : List ℕ} {found found' : Option (OramBlock D)}
    (h : scanShelter (loggedSqrtStub S) address is found w = (.ok found', w')) :
    w'.server.2 = w.server.2 ++ List.replicate is.length (.readSqrtMemory .kShelter) := by
  induction is generalizing w found with
  | nil =>
    cases h
    exact (List.append_nil _).symm
  | cons i is ih =>
    obtain ⟨content, w₁, hread, hrest⟩ := Prog.bind_eq_ok h
    obtain ⟨hlog, -⟩ := remote_log hread
    have hnext : w'.server.2 =
        w₁.server.2 ++ List.replicate is.length (.readSqrtMemory .kShelter) := by
      cases content with
      | none => exact ih hrest
      | some c => exact ih hrest
    rw [hnext, hlog, List.length_cons, List.replicate_succ, List.append_assoc,
      List.singleton_append]

theorem readMain_log {pos : ℕ} {b : OramBlock D}
    (h : readMain (loggedSqrtStub S) pos w = (.ok b, w')) :
    w'.server.2 = w.server.2 ++ [.readSqrtMemory .kMainMemory] := by
  obtain ⟨content, w₁, hread, hrest⟩ := Prog.bind_eq_ok h
  obtain ⟨hlog, -⟩ := remote_log hread
  cases content with
  | none => cases hrest
  | some c =>
    cases hrest
    exact hlog

theorem readDummy_log {pos : ℕ} (h : readDummy (loggedSqrtStub S) pos w = (.ok (), w')) :
    w'.server.2 = w.server.2 ++ [.readSqrtMemory .kDummy] := by
  obtain ⟨content, w₁, hread, hrest⟩ := Prog.bind_eq_ok h
  obtain ⟨hlog, -⟩ := remote_log hread
  cases hrest
  exact hlog

/-- The scan, and then one word: of the dummies if the scan has found the block. -/
theorem fetch_log {a t : ℕ} {found : Option (OramBlock D)} {b : OramBlock D}
    {w₁ : SqrtSystem (σ × List SqrtCall)}
    (hscan : scanShelter (loggedSqrtStub S) a (List.range K.sqrtM) none w = (.ok found, w₁))
    (h : fetch (loggedSqrtStub S) K a t w = (.ok b, w')) :
    w'.server.2 = w.server.2 ++ List.replicate K.sqrtM (.readSqrtMemory .kShelter) ++
      [.readSqrtMemory (if found.isSome then .kDummy else .kMainMemory)] := by
  have hlog := scanShelter_log hscan
  rw [List.length_range] at hlog
  rw [fetch, Prog.attempt_bind, readShelter_of_scan hscan] at h
  rw [← hlog]
  cases found with
  | some block =>
    simp only [Option.elim_some, Prog.get_bind, update, Prog.modify_bind] at h
    obtain ⟨u, w₂, hread, hrest⟩ := Prog.bind_eq_ok h
    cases hrest
    have hdummy := readDummy_log (Prog.mapError_eq_ok hread)
    exact hdummy
  | none =>
    have hmain := readMain_log (Prog.mapError_eq_ok h)
    exact hmain

/-- The last access of an epoch ends with the permutation. -/
theorem permuteOnFull_log {perm : List ℕ}
    (h : permuteOnFull (loggedSqrtStub S) K perm w = (.ok (), w')) :
    w'.server.2 = w.server.2 ++ if w.client.counter + 1 = K.sqrtM then [.sqrtPermute] else [] := by
  rw [permuteOnFull] at h
  simp only [update, Prog.modify_bind, Prog.get_bind] at h
  split at h
  next hfull =>
    rw [Prog.modify_bind] at h
    rw [if_pos hfull]
    cases hdraw : randomPermutation K.words perm with
    | error st =>
      rw [hdraw] at h
      cases h
    | ok perm' =>
      rw [hdraw] at h
      obtain ⟨u, w₁, hremote, hrest⟩ := Prog.bind_eq_ok h
      obtain ⟨hlog, -⟩ := remote_log hremote
      cases hrest
      exact hlog
  next hfull =>
    cases h
    rw [if_neg hfull]
    exact (List.append_nil _).symm

/-- After the fetch, every access writes one word. -/
theorem finish_log {op : Operation} {a t : ℕ} {buffer block : OramBlock D} {draws : SqrtDraws C}
    {out : C.Sealed} (h : finish (loggedSqrtStub S) K op a t buffer draws block w = (.ok out, w')) :
    w'.server.2 = w.server.2 ++ .writeSqrtMemory ::
      if w.client.counter + 1 = K.sqrtM then [.sqrtPermute] else [] := by
  rw [finish] at h
  split at h
  · cases h
  simp only at h
  generalize (C.encryptBlock draws.iv (if op = .kRead then block else buffer)) = content at h
  cases hwrite : writeBlock (loggedSqrtStub S) t content w with
  | mk r w₁ =>
    obtain ⟨hlog, hclient⟩ := remote_log hwrite
    -- whether the outcome of the write is looked at or not, the permutation comes next
    have hrun : permuteOnFull (loggedSqrtStub S) K draws.perm w₁ = (.ok (), w') := by
      split at h
      next =>
        rw [Prog.attempt_bind, hwrite] at h
        obtain ⟨u, w₂, hpermute, hlast⟩ := Prog.bind_eq_ok h
        cases hlast
        exact Prog.mapError_eq_ok hpermute
      next =>
        obtain ⟨u, w₂, hmapped, hrest⟩ := Prog.bind_eq_ok h
        obtain ⟨u', w₃, hpermute, hlast⟩ := Prog.bind_eq_ok hrest
        cases hwrite.symm.trans (Prog.mapError_eq_ok hmapped)
        cases hlast
        exact Prog.mapError_eq_ok hpermute
    rw [permuteOnFull_log hrun, hlog, hclient, List.append_assoc, List.singleton_append]

/-- **One access, with a log.** -/
theorem access_logged {e : Option (ℕ × C.Sealed)} {w : SqrtSystem (SqrtOramServerStorage C)}
    (hw : w.Ready K e) (hsize : 0 < K.sqrtM) (hmask : K.words ≤ kInvalidMask) {op : Operation}
    (hop : op ≠ .kInvalid) {a : ℕ} (ha : a < K.words) {buffer : OramBlock D}
    (hbuffer : op ≠ .kRead → buffer.id = a ∧ buffer.isNormal = true) {draws : SqrtDraws C}
    (hperm : draws.perm.Perm (List.range K.words)) (log : List SqrtCall) :
    ∃ out w' e' b, access (loggedSqrtStub (OramService.sqrtStub C)) K op a buffer draws
        (w.withLog log) = (.ok out, w'.withLog (log ++ accessCalls K
          ((e.map fun e => (C.decryptBlock e.2).2).filter (blockEqual a)).isSome
          (w.client.counter + 1 = K.sqrtM))) ∧
      w'.Ready K e' ∧ w.valueOf a = some b ∧
      (∀ k, w'.valueOf k =
        if k = a then some (if op = .kRead then b else buffer) else w.memory k) ∧
      (C.decryptBlock out).2 = (if op = .kRead then b else buffer) ∧
      ∃ t, EpochStep K (t, out) e' w w' := by
  have hsim := simulates_loggedSqrtStub (OramService.sqrtStub C)
  obtain ⟨out, w', e', b, hrun, hspec⟩ := access_spec hw hsize hmask hop ha hbuffer hperm
  obtain ⟨log', hlogged⟩ := run_logged (relates_access hsim op a buffer draws) hrun log
  refine ⟨out, w', e', b, ?_, hspec⟩
  -- the steps of the access, with the log
  obtain ⟨t, -, ht, -⟩ := hw.memory_eq ha
  obtain ⟨b₀, n, hfetch, -⟩ := fetch_spec hw.toStored hsize ht
    (hw.next_le.trans_lt (hw.counter_lt hsize))
  obtain ⟨log₁, hscan⟩ := run_logged (relates_scanShelter hsim a _ none)
    (scan_stored hw.toStored hsize a) log
  obtain ⟨log₂, hfetch'⟩ := run_logged (relates_fetch (K := K) hsim a t) hfetch log
  have hsteps := hlogged
  rw [access_eq (w := w.withLog log) hw.initialized hop ht, Prog.bind_ok hfetch'] at hsteps
  have hlog : log' = log ++ List.replicate K.sqrtM (.readSqrtMemory .kShelter) ++
      [.readSqrtMemory (if ((e.map fun e => (C.decryptBlock e.2).2).filter
        (blockEqual a)).isSome then .kDummy else .kMainMemory)] ++ .writeSqrtMemory ::
        if w.client.counter + 1 = K.sqrtM then [.sqrtPermute] else [] := by
    have hend := finish_log hsteps
    have hbegin := fetch_log hscan hfetch'
    exact hend.trans (congrArg (· ++ _) hbegin)
  rw [hlogged, hlog, accessCalls]
  simp only [List.append_assoc, List.singleton_append, decide_eq_true_eq]

end SquareRootOramController

/-! ## A run, access by access

An address is in the shelter exactly if the access before was to it, in the same epoch.
The scan clears the shelter, and every access writes one word back. -/

namespace SqrtRequest

/-- `Access`, with a server that keeps a log. -/
def runLogged (K : SquareRootOramConfig) (r : SqrtRequest C) :
    Prog Exit (SqrtSystem (SqrtOramServerStorage C × List SqrtCall)) C.Sealed :=
  access (loggedSqrtStub (OramService.sqrtStub C)) K r.op r.address r.buffer r.draws

/-- The `i`-th access is in the epoch of the one before it, and to the same address. -/
def Repeats (K : SquareRootOramConfig) (requests : List (SqrtRequest C)) (i : ℕ) : Prop :=
  i % K.sqrtM ≠ 0 ∧ requests[i - 1]?.map address = requests[i]?.map address

instance (requests : List (SqrtRequest C)) (i : ℕ) : Decidable (Repeats K requests i) :=
  inferInstanceAs (Decidable (_ ∧ _))

/-- What the `i`-th access of a run sends. -/
def calls (K : SquareRootOramConfig) (requests : List (SqrtRequest C)) (i : ℕ) : List SqrtCall :=
  accessCalls K (Repeats K requests i) ((i + 1) % K.sqrtM = 0)

end SqrtRequest

/-- What holds after the accesses `past`, all to addresses of `loaded`. -/
structure SqrtSystem.Recent (K : SquareRootOramConfig) (loaded : ℕ → Prop)
    (past : List (SqrtRequest C)) (w : SqrtSystem (SqrtOramServerStorage C)) : Prop where
  counter : w.client.counter = past.length % K.sqrtM
  normal : ∀ a, loaded a → ∃ b, w.memory a = some b ∧ b.isNormal = true
  /-- the shelter is free, or has the block of the last access -/
  shelter : ∃ e, w.Ready K e ∧
    if past.length % K.sqrtM = 0 then e = none
    else ∃ t c r, e = some (t, c) ∧ past.getLast? = some r ∧
      (C.decryptBlock c).2.id = r.address ∧ (C.decryptBlock c).2.isNormal = true

/-- The value of a loaded address is a real block of that address. -/
theorem SqrtSystem.Recent.value_real {loaded : ℕ → Prop} {past : List (SqrtRequest C)}
    {w : SqrtSystem (SqrtOramServerStorage C)} (hw : w.Recent K loaded past)
    {e : Option (ℕ × C.Sealed)} (hready : w.Ready K e)
    (hentry : if past.length % K.sqrtM = 0 then e = none
      else ∃ t c r, e = some (t, c) ∧ past.getLast? = some r ∧
        (C.decryptBlock c).2.id = r.address ∧ (C.decryptBlock c).2.isNormal = true)
    {a : ℕ} (ha : loaded a) (hlt : a < K.words) {b : OramBlock D} (hb : w.valueOf a = some b) :
    b.id = a ∧ b.isNormal = true := by
  -- what the memory has
  have hmemory : w.memory a = some b → b.id = a ∧ b.isNormal = true := by
    intro h
    obtain ⟨b₁, hb₁, hnormal⟩ := hw.normal a ha
    obtain ⟨t, b₂, -, -, -, hid, hb₂⟩ := hready.memory_eq hlt
    cases h.symm.trans hb₁
    cases h.symm.trans hb₂
    exact ⟨hid, hnormal⟩
  split at hentry
  next =>
    subst hentry
    rw [hready.valueOf_none] at hb
    exact hmemory hb
  next =>
    obtain ⟨t, c, r, rfl, -, -, hnormal⟩ := hentry
    rw [hready.valueOf_some] at hb
    split at hb
    next h =>
      cases hb
      exact ⟨h.symm, hnormal⟩
    next => exact hmemory hb

namespace SqrtRequest

/-- The counter of an epoch. -/
theorem succ_mod {m : ℕ} (hm : 0 < m) (n : ℕ) :
    (n + 1) % m = if n % m + 1 = m then 0 else n % m + 1 := by
  have hlt := Nat.mod_lt n hm
  rw [← Nat.mod_add_mod]
  split
  next h => rw [h, Nat.mod_self]
  next h => exact Nat.mod_eq_of_lt (by omega)

/-- An access finds its block in the shelter exactly if it repeats the last one. -/
theorem hit_eq_repeats {requests past rest : List (SqrtRequest C)} {r : SqrtRequest C}
    (hsplit : requests = past ++ r :: rest) {e : Option (ℕ × C.Sealed)}
    (he : if past.length % K.sqrtM = 0 then e = none
      else ∃ t c q, e = some (t, c) ∧ past.getLast? = some q ∧
        (C.decryptBlock c).2.id = q.address ∧ (C.decryptBlock c).2.isNormal = true) :
    ((e.map fun e => (C.decryptBlock e.2).2).filter (blockEqual r.address)).isSome =
      decide (Repeats K requests past.length) := by
  split at he
  next hzero =>
    rw [he, decide_eq_false fun h => h.1 hzero]
    rfl
  next hzero =>
    obtain ⟨t, c, q, rfl, hlast, hid, hnormal⟩ := he
    have hr : requests[past.length]? = some r := by
      rw [hsplit, List.getElem?_append_right (Nat.le_refl _), Nat.sub_self]
      rfl
    have hq : requests[past.length - 1]? = some q := by
      have hpos : past.length ≠ 0 := fun h => hzero (by rw [h, Nat.zero_mod])
      rw [hsplit, List.getElem?_append_left (by omega), ← List.getLast?_eq_getElem?, hlast]
    have hrepeats : Repeats K requests past.length ↔ q.address = r.address := by
      rw [Repeats, hq, hr, and_iff_right hzero]
      exact Option.some_inj
    rw [Option.map_some, Option.filter_some, decide_eq_decide.mpr hrepeats]
    by_cases haddr : q.address = r.address
    · rw [if_pos (blockEqual_iff.mpr ⟨hid.trans haddr, hnormal⟩), decide_eq_true haddr]
      rfl
    · rw [if_neg fun h => haddr (hid.symm.trans (blockEqual_iff.mp h).1), decide_eq_false haddr]
      rfl

/-- **One access of a run.** -/
theorem runLogged_spec (hsize : 0 < K.sqrtM) (hmask : K.words ≤ kInvalidMask) {loaded : ℕ → Prop}
    (hloaded : ∀ a, loaded a → a < K.words) {requests past rest : List (SqrtRequest C)}
    {r : SqrtRequest C} (hsplit : requests = past ++ r :: rest) (hr : r.Proper K)
    (hop : r.op ≠ .kInvalid) (haddr : loaded r.address)
    {w : SqrtSystem (SqrtOramServerStorage C)} (hw : w.Recent K loaded past)
    (log : List SqrtCall) :
    ∃ (out : C.Sealed) (w' : SqrtSystem (SqrtOramServerStorage C)),
      r.runLogged K (w.withLog log) =
        (.ok out, w'.withLog (log ++ calls K requests past.length)) ∧
      w'.Recent K loaded (past ++ [r]) := by
  obtain ⟨e, hready, hentry⟩ := hw.shelter
  obtain ⟨out, w', e', b, hrun, hready', hvalue, hvalues, hsealed, t, hepoch⟩ :=
    access_logged hready hsize hmask hop (hloaded _ haddr)
      (fun h => hr.buffer_named (Operation.eq_kWrite h hop)) hr.perm log
  refine ⟨out, w', ?_, ?_⟩
  · rw [runLogged, hrun, calls, hit_eq_repeats hsplit hentry, hw.counter, succ_mod hsize]
    congr 4
    split
    next hfull => rw [decide_eq_true hfull]; rfl
    next hfull => rw [decide_eq_false hfull]; rfl
  · -- the block that was written is a real one of the address
    have hb := hw.value_real hready hentry haddr (hloaded _ haddr) hvalue
    have hout : (C.decryptBlock out).2.id = r.address ∧ (C.decryptBlock out).2.isNormal = true := by
      rw [hsealed]
      split
      next => exact hb
      next h => exact hr.buffer_named (Operation.eq_kWrite h hop)
    have hlen : (past ++ [r]).length % K.sqrtM =
        if w.client.counter + 1 = K.sqrtM then 0 else w.client.counter + 1 := by
      rw [List.length_append, List.length_singleton, succ_mod hsize, hw.counter]
    rw [EpochStep] at hepoch
    split at hepoch
    next hfull =>
      rw [if_pos hfull] at hlen
      obtain ⟨rfl, hcounter⟩ := hepoch
      refine ⟨hcounter.trans hlen.symm, fun a ha => ?_, none, hready', ?_⟩
      · rw [← hready'.valueOf_none, hvalues]
        split
        next => exact ⟨_, rfl, hsealed ▸ hout.2⟩
        next => exact hw.normal a ha
      · rw [if_pos hlen]
    next hfull =>
      rw [if_neg hfull] at hlen
      obtain ⟨rfl, hcounter, hmemory⟩ := hepoch
      refine ⟨hcounter.trans hlen.symm, fun a ha => ?_, _, hready', ?_⟩
      · rw [hmemory]
        exact hw.normal a ha
      · rw [if_neg (by rw [hlen]; exact Nat.succ_ne_zero _)]
        exact ⟨t, out, r, rfl, List.getLast?_concat, hout⟩

end SqrtRequest

/-! ## Whole runs -/

/-- Traces that go in equal steps are equal if they are equal step by step. -/
theorem flatMap_range_eq_iff {ω : Type} {f g : ℕ → List ω} {n : ℕ}
    (hlen : ∀ i < n, (f i).length = (g i).length) :
    (List.range n).flatMap f = (List.range n).flatMap g ↔ ∀ i < n, f i = g i := by
  have hlengths : ((List.range n).map f).map List.length =
      ((List.range n).map g).map List.length := by
    rw [List.map_map, List.map_map]
    exact List.map_congr_left fun i hi => hlen i (List.mem_range.mp hi)
  rw [List.flatMap_def, List.flatMap_def]
  constructor
  · intro h i hi
    have hmap := List.eq_iff_flatten_eq.mpr ⟨h, hlengths⟩
    exact List.map_inj_left.mp hmap i (List.mem_range.mpr hi)
  · intro h
    rw [List.map_congr_left fun i hi => h i (List.mem_range.mp hi)]

theorem length_accessCalls (K : SquareRootOramConfig) (hit full : Bool) :
    (accessCalls K hit full).length = K.sqrtM + 2 + if full then 1 else 0 := by
  rw [accessCalls, List.length_append, List.length_replicate, List.length_cons, List.length_cons]
  cases full <;> rfl

/-- The calls of an access show whether it was a hit. -/
theorem accessCalls_inj {hit hit' full : Bool} :
    accessCalls K hit full = accessCalls K hit' full ↔ hit = hit' := by
  constructor
  · intro h
    have hrest := List.append_cancel_left h
    cases hit <;> cases hit' <;> first | rfl | cases hrest
  · intro h
    rw [h]

open SqrtRequest in
/-- What a run sends is the calls of its accesses, one after the other. -/
theorem logged_sqrt_run (hsqrt : K.blockNum ≠ 0 → K.sqrtM ≠ 0) (hmask : K.words ≤ kInvalidMask)
    {loaded : ℕ → Prop} (hloaded : ∀ a, loaded a → a < K.words)
    {w : SqrtSystem (SqrtOramServerStorage C)} (hw : w.Recent (C := C) K loaded [])
    {requests : List (SqrtRequest C)}
    (hproper : ∀ r ∈ requests, r.Proper K ∧ r.op ≠ .kInvalid ∧ loaded r.address) :
    ∃ (outs : List C.Sealed) (v : SqrtSystem (SqrtOramServerStorage C × List SqrtCall)),
      Prog.trace Exit.fatal (runLogged K) requests (w.withLog []) = some (outs.map .ok, v) ∧
      v.server.2 = (List.range requests.length).flatMap (calls K requests) := by
  have hrun : ∃ (outs : List C.Sealed) (v : SqrtSystem (SqrtOramServerStorage C × List SqrtCall)),
      Prog.trace Exit.fatal (runLogged K) requests (w.withLog []) = some (outs.map .ok, v) ∧
      SqrtSystem.Recent K loaded requests ⟨v.client, v.server.1⟩ ∧
      v.server.2 = (List.range requests.length).flatMap (calls K requests) := by
    refine Prog.trace_total Exit.fatal
      (fun (r : SqrtRequest C) _ => r.Proper K ∧ r.op ≠ .kInvalid ∧ loaded r.address)
      (fun past (v : SqrtSystem (SqrtOramServerStorage C × List SqrtCall)) =>
        SqrtSystem.Recent K loaded past ⟨v.client, v.server.1⟩ ∧
          v.server.2 = (List.range past.length).flatMap (calls K requests)) ?_ ⟨hw, rfl⟩
      (Prog.Along.of_forall (fun r hr _ => hproper r hr) _)
    rintro past r rest v hsplit ⟨hr, hop, haddr⟩ ⟨hrecent, hlog⟩
    have hsize : 0 < K.sqrtM := by
      have hwords := hloaded _ haddr
      rw [SquareRootOramConfig.words] at hwords
      by_contra h
      have hblocks : K.blockNum ≠ 0 := by omega
      exact hsqrt hblocks (by omega)
    obtain ⟨out, w', hrun, hrecent'⟩ := runLogged_spec hsize hmask hloaded hsplit hr hop haddr
      hrecent v.server.2
    refine ⟨out, _, hrun, hrecent', ?_⟩
    rw [List.length_append, List.length_singleton, List.range_succ, List.flatMap_append, ← hlog,
      List.flatMap_cons, List.flatMap_nil, List.append_nil]
    rfl
  obtain ⟨outs, v, hrun, -, hlog⟩ := hrun
  exact ⟨outs, v, hrun, hlog⟩

/-- The load counts no access. -/
theorem fillWithData_counter {S : SqrtStub C σ} (garbage : ℕ → OramBlock D)
    (data : List (OramBlock D)) (draws : SqrtFillDraws C) :
    Prog.Keeps (fun w : SqrtSystem σ => w.client.counter = 0)
      (fillWithData S K garbage data draws) := by
  rw [fillWithData]
  split
  · exact .throw _
  · refine .bind (fun w hw => hw) fun _ => .bind (fun w hw => ?_) fun _ w hw => hw
    rw [remote_client]
    exact hw

/-- After a load, the memory has the real blocks of the data. -/
theorem recent_of_fillWithData {garbage : ℕ → OramBlock D} {data : List (OramBlock D)}
    {fill : SqrtFillDraws C} {w : SqrtSystem (SqrtOramServerStorage C)}
    (hfill : fillWithData (OramService.sqrtStub C) K garbage data fill (SqrtSystem.init C K) =
      (.ok (), w))
    (hids : (data.map OramBlock.id).Perm (List.range data.length))
    (hperm : fill.perm.Perm (List.range K.words)) :
    (∀ a, (∃ b ∈ data, b.isNormal = true ∧ b.id = a) → a < K.words) ∧
      w.Recent (C := C) K (fun a => ∃ b ∈ data, b.isNormal = true ∧ b.id = a) [] := by
  obtain ⟨hready, hmemory⟩ := fillWithData_spec hfill hids hperm
  have hlen : data.length ≤ K.words := by
    by_contra h
    rw [fillWithData, if_pos (Nat.lt_of_not_le h)] at hfill
    cases hfill
  have hlt : ∀ a, (∃ b ∈ data, b.isNormal = true ∧ b.id = a) → a < K.words := by
    rintro a ⟨b, hb, -, rfl⟩
    have hmem := hids.mem_iff.mp (List.mem_map_of_mem hb)
    exact Nat.lt_of_lt_of_le (List.mem_range.mp hmem) hlen
  have hcounter := fillWithData_counter (S := OramService.sqrtStub C) (K := K) garbage data fill
    (SqrtSystem.init C K) rfl
  rw [hfill] at hcounter
  refine ⟨hlt, ⟨hcounter.trans (Nat.zero_mod _).symm, fun a ha => ?_, none, hready, ?_⟩⟩
  · rw [hmemory a (hlt a ha)]
    obtain ⟨b, hb, hnormal, rfl⟩ := ha
    refine ⟨b, ?_, hnormal⟩
    -- the data comes before its padding, and has the id once
    have hfind : data.find? (fun c => decide (c.id = b.id)) = some b := by
      cases hcase : data.find? (fun c => decide (c.id = b.id)) with
      | none => exact absurd (decide_eq_true rfl) (List.find?_eq_none.mp hcase b hb)
      | some c =>
        have hc : c.id = b.id := by simpa only [decide_eq_true_iff] using List.find?_some hcase
        have hinj := List.inj_on_of_nodup_map (hids.nodup_iff.mpr List.nodup_range)
        rw [hinj (List.mem_of_find?_eq_some hcase) hb hc]
    rw [loadedWord, padded, List.find?_append, hfind, Option.some_or]
  · rw [List.length_nil, if_pos (Nat.zero_mod _)]

open SqrtRequest in
/-- **What repeated accesses show.** Two sequences of accesses to loaded blocks,
of one length and from one loaded instance, whatever permutations are drawn: they
send the same kinds of requests if and only if, within the epochs, they repeat
the last address at the same accesses. -/
theorem sqrtOram_calls_eq_iff {m : ℕ} (hK : SquareRootOramConfig.new m = .ok K)
    (hmask : K.words ≤ kInvalidMask) {garbage : ℕ → OramBlock D} {data : List (OramBlock D)}
    {fill : SqrtFillDraws C} {w : SqrtSystem (SqrtOramServerStorage C)}
    (hfill : fillWithData (OramService.sqrtStub C) K garbage data fill (SqrtSystem.init C K) =
      (.ok (), w))
    (hids : (data.map OramBlock.id).Perm (List.range data.length))
    (hperm : fill.perm.Perm (List.range K.words)) {requests requests' : List (SqrtRequest C)}
    (hproper : ∀ r ∈ requests, r.Proper K ∧ r.op ≠ .kInvalid ∧
      ∃ b ∈ data, b.isNormal = true ∧ b.id = r.address)
    (hproper' : ∀ r ∈ requests', r.Proper K ∧ r.op ≠ .kInvalid ∧
      ∃ b ∈ data, b.isNormal = true ∧ b.id = r.address)
    (hsame : requests.length = requests'.length) :
    ∃ (outs outs' : List C.Sealed)
      (v v' : SqrtSystem (SqrtOramServerStorage C × List SqrtCall)),
      Prog.trace Exit.fatal (runLogged K) requests (w.withLog []) = some (outs.map .ok, v) ∧
      Prog.trace Exit.fatal (runLogged K) requests' (w.withLog []) = some (outs'.map .ok, v') ∧
      (v.server.2 = v'.server.2 ↔
        ∀ i < requests.length, Repeats K requests i ↔ Repeats K requests' i) := by
  have hsqrt := SquareRootOramConfig.sqrtM_ne_zero hK
  obtain ⟨hloaded, hw⟩ := recent_of_fillWithData hfill hids hperm
  obtain ⟨outs, v, hrun, hlog⟩ := logged_sqrt_run hsqrt hmask hloaded hw hproper
  obtain ⟨outs', v', hrun', hlog'⟩ := logged_sqrt_run hsqrt hmask hloaded hw hproper'
  refine ⟨outs, outs', v, v', hrun, hrun', ?_⟩
  rw [hlog, hlog', ← hsame, flatMap_range_eq_iff fun i _ => ?_]
  · refine forall_congr' fun i => imp_congr_right fun _ => ?_
    rw [calls, calls, accessCalls_inj, decide_eq_decide]
  · rw [calls, calls, length_accessCalls, length_accessCalls]

theorem readWord_proper (as : List ℕ) (has : ∀ a ∈ as, a < 2) :
    ∀ r ∈ as.map readWord, r.Proper smallSqrt ∧ r.op ≠ .kInvalid ∧
      ∃ b ∈ smallSqrtData, b.isNormal = true ∧ b.id = r.address := by
  intro r hr
  obtain ⟨a, ha, rfl⟩ := List.mem_map.mp hr
  have hperm : [1, 2, 3, 0].Perm (List.range smallSqrt.words) := by decide
  refine ⟨⟨nofun, hperm⟩, nofun, ?_⟩
  match a, has a ha with
  | 0, _ => exact ⟨_, List.mem_cons_self, rfl, rfl⟩
  | 1, _ => exact ⟨_, List.mem_cons_of_mem _ List.mem_cons_self, rfl, rfl⟩

/-- Reading a word twice in an epoch is seen: the second read goes to a dummy. -/
theorem sqrtOram_shows_repeats :
    SquareRootOramConfig.new 2 = .ok smallSqrt ∧
    fillWithData (OramService.sqrtStub _) smallSqrt (fun _ => dummyWord) smallSqrtData smallSqrtFill
      (SqrtSystem.init _ smallSqrt) = (.ok (), smallSqrtLoaded) ∧
    ∃ outs outs' v v',
      Prog.trace Exit.fatal (SqrtRequest.runLogged smallSqrt) ([0, 0].map readWord)
        (smallSqrtLoaded.withLog []) = some (outs, v) ∧
      Prog.trace Exit.fatal (SqrtRequest.runLogged smallSqrt) ([0, 1].map readWord)
        (smallSqrtLoaded.withLog []) = some (outs', v') ∧
      v.server.2 ≠ v'.server.2 := by
  refine ⟨smallSqrt_new, smallSqrt_fill, _, _, _, _, rfl, rfl, ?_⟩
  decide

/-- Two runs over two epochs, with no address repeated inside them. -/
theorem sqrtOram_calls_eq_iff_small :
    ∃ (outs outs' : List (Codec.plain ℕ).Sealed)
      (v v' : SqrtSystem (SqrtOramServerStorage (Codec.plain ℕ) × List SqrtCall)),
      Prog.trace Exit.fatal (SqrtRequest.runLogged smallSqrt) ([0, 1, 1].map readWord)
        (smallSqrtLoaded.withLog []) = some (outs.map .ok, v) ∧
      Prog.trace Exit.fatal (SqrtRequest.runLogged smallSqrt) ([1, 0, 1].map readWord)
        (smallSqrtLoaded.withLog []) = some (outs'.map .ok, v') ∧
      v.server.2 = v'.server.2 := by
  obtain ⟨outs, outs', v, v', hrun, hrun', hiff⟩ := sqrtOram_calls_eq_iff smallSqrt_new (by decide)
    smallSqrt_fill (by decide) (by decide) (readWord_proper [0, 1, 1] (by decide))
    (readWord_proper [1, 0, 1] (by decide)) rfl
  exact ⟨outs, outs', v, v', hrun, hrun', hiff.mpr (by decide)⟩

end ObliviousRam
