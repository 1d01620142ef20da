import ObliviousRam.SqrtTags
import ObliviousRam.SqrtSimulation

set_option autoImplicit false

/-!
# Failed calls of a square-root ORAM

One remote call of an access fails, before or after the server has carried it
out. The file follows the fault through the access: the scan of the shelter, the
read, the write-back, the permutation.

A failed access should report the failure, keep the value of every address but
the one it writes, and leave the position map right. It does not in four ways:
the scan has cleared slots that nobody writes back; a read does not look at the
status of its write-back; the block of another address is dropped from the
shelter as in any access; and a permutation that took effect is not followed by
`UpdatePosition`. `FaultHarmless` is the condition under which none of these
happens.
-/

namespace ObliviousRam

open SqrtOramServerStorage SqrtSystem SquareRootOramController

variable {D σ : Type} {C : Codec D} {K : SquareRootOramConfig} {f : Fault}

/-! ## A connection with a fault

The fault is a number: how many calls pass before it. Each part of an access takes its
share of that number, so there are two lemmas for each: the fault comes later, or it
comes now. -/

/-- The stub whose calls pass over the faulty connection. -/
def SqrtStub.faulty (f : Fault) (S : SqrtStub C σ) : SqrtStub C (σ × Option ℕ) where
  loadSqrtOram := fun data => f.inject (S.loadSqrtOram data)
  readSqrtMemory := fun area tag => f.inject (S.readSqrtMemory area tag)
  writeSqrtMemory := fun pos content => f.inject (S.writeSqrtMemory pos content)
  sqrtPermute := fun perms => f.inject (S.sqrtPermute perms)

/-- The stub of an ordinary server, with one faulty call. -/
abbrev faultySqrtStub (C : Codec D) (f : Fault) :
    SqrtStub C (SqrtOramServerStorage C × Option ℕ) := (OramService.sqrtStub C).faulty f

theorem SqrtStub.faulty_simulates (f : Fault) (S : SqrtStub C σ) :
    S.Simulates Fault.Over (S.faulty f) where
  load := fun _ => f.relates_inject _
  read := fun _ _ => f.relates_inject _
  write := fun _ _ => f.relates_inject _
  permute := fun _ => f.relates_inject _

/-- The system with `k` calls to go before the fault, or with the fault behind it. -/
def SqrtSystem.withFault (w : SqrtSystem σ) (k : Option ℕ) : SqrtSystem (σ × Option ℕ) :=
  ⟨w.client, w.server, k⟩

namespace SquareRootOramController

/-- Once the fault is over, a program runs as it always does. -/
theorem run_over {α : Type} {m : Prog Exit (SqrtSystem σ) α}
    {m' : Prog Exit (SqrtSystem (σ × Option ℕ)) α} (h : Prog.Relates (Lift Fault.Over) Eq m m')
    {w w' : SqrtSystem σ} {r : Except Exit α} (hm : m w = (r, w')) :
    m' (w.withFault none) = (r, w'.withFault none) := by
  obtain ⟨hagree, hclient, hserver⟩ := h w (w.withFault none) ⟨rfl, rfl⟩
  cases hm' : m' (w.withFault none) with
  | mk r' v =>
    rw [Prog.agree_eq, hm, hm'] at hagree
    rw [hm, hm'] at hclient hserver
    obtain ⟨client, server⟩ := v
    cases hagree
    cases hclient
    cases hserver
    rfl

/-- A fault that is still to come lets the call pass. -/
theorem remote_later {α : Type} {location : String} {call : Prog String σ α}
    {w w' : SqrtSystem σ} {r : Except Exit α} {k : ℕ} (h : remote location call w = (r, w')) :
    remote location (f.inject call) (w.withFault (some (k + 1))) = (r, w'.withFault (some k)) := by
  rw [remote] at h ⊢
  simp only [withFault]
  cases hcall : call w.server with
  | mk q s =>
    rw [hcall] at h
    rw [Fault.inject_later f hcall]
    cases q <;> (cases h; rfl)

/-- The fault: the client is told of a server error. -/
theorem remote_now {α : Type} (location : String) (call : Prog String σ α) (w : SqrtSystem σ) :
    remote location (f.inject call) (w.withFault (some 0)) =
      (.error (.status (.make .kServerError f.message location)),
        (if f.tookEffect then (remote location call w).2 else w).withFault none) := by
  have hserver : (remote location call w).2 = { w with server := (call w.server).2 } := by
    rw [remote]
    cases call w.server with
    | mk q s => cases q <;> rfl
  rw [hserver, remote]
  simp only [withFault, Fault.inject_now, fail_apply]
  split <;> rfl

/-! ## The scan -/

theorem scan_free_later {w : SqrtSystem (SqrtOramServerStorage C)} {n : ℕ}
    (hw : w.server.shelter = List.replicate n (freeSlot C)) (address : ℕ)
    (found : Option (OramBlock D)) :
    ∀ (is : List ℕ) (k : ℕ), (∀ i ∈ is, i < n) → is.length ≤ k →
      scanShelter (faultySqrtStub C f) address is found (w.withFault (some k)) =
        (.ok found, w.withFault (some (k - is.length))) := by
  intro is
  induction is with
  | nil => exact fun k _ _ => rfl
  | cons i is ih =>
    intro k hlt hk
    cases k with
    | zero => cases hk
    | succ k =>
      have hslot : w.server.shelter[i]? = some (kInvalidMask, none) := by
        rw [hw, List.getElem?_replicate, if_pos (hlt i List.mem_cons_self), freeSlot]
      have hread := read_shelter_slot hslot
      rw [hw, List.set_replicate_self, ← hw] at hread
      rw [scanShelter, List.length_cons, Nat.add_sub_add_right]
      refine (Prog.bind_ok (remote_later hread)).trans ?_
      exact ih k (fun j hj => hlt j (List.mem_cons_of_mem _ hj)) (Nat.le_of_succ_le_succ hk)

theorem scan_free_now {w : SqrtSystem (SqrtOramServerStorage C)} {n : ℕ}
    (hw : w.server.shelter = List.replicate n (freeSlot C)) (address : ℕ)
    (found : Option (OramBlock D)) :
    ∀ (is : List ℕ) (k : ℕ), (∀ i ∈ is, i < n) → k < is.length →
      scanShelter (faultySqrtStub C f) address is found (w.withFault (some k)) =
        (.error (.status (.make .kServerError f.message "ReadShelter")), w.withFault none) := by
  intro is
  induction is with
  | nil => exact fun k _ hk => absurd hk (Nat.not_lt_zero k)
  | cons i is ih =>
    intro k hlt hk
    have hslot : w.server.shelter[i]? = some (kInvalidMask, none) := by
      rw [hw, List.getElem?_replicate, if_pos (hlt i List.mem_cons_self), freeSlot]
    have hread := read_shelter_slot hslot
    rw [hw, List.set_replicate_self, ← hw] at hread
    cases k with
    | zero =>
      rw [scanShelter]
      refine Prog.bind_error ((remote_now _ _ w).trans ?_)
      rw [hread, ite_self]
    | succ k =>
      rw [scanShelter]
      refine (Prog.bind_ok (remote_later hread)).trans ?_
      exact ih k (fun j hj => hlt j (List.mem_cons_of_mem _ hj)) (Nat.lt_of_succ_lt_succ hk)

/-- What a fault during the scan leaves of the shelter: all of it if the first
read has failed without effect, and otherwise nothing. -/
def scannedUpTo (K : SquareRootOramConfig) (f : Fault) (k : ℕ)
    (w : SqrtSystem (SqrtOramServerStorage C)) : SqrtSystem (SqrtOramServerStorage C) :=
  if k = 0 ∧ f.tookEffect = false then w else cleared K w

/-- The first slot is the only one with something in it. -/
theorem scan_first {e : Option (ℕ × C.Sealed)} {w : SqrtSystem (SqrtOramServerStorage C)}
    (hw : w.Stored K e) (hsize : 0 < K.sqrtM) :
    remote "ReadShelter" ((OramService.sqrtStub C).readSqrtMemory .kShelter 0) w =
      (.ok (e.map Prod.snd), cleared K w) := by
  obtain ⟨n, hn⟩ : ∃ n, K.sqrtM = n + 1 := ⟨K.sqrtM - 1, by omega⟩
  have hslot : ∃ tag, w.server.shelter[0]? = some (tag, e.map Prod.snd) := by
    rw [hw.shelter_eq]
    cases e with
    | none => exact ⟨kInvalidMask, by rw [shelterWith, hn, List.replicate_succ]; rfl⟩
    | some e => exact ⟨e.1, rfl⟩
  obtain ⟨tag, hslot⟩ := hslot
  rw [read_shelter_slot hslot, cleared]
  congr 3
  rw [hw.shelter_eq]
  cases e with
  | none => rw [shelterWith, List.set_replicate_self]
  | some e =>
    rw [shelterWith, shelterWith, List.set_cons_zero, hn, List.replicate_succ]
    rfl

/-- The scan, with the fault behind it. -/
theorem scan_later {e : Option (ℕ × C.Sealed)} {w : SqrtSystem (SqrtOramServerStorage C)}
    (hw : w.Stored K e) (hsize : 0 < K.sqrtM) (address : ℕ) {k : ℕ} (hk : K.sqrtM ≤ k) :
    scanShelter (faultySqrtStub C f) address (List.range K.sqrtM) none (w.withFault (some k)) =
      (.ok ((e.map fun e => (C.decryptBlock e.2).2).filter (blockEqual address)),
        (cleared K w).withFault (some (k - K.sqrtM))) := by
  obtain ⟨n, hn⟩ : ∃ n, K.sqrtM = n + 1 := ⟨K.sqrtM - 1, by omega⟩
  obtain ⟨k, rfl⟩ : ∃ j, k = j + 1 := ⟨k - 1, by omega⟩
  have hrest : ∀ found, scanShelter (faultySqrtStub C f) address ((List.range n).map Nat.succ)
      found ((cleared K w).withFault (some k)) =
        (.ok found, (cleared K w).withFault (some (k + 1 - K.sqrtM))) := by
    intro found
    rw [scan_free_later (stored_cleared hw).shelter_eq, List.length_map, List.length_range, hn,
      Nat.add_sub_add_right]
    · intro i hi
      obtain ⟨j, hj, rfl⟩ := List.mem_map.mp hi
      exact hn ▸ Nat.succ_lt_succ (List.mem_range.mp hj)
    · rw [List.length_map, List.length_range]
      omega
  conv_lhs => rw [hn, List.range_succ_eq_map, scanShelter]
  refine (Prog.bind_ok (remote_later (scan_first hw hsize))).trans ?_
  cases e with
  | none => exact hrest none
  | some e =>
    simp only [Option.map_some, Option.filter_some]
    exact hrest _

theorem scan_now {e : Option (ℕ × C.Sealed)} {w : SqrtSystem (SqrtOramServerStorage C)}
    (hw : w.Stored K e) (address : ℕ) {k : ℕ} (hk : k < K.sqrtM) :
    scanShelter (faultySqrtStub C f) address (List.range K.sqrtM) none (w.withFault (some k)) =
      (.error (.status (.make .kServerError f.message "ReadShelter")),
        (scannedUpTo K f k w).withFault none) := by
  obtain ⟨n, hn⟩ : ∃ n, K.sqrtM = n + 1 := ⟨K.sqrtM - 1, by omega⟩
  have hsize : 0 < K.sqrtM := Nat.zero_lt_of_lt hk
  rw [scannedUpTo]
  cases k with
  | zero =>
    conv_lhs => rw [hn, List.range_succ_eq_map, scanShelter]
    refine Prog.bind_error ((remote_now _ _ w).trans ?_)
    rw [scan_first hw hsize]
    cases f.tookEffect <;> simp
  | succ k =>
    rw [if_neg fun h => Nat.succ_ne_zero k h.1]
    conv_lhs => rw [hn, List.range_succ_eq_map, scanShelter]
    refine (Prog.bind_ok (remote_later (scan_first hw hsize))).trans ?_
    have hrest : ∀ found, scanShelter (faultySqrtStub C f) address ((List.range n).map Nat.succ)
        found ((cleared K w).withFault (some k)) =
          (.error (.status (.make .kServerError f.message "ReadShelter")),
            (cleared K w).withFault none) := by
      intro found
      apply scan_free_now (stored_cleared hw).shelter_eq
      · intro i hi
        obtain ⟨j, hj, rfl⟩ := List.mem_map.mp hi
        exact hn ▸ Nat.succ_lt_succ (List.mem_range.mp hj)
      · rw [List.length_map, List.length_range]
        omega
    cases e with
    | none => exact hrest none
    | some e => exact hrest _

/-! ## The read -/

/-- Main memory and dummies are read without a trace. -/
theorem remote_read {location : String} {area : SqrtArea} (harea : area ≠ .kShelter) (pos : ℕ)
    (w : SqrtSystem (SqrtOramServerStorage C)) :
    (remote location ((OramService.sqrtStub C).readSqrtMemory area pos) w).2 = w := by
  have hserver : ((OramService.sqrtStub C).readSqrtMemory area pos w.server).2 = w.server := by
    show (OramService.readSqrtMemory area pos w.server).2 = _
    cases area with
    | kShelter => exact absurd rfl harea
    | kMainMemory =>
      rw [OramService.readSqrtMemory]
      split
      · rfl
      simp only [Prog.mapError, readBlockFromMain]
      cases w.server.mainMemory[pos]? with
      | none =>
        simp only [readBlockFromDummy]
        cases w.server.dummy[pos - w.server.mainMemory.length]? <;> rfl
      | some data => rfl
    | kDummy =>
      rw [OramService.readSqrtMemory]
      split
      · rfl
      simp only [Prog.mapError, readBlockFromDummy]
      cases w.server.dummy[pos]? <;> rfl
  rw [remote]
  cases hread : (OramService.sqrtStub C).readSqrtMemory area pos w.server with
  | mk r s =>
    rw [hread] at hserver
    cases hserver
    cases r <;> rfl

theorem readMain_later (pos : ℕ) (w : SqrtSystem (SqrtOramServerStorage C)) (k : ℕ) :
    readMain (faultySqrtStub C f) pos (w.withFault (some (k + 1))) =
      ((readMain (OramService.sqrtStub C) pos w).1,
        (readMain (OramService.sqrtStub C) pos w).2.withFault (some k)) := by
  rw [readMain, readMain]
  cases hread : remote "ReadBlock" ((OramService.sqrtStub C).readSqrtMemory .kMainMemory pos) w with
  | mk r w₁ =>
    have hlater := remote_later (f := f) (k := k) hread
    cases r with
    | error e =>
      rw [Prog.bind_error hread]
      exact Prog.bind_error hlater
    | ok content =>
      rw [Prog.bind_ok hread]
      refine (Prog.bind_ok hlater).trans ?_
      cases content <;> rfl

theorem readDummy_later (pos : ℕ) (w : SqrtSystem (SqrtOramServerStorage C)) (k : ℕ) :
    readDummy (faultySqrtStub C f) pos (w.withFault (some (k + 1))) =
      ((readDummy (OramService.sqrtStub C) pos w).1,
        (readDummy (OramService.sqrtStub C) pos w).2.withFault (some k)) := by
  rw [readDummy, readDummy]
  cases hread : remote "ReadBlock" ((OramService.sqrtStub C).readSqrtMemory .kDummy pos) w with
  | mk r w₁ =>
    have hlater := remote_later (f := f) (k := k) hread
    cases r with
    | error e =>
      rw [Prog.bind_error hread]
      exact Prog.bind_error hlater
    | ok content =>
      rw [Prog.bind_ok hread]
      exact Prog.bind_ok hlater

theorem readMain_now (pos : ℕ) (w : SqrtSystem (SqrtOramServerStorage C)) :
    readMain (faultySqrtStub C f) pos (w.withFault (some 0)) =
      (.error (.status (.make .kServerError f.message "ReadBlock")), w.withFault none) := by
  refine Prog.bind_error ((remote_now _ _ w).trans ?_)
  rw [remote_read SqrtArea.noConfusion, ite_self]

theorem readDummy_now (pos : ℕ) (w : SqrtSystem (SqrtOramServerStorage C)) :
    readDummy (faultySqrtStub C f) pos (w.withFault (some 0)) =
      (.error (.status (.make .kServerError f.message "ReadBlock")), w.withFault none) := by
  refine Prog.bind_error ((remote_now _ _ w).trans ?_)
  rw [remote_read SqrtArea.noConfusion, ite_self]

/-- After a hit in the shelter, the dummy read goes through. -/
theorem hit_later {g : Exit → Exit} (pos : ℕ) (block : OramBlock D)
    (w : SqrtSystem (SqrtOramServerStorage C)) (k : ℕ) :
    (Prog.mapError g (readDummy (faultySqrtStub C f) pos) >>= fun _ => pure block)
        (w.withFault (some (k + 1))) =
      (((Prog.mapError g (readDummy (OramService.sqrtStub C) pos) >>= fun _ => pure block) w).1,
        ((Prog.mapError g (readDummy (OramService.sqrtStub C) pos) >>=
          fun _ => pure block) w).2.withFault (some k)) := by
  have hlater := readDummy_later (f := f) pos w k
  cases hread : readDummy (OramService.sqrtStub C) pos w with
  | mk r w₁ =>
    rw [hread] at hlater
    cases r with
    | ok u =>
      rw [Prog.bind_ok (Prog.mapError_ok hlater), Prog.bind_ok (Prog.mapError_ok hread)]
      rfl
    | error e =>
      rw [Prog.bind_error (Prog.mapError_error hlater), Prog.bind_error (Prog.mapError_error hread)]

/-- A fault that comes after the fetch does not disturb it. -/
theorem fetch_later {e : Option (ℕ × C.Sealed)} {w : SqrtSystem (SqrtOramServerStorage C)}
    (hw : w.Stored K e) (hsize : 0 < K.sqrtM) (a t j : ℕ) :
    fetch (faultySqrtStub C f) K a t (w.withFault (some (K.sqrtM + 1 + j))) =
      ((fetch (OramService.sqrtStub C) K a t w).1,
        (fetch (OramService.sqrtStub C) K a t w).2.withFault (some j)) := by
  have hplain := readShelter_of_scan (scan_stored hw hsize a)
  have hscan := scan_later (f := f) hw hsize a (k := K.sqrtM + 1 + j) (by omega)
  have hleft : K.sqrtM + 1 + j - K.sqrtM = j + 1 := by omega
  rw [hleft] at hscan
  have hfaulty := readShelter_of_scan hscan
  rw [fetch, fetch, Prog.attempt_bind, Prog.attempt_bind, hplain, hfaulty]
  cases (e.map fun e => (C.decryptBlock e.2).2).filter (blockEqual a) with
  | none =>
    simp only [Option.elim, OramStatus.make, ne_eq, not_true_eq_false, if_false]
    rw [Prog.mapError, readMain_later]
    rfl
  | some block =>
    simp only [Option.elim, Prog.get_bind, update, Prog.modify_bind]
    exact hit_later w.client.nextDummy block
      { cleared K w with client := { w.client with nextDummy := w.client.nextDummy + 1 } } j

/-- A fault during the fetch is reported. -/
theorem fetch_now {e : Option (ℕ × C.Sealed)} {w : SqrtSystem (SqrtOramServerStorage C)}
    (hw : w.Stored K e) (hsize : 0 < K.sqrtM) (a t : ℕ) {k : ℕ} (hk : k ≤ K.sqrtM) :
    ∃ st client, fetch (faultySqrtStub C f) K a t (w.withFault (some k)) =
        (.error (.status st),
          SqrtSystem.withFault { scannedUpTo K f k w with client := client } none) ∧
      st.errorCode = .kServerError ∧ client.positionMap = w.client.positionMap := by
  have hclient : (scannedUpTo K f k w).client = w.client := by
    rw [scannedUpTo]
    split <;> rfl
  rcases Nat.lt_or_eq_of_le hk with hk | rfl
  · have hread : readShelter (faultySqrtStub C f) K a (w.withFault (some k)) =
        (.error (.status (.make .kServerError f.message "ReadShelter")),
          (scannedUpTo K f k w).withFault none) := Prog.bind_error (scan_now hw a hk)
    refine ⟨OramStatus.append (.make .kServerError f.message "ReadShelter") (.make .kInvalidOperation
      "Square Root Oram Controller cannot read the block from the shelter" "InternalAccess"),
      (scannedUpTo K f k w).client, ?_, OramStatus.append_errorCode _ _, congrArg _ hclient⟩
    rw [fetch, Prog.attempt_bind, hread]
    rfl
  · have hscanned : scannedUpTo K f K.sqrtM w = cleared K w :=
      if_neg fun h => Nat.ne_of_gt hsize h.1
    have hscan := scan_later (f := f) hw hsize a (le_refl K.sqrtM)
    rw [Nat.sub_self] at hscan
    have hread := readShelter_of_scan hscan
    rw [fetch, Prog.attempt_bind, hread, hscanned]
    cases (e.map fun e => (C.decryptBlock e.2).2).filter (blockEqual a) with
    | none =>
      refine ⟨OramStatus.append (.make .kServerError f.message "ReadBlock") (.make .kInvalidOperation
        "Square Root Oram Controller cannot read the block from the main memory" "InternalAccess"),
        w.client, ?_, OramStatus.append_errorCode _ _, rfl⟩
      simp only [Option.elim, OramStatus.make, ne_eq, not_true_eq_false, if_false]
      exact Prog.mapError_error (readMain_now t (cleared K w))
    | some block =>
      refine ⟨OramStatus.append (.make .kServerError f.message "ReadBlock") (.make .kInvalidOperation
        "Square Root Oram Controller cannot read the block from the dummy area" "InternalAccess"),
        { w.client with nextDummy := w.client.nextDummy + 1 }, ?_,
        OramStatus.append_errorCode _ _, rfl⟩
      simp only [Option.elim, Prog.get_bind, update, Prog.modify_bind]
      exact Prog.bind_error (Prog.mapError_error (readDummy_now w.client.nextDummy
        { cleared K w with client := { w.client with nextDummy := w.client.nextDummy + 1 } }))

/-! ## The write-back and the permutation -/

/-- The shelter with the block of the access in it. -/
def sheltering (K : SquareRootOramConfig) (t : ℕ) (c : C.Sealed)
    (w : SqrtSystem (SqrtOramServerStorage C)) : SqrtSystem (SqrtOramServerStorage C) :=
  { w with server := { w.server with shelter := shelterWith C K.sqrtM (some (t, c)) } }

/-- The write-back, with the fault behind it. -/
theorem writeBlock_later {w : SqrtSystem (SqrtOramServerStorage C)} (hw : w.Stored K none)
    (hsize : 0 < K.sqrtM) (t : ℕ) (c : C.Sealed) (k : ℕ) :
    writeBlock (faultySqrtStub C f) t c (w.withFault (some (k + 1))) =
      (.ok (), (sheltering K t c w).withFault (some k)) :=
  remote_later (writeBlock_spec hw hsize t c)

theorem writeBlock_now {w : SqrtSystem (SqrtOramServerStorage C)} (hw : w.Stored K none)
    (hsize : 0 < K.sqrtM) (t : ℕ) (c : C.Sealed) :
    writeBlock (faultySqrtStub C f) t c (w.withFault (some 0)) =
      (.error (.status (.make .kServerError f.message "WriteBlock")),
        (if f.tookEffect then sheltering K t c w else w).withFault none) := by
  have hwrite : (remote "WriteBlock" ((OramService.sqrtStub C).writeSqrtMemory t c) w).2 =
      sheltering K t c w := congrArg Prod.snd (writeBlock_spec hw hsize t c)
  rw [← hwrite]
  exact remote_now _ _ w

/-- `PermuteOnFull` before the epoch is over makes no call. -/
theorem permuteOnFull_quiet {S : SqrtStub C σ} {perm : List ℕ} {w : SqrtSystem σ}
    (h : w.client.counter + 1 ≠ K.sqrtM) :
    permuteOnFull S K perm w =
      (.ok (), { w with client := { w.client with counter := w.client.counter + 1 } }) := by
  rw [permuteOnFull, update, Prog.modify_bind, Prog.get_bind, if_neg h]
  rfl

/-- The system at the end of an epoch, with the counters reset. -/
def epochOver (w : SqrtSystem σ) : SqrtSystem σ :=
  { w with client := { w.client with counter := 0, nextDummy := 0 } }

/-- At the end of an epoch the permutation is sent. -/
theorem permuteOnFull_full (S : SqrtStub C σ) (perm : List ℕ) {w : SqrtSystem σ}
    (h : w.client.counter + 1 = K.sqrtM) :
    permuteOnFull S K perm w = doPermute S perm (epochOver w) := by
  have hwords : K.words ≠ 0 := by
    rw [SquareRootOramConfig.words]
    omega
  rw [permuteOnFull, update, Prog.modify_bind, Prog.get_bind, if_pos h]
  simp only [update, Prog.modify_bind, randomPermutation, if_neg hwords]
  rfl

/-- The permutation fails: the client keeps its map. -/
theorem doPermute_now (perm : List ℕ) (w : SqrtSystem (SqrtOramServerStorage C)) :
    doPermute (faultySqrtStub C f) perm (w.withFault (some 0)) =
      (.error (.status (.make .kServerError f.message "DoPermute")),
        (if f.tookEffect then
          (remote "DoPermute" ((OramService.sqrtStub C).sqrtPermute perm) w).2
        else w).withFault none) :=
  Prog.bind_error (remote_now _ _ w)

/-- The server has permuted and the client does not know: the words are where
the client looks for them only under the permutation that moves nothing. -/
theorem permuted_behind_back {t : ℕ} {c : C.Sealed} {w : SqrtSystem (SqrtOramServerStorage C)}
    (hw : w.Stored K (some (t, c))) (hsize : 0 < K.sqrtM) (hmask : K.words ≤ kInvalidMask)
    {perm : List ℕ} (hperm : perm.Perm (List.range K.words)) :
    ∃ server, (remote "DoPermute" ((OramService.sqrtStub C).sqrtPermute perm) w).2 =
        { w with server := server } ∧
      (perm = List.range K.words → Stored K none ⟨w.client, server⟩ ∧
        ∀ a, memory ⟨w.client, server⟩ a =
          if a = (C.decryptBlock c).2.id then some (C.decryptBlock c).2 else w.memory a) ∧
      (perm ≠ List.range K.words →
        ∃ a < K.words, ∃ b, memory ⟨w.client, server⟩ a = some b ∧ b.id ≠ a) := by
  obtain ⟨m, server, hrun, hw', hmem⟩ := doPermute_spec hw hsize hmask hperm
  obtain ⟨u, w₁, hremote, hupdate⟩ := Prog.bind_eq_ok hrun
  have hclient : w₁.client = w.client := by
    rw [← remote_client "DoPermute" ((OramService.sqrtStub C).sqrtPermute perm) w, hremote]
  have hw₁ : w₁ = { w with server := server } := by
    have hserver := congrArg (fun p => p.2.server) hupdate
    obtain ⟨client, server₁⟩ := w₁
    cases hclient
    cases hserver
    rfl
  have hm : m = (List.range perm.length).foldl (updateOne perm) w.client.positionMap := by
    have hmap := congrArg (fun p => p.2.client.positionMap) hupdate
    rw [hw₁] at hmap
    exact hmap.symm
  have hlen : perm.length = K.words := hperm.length_eq.trans List.length_range
  have hmoved : ∀ a s, w.client.positionMap a = some s → m a = some (perm.getD s 0) := by
    intro a s hs
    rw [hm, foldl_updateOne, hlen, if_pos (hw.position_lt hs), hs, Option.getD_some]
  refine ⟨server, by rw [hremote, hw₁], ?_, ?_⟩
  · rintro rfl
    have hsame : m = w.client.positionMap := by
      funext a
      cases hs : w.client.positionMap a with
      | none =>
        rw [hm, foldl_updateOne, hs]
        split
        next ha =>
          rw [List.length_range] at ha
          obtain ⟨s, b, hsome, -⟩ := hw.word a ha
          cases hs.symm.trans hsome
        next => rfl
      | some s =>
        obtain ⟨s', b, hs', hlt, -⟩ := hw.word a (hw.position_lt hs)
        cases hs.symm.trans hs'
        rw [hmoved a s hs, List.getD_eq_getElem?_getD, List.getElem?_range hlt, Option.getD_some]
    rw [hsame] at hw' hmem
    exact ⟨hw', hmem⟩
  · intro hne
    -- a tag `s` that moves, the address `a` there, and the address `a'` where it goes
    obtain ⟨s, hlt, hs⟩ : ∃ s < K.words, perm.getD s 0 ≠ s := by
      by_contra hall
      refine hne (List.ext_getElem? fun i => ?_)
      by_cases hi : i < K.words
      · have hfix : perm.getD i 0 = i := by_contra fun h => hall ⟨i, hi, h⟩
        rw [(getElem?_perm hperm hi).1, hfix, List.getElem?_range hi]
      · rw [List.getElem?_eq_none (by omega), List.getElem?_eq_none (by simpa using hi)]
    obtain ⟨a, -, ha⟩ := hw.tagged.exists_address hlt
    obtain ⟨a', ha'lt, ha'⟩ := hw.tagged.exists_address (getElem?_perm hperm hlt).2
    obtain ⟨s', b, hs', -, hb, hid⟩ := hw'.word a (hw.position_lt ha)
    cases (hmoved a s ha).symm.trans hs'
    refine ⟨a', ha'lt, b, ?_, ?_⟩
    · rw [memory]
      simp only [ha', Option.bind_some]
      exact hb
    · rintro rfl
      rw [hid] at ha'
      exact hs (Option.some.inj (ha'.symm.trans ha))

end SquareRootOramController

/-! ## When a fault is harmless

The values after the failed access are those before, with two exceptions that the parts
before have made visible: the slots that were cleared, and the word that was written. -/

namespace SqrtRequest

/-- `Access` over the faulty connection. -/
def runFaulty (K : SquareRootOramConfig) (f : Fault) (r : SqrtRequest C)
    (w : SqrtSystem (SqrtOramServerStorage C)) :
    Except Exit C.Sealed × SqrtSystem (SqrtOramServerStorage C × Option ℕ) :=
  access (faultySqrtStub C f) K r.op r.address r.buffer r.draws (w.withFault (some f.call))

/-- The request gets as far as the call that fails. -/
def Struck (K : SquareRootOramConfig) (f : Fault) (r : SqrtRequest C)
    (w : SqrtSystem (SqrtOramServerStorage C)) : Prop :=
  (r.runFaulty K f w).2.server.2 = none

/-- What the request leaves behind. -/
def afterFault (K : SquareRootOramConfig) (f : Fault) (r : SqrtRequest C)
    (w : SqrtSystem (SqrtOramServerStorage C)) : SqrtSystem (SqrtOramServerStorage C) :=
  ⟨(r.runFaulty K f w).2.client, (r.runFaulty K f w).2.server.1⟩

/-- The failure is reported, no address but possibly the written one changes its
value, and the position map points every address at its own block. -/
structure FailsSafely (K : SquareRootOramConfig) (f : Fault) (r : SqrtRequest C)
    (w : SqrtSystem (SqrtOramServerStorage C)) : Prop where
  reported : ∃ code, outcomeCode (r.runFaulty K f w).1 = some code ∧ code ≠ .kOK
  values : ∀ a, (r.op = .kWrite → a ≠ r.address) →
    (r.afterFault K f w).valueOf a = w.valueOf a
  positions : ∀ a < K.words, ∃ b, (r.afterFault K f w).memory a = some b ∧ b.id = a

/-- The condition on the request, the state and the fault. The first `√m + 1`
calls are the scan and the read, the next one is the write-back, and the last
one, if there is one, the permutation. -/
def FaultHarmless (K : SquareRootOramConfig) (f : Fault) (r : SqrtRequest C)
    (w : SqrtSystem (SqrtOramServerStorage C)) : Prop :=
  if f.call ≤ K.sqrtM then
    (f.call = 0 ∧ f.tookEffect = false) ∨
      ∀ b ∈ w.server.sheltered, (r.op = .kWrite ∧ b.id = r.address) ∨ w.memory b.id = some b
  else
    (f.call = K.sqrtM + 1 → r.op = .kWrite) ∧
      (f.call = K.sqrtM + 2 → f.tookEffect = true → r.draws.perm = List.range K.words) ∧
      ∀ b ∈ w.server.sheltered, b.id = r.address ∨ w.memory b.id = some b

end SqrtRequest

/-- The memory has the values of all addresses but those in `P`, exactly if it
has the sheltered blocks of all others. -/
theorem SqrtSystem.Stored.memory_iff {e : Option (ℕ × C.Sealed)}
    {w : SqrtSystem (SqrtOramServerStorage C)} (hw : w.Stored K e) (P : ℕ → Prop) :
    (∀ a, ¬P a → w.memory a = w.valueOf a) ↔
      ∀ b ∈ w.server.sheltered, P b.id ∨ w.memory b.id = some b := by
  constructor
  · intro h b hb
    by_cases hP : P b.id
    · exact .inl hP
    · exact .inr ((h b.id hP).trans (value_of_sheltered hw hb))
  · intro h a ha
    refine (valueOf_eq_memory fun b hb hid => ?_).symm
    subst hid
    exact (h b hb).resolve_left ha

/-- Every address has a word. -/
theorem SqrtSystem.Stored.points {e : Option (ℕ × C.Sealed)}
    {w : SqrtSystem (SqrtOramServerStorage C)} (hw : w.Stored K e) :
    ∀ a < K.words, ∃ b, w.memory a = some b ∧ b.id = a := by
  intro a ha
  obtain ⟨t, b, -, -, -, hid, hmem⟩ := hw.memory_eq ha
  exact ⟨b, hmem, hid⟩

namespace SquareRootOramController

/-- The faults during the scan and the read. -/
theorem failsSafely_fetch {e : Option (ℕ × C.Sealed)}
    {w : SqrtSystem (SqrtOramServerStorage C)} (hw : w.Ready K e) (hsize : 0 < K.sqrtM)
    {r : SqrtRequest C} (hop : r.op ≠ .kInvalid) {t : ℕ}
    (ht : w.client.positionMap r.address = some t) (hk : f.call ≤ K.sqrtM) :
    r.FailsSafely K f w ↔ r.FaultHarmless K f w := by
  obtain ⟨st, client, hfetch, hcode, hclient⟩ :=
    fetch_now (f := f) hw.toStored hsize r.address t hk
  have hrun : r.runFaulty K f w = (.error (.status st),
      SqrtSystem.withFault { scannedUpTo K f f.call w with client := client } none) := by
    rw [SqrtRequest.runFaulty, access_eq (w := w.withFault (some f.call)) hw.initialized hop ht]
    exact Prog.bind_error hfetch
  have hafter : r.afterFault K f w = { scannedUpTo K f f.call w with client := client } := by
    rw [SqrtRequest.afterFault, hrun]
    rfl
  have hreported : ∃ code, outcomeCode (r.runFaulty K f w).1 = some code ∧ code ≠ .kOK := by
    rw [hrun]
    exact ⟨st.errorCode, rfl, by rw [hcode]; exact nofun⟩
  rw [SqrtRequest.FaultHarmless, if_pos hk]
  by_cases hfirst : f.call = 0 ∧ f.tookEffect = false
  · -- nothing has happened
    rw [scannedUpTo, if_pos hfirst] at hafter
    have hsame : Stored K e { w with client := client } := hw.toStored.setClient hclient
    refine iff_of_true ⟨hreported, fun a _ => ?_, ?_⟩ (.inl hfirst)
    · rw [hafter, valueOf, valueOf, memory, memory, hclient]
    · rw [hafter]
      exact hsame.points
  · rw [scannedUpTo, if_neg hfirst] at hafter
    have hfree : Stored K none { cleared K w with client := client } :=
      (stored_cleared hw.toStored).setClient hclient
    have hvalues : ∀ a, (r.afterFault K f w).valueOf a = w.memory a := by
      intro a
      rw [hafter, hfree.valueOf_none, memory, memory, hclient]
      rfl
    have hiff := hw.toStored.memory_iff fun a => r.op = .kWrite ∧ a = r.address
    simp only [not_and] at hiff
    rw [or_iff_right hfirst, ← hiff]
    constructor
    · intro h a ha
      rw [← hvalues]
      exact h.values a ha
    · intro h
      refine ⟨hreported, fun a ha => (hvalues a).trans (h a ha), ?_⟩
      rw [hafter]
      exact hfree.points

/-- A fault after which every address but that of the request has what the
memory had for it. -/
theorem failsSafely_iff_of {e : Option (ℕ × C.Sealed)}
    {w : SqrtSystem (SqrtOramServerStorage C)} (hw : w.Stored K e) {r : SqrtRequest C}
    (hreported : ∃ code, outcomeCode (r.runFaulty K f w).1 = some code ∧ code ≠ .kOK)
    (hpoints : ∀ a < K.words, ∃ b, (r.afterFault K f w).memory a = some b ∧ b.id = a)
    (hother : ∀ a ≠ r.address, (r.afterFault K f w).valueOf a = w.memory a)
    (hself : r.op ≠ .kWrite →
      (r.afterFault K f w).valueOf r.address = w.valueOf r.address) :
    r.FailsSafely K f w ↔
      ∀ b ∈ w.server.sheltered, b.id = r.address ∨ w.memory b.id = some b := by
  rw [← hw.memory_iff (· = r.address)]
  constructor
  · intro h a ha
    rw [← hother a ha]
    exact h.values a fun _ => ha
  · intro h
    refine ⟨hreported, fun a ha => ?_, hpoints⟩
    by_cases hid : a = r.address
    · rw [hid]
      exact hself fun hop => ha hop hid
    · exact (hother a hid).trans (h a hid)

/-- An access with `j` calls to go to the fault, its block fetched: `v` is the
state it is in, and `c` the sealed block that goes to the shelter. -/
structure Fetched (K : SquareRootOramConfig) (f : Fault) (r : SqrtRequest C)
    (w : SqrtSystem (SqrtOramServerStorage C)) (t j : ℕ)
    (v : SqrtSystem (SqrtOramServerStorage C)) (c : C.Sealed) : Prop where
  /-- what is still to be run -/
  run_eq : r.runFaulty K f w =
    (if r.op = Operation.kRead then do
      let _ ← Prog.attempt (writeBlock (faultySqrtStub C f) t c)
      Prog.mapError (Exit.append (.make .kUnknownError
        "Permutation failed or internal logic error!" "InternalAccess"))
        (permuteOnFull (faultySqrtStub C f) K r.draws.perm)
      pure c
    else do
      Prog.mapError (Exit.append (.make .kInvalidOperation "Cannot write back the block"
        "InternalAccess")) (writeBlock (faultySqrtStub C f) t c)
      Prog.mapError (Exit.append (.make .kUnknownError
        "Permutation failed or internal logic error!" "InternalAccess"))
        (permuteOnFull (faultySqrtStub C f) K r.draws.perm)
      pure c) (v.withFault (some j))
  counter_eq : v.client.counter = w.client.counter
  free : Stored K none v
  stored : Stored K (some (t, c)) (sheltering K t c v)
  id_eq : (C.decryptBlock c).2.id = r.address
  memory_eq : ∀ a, v.memory a = w.memory a
  self_eq : r.op ≠ .kWrite → some (C.decryptBlock c).2 = w.valueOf r.address

theorem Fetched.values {r : SqrtRequest C} {w v : SqrtSystem (SqrtOramServerStorage C)} {t j : ℕ}
    {c : C.Sealed} (h : Fetched K f r w t j v c) (a : ℕ) :
    (sheltering K t c v).valueOf a =
      if a = r.address then some (C.decryptBlock c).2 else w.memory a := by
  rw [h.stored.valueOf_some, h.id_eq, ← h.memory_eq]
  rfl

theorem fetched_spec {e : Option (ℕ × C.Sealed)} {w : SqrtSystem (SqrtOramServerStorage C)}
    (hw : w.Ready K e) (hsize : 0 < K.sqrtM) {r : SqrtRequest C} (hr : r.Proper K)
    (hop : r.op ≠ .kInvalid) {t : ℕ} (ht : w.client.positionMap r.address = some t) {j : ℕ}
    (hk : f.call = K.sqrtM + 1 + j) : ∃ v c, Fetched K f r w t j v c := by
  obtain ⟨b, n, hfetch, hn, hid, hvalue, hcopy⟩ := fetch_spec hw.toStored hsize ht
    (hw.next_le.trans_lt (hw.counter_lt hsize))
  have hfree : Stored K none { cleared K w with client := { w.client with nextDummy := n } } :=
    (stored_cleared hw.toStored).setClient rfl
  -- the block that goes to the shelter
  generalize hblock : (if r.op = .kRead then b else r.buffer) = block
  have hentry : block.id = r.address ∧
      (block.isNormal = false → w.memory r.address = some block) := by
    rw [← hblock]
    split
    next => exact ⟨hid, hcopy⟩
    next h =>
      obtain ⟨hbid, hbnormal⟩ := hr.buffer_named (Operation.eq_kWrite h hop)
      exact ⟨hbid, fun hn => by rw [hbnormal] at hn; cases hn⟩
  have hdecrypt : (C.decryptBlock (C.encryptBlock r.draws.iv block)).2 = block := by
    rw [C.decrypt_encrypt]
  have hmatch : (b.isNormal && b.id != r.address) = false := by
    rw [hid, bne_self_eq_false, Bool.and_false]
  refine ⟨{ cleared K w with client := { w.client with nextDummy := n } },
    C.encryptBlock r.draws.iv block, ?_, rfl, hfree, ?_, ?_, fun a => rfl, fun h => ?_⟩
  · have hlater := fetch_later (f := f) hw.toStored hsize r.address t j
    rw [hfetch] at hlater
    rw [SqrtRequest.runFaulty, access_eq (w := w.withFault (some f.call)) hw.initialized hop ht, hk]
    refine (Prog.bind_ok hlater).trans ?_
    rw [finish, hmatch, if_neg Bool.false_ne_true, hblock]
  · refine hfree.setEntry (fun s d he => ?_) rfl
    cases he
    rw [hdecrypt, hentry.1]
    exact ⟨ht, hentry.2⟩
  · rw [hdecrypt, hentry.1]
  · rw [hdecrypt, hvalue, ← hblock, if_pos (by_contra fun hne => h (Operation.eq_kWrite hne hop))]

/-- The write-back fails. A read does not notice. -/
theorem failsSafely_writeBack {e : Option (ℕ × C.Sealed)}
    {w v : SqrtSystem (SqrtOramServerStorage C)} (hw : w.Ready K e) (hsize : 0 < K.sqrtM)
    {r : SqrtRequest C} (hr : r.Proper K) (hop : r.op ≠ .kInvalid) {t : ℕ} {c : C.Sealed}
    (h : Fetched K f r w t 0 v c) (hk : f.call = K.sqrtM + 1) :
    r.FailsSafely K f w ↔ r.FaultHarmless K f w := by
  have hrun := h.run_eq
  have hnow := writeBlock_now (f := f) h.free hsize t c
  rw [SqrtRequest.FaultHarmless, if_neg (by omega)]
  cases hcase : r.op with
  | kInvalid => exact absurd hcase hop
  | kRead =>
    rw [if_pos hcase, Prog.attempt_bind, hnow] at hrun
    have hbase : (if f.tookEffect then sheltering K t c v else v).Tagged K := by
      split
      · exact h.stored.tagged
      · exact h.free.tagged
    obtain ⟨w', hpermute, -⟩ := permuteOnFull_tagged hr.perm
      (by rw [SquareRootOramConfig.words]; omega) hbase
    have hover := run_over (relates_permuteOnFull (K := K)
      (SqrtStub.faulty_simulates f (OramService.sqrtStub C)) r.draws.perm) hpermute
    have hok := hrun.trans (Prog.bind_ok (Prog.mapError_ok hover))
    refine iff_of_false (fun hsafe => ?_) fun hharmless => ?_
    · obtain ⟨code, hcode, hne⟩ := hsafe.reported
      rw [hok] at hcode
      cases hcode
      exact hne rfl
    · cases hharmless.1 hk
  | kWrite =>
    rw [if_neg (by rw [hcase]; decide)] at hrun
    have herror := hrun.trans (Prog.bind_error (Prog.mapError_error hnow))
    have hafter : r.afterFault K f w = if f.tookEffect then sheltering K t c v else v := by
      rw [SqrtRequest.afterFault, herror]
      rfl
    have hlate : f.call = K.sqrtM + 2 → f.tookEffect = true →
        r.draws.perm = List.range K.words := by
      intro hpermute
      omega
    rw [and_iff_right (fun _ => rfl), and_iff_right hlate]
    refine failsSafely_iff_of hw.toStored ?_ ?_ (fun a ha => ?_) fun hread => absurd hcase hread
    · rw [herror]
      exact ⟨_, rfl, by rw [OramStatus.append_errorCode]; rintro ⟨⟩⟩
    · rw [hafter]
      split
      · exact h.stored.points
      · exact h.free.points
    · rw [hafter]
      split
      · rw [h.values, if_neg ha]
      · rw [h.free.valueOf_none, h.memory_eq]

/-- A write-back that goes through leaves the permutation to be done. -/
theorem Fetched.permute {r : SqrtRequest C} {w v : SqrtSystem (SqrtOramServerStorage C)}
    {t j : ℕ} {c : C.Sealed} (h : Fetched K f r w t (j + 1) v c) (hsize : 0 < K.sqrtM) :
    r.runFaulty K f w = (Prog.mapError (Exit.append (.make .kUnknownError
        "Permutation failed or internal logic error!" "InternalAccess"))
        (permuteOnFull (faultySqrtStub C f) K r.draws.perm) >>= fun _ => pure c)
      ((sheltering K t c v).withFault (some j)) := by
  have hlater := writeBlock_later (f := f) h.free hsize t c j
  rw [h.run_eq]
  split
  · rw [Prog.attempt_bind, hlater]
  · rw [Prog.bind_ok (Prog.mapError_ok hlater)]

/-- A fault is not reached if there is no permutation, or only after it. -/
theorem not_struck_of_late {r : SqrtRequest C} {w v : SqrtSystem (SqrtOramServerStorage C)}
    {t j : ℕ} {c : C.Sealed} (h : Fetched K f r w t (j + 1) v c) (hsize : 0 < K.sqrtM)
    (hlate : v.client.counter + 1 = K.sqrtM → j ≠ 0) : ¬r.Struck K f w := by
  have hcountdown : ∃ q u k, permuteOnFull (faultySqrtStub C f) K r.draws.perm
      ((sheltering K t c v).withFault (some j)) = (q, u) ∧ u.server.2 = some k := by
    by_cases hfull : v.client.counter + 1 = K.sqrtM
    · obtain ⟨i, rfl⟩ : ∃ i, j = i + 1 := ⟨j - 1, by have := hlate hfull; omega⟩
      have hfull' := permuteOnFull_full (faultySqrtStub C f) r.draws.perm
        (w := (sheltering K t c v).withFault (some (i + 1))) hfull
      cases hremote : remote "DoPermute" ((OramService.sqrtStub C).sqrtPermute r.draws.perm)
          (epochOver (sheltering K t c v)) with
      | mk q w₁ =>
        have hsent := remote_later (f := f) (k := i) hremote
        cases q with
        | error e => exact ⟨_, _, i, hfull'.trans (Prog.bind_error hsent), rfl⟩
        | ok u => exact ⟨_, _, i, hfull'.trans (Prog.bind_ok hsent), rfl⟩
    · exact ⟨_, _, j, permuteOnFull_quiet (w := (sheltering K t c v).withFault (some j)) hfull, rfl⟩
  obtain ⟨q, u, k, hpermute, hu⟩ := hcountdown
  rw [SqrtRequest.Struck, h.permute hsize]
  cases q with
  | ok a =>
    rw [Prog.bind_ok (Prog.mapError_ok hpermute)]
    exact fun hnone => nomatch hu.symm.trans hnone
  | error e =>
    rw [Prog.bind_error (Prog.mapError_error hpermute)]
    exact fun hnone => nomatch hu.symm.trans hnone

/-- The permutation fails. If the server has permuted all the same, the client's
map is wrong, unless the permutation moves nothing. -/
theorem failsSafely_permute {e : Option (ℕ × C.Sealed)}
    {w v : SqrtSystem (SqrtOramServerStorage C)} (hw : w.Ready K e) (hsize : 0 < K.sqrtM)
    (hmask : K.words ≤ kInvalidMask) {r : SqrtRequest C} (hr : r.Proper K) {t : ℕ} {c : C.Sealed}
    (h : Fetched K f r w t 1 v c) (hk : f.call = K.sqrtM + 2)
    (hfull : v.client.counter + 1 = K.sqrtM) :
    r.FailsSafely K f w ↔ r.FaultHarmless K f w := by
  have hdo := permuteOnFull_full (faultySqrtStub C f) r.draws.perm
    (w := (sheltering K t c v).withFault (some 0)) hfull
  have hreset : Stored K (some (t, c)) (epochOver (sheltering K t c v)) := h.stored.setClient rfl
  obtain ⟨server, hserver, hfixed, hmoved⟩ := permuted_behind_back hreset hsize hmask hr.perm
  have herror := (h.permute hsize).trans (Prog.bind_error (Prog.mapError_error
    (hdo.trans (doPermute_now r.draws.perm (epochOver (sheltering K t c v))))))
  rw [hserver] at herror
  have hafter : r.afterFault K f w = if f.tookEffect then
      ⟨(epochOver (sheltering K t c v)).client, server⟩
    else epochOver (sheltering K t c v) := by
    rw [SqrtRequest.afterFault, herror]
    rfl
  have hreported : ∃ code, outcomeCode (r.runFaulty K f w).1 = some code ∧ code ≠ .kOK := by
    rw [herror]
    exact ⟨_, rfl, by rw [OramStatus.append_errorCode]; exact nofun⟩
  rw [SqrtRequest.FaultHarmless, if_neg (by omega)]
  by_cases hlost : f.tookEffect = true ∧ r.draws.perm ≠ List.range K.words
  · -- the words have moved behind the client's back
    rw [if_pos hlost.1] at hafter
    obtain ⟨a, ha, b', hb', hne⟩ := hmoved hlost.2
    refine iff_of_false (fun hsafe => ?_) fun hharmless => hlost.2 (hharmless.2.1 hk hlost.1)
    obtain ⟨b'', hb'', hid''⟩ := hsafe.positions a ha
    rw [hafter] at hb''
    cases hb'.symm.trans hb''
    exact hne hid''
  · have hvalues : (∀ a < K.words, ∃ b, (r.afterFault K f w).memory a = some b ∧ b.id = a) ∧
        ∀ a, (r.afterFault K f w).valueOf a =
          if a = r.address then some (C.decryptBlock c).2 else w.memory a := by
      rw [hafter]
      split
      next heffect =>
        obtain ⟨hstored, hmem⟩ := hfixed (by_contra fun hne => hlost ⟨heffect, hne⟩)
        refine ⟨hstored.points, fun a => ?_⟩
        rw [hstored.valueOf_none, hmem, h.id_eq, ← h.memory_eq]
        rfl
      next => exact ⟨hreset.points, h.values⟩
    have hearly : f.call = K.sqrtM + 1 → r.op = .kWrite := by
      intro hwrite
      omega
    have hspared : f.call = K.sqrtM + 2 → f.tookEffect = true →
        r.draws.perm = List.range K.words :=
      fun _ heffect => by_contra fun hne => hlost ⟨heffect, hne⟩
    rw [and_iff_right hearly, and_iff_right hspared]
    refine failsSafely_iff_of hw.toStored hreported hvalues.1 (fun a ha => ?_) fun hread => ?_
    · rw [hvalues.2, if_neg ha]
    · rw [hvalues.2, if_pos rfl, h.self_eq hread]

end SquareRootOramController

/-- A run of proper requests ends in a state between two accesses. -/
theorem SqrtSystem.ready_of_trace (hsqrt : K.blockNum ≠ 0 → K.sqrtM ≠ 0)
    (hmask : K.words ≤ kInvalidMask) {w w' : SqrtSystem (SqrtOramServerStorage C)}
    (hw : ∃ e, w.Ready K e) {requests : List (SqrtRequest C)}
    (hproper : ∀ r ∈ requests, r.Proper K) {outs : List (Except Exit C.Sealed)}
    (hrun : Prog.trace Exit.fatal (SqrtRequest.run K) requests w = some (outs, w')) :
    ∃ e, w'.Ready K e := by
  refine Prog.trace_history Exit.fatal
    (fun (r : SqrtRequest C) (_ : SqrtSystem (SqrtOramServerStorage C)) => r.Proper K)
    (fun _ w => ∃ e, w.Ready K e) ?_ [] hw
    (Prog.Along.of_forall (fun r hr _ => hproper r hr) w) hrun
  intro _ r w out w' hr hw hstep
  have hvalues : w.HasValues K
      (latest (SqrtRequest.written (C := C)) w.valueOf []) := fun _ _ => rfl
  exact ((SqrtRequest.run_spec hsqrt hmask hr hw hvalues).2 out w' hstep).1

/-- **When a failed call does no harm.** In every state that a loaded
square-root ORAM reaches, and for every call of a request that can fail, with or
without its effect: the request fails safely exactly if the fault is harmless. -/
theorem sqrtOram_fails_safely_iff {m : ℕ} (hK : SquareRootOramConfig.new m = .ok K)
    (hmask : K.words ≤ kInvalidMask) {garbage : ℕ → OramBlock D} {data : List (OramBlock D)}
    {fill : SqrtFillDraws C} {w₀ : SqrtSystem (SqrtOramServerStorage C)}
    (hfill : fillWithData (OramService.sqrtStub C) K garbage data fill (SqrtSystem.init C K) =
      (.ok (), w₀))
    (hids : (data.map OramBlock.id).Perm (List.range data.length))
    (hperm : fill.perm.Perm (List.range K.words))
    {requests : List (SqrtRequest C)} (hproper : ∀ r ∈ requests, r.Proper K)
    {outs : List (Except Exit C.Sealed)} {w : SqrtSystem (SqrtOramServerStorage C)}
    (hrun : Prog.trace Exit.fatal (SqrtRequest.run K) requests w₀ = some (outs, w))
    {r : SqrtRequest C} (hr : r.Proper K) {f : Fault} (hstruck : r.Struck K f w) :
    r.FailsSafely K f w ↔ r.FaultHarmless K f w := by
  obtain ⟨e, hw⟩ := SqrtSystem.ready_of_trace (SquareRootOramConfig.sqrtM_ne_zero hK) hmask
    ⟨none, (fillWithData_spec hfill hids hperm).1⟩ hproper hrun
  by_cases hcalls : r.op = .kInvalid ∨ w.client.positionMap r.address = none
  · -- no call is made, so none can fail
    obtain ⟨e', hrefused⟩ := access_refused (S := faultySqrtStub C f) (K := K)
      (w := w.withFault (some f.call)) hcalls r.buffer r.draws
    rw [SqrtRequest.Struck, SqrtRequest.runFaulty, hrefused] at hstruck
    cases hstruck
  · obtain ⟨hop, hpos⟩ := not_or.mp hcalls
    obtain ⟨t, ht⟩ := Option.ne_none_iff_exists'.mp hpos
    have hsize : 0 < K.sqrtM := by
      have ha := hw.position_lt ht
      have hnonzero := SquareRootOramConfig.sqrtM_ne_zero hK
      rw [SquareRootOramConfig.words] at ha
      omega
    rcases Nat.lt_or_ge K.sqrtM f.call with hlate | hearly
    · obtain ⟨j, hk⟩ := Nat.exists_eq_add_of_le hlate
      obtain ⟨v, c, hfetched⟩ := fetched_spec hw hsize hr hop ht hk
      cases j with
      | zero => exact failsSafely_writeBack hw hsize hr hop hfetched hk
      | succ j =>
        by_cases hpermute : v.client.counter + 1 = K.sqrtM ∧ j = 0
        · obtain ⟨hfull, rfl⟩ := hpermute
          exact failsSafely_permute hw hsize hmask hr hfetched hk hfull
        · exact absurd hstruck (not_struck_of_late hfetched hsize
            fun hfull hzero => hpermute ⟨hfull, hzero⟩)
    · exact failsSafely_fetch hw hsize hop ht hearly

/-- A fault that hits the write-back, before the server has seen it. -/
def lostWriteBack : Fault := ⟨3, false, "Deadline Exceeded"⟩

/-- A fault that hits the first call. -/
def lostScan : Fault := ⟨0, false, "Deadline Exceeded"⟩

/-- With a block in the shelter, the first read of the scan fails without
effect: the access fails safely. -/
theorem sqrtOram_fails_safely_iff_small :
    (readWord 1).FailsSafely smallSqrt lostScan (writeWord.run smallSqrt smallSqrtLoaded).2 := by
  have hproper : ∀ r ∈ [writeWord], r.Proper smallSqrt := by
    intro r hr
    rw [List.mem_singleton] at hr
    subst hr
    exact ⟨fun _ => ⟨rfl, rfl⟩, by decide⟩
  have hrun : Prog.trace Exit.fatal (SqrtRequest.run smallSqrt) [writeWord] smallSqrtLoaded =
      some ([(writeWord.run smallSqrt smallSqrtLoaded).1],
        (writeWord.run smallSqrt smallSqrtLoaded).2) := rfl
  have hread : (readWord 1).Proper smallSqrt := ⟨nofun, by decide⟩
  have hstruck : (readWord 1).Struck smallSqrt lostScan
      (writeWord.run smallSqrt smallSqrtLoaded).2 := by
    rw [SqrtRequest.Struck]
    decide
  exact (sqrtOram_fails_safely_iff smallSqrt_new (by decide) smallSqrt_fill (by decide)
    (by decide) hproper hrun hread hstruck).mpr (.inl ⟨rfl, rfl⟩)

/-- A read whose write-back fails: it returns OK. -/
theorem sqrt_read_hides_failure :
    SquareRootOramConfig.new 2 = .ok smallSqrt ∧
    SquareRootOramController.fillWithData (OramService.sqrtStub _) smallSqrt (fun _ => dummyWord)
      smallSqrtData smallSqrtFill (SqrtSystem.init _ smallSqrt) = (.ok (), smallSqrtLoaded) ∧
    ∃ outs w, Prog.trace Exit.fatal (SqrtRequest.run smallSqrt) [writeWord] smallSqrtLoaded =
        some (outs, w) ∧
      (readWord 0).Struck smallSqrt lostWriteBack w ∧
      outcomeCode ((readWord 0).runFaulty smallSqrt lostWriteBack w).1 = some .kOK ∧
      ¬(readWord 0).FailsSafely smallSqrt lostWriteBack w := by
  refine ⟨smallSqrt_new, smallSqrt_fill, [(writeWord.run smallSqrt smallSqrtLoaded).1],
    (writeWord.run smallSqrt smallSqrtLoaded).2, rfl, ?_, by decide, fun h => ?_⟩
  · rw [SqrtRequest.Struck]
    decide
  · obtain ⟨code, hcode, hne⟩ := h.reported
    have hok : outcomeCode ((readWord 0).runFaulty smallSqrt lostWriteBack
        (writeWord.run smallSqrt smallSqrtLoaded).2).1 = some .kOK := by decide
    cases hok.symm.trans hcode
    exact hne rfl

end ObliviousRam
