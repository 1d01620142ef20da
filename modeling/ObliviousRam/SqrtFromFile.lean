import ObliviousRam.FromFile
import ObliviousRam.SqrtLine

set_option autoImplicit false

/-!
# A square-root ORAM loaded from a file

`FromFile` changes `block_num_` to the number of lines. `sqrt_m_` stays as the constructor has
computed it, and so does the capacity that `InitOram` has sent to the server. Of `n + √m` words
the server takes `m` for its main memory, and the rest are as many dummies as there are slots in
the shelter.

`SqrtWatched` is a server with a record of the handlers that did not come to their end: an index
out of range, a `PANIC`. With `Roomy` arrays no access adds to it.
-/

namespace ObliviousRam

open SqrtOramServerStorage SquareRootOramController

variable {D : Type} {C : Codec D} {K : SquareRootOramConfig}

/-! ## The server under watch -/

/-- A square-root storage, and why handlers have stopped short. -/
structure SqrtWatched (C : Codec D) where
  storage : SqrtOramServerStorage C
  faults : List Exit

namespace SqrtWatched

/-- A handler; what stops it goes on record. -/
def watch {α : Type} (handler : Prog Exit (SqrtOramServerStorage C) α) :
    Prog String (SqrtWatched C) α := fun s =>
  match handler s.storage with
  | (.ok a, storage) => (.ok a, { s with storage := storage })
  | (.error e, storage) => (.error (OramService.connectionLost e), ⟨storage, s.faults ++ [e]⟩)

/-- `ReadSqrtMemory`, past the checks of the header. -/
def readSqrtMemory (readFrom : SqrtArea) (tag : ℕ) :
    Prog String (SqrtWatched C) (Option C.Sealed) := fun s =>
  if s.storage.check tag readFrom = false then
    (.error s!"Sanity check failed. Read type is {readFrom.code}, tag is {tag}.", s)
  else
    watch (match readFrom with
      | .kShelter => readBlockFromShelter tag
      | .kMainMemory => readBlockFromMain tag
      | .kDummy => readBlockFromDummy tag) s

/-- The stub of a client whose requests all reach the storage. -/
def stub (C : Codec D) : SqrtStub C (SqrtWatched C) where
  loadSqrtOram := fun data => watch (fill data)
  readSqrtMemory := readSqrtMemory
  writeSqrtMemory := fun pos content => watch (writeBlockToShelter pos content)
  sqrtPermute := fun perms => watch (SqrtOramServerStorage.doPermute perms)

theorem watch_relates {α : Type} (handler : Prog Exit (SqrtOramServerStorage C) α) :
    Prog.Relates (fun (s : SqrtWatched C) storage => s.storage = storage) Eq (watch handler)
      (Prog.mapError OramService.connectionLost handler) := by
  rintro s _ rfl
  rcases h : handler s.storage with ⟨e | a, storage⟩
  · rw [Prog.mapError_error h, watch, h]
    exact ⟨rfl, rfl⟩
  · rw [Prog.mapError_ok h, watch, h]
    exact ⟨rfl, rfl⟩

/-- The client does not notice that the server is under watch. -/
theorem stub_simulates : SqrtStub.Simulates (fun (s : SqrtWatched C) storage => s.storage = storage)
    (stub C) (OramService.sqrtStub C) where
  load := fun data => watch_relates (fill data)
  read := by
    intro area tag s storage h
    subst h
    simp only [stub, OramService.sqrtStub, readSqrtMemory, OramService.readSqrtMemory]
    split
    · exact ⟨rfl, rfl⟩
    · exact watch_relates _ s _ rfl
  write := fun pos content => watch_relates (writeBlockToShelter pos content)
  permute := fun perms => watch_relates (SqrtOramServerStorage.doPermute perms)

end SqrtWatched

open SqrtWatched (watch stub)

/-- The system with another storage. -/
def SqrtSystem.withStorage (w : SqrtSystem (SqrtWatched C)) (s : SqrtOramServerStorage C) :
    SqrtSystem (SqrtWatched C) :=
  { w with server := { w.server with storage := s } }

@[simp]
theorem SqrtSystem.withStorage_client (w : SqrtSystem (SqrtWatched C))
    (s : SqrtOramServerStorage C) : (w.withStorage s).client = w.client := rfl

@[simp]
theorem SqrtSystem.withStorage_storage (w : SqrtSystem (SqrtWatched C))
    (s : SqrtOramServerStorage C) : (w.withStorage s).server.storage = s := rfl

@[simp]
theorem SqrtSystem.withStorage_faults (w : SqrtSystem (SqrtWatched C))
    (s : SqrtOramServerStorage C) : (w.withStorage s).server.faults = w.server.faults := rfl

/-- A call whose handler comes to its end. -/
theorem remote_watch {α : Type} {location : String} {a : α}
    {handler : Prog Exit (SqrtOramServerStorage C) α} {w : SqrtSystem (SqrtWatched C)}
    {s : SqrtOramServerStorage C} (h : handler w.server.storage = (.ok a, s)) :
    remote location (watch handler) w = (.ok a, w.withStorage s) := by
  refine remote_ok ?_
  rw [watch, h]

/-! ## Arrays with enough room

`Roomy` is about sizes only: as many words as the client knows, and a slot for each
access of an epoch. In such arrays every index of an access is in range, so nothing is
recorded. -/

namespace SqrtOramServerStorage

/-- All words are there, dummies and shelter suffice for `√m` accesses, and the tags in the
shelter name words. -/
structure Roomy (K : SquareRootOramConfig) (s : SqrtOramServerStorage C) : Prop where
  words_eq : s.mainMemory.length + s.dummy.length = K.words
  dummy_le : K.sqrtM ≤ s.dummy.length
  shelter_le : K.sqrtM ≤ s.shelter.length
  slot_tag : ∀ t c, (t, some c) ∈ s.shelter → t < K.words

variable {s : SqrtOramServerStorage C}

/-- Another shelter, no shorter. -/
theorem Roomy.setShelter (hs : s.Roomy K) {shelter : List (ℕ × Option C.Sealed)}
    (hlen : shelter.length = s.shelter.length)
    (htag : ∀ t c, (t, some c) ∈ shelter → t < K.words) : Roomy K { s with shelter := shelter } :=
  ⟨hs.words_eq, hs.dummy_le, hlen ▸ hs.shelter_le, htag⟩

/-- A read of the shelter frees its slot. -/
theorem Roomy.readBlockFromShelter (hs : s.Roomy K) {i : ℕ} (hi : i < K.sqrtM) :
    ∃ content s', readBlockFromShelter i s = (.ok content, s') ∧ s'.Roomy K ∧
      s'.shelter = s.shelter.set i (freeSlot C) := by
  have hlt : i < s.shelter.length := Nat.lt_of_lt_of_le hi hs.shelter_le
  refine ⟨s.shelter[i].2, { s with shelter := s.shelter.set i (freeSlot C) }, ?_, ?_, rfl⟩
  · simp only [SqrtOramServerStorage.readBlockFromShelter, List.getElem?_eq_getElem hlt]
  · refine hs.setShelter List.length_set fun t c hmem => ?_
    rcases List.mem_or_eq_of_mem_set hmem with h | h
    · exact hs.slot_tag t c h
    · cases h

/-- A tag names a word of main memory, or one behind it. -/
theorem Roomy.readBlockFromMain (hs : s.Roomy K) {t : ℕ} (ht : t < K.words) :
    ∃ content, readBlockFromMain t s = (.ok content, s) := by
  rcases hmain : s.mainMemory[t]? with _ | content
  · have hge := List.getElem?_eq_none_iff.mp hmain
    have hlt : t - s.mainMemory.length < s.dummy.length := by
      have := hs.words_eq
      omega
    refine ⟨s.dummy[t - s.mainMemory.length], ?_⟩
    simp only [SqrtOramServerStorage.readBlockFromMain, hmain, readBlockFromDummy,
      List.getElem?_eq_getElem hlt]
  · exact ⟨content, by simp only [SqrtOramServerStorage.readBlockFromMain, hmain]⟩

theorem Roomy.readBlockFromDummy (hs : s.Roomy K) {i : ℕ} (hi : i < K.sqrtM) :
    ∃ content, readBlockFromDummy i s = (.ok content, s) := by
  have hlt : i < s.dummy.length := Nat.lt_of_lt_of_le hi hs.dummy_le
  exact ⟨s.dummy[i], by
    simp only [SqrtOramServerStorage.readBlockFromDummy, List.getElem?_eq_getElem hlt]⟩

/-- With its first slot free the shelter takes a block. -/
theorem Roomy.writeBlockToShelter (hs : s.Roomy K) (hfree : s.shelter[0]? = some (freeSlot C))
    {t : ℕ} (ht : t < K.words) (c : C.Sealed) :
    ∃ s', writeBlockToShelter t c s = (.ok (), s') ∧ s'.Roomy K := by
  obtain ⟨rest, hrest⟩ : ∃ rest, s.shelter = freeSlot C :: rest := by
    rcases hsh : s.shelter with _ | ⟨e, rest⟩
    · rw [hsh] at hfree
      cases hfree
    · rw [hsh] at hfree
      exact ⟨rest, congrArg (· :: rest) (Option.some.inj hfree)⟩
  refine ⟨{ s with shelter := (t, some c) :: rest }, ?_, hs.setShelter ?_ fun t' c' hmem => ?_⟩
  · simp only [SqrtOramServerStorage.writeBlockToShelter, hrest, freeSlot, writeFirstFree, if_true]
  · simp [hrest]
  · rcases List.mem_cons.mp hmem with h | h
    · cases h
      exact ht
    · exact hs.slot_tag t' c' (hrest ▸ List.mem_cons_of_mem _ h)

theorem Roomy.doPermute (hs : s.Roomy K) {perm : List ℕ}
    (hperm : perm.Perm (List.range K.words)) :
    ∃ s', SqrtOramServerStorage.doPermute perm s = (.ok (), s') ∧ s'.Roomy K := by
  have hlen : perm.length = K.words := hperm.length_eq.trans List.length_range
  obtain ⟨md, hmerge⟩ : ∃ md, mergeShelter s.shelter (s.mainMemory, s.dummy) = some md :=
    mergeShelter_total fun t c hc => hs.words_eq ▸ hs.slot_tag t c hc
  obtain ⟨hmain, hdummy, -⟩ := getElem?_of_mergeShelter hmerge
  refine ⟨_, doPermute_ok (hlen.trans hs.words_eq.symm) hmerge (lt_length_of_perm hperm),
    ?_, ?_, ?_, ?_⟩
  · have hwords := hs.words_eq
    simp only [length_permuteBy, hmain, hdummy, List.length_take, List.length_drop,
      List.length_append]
    omega
  · simpa [length_permuteBy, hmain, hdummy] using hs.dummy_le
  · simpa using hs.shelter_le
  · intro t c hmem
    simp [freeSlot] at hmem

end SqrtOramServerStorage

namespace SqrtSystem

/-- Nothing is on record, and nothing will be: the arrays have room for what the client asks. -/
structure Fits (K : SquareRootOramConfig) (w : SqrtSystem (SqrtWatched C)) : Prop where
  roomy : w.server.storage.Roomy K
  position_lt : ∀ a t, w.client.positionMap a = some t → a < K.words ∧ t < K.words
  counter_lt : w.client.counter < K.sqrtM
  next_le : w.client.nextDummy ≤ w.client.counter
  faults_eq : w.server.faults = []

end SqrtSystem

namespace SquareRootOramController

variable {w : SqrtSystem (SqrtWatched C)}

/-- The scan of the shelter frees the slots it comes past. -/
theorem scanShelter_watched (address : ℕ) {is : List ℕ} (his : ∀ i ∈ is, i < K.sqrtM) :
    ∀ (found : Option (OramBlock D)) {w : SqrtSystem (SqrtWatched C)},
      w.server.storage.Roomy K → ∃ found' s',
        scanShelter (stub C) address is found w = (.ok found', w.withStorage s') ∧ s'.Roomy K ∧
        ∀ i, i ∈ is ∨ w.server.storage.shelter[i]? = some (freeSlot C) →
          s'.shelter[i]? = some (freeSlot C) := by
  induction is with
  | nil =>
    intro found w hs
    exact ⟨found, w.server.storage, rfl, hs, fun i hi => hi.resolve_left List.not_mem_nil⟩
  | cons i is ih =>
    intro found w hs
    have hi := his i List.mem_cons_self
    obtain ⟨content, s₁, hread, hs₁, hshelter⟩ := hs.readBlockFromShelter hi
    have hremote : remote "ReadShelter" ((stub C).readSqrtMemory .kShelter i) w =
        (.ok content, w.withStorage s₁) := remote_watch hread
    let found₁ := content.elim found fun c =>
      if blockEqual address (C.decryptBlock c).2 then some (C.decryptBlock c).2 else found
    obtain ⟨found', s', hscan, hs', hfree⟩ :=
      ih (fun j hj => his j (List.mem_cons_of_mem _ hj)) found₁ (w := w.withStorage s₁) hs₁
    refine ⟨found', s', ?_, hs', fun j hj => hfree j ?_⟩
    · rw [scanShelter, Prog.bind_ok hremote]
      cases content with
      | none => exact hscan
      | some c => exact hscan
    · rw [SqrtSystem.withStorage_storage, hshelter]
      by_cases hji : i = j
      · subst hji
        exact .inr (List.getElem?_set_self (Nat.lt_of_lt_of_le hi hs.shelter_le))
      · rw [List.getElem?_set_ne hji]
        refine hj.imp_left fun h => (List.mem_cons.mp h).resolve_left (Ne.symm hji)

/-- **The block is fetched** without a fault, and the shelter has room then. A dummy is used up
only if the block of the address was in the shelter. -/
theorem fetch_watched (hw : w.Fits K) {a t : ℕ} (ht : w.client.positionMap a = some t) :
    ∃ r d s', fetch (stub C) K a t w =
        (r, { w with client := { w.client with nextDummy := d } }.withStorage s') ∧
      s'.Roomy K ∧ s'.shelter[0]? = some (freeSlot C) ∧
      (d = w.client.nextDummy ∨ d = w.client.nextDummy + 1 ∧ ∃ b, r = .ok b ∧ b.id = a) := by
  obtain ⟨found, s', hscan, hs', hfree⟩ := scanShelter_watched a
    (fun i (hi : i ∈ List.range K.sqrtM) => List.mem_range.mp hi) none hw.roomy
  have hzero := hfree 0 (.inl (List.mem_range.mpr (Nat.zero_lt_of_lt hw.counter_lt)))
  have hshelter := readShelter_of_scan hscan
  rw [fetch, Prog.attempt_bind, hshelter]
  cases found with
  | some b =>
    have hnext : w.client.nextDummy < K.sqrtM := Nat.lt_of_le_of_lt hw.next_le hw.counter_lt
    obtain ⟨content, hread⟩ := hs'.readBlockFromDummy hnext
    let used := { w.client with nextDummy := w.client.nextDummy + 1 }
    let v := { w with client := used }.withStorage s'
    have hdummy : readDummy (stub C) w.client.nextDummy v = (.ok (), v) := by
      have hremote : remote "ReadBlock" ((stub C).readSqrtMemory .kDummy w.client.nextDummy) v =
          (.ok content, v) := remote_watch hread
      exact Prog.bind_ok hremote
    refine ⟨.ok b, w.client.nextDummy + 1, s', ?_, hs', hzero, .inr ⟨rfl, b, rfl, ?_⟩⟩
    · exact Prog.bind_ok (Prog.mapError_ok hdummy)
    · exact readShelter_id hshelter
  | none =>
    obtain ⟨content, hread⟩ := hs'.readBlockFromMain (hw.position_lt a t ht).2
    have hcheck : s'.check t .kMainMemory = true := by
      have := hs'.words_eq
      have := (hw.position_lt a t ht).2
      simp only [check, decide_eq_true_eq]
      omega
    have hremote : remote "ReadBlock" ((stub C).readSqrtMemory .kMainMemory t)
        (w.withStorage s') = (.ok content, w.withStorage s') := by
      refine remote_ok ?_
      show SqrtWatched.readSqrtMemory .kMainMemory t _ = _
      rw [SqrtWatched.readSqrtMemory]
      simp [hcheck, watch, hread]
    refine ⟨_, w.client.nextDummy, s', Prod.ext rfl ?_, hs', hzero, .inl rfl⟩
    show (readMain (stub C) t (w.withStorage s')).2 = w.withStorage s'
    rw [readMain, Prog.bind_ok hremote]
    cases content <;> rfl

/-- `PermuteOnFull` goes through, and begins the next epoch if this one is over. -/
theorem permuteOnFull_watched {perm : List ℕ} (hperm : perm.Perm (List.range K.words))
    (hroomy : w.server.storage.Roomy K)
    (hpos : ∀ a t, w.client.positionMap a = some t → a < K.words ∧ t < K.words)
    (hcounter : w.client.counter < K.sqrtM) (hnext : w.client.nextDummy ≤ w.client.counter + 1)
    (hfaults : w.server.faults = []) :
    ∃ w', permuteOnFull (stub C) K perm w = (.ok (), w') ∧ w'.Fits K := by
  rw [permuteOnFull, update, Prog.modify_bind, Prog.get_bind]
  by_cases hfull : w.client.counter + 1 = K.sqrtM
  · have hwords : K.words ≠ 0 := by
      rw [SquareRootOramConfig.words]
      omega
    obtain ⟨s', hpermute, hs'⟩ := hroomy.doPermute hperm
    have hrandom : randomPermutation K.words perm = .ok perm := by
      rw [randomPermutation, if_neg hwords]
    simp only [if_pos hfull, update, Prog.modify_bind, hrandom]
    let v : SqrtSystem (SqrtWatched C) :=
      { w with client := { w.client with counter := 0, nextDummy := 0 } }
    have hremote : remote "DoPermute" ((stub C).sqrtPermute perm) v =
        (.ok (), v.withStorage s') := remote_watch hpermute
    refine ⟨_, Prog.bind_ok hremote, hs', fun a t h => ?_, Nat.zero_lt_of_lt hcounter, le_rfl,
      hfaults⟩
    exact tag_lt_updatePosition hperm hpos a t h
  · rw [if_neg hfull]
    exact ⟨_, rfl, hroomy, hpos, Nat.lt_of_le_of_ne hcounter hfull, hnext, hfaults⟩

/-- The rest of an access, with the shelter scanned. -/
theorem finish_watched {op : Operation} {a t : ℕ} (buffer : OramBlock D) {draws : SqrtDraws C}
    (hperm : draws.perm.Perm (List.range K.words)) {b : OramBlock D}
    (hroomy : w.server.storage.Roomy K)
    (hfree : w.server.storage.shelter[0]? = some (freeSlot C))
    (hpos : ∀ a t, w.client.positionMap a = some t → a < K.words ∧ t < K.words)
    (hcounter : w.client.counter < K.sqrtM) (hfaults : w.server.faults = []) (ht : t < K.words)
    (hnext : w.client.nextDummy ≤ w.client.counter ∨
      w.client.nextDummy ≤ w.client.counter + 1 ∧ b.id = a) :
    (finish (stub C) K op a t buffer draws b w).2.Fits K := by
  rw [finish]
  by_cases hmismatch : (b.isNormal && b.id != a) = true
  · rw [if_pos hmismatch]
    have hid : b.id ≠ a := by
      rw [Bool.and_eq_true, bne_iff_ne] at hmismatch
      exact hmismatch.2
    exact ⟨hroomy, hpos, hcounter, hnext.resolve_right fun h => hid h.2, hfaults⟩
  · rw [if_neg hmismatch]
    generalize C.encryptBlock draws.iv (if op = .kRead then b else buffer) = content
    obtain ⟨s', hwrite, hs'⟩ := hroomy.writeBlockToShelter hfree ht content
    have hremote : writeBlock (stub C) t content w = (.ok (), w.withStorage s') :=
      remote_watch hwrite
    obtain ⟨w', hpermute, hw'⟩ := permuteOnFull_watched (w := w.withStorage s') hperm hs' hpos
      hcounter (hnext.elim Nat.le_succ_of_le And.left) hfaults
    have hrest : (do
        Prog.mapError (Exit.append (.make .kUnknownError
          "Permutation failed or internal logic error!" "InternalAccess"))
          (permuteOnFull (stub C) K draws.perm)
        pure content) (w.withStorage s') = (.ok content, w') :=
      Prog.bind_ok (Prog.mapError_ok hpermute)
    by_cases hread : op = .kRead
    · rw [if_pos hread, Prog.attempt_bind, hremote]
      exact (congrArg Prod.snd hrest).symm ▸ hw'
    · rw [if_neg hread, Prog.bind_ok (Prog.mapError_ok hremote)]
      exact (congrArg Prod.snd hrest).symm ▸ hw'

/-- **An access leaves nothing on record**, whatever it returns. -/
theorem access_watched (hw : w.Fits K) (op : Operation) (a : ℕ) (buffer : OramBlock D)
    {draws : SqrtDraws C} (hperm : draws.perm.Perm (List.range K.words)) :
    (access (stub C) K op a buffer draws w).2.Fits K := by
  cases hinit : w.client.isInitialized with
  | false =>
    rw [access, Prog.get_bind, hinit]
    exact hw
  | true =>
    by_cases hrefused : op = .kInvalid ∨ w.client.positionMap a = none
    · obtain ⟨e, he⟩ := access_refused (S := stub C) (K := K) hrefused buffer draws
      rw [he]
      exact hw
    obtain ⟨hop, hmapped⟩ := not_or.mp hrefused
    obtain ⟨t, ht⟩ := Option.ne_none_iff_exists'.mp hmapped
    obtain ⟨r, d, s', hfetch, hs', hfree, hd⟩ := fetch_watched hw ht
    rw [access_eq hinit hop ht]
    rcases r with e | b
    · rw [Prog.bind_error hfetch]
      have hsame : d = w.client.nextDummy := hd.resolve_right fun h => by
        obtain ⟨-, b, hb, -⟩ := h
        cases hb
      exact ⟨hs', hw.position_lt, hw.counter_lt, hsame ▸ hw.next_le, hw.faults_eq⟩
    · rw [Prog.bind_ok hfetch]
      refine finish_watched buffer hperm hs' hfree hw.position_lt hw.counter_lt hw.faults_eq
        (hw.position_lt a t ht).2 (hd.imp (fun h => ?_) fun h => ⟨?_, ?_⟩)
      · exact h ▸ hw.next_le
      · exact h.1 ▸ Nat.succ_le_succ hw.next_le
      · obtain ⟨-, b', hb', hid⟩ := h
        cases hb'
        exact hid

/-! ## The load -/

/-- `FromFile`. -/
def fromFile {σ : Type} (S : SqrtStub C σ) (K : SquareRootOramConfig)
    (garbage : ℕ → OramBlock D) (lines : List (D × ℕ)) (draws : SqrtFillDraws C) :
    Prog Exit (SqrtSystem σ) Unit :=
  fillWithData S { K with blockNum := lines.length } garbage (fileBlocks lines) draws

end SquareRootOramController

/-- The members of the controller after `FromFile`. -/
def SquareRootOramConfig.loaded (K : SquareRootOramConfig) (lines : List (D × ℕ)) :
    SquareRootOramConfig := { K with blockNum := lines.length }

/-- The system after the constructors and `InitOram`; the capacity is sent as a `uint32`. -/
def SqrtSystem.watched (C : Codec D) (K : SquareRootOramConfig) : SqrtSystem (SqrtWatched C) where
  client := .new
  server := ⟨.new C (K.blockNum % 2 ^ 32), []⟩

/-- `Access` under watch. -/
def SqrtRequest.runWatched (K : SquareRootOramConfig) (r : SqrtRequest C) :
    Prog Exit (SqrtSystem (SqrtWatched C)) C.Sealed :=
  access (stub C) K r.op r.address r.buffer r.draws

/-- **Client and server agree on the dimensions**: dummies and shelter suffice for `√m` accesses,
and in no run of accesses to the lines does a handler index out of range or `PANIC`. -/
structure SqrtSystem.Consistent (K : SquareRootOramConfig) (w : SqrtSystem (SqrtWatched C)) :
    Prop where
  dummy_le : K.sqrtM ≤ w.server.storage.dummy.length
  shelter_le : K.sqrtM ≤ w.server.storage.shelter.length
  run : ∀ (rs : List (SqrtRequest C)) outs w',
    (∀ r ∈ rs, r.address < K.blockNum ∧ r.draws.perm.Perm (List.range K.words)) →
    Prog.trace Exit.fatal (SqrtRequest.runWatched K) rs w = some (outs, w') →
    w'.server.faults = []

namespace SquareRootOramController

/-- What the server stores of `contents`. -/
def filled (C : Codec D) (capacity : ℕ) (contents : List C.Sealed) : SqrtOramServerStorage C where
  capacity := capacity
  mainMemory := (contents.take capacity).map some
  dummy := (contents.drop capacity).map some
  shelter := (contents.drop capacity).map fun _ => freeSlot C

/-- The system that `FillWithData` leaves. -/
def loadedSystem (K : SquareRootOramConfig) (perm : List ℕ) (s : SqrtOramServerStorage C) :
    SqrtSystem (SqrtWatched C) where
  client :=
    { positionMap := fun a => if a < K.words then some (perm.getD a 0) else none
      nextDummy := 0, counter := 0, isInitialized := true }
  server := ⟨s, []⟩

/-- The load of blocks with the ids `0`, `1`, …: every word is where the position map says. -/
theorem fillWithData_watched (capacity : ℕ) {padding : ℕ → OramBlock D}
    {data : List (OramBlock D)} {draws : SqrtFillDraws C}
    (hids : (data.map OramBlock.id).Perm (List.range data.length)) (hlen : data.length ≤ K.words)
    (hperm : draws.perm.Perm (List.range K.words)) :
    ∃ contents : List C.Sealed, contents.length = K.words ∧
      fillWithData (stub C) K padding data draws ⟨.new, .new C capacity, []⟩ =
        (.ok (), loadedSystem K draws.perm (filled C capacity contents)) ∧
      ∀ a < K.words,
        ∃ c, contents[draws.perm.getD a 0]? = some c ∧ (C.decryptBlock c).2.id = a := by
  have hpadded := padded_ids padding hlen hids
  have hsize : ((padded padding data K.words).mergeSort byId).length = K.words := by
    rw [List.length_mergeSort, ← List.length_map (f := OramBlock.id), hpadded.length_eq,
      List.length_range]
  refine ⟨loadedContents K padding data draws, length_loadedContents padding hlen draws, ?_,
    fun a ha => ?_⟩
  · rw [fillWithData_eq _ _ padding hlen hperm]
    rfl
  · obtain ⟨b, hb, hid, -⟩ := getElem?_sorted hpadded ha
    obtain ⟨hget, -⟩ := getElem?_perm hperm ha
    have hplaces : draws.perm.Perm
        (List.range ((padded padding data K.words).mergeSort byId).length) := by
      rw [hsize]
      exact hperm
    refine ⟨C.encryptBlock (draws.iv (draws.perm.getD a 0)) b, ?_, ?_⟩
    · rw [loadedContents, List.getElem?_mapIdx, getElem?_permuteBy hplaces hget, hb,
        Option.map_some]
    · rw [C.decrypt_encrypt]
      exact hid

/-- With a main memory no larger than the file, the rest is room enough. -/
theorem roomy_filled {contents : List C.Sealed} (hlen : contents.length = K.words) {capacity : ℕ}
    (hle : capacity ≤ K.blockNum) : (filled C capacity contents).Roomy K where
  words_eq := by
    simp only [filled, List.length_map, List.length_take, List.length_drop, hlen]
    omega
  dummy_le := by
    simp only [filled, List.length_map, List.length_drop, hlen, SquareRootOramConfig.words]
    omega
  shelter_le := by
    simp only [filled, List.length_map, List.length_drop, hlen, SquareRootOramConfig.words]
    omega
  slot_tag := by
    intro t c hmem
    simp [filled, freeSlot] at hmem

/-! ## Without a slot for a period

If `sqrt_m_` is zero, `counter_` never reaches it: no epoch ends, and the shelter is
never emptied. Every read takes a slot, and the one after the last slot finds none. -/

variable {w : SqrtSystem (SqrtWatched C)}

/-- Whatever becomes of a call, the client goes on with the server it leaves. -/
theorem remote_snd {σ α : Type} (location : String) (m : Prog String σ α) (w : SqrtSystem σ) :
    (remote location m w).2 = { w with server := (m w.server).2 } := by
  rw [remote]
  rcases m w.server with ⟨e | a, server⟩ <;> rfl

/-- A controller with `√m = 0` whose shelter has `free` slots left: all its words are dummies,
and nothing ever empties the shelter. -/
structure Unemptied (K : SquareRootOramConfig) (a free : ℕ) (w : SqrtSystem (SqrtWatched C)) :
    Prop where
  initialized : w.client.isInitialized = true
  main_eq : w.server.storage.mainMemory = []
  found : ∃ t c, w.client.positionMap a = some t ∧
    w.server.storage.dummy[t]? = some (some c) ∧ (C.decryptBlock c).2.id = a
  shelter_eq : ∃ taken : List (ℕ × C.Sealed), w.server.storage.shelter =
    taken.map (fun e => (e.1, some e.2)) ++ List.replicate free (freeSlot C)

/-- In a shelter without free slots there is no place for a block. -/
theorem writeFirstFree_taken (t : ℕ) (c : C.Sealed) (taken : List (ℕ × C.Sealed))
    (rest : List (ℕ × Option C.Sealed)) :
    writeFirstFree t c (taken.map (fun e => (e.1, some e.2)) ++ rest) =
      (writeFirstFree t c rest).map (taken.map (fun e => (e.1, some e.2)) ++ ·) := by
  induction taken with
  | nil => simp
  | cons e taken ih =>
    simp only [List.map_cons, List.cons_append, writeFirstFree, ih, Option.map_map]
    rfl

/-- A read takes a slot of the shelter, if there is one, and leaves it taken. -/
theorem read_unemptied (hsqrt : K.sqrtM = 0) {a free : ℕ} (hw : Unemptied K a free w)
    (buffer : OramBlock D) (draws : SqrtDraws C) :
    ∃ content w', access (stub C) K .kRead a buffer draws w = (.ok content, w') ∧
      (free = 0 → w'.server.faults ≠ []) ∧ ∀ n, free = n + 1 → Unemptied K a n w' := by
  obtain ⟨t, c, hpos, hword, hid⟩ := hw.found
  have hlt : t < w.server.storage.dummy.length := (List.getElem?_eq_some_iff.mp hword).1
  have hread : (stub C).readSqrtMemory .kMainMemory t w.server = (.ok (some c), w.server) := by
    have hcheck : w.server.storage.check t .kMainMemory = true := by
      simp only [check, hw.main_eq, List.length_nil, decide_eq_true_eq]
      omega
    show SqrtWatched.readSqrtMemory .kMainMemory t w.server = _
    rw [SqrtWatched.readSqrtMemory]
    simp [hcheck, watch, readBlockFromMain, readBlockFromDummy, hw.main_eq, hword]
  have hscan : scanShelter (stub C) a (List.range K.sqrtM) none w = (.ok none, w) := by
    rw [hsqrt]
    rfl
  have hfetch : fetch (stub C) K a t w = (.ok (C.decryptBlock c).2, w) := by
    have hmain : readMain (stub C) t w = (.ok (C.decryptBlock c).2, w) := by
      rw [readMain, Prog.bind_ok (remote_ok hread)]
      rfl
    rw [fetch, Prog.attempt_bind, readShelter_of_scan hscan]
    exact Prog.mapError_ok hmain
  rw [access_eq hw.initialized (by decide) hpos, Prog.bind_ok hfetch, finish,
    if_neg (by simp [hid])]
  simp only [if_true]
  generalize C.encryptBlock draws.iv (C.decryptBlock c).2 = content
  -- `++counter_ == sqrt_m_` does not hold
  have hcount : ∀ v : SqrtSystem (SqrtWatched C), permuteOnFull (stub C) K draws.perm v =
      (.ok (), { v with client := { v.client with counter := v.client.counter + 1 } }) := by
    intro v
    rw [permuteOnFull, update, Prog.modify_bind, Prog.get_bind, if_neg (by rw [hsqrt]; simp)]
    rfl
  obtain ⟨taken, htaken⟩ := hw.shelter_eq
  have hwrite : (writeBlock (stub C) t content w).2 =
      { w with server := (watch (writeBlockToShelter t content) w.server).2 } := remote_snd _ _ w
  refine ⟨content, { client := { w.client with counter := w.client.counter + 1 }
                     server := (watch (writeBlockToShelter t content) w.server).2 }, ?_, ?_, ?_⟩
  · rw [Prog.attempt_bind, hwrite]
    exact Prog.bind_ok (Prog.mapError_ok (hcount _))
  · rintro rfl
    have hfull : writeFirstFree t content w.server.storage.shelter = none := by
      rw [htaken, writeFirstFree_taken]
      rfl
    simp [watch, writeBlockToShelter, hfull]
  · rintro n rfl
    have hput : writeFirstFree t content w.server.storage.shelter =
        some (taken.map (fun e => (e.1, some e.2)) ++
          (t, some content) :: List.replicate n (freeSlot C)) := by
      rw [htaken, writeFirstFree_taken, List.replicate_succ]
      rfl
    simp only [watch, writeBlockToShelter, hput]
    exact ⟨hw.initialized, hw.main_eq, ⟨t, c, hpos, hword, hid⟩, taken ++ [(t, content)], by simp⟩

/-- **The shelter fills up**: one read more than it has slots left. -/
theorem trace_unemptied (hsqrt : K.sqrtM = 0) {a : ℕ} (r : SqrtRequest C) (hop : r.op = .kRead)
    (haddress : r.address = a) : ∀ (free : ℕ) {w : SqrtSystem (SqrtWatched C)},
      Unemptied K a free w → ∃ outs w',
        Prog.trace Exit.fatal (SqrtRequest.runWatched K) (List.replicate (free + 1) r) w =
          some (outs, w') ∧ w'.server.faults ≠ [] := by
  intro free
  induction free with
  | zero =>
    intro w hw
    obtain ⟨content, w', hrun, hfault, -⟩ := read_unemptied hsqrt hw r.buffer r.draws
    have hcall : r.runWatched K w = (.ok content, w') := by
      rw [SqrtRequest.runWatched, hop, haddress]
      exact hrun
    refine ⟨[.ok content], w', ?_, hfault rfl⟩
    rw [List.replicate_one, Prog.trace_cons_ok hcall]
    rfl
  | succ free ih =>
    intro w hw
    obtain ⟨content, w', hrun, -, hnext⟩ := read_unemptied hsqrt hw r.buffer r.draws
    have hcall : r.runWatched K w = (.ok content, w') := by
      rw [SqrtRequest.runWatched, hop, haddress]
      exact hrun
    obtain ⟨outs, w'', hrest, hfault⟩ := ih (hnext free rfl)
    refine ⟨.ok content :: outs, w'', ?_, hfault⟩
    rw [List.replicate_succ, Prog.trace_cons_ok hcall, hrest]
    rfl

end SquareRootOramController

/-! ## The condition -/

/-- A run leaves nothing on record. -/
theorem SqrtSystem.Fits.of_trace {w w' : SqrtSystem (SqrtWatched C)} (hw : w.Fits K)
    {rs : List (SqrtRequest C)} {outs : List (Except Exit C.Sealed)}
    (hperm : ∀ r ∈ rs, r.draws.perm.Perm (List.range K.words))
    (hrun : Prog.trace Exit.fatal (SqrtRequest.runWatched K) rs w = some (outs, w')) :
    w'.Fits K := by
  refine Prog.trace_history Exit.fatal
    (fun (r : SqrtRequest C) _ => r.draws.perm.Perm (List.range K.words)) (fun _ w => w.Fits K)
    (fun past r v out v' hr hv hcall => ?_) [] hw (.of_forall (fun r hr _ => hperm r hr) w) hrun
  have hstep := access_watched hv r.op r.address r.buffer hr
  obtain ⟨heq, -⟩ := Prog.eq_of_survive hcall
  rw [SqrtRequest.runWatched] at heq
  rwa [heq] at hstep

variable {garbage : ℕ → OramBlock D} {lines : List (D × ℕ)} {draws : SqrtFillDraws C} {m : ℕ}

section

variable {contents : List C.Sealed} (hcontents : contents.length = (K.loaded lines).words)
include hcontents

/-- The load leaves enough room if the main memory is no larger than the file. -/
theorem fits_loaded (hperm : draws.perm.Perm (List.range (K.loaded lines).words))
    (hsqrt : 0 < K.sqrtM) {capacity : ℕ} (hle : capacity ≤ lines.length) :
    (loadedSystem (K.loaded lines) draws.perm (filled C capacity contents)).Fits
      (K.loaded lines) := by
  refine ⟨roomy_filled hcontents hle, fun a t ht => ?_, hsqrt, le_rfl, rfl⟩
  simp only [loadedSystem] at ht
  split_ifs at ht with ha
  exact ⟨ha, Option.some.inj ht ▸ (getElem?_perm hperm ha).2⟩

/-- The load of a file into an ORAM of no blocks: a slot of the shelter for every line, and no
main memory. -/
theorem unemptied_loaded (hsqrt : K.sqrtM = 0) {perm : List ℕ} (hpos : 0 < lines.length)
    (hword : ∃ c, contents[perm.getD 0 0]? = some c ∧ (C.decryptBlock c).2.id = 0) :
    Unemptied (K.loaded lines) 0 lines.length
      (loadedSystem (K.loaded lines) perm (filled C 0 contents)) := by
  have hwords : (K.loaded lines).words = lines.length + K.sqrtM := rfl
  obtain ⟨c, hc, hid⟩ := hword
  refine ⟨rfl, ?_, ⟨perm.getD 0 0, c, if_pos (by omega), ?_, hid⟩, [], ?_⟩
  · simp [loadedSystem, filled]
  · simp only [loadedSystem, filled, List.drop_zero, List.getElem?_map, hc, Option.map_some]
  · simp [loadedSystem, filled, hcontents, hwords, hsqrt]

end

/-- **When a load from a file keeps the dimensions consistent**: the file has at least as many
lines as the server has been told to have room for, and an ORAM of no blocks gets none. -/
theorem sqrtOram_fromFile_consistent_iff (hK : SquareRootOramConfig.new m = .ok K)
    (hperm : draws.perm.Perm (List.range (K.loaded lines).words)) :
    ∃ w, fromFile (stub C) K garbage lines draws (.watched C K) = (.ok (), w) ∧
      (w.Consistent (K.loaded lines) ↔ m % 2 ^ 32 ≤ lines.length ∧ (m = 0 → lines = [])) := by
  have hblock : K.blockNum = m := by rw [SquareRootOramConfig.eq_of_new hK]
  have hsqrt := SquareRootOramConfig.sqrtM_eq_zero_iff hK
  have hwords : (K.loaded lines).words = lines.length + K.sqrtM := rfl
  have hids : ((fileBlocks lines).map OramBlock.id).Perm
      (List.range (fileBlocks lines).length) := by
    rw [map_id_fileBlocks, length_fileBlocks]
  have hlen : (fileBlocks lines).length ≤ (K.loaded lines).words := by
    rw [length_fileBlocks, hwords]
    exact Nat.le_add_right _ _
  obtain ⟨contents, hcontents, hfill, hword⟩ :=
    fillWithData_watched (C := C) (K.blockNum % 2 ^ 32) hids hlen hperm
  refine ⟨_, hfill, fun h => ⟨?_, fun hzero => ?_⟩, fun hfits => ?_⟩
  · -- the shelter has what the main memory has left of the words
    have hshelter := h.shelter_le
    simp only [loadedSystem, filled, List.length_map, List.length_drop, hcontents, hwords]
      at hshelter
    change K.sqrtM ≤ _ at hshelter
    rw [hblock] at hshelter
    by_cases hnone : K.sqrtM = 0
    · simp [hsqrt.mp hnone]
    · omega
  · by_contra hne
    have hpos : 0 < lines.length := List.length_pos_iff.mpr hne
    rw [hblock, hzero, Nat.zero_mod] at h
    let r : SqrtRequest C := ⟨.kRead, 0, garbage 0, ⟨draws.perm, draws.iv 0⟩⟩
    obtain ⟨outs, w', hrun, hfault⟩ := trace_unemptied (K := K.loaded lines) (hsqrt.mpr hzero) r
      rfl rfl lines.length
      (unemptied_loaded hcontents (hsqrt.mpr hzero) hpos (hword 0 (by omega)))
    refine hfault (h.run _ outs w' (fun r' hr => ?_) hrun)
    obtain rfl := List.eq_of_mem_replicate hr
    exact ⟨hpos, hperm⟩
  · obtain ⟨hle, hempty⟩ := hfits
    rw [← hblock] at hle
    have hroomy : (filled C (K.blockNum % 2 ^ 32) contents).Roomy (K.loaded lines) :=
      roomy_filled hcontents hle
    refine ⟨hroomy.dummy_le, hroomy.shelter_le, fun rs outs w' hrs hrun => ?_⟩
    by_cases hnone : K.sqrtM = 0
    · -- without blocks there is no address to access
      have hnil : rs = [] := by
        refine List.eq_nil_iff_forall_not_mem.mpr fun r hr => ?_
        have hlt := (hrs r hr).1
        rw [hempty (hsqrt.mp hnone)] at hlt
        exact Nat.not_lt_zero _ hlt
      subst hnil
      cases hrun
      rfl
    · have hfits := fits_loaded hcontents hperm (Nat.pos_of_ne_zero hnone) hle
      exact (hfits.of_trace (fun r hr => (hrs r hr).2) hrun).faults_eq

/-! ## Two blocks, and files of one and of two lines -/

/-- A file of `n` lines. -/
def smallFile (n : ℕ) : List (ℕ × ℕ) := List.replicate n (7, 1)

/-- The draws of the load. -/
def smallFileDraws (perm : List ℕ) : SqrtFillDraws (Codec.plain ℕ) := ⟨perm, fun _ => ()⟩

theorem sqrtOram_fromFile_consistent_two :
    ∃ w, fromFile (stub _) smallSqrt (fun _ => dummyWord) (smallFile 2)
        (smallFileDraws [2, 0, 3, 1]) (.watched _ smallSqrt) = (.ok (), w) ∧
      w.Consistent (smallSqrt.loaded (smallFile 2)) := by
  obtain ⟨w, hfill, hiff⟩ := @sqrtOram_fromFile_consistent_iff _ _ _ (fun _ => dummyWord)
    (smallFile 2) (smallFileDraws [2, 0, 3, 1]) _ smallSqrt_new (by decide)
  exact ⟨w, hfill, hiff.mpr ⟨by decide, by decide⟩⟩

/-- With one line for two blocks, the server is left with one dummy and one slot of the shelter,
and the first access reads behind the shelter. -/
theorem sqrtOram_fromFile_not_consistent :
    SquareRootOramConfig.new 2 = .ok smallSqrt ∧
    ∃ w, fromFile (stub _) smallSqrt (fun _ => dummyWord) (smallFile 1)
        (smallFileDraws [2, 0, 1]) (.watched _ smallSqrt) = (.ok (), w) ∧
      ¬ w.Consistent (smallSqrt.loaded (smallFile 1)) ∧
      w.server.storage.shelter.length = 1 ∧
      (access (stub _) (smallSqrt.loaded (smallFile 1)) .kRead 0 dummyWord ⟨[0, 1, 2], ()⟩
        w).2.server.faults ≠ [] := by
  obtain ⟨contents, hlength, hfill, -⟩ := @fillWithData_watched _ (Codec.plain ℕ)
    (smallSqrt.loaded (smallFile 1)) 2 (fun _ => dummyWord) (fileBlocks (smallFile 1))
    (smallFileDraws [2, 0, 1]) (by decide) (by decide) (by decide)
  obtain ⟨c₀, c₁, c₂, rfl⟩ := List.length_eq_three.mp hlength
  refine ⟨smallSqrt_new, _, hfill, fun h => ?_, rfl, ?_⟩
  · exact Nat.not_succ_le_self 1 h.shelter_le
  · exact List.cons_ne_nil (Exit.undefined "shelter_[pos] is out of range") []

end ObliviousRam
