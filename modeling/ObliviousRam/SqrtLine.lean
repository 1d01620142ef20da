import ObliviousRam.SqrtTags
import ObliviousRam.SqrtSimulation

set_option autoImplicit false

/-!
# A square-root ORAM over a line that fails

Every call of a run may be lost, or be carried out and stay unanswered, in any
order. `SqrtLine` is the server at the other end of such a connection, with a
record of the requests that its arrays cannot serve.

`Shaped` is what is left of the invariants in such a run: the sizes of the
arrays, and that tags name words. It is enough to say, of each step of an access,
what it returns and what it records: the outcome depends on how many of the next
calls pass, and on where the address is found.
-/

namespace ObliviousRam

open SqrtOramServerStorage SqrtSystem SquareRootOramController

variable {D : Type} {C : Codec D} {K : SquareRootOramConfig}

/-! ## Calls that pass

A line is a list of what becomes of its calls. `passing n` says that the next `n` calls
arrive and are answered, and everything about an access is told by how many of its calls
pass. -/

namespace Delivery

/-- The call is carried out and answered. -/
def passes : Delivery → Bool
  | carried => true
  | lost _ => false
  | unanswered _ => false

/-- The next `n` calls pass. Past the end of the list, every call does. -/
def passing (n : ℕ) (ds : List Delivery) : Bool := (ds.take n).all passes

@[simp] theorem passing_zero (ds : List Delivery) : passing 0 ds = true := rfl

theorem passing_succ (n : ℕ) (ds : List Delivery) :
    passing (n + 1) ds = (passing 1 ds && passing n (ds.drop 1)) := by
  cases ds with
  | nil => simp [passing]
  | cons d ds => simp [passing]

/-- Calls pass one after the other. -/
theorem passing_add (m n : ℕ) (ds : List Delivery) :
    passing (m + n) ds = (passing m ds && passing n (ds.drop m)) := by
  rw [passing, List.take_add, List.all_append, passing, passing]

variable {σ α : Type}

/-- A call that passes is a call of the server. -/
theorem relay_passing (m : Prog String σ α) (s : σ) {ds : List Delivery}
    (h : passing 1 ds = true) : relay m (s, ds) = ((m s).1, (m s).2, ds.drop 1) := by
  cases ds with
  | nil => rfl
  | cons d ds => cases d with
    | carried => rfl
    | lost message => cases h
    | unanswered message => cases h

/-- The next call is carried out, and its answer is lost. -/
def unheard : List Delivery → Bool
  | unanswered _ :: _ => true
  | _ => false

/-- A call that does not pass is an error to the client, with its effect or without. -/
theorem relay_failing (m : Prog String σ α) (s : σ) {ds : List Delivery}
    (h : passing 1 ds = false) :
    ∃ message, relay m (s, ds) =
      (.error message, if unheard ds then (m s).2 else s, ds.drop 1) := by
  cases ds with
  | nil => cases h
  | cons d ds => cases d with
    | carried => cases h
    | lost message => exact ⟨message, rfl⟩
    | unanswered message => exact ⟨message, rfl⟩

end Delivery

/-! ## The line -/

/-- A request that the arrays of the server cannot serve. -/
inductive SqrtOverrun where
  /-- `shelter_[pos]` with `pos ≥ shelter_.size()` -/
  | shelterRead
  /-- `dummy_[pos]` with `pos ≥ dummy_.size()` -/
  | dummyRead
  /-- `WriteBlockToShelter` without a free slot -/
  | shelterFull
  deriving DecidableEq, Repr

namespace SqrtOramServerStorage

/-- What is wrong with reading at `tag`, if anything. -/
def readOverrun (area : SqrtArea) (tag : ℕ) (s : SqrtOramServerStorage C) : Option SqrtOverrun :=
  match area with
  | .kShelter => if tag < s.shelter.length then none else some .shelterRead
  | .kMainMemory => none
  | .kDummy => if tag < s.dummy.length then none else some .dummyRead

/-- What is wrong with writing to the shelter, if anything. -/
def writeOverrun (pos : ℕ) (content : C.Sealed) (s : SqrtOramServerStorage C) :
    Option SqrtOverrun :=
  if (writeFirstFree pos content s.shelter).isSome then none else some .shelterFull

end SqrtOramServerStorage

/-- A server at the end of a connection that fails as `deliveries` says, and what has been
asked of it out of bounds. -/
structure SqrtLine (C : Codec D) where
  storage : SqrtOramServerStorage C
  deliveries : List Delivery
  overruns : List SqrtOverrun

namespace SqrtLine

/-- A call over the line, whatever becomes of it. -/
def call {α : Type} (overrun : SqrtOramServerStorage C → Option SqrtOverrun)
    (m : Prog String (SqrtOramServerStorage C) α) : Prog String (SqrtLine C) α := fun l =>
  let r := Delivery.relay m (l.storage, l.deliveries)
  (r.1, ⟨r.2.1, r.2.2, l.overruns ++ (overrun l.storage).toList⟩)

/-- The stub of a client at the other end. -/
def stub (C : Codec D) : SqrtStub C (SqrtLine C) where
  loadSqrtOram := fun data => call (fun _ => none) ((OramService.sqrtStub C).loadSqrtOram data)
  readSqrtMemory := fun area tag =>
    call (readOverrun area tag) ((OramService.sqrtStub C).readSqrtMemory area tag)
  writeSqrtMemory := fun pos content =>
    call (writeOverrun pos content) ((OramService.sqrtStub C).writeSqrtMemory pos content)
  sqrtPermute := fun perms => call (fun _ => none) ((OramService.sqrtStub C).sqrtPermute perms)

/-- The line after a call that has left the storage as `s`. -/
def next (l : SqrtLine C) (overrun : Option SqrtOverrun) (s : SqrtOramServerStorage C) :
    SqrtLine C := ⟨s, l.deliveries.drop 1, l.overruns ++ overrun.toList⟩

end SqrtLine

namespace SquareRootOramController

variable {α : Type} {l : String} {o : SqrtOramServerStorage C → Option SqrtOverrun}
  {m : Prog String (SqrtOramServerStorage C) α} {w : SqrtSystem (SqrtLine C)}

/-- A call that passes, and that the server can serve. -/
theorem remote_passing {a : α} {s : SqrtOramServerStorage C}
    (hm : m w.server.storage = (.ok a, s))
    (h : Delivery.passing 1 w.server.deliveries = true) :
    remote l (SqrtLine.call o m) w =
      (.ok a, ⟨w.client, w.server.next (o w.server.storage) s⟩) := by
  rw [remote, SqrtLine.call, Delivery.relay_passing _ _ h, hm]
  rfl

/-- A call that does not pass is reported as a server error. -/
theorem remote_failing (h : Delivery.passing 1 w.server.deliveries = false) :
    ∃ message, remote l (SqrtLine.call o m) w =
      (.error (.status (.make .kServerError message l)),
        ⟨w.client, w.server.next (o w.server.storage)
          (if Delivery.unheard w.server.deliveries then (m w.server.storage).2
            else w.server.storage)⟩) := by
  obtain ⟨message, hrelay⟩ := Delivery.relay_failing m w.server.storage h
  refine ⟨message, ?_⟩
  rw [remote, SqrtLine.call, hrelay]
  rfl

/-- And so is one that the server cannot serve. -/
theorem remote_refused {s : SqrtOramServerStorage C} {message : String}
    (hm : m w.server.storage = (.error message, s))
    (h : Delivery.passing 1 w.server.deliveries = true) :
    remote l (SqrtLine.call o m) w =
      (.error (.status (.make .kServerError message l)),
        ⟨w.client, w.server.next (o w.server.storage) s⟩) := by
  rw [remote, SqrtLine.call, Delivery.relay_passing _ _ h, hm]
  rfl

end SquareRootOramController

/-! ## The shape of the storage

Whatever is lost, the server keeps arrays of these sizes, and the tags in its shelter
are those of words. For this no call has to arrive. -/

namespace SqrtOramServerStorage

/-- The sizes of the arrays. Every word is there, and the tags of the shelter name words. -/
structure Shaped (K : SquareRootOramConfig) (s : SqrtOramServerStorage C) : Prop where
  main_length : s.mainMemory.length = K.blockNum
  dummy_length : s.dummy.length = K.sqrtM
  shelter_length : s.shelter.length = K.sqrtM
  word : ∀ t < K.words, ∃ c, s.assembled[t]? = some (some c)
  slot_free : ∀ e ∈ s.shelter, e.2 = none → e = freeSlot C
  slot_tag : ∀ t c, (t, some c) ∈ s.shelter → t < K.words

/-- Some slot of the shelter is taken. -/
def Occupied (s : SqrtOramServerStorage C) : Prop := ∃ t c, (t, some c) ∈ s.shelter

/-- Free slots are not occupied. -/
theorem not_occupied_of_free {s : SqrtOramServerStorage C}
    (h : ∀ e ∈ s.shelter, e = freeSlot C) : ¬s.Occupied := by
  rintro ⟨t, c, hmem⟩
  cases h _ hmem

/-- A call was carried out or not: in either case the shelter is that of its storage. -/
theorem Occupied.of_ite {c : Prop} [Decidable c] {s t : SqrtOramServerStorage C}
    (h : (if c then s else t).Occupied) : c ∧ s.Occupied ∨ ¬c ∧ t.Occupied := by
  split at h
  next hc => exact .inl ⟨hc, h⟩
  next hc => exact .inr ⟨hc, h⟩

namespace Shaped

variable {s : SqrtOramServerStorage C}

theorem ite {c : Prop} [Decidable c] {t : SqrtOramServerStorage C} (hs : s.Shaped K)
    (ht : t.Shaped K) : (if c then s else t).Shaped K := by
  split
  · exact hs
  · exact ht

theorem words_eq (hs : s.Shaped K) : s.mainMemory.length + s.dummy.length = K.words := by
  rw [hs.main_length, hs.dummy_length, SquareRootOramConfig.words]

/-- Another shelter. -/
theorem setShelter (hs : s.Shaped K) {shelter : List (ℕ × Option C.Sealed)}
    (hlen : shelter.length = K.sqrtM) (hfree : ∀ e ∈ shelter, e.2 = none → e = freeSlot C)
    (htag : ∀ t c, (t, some c) ∈ shelter → t < K.words) :
    Shaped K { s with shelter := shelter } :=
  ⟨hs.main_length, hs.dummy_length, hlen, hs.word, hfree, htag⟩

/-- Clearing one slot. -/
theorem clear (hs : s.Shaped K) (i : ℕ) :
    Shaped K { s with shelter := s.shelter.set i (freeSlot C) } := by
  have hmem : ∀ e ∈ s.shelter.set i (freeSlot C), e ∈ s.shelter ∨ e = freeSlot C :=
    fun e he => List.mem_or_eq_of_mem_set he
  refine hs.setShelter (List.length_set.trans hs.shelter_length) (fun e he hnone => ?_)
    fun t c hc => ?_
  · rcases hmem e he with h | h
    · exact hs.slot_free e h hnone
    · exact h
  · rcases hmem _ hc with h | h
    · exact hs.slot_tag t c h
    · cases h

theorem readSqrtMemory (hs : s.Shaped K) (area : SqrtArea) (tag : ℕ) :
    ((OramService.sqrtStub C).readSqrtMemory area tag s).2.Shaped K := by
  show (OramService.readSqrtMemory area tag s).2.Shaped K
  cases area with
  | kShelter =>
    rw [OramService.readSqrtMemory]
    split
    · exact hs
    simp only [Prog.mapError, readBlockFromShelter]
    rcases s.shelter[tag]? with _ | e
    · exact hs
    · exact hs.clear tag
  | kMainMemory =>
    rw [OramService.readSqrtMemory]
    split
    · exact hs
    simp only [Prog.mapError, readBlockFromMain, readBlockFromDummy]
    rcases s.mainMemory[tag]? with _ | e
    · rcases s.dummy[tag - s.mainMemory.length]? with _ | e <;> exact hs
    · exact hs
  | kDummy =>
    rw [OramService.readSqrtMemory]
    split
    · exact hs
    simp only [Prog.mapError, readBlockFromDummy]
    rcases s.dummy[tag]? with _ | e <;> exact hs

theorem length_writeFirstFree {tag : ℕ} {data : C.Sealed}
    {slots slots' : List (ℕ × Option C.Sealed)} (h : writeFirstFree tag data slots = some slots') :
    slots'.length = slots.length := by
  induction slots generalizing slots' with
  | nil => cases h
  | cons slot slots ih =>
    obtain ⟨t, content⟩ := slot
    have hskip : ∀ {rest}, (writeFirstFree tag data slots).map ((t, content) :: ·) = some rest →
        rest.length = ((t, content) :: slots).length := by
      intro rest hrest
      obtain ⟨tail, htail, rfl⟩ := Option.map_eq_some_iff.mp hrest
      rw [List.length_cons, List.length_cons, ih htail]
    cases content with
    | some c => exact hskip h
    | none =>
      rw [writeFirstFree] at h
      split at h
      · cases h
        rfl
      · exact hskip h

theorem writeSqrtMemory (hs : s.Shaped K) {pos : ℕ} (hpos : pos < K.words) (content : C.Sealed) :
    ((OramService.sqrtStub C).writeSqrtMemory pos content s).2.Shaped K := by
  show (Prog.mapError OramService.connectionLost (writeBlockToShelter pos content) s).2.Shaped K
  simp only [Prog.mapError, writeBlockToShelter]
  rcases hwrite : writeFirstFree pos content s.shelter with _ | shelter
  · exact hs
  · refine hs.setShelter ((length_writeFirstFree hwrite).trans hs.shelter_length)
      (fun e he hnone => ?_) fun t c hc => ?_
    · rcases mem_of_writeFirstFree hwrite he with h | h
      · exact hs.slot_free e h hnone
      · rw [h] at hnone
        cases hnone
    · rcases mem_of_writeFirstFree hwrite hc with h | h
      · exact hs.slot_tag t c h
      · cases h
        exact hpos

/-- `DoPermute` goes through, and empties the shelter. -/
theorem sqrtPermute (hs : s.Shaped K) {perm : List ℕ} (hperm : perm.Perm (List.range K.words)) :
    ∃ s', (OramService.sqrtStub C).sqrtPermute perm s = (.ok (), s') ∧ s'.Shaped K ∧
      ¬s'.Occupied := by
  have hlen : perm.length = K.words := hperm.length_eq.trans List.length_range
  obtain ⟨md, hmerge⟩ : ∃ md,
      mergeShelter s.shelter (s.mainMemory, s.dummy) = some md :=
    mergeShelter_total fun t c hc => hs.words_eq ▸ hs.slot_tag t c hc
  obtain ⟨hmain, hdummy, hword⟩ := getElem?_of_mergeShelter hmerge
  have hlength : (md.1 ++ md.2).length = K.words := by
    rw [List.length_append, hmain, hdummy, hs.words_eq]
  have hpermuted := length_permuteBy perm (md.1 ++ md.2)
  have hfree : ∀ e ∈ s.shelter.map fun _ => freeSlot C, e = freeSlot C := by
    intro e he
    obtain ⟨_, -, rfl⟩ := List.mem_map.mp he
    rfl
  refine ⟨{ s with
    mainMemory := (permuteBy perm (md.1 ++ md.2)).take md.1.length
    dummy := (permuteBy perm (md.1 ++ md.2)).drop md.1.length
    shelter := s.shelter.map fun _ => freeSlot C }, ?_, ⟨?_, ?_, ?_, fun t ht => ?_,
    fun e he _ => hfree e he, fun t c hc => nomatch hfree _ hc⟩, not_occupied_of_free hfree⟩
  · exact Prog.mapError_ok (doPermute_ok (hlen.trans hs.words_eq.symm) hmerge
      (lt_length_of_perm hperm))
  · rw [List.length_take, hpermuted, List.length_append, hmain, hs.main_length]
    exact Nat.min_eq_left (Nat.le_add_right _ _)
  · rw [List.length_drop, hpermuted, List.length_append, hmain, hdummy, hs.dummy_length,
      Nat.add_sub_cancel_left]
  · rw [List.length_map, hs.shelter_length]
  · -- every place of a permutation is the place of some word
    have hmem : t ∈ perm := hperm.mem_iff.mpr (List.mem_range.mpr ht)
    obtain ⟨i, hi⟩ := List.mem_iff_getElem?.mp hmem
    have hilt : i < K.words := hlen ▸ (List.getElem?_eq_some_iff.mp hi).1
    rw [assembled, List.take_append_drop, getElem?_permuteBy (hlength ▸ hperm) hi]
    rcases hword i with hsame | ⟨c, -, hnew⟩
    · rw [hsame]
      exact hs.word i hilt
    · exact ⟨c, hnew⟩

/-- Reading the word behind a tag. -/
theorem readMain (hs : s.Shaped K) {t : ℕ} (ht : t < K.words) :
    ∃ c, (OramService.sqrtStub C).readSqrtMemory .kMainMemory t s = (.ok (some c), s) ∧
      s.wordAt t = some (C.decryptBlock c).2 := by
  obtain ⟨c, hc⟩ := hs.word t ht
  refine ⟨c, ?_, wordAt_of_getElem? hc⟩
  show OramService.readSqrtMemory .kMainMemory t s = _
  have hcheck : s.check t .kMainMemory = true := by
    rw [check, hs.words_eq]
    exact decide_eq_true (Nat.le_of_lt ht)
  rw [OramService.readSqrtMemory, hcheck, if_neg Bool.false_ne_true.symm]
  refine Prog.mapError_ok ?_
  rw [assembled, List.getElem?_append] at hc
  rw [readBlockFromMain]
  split at hc
  next => simp only [hc]
  next hge =>
    rw [List.getElem?_eq_none (Nat.not_lt.mp hge)]
    simp only [readBlockFromDummy, hc]

/-- Reading a dummy in range, and out of range. -/
theorem readDummy (hs : s.Shaped K) (i : ℕ) :
    (i < K.sqrtM → ∃ content,
      (OramService.sqrtStub C).readSqrtMemory .kDummy i s = (.ok content, s) ∧
        readOverrun .kDummy i s = none) ∧
    (K.sqrtM ≤ i → ∃ message,
      (OramService.sqrtStub C).readSqrtMemory .kDummy i s = (.error message, s) ∧
        readOverrun .kDummy i s = some .dummyRead) := by
  have hread : (OramService.sqrtStub C).readSqrtMemory .kDummy i s =
      Prog.mapError OramService.connectionLost (readBlockFromDummy i) s := by
    show OramService.readSqrtMemory .kDummy i s = _
    rw [OramService.readSqrtMemory, check, if_neg Bool.false_ne_true.symm]
  rw [hread]
  constructor
  · intro hi
    have hlt : i < s.dummy.length := hs.dummy_length ▸ hi
    refine ⟨s.dummy[i], Prog.mapError_ok ?_, if_pos hlt⟩
    simp only [readBlockFromDummy, List.getElem?_eq_getElem hlt]
  · intro hi
    have hge : s.dummy.length ≤ i := hs.dummy_length ▸ hi
    have hmiss : readBlockFromDummy i s =
        (.error (Exit.undefined "dummy_[pos] is out of range"), s) := by
      simp only [readBlockFromDummy, List.getElem?_eq_none hge]
    exact ⟨_, Prog.mapError_error hmiss, if_neg (Nat.not_lt.mpr hge)⟩

end Shaped

/-- A free shelter takes a word. -/
theorem writeSqrtMemory_free {s : SqrtOramServerStorage C} {n : ℕ} (hn : 0 < n)
    (hs : s.shelter = List.replicate n (freeSlot C)) (pos : ℕ) (content : C.Sealed) :
    ∃ s', (OramService.sqrtStub C).writeSqrtMemory pos content s = (.ok (), s') ∧
      writeOverrun pos content s = none := by
  obtain ⟨k, rfl⟩ := Nat.exists_eq_add_one_of_ne_zero (Nat.ne_of_gt hn)
  have hwrite : writeFirstFree pos content s.shelter =
      some ((pos, some content) :: List.replicate k (freeSlot C)) := by
    rw [hs, List.replicate_succ, freeSlot, writeFirstFree, if_pos rfl]
  refine ⟨{ s with shelter := (pos, some content) :: List.replicate k (freeSlot C) },
    Prog.mapError_ok ?_, ?_⟩
  · rw [writeBlockToShelter]
    simp only [hwrite]
  · rw [writeOverrun, hwrite]
    rfl

end SqrtOramServerStorage

/-! ## Where an access finds its block -/

namespace SqrtOramServerStorage

/-- The scan of the shelter at one slot: a later match replaces an earlier one. -/
def lastMatch (a : ℕ) (found : Option (OramBlock D)) (e : ℕ × Option C.Sealed) :
    Option (OramBlock D) :=
  match e.2 with
  | none => found
  | some c => if blockEqual a (C.decryptBlock c).2 then some (C.decryptBlock c).2 else found

/-- The block of the shelter that an access to `a` takes. -/
def shelterHit (a : ℕ) (s : SqrtOramServerStorage C) : Option (OramBlock D) :=
  s.shelter.foldl (lastMatch a) none

end SqrtOramServerStorage

namespace SqrtSystem

/-- The storage has its shape, and the tags in the position map name words. -/
structure Shaped (K : SquareRootOramConfig) (w : SqrtSystem (SqrtLine C)) : Prop where
  storage : w.server.storage.Shaped K
  tag_lt : ∀ a t, w.client.positionMap a = some t → a < K.words ∧ t < K.words

/-- The scan of the shelter goes through, and finds the address. -/
def hits (K : SquareRootOramConfig) (a : ℕ) (w : SqrtSystem (SqrtLine C)) : Bool :=
  Delivery.passing K.sqrtM w.server.deliveries && (w.server.storage.shelterHit a).isSome

/-- The block that an access to `a` gets to see if its calls pass. -/
def located (K : SquareRootOramConfig) (a : ℕ) (w : SqrtSystem (SqrtLine C)) :
    Option (OramBlock D) :=
  match w.server.storage.shelterHit a with
  | some b => if w.client.nextDummy < K.sqrtM then some b else none
  | none => (w.client.positionMap a).bind w.server.storage.wordAt

/-- The same client on another line. -/
theorem Shaped.of_client {w w' : SqrtSystem (SqrtLine C)} (hw : w.Shaped K)
    (hclient : w'.client.positionMap = w.client.positionMap)
    (hstorage : w'.server.storage.Shaped K) : w'.Shaped K :=
  ⟨hstorage, hclient ▸ hw.tag_lt⟩

end SqrtSystem

namespace SquareRootOramController

/-! ## The scan -/

theorem set_replicate_append {α : Type} (x e : α) (k : ℕ) (rest : List α) :
    (List.replicate k x ++ e :: rest).set k x = List.replicate (k + 1) x ++ rest := by
  rw [List.set_append_right _ _ (by rw [List.length_replicate]), List.length_replicate,
    Nat.sub_self, List.set_cons_zero, List.replicate_succ', List.append_assoc]
  rfl

/-- The slots from `k` on are read one after the other, as long as the calls pass. -/
theorem scanShelter_line (a : ℕ) :
    ∀ (rest : List (ℕ × Option C.Sealed)) (k : ℕ) (found : Option (OramBlock D))
      (w : SqrtSystem (SqrtLine C)), w.server.storage.Shaped K →
      w.server.storage.shelter = List.replicate k (freeSlot C) ++ rest →
      ∃ r w', scanShelter (SqrtLine.stub C) a (List.range' k rest.length) found w = (r, w') ∧
        w'.client = w.client ∧ w'.server.overruns = w.server.overruns ∧
        w'.server.storage.Shaped K ∧
        (w'.server.storage.Occupied → w.server.storage.Occupied) ∧
        (Delivery.passing rest.length w.server.deliveries = true →
          r = .ok (rest.foldl (lastMatch a) found) ∧
          w'.server.storage = { w.server.storage with
            shelter := List.replicate (k + rest.length) (freeSlot C) } ∧
          w'.server.deliveries = w.server.deliveries.drop rest.length) ∧
        (Delivery.passing rest.length w.server.deliveries = false →
          ∃ st, r = .error (.status st) ∧ st.errorCode = .kServerError) := by
  intro rest
  induction rest with
  | nil =>
    intro k found w hs hshelter
    refine ⟨_, w, rfl, rfl, rfl, hs, id, fun _ => ⟨rfl, ?_, rfl⟩, nofun⟩
    rw [List.length_nil, Nat.add_zero, ← List.append_nil (List.replicate k _), ← hshelter]
  | cons e rest ih =>
    intro k found w hs hshelter
    have hslot : w.server.storage.shelter[k]? = some e := by
      rw [hshelter, List.getElem?_append_right (by rw [List.length_replicate]),
        List.length_replicate, Nat.sub_self, List.getElem?_cons_zero]
    have hlt : k < w.server.storage.shelter.length := (List.getElem?_eq_some_iff.mp hslot).1
    have hread : (OramService.sqrtStub C).readSqrtMemory .kShelter k w.server.storage =
        (.ok e.2, { w.server.storage with
          shelter := List.replicate (k + 1) (freeSlot C) ++ rest }) := by
      show OramService.readSqrtMemory .kShelter k w.server.storage = _
      rw [OramService.readSqrtMemory, check, if_neg Bool.false_ne_true.symm]
      refine Prog.mapError_ok ?_
      rw [readBlockFromShelter]
      simp only [hslot]
      rw [hshelter, set_replicate_append]
    have hcleared : ({ w.server.storage with
        shelter := List.replicate (k + 1) (freeSlot C) ++ rest } :
          SqrtOramServerStorage C).Shaped K := by
      have hkeep := hs.readSqrtMemory .kShelter k
      rw [hread] at hkeep
      exact hkeep
    have hoccupied : ({ w.server.storage with
        shelter := List.replicate (k + 1) (freeSlot C) ++ rest } :
          SqrtOramServerStorage C).Occupied → w.server.storage.Occupied := by
      rintro ⟨t, c, hmem⟩
      rcases List.mem_append.mp hmem with hmem | hmem
      · cases List.eq_of_mem_replicate hmem
      · exact ⟨t, c, by
          rw [hshelter]
          exact List.mem_append_right _ (List.mem_cons_of_mem _ hmem)⟩
    have hnone : readOverrun .kShelter k w.server.storage = none := if_pos hlt
    rw [List.length_cons, List.range'_succ, scanShelter]
    rcases hpass : Delivery.passing 1 w.server.deliveries with _ | _
    · obtain ⟨message, hremote⟩ := remote_failing (l := "ReadShelter")
        (o := readOverrun .kShelter k)
        (m := (OramService.sqrtStub C).readSqrtMemory .kShelter k) (w := w) hpass
      rw [hnone, hread] at hremote
      refine ⟨_, _, Prog.bind_error hremote, rfl, List.append_nil _, ?_, ?_, fun h => ?_, fun _ =>
        ⟨_, rfl, rfl⟩⟩
      · exact .ite hcleared hs
      · exact fun h => h.of_ite.elim (fun h => hoccupied h.2) And.right
      · rw [Delivery.passing_succ, hpass] at h
        cases h
    · have hremote := remote_passing (l := "ReadShelter")
        (o := readOverrun .kShelter k) hread hpass
      rw [hnone] at hremote
      obtain ⟨r, w', hrest, hclient, hover, hshape, hocc, hyes, hno⟩ := ih (k + 1)
        (lastMatch a found e)
        ⟨w.client, w.server.next none { w.server.storage with
          shelter := List.replicate (k + 1) (freeSlot C) ++ rest }⟩ hcleared rfl
      refine ⟨r, w', ?_, hclient, hover.trans (List.append_nil _), hshape,
        fun h => hoccupied (hocc h), fun h => ?_, fun h => ?_⟩
      · refine (Prog.bind_ok hremote).trans ?_
        obtain ⟨tag, content⟩ := e
        cases content <;> exact hrest
      · rw [Delivery.passing_succ, hpass, Bool.true_and] at h
        obtain ⟨hr, hstorage, hds⟩ := hyes h
        refine ⟨hr, ?_, ?_⟩
        · rw [hstorage, Nat.add_right_comm, ← Nat.add_assoc]
          rfl
        · rw [hds, SqrtLine.next, List.drop_drop, Nat.add_comm]
      · rw [Delivery.passing_succ, hpass, Bool.true_and] at h
        exact hno h

/-- `ReadShelter`: the whole scan. -/
theorem readShelter_line (a : ℕ) {w : SqrtSystem (SqrtLine C)} (hs : w.server.storage.Shaped K) :
    ∃ r w', readShelter (SqrtLine.stub C) K a w = (r, w') ∧
      w'.client = w.client ∧ w'.server.overruns = w.server.overruns ∧
      w'.server.storage.Shaped K ∧
      (w'.server.storage.Occupied → w.server.storage.Occupied) ∧
      (Delivery.passing K.sqrtM w.server.deliveries = true →
        r = (w.server.storage.shelterHit a).elim (.error (.status (.make .kObjectNotFound
          s!"The target block {a} is not found in the shelter." ""))) .ok ∧
        w'.server.storage = { w.server.storage with
          shelter := List.replicate K.sqrtM (freeSlot C) } ∧
        w'.server.deliveries = w.server.deliveries.drop K.sqrtM) ∧
      (Delivery.passing K.sqrtM w.server.deliveries = false →
        ∃ st, r = .error (.status st) ∧ st.errorCode = .kServerError) := by
  obtain ⟨r, w', hscan, hclient, hover, hshape, hocc, hyes, hno⟩ :=
    scanShelter_line a w.server.storage.shelter 0 none w hs rfl
  rw [hs.shelter_length, ← List.range_eq_range'] at hscan
  rw [hs.shelter_length] at hyes hno
  rw [Nat.zero_add] at hyes
  rcases hpass : Delivery.passing K.sqrtM w.server.deliveries with _ | _
  · obtain ⟨st, rfl, hcode⟩ := hno hpass
    refine ⟨_, w', ?_, hclient, hover, hshape, hocc, by rintro ⟨⟩, fun _ => ⟨st, rfl, hcode⟩⟩
    rw [readShelter]
    exact Prog.bind_error hscan
  · obtain ⟨rfl, hstorage, hds⟩ := hyes hpass
    exact ⟨_, w', readShelter_of_scan hscan, hclient, hover, hshape, hocc,
      fun _ => ⟨rfl, hstorage, hds⟩, by rintro ⟨⟩⟩

/-! ## The fetch

An access that finds its address in the shelter asks for a dummy, by a number that may
be out of range. An access that does not asks for a word of main memory, which is there. -/

/-- Reading a word of the memory. -/
theorem readMain_line {t : ℕ} (ht : t < K.words) {w : SqrtSystem (SqrtLine C)}
    (hs : w.server.storage.Shaped K) :
    ∃ r w', readMain (SqrtLine.stub C) t w = (r, w') ∧
      w'.client = w.client ∧ w'.server = w.server.next none w.server.storage ∧
      (Delivery.passing 1 w.server.deliveries = true →
        ∃ b, w.server.storage.wordAt t = some b ∧ r = .ok b) ∧
      (Delivery.passing 1 w.server.deliveries = false → ∃ st, r = .error (.status st)) := by
  obtain ⟨c, hserve, hword⟩ := hs.readMain ht
  rcases hpass : Delivery.passing 1 w.server.deliveries with _ | _
  · obtain ⟨message, hremote⟩ := remote_failing (l := "ReadBlock")
      (o := readOverrun .kMainMemory t)
      (m := (OramService.sqrtStub C).readSqrtMemory .kMainMemory t) (w := w) hpass
    rw [hserve, ite_self] at hremote
    exact ⟨_, _, Prog.bind_error hremote, rfl, rfl, nofun, fun _ => ⟨_, rfl⟩⟩
  · have hremote := remote_passing (l := "ReadBlock")
      (o := readOverrun .kMainMemory t) hserve hpass
    exact ⟨_, _, Prog.bind_ok hremote, rfl, rfl, fun _ => ⟨_, hword, rfl⟩, nofun⟩

/-- What is recorded of the read of a dummy. -/
def dummyOverrun (K : SquareRootOramConfig) (i : ℕ) : Option SqrtOverrun :=
  if K.sqrtM ≤ i then some .dummyRead else none

/-- Reading a dummy, in range or not. -/
theorem readDummy_line (i : ℕ) {w : SqrtSystem (SqrtLine C)} (hs : w.server.storage.Shaped K) :
    ∃ r w', readDummy (SqrtLine.stub C) i w = (r, w') ∧
      w'.client = w.client ∧ w'.server = w.server.next (dummyOverrun K i) w.server.storage ∧
      (Delivery.passing 1 w.server.deliveries = true ∧ i < K.sqrtM → r = .ok ()) ∧
      (¬(Delivery.passing 1 w.server.deliveries = true ∧ i < K.sqrtM) →
        ∃ st, r = .error (.status st)) := by
  obtain ⟨hin, hout⟩ := hs.readDummy i
  by_cases hlt : i < K.sqrtM
  · obtain ⟨content, hserve, hnone⟩ := hin hlt
    rw [dummyOverrun, if_neg (Nat.not_le.mpr hlt), ← hnone]
    rcases hpass : Delivery.passing 1 w.server.deliveries with _ | _
    · obtain ⟨message, hremote⟩ := remote_failing (l := "ReadBlock")
        (o := readOverrun .kDummy i)
        (m := (OramService.sqrtStub C).readSqrtMemory .kDummy i) (w := w) hpass
      rw [hserve, ite_self] at hremote
      exact ⟨_, _, Prog.bind_error hremote, rfl, rfl, (nomatch ·.1), fun _ => ⟨_, rfl⟩⟩
    · have hremote := remote_passing (l := "ReadBlock")
        (o := readOverrun .kDummy i) hserve hpass
      exact ⟨_, _, Prog.bind_ok hremote, rfl, rfl, fun _ => rfl, fun h => absurd ⟨rfl, hlt⟩ h⟩
  · obtain ⟨message, hserve, hsome⟩ := hout (Nat.not_lt.mp hlt)
    rw [dummyOverrun, if_pos (Nat.not_lt.mp hlt), ← hsome]
    rcases hpass : Delivery.passing 1 w.server.deliveries with _ | _
    · obtain ⟨message, hremote⟩ := remote_failing (l := "ReadBlock")
        (o := readOverrun .kDummy i)
        (m := (OramService.sqrtStub C).readSqrtMemory .kDummy i) (w := w) hpass
      rw [hserve, ite_self] at hremote
      exact ⟨_, _, Prog.bind_error hremote, rfl, rfl, fun h => absurd h.2 hlt, fun _ => ⟨_, rfl⟩⟩
    · have hremote := remote_refused (l := "ReadBlock")
        (o := readOverrun .kDummy i) hserve hpass
      exact ⟨_, _, Prog.bind_error hremote, rfl, rfl, fun h => absurd h.2 hlt, fun _ => ⟨_, rfl⟩⟩

/-- What steps 1 and 2 of an access to `a` have done: a hit has taken the next dummy, in
range or not, and a scan that passes leaves the shelter free. -/
structure Fetching (K : SquareRootOramConfig) (a : ℕ) (w w' : SqrtSystem (SqrtLine C))
    (r : Except Exit (OramBlock D)) : Prop where
  shaped : w'.server.storage.Shaped K
  client_eq : w'.client =
    { w.client with nextDummy := w.client.nextDummy + if w.hits K a then 1 else 0 }
  overruns_eq : w'.server.overruns = w.server.overruns ++
    if w.hits K a then (dummyOverrun K w.client.nextDummy).toList else []
  occupied : w'.server.storage.Occupied → w.server.storage.Occupied
  free : Delivery.passing K.sqrtM w.server.deliveries = true →
    w'.server.storage.shelter = List.replicate K.sqrtM (freeSlot C)
  returns : ∀ b, r = .ok b ↔
    Delivery.passing (K.sqrtM + 1) w.server.deliveries = true ∧ w.located K a = some b
  deliveries_eq : (∃ b, r = .ok b) →
    w'.server.deliveries = w.server.deliveries.drop (K.sqrtM + 1)
  reports : (∃ b, r = .ok b) ∨ ∃ st, r = .error (.status st)

/-- The last call of the fetch, after a scan that has passed. -/
theorem passing_fetch {w : SqrtSystem (SqrtLine C)} {l : SqrtLine C}
    (hpass : Delivery.passing K.sqrtM w.server.deliveries = true)
    (hds : l.deliveries = w.server.deliveries.drop K.sqrtM) :
    Delivery.passing (K.sqrtM + 1) w.server.deliveries = Delivery.passing 1 l.deliveries ∧
      ∀ overrun s,
        (l.next overrun s).deliveries = w.server.deliveries.drop (K.sqrtM + 1) := by
  refine ⟨by rw [Delivery.passing_add, hpass, Bool.true_and, hds], fun overrun s => ?_⟩
  rw [SqrtLine.next, hds, List.drop_drop]

/-- **Steps 1 and 2 of an access.** -/
theorem fetch_line {a t : ℕ} {w : SqrtSystem (SqrtLine C)} (hw : w.Shaped K)
    (ht : w.client.positionMap a = some t) :
    ∃ r w', fetch (SqrtLine.stub C) K a t w = (r, w') ∧ Fetching K a w w' r := by
  obtain ⟨r₁, w₁, hread, hclient, hover, hshape, hocc, hyes, hno⟩ := readShelter_line a hw.storage
  rw [fetch, Prog.attempt_bind, hread]
  rcases hpass : Delivery.passing K.sqrtM w.server.deliveries with _ | _
  · -- the scan fails
    obtain ⟨st, rfl, hcode⟩ := hno hpass
    have hmiss : w.hits K a = false := by rw [hits, hpass, Bool.false_and]
    have hkind : st.errorCode ≠ .kObjectNotFound := by
      rw [hcode]
      decide
    refine ⟨.error (.status (st.append (.make .kInvalidOperation
      "Square Root Oram Controller cannot read the block from the shelter" "InternalAccess"))), w₁,
      congrFun (if_pos hkind) w₁, hshape, ?_, ?_, hocc, ?_, fun b => ⟨by rintro ⟨⟩, fun h => ?_⟩,
      fun h => (by cases h.choose_spec), .inr ⟨_, rfl⟩⟩
    · rw [hclient, hmiss]
      rfl
    · rw [hover, hmiss, if_neg Bool.false_ne_true, List.append_nil]
    · rw [hpass]
      rintro ⟨⟩
    · rw [Delivery.passing_add, hpass] at h
      cases h.1
  · obtain ⟨rfl, hstorage, hds⟩ := hyes hpass
    obtain ⟨hlast, hdrop⟩ := passing_fetch hpass hds
    have hfree : w₁.server.storage.shelter = List.replicate K.sqrtM (freeSlot C) := by
      rw [hstorage]
    rcases hhit : w.server.storage.shelterHit a with _ | b
    · -- not in the shelter: the word behind the tag
      have hmiss : w.hits K a = false := by rw [hits, hhit, Option.isSome_none, Bool.and_false]
      obtain ⟨r, w₂, hmain, hclient₂, hserver₂, hyes₂, hno₂⟩ :=
        readMain_line (hw.tag_lt a t ht).2 hshape
      have hlocated : w.located K a = w₁.server.storage.wordAt t := by
        rw [located, hhit, ht, hstorage]
        rfl
      have hclient' : w₂.client =
          { w.client with nextDummy := w.client.nextDummy + if w.hits K a then 1 else 0 } := by
        rw [hclient₂, hclient, hmiss]
        rfl
      have hover' : w₂.server.overruns = w.server.overruns ++
          if w.hits K a then (dummyOverrun K w.client.nextDummy).toList else [] := by
        rw [hserver₂, SqrtLine.next, hover, hmiss, if_neg Bool.false_ne_true]
        rfl
      have hstorage₂ : w₂.server.storage = w₁.server.storage := by rw [hserver₂, SqrtLine.next]
      rcases hnext : Delivery.passing 1 w₁.server.deliveries with _ | _
      · obtain ⟨st, rfl⟩ := hno₂ hnext
        refine ⟨.error _, w₂, Prog.mapError_error hmain, hstorage₂ ▸ hshape, hclient', hover',
          fun h => hocc (hstorage₂ ▸ h), fun _ => hstorage₂ ▸ hfree,
          fun b => ⟨by rintro ⟨⟩, fun h => ?_⟩, fun h => (by cases h.choose_spec), .inr ⟨_, rfl⟩⟩
        rw [hlast, hnext] at h
        cases h.1
      · obtain ⟨b, hword, rfl⟩ := hyes₂ hnext
        refine ⟨.ok b, w₂, Prog.mapError_ok hmain, hstorage₂ ▸ hshape, hclient', hover',
          fun h => hocc (hstorage₂ ▸ h), fun _ => hstorage₂ ▸ hfree, fun b' => ?_,
          fun _ => hserver₂ ▸ hdrop _ _, .inl ⟨b, rfl⟩⟩
        rw [hlast, hnext, hlocated, hword]
        exact ⟨fun h => ⟨rfl, congrArg some (Except.ok.inj h)⟩,
          fun h => congrArg Except.ok (Option.some.inj h.2)⟩
    · -- in the shelter: the next dummy
      have hhits : w.hits K a = true := by rw [hits, hpass, hhit]; rfl
      let v : SqrtSystem (SqrtLine C) :=
        ⟨{ w₁.client with nextDummy := w₁.client.nextDummy + 1 }, w₁.server⟩
      obtain ⟨r, w₂, hdummy, hclient₂, hserver₂, hyes₂, hno₂⟩ :=
        readDummy_line (w := v) w₁.client.nextDummy hshape
      have hclient' : w₂.client =
          { w.client with nextDummy := w.client.nextDummy + if w.hits K a then 1 else 0 } := by
        rw [hclient₂, hhits, ← hclient]
        rfl
      have hover' : w₂.server.overruns = w.server.overruns ++
          if w.hits K a then (dummyOverrun K w.client.nextDummy).toList else [] := by
        rw [hserver₂, SqrtLine.next, hhits, if_pos rfl, ← hover, hclient]
      have hstorage₂ : w₂.server.storage = w₁.server.storage := by rw [hserver₂, SqrtLine.next]
      rw [hclient] at hyes₂ hno₂
      by_cases hgood : Delivery.passing 1 w₁.server.deliveries = true ∧
          w.client.nextDummy < K.sqrtM
      · obtain rfl := hyes₂ hgood
        refine ⟨.ok b, w₂, Prog.bind_ok (Prog.mapError_ok hdummy), hstorage₂ ▸ hshape, hclient',
          hover', fun h => hocc (hstorage₂ ▸ h), fun _ => hstorage₂ ▸ hfree, fun b' => ?_,
          fun _ => hserver₂ ▸ hdrop _ _, .inl ⟨b, rfl⟩⟩
        rw [hlast, hgood.1, located, hhit]
        simp only [if_pos hgood.2]
        exact ⟨fun h => ⟨trivial, congrArg some (Except.ok.inj h)⟩,
          fun h => congrArg Except.ok (Option.some.inj h.2)⟩
      · obtain ⟨st, rfl⟩ := hno₂ hgood
        have hrun := Prog.bind_error (f := fun _ => (pure b : Prog Exit _ (OramBlock D)))
          (Prog.mapError_error (f := Exit.append (.make .kInvalidOperation
            "Square Root Oram Controller cannot read the block from the dummy area"
            "InternalAccess")) hdummy)
        refine ⟨.error _, w₂, hrun, hstorage₂ ▸ hshape, hclient', hover',
          fun h => hocc (hstorage₂ ▸ h), fun _ => hstorage₂ ▸ hfree,
          fun b' => ⟨by rintro ⟨⟩, fun h => ?_⟩, fun h => (by cases h.choose_spec), .inr ⟨_, rfl⟩⟩
        rw [hlast, located, hhit] at h
        simp only at h
        split at h
        next hlt => exact absurd ⟨h.1, hlt⟩ hgood
        next => cases h.2

/-! ## The write-back and the permutation -/

/-- The client's counters after `PermuteOnFull`. -/
def counted (K : SquareRootOramConfig) (c : SquareRootOramController) : ℕ × ℕ :=
  if c.counter + 1 = K.sqrtM then (0, 0) else (c.counter + 1, c.nextDummy)

theorem tag_lt_updatePosition {perm : List ℕ} (hperm : perm.Perm (List.range K.words))
    {m : PositionMap} (hm : ∀ a t, m a = some t → a < K.words ∧ t < K.words) (a t : ℕ)
    (h : (List.range perm.length).foldl (updateOne perm) m a = some t) :
    a < K.words ∧ t < K.words := by
  rw [foldl_updateOne, hperm.length_eq, List.length_range] at h
  split at h
  next ha =>
    have hold : (m a).getD a < K.words := by
      rcases hma : m a with _ | s
      · exact ha
      · exact (hm a s hma).2
    exact ⟨ha, Option.some.inj h ▸ (getElem?_perm hperm hold).2⟩
  next => exact hm a t h

theorem tag_lt_loadedPositions {perm : List ℕ} (hperm : perm.Perm (List.range K.words)) (a t : ℕ)
    (h : loadedPositions K perm a = some t) : a < K.words ∧ t < K.words := by
  rw [loadedPositions] at h
  split at h
  next ha => exact ⟨ha, Option.some.inj h ▸ (getElem?_perm hperm ha).2⟩
  next => cases h

/-- What `PermuteOnFull` has done. The counters are reset before the server is asked to
permute. -/
structure Permuting (K : SquareRootOramConfig) (w w' : SqrtSystem (SqrtLine C))
    (r : Except Exit Unit) : Prop where
  shaped : w'.Shaped K
  overruns_eq : w'.server.overruns = w.server.overruns
  occupied : w'.server.storage.Occupied → w.server.storage.Occupied
  initialized_eq : w'.client.isInitialized = w.client.isInitialized
  counters_eq : (w'.client.counter, w'.client.nextDummy) = counted K w.client
  returns : r = .ok () ↔
    (w.client.counter + 1 = K.sqrtM → Delivery.passing 1 w.server.deliveries = true)
  reports : r = .ok () ∨ ∃ st, r = .error (.status st)

theorem permuteOnFull_line {perm : List ℕ} (hperm : perm.Perm (List.range K.words))
    (hwords : 0 < K.words) {w : SqrtSystem (SqrtLine C)} (hw : w.Shaped K) :
    ∃ r w', permuteOnFull (SqrtLine.stub C) K perm w = (r, w') ∧ Permuting K w w' r := by
  rw [permuteOnFull, update, Prog.modify_bind, Prog.get_bind]
  by_cases hfull : w.client.counter + 1 = K.sqrtM
  · rw [if_pos hfull, update, Prog.modify_bind, randomPermutation, if_neg (Nat.ne_of_gt hwords)]
    simp only
    obtain ⟨s, hserve, hs, hempty⟩ := hw.storage.sqrtPermute hperm
    let v : SqrtSystem (SqrtLine C) :=
      ⟨{ w.client with counter := 0, nextDummy := 0 }, w.server⟩
    have hcounted : (0, 0) = counted K w.client := by rw [counted, if_pos hfull]
    rcases hpass : Delivery.passing 1 w.server.deliveries with _ | _
    · obtain ⟨message, hremote⟩ := remote_failing (l := "DoPermute") (o := fun _ => none)
        (m := (OramService.sqrtStub C).sqrtPermute perm) (w := v) hpass
      rw [hserve] at hremote
      refine ⟨_, _, Prog.bind_error hremote, ⟨?_, hw.tag_lt⟩, List.append_nil _, ?_, rfl,
        hcounted, ⟨by rintro ⟨⟩, fun h => ?_⟩, .inr ⟨_, rfl⟩⟩
      · exact .ite hs hw.storage
      · exact fun h => h.of_ite.elim (fun h => absurd h.2 hempty) And.right
      · rw [hpass] at h
        cases h hfull
    · have hremote := remote_passing (l := "DoPermute") (o := fun _ => none) (w := v) hserve hpass
      exact ⟨_, _, Prog.bind_ok hremote, ⟨hs, tag_lt_updatePosition hperm hw.tag_lt⟩,
        List.append_nil _, fun h => absurd h hempty, rfl, hcounted, ⟨fun _ _ => hpass,
        fun _ => rfl⟩, .inl rfl⟩
  · rw [if_neg hfull]
    refine ⟨_, _, rfl, ⟨hw.storage, hw.tag_lt⟩, rfl, id, rfl, ?_,
      ⟨fun _ h => absurd h hfull, fun _ => rfl⟩, .inl rfl⟩
    rw [counted, if_neg hfull]

/-- What the write-back to the shelter has done. -/
structure WritingBack (K : SquareRootOramConfig) (w w' : SqrtSystem (SqrtLine C))
    (r : Except Exit Unit) : Prop where
  shaped : w'.Shaped K
  client_eq : w'.client = w.client
  overruns_eq : w'.server.overruns = w.server.overruns
  deliveries_eq : w'.server.deliveries = w.server.deliveries.drop 1
  occupied : w'.server.storage.Occupied →
    Delivery.passing 1 w.server.deliveries = true ∨ Delivery.unheard w.server.deliveries = true
  returns : r = .ok () ↔ Delivery.passing 1 w.server.deliveries = true
  reports : r = .ok () ∨ ∃ st, r = .error (.status st)

/-- `WriteBlock`, with the shelter free. -/
theorem writeBlock_line {t : ℕ} (ht : t < K.words) (hsize : 0 < K.sqrtM) (content : C.Sealed)
    {w : SqrtSystem (SqrtLine C)} (hw : w.Shaped K)
    (hfree : w.server.storage.shelter = List.replicate K.sqrtM (freeSlot C)) :
    ∃ r w', writeBlock (SqrtLine.stub C) t content w = (r, w') ∧ WritingBack K w w' r := by
  obtain ⟨s, hserve, hnone⟩ := writeSqrtMemory_free hsize hfree t content
  have hkeep := hw.storage.writeSqrtMemory ht content
  rw [hserve] at hkeep
  rcases hpass : Delivery.passing 1 w.server.deliveries with _ | _
  · obtain ⟨message, hremote⟩ := remote_failing (l := "WriteBlock") (o := writeOverrun t content)
      (m := (OramService.sqrtStub C).writeSqrtMemory t content) (w := w) hpass
    rw [hnone, hserve] at hremote
    refine ⟨_, _, hremote, ⟨?_, hw.tag_lt⟩, rfl, List.append_nil _, rfl, ?_,
      ⟨nofun, fun h => ?_⟩, .inr ⟨_, rfl⟩⟩
    · exact .ite hkeep hw.storage
    · intro h
      rcases h.of_ite with ⟨hunheard, -⟩ | ⟨-, h⟩
      · exact .inr hunheard
      · exact absurd h (not_occupied_of_free fun e he => List.eq_of_mem_replicate (hfree ▸ he))
    · rw [hpass] at h
      cases h
  · have hremote := remote_passing (l := "WriteBlock") (o := writeOverrun t content) hserve hpass
    rw [hnone] at hremote
    exact ⟨_, _, hremote, ⟨hkeep, hw.tag_lt⟩, rfl, List.append_nil _, rfl, fun _ => .inl hpass,
      ⟨fun _ => hpass, fun _ => rfl⟩, .inl rfl⟩

/-- The block may be taken for one of the address. -/
def fits (a : ℕ) (b : OramBlock D) : Bool := !(b.isNormal && b.id != a)

/-- The access gets to `PermuteOnFull` with the block `b`: the write-back passes or is not
looked at. -/
def reachesPermute (op : Operation) (a : ℕ) (b : OramBlock D) (ds : List Delivery) : Bool :=
  fits a b && (op == .kRead || Delivery.passing 1 ds)

/-- The write-back of the block is carried out, and the access stops there. -/
def strands (op : Operation) (a : ℕ) (b : OramBlock D) (ds : List Delivery) : Bool :=
  fits a b && op != .kRead && Delivery.unheard ds

/-- What the steps after the fetch have done. -/
structure Finishing (K : SquareRootOramConfig) (op : Operation) (a : ℕ) (b : OramBlock D)
    (content : C.Sealed) (w w' : SqrtSystem (SqrtLine C)) (r : Except Exit C.Sealed) : Prop where
  shaped : w'.Shaped K
  overruns_eq : w'.server.overruns = w.server.overruns
  occupied : w'.server.storage.Occupied →
    reachesPermute op a b w.server.deliveries = true ∨ strands op a b w.server.deliveries = true
  initialized_eq : w'.client.isInitialized = w.client.isInitialized
  counters_eq : (w'.client.counter, w'.client.nextDummy) =
    if reachesPermute op a b w.server.deliveries then counted K w.client
    else (w.client.counter, w.client.nextDummy)
  returns : ∀ c, r = .ok c ↔ reachesPermute op a b w.server.deliveries = true ∧
    (w.client.counter + 1 = K.sqrtM →
      Delivery.passing 1 (w.server.deliveries.drop 1) = true) ∧ c = content
  reports : (∃ c, r = .ok c) ∨ ∃ st, r = .error (.status st)

/-- **The steps after the fetch**, with the shelter free. -/
theorem finish_line (op : Operation) (a : ℕ) (buffer b : OramBlock D) {t : ℕ}
    {draws : SqrtDraws C} (hperm : draws.perm.Perm (List.range K.words)) (ht : t < K.words)
    (hsize : 0 < K.sqrtM) {w : SqrtSystem (SqrtLine C)} (hw : w.Shaped K)
    (hfree : w.server.storage.shelter = List.replicate K.sqrtM (freeSlot C)) :
    ∃ r w', finish (SqrtLine.stub C) K op a t buffer draws b w = (r, w') ∧
      Finishing K op a b (C.encryptBlock draws.iv (if op = .kRead then b else buffer)) w w' r := by
  rw [finish]
  by_cases hmatch : (b.isNormal && b.id != a) = true
  · have hnot : reachesPermute op a b w.server.deliveries = false := by
      rw [reachesPermute, fits, hmatch]
      rfl
    rw [if_pos hmatch]
    refine ⟨_, w, rfl, hw, rfl, fun h => absurd h (not_occupied_of_free fun e he =>
      List.eq_of_mem_replicate (hfree ▸ he)), rfl, ?_, fun c => ⟨nofun, fun h => ?_⟩,
      .inr ⟨_, rfl⟩⟩
    · rw [hnot, if_neg Bool.false_ne_true]
    · rw [hnot] at h
      cases h.1
  · rw [if_neg hmatch]
    generalize C.encryptBlock draws.iv (if op = .kRead then b else buffer) = content
    have hfits : fits a b = true := by rw [fits, Bool.eq_false_iff.mpr hmatch, Bool.not_false]
    have hreach : reachesPermute op a b w.server.deliveries =
        (op == .kRead || Delivery.passing 1 w.server.deliveries) := by
      rw [reachesPermute, hfits, Bool.true_and]
    obtain ⟨q, w₁, hwrite, hq⟩ := writeBlock_line ht hsize content hw hfree
    obtain ⟨p, w₂, hpermute, hp⟩ :=
      permuteOnFull_line hperm (Nat.zero_lt_of_lt ht) hq.shaped
    have hinit := hp.initialized_eq
    have hcount := hp.counters_eq
    have hreturns := hp.returns
    rw [hq.client_eq] at hinit hcount hreturns
    rw [hq.deliveries_eq] at hreturns
    -- from the write-back on, if it does not stop the access
    have hrest : reachesPermute op a b w.server.deliveries = true →
        ∃ r, (do
          Prog.mapError (Exit.append (.make .kUnknownError
            "Permutation failed or internal logic error!" "InternalAccess"))
            (permuteOnFull (SqrtLine.stub C) K draws.perm)
          pure content) w₁ = (r, w₂) ∧ Finishing K op a b content w w₂ r := by
      intro hyes
      have hover := hp.overruns_eq.trans hq.overruns_eq
      rcases hp.reports with rfl | ⟨st, rfl⟩
      · refine ⟨_, Prog.bind_ok (Prog.mapError_ok hpermute), hp.shaped, hover,
          fun _ => .inl hyes, hinit, ?_, fun c => ?_, .inl ⟨_, rfl⟩⟩
        · rw [hyes, if_pos rfl, hcount]
        · exact ⟨fun h => ⟨hyes, hreturns.mp rfl, (Except.ok.inj h).symm⟩, fun h => h.2.2 ▸ rfl⟩
      · refine ⟨_, Prog.bind_error (Prog.mapError_error hpermute), hp.shaped, hover,
          fun _ => .inl hyes, hinit, ?_, fun c => ⟨nofun, fun h => (nomatch hreturns.mpr h.2.1)⟩,
          .inr ⟨_, rfl⟩⟩
        rw [hyes, if_pos rfl, hcount]
    by_cases hread : op = .kRead
    · obtain ⟨r, hrun, hfin⟩ := hrest (by rw [hreach, hread]; rfl)
      refine ⟨r, w₂, ?_, hfin⟩
      rw [if_pos hread, Prog.attempt_bind, hwrite]
      exact hrun
    · have hkind : (op == .kRead) = false := beq_eq_false_iff_ne.mpr hread
      rw [if_neg hread]
      rcases hq.reports with rfl | ⟨st, rfl⟩
      · obtain ⟨r, hrun, hfin⟩ := hrest (by rw [hreach, hkind, hq.returns.mp rfl]; rfl)
        exact ⟨r, w₂, (Prog.bind_ok (Prog.mapError_ok hwrite)).trans hrun, hfin⟩
      · have hpass : Delivery.passing 1 w.server.deliveries = false :=
          Bool.eq_false_iff.mpr fun h => (nomatch hq.returns.mpr h)
        have hnot : reachesPermute op a b w.server.deliveries = false := by
          rw [hreach, hkind, hpass]
          rfl
        refine ⟨_, w₁, Prog.bind_error (Prog.mapError_error hwrite), hq.shaped, hq.overruns_eq,
          fun h => .inr ?_, congrArg _ hq.client_eq, ?_, fun c => ⟨nofun, fun h => ?_⟩,
          .inr ⟨_, rfl⟩⟩
        · rcases hq.occupied h with hyes | hunheard
          · rw [hpass] at hyes
            cases hyes
          · rw [strands, hfits, hunheard, bne, hkind]
            rfl
        · rw [hnot, if_neg Bool.false_ne_true, hq.client_eq]
        · rw [hnot] at h
          cases h.1

/-! ## The whole access

The parts are put together: `access_line` is the one statement about an access that the
files on bounds and on the caller's block use. -/

end SquareRootOramController

namespace SqrtSystem

/-- The block that the fetch of an access to `a` returns, if it does. -/
def fetched (K : SquareRootOramConfig) (a : ℕ) (w : SqrtSystem (SqrtLine C)) :
    Option (OramBlock D) :=
  if Delivery.passing (K.sqrtM + 1) w.server.deliveries then w.located K a else none

/-- The client once the fetch is done. -/
def afterFetch (K : SquareRootOramConfig) (a : ℕ) (w : SqrtSystem (SqrtLine C)) :
    SquareRootOramController :=
  { w.client with nextDummy := w.client.nextDummy + if w.hits K a then 1 else 0 }

/-- What becomes of the calls behind the fetch. -/
def restOfCalls (K : SquareRootOramConfig) (w : SqrtSystem (SqrtLine C)) : List Delivery :=
  w.server.deliveries.drop (K.sqrtM + 1)

end SqrtSystem

namespace SquareRootOramController

/-- What an access to an address of the map has done. -/
structure Accessed (K : SquareRootOramConfig) (op : Operation) (a : ℕ) (buffer : OramBlock D)
    (iv : C.Iv) (w w' : SqrtSystem (SqrtLine C)) (r : Except Exit C.Sealed) : Prop where
  shaped : w'.Shaped K
  initialized : w'.client.isInitialized = true
  overruns_eq : w'.server.overruns = w.server.overruns ++
    if w.hits K a then (dummyOverrun K w.client.nextDummy).toList else []
  /-- what is in the shelter was there before, or has been written back -/
  occupied : w'.server.storage.Occupied →
    (w.server.storage.Occupied ∧ w.hits K a = false ∧ w.fetched K a = none) ∨
    ∃ b, w.fetched K a = some b ∧ (reachesPermute op a b (w.restOfCalls K) = true ∨
      strands op a b (w.restOfCalls K) = true)
  counters_eq : (w'.client.counter, w'.client.nextDummy) =
    if (w.fetched K a).any fun b => reachesPermute op a b (w.restOfCalls K) then
      counted K (w.afterFetch K a)
    else ((w.afterFetch K a).counter, (w.afterFetch K a).nextDummy)
  returns : ∀ c, r = .ok c ↔ ∃ b, w.fetched K a = some b ∧
    reachesPermute op a b (w.restOfCalls K) = true ∧
    (w.client.counter + 1 = K.sqrtM → Delivery.passing 1 ((w.restOfCalls K).drop 1) = true) ∧
    c = C.encryptBlock iv (if op = .kRead then b else buffer)
  reports : (∃ c, r = .ok c) ∨ ∃ st, r = .error (.status st)

/-- **An access over the line**, to an address of the map. -/
theorem access_line {op : Operation} (hop : op ≠ .kInvalid) {a t : ℕ} (buffer : OramBlock D)
    {draws : SqrtDraws C} (hperm : draws.perm.Perm (List.range K.words)) (hsize : 0 < K.sqrtM)
    {w : SqrtSystem (SqrtLine C)} (hw : w.Shaped K) (hinit : w.client.isInitialized = true)
    (ht : w.client.positionMap a = some t) :
    ∃ r w', access (SqrtLine.stub C) K op a buffer draws w = (r, w') ∧
      Accessed K op a buffer draws.iv w w' r := by
  obtain ⟨q, w₁, hfetch, hf⟩ := fetch_line hw ht
  have hclient : w₁.client = w.afterFetch K a := hf.client_eq
  have hw₁ : w₁.Shaped K := hw.of_client (by rw [hclient]; rfl) hf.shaped
  rw [access_eq hinit hop ht]
  rcases hf.reports with ⟨b, rfl⟩ | ⟨st, rfl⟩
  · obtain ⟨hpass, hlocated⟩ := (hf.returns b).mp rfl
    have hfetched : w.fetched K a = some b := by rw [fetched, if_pos hpass, hlocated]
    have hscan : Delivery.passing K.sqrtM w.server.deliveries = true := by
      rw [Delivery.passing_add, Bool.and_eq_true] at hpass
      exact hpass.1
    obtain ⟨r, w', hfinish, hfin⟩ := finish_line op a buffer b hperm (hw.tag_lt a t ht).2 hsize
      hw₁ (hf.free hscan)
    have hoccupied := hfin.occupied
    have hreach := hfin.counters_eq
    have hreturns := hfin.returns
    rw [hf.deliveries_eq ⟨b, rfl⟩] at hoccupied hreach hreturns
    rw [hclient] at hreach hreturns
    refine ⟨r, w', (Prog.bind_ok hfetch).trans hfinish, hfin.shaped, ?_,
      hfin.overruns_eq.trans hf.overruns_eq, fun h => .inr ⟨b, hfetched, hoccupied h⟩, ?_,
      fun c => ?_, hfin.reports⟩
    · rw [hfin.initialized_eq, hclient]
      exact hinit
    · rw [hfetched]
      exact hreach
    · rw [hreturns c, hfetched]
      exact ⟨fun h => ⟨b, rfl, h.1, h.2.1, h.2.2⟩, fun ⟨b', he, h⟩ => by
        cases he
        exact ⟨h.1, h.2.1, h.2.2⟩⟩
  · have hnone : w.fetched K a = none := by
      rw [fetched]
      split
      next hpass =>
        rcases hlocated : w.located K a with _ | b
        · rfl
        · exact nomatch (hf.returns b).mpr ⟨hpass, hlocated⟩
      next => rfl
    refine ⟨_, w₁, Prog.bind_error hfetch, hw₁, ?_, hf.overruns_eq, fun h => .inl ?_, ?_,
      fun c => ⟨nofun, fun ⟨b, he, _⟩ => ?_⟩, .inr ⟨_, rfl⟩⟩
    · rw [hclient]
      exact hinit
    · -- the scan has not gone through, or the shelter would be free
      have hscan : Delivery.passing K.sqrtM w.server.deliveries = false := by
        refine Bool.eq_false_iff.mpr fun hpass => not_occupied_of_free (fun e he => ?_) h
        exact List.eq_of_mem_replicate (hf.free hpass ▸ he)
      exact ⟨hf.occupied h, by rw [hits, hscan, Bool.false_and], hnone⟩
    · rw [hnone, hclient]
      rfl
    · rw [hnone] at he
      cases he

/-! ## The load over the line -/

/-- The state in which the controller meets its server: the constructors and `InitOram` are
done. -/
def atStart (C : Codec D) (K : SquareRootOramConfig) (ds : List Delivery) :
    SqrtSystem (SqrtLine C) :=
  ⟨.new, .new C K.blockNum, ds, []⟩

/-- `Fill` with as many words as there are. -/
theorem shaped_filled {contents : List C.Sealed} (hsize : contents.length = K.words) :
    SqrtOramServerStorage.Shaped K
      { capacity := K.blockNum
        mainMemory := (contents.take K.blockNum).map some
        dummy := (contents.drop K.blockNum).map some
        shelter := (contents.drop K.blockNum).map fun _ => freeSlot C } where
  main_length := by
    rw [List.length_map, List.length_take, hsize]
    exact Nat.min_eq_left (Nat.le_add_right _ _)
  dummy_length := by
    rw [List.length_map, List.length_drop, hsize, SquareRootOramConfig.words,
      Nat.add_sub_cancel_left]
  shelter_length := by
    rw [List.length_map, List.length_drop, hsize, SquareRootOramConfig.words,
      Nat.add_sub_cancel_left]
  word := by
    intro t ht
    rw [assembled, ← List.map_append, List.take_append_drop, List.getElem?_map,
      List.getElem?_eq_getElem (hsize ▸ ht)]
    exact ⟨_, rfl⟩
  slot_free := by
    intro e he _
    obtain ⟨_, -, rfl⟩ := List.mem_map.mp he
    rfl
  slot_tag := by
    intro t c hc
    obtain ⟨_, -, he⟩ := List.mem_map.mp hc
    cases he

/-- A load over a line that loses nothing is answered. -/
theorem fillWithData_line (garbage : ℕ → OramBlock D) {data : List (OramBlock D)}
    (hlen : data.length ≤ K.words) {draws : SqrtFillDraws C}
    (hperm : draws.perm.Perm (List.range K.words)) :
    ∃ w, fillWithData (SqrtLine.stub C) K garbage data draws (atStart C K []) = (.ok (), w) ∧
      w.client.positionMap = loadedPositions K draws.perm :=
  ⟨_, fillWithData_eq _ _ garbage hlen hperm, rfl⟩

/-- After a load that was answered, the storage has its shape. -/
theorem shaped_of_fillWithData {garbage : ℕ → OramBlock D} {data : List (OramBlock D)}
    {draws : SqrtFillDraws C} {ds : List Delivery} {w : SqrtSystem (SqrtLine C)}
    (hfill : fillWithData (SqrtLine.stub C) K garbage data draws (atStart C K ds) = (.ok (), w))
    (hperm : draws.perm.Perm (List.range K.words)) :
    w.Shaped K ∧ w.client.isInitialized = true ∧ w.client.counter = 0 ∧
      w.client.nextDummy = 0 ∧ w.server.overruns = [] := by
  have hlen := length_le_of_fillWithData hfill
  have hsize := length_loadedContents garbage hlen draws
  rw [atStart, fillWithData_eq _ _ garbage hlen hperm] at hfill
  generalize loadedContents K garbage data draws = contents at hsize hfill
  let v : SqrtSystem (SqrtLine C) :=
    ⟨{ SquareRootOramController.new with positionMap := loadedPositions K draws.perm },
      .new C K.blockNum, ds, []⟩
  have hserve : (OramService.sqrtStub C).loadSqrtOram contents v.server.storage =
      (.ok (), { capacity := K.blockNum
                 mainMemory := (contents.take K.blockNum).map some
                 dummy := (contents.drop K.blockNum).map some
                 shelter := (contents.drop K.blockNum).map fun _ => freeSlot C }) := rfl
  rcases hpass : Delivery.passing 1 v.server.deliveries with _ | _
  · obtain ⟨message, hremote⟩ := remote_failing (l := "FillWithData") (o := fun _ => none)
      (m := (OramService.sqrtStub C).loadSqrtOram contents) (w := v) hpass
    have hstop := (Prog.bind_error (f := fun _ => update fun c => { c with isInitialized := true })
      hremote).symm.trans hfill
    cases hstop
  · have hremote := remote_passing (l := "FillWithData") (o := fun _ => none)
      hserve hpass
    have hdone := (Prog.bind_ok (f := fun _ => update fun c => { c with isInitialized := true })
      hremote).symm.trans hfill
    cases hdone
    exact ⟨⟨shaped_filled hsize, tag_lt_loadedPositions hperm⟩, rfl, rfl, rfl, rfl⟩

end SquareRootOramController

end ObliviousRam
