import ObliviousRam.SquareRootOram
import ObliviousRam.Trace

set_option autoImplicit false

/-!
# Whole runs of a square-root ORAM

Where a square-root ORAM keeps the value of an address (`valueOf`: in the
shelter, or else in the memory at the address's tag), what one access does to
the values, and when a run of accesses loses none.

Scanning the shelter clears it, and only the block that was asked for is written
back. So between accesses the shelter holds at most one word, the one of the
last access (`Stored`), and an access to another address drops it: this is
harmless only if the memory holds the same block.
-/

namespace ObliviousRam

variable {D : Type} {C : Codec D} {K : SquareRootOramConfig}

/-! ## The plaintext content -/

namespace SqrtOramServerStorage

/-- Main memory and dummies together, as they are permuted. -/
def assembled (s : SqrtOramServerStorage C) : List (Option C.Sealed) := s.mainMemory ++ s.dummy

/-- The block behind a tag. -/
def wordAt (s : SqrtOramServerStorage C) (t : ℕ) : Option (OramBlock D) :=
  s.assembled[t]?.join.map fun c => (C.decryptBlock c).2

/-- The blocks in the shelter. -/
def sheltered (s : SqrtOramServerStorage C) : List (OramBlock D) :=
  s.shelter.filterMap fun e => e.2.map fun c => (C.decryptBlock c).2

/-- A shelter of `size` slots in which at most the first is taken. -/
def shelterWith (C : Codec D) (size : ℕ) : Option (ℕ × C.Sealed) → List (ℕ × Option C.Sealed)
  | none => List.replicate size (freeSlot C)
  | some (t, c) => (t, some c) :: List.replicate (size - 1) (freeSlot C)

theorem length_shelterWith {size : ℕ} (h : 0 < size) (e : Option (ℕ × C.Sealed)) :
    (shelterWith C size e).length = size := by
  rcases e with _ | ⟨t, c⟩
  · exact List.length_replicate
  · rw [shelterWith, List.length_cons, List.length_replicate, Nat.sub_add_cancel h]

theorem wordAt_of_getElem? {s : SqrtOramServerStorage C} {t : ℕ} {c : C.Sealed}
    (h : s.assembled[t]? = some (some c)) : s.wordAt t = some (C.decryptBlock c).2 := by
  rw [wordAt, h]
  rfl

theorem getElem?_of_wordAt {s : SqrtOramServerStorage C} {t : ℕ} {b : OramBlock D}
    (h : s.wordAt t = some b) :
    ∃ c, s.assembled[t]? = some (some c) ∧ (C.decryptBlock c).2 = b := by
  rw [wordAt, Option.map_eq_some_iff] at h
  obtain ⟨c, hc, hb⟩ := h
  exact ⟨c, Option.join_eq_some_iff.mp hc, hb⟩

theorem filterMap_free (n : ℕ) :
    (List.replicate n (freeSlot C)).filterMap
      (fun e => e.2.map fun c => (C.decryptBlock c).2) = ([] : List (OramBlock D)) := by
  rw [List.filterMap_eq_nil_iff]
  intro e he
  rw [List.eq_of_mem_replicate he]
  rfl

/-! ### The merge -/

theorem mergeShelter_free (n : ℕ) (md : List (Option C.Sealed) × List (Option C.Sealed)) :
    mergeShelter (List.replicate n (freeSlot C)) md = some md := by
  induction n with
  | zero => rfl
  | succ n ih =>
    rw [List.replicate_succ, freeSlot, mergeShelter]
    exact ih

/-- Merging the one word of the shelter overwrites the word with its tag. -/
theorem mergeShelter_entry {t : ℕ} {c : C.Sealed} {main dummy : List (Option C.Sealed)}
    (ht : t < main.length + dummy.length) (hmask : t ≠ kInvalidMask) (n : ℕ) :
    ∃ md, mergeShelter ((t, some c) :: List.replicate n (freeSlot C)) (main, dummy) = some md ∧
      md.1.length = main.length ∧ md.1 ++ md.2 = (main ++ dummy).set t (some c) := by
  rw [mergeShelter, if_neg hmask, List.set_append]
  by_cases hmain : t < main.length
  · rw [if_pos hmain, if_pos hmain, mergeShelter_free]
    exact ⟨_, rfl, List.length_set, rfl⟩
  · rw [if_neg hmain, if_neg hmain, if_pos (by omega), mergeShelter_free]
    exact ⟨_, rfl, rfl, rfl⟩

end SqrtOramServerStorage

namespace SqrtSystem

open SqrtOramServerStorage

/-- The copy of an address in the memory: the content at the tag the position map names. -/
def memory (w : SqrtSystem (SqrtOramServerStorage C)) (a : ℕ) : Option (OramBlock D) :=
  (w.client.positionMap a).bind w.server.wordAt

/-- Where an access looks for an address: the shelter entry with its id, or else
the memory. -/
def valueOf (w : SqrtSystem (SqrtOramServerStorage C)) (a : ℕ) : Option (OramBlock D) :=
  (w.server.sheltered.find? fun b => b.id = a).or (w.memory a)

/-- What holds between the steps of an access: every address has a tag, the word
there carries its id, and the shelter is free but for the entry `e`, which is
tagged with the position of its address. -/
structure Stored (K : SquareRootOramConfig) (e : Option (ℕ × C.Sealed))
    (w : SqrtSystem (SqrtOramServerStorage C)) : Prop where
  main_length : w.server.mainMemory.length = K.blockNum
  dummy_length : w.server.dummy.length = K.sqrtM
  shelter_eq : w.server.shelter = shelterWith C K.sqrtM e
  word : ∀ a < K.words, ∃ t b, w.client.positionMap a = some t ∧ t < K.words ∧
    w.server.wordAt t = some b ∧ b.id = a
  absent : ∀ a, K.words ≤ a → w.client.positionMap a = none
  entry : ∀ t c, e = some (t, c) →
    w.client.positionMap (C.decryptBlock c).2.id = some t ∧
      ((C.decryptBlock c).2.isNormal = false →
        w.memory (C.decryptBlock c).2.id = some (C.decryptBlock c).2)

theorem Stored.memory_eq {e : Option (ℕ × C.Sealed)}
    {w : SqrtSystem (SqrtOramServerStorage C)} (hw : w.Stored K e) {a : ℕ} (ha : a < K.words) :
    ∃ t b, w.client.positionMap a = some t ∧ t < K.words ∧ w.server.wordAt t = some b ∧
      b.id = a ∧ w.memory a = some b := by
  obtain ⟨t, b, ht, hlt, hb, hid⟩ := hw.word a ha
  exact ⟨t, b, ht, hlt, hb, hid, by rw [memory, ht, Option.bind_some, hb]⟩

theorem Stored.position_lt {e : Option (ℕ × C.Sealed)}
    {w : SqrtSystem (SqrtOramServerStorage C)} (hw : w.Stored K e) {a t : ℕ}
    (ht : w.client.positionMap a = some t) : a < K.words := by
  by_contra h
  rw [hw.absent a (Nat.not_lt.mp h)] at ht
  cases ht

/-- Different addresses have different tags: the words there have different ids. -/
theorem Stored.position_inj {e : Option (ℕ × C.Sealed)}
    {w : SqrtSystem (SqrtOramServerStorage C)} (hw : w.Stored K e) {a a' t : ℕ}
    (ha : w.client.positionMap a = some t) (ha' : w.client.positionMap a' = some t) : a = a' := by
  obtain ⟨s, b, hs, -, hb, hid⟩ := hw.word a (hw.position_lt ha)
  obtain ⟨s', b', hs', -, hb', hid'⟩ := hw.word a' (hw.position_lt ha')
  cases ha.symm.trans hs
  cases ha'.symm.trans hs'
  cases hb.symm.trans hb'
  exact hid.symm.trans hid'

theorem sheltered_eq {e : Option (ℕ × C.Sealed)} {w : SqrtSystem (SqrtOramServerStorage C)}
    (hw : w.Stored K e) :
    w.server.sheltered = (e.map fun e => (C.decryptBlock e.2).2).toList := by
  rw [sheltered, hw.shelter_eq]
  rcases e with _ | ⟨t, c⟩
  · exact filterMap_free _
  · rw [shelterWith, List.filterMap_cons]
    simp only [Option.map_some, filterMap_free, Option.toList]

/-- With a free shelter the value of an address is its word in memory. -/
theorem Stored.valueOf_none {w : SqrtSystem (SqrtOramServerStorage C)} (hw : w.Stored K none)
    (a : ℕ) : w.valueOf a = w.memory a := by
  rw [valueOf, sheltered_eq hw]
  rfl

/-- With one word in the shelter it is that word for its own address. -/
theorem Stored.valueOf_some {t : ℕ} {c : C.Sealed} {w : SqrtSystem (SqrtOramServerStorage C)}
    (hw : w.Stored K (some (t, c))) (a : ℕ) :
    w.valueOf a =
      if a = (C.decryptBlock c).2.id then some (C.decryptBlock c).2 else w.memory a := by
  rw [valueOf, sheltered_eq hw]
  by_cases h : a = (C.decryptBlock c).2.id
  · simp only [h, Option.map_some, Option.toList, List.find?_cons, decide_true, if_true,
      Option.some_or]
  · have h' : decide ((C.decryptBlock c).2.id = a) = false := decide_eq_false (Ne.symm h)
    simp only [Option.map_some, Option.toList, List.find?_cons, h', List.find?_nil, Option.none_or,
      if_neg h]

/-- Changing the entry of the shelter. -/
theorem Stored.setEntry {e e' : Option (ℕ × C.Sealed)}
    {w : SqrtSystem (SqrtOramServerStorage C)} (hw : w.Stored K e)
    (hentry : ∀ t c, e' = some (t, c) →
      w.client.positionMap (C.decryptBlock c).2.id = some t ∧
        ((C.decryptBlock c).2.isNormal = false →
          w.memory (C.decryptBlock c).2.id = some (C.decryptBlock c).2))
    {client : SquareRootOramController} (hclient : client.positionMap = w.client.positionMap) :
    Stored K e' ⟨client, { w.server with shelter := shelterWith C K.sqrtM e' }⟩ where
  main_length := hw.main_length
  dummy_length := hw.dummy_length
  shelter_eq := rfl
  word := hclient ▸ hw.word
  absent := hclient ▸ hw.absent
  entry := by
    intro t c he
    simp only [memory, hclient]
    exact hentry t c he

/-- The counters do not matter. -/
theorem Stored.setClient {e : Option (ℕ × C.Sealed)} {w : SqrtSystem (SqrtOramServerStorage C)}
    (hw : w.Stored K e) {client : SquareRootOramController}
    (hclient : client.positionMap = w.client.positionMap) : Stored K e ⟨client, w.server⟩ := by
  have hset := hw.setEntry hw.entry hclient
  rw [← hw.shelter_eq] at hset
  exact hset

/-- What holds between two accesses. -/
structure Ready (K : SquareRootOramConfig) (e : Option (ℕ × C.Sealed))
    (w : SqrtSystem (SqrtOramServerStorage C)) : Prop extends w.Stored K e where
  initialized : w.client.isInitialized = true
  counter_lt : 0 < K.sqrtM → w.client.counter < K.sqrtM
  next_le : w.client.nextDummy ≤ w.client.counter

/-- From `w` to `w'`, the last word written being `entry`: an epoch ends with a
free shelter, and goes on with that word in it. -/
def EpochStep (K : SquareRootOramConfig) (entry : ℕ × C.Sealed) (e' : Option (ℕ × C.Sealed))
    (w w' : SqrtSystem (SqrtOramServerStorage C)) : Prop :=
  if w.client.counter + 1 = K.sqrtM then e' = none ∧ w'.client.counter = 0
  else e' = some entry ∧ w'.client.counter = w.client.counter + 1 ∧ ∀ a, w'.memory a = w.memory a

end SqrtSystem

namespace SquareRootOramController

open SqrtOramServerStorage SqrtSystem

/-! ## The parts of an access

Each part is specified from a `Stored` state: what it returns, and the state it leaves,
in the same terms. An entry of the shelter is what the next access will find or drop. -/

theorem remote_ok {σ α : Type} {location : String} {m : Prog String σ α} {w : SqrtSystem σ} {a : α}
    {server : σ} (h : m w.server = (.ok a, server)) :
    remote location m w = (.ok a, { w with server := server }) := by
  rw [remote, h]

/-- The system with a free shelter. -/
def cleared (K : SquareRootOramConfig) (w : SqrtSystem (SqrtOramServerStorage C)) :
    SqrtSystem (SqrtOramServerStorage C) :=
  { w with server := { w.server with shelter := shelterWith C K.sqrtM none } }

/-- Reading one slot of the shelter. -/
theorem read_shelter_slot {w : SqrtSystem (SqrtOramServerStorage C)} {i tag : ℕ}
    {content : Option C.Sealed} (h : w.server.shelter[i]? = some (tag, content)) :
    remote "ReadShelter" ((OramService.sqrtStub C).readSqrtMemory .kShelter i) w =
      (.ok content,
        { w with server := { w.server with shelter := w.server.shelter.set i (freeSlot C) } }) := by
  refine remote_ok ?_
  show OramService.readSqrtMemory .kShelter i w.server = _
  rw [OramService.readSqrtMemory, check, if_neg Bool.false_ne_true.symm]
  refine Prog.mapError_ok ?_
  rw [readBlockFromShelter]
  simp only [h]

/-- Scanning free slots finds nothing and changes nothing. -/
theorem scan_free {w : SqrtSystem (SqrtOramServerStorage C)} {n : ℕ}
    (hw : w.server.shelter = List.replicate n (freeSlot C)) (address : ℕ)
    (found : Option (OramBlock D)) :
    ∀ is : List ℕ, (∀ i ∈ is, i < n) →
      scanShelter (OramService.sqrtStub C) address is found w = (.ok found, w) := by
  intro is
  induction is with
  | nil => exact fun _ => rfl
  | cons i is ih =>
    intro hlt
    have hslot : w.server.shelter[i]? = some (kInvalidMask, none) := by
      rw [hw, List.getElem?_replicate, if_pos (hlt i List.mem_cons_self), freeSlot]
    have hread := read_shelter_slot hslot
    rw [hw, List.set_replicate_self, ← hw] at hread
    rw [scanShelter, Prog.bind_ok hread]
    exact ih fun j hj => hlt j (List.mem_cons_of_mem _ hj)

/-- `ReadShelter` clears the shelter, and finds the entry if it is the one asked for. -/
theorem scan_stored {e : Option (ℕ × C.Sealed)} {w : SqrtSystem (SqrtOramServerStorage C)}
    (hw : w.Stored K e) (hsize : 0 < K.sqrtM) (address : ℕ) :
    scanShelter (OramService.sqrtStub C) address (List.range K.sqrtM) none w =
      (.ok ((e.map fun e => (C.decryptBlock e.2).2).filter (blockEqual address)), cleared K w) := by
  have hrange : ∀ i ∈ List.range K.sqrtM, i < K.sqrtM := fun i hi => List.mem_range.mp hi
  rcases e with _ | ⟨t, c⟩
  · rw [scan_free hw.shelter_eq address none _ hrange]
    have hcleared : cleared K w = w := by
      rw [cleared, ← hw.shelter_eq]
    rw [hcleared]
    rfl
  · -- the first slot holds the entry, the others are free
    obtain ⟨n, hn⟩ : ∃ n, K.sqrtM = n + 1 := ⟨K.sqrtM - 1, by omega⟩
    have hslot : w.server.shelter[0]? = some (t, some c) := by
      rw [hw.shelter_eq]
      rfl
    have hread := read_shelter_slot hslot
    have hset : w.server.shelter.set 0 (freeSlot C) = List.replicate K.sqrtM (freeSlot C) := by
      rw [hw.shelter_eq, shelterWith, List.set_cons_zero, hn, List.replicate_succ]
      rfl
    rw [hset] at hread
    rw [hn, List.range_succ_eq_map, scanShelter, Prog.bind_ok hread]
    simp only
    rw [scan_free rfl]
    · rw [cleared, shelterWith]
      simp only [Option.map_some, Option.filter_some]
    · intro i hi
      obtain ⟨j, hj, rfl⟩ := List.mem_map.mp hi
      exact hn ▸ Nat.succ_lt_succ (List.mem_range.mp hj)

/-- After the scan the shelter is free. -/
theorem stored_cleared {e : Option (ℕ × C.Sealed)} {w : SqrtSystem (SqrtOramServerStorage C)}
    (hw : w.Stored K e) : (cleared K w).Stored K none := by
  refine hw.setEntry (fun t c he => ?_) rfl
  cases he

/-- Reading the word of an address from the memory. -/
theorem readMain_spec {e : Option (ℕ × C.Sealed)} {w : SqrtSystem (SqrtOramServerStorage C)}
    (hw : w.Stored K e) {a t : ℕ} (ht : w.client.positionMap a = some t) :
    ∃ b, readMain (OramService.sqrtStub C) t w = (.ok b, w) ∧ w.memory a = some b ∧ b.id = a := by
  obtain ⟨s, b, hs, hlt, hb, hid, hmem⟩ := hw.memory_eq (hw.position_lt ht)
  cases ht.symm.trans hs
  obtain ⟨c, hc, hcb⟩ := getElem?_of_wordAt hb
  refine ⟨b, ?_, hmem, hid⟩
  have hcheck : w.server.check t .kMainMemory = true := by
    rw [check, hw.main_length, hw.dummy_length]
    exact decide_eq_true (Nat.le_of_lt hlt)
  have hread : remote "ReadBlock" ((OramService.sqrtStub C).readSqrtMemory .kMainMemory t) w =
      (.ok (some c), w) := by
    refine remote_ok ?_
    show OramService.readSqrtMemory .kMainMemory t w.server = _
    rw [OramService.readSqrtMemory, hcheck, if_neg Bool.false_ne_true.symm]
    refine Prog.mapError_ok ?_
    rw [assembled, List.getElem?_append] at hc
    rw [readBlockFromMain]
    by_cases hmain : t < w.server.mainMemory.length
    · rw [if_pos hmain] at hc
      simp only [hc]
    · rw [if_neg hmain] at hc
      rw [List.getElem?_eq_none (Nat.not_lt.mp hmain)]
      simp only [readBlockFromDummy, hc]
  rw [readMain, Prog.bind_ok hread, ← hcb]
  rfl

/-- Reading one of the dummies. -/
theorem readDummy_spec {e : Option (ℕ × C.Sealed)} {w : SqrtSystem (SqrtOramServerStorage C)}
    (hw : w.Stored K e) {pos : ℕ} (hpos : pos < K.sqrtM) :
    readDummy (OramService.sqrtStub C) pos w = (.ok (), w) := by
  have hlt : pos < w.server.dummy.length := hw.dummy_length ▸ hpos
  have hread : remote "ReadBlock" ((OramService.sqrtStub C).readSqrtMemory .kDummy pos) w =
      (.ok w.server.dummy[pos], w) := by
    refine remote_ok ?_
    show OramService.readSqrtMemory .kDummy pos w.server = _
    rw [OramService.readSqrtMemory, check, if_neg Bool.false_ne_true.symm]
    refine Prog.mapError_ok ?_
    rw [readBlockFromDummy]
    simp only [List.getElem?_eq_getElem hlt]
  rw [readDummy, Prog.bind_ok hread]
  rfl

/-- Writing to a free shelter takes its first slot. -/
theorem writeBlock_spec {w : SqrtSystem (SqrtOramServerStorage C)} (hw : w.Stored K none)
    (hsize : 0 < K.sqrtM) (t : ℕ) (c : C.Sealed) :
    writeBlock (OramService.sqrtStub C) t c w =
      (.ok (), { w with server :=
        { w.server with shelter := shelterWith C K.sqrtM (some (t, c)) } }) := by
  obtain ⟨n, hn⟩ : ∃ n, K.sqrtM = n + 1 := ⟨K.sqrtM - 1, by omega⟩
  refine remote_ok (Prog.mapError_ok ?_)
  rw [writeBlockToShelter, hw.shelter_eq, hn, shelterWith, List.replicate_succ, freeSlot,
    writeFirstFree, if_pos rfl]
  rfl

/-- Steps 1 and 2 of an access find the value of the address, and leave the
shelter free. -/
theorem fetch_spec {e : Option (ℕ × C.Sealed)} {w : SqrtSystem (SqrtOramServerStorage C)}
    (hw : w.Stored K e) (hsize : 0 < K.sqrtM) {a t : ℕ} (ht : w.client.positionMap a = some t)
    (hnext : w.client.nextDummy < K.sqrtM) :
    ∃ b n, fetch (OramService.sqrtStub C) K a t w =
        (.ok b, { cleared K w with client := { w.client with nextDummy := n } }) ∧
      n ≤ w.client.nextDummy + 1 ∧ b.id = a ∧ w.valueOf a = some b ∧
      (b.isNormal = false → w.memory a = some b) := by
  have hscan := scan_stored hw hsize a
  rcases hfound : (e.map fun e => (C.decryptBlock e.2).2).filter (blockEqual a) with _ | b
  · -- not in the shelter: the word in memory is the value
    rw [hfound] at hscan
    have hread : readShelter (OramService.sqrtStub C) K a w =
        (.error (.status (.make .kObjectNotFound
          s!"The target block {a} is not found in the shelter." "")), cleared K w) := by
      rw [readShelter, Prog.bind_ok hscan]
      rfl
    obtain ⟨b, hmain, hmem, hid⟩ := readMain_spec (stored_cleared hw) ht
    refine ⟨b, w.client.nextDummy, ?_, Nat.le_succ _, hid, ?_, fun _ => hmem⟩
    · rw [fetch, Prog.attempt_bind]
      simp only [hread]
      exact Prog.mapError_ok hmain
    · rcases e with _ | ⟨s, c⟩
      · exact (hw.valueOf_none a).trans hmem
      · rw [hw.valueOf_some a]
        split
        next ha =>
          -- the entry of the address is not a real block: it is a copy of the memory
          have hnot : blockEqual a (C.decryptBlock c).2 = false := by
            simpa only [Option.map_some, Option.filter_eq_none_iff, Option.some.injEq,
              forall_eq', Bool.not_eq_true] using hfound
          have hnormal : (C.decryptBlock c).2.isNormal = false := by
            rw [blockEqual, ha, beq_self_eq_true, Bool.true_and] at hnot
            exact hnot
          rw [← (hw.entry s c rfl).2 hnormal, ← ha]
          exact hmem
        next => exact hmem
  · rw [hfound] at hscan
    have hread : readShelter (OramService.sqrtStub C) K a w = (.ok b, cleared K w) := by
      rw [readShelter, Prog.bind_ok hscan]
      rfl
    rw [Option.filter_eq_some_iff, Option.map_eq_some_iff] at hfound
    obtain ⟨⟨⟨s, c⟩, rfl, rfl⟩, heq⟩ := hfound
    obtain ⟨hid, hnormal⟩ := blockEqual_iff.mp heq
    refine ⟨(C.decryptBlock c).2, w.client.nextDummy + 1, ?_, le_rfl, hid, ?_, fun h => ?_⟩
    · rw [fetch, Prog.attempt_bind, hread]
      simp only [Prog.get_bind, update, Prog.modify_bind]
      have hfree : Stored K none { cleared K w with
          client := { w.client with nextDummy := w.client.nextDummy + 1 } } :=
        (stored_cleared hw).setClient rfl
      exact Prog.bind_ok (Prog.mapError_ok (readDummy_spec hfree hnext))
    · rw [hw.valueOf_some, if_pos hid.symm]
    · rw [hnormal] at h
      cases h

/-! ## The permutation

The merge writes the one entry to its word, and the words are permuted. The values stay,
as the position map goes along. -/

theorem foldl_updateOne (perm : List ℕ) (m : PositionMap) (k i : ℕ) :
    ((List.range k).foldl (updateOne perm) m) i =
      if i < k then some (perm.getD ((m i).getD i) 0) else m i := by
  induction k with
  | zero => rfl
  | succ k ih =>
    rw [List.range_succ, List.foldl_append, List.foldl_cons, List.foldl_nil, updateOne,
      PositionMap.set]
    by_cases h : i = k
    · subst h
      have hself : ((List.range i).foldl (updateOne perm) m) i = m i := by
        rw [ih, if_neg (Nat.lt_irrefl i)]
      rw [if_pos rfl, if_pos (Nat.lt_succ_self i), hself]
    · rw [if_neg h, ih]
      exact if_congr (by omega) rfl rfl

/-- A place of a permutation. -/
theorem getElem?_perm {perm : List ℕ} {n s : ℕ} (hperm : perm.Perm (List.range n)) (hs : s < n) :
    perm[s]? = some (perm.getD s 0) ∧ perm.getD s 0 < n := by
  have hlen : s < perm.length := by
    rw [hperm.length_eq, List.length_range]
    exact hs
  have hget : perm.getD s 0 = perm[s] := by
    rw [List.getD_eq_getElem?_getD, List.getElem?_eq_getElem hlen, Option.getD_some]
  rw [hget]
  exact ⟨List.getElem?_eq_getElem hlen,
    List.mem_range.mp (hperm.mem_iff.mp (List.getElem_mem hlen))⟩

/-- `DoPermute` merges the shelter into the memory, and moves every word and its
tag together. -/
theorem doPermute_spec {t : ℕ} {c : C.Sealed} {w : SqrtSystem (SqrtOramServerStorage C)}
    (hw : w.Stored K (some (t, c))) (hsize : 0 < K.sqrtM) (hmask : K.words ≤ kInvalidMask)
    {perm : List ℕ} (hperm : perm.Perm (List.range K.words)) :
    ∃ m server, doPermute (OramService.sqrtStub C) perm w =
        (.ok (), ⟨{ w.client with positionMap := m }, server⟩) ∧
      Stored K none ⟨{ w.client with positionMap := m }, server⟩ ∧
      ∀ a, memory ⟨{ w.client with positionMap := m }, server⟩ a =
        if a = (C.decryptBlock c).2.id then some (C.decryptBlock c).2 else w.memory a := by
  obtain ⟨hpos, -⟩ := hw.entry t c rfl
  have ht : t < K.words := by
    obtain ⟨s, _, hs, hlt, -⟩ := hw.word _ (hw.position_lt hpos)
    cases hpos.symm.trans hs
    exact hlt
  have hwords : w.server.mainMemory.length + w.server.dummy.length = K.words := by
    rw [hw.main_length, hw.dummy_length, SquareRootOramConfig.words]
  have hlen : perm.length = K.words := hperm.length_eq.trans List.length_range
  obtain ⟨md, hmerge, hmain, hset⟩ := mergeShelter_entry (c := c) (hwords ▸ ht)
    (Nat.ne_of_lt (ht.trans_le hmask)) (K.sqrtM - 1)
  let server : SqrtOramServerStorage C := { w.server with
    mainMemory := (permuteBy perm (md.1 ++ md.2)).take md.1.length
    dummy := (permuteBy perm (md.1 ++ md.2)).drop md.1.length
    shelter := w.server.shelter.map fun _ => freeSlot C }
  let m := (List.range perm.length).foldl (updateOne perm) w.client.positionMap
  have hassembled : server.assembled = permuteBy perm (w.server.assembled.set t (some c)) := by
    rw [assembled, List.take_append_drop, hset]
    rfl
  have hlength : (w.server.assembled.set t (some c)).length = K.words := by
    rw [List.length_set, assembled, List.length_append, hwords]
  -- every word is found at its new tag
  have hword : ∀ s < K.words, server.wordAt (perm.getD s 0) =
      if s = t then some (C.decryptBlock c).2 else w.server.wordAt s := by
    intro s hs
    obtain ⟨hget, -⟩ := getElem?_perm hperm hs
    rw [wordAt, hassembled, getElem?_permuteBy (hlength ▸ hperm) hget]
    by_cases h : s = t
    · subst h
      rw [if_pos rfl, List.getElem?_set_self (by rw [← hlength, List.length_set] at hs; exact hs)]
      rfl
    · rw [if_neg h, List.getElem?_set_ne (Ne.symm h), wordAt]
  have hm : ∀ a s, w.client.positionMap a = some s → m a = some (perm.getD s 0) := by
    intro a s hs
    refine (foldl_updateOne perm _ perm.length a).trans ?_
    rw [hlen, if_pos (hw.position_lt hs), hs, Option.getD_some]
  have hnone : ∀ a, K.words ≤ a → m a = none := by
    intro a ha
    refine (foldl_updateOne perm _ perm.length a).trans ?_
    rw [hlen, if_neg (Nat.not_lt.mpr ha), hw.absent a ha]
  have hmemory : ∀ a, memory ⟨{ w.client with positionMap := m }, server⟩ a =
      if a = (C.decryptBlock c).2.id then some (C.decryptBlock c).2 else w.memory a := by
    intro a
    by_cases ha : a < K.words
    · obtain ⟨s, b, hs, hlt, hb, -, hmem⟩ := hw.memory_eq ha
      rw [memory]
      simp only [hm a s hs, Option.bind_some, hword s hlt]
      by_cases h : a = (C.decryptBlock c).2.id
      · rw [if_pos h, if_pos (Option.some.inj ((h ▸ hs).symm.trans hpos))]
      · have hst : s ≠ t := fun he => h (hw.position_inj hs (he ▸ hpos))
        rw [if_neg h, if_neg hst, hb, hmem]
    · have hne : a ≠ (C.decryptBlock c).2.id := fun he => ha (he ▸ hw.position_lt hpos)
      rw [if_neg hne, memory, memory, hw.absent a (Nat.not_lt.mp ha)]
      simp only [hnone a (Nat.not_lt.mp ha)]
      rfl
  refine ⟨m, server, ?_, ⟨?_, ?_, ?_, fun a ha => ?_, hnone, fun _ _ he => by cases he⟩, hmemory⟩
  · have hremote : remote "DoPermute" ((OramService.sqrtStub C).sqrtPermute perm) w =
        (.ok (), { w with server := server }) := by
      have hmerge' : mergeShelter w.server.shelter (w.server.mainMemory, w.server.dummy) =
          some md := by
        rw [hw.shelter_eq]
        exact hmerge
      exact remote_ok (Prog.mapError_ok (SqrtOramServerStorage.doPermute_ok
        (hlen.trans hwords.symm) hmerge' (lt_length_of_perm hperm)))
    rw [doPermute, Prog.bind_ok hremote]
    rfl
  · show ((permuteBy perm (md.1 ++ md.2)).take md.1.length).length = K.blockNum
    rw [List.length_take, length_permuteBy, List.length_append, hmain, hw.main_length]
    exact Nat.min_eq_left (Nat.le_add_right _ _)
  · show ((permuteBy perm (md.1 ++ md.2)).drop md.1.length).length = K.sqrtM
    rw [List.length_drop, length_permuteBy, hset, hmain, List.length_set, List.length_append,
      hw.main_length, hw.dummy_length, Nat.add_sub_cancel_left]
  · show w.server.shelter.map (fun _ => freeSlot C) = shelterWith C K.sqrtM none
    rw [List.map_const', hw.shelter_eq, length_shelterWith hsize, shelterWith]
  · obtain ⟨s, b, hs, hlt, hb, hid, -⟩ := hw.memory_eq ha
    obtain ⟨-, hplt⟩ := getElem?_perm hperm hlt
    by_cases h : s = t
    · refine ⟨_, (C.decryptBlock c).2, hm a s hs, hplt, ?_, ?_⟩
      · rw [hword s hlt, if_pos h]
      · exact (hw.position_inj hs (h ▸ hpos)).symm
    · refine ⟨_, b, hm a s hs, hplt, ?_, hid⟩
      rw [hword s hlt, if_neg h, hb]

/-- `PermuteOnFull`, with one word in the shelter: whether it permutes or not,
every address keeps its value. -/
theorem permuteOnFull_spec {t : ℕ} {c : C.Sealed} {w : SqrtSystem (SqrtOramServerStorage C)}
    (hw : w.Stored K (some (t, c))) (hsize : 0 < K.sqrtM) (hmask : K.words ≤ kInvalidMask)
    (hinit : w.client.isInitialized = true) (hcounter : w.client.counter < K.sqrtM)
    (hnext : w.client.nextDummy ≤ w.client.counter + 1) {perm : List ℕ}
    (hperm : perm.Perm (List.range K.words)) :
    ∃ w' e, permuteOnFull (OramService.sqrtStub C) K perm w = (.ok (), w') ∧ w'.Ready K e ∧
      (∀ a, w'.valueOf a = w.valueOf a) ∧ EpochStep K (t, c) e w w' := by
  by_cases hfull : w.client.counter + 1 = K.sqrtM
  · have hwords : K.words ≠ 0 := by
      rw [SquareRootOramConfig.words]
      omega
    have hreset : Stored K (some (t, c))
        ⟨{ w.client with counter := 0, nextDummy := 0 }, w.server⟩ := hw.setClient rfl
    obtain ⟨m, server, hrun, hw', hmem⟩ := doPermute_spec hreset hsize hmask hperm
    refine ⟨_, none, ?_, ⟨hw', hinit, fun _ => hsize, le_rfl⟩, fun a => ?_, ?_⟩
    · rw [permuteOnFull]
      simp only [update, Prog.modify_bind, Prog.get_bind, if_pos hfull, randomPermutation,
        if_neg hwords]
      exact hrun
    · rw [hw'.valueOf_none, hmem, hw.valueOf_some]
      rfl
    · rw [EpochStep, if_pos hfull]
      exact ⟨rfl, rfl⟩
  · have hkeep : Stored K (some (t, c))
        ⟨{ w.client with counter := w.client.counter + 1 }, w.server⟩ := hw.setClient rfl
    refine ⟨_, some (t, c), ?_, ⟨hkeep, hinit, fun _ => ?_, hnext⟩, fun a => ?_, ?_⟩
    · rw [permuteOnFull]
      simp only [update, Prog.modify_bind, Prog.get_bind, if_neg hfull]
      rfl
    · show w.client.counter + 1 < K.sqrtM
      omega
    · rw [hkeep.valueOf_some, hw.valueOf_some]
      rfl
    · rw [EpochStep, if_neg hfull]
      exact ⟨rfl, rfl, fun a => rfl⟩

/-! ## The whole access -/

/-- **One access.** The address gets the block written, or keeps the one found;
every other address is left with what the memory has for it, whatever the
shelter held. -/
theorem access_spec {e : Option (ℕ × C.Sealed)} {w : SqrtSystem (SqrtOramServerStorage C)}
    (hw : w.Ready K e) (hsize : 0 < K.sqrtM) (hmask : K.words ≤ kInvalidMask) {op : Operation}
    (hop : op ≠ .kInvalid) {a : ℕ} (ha : a < K.words) {buffer : OramBlock D}
    (hbuffer : op ≠ .kRead → buffer.id = a ∧ buffer.isNormal = true) {draws : SqrtDraws C}
    (hperm : draws.perm.Perm (List.range K.words)) :
    ∃ out w' e' b, access (OramService.sqrtStub C) K op a buffer draws w = (.ok out, w') ∧
      w'.Ready K e' ∧ w.valueOf a = some b ∧
      (∀ k, w'.valueOf k =
        if k = a then some (if op = .kRead then b else buffer) else w.memory k) ∧
      (C.decryptBlock out).2 = (if op = .kRead then b else buffer) ∧
      ∃ t, EpochStep K (t, out) e' w w' := by
  obtain ⟨t, -, ht, -⟩ := hw.memory_eq ha
  obtain ⟨b, n, hfetch, hn, hid, hvalue, hcopy⟩ := fetch_spec hw.toStored hsize ht
    (hw.next_le.trans_lt (hw.counter_lt hsize))
  generalize hblock : (if op = .kRead then b else buffer) = block
  have hblock_id : block.id = a ∧ (block.isNormal = false → w.memory a = some block) := by
    rw [← hblock]
    split
    next => exact ⟨hid, hcopy⟩
    next h => exact ⟨(hbuffer h).1, fun hn => by rw [(hbuffer h).2] at hn; cases hn⟩
  have hdecrypt : (C.decryptBlock (C.encryptBlock draws.iv block)).2 = block := by
    rw [C.decrypt_encrypt]
  -- the state after the write to the shelter
  have hfree : Stored K none { cleared K w with client := { w.client with nextDummy := n } } :=
    (stored_cleared hw.toStored).setClient rfl
  have hwrite := writeBlock_spec hfree hsize t (C.encryptBlock draws.iv block)
  have hstored : Stored K (some (t, C.encryptBlock draws.iv block))
      ⟨{ w.client with nextDummy := n }, { w.server with
        shelter := shelterWith C K.sqrtM (some (t, C.encryptBlock draws.iv block)) }⟩ := by
    refine hw.toStored.setEntry (fun s c he => ?_) rfl
    cases he
    rw [hdecrypt, hblock_id.1]
    exact ⟨ht, hblock_id.2⟩
  obtain ⟨w', e', hpermute, hready, hvalues, hepoch⟩ := permuteOnFull_spec hstored hsize hmask
    hw.initialized (hw.counter_lt hsize) (hn.trans (Nat.succ_le_succ hw.next_le)) hperm
  have hmatch : (b.isNormal && b.id != a) = false := by
    rw [hid, bne_self_eq_false, Bool.and_false]
  refine ⟨C.encryptBlock draws.iv block, w', e', b, ?_, hready, hvalue, fun k => ?_,
    hdecrypt.trans hblock.symm, t, hepoch⟩
  · rw [access, Prog.get_bind, hw.initialized, if_neg Bool.false_ne_true.symm, internalAccess,
      Prog.get_bind, hw.initialized, if_neg Bool.false_ne_true.symm, if_neg hop]
    simp only [ht]
    rw [Prog.bind_ok hfetch, hmatch, if_neg Bool.false_ne_true, hblock]
    by_cases hread : op = .kRead
    · rw [if_pos hread, Prog.attempt_bind, hwrite]
      exact Prog.bind_ok (Prog.mapError_ok hpermute)
    · rw [if_neg hread, Prog.bind_ok (Prog.mapError_ok hwrite)]
      exact Prog.bind_ok (Prog.mapError_ok hpermute)
  · rw [hvalues, hstored.valueOf_some, hdecrypt, hblock_id.1, hblock]
    rfl

/-! ## The initial load -/

/-- The block that `FillWithData` loads under an address: that of the data, or padding. -/
def loadedWord (K : SquareRootOramConfig) (garbage : ℕ → OramBlock D) (data : List (OramBlock D))
    (a : ℕ) : Option (OramBlock D) :=
  (padded garbage data K.words).find? fun b => b.id = a

/-- Padding goes on with the ids where the data stops. -/
theorem padded_ids (garbage : ℕ → OramBlock D) {data : List (OramBlock D)} {n : ℕ}
    (hlen : data.length ≤ n) (hids : (data.map OramBlock.id).Perm (List.range data.length)) :
    ((padded garbage data n).map OramBlock.id).Perm (List.range n) := by
  have hpad : ((List.range' data.length (n - data.length)).map fun i =>
      { garbage i with header := ⟨i, .kInvalid, (garbage i).header.dataLen⟩ }).map OramBlock.id =
        List.range' data.length (n - data.length) := by
    rw [List.map_map]
    exact List.map_id _
  rw [padded, List.map_append, hpad]
  refine (hids.append_right _).trans (List.Perm.of_eq ?_)
  have happend := List.range'_append_1 (s := 0) (m := data.length) (n := n - data.length)
  rw [Nat.zero_add, Nat.add_sub_cancel' hlen] at happend
  rw [List.range_eq_range', happend, List.range_eq_range']

/-- The sort puts the block of every address at the place of its address. -/
theorem getElem?_sorted {blocks : List (OramBlock D)} {n : ℕ}
    (hids : (blocks.map OramBlock.id).Perm (List.range n)) {a : ℕ} (ha : a < n) :
    ∃ b, (blocks.mergeSort byId)[a]? = some b ∧ b.id = a ∧
      blocks.find? (fun b => b.id = a) = some b := by
  have hperm := List.mergeSort_perm blocks byId
  have hsorted : (blocks.mergeSort byId).map OramBlock.id = List.range n := by
    have hle : ((blocks.mergeSort byId).map OramBlock.id).Pairwise (· ≤ ·) := by
      rw [List.pairwise_map]
      refine (List.pairwise_mergeSort (fun a b c hab hbc => ?_) (fun a b => ?_) blocks).imp
        of_decide_eq_true
      · exact decide_eq_true ((of_decide_eq_true hab).trans (of_decide_eq_true hbc))
      · rw [Bool.or_eq_true]
        exact (Nat.le_total a.id b.id).imp decide_eq_true decide_eq_true
    exact List.Perm.eq_of_pairwise (fun a b _ _ => Nat.le_antisymm) hle List.pairwise_le_range
      ((hperm.map _).trans hids)
  have hget : ((blocks.mergeSort byId).map OramBlock.id)[a]? = some a := by
    rw [hsorted, List.getElem?_range ha]
  rw [List.getElem?_map, Option.map_eq_some_iff] at hget
  obtain ⟨b, hb, hid⟩ := hget
  refine ⟨b, hb, hid, ?_⟩
  have hmem : b ∈ blocks := hperm.mem_iff.mp (List.mem_of_getElem? hb)
  rcases hfind : blocks.find? (fun b => b.id = a) with _ | c
  · exact absurd (decide_eq_true hid) (List.find?_eq_none.mp hfind b hmem)
  · have hc : c.id = a := by simpa only [decide_eq_true_iff] using List.find?_some hfind
    have hinj := List.inj_on_of_nodup_map (hids.nodup_iff.mpr List.nodup_range)
    exact hfind.trans (congrArg some
      (hinj (List.mem_of_find?_eq_some hfind) hmem (hc.trans hid.symm)))

/-- The permuted words, as `FillWithData` sends them. -/
def loadedContents (K : SquareRootOramConfig) (garbage : ℕ → OramBlock D)
    (data : List (OramBlock D)) (draws : SqrtFillDraws C) : List C.Sealed :=
  (permuteBy draws.perm ((padded garbage data K.words).mergeSort byId)).mapIdx fun i b =>
    C.encryptBlock (draws.iv i) b

theorem length_loadedContents (garbage : ℕ → OramBlock D) {data : List (OramBlock D)}
    (hlen : data.length ≤ K.words) (draws : SqrtFillDraws C) :
    (loadedContents K garbage data draws).length = K.words := by
  rw [loadedContents, List.length_mapIdx, length_permuteBy, List.length_mergeSort, padded,
    List.length_append, List.length_map, List.length_range', Nat.add_sub_cancel' hlen]

/-- The tags that the first permutation gives to the addresses. -/
def loadedPositions (K : SquareRootOramConfig) (perm : List ℕ) : PositionMap := fun a =>
  if a < K.words then some (perm.getD a 0) else none

/-- `FillWithData` returns only if the data is no longer than the memory. -/
theorem length_le_of_fillWithData {σ : Type} {S : SqrtStub C σ} {garbage : ℕ → OramBlock D}
    {data : List (OramBlock D)} {draws : SqrtFillDraws C} {w w' : SqrtSystem σ}
    (hfill : fillWithData S K garbage data draws w = (.ok (), w')) : data.length ≤ K.words := by
  by_contra h
  rw [fillWithData, if_pos (Nat.lt_of_not_le h)] at hfill
  cases hfill

/-- `FillWithData` up to its call. -/
theorem fillWithData_eq {σ : Type} (S : SqrtStub C σ) (s : σ) (garbage : ℕ → OramBlock D)
    {data : List (OramBlock D)} (hlen : data.length ≤ K.words) {draws : SqrtFillDraws C}
    (hperm : draws.perm.Perm (List.range K.words)) :
    fillWithData S K garbage data draws ⟨.new, s⟩ =
      (remote "FillWithData" (S.loadSqrtOram (loadedContents K garbage data draws)) >>= fun _ =>
        update fun c => { c with isInitialized := true })
        ⟨{ SquareRootOramController.new with positionMap := loadedPositions K draws.perm }, s⟩ := by
  -- of no words there is one permutation, which stands although it is refused
  have hdraw : randomPermutation K.words draws.perm = .ok draws.perm ∨
      draws.perm = List.range K.words ∧ ∃ st, randomPermutation K.words draws.perm = .error st := by
    rw [randomPermutation]
    split_ifs with hzero
    · rw [hzero] at hperm ⊢
      exact .inr ⟨hperm.eq_nil, _, rfl⟩
    · exact .inl rfl
  have hpos : (List.range draws.perm.length).foldl (updateOne draws.perm) .empty =
      loadedPositions K draws.perm := by
    funext a
    rw [foldl_updateOne, hperm.length_eq, List.length_range]
    rfl
  rw [fillWithData, if_neg (Nat.not_lt.mpr hlen), ← hpos]
  rcases hdraw with hdraw | ⟨hrange, st, hdraw⟩
  · simp only [hdraw]
    rfl
  · simp only [hdraw, ← hrange]
    rfl

/-- `FillWithData` puts every block where the position map says. -/
theorem fillWithData_spec {garbage : ℕ → OramBlock D} {data : List (OramBlock D)}
    {draws : SqrtFillDraws C} {w : SqrtSystem (SqrtOramServerStorage C)}
    (hfill : fillWithData (OramService.sqrtStub C) K garbage data draws (SqrtSystem.init C K) =
      (.ok (), w))
    (hids : (data.map OramBlock.id).Perm (List.range data.length))
    (hperm : draws.perm.Perm (List.range K.words)) :
    w.Ready K none ∧ ∀ a < K.words, w.memory a = loadedWord K garbage data a := by
  have hlen := length_le_of_fillWithData hfill
  have hpadded := padded_ids garbage hlen hids
  have hsize : ((padded garbage data K.words).mergeSort byId).length = K.words := by
    rw [List.length_mergeSort, ← List.length_map (f := OramBlock.id), hpadded.length_eq,
      List.length_range]
  have hcontents := length_loadedContents garbage hlen draws
  rw [SqrtSystem.init, fillWithData_eq _ _ garbage hlen hperm] at hfill
  generalize hloaded : loadedContents K garbage data draws = contents at hcontents hfill
  obtain rfl : w = ⟨{ positionMap := loadedPositions K draws.perm
                      nextDummy := 0, counter := 0, isInitialized := true },
      { capacity := K.blockNum
        mainMemory := (contents.take K.blockNum).map some
        dummy := (contents.drop K.blockNum).map some
        shelter := (contents.drop K.blockNum).map fun _ => freeSlot C }⟩ :=
    (congrArg Prod.snd hfill).symm
  -- the block of every address, behind its tag
  have hword : ∀ a < K.words, ∃ b, wordAt (C := C)
      { capacity := K.blockNum
        mainMemory := (contents.take K.blockNum).map some
        dummy := (contents.drop K.blockNum).map some
        shelter := (contents.drop K.blockNum).map fun _ => freeSlot C } (draws.perm.getD a 0) =
        some b ∧ b.id = a ∧ loadedWord K garbage data a = some b := by
    intro a ha
    obtain ⟨b, hb, hid, hfind⟩ := getElem?_sorted hpadded ha
    obtain ⟨hget, -⟩ := getElem?_perm hperm ha
    refine ⟨b, ?_, hid, hfind⟩
    have hplace := getElem?_permuteBy (hsize.symm ▸ hperm) hget
    rw [wordAt, assembled, ← List.map_append, List.take_append_drop, List.getElem?_map, ← hloaded,
      loadedContents, List.getElem?_mapIdx, hplace, hb]
    simp only [Option.map_some, Option.join_some, C.decrypt_encrypt]
  refine ⟨⟨⟨?_, ?_, ?_, fun a ha => ?_, fun a ha => ?_, fun _ _ he => by cases he⟩, rfl, id,
    le_rfl⟩, fun a ha => ?_⟩
  · rw [List.length_map, List.length_take, hcontents]
    exact Nat.min_eq_left (Nat.le_add_right _ _)
  · rw [List.length_map, List.length_drop, hcontents, SquareRootOramConfig.words,
      Nat.add_sub_cancel_left]
  · rw [List.map_const', List.length_drop, hcontents, SquareRootOramConfig.words,
      Nat.add_sub_cancel_left, shelterWith]
  · obtain ⟨b, hb, hid, -⟩ := hword a ha
    exact ⟨_, b, if_pos ha, (getElem?_perm hperm ha).2, hb, hid⟩
  · exact if_neg (Nat.not_lt.mpr ha)
  · obtain ⟨b, hb, -, hload⟩ := hword a ha
    simp only [memory, loadedPositions, if_pos ha, Option.bind_some, hb, hload]

end SquareRootOramController

/-! ## Requests

A run is followed with two values for an address, that in the shelter and that in the
memory. They are the same unless the address was written in this epoch; then the next
access to another address decides. -/

/-- The arguments of one `Access`, and its random choices. -/
structure SqrtRequest (C : Codec D) where
  op : Operation
  address : ℕ
  buffer : OramBlock D
  draws : SqrtDraws C

namespace SqrtRequest

/-- `Access` with these arguments. -/
def run (K : SquareRootOramConfig) (r : SqrtRequest C) :
    Prog Exit (SqrtSystem (SqrtOramServerStorage C)) C.Sealed :=
  SquareRootOramController.access (OramService.sqrtStub C) K r.op r.address r.buffer r.draws

/-- What the request writes under `a`. -/
def written (r : SqrtRequest C) (a : ℕ) : Option (OramBlock D) :=
  if r.op = .kWrite ∧ r.address = a then some r.buffer else none

/-- The buffer of a write carries its address and the type of a real block, and
what `RandomPermutation` returns is a permutation. -/
structure Proper (K : SquareRootOramConfig) (r : SqrtRequest C) : Prop where
  buffer_named : r.op = .kWrite → r.buffer.id = r.address ∧ r.buffer.isNormal = true
  perm : r.draws.perm.Perm (List.range K.words)

end SqrtRequest

namespace SqrtSystem

/-- The system has the values `m` at the addresses of the client's blocks. -/
def HasValues (K : SquareRootOramConfig) (m : ℕ → Option (OramBlock D))
    (w : SqrtSystem (SqrtOramServerStorage C)) : Prop :=
  ∀ a < K.blockNum, w.valueOf a = m a

/-- An access that finds a block of another address in the shelter, and the same
block in the memory: the one that it drops is not needed. -/
def KeepsShelter (K : SquareRootOramConfig) (r : SqrtRequest C)
    (w : SqrtSystem (SqrtOramServerStorage C)) : Prop :=
  r.op ≠ .kInvalid → w.client.positionMap r.address ≠ none →
    ∀ b ∈ w.server.sheltered, b.id ≠ r.address → b.id < K.blockNum → w.memory b.id = some b

end SqrtSystem

namespace SquareRootOramController

open SqrtSystem

/-- Between two accesses, the blocks of the shelter are the values of their addresses. -/
theorem value_of_sheltered {e : Option (ℕ × C.Sealed)} {w : SqrtSystem (SqrtOramServerStorage C)}
    (hw : w.Stored K e) {b : OramBlock D} (hb : b ∈ w.server.sheltered) :
    w.valueOf b.id = some b := by
  rw [sheltered_eq hw, Option.mem_toList, Option.map_eq_some_iff] at hb
  obtain ⟨⟨t, c⟩, rfl, rfl⟩ := hb
  rw [hw.valueOf_some, if_pos rfl]

/-- A value that is not in the memory is in the shelter. -/
theorem valueOf_eq_memory {w : SqrtSystem (SqrtOramServerStorage C)} {a : ℕ}
    (h : ∀ b ∈ w.server.sheltered, b.id = a → w.memory a = some b) : w.valueOf a = w.memory a := by
  rw [valueOf]
  rcases hfind : w.server.sheltered.find? (fun b => b.id = a) with _ | b
  · rw [hfind, Option.none_or]
  · have hid : b.id = a := by simpa only [decide_eq_true_iff] using List.find?_some hfind
    rw [hfind, h b (List.mem_of_find?_eq_some hfind) hid, Option.some_or]

/-- **One request.** If the system has the latest values before it, it has them
after it exactly if the request drops nothing that is needed. -/
theorem SqrtRequest.run_spec (hsqrt : K.blockNum ≠ 0 → K.sqrtM ≠ 0)
    (hmask : K.words ≤ kInvalidMask) {m : ℕ → Option (OramBlock D)} {past : List (SqrtRequest C)}
    {r : SqrtRequest C} (hr : r.Proper K) {w : SqrtSystem (SqrtOramServerStorage C)}
    (hready : ∃ e, w.Ready K e) (hw : w.HasValues K (latest SqrtRequest.written m past)) :
    (Prog.survive Exit.fatal (r.run K) w = none → w.KeepsShelter K r) ∧
      ∀ out w', Prog.survive Exit.fatal (r.run K) w = some (out, w') →
        (∃ e, w'.Ready K e) ∧
          (w'.HasValues K (latest SqrtRequest.written m (past ++ [r])) ↔ w.KeepsShelter K r) := by
  obtain ⟨e, he⟩ := hready
  have hlatest : ∀ a, latest SqrtRequest.written m (past ++ [r]) a =
      (r.written a).or (latest SqrtRequest.written m past a) := latest_snoc _ _ _ _
  by_cases hop : r.op = .kInvalid
  · -- the process ends
    have hrun : r.run K w = (.error (.abort "Invalid ORAM operation!"), w) := by
      rw [SqrtRequest.run, access, Prog.get_bind, he.initialized, if_neg Bool.false_ne_true.symm,
        internalAccess, Prog.get_bind, he.initialized, if_neg Bool.false_ne_true.symm, if_pos hop]
      rfl
    refine ⟨fun _ h => absurd hop h, fun out w' hstep => ?_⟩
    have hfatal := Prog.eq_of_survive hstep
    rw [hrun] at hfatal
    cases hfatal.1
    cases hfatal.2 _ rfl
  · by_cases ha : r.address < K.words
    · have hsize : 0 < K.sqrtM := by
        rw [SquareRootOramConfig.words] at ha
        by_contra h
        have hblock : K.blockNum ≠ 0 := by omega
        exact hsqrt hblock (by omega)
      obtain ⟨c, w₁, e', b, hrun, hready₁, hvalue, hvalues, -⟩ := access_spec he hsize hmask hop ha
        (fun h => hr.buffer_named (Operation.eq_kWrite h hop)) hr.perm
      have halive : Prog.survive Exit.fatal (r.run K) w = some (.ok c, w₁) := Prog.survive_ok hrun
      refine ⟨fun h => absurd (halive.symm.trans h) nofun, fun out w' hstep => ?_⟩
      cases halive.symm.trans hstep
      refine ⟨⟨e', hready₁⟩, fun hnew _ _ b' hb' hne hlt => ?_, fun hkeep a halt => ?_⟩
      · -- the value of a dropped block has to be in the memory
        have hafter := hnew b'.id hlt
        rw [hvalues, if_neg hne, hlatest, SqrtRequest.written,
          if_neg fun h => hne h.2.symm, Option.none_or, ← hw _ hlt] at hafter
        rw [hafter]
        exact value_of_sheltered he.toStored hb'
      · rw [hvalues, hlatest, SqrtRequest.written]
        by_cases hself : a = r.address
        · rw [if_pos hself]
          by_cases hread : r.op = .kRead
          · have hnot : ¬(r.op = .kWrite ∧ r.address = a) := fun h => nomatch hread.symm.trans h.1
            rw [if_pos hread, if_neg hnot, Option.none_or, ← hw a halt, hself, hvalue]
          · rw [if_neg hread, if_pos ⟨Operation.eq_kWrite hread hop, hself.symm⟩, Option.some_or]
        · rw [if_neg hself, if_neg fun h => hself h.2.symm, Option.none_or, ← hw a halt]
          refine (valueOf_eq_memory fun b' hb' hid => ?_).symm
          subst hid
          obtain ⟨t, -, ht, -⟩ := he.memory_eq ha
          exact hkeep hop (by rw [ht]; exact nofun) b' hb' hself halt
    · -- the address does not exist, and nothing happens
      have hnone := he.absent r.address (Nat.not_lt.mp ha)
      have hrun : r.run K w = (.error (.status (.make .kInvalidArgument
          "The requested block does not exist!" "InternalAccess")), w) := by
        rw [SqrtRequest.run, access, Prog.get_bind, he.initialized,
          if_neg Bool.false_ne_true.symm, internalAccess, Prog.get_bind, he.initialized,
          if_neg Bool.false_ne_true.symm, if_neg hop]
        simp only [hnone]
        rfl
      have halive : Prog.survive Exit.fatal (r.run K) w = some (_, w) :=
        Prog.survive_error hrun rfl
      refine ⟨fun _ _ h => absurd hnone h, fun out w' hstep => ?_⟩
      cases halive.symm.trans hstep
      refine ⟨⟨e, he⟩, iff_of_true (fun a halt => ?_) fun _ h => absurd hnone h⟩
      have hne : r.address ≠ a := by
        rw [SquareRootOramConfig.words] at ha
        omega
      rw [hlatest, SqrtRequest.written, if_neg fun h => hne h.2, Option.none_or]
      exact hw a halt

end SquareRootOramController

/-- The constructor, past its check. -/
theorem SquareRootOramConfig.eq_of_new {m : ℕ} (hK : SquareRootOramConfig.new m = .ok K) :
    K = ⟨m, ceilSqrt m⟩ := by
  rw [SquareRootOramConfig.new] at hK
  split_ifs at hK
  cases hK
  rfl

/-- The constructor's `√m` is positive for a positive number of blocks. -/
theorem SquareRootOramConfig.sqrtM_ne_zero {m : ℕ} (hK : SquareRootOramConfig.new m = .ok K)
    (h : K.blockNum ≠ 0) : K.sqrtM ≠ 0 := by
  obtain rfl := SquareRootOramConfig.eq_of_new hK
  exact Nat.ne_of_gt (ceilSqrt_pos (Nat.pos_of_ne_zero h))

theorem SquareRootOramConfig.sqrtM_eq_zero_iff {m : ℕ} (hK : SquareRootOramConfig.new m = .ok K) :
    K.sqrtM = 0 ↔ m = 0 := by
  obtain rfl := SquareRootOramConfig.eq_of_new hK
  refine ⟨fun hsqrt => ?_, fun hm => if_pos hm⟩
  by_contra hne
  exact SquareRootOramConfig.sqrtM_ne_zero hK hne hsqrt

open SquareRootOramController in
/-- **When a square-root ORAM loses no update.** After a load of blocks with the
ids `0`, `1`, …, each once: the system has the latest values after every
request of a sequence exactly if no request drops a block of another address
from the shelter while the memory has an older one. -/
theorem squareRootOram_keeps_values_iff {m : ℕ} (hK : SquareRootOramConfig.new m = .ok K)
    (hmask : K.words ≤ kInvalidMask) {garbage : ℕ → OramBlock D} {data : List (OramBlock D)}
    {fill : SqrtFillDraws C} {w : SqrtSystem (SqrtOramServerStorage C)}
    (hfill : fillWithData (OramService.sqrtStub C) K garbage data fill (SqrtSystem.init C K) =
      (.ok (), w))
    (hids : (data.map OramBlock.id).Perm (List.range data.length))
    (hperm : fill.perm.Perm (List.range K.words))
    {requests : List (SqrtRequest C)} (hproper : ∀ r ∈ requests, r.Proper K) :
    (∀ done rest, requests = done ++ rest → ∀ outs w',
        Prog.trace Exit.fatal (SqrtRequest.run K) done w = some (outs, w') →
          w'.HasValues K (latest SqrtRequest.written (loadedWord K garbage data) done)) ↔
      Prog.Along Exit.fatal (SqrtRequest.run K) (fun r w => w.KeepsShelter K r) requests w := by
  obtain ⟨hready, hloaded⟩ := fillWithData_spec hfill hids hperm
  have hstart : w.HasValues K
      (latest (SqrtRequest.written (C := C)) (loadedWord K garbage data) []) := by
    intro a ha
    rw [hready.valueOf_none, latest_nil]
    exact hloaded a (Nat.lt_add_right _ ha)
  exact Prog.along_iff_history (I := fun w => ∃ e, SqrtSystem.Ready K e w)
    (fun past w => SqrtSystem.HasValues K
      (latest SqrtRequest.written (loadedWord K garbage data) past) w)
    (fun _ _ _ hr hready hw => SqrtRequest.run_spec (SquareRootOramConfig.sqrtM_ne_zero hK) hmask
      hr hready hw) hproper [] ⟨none, hready⟩ hstart

/-! ### A small instance -/

/-- Two blocks and two dummies. -/
def smallSqrt : SquareRootOramConfig := ⟨2, 2⟩

def dummyWord : OramBlock ℕ := ⟨⟨0, .kDummy, 0⟩, 0⟩

def smallSqrtData : List (OramBlock ℕ) := [⟨⟨0, .kNormal, 1⟩, 10⟩, ⟨⟨1, .kNormal, 1⟩, 20⟩]

/-- The data with its padding. -/
def smallSqrtWords : List (OramBlock ℕ) := padded (fun _ => dummyWord) smallSqrtData smallSqrt.words

def smallSqrtFill : SqrtFillDraws (Codec.plain ℕ) := ⟨[2, 0, 3, 1], fun _ => ()⟩

/-- The state after the load. -/
def smallSqrtLoaded : SqrtSystem (SqrtOramServerStorage (Codec.plain ℕ)) where
  client := ⟨(List.range 4).foldl (SquareRootOramController.updateOne smallSqrtFill.perm) .empty,
    0, 0, true⟩
  server := ((SqrtOramServerStorage.fill ((permuteBy smallSqrtFill.perm smallSqrtWords).mapIdx
    fun _ b => (Codec.plain ℕ).encryptBlock () b)) (.new (Codec.plain ℕ) 2)).2

open SquareRootOramController in
theorem smallSqrt_fill : fillWithData (OramService.sqrtStub _) smallSqrt (fun _ => dummyWord)
    smallSqrtData smallSqrtFill (SqrtSystem.init _ smallSqrt) = (.ok (), smallSqrtLoaded) := by
  have hsorted : (padded (fun _ => dummyWord) smallSqrtData smallSqrt.words).mergeSort byId =
      smallSqrtWords := List.mergeSort_of_pairwise (by decide)
  rw [fillWithData, if_neg (by decide), hsorted]
  rfl

def smallSqrtDraws : SqrtDraws (Codec.plain ℕ) := ⟨[1, 2, 3, 0], ()⟩

/-- A write of address 0. -/
def writeWord : SqrtRequest (Codec.plain ℕ) :=
  ⟨.kWrite, 0, ⟨⟨0, .kNormal, 1⟩, 11⟩, smallSqrtDraws⟩

/-- A read of address `a`. -/
def readWord (a : ℕ) : SqrtRequest (Codec.plain ℕ) := ⟨.kRead, a, dummyWord, smallSqrtDraws⟩

theorem smallSqrt_new : SquareRootOramConfig.new 2 = .ok smallSqrt := by
  rw [SquareRootOramConfig.new, ceilSqrt, if_neg (by decide), Nat.sqrt_one]
  rfl

/-- What is written is read again at once: the shelter holds no other address. -/
theorem squareRootOram_keeps_values_iff_small :
    ∃ outs w', Prog.trace Exit.fatal (SqrtRequest.run smallSqrt) [writeWord, readWord 0]
        smallSqrtLoaded = some (outs, w') ∧
      w'.HasValues smallSqrt (latest SqrtRequest.written
        (SquareRootOramController.loadedWord smallSqrt (fun _ => dummyWord) smallSqrtData)
        [writeWord, readWord 0]) := by
  have hproper : ∀ r ∈ [writeWord, readWord 0], r.Proper smallSqrt := by
    intro r hr
    rw [List.mem_pair] at hr
    rcases hr with rfl | rfl
    · exact ⟨fun _ => ⟨rfl, rfl⟩, by decide⟩
    · exact ⟨nofun, by decide⟩
  have hvalues := (squareRootOram_keeps_values_iff smallSqrt_new (by decide) smallSqrt_fill
    (by decide) (by decide) hproper).mpr ⟨fun _ _ b hb => ?_, fun r s hstep =>
      ⟨fun _ _ b hb hne => ?_, fun _ _ _ => trivial⟩⟩
  · exact ⟨[(writeWord.run smallSqrt smallSqrtLoaded).1,
        ((readWord 0).run smallSqrt (writeWord.run smallSqrt smallSqrtLoaded).2).1],
      ((readWord 0).run smallSqrt (writeWord.run smallSqrt smallSqrtLoaded).2).2, rfl,
      hvalues [writeWord, readWord 0] [] rfl _ _ rfl⟩
  · have hnone : smallSqrtLoaded.server.sheltered = [] := by decide
    exact absurd (hnone ▸ hb) List.not_mem_nil
  · have hs := congrArg Prod.snd (Prog.eq_of_survive hstep).1
    have hone : (writeWord.run smallSqrt smallSqrtLoaded).2.server.sheltered =
        [⟨⟨0, .kNormal, 1⟩, 11⟩] := by decide
    subst hs
    rw [hone, List.mem_singleton] at hb
    exact absurd (hb ▸ rfl) hne

/-- A write of address 0, and the read of address 1 that drops it. -/
theorem sqrt_access_drops_update :
    SquareRootOramConfig.new 2 = .ok smallSqrt ∧
    SquareRootOramController.fillWithData (OramService.sqrtStub _) smallSqrt (fun _ => dummyWord)
      smallSqrtData smallSqrtFill (SqrtSystem.init _ smallSqrt) = (.ok (), smallSqrtLoaded) ∧
    ∃ outs w', Prog.trace Exit.fatal (SqrtRequest.run smallSqrt) [writeWord, readWord 1]
        smallSqrtLoaded = some (outs, w') ∧
      ¬w'.HasValues smallSqrt (latest SqrtRequest.written
        (SquareRootOramController.loadedWord smallSqrt (fun _ => dummyWord) smallSqrtData)
        [writeWord, readWord 1]) := by
  refine ⟨smallSqrt_new, smallSqrt_fill,
    [(writeWord.run smallSqrt smallSqrtLoaded).1,
      ((readWord 1).run smallSqrt (writeWord.run smallSqrt smallSqrtLoaded).2).1],
    ((readWord 1).run smallSqrt (writeWord.run smallSqrt smallSqrtLoaded).2).2, rfl, ?_⟩
  rw [SqrtSystem.HasValues]
  decide

end ObliviousRam
