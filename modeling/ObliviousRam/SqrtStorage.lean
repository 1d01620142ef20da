import ObliviousRam.Defs
import Mathlib.Data.List.Perm.Basic
import Mathlib.Data.List.Range

set_option autoImplicit false

/-!
# The server's square-root storage

`SqrtOramServerStorage` (`server/sqrt_oram_storage.cc`): `m` words of main
memory, `√m` dummies and a shelter of `√m` tagged words. A word is the string of
an encrypted block, `none` an empty string.

Reading a slot of the shelter **clears** it.
-/

namespace ObliviousRam

variable {D : Type} {C : Codec D}

/-- `oram_utils::PermuteBy`: element `i` goes to place `perm[i]`. -/
def permuteBy {α : Type} (perm : List ℕ) (arr : List α) : List α :=
  (perm.zip arr).foldl (fun clone p => clone.set p.1 p.2) arr

/-- `kInvalidMask`. -/
def kInvalidMask : ℕ := 0xFFFFFFFF

/-- What a `ReadSqrtRequest` reads from. -/
inductive SqrtArea where
  | kShelter
  | kMainMemory
  | kDummy
  deriving DecidableEq, Repr

/-- The number on the wire. -/
def SqrtArea.code : SqrtArea → ℕ
  | kShelter => 0
  | kMainMemory => 1
  | kDummy => 2

/-- `SqrtOramServerStorage`. -/
structure SqrtOramServerStorage (C : Codec D) where
  capacity : ℕ
  mainMemory : List (Option C.Sealed)
  shelter : List (ℕ × Option C.Sealed)
  dummy : List (Option C.Sealed)

namespace SqrtOramServerStorage

/-- The constructor. -/
def new (C : Codec D) (capacity : ℕ) : SqrtOramServerStorage C where
  capacity := capacity
  mainMemory := []
  shelter := []
  dummy := []

/-- A slot of the shelter with nothing in it. -/
def freeSlot (C : Codec D) : ℕ × Option C.Sealed := (kInvalidMask, none)

/-- `Check`. -/
def check (s : SqrtOramServerStorage C) (pos : ℕ) : SqrtArea → Bool
  | .kShelter => true
  | .kMainMemory => pos ≤ s.mainMemory.length + s.dummy.length
  | .kDummy => true

/-- `ReadBlockFromShelter`. -/
def readBlockFromShelter (pos : ℕ) : Prog Exit (SqrtOramServerStorage C) (Option C.Sealed) :=
  fun s =>
    match s.shelter[pos]? with
    | none => (.error (.undefined "shelter_[pos] is out of range"), s)
    | some (_, data) => (.ok data, { s with shelter := s.shelter.set pos (freeSlot C) })

/-- `ReadBlockFromDummy`. -/
def readBlockFromDummy (pos : ℕ) : Prog Exit (SqrtOramServerStorage C) (Option C.Sealed) :=
  fun s =>
    match s.dummy[pos]? with
    | none => (.error (.undefined "dummy_[pos] is out of range"), s)
    | some data => (.ok data, s)

/-- `ReadBlockFromMain`. -/
def readBlockFromMain (pos : ℕ) : Prog Exit (SqrtOramServerStorage C) (Option C.Sealed) :=
  fun s =>
    match s.mainMemory[pos]? with
    | some data => (.ok data, s)
    | none => readBlockFromDummy (pos - s.mainMemory.length) s

/-- The loop of `WriteBlockToShelter`: take the first free slot. -/
def writeFirstFree (tag : ℕ) (data : C.Sealed) :
    List (ℕ × Option C.Sealed) → Option (List (ℕ × Option C.Sealed))
  | [] => none
  | (t, some c) :: slots => (writeFirstFree tag data slots).map ((t, some c) :: ·)
  | (t, none) :: slots =>
    if t = kInvalidMask then some ((tag, some data) :: slots)
    else (writeFirstFree tag data slots).map ((t, none) :: ·)

/-- `WriteBlockToShelter`. -/
def writeBlockToShelter (tag : ℕ) (data : C.Sealed) :
    Prog Exit (SqrtOramServerStorage C) Unit := fun s =>
  match writeFirstFree tag data s.shelter with
  | none => (.error (.abort ("No available space in the shelter." ++
      " This is an internal logic error.")), s)
  | some shelter => (.ok (), { s with shelter := shelter })

/-- `Fill`. -/
def fill (data : List C.Sealed) : Prog Exit (SqrtOramServerStorage C) Unit :=
  Prog.modify fun s => { s with
    mainMemory := s.mainMemory ++ (data.take s.capacity).map some
    dummy := s.dummy ++ (data.drop s.capacity).map some
    shelter := s.shelter ++ (data.drop s.capacity).map fun _ => freeSlot C }

/-- Step 1 of `DoPermute`: the words of the shelter go to their tags, in main
memory or behind it. `none` if a tag names no word. -/
def mergeShelter : List (ℕ × Option C.Sealed) →
    List (Option C.Sealed) × List (Option C.Sealed) →
    Option (List (Option C.Sealed) × List (Option C.Sealed))
  | [], md => some md
  | (_, none) :: slots, md => mergeShelter slots md
  | (tag, some c) :: slots, (main, dummy) =>
    if tag = kInvalidMask then mergeShelter slots (main, dummy)
    else if tag < main.length then mergeShelter slots (main.set tag (some c), dummy)
    else if tag - main.length < dummy.length then
      mergeShelter slots (main, dummy.set (tag - main.length) (some c))
    else none

/-- `DoPermute`. -/
def doPermute (perm : List ℕ) : Prog Exit (SqrtOramServerStorage C) Unit := fun s =>
  if perm.length ≠ s.mainMemory.length + s.dummy.length then
    (.error (.abort "The permutation size is wrong!"), s)
  else
    match mergeShelter s.shelter (s.mainMemory, s.dummy) with
    | none => (.error (.undefined "dummy_[tag - main_memory_.size()] is out of range"), s)
    | some (main, dummy) =>
      if ∃ t ∈ perm, perm.length ≤ t then
        (.error (.undefined "clone[perm[i]] is out of range"), s)
      else
        let assembled := permuteBy perm (main ++ dummy)
        (.ok (), { s with
          mainMemory := assembled.take main.length
          dummy := assembled.drop main.length
          shelter := s.shelter.map fun _ => freeSlot C })

theorem doPermute_ok {s : SqrtOramServerStorage C} {perm : List ℕ}
    {md : List (Option C.Sealed) × List (Option C.Sealed)}
    (hlen : perm.length = s.mainMemory.length + s.dummy.length)
    (hmerge : mergeShelter s.shelter (s.mainMemory, s.dummy) = some md)
    (hperm : ∀ t ∈ perm, t < perm.length) :
    doPermute perm s = (.ok (), { s with
      mainMemory := (permuteBy perm (md.1 ++ md.2)).take md.1.length
      dummy := (permuteBy perm (md.1 ++ md.2)).drop md.1.length
      shelter := s.shelter.map fun _ => freeSlot C }) := by
  have hrange : ¬ ∃ t ∈ perm, perm.length ≤ t := by
    rintro ⟨t, ht, hge⟩
    exact Nat.not_lt.mpr hge (hperm t ht)
  rw [doPermute, if_neg (not_not.mpr hlen), hmerge]
  exact if_neg hrange

end SqrtOramServerStorage

/-! ## The handlers and the client's stub -/

/-- The client's side of the connection of a square-root ORAM. -/
structure SqrtStub (C : Codec D) (σ : Type) where
  loadSqrtOram : List C.Sealed → Prog String σ Unit
  readSqrtMemory : (readFrom : SqrtArea) → (tag : ℕ) → Prog String σ (Option C.Sealed)
  writeSqrtMemory : (pos : ℕ) → (content : C.Sealed) → Prog String σ Unit
  sqrtPermute : (perms : List ℕ) → Prog String σ Unit

namespace OramService

/-- What a client is told when the server process dies in a handler. -/
def connectionLost (_ : Exit) : String := "Socket closed"

/-- `OramService::ReadSqrtMemory`, past the checks of the header. -/
def readSqrtMemory (readFrom : SqrtArea) (tag : ℕ) :
    Prog String (SqrtOramServerStorage C) (Option C.Sealed) := fun s =>
  if s.check tag readFrom = false then
    (.error s!"Sanity check failed. Read type is {readFrom.code}, tag is {tag}.", s)
  else
    Prog.mapError connectionLost (match readFrom with
      | .kShelter => SqrtOramServerStorage.readBlockFromShelter tag
      | .kMainMemory => SqrtOramServerStorage.readBlockFromMain tag
      | .kDummy => SqrtOramServerStorage.readBlockFromDummy tag) s

/-- The stub of a client whose requests all reach one storage. -/
def sqrtStub (C : Codec D) : SqrtStub C (SqrtOramServerStorage C) where
  loadSqrtOram := fun data => Prog.mapError connectionLost (SqrtOramServerStorage.fill data)
  readSqrtMemory := readSqrtMemory
  writeSqrtMemory := fun pos content =>
    Prog.mapError connectionLost (SqrtOramServerStorage.writeBlockToShelter pos content)
  sqrtPermute := fun perms => Prog.mapError connectionLost (SqrtOramServerStorage.doPermute perms)

end OramService

/-! ## Permutations

`DoPermute` copies: word `i` goes to place `perm[i]` of a clone. If `perm` is a
permutation every place is written once, and otherwise some are left as they were. -/

/-- Storing values at distinct places: each is found where it was put. -/
theorem foldl_set_of_mem {α : Type} {ps : List (ℕ × α)} :
    ∀ (clone : List α), (ps.map Prod.fst).Nodup → (∀ p ∈ ps, p.1 < clone.length) →
      (∀ p ∈ ps, (ps.foldl (fun clone p => clone.set p.1 p.2) clone)[p.1]? = some p.2) ∧
        ∀ i, (∀ p ∈ ps, p.1 ≠ i) →
          (ps.foldl (fun clone p => clone.set p.1 p.2) clone)[i]? = clone[i]? := by
  induction ps with
  | nil =>
    intro clone _ _
    exact ⟨fun p hp => absurd hp List.not_mem_nil, fun i _ => rfl⟩
  | cons p ps ih =>
    intro clone hnodup hlt
    rw [List.map_cons, List.nodup_cons] at hnodup
    obtain ⟨hmem, hother⟩ := ih (clone.set p.1 p.2) hnodup.2 fun q hq => by
      rw [List.length_set]
      exact hlt q (List.mem_cons_of_mem _ hq)
    refine ⟨fun q hq => ?_, fun i hi => ?_⟩
    · rcases List.mem_cons.mp hq with rfl | hq
      · rw [List.foldl_cons, hother q.1 fun r hr he => hnodup.1 (he ▸ List.mem_map_of_mem hr)]
        exact List.getElem?_set_self (hlt q List.mem_cons_self)
      · exact hmem q hq
    · rw [List.foldl_cons, hother i fun q hq => hi q (List.mem_cons_of_mem _ hq)]
      exact List.getElem?_set_ne (hi p List.mem_cons_self)

theorem lt_length_of_perm {perm : List ℕ} {n : ℕ} (hperm : perm.Perm (List.range n)) :
    ∀ t ∈ perm, t < perm.length := by
  intro t ht
  rw [hperm.length_eq, List.length_range]
  exact List.mem_range.mp (hperm.mem_iff.mp ht)

/-- A permutation keeps the number of words. -/
theorem length_permuteBy {α : Type} (perm : List ℕ) (arr : List α) :
    (permuteBy perm arr).length = arr.length := by
  have hlen : ∀ (ps : List (ℕ × α)) (clone : List α),
      (ps.foldl (fun clone p => clone.set p.1 p.2) clone).length = clone.length := by
    intro ps
    induction ps with
    | nil => exact fun _ => rfl
    | cons p ps ih => exact fun clone => (ih _).trans (List.length_set)
  exact hlen _ _

/-- Under a permutation, element `i` is found at place `perm[i]`. -/
theorem getElem?_permuteBy {α : Type} {perm : List ℕ} {arr : List α}
    (hperm : perm.Perm (List.range arr.length)) {i t : ℕ} (ht : perm[i]? = some t) :
    (permuteBy perm arr)[t]? = arr[i]? := by
  have hlen : perm.length = arr.length := hperm.length_eq.trans List.length_range
  have hi : i < arr.length := hlen ▸ (List.getElem?_eq_some_iff.mp ht).1
  have hkeys : (perm.zip arr).map Prod.fst = perm := List.map_fst_zip (Nat.le_of_eq hlen)
  have hpair : (t, arr[i]) ∈ perm.zip arr := by
    refine List.mem_iff_getElem?.mpr ⟨i, ?_⟩
    rw [List.getElem?_zip_eq_some]
    exact ⟨ht, List.getElem?_eq_getElem hi⟩
  have hstored := (foldl_set_of_mem arr
    (hkeys.symm ▸ hperm.nodup_iff.mpr List.nodup_range) fun p hp => by
      have hmem : p.1 ∈ perm := hkeys ▸ List.mem_map_of_mem hp
      exact List.mem_range.mp (hperm.mem_iff.mp hmem)).1 _ hpair
  rw [permuteBy, hstored, List.getElem?_eq_getElem hi]

end ObliviousRam
