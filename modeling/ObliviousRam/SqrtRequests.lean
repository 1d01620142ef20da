import ObliviousRam.OramServer

set_option autoImplicit false

/-!
# The square-root storage under arbitrary requests

A client of its own asks for slots that exist and writes words under tags that exist. The server
takes any request: what `Check` lets through, any tag, any string, any vector of perms.

* `DoPermute` merges and permutes without loss: the last occupied slot of a tag wins.
* `Within` is what a request has to meet in the state it finds for all of its indices to be in
  range, in its handler and, as far as the shelter is concerned, in the next `DoPermute`. In
  every state that such requests lead to, the condition is exact.

What carries the second is `TagsInRange`: the occupied slots are tagged with words.
-/

namespace ObliviousRam

variable {D : Type} {C : Codec D}

namespace SqrtOramServerStorage

/-! ## The merge of the shelter

`DoPermute` walks through the slots and writes each occupied one to the word of its tag.
What is there afterwards is told by the last slot of each tag. -/

/-- A slot that `DoPermute` takes into account: it has a tag and a string. -/
def occupied (slot : ℕ × Option C.Sealed) : Bool := slot.1 != kInvalidMask && slot.2.isSome

/-- The last occupied slot under a tag. -/
def lastOccupied (tag : ℕ) (slots : List (ℕ × Option C.Sealed)) : Option (ℕ × Option C.Sealed) :=
  (slots.filter fun slot => occupied slot && slot.1 == tag).getLast?

/-- The tags of the occupied slots are below `n`. -/
def TagsBelow (n : ℕ) (slots : List (ℕ × Option C.Sealed)) : Prop :=
  ∀ slot ∈ slots, occupied slot = true → slot.1 < n

variable {slot : ℕ × Option C.Sealed} {slots : List (ℕ × Option C.Sealed)}

/-- A free slot is not occupied. -/
@[simp]
theorem occupied_freeSlot : occupied (freeSlot C) = false := by simp [occupied, freeSlot]

theorem lastOccupied_cons (tag : ℕ) :
    lastOccupied tag (slot :: slots) =
      (lastOccupied tag slots).or (if occupied slot && slot.1 == tag then some slot else none) := by
  simp only [lastOccupied, List.filter_cons]
  split
  · rw [List.getLast?_cons]
    cases (slots.filter fun slot => occupied slot && slot.1 == tag).getLast? with
    | none => rfl
    | some last => rfl
  · rw [Option.or_none]

theorem mergeShelter_skip (h : occupied slot = false)
    (md : List (Option C.Sealed) × List (Option C.Sealed)) :
    mergeShelter (slot :: slots) md = mergeShelter slots md := by
  obtain ⟨tag, _ | c⟩ := slot
  · rfl
  · have htag : tag = kInvalidMask := by simpa [occupied] using h
    rw [mergeShelter, if_pos htag]

variable (slots) in
/-- An occupied slot goes to the word behind its tag, in main memory or in the dummies. -/
theorem mergeShelter_store (h : occupied slot = true) {main dummy : List (Option C.Sealed)}
    (htag : slot.1 < main.length + dummy.length) :
    ∃ md : List (Option C.Sealed) × List (Option C.Sealed),
      mergeShelter (slot :: slots) (main, dummy) = mergeShelter slots md ∧
        md.1.length = main.length ∧ md.2.length = dummy.length ∧
        md.1 ++ md.2 = (main ++ dummy).set slot.1 slot.2 := by
  obtain ⟨tag, _ | c⟩ := slot
  · simp [occupied] at h
  · have hmask : tag ≠ kInvalidMask := by simpa [occupied] using h
    rw [mergeShelter, if_neg hmask, List.set_append]
    by_cases hmain : tag < main.length
    · rw [if_pos hmain]
      exact ⟨(main.set tag (some c), dummy), rfl, List.length_set, rfl, (if_pos hmain).symm⟩
    · have hdummy : tag - main.length < dummy.length := by
        simp only at htag
        omega
      rw [if_neg hmain, if_pos hdummy]
      exact ⟨(main, dummy.set (tag - main.length) (some c)), rfl, rfl, List.length_set,
        (if_neg hmain).symm⟩

/-- An occupied slot with a tag that names no word is written out of range. -/
theorem mergeShelter_out_of_range (h : occupied slot = true)
    {main dummy : List (Option C.Sealed)} (htag : main.length + dummy.length ≤ slot.1) :
    mergeShelter (slot :: slots) (main, dummy) = none := by
  obtain ⟨tag, _ | c⟩ := slot
  · simp [occupied] at h
  · have hmask : tag ≠ kInvalidMask := by simpa [occupied] using h
    simp only at htag
    rw [mergeShelter, if_neg hmask, if_neg (by omega), if_neg (by omega)]

/-- Word by word, the merge takes what the last occupied slot of the tag has. -/
theorem mergeShelter_spec {main dummy : List (Option C.Sealed)}
    (htags : TagsBelow (main.length + dummy.length) slots) :
    ∃ md : List (Option C.Sealed) × List (Option C.Sealed),
      mergeShelter slots (main, dummy) = some md ∧
        md.1.length = main.length ∧ md.2.length = dummy.length ∧
        ∀ t, t < main.length + dummy.length →
          (md.1 ++ md.2)[t]? = ((lastOccupied t slots).map Prod.snd).or (main ++ dummy)[t]? := by
  induction slots generalizing main dummy with
  | nil => exact ⟨(main, dummy), rfl, rfl, rfl, fun t _ => rfl⟩
  | cons slot slots ih =>
    have hrest : TagsBelow (main.length + dummy.length) slots :=
      fun e he => htags e (List.mem_cons_of_mem _ he)
    cases hocc : occupied slot with
    | false =>
      obtain ⟨md, hmerge, hmain, hdummy, hword⟩ := ih hrest
      refine ⟨md, (mergeShelter_skip hocc _).trans hmerge, hmain, hdummy, fun t ht => ?_⟩
      rw [hword t ht, lastOccupied_cons, hocc]
      simp
    | true =>
      have htag := htags slot List.mem_cons_self hocc
      obtain ⟨md₁, hstore, hmain₁, hdummy₁, hset⟩ :=
        mergeShelter_store slots hocc htag
      rw [← hmain₁, ← hdummy₁] at hrest
      obtain ⟨md, hmerge, hmain, hdummy, hword⟩ := ih hrest
      refine ⟨md, hstore.trans hmerge, hmain.trans hmain₁, hdummy.trans hdummy₁, fun t ht => ?_⟩
      rw [hword t (by rw [hmain₁, hdummy₁]; exact ht), lastOccupied_cons, hocc, hset]
      by_cases hslot : slot.1 = t
      · have hlt : slot.1 < (main ++ dummy).length := by
          rw [List.length_append]
          exact htag
        subst hslot
        rw [List.getElem?_set_self hlt]
        cases lastOccupied slot.1 slots <;> simp
      · rw [List.getElem?_set_ne hslot]
        simp [hslot]

/-- The merge stays in range exactly if the tags do. -/
theorem mergeShelter_ne_none_iff {main dummy : List (Option C.Sealed)} :
    mergeShelter slots (main, dummy) ≠ none ↔ TagsBelow (main.length + dummy.length) slots := by
  refine ⟨fun h => ?_, fun htags => ?_⟩
  · induction slots generalizing main dummy with
    | nil => exact fun e he => absurd he List.not_mem_nil
    | cons slot slots ih =>
      cases hocc : occupied slot with
      | false =>
        rw [mergeShelter_skip hocc] at h
        intro e he hin
        rcases List.mem_cons.mp he with rfl | he
        · exact absurd hin (by rw [hocc]; exact Bool.false_ne_true)
        · exact ih h e he hin
      | true =>
        have htag : slot.1 < main.length + dummy.length :=
          Nat.lt_of_not_le fun hge => h (mergeShelter_out_of_range hocc hge)
        obtain ⟨md, hstore, hmain, hdummy, -⟩ := mergeShelter_store slots hocc htag
        rw [hstore] at h
        intro e he hin
        rcases List.mem_cons.mp he with rfl | he
        · exact htag
        · have hrest := ih h e he hin
          rwa [hmain, hdummy] at hrest
  · obtain ⟨md, hmerge, -⟩ := mergeShelter_spec htags
    rw [hmerge]
    exact Option.some_ne_none md

/-! ## `DoPermute` -/

variable {s : SqrtOramServerStorage C}

/-- The number of words. -/
def words (s : SqrtOramServerStorage C) : ℕ := s.mainMemory.length + s.dummy.length

/-- The occupied slots are tagged with words. -/
def TagsInRange (s : SqrtOramServerStorage C) : Prop := TagsBelow s.words s.shelter

/-- **`DoPermute` merges and permutes without loss.** Behind `perm[t]` is then what the last
occupied slot of tag `t` had, or the old word `t` if there is none. -/
theorem doPermute_merges (htags : s.TagsInRange) {perm : List ℕ}
    (hperm : perm.Perm (List.range s.words)) :
    ∃ s', doPermute perm s = (.ok (), s') ∧
      s'.mainMemory.length = s.mainMemory.length ∧ s'.dummy.length = s.dummy.length ∧
      s'.shelter.length = s.shelter.length ∧ (∀ slot ∈ s'.shelter, slot = freeSlot C) ∧
      ∀ t, t < s.words → (s'.mainMemory ++ s'.dummy)[perm.getD t 0]? =
        ((lastOccupied t s.shelter).map Prod.snd).or (s.mainMemory ++ s.dummy)[t]? := by
  obtain ⟨md, hmerge, hmain, hdummy, hword⟩ := mergeShelter_spec htags
  have hlen : perm.length = s.words := hperm.length_eq.trans List.length_range
  have hlength : (md.1 ++ md.2).length = s.words := by
    rw [List.length_append, hmain, hdummy, words]
  refine ⟨_, doPermute_ok hlen hmerge (lt_length_of_perm hperm), ?_, ?_, List.length_map _,
    fun slot hslot => ?_, fun t ht => ?_⟩
  · simp only [List.length_take, length_permuteBy, List.length_append, hmain]
    exact Nat.min_eq_left (Nat.le_add_right _ _)
  · simp only [List.length_drop, length_permuteBy, List.length_append, hmain, hdummy]
    exact Nat.add_sub_cancel_left _ _
  · obtain ⟨_, -, rfl⟩ := List.mem_map.mp hslot
    rfl
  · have hget : perm[t]? = some (perm.getD t 0) := by
      rw [List.getD_eq_getElem?_getD, List.getElem?_eq_getElem (by omega), Option.getD_some]
    rw [List.take_append_drop, getElem?_permuteBy (hlength ▸ hperm) hget]
    exact hword t ht

/-- A word. -/
def word (data : ℕ) : OramBlock ℕ := ⟨⟨data, .kNormal, 1⟩, data⟩

/-- Two words and two entries of the shelter for the first one. -/
def twoEntries : SqrtOramServerStorage (Codec.plain ℕ) where
  capacity := 1
  mainMemory := [some (word 0)]
  shelter := [(0, some (word 2)), (kInvalidMask, none), (0, some (word 3))]
  dummy := [some (word 1)]

theorem doPermute_merges_twoEntries :
    ∃ s', doPermute [1, 0] twoEntries = (.ok (), s') ∧
      s'.mainMemory.length = 1 ∧ s'.dummy.length = 1 ∧
      s'.shelter.length = 3 ∧ (∀ slot ∈ s'.shelter, slot = freeSlot (Codec.plain ℕ)) ∧
      ∀ t, t < 2 → (s'.mainMemory ++ s'.dummy)[[1, 0].getD t 0]? =
        ((lastOccupied t twoEntries.shelter).map Prod.snd).or
          (twoEntries.mainMemory ++ twoEntries.dummy)[t]? := by
  have htags : twoEntries.TagsInRange := by
    intro slot hslot _
    simp only [twoEntries, List.mem_cons, List.not_mem_nil, or_false] at hslot
    rcases hslot with rfl | rfl | rfl
    · decide
    · contradiction
    · decide
  exact doPermute_merges htags (by decide)

end SqrtOramServerStorage

/-! ## Requests -/

/-- A request to a square-root storage whose header has passed the checks. -/
inductive SqrtRpc (C : Codec D) where
  | loadSqrtOram (contents : List (Option C.Sealed))
  | readSqrtMemory (readFrom tag : ℕ)
  | writeSqrtMemory (pos : ℕ) (content : Option C.Sealed)
  | sqrtPermute (perms : List ℕ)

namespace SqrtRpc

open SqrtOramServerStorage

/-- What its handler does to the storage. -/
def serve : SqrtRpc C → Prog HandlerExit (SqrtOramServerStorage C) (OramResponse C)
  | loadSqrtOram contents => OramServer.loadSqrtWork contents
  | readSqrtMemory readFrom tag => OramServer.readSqrtWork readFrom tag
  | writeSqrtMemory pos content => OramServer.writeSqrtWork pos content
  | sqrtPermute perms => OramServer.sqrtPermuteWork perms

/-- A state from which no permutation of the words leads `DoPermute` out of range. -/
def PermuteInRange (s : SqrtOramServerStorage C) : Prop :=
  ∀ perm, perm.Perm (List.range s.words) →
    Prog.survive HandlerExit.fatal (sqrtPermute perm).serve s ≠ none

/-- No index of the request is out of range, and no `PANIC` is reached: not in its handler, nor in
the `DoPermute` that follows it. -/
def InBounds (r : SqrtRpc C) (s : SqrtOramServerStorage C) : Prop :=
  ∃ out s', Prog.survive HandlerExit.fatal r.serve s = some (out, s') ∧ PermuteInRange s'

/-- The condition on request and storage. -/
def Within : SqrtRpc C → SqrtOramServerStorage C → Prop
  | loadSqrtOram _, _ => True
  | readSqrtMemory readFrom tag, s =>
    match OramServer.areaOfCode readFrom with
    | some .kShelter => tag < s.shelter.length
    | some .kMainMemory => tag ≠ s.words
    | some .kDummy => tag < s.dummy.length
    | none => True
  | writeSqrtMemory pos content, s =>
    freeSlot C ∈ s.shelter ∧ (occupied (pos, content) = true → pos < s.words)
  | sqrtPermute perms, s => perms.length = s.words ∧ ∀ t ∈ perms, t < s.words

variable {s s' : SqrtOramServerStorage C}

/-! ### What a request leads to

For each request, its outcome in any state: a status of `Check`, the end of a handler,
or an index out of range. -/

/-- A handler whose call returns. -/
theorem survive_call {α : Type} {call : Prog Exit (SqrtOramServerStorage C) α} {a : α}
    (hcall : call s = (.ok a, s')) (f : α → OramResponse C) :
    Prog.survive HandlerExit.fatal (do
      let a ← Prog.mapError (HandlerExit.ofExit "") call
      pure (f a)) s = some (.ok (f a), s') :=
  Prog.survive_ok (Prog.bind_ok (Prog.mapError_ok hcall))

/-- A handler whose call does not. -/
theorem survive_call_fatal {α : Type} {call : Prog Exit (SqrtOramServerStorage C) α} {e : Exit}
    (hcall : call s = (.error e, s')) (he : e.fatal = true) (f : α → OramResponse C) :
    Prog.survive HandlerExit.fatal (do
      let a ← Prog.mapError (HandlerExit.ofExit "") call
      pure (f a)) s = none := by
  rw [Prog.survive, Prog.bind_error (Prog.mapError_error hcall)]
  cases e with
  | status st => cases he
  | abort why => rfl
  | undefined why => rfl

theorem tagsBelow_cons {n : ℕ} {slot : ℕ × Option C.Sealed}
    {slots : List (ℕ × Option C.Sealed)} :
    TagsBelow n (slot :: slots) ↔ (occupied slot = true → slot.1 < n) ∧ TagsBelow n slots :=
  List.forall_mem_cons

/-- Free slots have no tags to speak of. -/
theorem tagsBelow_of_free {n : ℕ} {slots : List (ℕ × Option C.Sealed)}
    (hfree : ∀ slot ∈ slots, slot = freeSlot C) : TagsBelow n slots := by
  intro slot hslot hocc
  rw [hfree slot hslot, occupied_freeSlot] at hocc
  cases hocc

/-- `DoPermute` can follow exactly if the tags are in range. -/
theorem permuteInRange_iff : PermuteInRange s ↔ s.TagsInRange := by
  constructor
  · intro h
    have hsurvive := h (List.range s.words) (List.Perm.refl _)
    refine mergeShelter_ne_none_iff.mp fun hmerge => hsurvive ?_
    have hcall : doPermute (List.range s.words) s =
        (.error (.undefined "dummy_[tag - main_memory_.size()] is out of range"), s) := by
      rw [doPermute, if_neg (by rw [List.length_range]; exact not_not.mpr rfl), hmerge]
    exact survive_call_fatal hcall rfl fun _ => .empty
  · intro hs perm hperm hsurvive
    obtain ⟨s', hcall, -⟩ := doPermute_merges hs hperm
    cases (survive_call hcall fun _ => OramResponse.empty).symm.trans hsurvive

/-- A handler whose call either returns, and leaves the tags in range, or does not return. -/
theorem call_iff {α : Type} {call : Prog Exit (SqrtOramServerStorage C) α} {cond : Prop}
    (f : α → OramResponse C)
    (hcall : (cond ∧ ∃ a s', call s = (.ok a, s') ∧ s'.TagsInRange) ∨
      (¬cond ∧ ∃ e, e.fatal = true ∧ call s = (.error e, s))) :
    (∃ out s', Prog.survive HandlerExit.fatal (do
        let a ← Prog.mapError (HandlerExit.ofExit "") call
        pure (f a)) s = some (out, s') ∧ PermuteInRange s') ↔ cond := by
  rcases hcall with ⟨hcond, a, s', hok, htags⟩ | ⟨hcond, e, he, herror⟩
  · exact iff_of_true ⟨_, _, survive_call hok f, permuteInRange_iff.mpr htags⟩ hcond
  · refine iff_of_false ?_ hcond
    rintro ⟨out, s', hsurvive, -⟩
    cases (survive_call_fatal herror he f).symm.trans hsurvive

theorem inBounds_loadSqrtOram (hs : s.TagsInRange) (contents : List (Option C.Sealed)) :
    InBounds (loadSqrtOram contents) s := by
  have hwords : s.words ≤ (fillStrings contents s).2.words := by
    simp only [fillStrings, Prog.modify, words, List.length_append]
    omega
  refine ⟨.ok .empty, (fillStrings contents s).2, Prog.survive_ok rfl,
    permuteInRange_iff.mpr fun slot hslot hocc => ?_⟩
  rcases List.mem_append.mp hslot with hold | hnew
  · exact Nat.lt_of_lt_of_le (hs slot hold hocc) hwords
  · obtain ⟨_, -, rfl⟩ := List.mem_map.mp hnew
    rw [occupied_freeSlot] at hocc
    cases hocc

theorem readBlockFromDummy_cases (pos : ℕ) (s : SqrtOramServerStorage C) :
    (pos < s.dummy.length ∧ ∃ data, readBlockFromDummy pos s = (.ok data, s)) ∨
      (s.dummy.length ≤ pos ∧
        readBlockFromDummy pos s = (.error (.undefined "dummy_[pos] is out of range"), s)) := by
  rw [readBlockFromDummy]
  rcases Nat.lt_or_ge pos s.dummy.length with hlt | hge
  · rw [List.getElem?_eq_getElem hlt]
    exact .inl ⟨hlt, _, rfl⟩
  · rw [List.getElem?_eq_none hge]
    exact .inr ⟨hge, rfl⟩

theorem readBlockFromMain_cases (pos : ℕ) (s : SqrtOramServerStorage C) :
    (pos < s.words ∧ ∃ data, readBlockFromMain pos s = (.ok data, s)) ∨
      (s.words ≤ pos ∧
        readBlockFromMain pos s = (.error (.undefined "dummy_[pos] is out of range"), s)) := by
  rw [readBlockFromMain]
  rcases Nat.lt_or_ge pos s.mainMemory.length with hlt | hge
  · rw [List.getElem?_eq_getElem hlt]
    exact .inl ⟨Nat.lt_add_right _ hlt, _, rfl⟩
  · rw [List.getElem?_eq_none hge]
    refine (readBlockFromDummy_cases (pos - s.mainMemory.length) s).imp ?_ ?_
    · rintro ⟨hdummy, hread⟩
      exact ⟨by rw [words]; omega, hread⟩
    · rintro ⟨hdummy, hread⟩
      exact ⟨by rw [words]; omega, hread⟩

/-- Reading a slot of the shelter frees it. -/
theorem readBlockFromShelter_cases (pos : ℕ) (s : SqrtOramServerStorage C) :
    (pos < s.shelter.length ∧ ∃ data, readBlockFromShelter pos s =
        (.ok data, { s with shelter := s.shelter.set pos (freeSlot C) })) ∨
      (s.shelter.length ≤ pos ∧
        readBlockFromShelter pos s = (.error (.undefined "shelter_[pos] is out of range"), s)) := by
  rw [readBlockFromShelter]
  rcases Nat.lt_or_ge pos s.shelter.length with hlt | hge
  · rw [List.getElem?_eq_getElem hlt]
    exact .inl ⟨hlt, _, rfl⟩
  · rw [List.getElem?_eq_none hge]
    exact .inr ⟨hge, rfl⟩

/-- The area is one that `Check` lets the tag through to. -/
theorem serve_readSqrtMemory {readFrom tag : ℕ} {area : SqrtArea}
    (harea : OramServer.areaOfCode readFrom = some area) (hcheck : s.check tag area = true) :
    (readSqrtMemory readFrom tag).serve s = (do
      let block ← Prog.mapError (HandlerExit.ofExit "") (match area with
        | .kShelter => readBlockFromShelter tag
        | .kMainMemory => readBlockFromMain tag
        | .kDummy => readBlockFromDummy tag)
      pure (OramResponse.content block) : Prog HandlerExit _ _) s := by
  cases area <;> simp only [serve, OramServer.readSqrtWork, harea, Option.filter_some, hcheck, if_true]

theorem serve_readSqrtMemory_refused {readFrom tag : ℕ}
    (harea : (OramServer.areaOfCode readFrom).filter (s.check tag) = none) :
    ∃ st, (readSqrtMemory readFrom tag).serve s = (.error (.status st), s) := by
  simp only [serve, OramServer.readSqrtWork, harea]
  exact ⟨_, rfl⟩

theorem inBounds_of_refused (hs : s.TagsInRange) {readFrom tag : ℕ}
    (harea : (OramServer.areaOfCode readFrom).filter (s.check tag) = none) :
    InBounds (readSqrtMemory readFrom tag) s := by
  obtain ⟨st, hrun⟩ := serve_readSqrtMemory_refused harea
  exact ⟨_, _, Prog.survive_error hrun rfl, permuteInRange_iff.mpr hs⟩

/-- A read of the shelter or of a dummy is in range if there is one of that number, and
a read of main memory if its tag is not the number of words. -/
theorem inBounds_readSqrtMemory_iff (hs : s.TagsInRange) (readFrom tag : ℕ) :
    InBounds (readSqrtMemory readFrom tag) s ↔ Within (readSqrtMemory readFrom tag) s := by
  cases harea : OramServer.areaOfCode readFrom with
  | none =>
    simp only [Within, harea, iff_true]
    exact inBounds_of_refused hs (by rw [harea]; rfl)
  | some area =>
    cases hcheck : s.check tag area with
    | false =>
      refine iff_of_true (inBounds_of_refused hs (by simp [harea, hcheck])) ?_
      cases area with
      | kShelter => cases hcheck
      | kDummy => cases hcheck
      | kMainMemory =>
        have hgt : ¬ tag ≤ s.words := by simpa [check, words] using hcheck
        simp only [Within, harea]
        omega
    | true =>
      simp only [InBounds, Prog.survive, serve_readSqrtMemory harea hcheck, Within, harea]
      cases area with
      | kShelter =>
        refine call_iff _ ?_
        rcases readBlockFromShelter_cases tag s with ⟨hlt, data, hread⟩ | ⟨hge, hread⟩
        · refine .inl ⟨hlt, data, _, hread, fun slot hslot hocc => ?_⟩
          rcases List.mem_or_eq_of_mem_set hslot with hold | rfl
          · exact hs slot hold hocc
          · rw [occupied_freeSlot] at hocc
            cases hocc
        · exact .inr ⟨Nat.not_lt.mpr hge, _, rfl, hread⟩
      | kMainMemory =>
        have hle : tag ≤ s.words := by simpa [check, words] using hcheck
        refine call_iff _ ?_
        rcases readBlockFromMain_cases tag s with ⟨hlt, data, hread⟩ | ⟨hge, hread⟩
        · exact .inl ⟨Nat.ne_of_lt hlt, data, s, hread, hs⟩
        · exact .inr ⟨not_not.mpr (Nat.le_antisymm hle hge), _, rfl, hread⟩
      | kDummy =>
        refine call_iff _ ?_
        rcases readBlockFromDummy_cases tag s with ⟨hlt, data, hread⟩ | ⟨hge, hread⟩
        · exact .inl ⟨hlt, data, s, hread, hs⟩
        · exact .inr ⟨Nat.not_lt.mpr hge, _, rfl, hread⟩

/-- `WriteBlockToShelter` needs a free slot, and puts the word there. -/
theorem putFirstFree_cases (tag : ℕ) (data : Option C.Sealed)
    (slots : List (ℕ × Option C.Sealed)) :
    (freeSlot C ∉ slots ∧ putFirstFree tag data slots = none) ∨
      (freeSlot C ∈ slots ∧ ∃ slots', putFirstFree tag data slots = some slots' ∧
        ∀ n, TagsBelow n slots' ↔ (occupied (tag, data) = true → tag < n) ∧ TagsBelow n slots) := by
  induction slots with
  | nil => exact .inl ⟨List.not_mem_nil, rfl⟩
  | cons slot slots ih =>
    by_cases hfree : slot = freeSlot C
    · subst hfree
      refine .inr ⟨List.mem_cons_self, (tag, data) :: slots, by simp [putFirstFree, freeSlot],
        fun n => ?_⟩
      rw [tagsBelow_cons, tagsBelow_cons]
      simp
    · have hput : putFirstFree tag data (slot :: slots) =
          (putFirstFree tag data slots).map (slot :: ·) := by
        obtain ⟨t, _ | c⟩ := slot
        · have ht : t ≠ kInvalidMask := fun he => hfree (by rw [he, freeSlot])
          simp only [putFirstFree, if_neg ht]
        · simp only [putFirstFree]
      rw [hput]
      rcases ih with ⟨hnone, hrun⟩ | ⟨hsome, slots', hrun, htags⟩
      · refine .inl ⟨fun hmem => ?_, by rw [hrun]; rfl⟩
        rcases List.mem_cons.mp hmem with heq | hmem
        · exact hfree heq.symm
        · exact hnone hmem
      · refine .inr ⟨List.mem_cons_of_mem _ hsome, slot :: slots', by rw [hrun]; rfl, fun n => ?_⟩
        rw [tagsBelow_cons, tagsBelow_cons, htags n]
        exact and_left_comm

/-- A write is in range if there is a free slot, and its tag names a word or the string is empty. -/
theorem inBounds_writeSqrtMemory_iff (hs : s.TagsInRange) (pos : ℕ) (content : Option C.Sealed) :
    InBounds (writeSqrtMemory pos content) s ↔ Within (writeSqrtMemory pos content) s := by
  rcases putFirstFree_cases pos content s.shelter with ⟨hnone, hput⟩ | ⟨hsome, slots, hput, htags⟩
  · refine call_iff _ (.inr ⟨fun h => hnone h.1, .abort ("No available space in the shelter." ++
      " This is an internal logic error."), rfl, ?_⟩)
    rw [writeToShelter, hput]
  · have hcall : writeToShelter pos content s = (.ok (), { s with shelter := slots }) := by
      rw [writeToShelter, hput]
    have hok := survive_call hcall fun _ => OramResponse.empty
    constructor
    · rintro ⟨out, s', hsurvive, hpermute⟩
      cases hok.symm.trans hsurvive
      exact ⟨hsome, ((htags s.words).mp (permuteInRange_iff.mp hpermute)).1⟩
    · rintro ⟨-, hpos⟩
      exact ⟨_, _, hok, permuteInRange_iff.mpr ((htags s.words).mpr ⟨hpos, hs⟩)⟩

/-- A permutation is in range if it has an entry for every word and each of them names one. -/
theorem inBounds_sqrtPermute_iff (hs : s.TagsInRange) (perms : List ℕ) :
    InBounds (sqrtPermute perms) s ↔ Within (sqrtPermute perms) s := by
  obtain ⟨md, hmerge, -⟩ := mergeShelter_spec hs
  refine call_iff _ ?_
  by_cases hwithin : Within (sqrtPermute perms) s
  · have hperm : ∀ t ∈ perms, t < perms.length := hwithin.1.symm ▸ hwithin.2
    refine .inl ⟨hwithin, (), _, doPermute_ok hwithin.1 hmerge hperm,
      tagsBelow_of_free fun slot hslot => ?_⟩
    obtain ⟨_, -, rfl⟩ := List.mem_map.mp hslot
    rfl
  · by_cases hlen : perms.length = s.mainMemory.length + s.dummy.length
    · have hout : ∃ t ∈ perms, perms.length ≤ t := by
        by_contra hall
        exact hwithin ⟨hlen, fun t ht => Nat.lt_of_not_le fun hge =>
          hall ⟨t, ht, hlen.trans_le hge⟩⟩
      refine .inr ⟨hwithin, .undefined "clone[perm[i]] is out of range", rfl, ?_⟩
      rw [doPermute, if_neg (not_not.mpr hlen), hmerge]
      exact if_pos hout
    · exact .inr ⟨hwithin, .abort "The permutation size is wrong!", rfl, if_pos hlen⟩

/-! ### Runs -/

/-- While the tags are in range, the condition is exact. -/
theorem inBounds_iff_within (hs : s.TagsInRange) (r : SqrtRpc C) :
    InBounds r s ↔ Within r s := by
  cases r with
  | loadSqrtOram contents => exact iff_of_true (inBounds_loadSqrtOram hs contents) trivial
  | readSqrtMemory readFrom tag => exact inBounds_readSqrtMemory_iff hs readFrom tag
  | writeSqrtMemory pos content => exact inBounds_writeSqrtMemory_iff hs pos content
  | sqrtPermute perms => exact inBounds_sqrtPermute_iff hs perms

/-- A request that meets it keeps the tags in range. -/
theorem tagsInRange_of_within (hs : s.TagsInRange) {r : SqrtRpc C} (hr : Within r s)
    {out : Except HandlerExit (OramResponse C)}
    (hsurvive : Prog.survive HandlerExit.fatal r.serve s = some (out, s')) : s'.TagsInRange := by
  obtain ⟨out', s'', hrun, hpermute⟩ := (inBounds_iff_within hs r).mpr hr
  cases hrun.symm.trans hsurvive
  exact permuteInRange_iff.mp hpermute

/-- **Which requests stay in bounds.** All requests of a run on a new storage do exactly if each
meets `Within` in the state it finds. -/
theorem inBounds_along_iff (capacity : ℕ) (rs : List (SqrtRpc C)) :
    Prog.Along HandlerExit.fatal serve InBounds rs (.new C capacity) ↔
      Prog.Along HandlerExit.fatal serve Within rs (.new C capacity) :=
  Prog.along_iff_of_invariant TagsInRange (fun r _ hs => inBounds_iff_within hs r)
    (fun _ _ _ _ hs hr hsurvive => tagsInRange_of_within hs hr hsurvive) rs
    fun _ hslot => absurd hslot List.not_mem_nil

/-- One word of main memory and one dummy; then main memory is asked for word 2, which `Check`
lets through. -/
theorem readSqrtMemory_not_inBounds :
    ¬ Prog.Along HandlerExit.fatal serve InBounds
      [loadSqrtOram [some (word 0), some (word 1)], readSqrtMemory 1 2]
      (.new (Codec.plain ℕ) 1) := by
  rintro ⟨-, hrest⟩
  obtain ⟨⟨out, s', hsurvive, -⟩, -⟩ := hrest _ _ (Prog.survive_ok (by rfl))
  cases hsurvive

end SqrtRpc

end ObliviousRam
