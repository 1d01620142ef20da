import ObliviousRam.SquareRootMemory
import Mathlib.Data.Finset.Card

set_option autoImplicit false

/-!
# Client and server agree on tags

The position map of the client and the placement of the words on the server are
two copies of one permutation: `UpdatePosition` composes it with the permutation
drawn, `PermuteBy` moves the words along it. `Tagged` says that the copies
agree, for any content of the shelter, and every part of an access keeps it.

The invariant is weaker than `Stored` in `SquareRootMemory`, which knows the one
word that the shelter holds; in return it does not depend on the types of the
blocks that are written or on the number of words.
-/

namespace ObliviousRam

open SqrtOramServerStorage

variable {D : Type} {C : Codec D} {K : SquareRootOramConfig}

namespace SqrtSystem

/-- Every address has a tag of its own, with its word behind it, and what is in
the shelter carries the tag of its address. -/
structure Tagged (K : SquareRootOramConfig)
    (w : SqrtSystem (SqrtOramServerStorage C)) : Prop where
  main_length : w.server.mainMemory.length = K.blockNum
  dummy_length : w.server.dummy.length = K.sqrtM
  word : ∀ a < K.words, ∃ t b, w.client.positionMap a = some t ∧ t < K.words ∧
    w.server.wordAt t = some b ∧ b.id = a
  absent : ∀ a, K.words ≤ a → w.client.positionMap a = none
  sheltered : ∀ t c, (t, some c) ∈ w.server.shelter →
    w.client.positionMap (C.decryptBlock c).2.id = some t

/-- What the two sides agree on. -/
structure TagsAgree (K : SquareRootOramConfig)
    (w : SqrtSystem (SqrtOramServerStorage C)) : Prop where
  /-- the keys of the map are the addresses -/
  keys : ∀ a, (w.client.positionMap a).isSome ↔ a < K.words
  bijective : Set.BijOn w.client.positionMap.index (Set.Iio K.words) (Set.Iio K.words)
  word : ∀ a < K.words, ∃ b,
    w.server.wordAt (w.client.positionMap.index a) = some b ∧ b.id = a
  sheltered : ∀ t c, (t, some c) ∈ w.server.shelter →
    w.client.positionMap (C.decryptBlock c).2.id = some t

namespace Tagged

variable {w : SqrtSystem (SqrtOramServerStorage C)}

theorem lt_words (hw : w.Tagged K) {a t : ℕ} (ht : w.client.positionMap a = some t) :
    a < K.words ∧ t < K.words := by
  have ha : a < K.words := by
    by_contra h
    rw [hw.absent a (Nat.not_lt.mp h)] at ht
    cases ht
  obtain ⟨s, b, hs, hlt, -⟩ := hw.word a ha
  cases ht.symm.trans hs
  exact ⟨ha, hlt⟩

/-- Words of different addresses have different tags. -/
theorem position_inj (hw : w.Tagged K) {a a' t : ℕ} (ha : w.client.positionMap a = some t)
    (ha' : w.client.positionMap a' = some t) : a = a' := by
  obtain ⟨s, b, hs, -, hb, hid⟩ := hw.word a (hw.lt_words ha).1
  obtain ⟨s', b', hs', -, hb', hid'⟩ := hw.word a' (hw.lt_words ha').1
  cases ha.symm.trans hs
  cases ha'.symm.trans hs'
  cases hb.symm.trans hb'
  exact hid.symm.trans hid'

/-- An injective map of the tags to themselves reaches them all. -/
theorem agree (hw : w.Tagged K) : w.TagsAgree K where
  keys := by
    intro a
    constructor
    · intro h
      obtain ⟨t, ht⟩ := Option.isSome_iff_exists.mp h
      exact (hw.lt_words ht).1
    · intro ha
      obtain ⟨t, b, ht, -⟩ := hw.word a ha
      simp [ht]
  bijective := by
    have hindex : ∀ a < K.words, w.client.positionMap a = some (w.client.positionMap.index a) := by
      intro a ha
      obtain ⟨t, b, ht, -⟩ := hw.word a ha
      simp [PositionMap.index, ht]
    have hmaps : Set.MapsTo w.client.positionMap.index (Finset.range K.words)
        (Finset.range K.words) := by
      intro a ha
      simp only [Finset.coe_range, Set.mem_Iio] at ha ⊢
      exact (hw.lt_words (hindex a ha)).2
    have hinj : Set.InjOn w.client.positionMap.index (Finset.range K.words) := by
      intro a ha a' ha' he
      simp only [Finset.coe_range, Set.mem_Iio] at ha ha'
      exact hw.position_inj (hindex a ha) (he ▸ hindex a' ha')
    have hbij : Set.BijOn w.client.positionMap.index (Finset.range K.words)
        (Finset.range K.words) :=
      ⟨hmaps, hinj, Finset.surjOn_of_injOn_of_card_le _ hmaps hinj le_rfl⟩
    simpa only [Finset.coe_range] using hbij
  word := by
    intro a ha
    obtain ⟨t, b, ht, -, hb, hid⟩ := hw.word a ha
    refine ⟨b, ?_, hid⟩
    simpa [PositionMap.index, ht] using hb
  sheltered := hw.sheltered

/-- Every tag belongs to an address. -/
theorem exists_address (hw : w.Tagged K) {t : ℕ} (ht : t < K.words) :
    ∃ a < K.words, w.client.positionMap a = some t := by
  obtain ⟨a, ha, hat⟩ := hw.agree.bijective.surjOn (Set.mem_Iio.mpr ht)
  obtain ⟨s, b, hs, -⟩ := hw.word a (Set.mem_Iio.mp ha)
  refine ⟨a, Set.mem_Iio.mp ha, ?_⟩
  rw [← hat, PositionMap.index, hs, Option.getD_some]

/-- The counters do not matter, and a shelter with less in it is no worse. -/
theorem change (hw : w.Tagged K) {client : SquareRootOramController}
    (hclient : client.positionMap = w.client.positionMap)
    {shelter : List (ℕ × Option C.Sealed)}
    (hshelter : ∀ t c, (t, some c) ∈ shelter →
      w.client.positionMap (C.decryptBlock c).2.id = some t) :
    Tagged K ⟨client, { w.server with shelter := shelter }⟩ where
  main_length := hw.main_length
  dummy_length := hw.dummy_length
  word := hclient ▸ hw.word
  absent := hclient ▸ hw.absent
  sheltered := hclient ▸ hshelter

end Tagged

/-- A `Tagged` system whose position map is `m`: what an access keeps until it permutes. -/
def TaggedBy (K : SquareRootOramConfig) (m : PositionMap)
    (w : SqrtSystem (SqrtOramServerStorage C)) : Prop :=
  w.Tagged K ∧ w.client.positionMap = m

theorem Stored.tagged {e : Option (ℕ × C.Sealed)} {w : SqrtSystem (SqrtOramServerStorage C)}
    (hw : w.Stored K e) : w.Tagged K where
  main_length := hw.main_length
  dummy_length := hw.dummy_length
  word := hw.word
  absent := hw.absent
  sheltered := by
    intro t c hc
    rw [hw.shelter_eq] at hc
    cases e with
    | none =>
      rw [shelterWith] at hc
      cases (List.eq_of_mem_replicate hc)
    | some e =>
      obtain ⟨s, d⟩ := e
      rw [shelterWith, List.mem_cons] at hc
      cases hc with
      | inl h =>
        cases h
        exact (hw.entry _ _ rfl).1
      | inr h => cases (List.eq_of_mem_replicate h)

end SqrtSystem

namespace SquareRootOramController

open SqrtSystem

variable {m : PositionMap}

/-! ## Until the permutation

All that an access does before the end of an epoch is in the shelter and in the
counters. The words stay where they are, and so does the map. -/

/-- A remote call that touches nothing but the shelter. -/
theorem keeps_remote {α : Type} {location : String}
    {call : Prog String (SqrtOramServerStorage C) α}
    (h : ∀ s, ∃ shelter, (call s).2 = { s with shelter := shelter } ∧
      ∀ t c, (t, some c) ∈ shelter →
        (t, some c) ∈ s.shelter ∨ m (C.decryptBlock c).2.id = some t) :
    Prog.Keeps (TaggedBy K m) (remote location call) := by
  rintro w ⟨hw, rfl⟩
  obtain ⟨shelter, hserver, hmem⟩ := h w.server
  have hafter : (remote location call w).2 =
      ⟨w.client, { w.server with shelter := shelter }⟩ := by
    rw [← hserver, remote]
    cases call w.server with
    | mk r server => cases r <;> rfl
  rw [hafter]
  refine ⟨hw.change rfl fun t c hc => ?_, rfl⟩
  cases hmem t c hc with
  | inl hold => exact hw.sheltered t c hold
  | inr hnew => exact hnew

/-- Any read leaves the memory alone, and of the shelter what it has not cleared. -/
theorem keeps_read (location : String) (area : SqrtArea) (pos : ℕ) :
    Prog.Keeps (TaggedBy (C := C) K m)
      (remote location ((OramService.sqrtStub C).readSqrtMemory area pos)) := by
  refine keeps_remote fun s => ?_
  show ∃ shelter, (OramService.readSqrtMemory area pos s).2 = _ ∧ _
  have hsame : ∃ shelter, s = { s with shelter := shelter } ∧
      ∀ t c, (t, some c) ∈ shelter →
        (t, some c) ∈ s.shelter ∨ m (C.decryptBlock c).2.id = some t :=
    ⟨s.shelter, rfl, fun t c hc => .inl hc⟩
  cases area with
  | kShelter =>
    rw [OramService.readSqrtMemory]
    split
    · exact hsame
    simp only [Prog.mapError, readBlockFromShelter]
    cases hslot : s.shelter[pos]? with
    | none => exact hsame
    | some e =>
      refine ⟨s.shelter.set pos (freeSlot C), rfl, fun t c hc => .inl ?_⟩
      cases List.mem_or_eq_of_mem_set hc with
      | inl h => exact h
      | inr h => cases h
  | kMainMemory =>
    rw [OramService.readSqrtMemory]
    split
    · exact hsame
    simp only [Prog.mapError, readBlockFromMain]
    cases s.mainMemory[pos]? with
    | none =>
      simp only [readBlockFromDummy]
      cases s.dummy[pos - s.mainMemory.length]? <;> exact hsame
    | some data => exact hsame
  | kDummy =>
    rw [OramService.readSqrtMemory]
    split
    · exact hsame
    simp only [Prog.mapError, readBlockFromDummy]
    cases s.dummy[pos]? <;> exact hsame

/-- The scan moves no word of the memory. -/
theorem keeps_scanShelter (address : ℕ) (is : List ℕ) (found : Option (OramBlock D)) :
    Prog.Keeps (TaggedBy (C := C) K m)
      (scanShelter (OramService.sqrtStub C) address is found) := by
  induction is generalizing found with
  | nil => exact .pure found
  | cons i is ih =>
    refine .bind (keeps_read _ _ _) fun content => ?_
    cases content with
    | none => exact ih found
    | some c => exact ih _

/-- A client that keeps its map keeps the tags. -/
theorem keeps_update {f : SquareRootOramController → SquareRootOramController}
    (h : ∀ c, (f c).positionMap = c.positionMap) :
    Prog.Keeps (TaggedBy (C := C) K m) (update (ε := Exit) f) := by
  rintro w ⟨hw, rfl⟩
  exact ⟨hw.change (h w.client) hw.sheltered, h w.client⟩

theorem keeps_readShelter (address : ℕ) :
    Prog.Keeps (TaggedBy (C := C) K m) (readShelter (OramService.sqrtStub C) K address) := by
  refine .bind (keeps_scanShelter _ _ _) fun found => ?_
  cases found with
  | none => exact .throw _
  | some b => exact .pure b

theorem keeps_readMain (pos : ℕ) :
    Prog.Keeps (TaggedBy (C := C) K m) (readMain (OramService.sqrtStub C) pos) := by
  refine .bind (keeps_read _ _ _) fun content => ?_
  cases content with
  | none => exact .throw _
  | some c => exact .pure _

theorem keeps_readDummy (pos : ℕ) :
    Prog.Keeps (TaggedBy (C := C) K m) (readDummy (OramService.sqrtStub C) pos) :=
  .bind (keeps_read _ _ _) fun _ => .pure ()

/-- The first half of an access keeps the tags. -/
theorem keeps_fetch (address position : ℕ) :
    Prog.Keeps (TaggedBy (C := C) K m)
      (fetch (OramService.sqrtStub C) K address position) := by
  refine .bind (keeps_readShelter address) fun inShelter => ?_
  split
  · exact .bind .get fun w => .bind (keeps_update fun _ => rfl) fun _ =>
      .bind (.mapError (keeps_readDummy _)) fun _ => .pure _
  · split
    · exact .throw _
    · exact .mapError (keeps_readMain position)
  · exact .throw _

/-! ### What is fetched is the block of the address -/

/-- Whatever the scan finds matches. -/
theorem scanShelter_id {σ : Type} {S : SqrtStub C σ} {address : ℕ} {is : List ℕ}
    {found r : Option (OramBlock D)} {w w' : SqrtSystem σ}
    (hrun : scanShelter S address is found w = (.ok r, w'))
    (hfound : ∀ b, found = some b → b.id = address) : ∀ b, r = some b → b.id = address := by
  induction is generalizing found w with
  | nil =>
    cases hrun
    exact hfound
  | cons i is ih =>
    obtain ⟨content, w₁, -, hrest⟩ := Prog.bind_eq_ok hrun
    cases content with
    | none => exact ih hrest hfound
    | some c =>
      refine ih hrest fun b hb => ?_
      split at hb
      next heq =>
        cases hb
        exact (blockEqual_iff.mp heq).1
      next => exact hfound b hb

theorem readShelter_id {σ : Type} {S : SqrtStub C σ} {address : ℕ} {b : OramBlock D}
    {w w' : SqrtSystem σ} (hrun : readShelter S K address w = (.ok b, w')) : b.id = address := by
  obtain ⟨found, w₁, hscan, hrest⟩ := Prog.bind_eq_ok hrun
  cases found with
  | none => cases hrest
  | some c =>
    cases hrest
    exact scanShelter_id hscan nofun _ rfl

/-- The word behind the tag of an address is the block of the address. -/
theorem readMain_id {w w' : SqrtSystem (SqrtOramServerStorage C)} (hw : w.Tagged K)
    {a t : ℕ} (ht : w.client.positionMap a = some t) {b : OramBlock D}
    (hrun : readMain (OramService.sqrtStub C) t w = (.ok b, w')) : b.id = a := by
  obtain ⟨s, b', hs, hlt, hb', hid⟩ := hw.word a (hw.lt_words ht).1
  cases ht.symm.trans hs
  obtain ⟨c, hc, hcb⟩ := getElem?_of_wordAt hb'
  obtain ⟨content, w₁, hread, hrest⟩ := Prog.bind_eq_ok hrun
  have hcontent : content = some c := by
    have hcheck : w.server.check t .kMainMemory = true := by
      rw [check, hw.main_length, hw.dummy_length]
      exact decide_eq_true (Nat.le_of_lt hlt)
    have hserver : (OramService.sqrtStub C).readSqrtMemory .kMainMemory t w.server =
        (.ok (some c), w.server) := by
      show OramService.readSqrtMemory .kMainMemory t w.server = _
      rw [OramService.readSqrtMemory, hcheck, if_neg Bool.false_ne_true.symm]
      apply Prog.mapError_ok
      rw [assembled, List.getElem?_append] at hc
      rw [readBlockFromMain]
      split at hc
      next => simp only [hc]
      next hmain =>
        rw [List.getElem?_eq_none (Nat.not_lt.mp hmain)]
        simp only [readBlockFromDummy, hc]
    have hsame := (remote_ok hserver).symm.trans hread
    cases hsame
    rfl
  subst hcontent
  cases hrest
  rw [hcb]
  exact hid

theorem fetch_id {w w' : SqrtSystem (SqrtOramServerStorage C)} (hw : w.Tagged K)
    {a t : ℕ} (ht : w.client.positionMap a = some t) {b : OramBlock D}
    (hrun : fetch (OramService.sqrtStub C) K a t w = (.ok b, w')) : b.id = a := by
  have hkeep := keeps_readShelter (C := C) (K := K) a w ⟨hw, rfl⟩
  rw [fetch, Prog.attempt_bind] at hrun
  cases hshelter : readShelter (OramService.sqrtStub C) K a w with
  | mk r w₁ =>
    rw [hshelter] at hrun hkeep
    obtain ⟨hw₁, hmap⟩ := hkeep
    cases r with
    | ok block =>
      -- what is found in the shelter is returned after the dummy read
      obtain ⟨_, w₂, -, hrest⟩ := Prog.bind_eq_ok hrun
      obtain ⟨_, w₃, -, hrest⟩ := Prog.bind_eq_ok hrest
      obtain ⟨_, w₄, -, hrest⟩ := Prog.bind_eq_ok hrest
      cases hrest
      exact readShelter_id hshelter
    | error e =>
      cases e with
      | status st =>
        simp only at hrun
        split at hrun
        · cases hrun
        · cases hmain : readMain (OramService.sqrtStub C) t w₁ with
          | mk r' w₂ =>
            rw [Prog.mapError, hmain] at hrun
            cases r' with
            | ok b' =>
              cases hrun
              exact readMain_id hw₁ (hmap ▸ ht) hmain
            | error e => cases hrun
      | abort why => cases hrun
      | undefined why => cases hrun

/-! ### The write to the shelter -/

/-- The first free slot takes the new entry, and the others stay. -/
theorem mem_of_writeFirstFree {tag : ℕ} {data : C.Sealed}
    {slots slots' : List (ℕ × Option C.Sealed)}
    (h : writeFirstFree tag data slots = some slots') {e : ℕ × Option C.Sealed}
    (he : e ∈ slots') : e ∈ slots ∨ e = (tag, some data) := by
  induction slots generalizing slots' with
  | nil => cases h
  | cons slot slots ih =>
    have hskip : ∀ {rest}, (writeFirstFree tag data slots).map (slot :: ·) = some rest →
        e ∈ rest → e ∈ slot :: slots ∨ e = (tag, some data) := by
      intro rest hrest hmem
      obtain ⟨tail, htail, rfl⟩ := Option.map_eq_some_iff.mp hrest
      cases List.mem_cons.mp hmem with
      | inl h => exact .inl (h ▸ List.mem_cons_self)
      | inr h => exact (ih htail h).imp_left (List.mem_cons_of_mem _)
    obtain ⟨t, content⟩ := slot
    cases content with
    | some c =>
      rw [writeFirstFree] at h
      exact hskip h he
    | none =>
      rw [writeFirstFree] at h
      split at h
      next =>
        cases h
        cases List.mem_cons.mp he with
        | inl h => exact .inr h
        | inr h => exact .inl (List.mem_cons_of_mem _ h)
      next => exact hskip h he

/-- A write under the tag of the block's own address. -/
theorem keeps_writeBlock {t : ℕ} {c : C.Sealed} (h : m (C.decryptBlock c).2.id = some t) :
    Prog.Keeps (TaggedBy K m) (writeBlock (OramService.sqrtStub C) t c) := by
  refine keeps_remote fun s => ?_
  simp only [OramService.sqrtStub, Prog.mapError, writeBlockToShelter]
  cases hwrite : writeFirstFree t c s.shelter with
  | none => exact ⟨s.shelter, rfl, fun t' c' hc' => .inl hc'⟩
  | some shelter =>
    refine ⟨shelter, rfl, fun t' c' hc' => ?_⟩
    cases mem_of_writeFirstFree hwrite hc' with
    | inl hold => exact .inl hold
    | inr hnew =>
      cases hnew
      exact .inr h

/-! ## The permutation

At the end of an epoch both sides move by the same permutation: the server the words,
after the merge, and the client the tags. -/

/-- The merge changes a word only to one that the shelter holds for its tag. -/
theorem getElem?_of_mergeShelter {slots : List (ℕ × Option C.Sealed)} :
    ∀ {main dummy : List (Option C.Sealed)} {md : List (Option C.Sealed) × List (Option C.Sealed)},
      mergeShelter slots (main, dummy) = some md →
      md.1.length = main.length ∧ md.2.length = dummy.length ∧
        ∀ t, (md.1 ++ md.2)[t]? = (main ++ dummy)[t]? ∨
          ∃ c, (t, some c) ∈ slots ∧ (md.1 ++ md.2)[t]? = some (some c) := by
  induction slots with
  | nil =>
    intro main dummy md h
    cases h
    exact ⟨rfl, rfl, fun t => .inl rfl⟩
  | cons slot slots ih =>
    intro main dummy md h
    obtain ⟨tag, content⟩ := slot
    -- the entry goes to the word behind its tag
    have hstep : ∀ {main' dummy' : List (Option C.Sealed)} {c : C.Sealed},
        tag < main.length + dummy.length →
        main'.length = main.length → dummy'.length = dummy.length →
        main' ++ dummy' = (main ++ dummy).set tag (some c) → content = some c →
        mergeShelter slots (main', dummy') = some md →
        md.1.length = main.length ∧ md.2.length = dummy.length ∧
          ∀ t, (md.1 ++ md.2)[t]? = (main ++ dummy)[t]? ∨
            ∃ c, (t, some c) ∈ (tag, content) :: slots ∧
              (md.1 ++ md.2)[t]? = some (some c) := by
      intro main' dummy' c htag hmain hdummy hset hcontent hmerge
      obtain ⟨hlen₁, hlen₂, hword⟩ := ih hmerge
      refine ⟨hlen₁.trans hmain, hlen₂.trans hdummy, fun t => ?_⟩
      cases hword t with
      | inl hsame =>
        rw [hset] at hsame
        by_cases ht : tag = t
        · subst ht
          rw [List.getElem?_set_self (by simpa using htag)] at hsame
          exact .inr ⟨c, by simp [hcontent], hsame⟩
        · rw [List.getElem?_set_ne ht] at hsame
          exact .inl hsame
      | inr hnew =>
        obtain ⟨c', hmem, hc'⟩ := hnew
        exact .inr ⟨c', List.mem_cons_of_mem _ hmem, hc'⟩
    have hskip : mergeShelter slots (main, dummy) = some md →
        md.1.length = main.length ∧ md.2.length = dummy.length ∧
          ∀ t, (md.1 ++ md.2)[t]? = (main ++ dummy)[t]? ∨
            ∃ c, (t, some c) ∈ (tag, content) :: slots ∧
              (md.1 ++ md.2)[t]? = some (some c) := by
      intro hmerge
      obtain ⟨hlen₁, hlen₂, hword⟩ := ih hmerge
      refine ⟨hlen₁, hlen₂, fun t => (hword t).imp_right ?_⟩
      rintro ⟨c', hmem, hc'⟩
      exact ⟨c', List.mem_cons_of_mem _ hmem, hc'⟩
    cases content with
    | none =>
      rw [mergeShelter] at h
      exact hskip h
    | some c =>
      rw [mergeShelter] at h
      split at h
      next => exact hskip h
      next =>
        split at h
        next hmain =>
          refine hstep (Nat.lt_add_right _ hmain) List.length_set rfl ?_ rfl h
          rw [List.set_append, if_pos hmain]
        next hmain =>
          split at h
          next hdummy =>
            refine hstep (by omega) rfl List.length_set ?_ rfl h
            rw [List.set_append, if_neg hmain]
          next => cases h

/-- The merge goes through if every tag in the shelter names a word. -/
theorem mergeShelter_total {slots : List (ℕ × Option C.Sealed)} :
    ∀ {main dummy : List (Option C.Sealed)},
      (∀ t c, (t, some c) ∈ slots → t < main.length + dummy.length) →
      ∃ md, mergeShelter slots (main, dummy) = some md := by
  induction slots with
  | nil => exact fun _ => ⟨_, rfl⟩
  | cons slot slots ih =>
    intro main dummy htags
    have hrest : ∀ t c, (t, some c) ∈ slots → t < main.length + dummy.length :=
      fun t c hc => htags t c (List.mem_cons_of_mem _ hc)
    obtain ⟨tag, content⟩ := slot
    cases content with
    | none =>
      rw [mergeShelter]
      exact ih hrest
    | some c =>
      have htag := htags tag c List.mem_cons_self
      rw [mergeShelter]
      split
      · exact ih hrest
      split
      · apply ih
        simpa using hrest
      · rw [if_pos (by omega)]
        apply ih
        simpa using hrest

/-- **Both sides permute in the same direction.** The word behind tag `t` moves
to tag `perm[t]` on the server, and the address with tag `t` gets tag `perm[t]`
on the client. -/
theorem doPermute_tagged {perm : List ℕ} (hperm : perm.Perm (List.range K.words))
    {w : SqrtSystem (SqrtOramServerStorage C)} (hw : w.Tagged K) :
    ∃ w', doPermute (OramService.sqrtStub C) perm w = (.ok (), w') ∧ w'.Tagged K := by
  have hwords : w.server.mainMemory.length + w.server.dummy.length = K.words := by
    rw [hw.main_length, hw.dummy_length, SquareRootOramConfig.words]
  have hlen : perm.length = K.words := hperm.length_eq.trans List.length_range
  obtain ⟨md, hmerge⟩ : ∃ md,
      mergeShelter w.server.shelter (w.server.mainMemory, w.server.dummy) = some md := by
    apply mergeShelter_total
    intro t c hc
    rw [hwords]
    exact (hw.lt_words (hw.sheltered t c hc)).2
  obtain ⟨hmain, hdummy, hword⟩ := getElem?_of_mergeShelter hmerge
  let server : SqrtOramServerStorage C := { w.server with
    mainMemory := (permuteBy perm (md.1 ++ md.2)).take md.1.length
    dummy := (permuteBy perm (md.1 ++ md.2)).drop md.1.length
    shelter := w.server.shelter.map fun _ => freeSlot C }
  let p := (List.range perm.length).foldl (updateOne perm) w.client.positionMap
  have hrun : doPermute (OramService.sqrtStub C) perm w =
      (.ok (), ⟨{ w.client with positionMap := p }, server⟩) := by
    have hremote : remote "DoPermute" ((OramService.sqrtStub C).sqrtPermute perm) w =
        (.ok (), { w with server := server }) := by
      apply remote_ok
      apply Prog.mapError_ok
      exact doPermute_ok (hlen.trans hwords.symm) hmerge (lt_length_of_perm hperm)
    rw [doPermute, Prog.bind_ok hremote]
    rfl
  have hp : ∀ a s, w.client.positionMap a = some s → p a = some (perm.getD s 0) := by
    intro a s hs
    refine (foldl_updateOne perm _ perm.length a).trans ?_
    rw [hlen, if_pos (hw.lt_words hs).1, hs, Option.getD_some]
  have hlength : (md.1 ++ md.2).length = K.words := by
    rw [List.length_append, hmain, hdummy, hwords]
  have hassembled : server.assembled = permuteBy perm (md.1 ++ md.2) :=
    List.take_append_drop _ _
  refine ⟨_, hrun, ?_, ?_, fun a ha => ?_, fun a ha => ?_, fun t c hc => ?_⟩
  · simp only [server, List.length_take, length_permuteBy, List.length_append, hmain,
      hw.main_length, Nat.le_add_right, Nat.min_eq_left]
  · simp only [server, List.length_drop, length_permuteBy, List.length_append, hmain, hdummy,
      hw.dummy_length, Nat.add_sub_cancel_left]
  · obtain ⟨s, b, hs, hlt, hb, hid⟩ := hw.word a ha
    obtain ⟨hget, hplt⟩ := getElem?_perm hperm hlt
    have hmoved : server.assembled[perm.getD s 0]? = (md.1 ++ md.2)[s]? := by
      rw [hassembled, getElem?_permuteBy (hlength ▸ hperm) hget]
    cases hword s with
    | inl hsame =>
      refine ⟨_, b, hp a s hs, hplt, ?_, hid⟩
      rw [wordAt, hmoved, hsame]
      exact hb
    | inr hnew =>
      -- the word comes from the shelter, where its tag was that of its id
      obtain ⟨c, hmem, hc⟩ := hnew
      refine ⟨_, (C.decryptBlock c).2, hp a s hs, hplt, ?_, ?_⟩
      · exact wordAt_of_getElem? (hmoved.trans hc)
      · exact hw.position_inj (hw.sheltered s c hmem) hs
  · refine (foldl_updateOne perm _ perm.length a).trans ?_
    rw [hlen, if_neg (Nat.not_lt.mpr ha), hw.absent a ha]
  · obtain ⟨e, -, he⟩ := List.mem_map.mp hc
    cases he

theorem permuteOnFull_tagged {perm : List ℕ} (hperm : perm.Perm (List.range K.words))
    (hsize : K.words ≠ 0) {w : SqrtSystem (SqrtOramServerStorage C)} (hw : w.Tagged K) :
    ∃ w', permuteOnFull (OramService.sqrtStub C) K perm w = (.ok (), w') ∧ w'.Tagged K := by
  have hcounters : ∀ n k, Tagged K
      ⟨{ w.client with nextDummy := n, counter := k }, w.server⟩ := by
    intro n k
    apply hw.change _ hw.sheltered
    rfl
  rw [permuteOnFull, update, Prog.modify_bind, Prog.get_bind]
  split
  · rw [update, Prog.modify_bind, randomPermutation, if_neg hsize]
    exact doPermute_tagged hperm (hcounters 0 0)
  · exact ⟨_, rfl, hcounters _ _⟩

/-! ## Whole accesses -/

/-- **One access**, whatever its outcome. -/
theorem tagged_access {op : Operation} {a : ℕ} {buffer : OramBlock D}
    (hbuffer : op = .kWrite → buffer.id = a) {draws : SqrtDraws C}
    (hperm : draws.perm.Perm (List.range K.words))
    {w : SqrtSystem (SqrtOramServerStorage C)} (hw : w.Tagged K) :
    (access (OramService.sqrtStub C) K op a buffer draws w).2.Tagged K := by
  rw [access, Prog.get_bind]
  split
  · exact hw
  rw [internalAccess, Prog.get_bind]
  split
  · exact hw
  split
  · exact hw
  rename_i hop
  cases ht : w.client.positionMap a with
  | none => exact hw
  | some t =>
    have hkeep := keeps_fetch (C := C) (K := K) a t w ⟨hw, rfl⟩
    have hwords : K.words ≠ 0 := Nat.ne_zero_of_lt (hw.lt_words ht).1
    simp only
    rw [Prog.bind_apply]
    cases hfetch : fetch (OramService.sqrtStub C) K a t w with
    | mk r w₁ =>
      rw [hfetch] at hkeep
      cases r with
      | error e => exact hkeep.1
      | ok b =>
        simp only
        split
        · exact hkeep.1
        -- the block that is sealed is the block of the address
        generalize hblock : (if op = .kRead then b else buffer) = block
        have hid : block.id = a := by
          rw [← hblock]
          split
          next => exact fetch_id hw ht hfetch
          next hread =>
            apply hbuffer
            cases op with
            | kRead => exact absurd rfl hread
            | kWrite => rfl
            | kInvalid => exact absurd rfl hop
        have hsealed : w.client.positionMap
            (C.decryptBlock (C.encryptBlock draws.iv block)).2.id = some t := by
          rw [C.decrypt_encrypt, hid, ht]
        have hwrite := keeps_writeBlock (K := K) hsealed w₁ hkeep
        have hpermute : ∀ w₂ : SqrtSystem (SqrtOramServerStorage C), w₂.Tagged K →
            ((Prog.mapError (Exit.append (.make .kUnknownError
              "Permutation failed or internal logic error!" "InternalAccess"))
              (permuteOnFull (OramService.sqrtStub C) K draws.perm) >>= fun _ =>
                pure (C.encryptBlock draws.iv block)) w₂).2.Tagged K := by
          intro w₂ hw₂
          refine Prog.Keeps.bind (I := Tagged K) (.mapError fun w hw => ?_) (fun _ => .pure _) w₂ hw₂
          obtain ⟨w', hrun, hw'⟩ := permuteOnFull_tagged hperm hwords hw
          rw [hrun]
          exact hw'
        split
        · rw [Prog.attempt_bind]
          exact hpermute _ hwrite.1
        · rw [Prog.bind_apply]
          simp only [Prog.mapError]
          cases hrun : writeBlock (OramService.sqrtStub C) t (C.encryptBlock draws.iv block) w₁ with
          | mk r' w₂ =>
            rw [hrun] at hwrite
            cases r' with
            | error e => exact hwrite.1
            | ok u => exact hpermute _ hwrite.1

end SquareRootOramController

open SquareRootOramController SqrtSystem in
/-- **Client and server agree on tags.** After a load of blocks with the ids
`0`, …, `block_num_ - 1` and any sequence of accesses whose writes carry their address,
whatever permutations are drawn. -/
theorem sqrtOram_tags_agree {garbage : ℕ → OramBlock D} {data : List (OramBlock D)}
    {fill : SqrtFillDraws C} {w : SqrtSystem (SqrtOramServerStorage C)}
    (hfill : fillWithData (OramService.sqrtStub C) K garbage data fill (SqrtSystem.init C K) =
      (.ok (), w))
    (hids : (data.map OramBlock.id).Perm (List.range K.blockNum))
    (hperm : fill.perm.Perm (List.range K.words))
    {requests : List (SqrtRequest C)}
    (hbuffers : ∀ r ∈ requests, r.op = .kWrite → r.buffer.id = r.address)
    (hperms : ∀ r ∈ requests, r.draws.perm.Perm (List.range K.words))
    {outs : List (Except Exit C.Sealed)} {w' : SqrtSystem (SqrtOramServerStorage C)}
    (hrun : Prog.trace Exit.fatal (SqrtRequest.run K) requests w = some (outs, w')) :
    w'.TagsAgree K := by
  have hlen : data.length = K.blockNum := by
    rw [← List.length_map (f := OramBlock.id), hids.length_eq, List.length_range]
  have hstart : w.Tagged K := (fillWithData_spec hfill (hlen ▸ hids) hperm).1.toStored.tagged
  have hafter := Prog.trace_history Exit.fatal
    (fun (r : SqrtRequest C) (_ : SqrtSystem (SqrtOramServerStorage C)) =>
      (r.op = .kWrite → r.buffer.id = r.address) ∧ r.draws.perm.Perm (List.range K.words))
    (fun _ w => Tagged K w)
    (fun _ r w out w' hr hw hstep => by
      have hkeep := tagged_access hr.1 hr.2 hw
      rw [← SqrtRequest.run, (Prog.eq_of_survive hstep).1] at hkeep
      exact hkeep)
    [] hstart
    (Prog.Along.of_forall (fun r hr _ => ⟨hbuffers r hr, hperms r hr⟩) w) hrun
  exact hafter.agree

/-- A write, and the read that ends the epoch. -/
theorem sqrtOram_tags_agree_small :
    ∃ outs w', Prog.trace Exit.fatal (SqrtRequest.run smallSqrt) [writeWord, readWord 1]
        smallSqrtLoaded = some (outs, w') ∧ w'.TagsAgree smallSqrt := by
  have hrun : Prog.trace Exit.fatal (SqrtRequest.run smallSqrt) [writeWord, readWord 1]
      smallSqrtLoaded = some ([(writeWord.run smallSqrt smallSqrtLoaded).1,
        ((readWord 1).run smallSqrt (writeWord.run smallSqrt smallSqrtLoaded).2).1],
        ((readWord 1).run smallSqrt (writeWord.run smallSqrt smallSqrtLoaded).2).2) := rfl
  refine ⟨_, _, hrun, sqrtOram_tags_agree smallSqrt_fill (by decide) (by decide) ?_ ?_ hrun⟩
  · intro r hr
    rw [List.mem_pair] at hr
    rcases hr with rfl | rfl
    · exact fun _ => rfl
    · exact nofun
  · intro r hr
    rw [List.mem_pair] at hr
    rcases hr with rfl | rfl <;> decide

end ObliviousRam
