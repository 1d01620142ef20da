import ObliviousRam.LinearReplay
import ObliviousRam.SharedSqrt

set_option autoImplicit false

/-!
# A square-root ORAM on a server that replays

The controller asks for a word by its tag, and a server that can only replay may
answer with any word that it has been sent. The controller looks at the id of a
real block. Padding has no id to look at, so a server may show it for every
block; but no real block is made up, and none is taken for another.
-/

namespace ObliviousRam

variable {D σ : Type} {C : Codec D} {K : SquareRootOramConfig}

/-- The stub of a server that can only replay. -/
structure SqrtStub.Replays (knows : σ → C.Sealed → Prop) (S : SqrtStub C σ) : Prop where
  load : ∀ contents, (S.loadSqrtOram contents).Replays knows (· ∈ contents) fun _ _ => False
  read : ∀ area tag,
    (S.readSqrtMemory area tag).Replays knows (fun _ => False) fun content c => content = some c
  write : ∀ pos content,
    (S.writeSqrtMemory pos content).Replays knows (· = content) fun _ _ => False
  permute : ∀ perms, (S.sqrtPermute perms).Replays knows (fun _ => False) fun _ _ => False

/-- The stub over a connection that loses calls. -/
def SqrtStub.relayed (S : SqrtStub C σ) : SqrtStub C (σ × List Delivery) where
  loadSqrtOram contents := Delivery.relay (S.loadSqrtOram contents)
  readSqrtMemory area tag := Delivery.relay (S.readSqrtMemory area tag)
  writeSqrtMemory pos content := Delivery.relay (S.writeSqrtMemory pos content)
  sqrtPermute perms := Delivery.relay (S.sqrtPermute perms)

theorem SqrtStub.Replays.relayed {knows : σ → C.Sealed → Prop} {S : SqrtStub C σ}
    (h : S.Replays knows) : S.relayed.Replays fun s => knows s.1 where
  load contents := (h.load contents).relay
  read area tag := (h.read area tag).relay
  write pos content := (h.write pos content).relay
  permute perms := (h.permute perms).relay

/-! ## The server of the repository

The storage is one of the servers that only replay: every handler moves words about, and
a word gets there by being sent. -/

theorem mem_foldl_set {α : Type} {x : α} {ps : List (ℕ × α)} {clone : List α}
    (h : x ∈ ps.foldl (fun clone p => clone.set p.1 p.2) clone) :
    x ∈ clone ∨ x ∈ ps.map Prod.snd := by
  induction ps generalizing clone with
  | nil => exact .inl h
  | cons p ps ih =>
    rcases ih h with h | h
    · rcases List.mem_or_eq_of_mem_set h with h | rfl
      · exact .inl h
      · exact .inr List.mem_cons_self
    · exact .inr (List.mem_cons_of_mem _ h)

/-- A permutation brings no word in. -/
theorem mem_of_mem_permuteBy {α : Type} {perm : List ℕ} {arr : List α} {x : α}
    (h : x ∈ permuteBy perm arr) : x ∈ arr := by
  rcases mem_foldl_set h with h | h
  · exact h
  · obtain ⟨p, hp, rfl⟩ := List.mem_map.mp h
    exact (List.of_mem_zip hp).2

namespace SqrtOramServerStorage

/-- The word is somewhere in the storage. -/
def Holds (s : SqrtOramServerStorage C) (c : C.Sealed) : Prop :=
  some c ∈ s.mainMemory ++ s.dummy ∨ some c ∈ s.shelter.map Prod.snd

/-- A new storage holds no block. -/
theorem not_holds_new (capacity : ℕ) (c : C.Sealed) : ¬(new C capacity).Holds c := by
  rintro (hc | hc)
  · exact List.not_mem_nil hc
  · exact List.not_mem_nil hc

/-- The merge brings no word in. -/
theorem mem_of_mergeShelter {slots : List (ℕ × Option C.Sealed)}
    {md md' : List (Option C.Sealed) × List (Option C.Sealed)} {c : C.Sealed}
    (h : mergeShelter slots md = some md') (hc : some c ∈ md'.1 ++ md'.2) :
    some c ∈ md.1 ++ md.2 ∨ some c ∈ slots.map Prod.snd := by
  induction slots generalizing md with
  | nil =>
    cases h
    exact .inl hc
  | cons slot slots ih =>
    obtain ⟨main, dummy⟩ := md
    rcases slot with ⟨tag, _ | word⟩
    · exact (ih h).imp_right (List.mem_cons_of_mem _)
    · rw [mergeShelter] at h
      split at h
      · exact (ih h).imp_right (List.mem_cons_of_mem _)
      split at h
      · rcases ih h with hmem | hmem
        · rcases List.mem_append.mp hmem with hmem | hmem
          · rcases List.mem_or_eq_of_mem_set hmem with hmem | hmem
            · exact .inl (List.mem_append_left _ hmem)
            · exact .inr (hmem ▸ List.mem_cons_self)
          · exact .inl (List.mem_append_right _ hmem)
        · exact .inr (List.mem_cons_of_mem _ hmem)
      split at h
      · rcases ih h with hmem | hmem
        · rcases List.mem_append.mp hmem with hmem | hmem
          · exact .inl (List.mem_append_left _ hmem)
          · rcases List.mem_or_eq_of_mem_set hmem with hmem | hmem
            · exact .inl (List.mem_append_right _ hmem)
            · exact .inr (hmem ▸ List.mem_cons_self)
        · exact .inr (List.mem_cons_of_mem _ hmem)
      · cases h

/-- A write brings in its own block only. -/
theorem mem_of_writeFirstFree {tag : ℕ} {data c : C.Sealed}
    {slots slots' : List (ℕ × Option C.Sealed)} (h : writeFirstFree tag data slots = some slots')
    (hc : some c ∈ slots'.map Prod.snd) : some c ∈ slots.map Prod.snd ∨ c = data := by
  induction slots generalizing slots' with
  | nil => cases h
  | cons slot slots ih =>
    -- a slot that is passed over
    have hpass : ∀ {slot : ℕ × Option C.Sealed},
        (writeFirstFree tag data slots).map (slot :: ·) = some slots' →
        some c ∈ (slot :: slots).map Prod.snd ∨ c = data := by
      intro slot h
      obtain ⟨rest, hrest, rfl⟩ := Option.map_eq_some_iff.mp h
      rcases List.mem_cons.mp hc with hc | hc
      · exact .inl (List.mem_cons.mpr (.inl hc))
      · exact (ih hrest hc).imp_left (List.mem_cons_of_mem _)
    rcases slot with ⟨t, _ | word⟩
    · rw [writeFirstFree] at h
      split at h
      · cases h
        rcases List.mem_cons.mp hc with hc | hc
        · exact .inr (Option.some.inj hc)
        · exact .inl (List.mem_cons_of_mem _ hc)
      · exact hpass h
    · exact hpass h

/-- A read of the storage shows what is there. -/
theorem replays_readBlockFromDummy (pos : ℕ) :
    (readBlockFromDummy (C := C) pos).Replays Holds (fun _ => False)
      fun content c => content = some c := by
  constructor
  · intro s c hc
    rw [readBlockFromDummy] at hc
    split at hc
    · exact .inl hc
    · exact .inl hc
  · rintro s _ s' c hrun rfl
    rw [readBlockFromDummy] at hrun
    split at hrun
    · cases hrun
    next data hdata =>
      cases hrun
      exact .inl (.inl (List.mem_append_right _ (List.mem_of_getElem? hdata)))

theorem replays_readBlockFromMain (pos : ℕ) :
    (readBlockFromMain (C := C) pos).Replays Holds (fun _ => False)
      fun content c => content = some c := by
  constructor
  · intro s c hc
    rw [readBlockFromMain] at hc
    split at hc
    · exact .inl hc
    · exact (replays_readBlockFromDummy _).keeps hc
  · rintro s content s' c hrun hcontent
    rw [readBlockFromMain] at hrun
    split at hrun
    next data hdata =>
      cases hrun
      exact .inl (.inl (List.mem_append_left _ (List.mem_of_getElem? (hcontent ▸ hdata))))
    · exact (replays_readBlockFromDummy _).shows hrun hcontent

/-- A word that is read leaves the shelter. -/
theorem replays_readBlockFromShelter (pos : ℕ) :
    (readBlockFromShelter (C := C) pos).Replays Holds (fun _ => False)
      fun content c => content = some c := by
  constructor
  · intro s c hc
    rw [readBlockFromShelter] at hc
    split at hc
    · exact .inl hc
    · refine .inl (hc.imp_right fun hmem => ?_)
      obtain ⟨slot, hslot, hword⟩ := List.mem_map.mp hmem
      rcases List.mem_or_eq_of_mem_set hslot with hslot | rfl
      · exact List.mem_map.mpr ⟨slot, hslot, hword⟩
      · cases hword
  · rintro s content s' c hrun hcontent
    rw [readBlockFromShelter] at hrun
    split at hrun
    · cases hrun
    next tag data hdata =>
      cases hrun
      exact .inl (.inr (List.mem_map.mpr ⟨_, List.mem_of_getElem? hdata, hcontent⟩))

/-- A load adds what it is sent. -/
theorem replays_fill (data : List C.Sealed) :
    (fill data).Replays Holds (· ∈ data) fun _ _ => False := by
  constructor
  · intro s c hc
    change some c ∈ (s.mainMemory ++ (data.take s.capacity).map some) ++
        (s.dummy ++ (data.drop s.capacity).map some) ∨
      some c ∈ (s.shelter ++ (data.drop s.capacity).map fun _ => freeSlot C).map Prod.snd at hc
    rcases hc with hc | hc
    · rcases List.mem_append.mp hc with hc | hc
      · rcases List.mem_append.mp hc with hc | hc
        · exact .inl (.inl (List.mem_append_left _ hc))
        · obtain ⟨word, hword, ⟨⟩⟩ := List.mem_map.mp hc
          exact .inr (List.mem_of_mem_take hword)
      · rcases List.mem_append.mp hc with hc | hc
        · exact .inl (.inl (List.mem_append_right _ hc))
        · obtain ⟨word, hword, ⟨⟩⟩ := List.mem_map.mp hc
          exact .inr (List.mem_of_mem_drop hword)
    · rw [List.map_append, List.mem_append] at hc
      rcases hc with hc | hc
      · exact .inl (.inr hc)
      · -- the new slots are empty
        simp [freeSlot] at hc
  · rintro s _ _ c _ ⟨⟩

theorem replays_writeBlockToShelter (tag : ℕ) (data : C.Sealed) :
    (writeBlockToShelter tag data).Replays Holds (· = data) fun _ _ => False := by
  constructor
  · intro s c hc
    rw [writeBlockToShelter] at hc
    split at hc
    · exact .inl hc
    next shelter hshelter =>
      rcases hc with hc | hc
      · exact .inl (.inl hc)
      · exact (mem_of_writeFirstFree hshelter hc).imp_left .inr
  · rintro s _ _ c _ ⟨⟩

theorem replays_doPermute (perm : List ℕ) :
    (doPermute (C := C) perm).Replays Holds (fun _ => False) fun _ _ => False := by
  constructor
  · intro s c hc
    rw [doPermute] at hc
    split at hc
    · exact .inl hc
    split at hc
    · exact .inl hc
    next main dummy hmerge =>
      split at hc
      · exact .inl hc
      · rcases hc with hc | hc
        · rw [List.take_append_drop] at hc
          exact .inl (mem_of_mergeShelter hmerge (mem_of_mem_permuteBy hc))
        · -- the shelter is empty
          simp [freeSlot] at hc
  · rintro s _ _ c _ ⟨⟩

end SqrtOramServerStorage

namespace OramService

open SqrtOramServerStorage

/-- A read that is refused shows nothing. -/
theorem replays_readSqrtMemory (area : SqrtArea) (tag : ℕ) :
    (readSqrtMemory (C := C) area tag).Replays Holds (fun _ => False)
      fun content c => content = some c := by
  have hchecked : ∀ {m : Prog Exit (SqrtOramServerStorage C) (Option C.Sealed)} {message : String},
      m.Replays Holds (fun _ => False) (fun content c => content = some c) →
      Prog.Replays Holds (fun _ => False) (fun content c => content = some c) fun s =>
        if s.check tag area = false then (.error message, s)
        else Prog.mapError connectionLost m s := by
    intro m message hm
    have hm' := hm.mapError (f := connectionLost)
    constructor
    · intro s c hc
      split at hc
      · exact .inl hc
      · exact hm'.keeps hc
    · intro s content s' c hrun hcontent
      split at hrun
      · cases hrun
      · exact hm'.shows hrun hcontent
  cases area with
  | kShelter => exact hchecked (replays_readBlockFromShelter tag)
  | kMainMemory => exact hchecked (replays_readBlockFromMain tag)
  | kDummy => exact hchecked (replays_readBlockFromDummy tag)

/-- The server of a square-root ORAM knows its storage. -/
theorem sqrtStub_replays : (sqrtStub C).Replays Holds where
  load contents := .mapError (replays_fill contents)
  read area tag := replays_readSqrtMemory area tag
  write pos content := .mapError (replays_writeBlockToShelter pos content)
  permute perms := .mapError (replays_doPermute perms)

end OramService

/-! ## The controller

The controller reads, decrypts, and looks at the id where it looks for an address; what
it writes it has read or was given by its caller. The lemmas follow an access through
its parts. -/

/-- The call gives `a` the value `v`: a write sends the header of the buffer too. -/
def SqrtOp.Offers : SqrtOp C → ℕ → D → Prop
  | .fillWithData _ data _, a, v => ∃ b ∈ data, b.isNormal = true ∧ b.id = a ∧ b.data = v
  | .access op _ buffer _, a, v =>
    op = .kWrite ∧ buffer.isNormal = true ∧ buffer.id = a ∧ buffer.data = v

namespace SquareRootOramController

variable {knows : σ → C.Sealed → Prop} {S : SqrtStub C σ} {V : ℕ → D → Prop}

/-- All that the server knows opens to a block whose value was given. -/
def Faithful (knows : σ → C.Sealed → Prop) (V : ℕ → D → Prop) (w : SqrtSystem σ) : Prop :=
  Prog.Only knows (fun c => (C.decryptBlock c).2.Vouched OramBlock.data V) w.server

/-- The members of the controller hold no blocks. -/
theorem yields_update (f : SquareRootOramController → SquareRootOramController) :
    Prog.Yields (Faithful knows V) (update (ε := Exit) f) fun _ => True :=
  .modify fun _ hw => hw

theorem remote_eq {α : Type} (location : String) (call : Prog String σ α) :
    remote location call = Prog.mapError (fun msg => .status (.make .kServerError msg location))
      (Prog.zoom SqrtSystem.server (fun server w => { w with server := server }) call) := by
  funext w
  rw [remote, Prog.mapError, Prog.zoom]
  rcases call w.server with ⟨_ | _, _⟩ <;> rfl

/-- A remote call shows what the server knows, under a status of its own. -/
theorem yields_remote {α : Type} (location : String) {call : Prog String σ α} {R : α → Prop}
    (hcall : call.Yields
      (Prog.Only knows fun c => (C.decryptBlock c).2.Vouched OramBlock.data V) R) :
    Prog.Yields (Faithful knows V) (remote location call) R := by
  rw [remote_eq]
  exact .mapError (hcall.zoom (fun _ h => h) fun _ _ _ h => h)

/-- A block that is sealed again is still the block. -/
theorem vouched_encryptBlock {b : OramBlock D} (hb : b.Vouched OramBlock.data V) (iv : C.Iv) :
    (C.decryptBlock (C.encryptBlock iv b)).2.Vouched OramBlock.data V := by
  rw [C.decrypt_encrypt]
  exact hb

/-- The padding of a load is not real. -/
theorem vouched_padded {garbage : ℕ → OramBlock D} {data : List (OramBlock D)} {num : ℕ}
    (hdata : ∀ b ∈ data, b.Vouched OramBlock.data V) :
    ∀ b ∈ padded garbage data num, b.Vouched OramBlock.data V := by
  intro b hb
  rcases List.mem_append.mp hb with hb | hb
  · exact hdata b hb
  · obtain ⟨i, -, rfl⟩ := List.mem_map.mp hb
    rintro ⟨⟩

variable (hS : S.Replays knows)
include hS

/-- The load seals the blocks it is given, and padding. -/
theorem yields_fillWithData {data : List (OramBlock D)}
    (hdata : ∀ b ∈ data, b.Vouched OramBlock.data V) (garbage : ℕ → OramBlock D)
    (draws : SqrtFillDraws C) :
    Prog.Yields (Faithful knows V) (fillWithData S K garbage data draws) fun _ => True := by
  refine .ite (fun _ => .throw _) fun _ => .bind (yields_update _) fun _ _ =>
    .bind (yields_remote _ ((hS.load _).yields fun c hc => ?_)) fun _ _ => yields_update _
  obtain ⟨i, hi, rfl⟩ := List.mem_mapIdx.mp hc
  have hmem := mem_of_mem_permuteBy (List.getElem_mem hi)
  exact vouched_encryptBlock (vouched_padded hdata _ (List.mem_mergeSort.mp hmem)) _

/-- A word that is read opens to a block whose value was given. -/
theorem yields_read (location : String) (area : SqrtArea) (tag : ℕ) :
    Prog.Yields (Faithful knows V) (remote location (S.readSqrtMemory area tag)) fun content =>
      ∀ c, content = some c → (C.decryptBlock c).2.Vouched OramBlock.data V :=
  yields_remote location ((hS.read area tag).yields fun _ hc => hc.elim)

/-- What the scan finds was given to the id that it carries. -/
theorem yields_scanShelter (address : ℕ) (is : List ℕ) {found : Option (OramBlock D)}
    (hfound : ∀ b, found = some b → b.Vouched OramBlock.data V) :
    Prog.Yields (Faithful knows V) (scanShelter S address is found) fun found' =>
      ∀ b, found' = some b → b.Vouched OramBlock.data V := by
  induction is generalizing found with
  | nil => exact .pure hfound
  | cons i is ih =>
    refine .bind (yields_read hS _ _ _) fun content hcontent => ?_
    cases content with
    | none => exact ih hfound
    | some c =>
      apply ih
      intro b hb
      split at hb
      · cases hb
        exact hcontent c rfl
      · exact hfound b hb

theorem yields_readShelter (address : ℕ) :
    Prog.Yields (Faithful knows V) (readShelter S K address) fun b =>
      b.Vouched OramBlock.data V := by
  have hnone : ∀ b : OramBlock D, none = some b → b.Vouched OramBlock.data V := by
    rintro b ⟨⟩
  refine .bind (yields_scanShelter hS address _ hnone) fun found hfound => ?_
  cases found with
  | none => exact .throw _
  | some b => exact .pure (hfound b rfl)

theorem yields_readMain (pos : ℕ) :
    Prog.Yields (Faithful knows V) (readMain S pos) fun b => b.Vouched OramBlock.data V := by
  refine .bind (yields_read hS _ _ _) fun content hcontent => ?_
  cases content with
  | none => exact .throw _
  | some c => exact .pure (hcontent c rfl)

theorem yields_readDummy (pos : ℕ) :
    Prog.Yields (Faithful knows V) (readDummy S pos) fun _ => True :=
  .bind (yields_read hS _ _ _) fun _ _ => .pure trivial

/-- What is written back was read or given. -/
theorem yields_writeBlock (position : ℕ) {b : OramBlock D} (hb : b.Vouched OramBlock.data V)
    (iv : C.Iv) : Prog.Yields (Faithful knows V) (writeBlock S position (C.encryptBlock iv b))
      fun _ => True := by
  refine yields_remote _ (((hS.write _ _).yields fun c hc => ?_).weaken fun _ _ => trivial)
  rw [hc]
  exact vouched_encryptBlock hb iv

theorem yields_permuteOnFull (draw : List ℕ) :
    Prog.Yields (Faithful knows V) (permuteOnFull S K draw) fun _ => True := by
  refine .bind (yields_update _) fun _ _ => .get_bind fun w _ => .ite (fun _ => ?_) fun _ =>
    .pure trivial
  refine .bind (yields_update _) fun _ _ => ?_
  cases randomPermutation K.words draw with
  | ok perm =>
    have hpermute := yields_remote (V := V) "DoPermute"
      ((hS.permute perm).yields fun c hc => hc.elim)
    exact .bind hpermute fun _ _ => yields_update _
  | error st => exact .throw _

/-- The block of an access was given, wherever it was found. -/
theorem yields_fetch (address position : ℕ) :
    Prog.Yields (Faithful knows V) (fetch S K address position) fun b =>
      b.Vouched OramBlock.data V := by
  refine .bind (.attempt (yields_readShelter hS address)) fun r hr => ?_
  rcases r with (st | why | why) | block
  · exact .ite (fun _ => .throw _) fun _ => .mapError (yields_readMain hS position)
  · exact .throw _
  · exact .throw _
  · exact .get_bind fun w _ => .bind (yields_update _) fun _ _ =>
      .bind (.mapError (yields_readDummy hS _)) fun _ _ => .pure (hr block rfl)

/-- What a read leaves in `*data`: padding, or a real block of the address. -/
theorem yields_access {op : Operation} (address : ℕ) {buffer : OramBlock D}
    (hV : op = .kWrite → buffer.Vouched OramBlock.data V) (draws : SqrtDraws C) :
    Prog.Yields (Faithful knows V) (access S K op address buffer draws) fun out =>
      op = .kRead → (C.decryptBlock out).2.isNormal = true →
        (C.decryptBlock out).2.id = address ∧ V address (C.decryptBlock out).2.data := by
  refine .get_bind fun w _ => .ite (fun _ => .throw _) fun _ => .get_bind fun v _ =>
    .ite (fun _ => .throw _) fun _ => .ite (fun _ => .throw _) fun hvalid => ?_
  cases v.client.positionMap address with
  | none => exact .throw _
  | some position =>
    refine .bind (yields_fetch hS address position) fun block hblock =>
      .ite (fun _ => .throw _) fun hid => ?_
    have hsealed : (if op = .kRead then block else buffer).Vouched OramBlock.data V := by
      split
      next => exact hblock
      next hop => exact hV (op.eq_kWrite hop hvalid)
    -- what is written back is what is returned
    have hreturn : Prog.Yields (Faithful knows V)
        (Prog.mapError (Exit.append (.make .kUnknownError
          "Permutation failed or internal logic error!" "InternalAccess"))
          (permuteOnFull S K draws.perm) >>= fun _ => pure (C.encryptBlock draws.iv
            (if op = .kRead then block else buffer))) fun out =>
          op = .kRead → (C.decryptBlock out).2.isNormal = true →
            (C.decryptBlock out).2.id = address ∧ V address (C.decryptBlock out).2.data := by
      refine .bind (.mapError (yields_permuteOnFull hS draws.perm)) fun _ _ => .pure ?_
      rintro rfl hnormal
      rw [C.decrypt_encrypt, if_pos rfl] at hnormal ⊢
      have he : block.id = address := by
        simpa [hnormal] using hid
      exact ⟨he, he ▸ hblock hnormal⟩
    have hwrite := yields_writeBlock hS position hsealed draws.iv
    exact .ite (fun _ => .bind (.attempt hwrite) fun _ _ => hreturn) fun _ =>
      .bind (.mapError hwrite) fun _ _ => hreturn

end SquareRootOramController

open SquareRootOramController

/-- A call keeps the server to what is offered. -/
theorem SqrtOp.keeps_faithful {knows : σ → C.Sealed → Prop} {S : SqrtStub C σ}
    (hS : S.Replays knows) {V : ℕ → D → Prop} {call : SqrtOp C}
    (hV : ∀ a v, call.Offers a v → V a v) :
    Prog.Keeps (Faithful knows V) (call.run S K) := by
  cases call with
  | fillWithData garbage data draws =>
    have hdata : ∀ b ∈ data, b.Vouched OramBlock.data V :=
      fun b hb hnormal => hV _ _ ⟨b, hb, hnormal, rfl, rfl⟩
    exact (Prog.Yields.bind (yields_fillWithData hS hdata garbage draws) fun _ _ =>
      .pure (R := fun _ => True) trivial).keeps
  | access op address buffer draws =>
    have hbuffer : op = .kWrite → buffer.Vouched OramBlock.data V :=
      fun hop hnormal => hV _ _ ⟨hop, hnormal, rfl, rfl⟩
    exact (Prog.Yields.bind (yields_access hS address hbuffer draws) fun _ _ =>
      .pure (R := fun _ => True) trivial).keeps

/-- **A square-root ORAM makes nothing up**, whatever the server replays. If a
read returns a real block, it is one of the address, with bytes that a load or a
write has given under this id. -/
theorem sqrtOram_authentic {knows : σ → C.Sealed → Prop} {S : SqrtStub C σ}
    (hS : S.Replays knows) {s : σ} (hnew : ∀ c, ¬knows s c) {calls : List (SqrtOp C)}
    {outs : List (Except Exit (Option C.Sealed))} {w : SqrtSystem σ}
    (hrun : Prog.trace Exit.fatal (SqrtOp.run S K) calls ⟨.new, s⟩ = some (outs, w))
    {address : ℕ} {buffer : OramBlock D} {draws : SqrtDraws C} {out : C.Sealed} {w' : SqrtSystem σ}
    (hread : (SqrtOp.access .kRead address buffer draws).run S K w = (.ok (some out), w'))
    (hnormal : (C.decryptBlock out).2.isNormal = true) :
    (C.decryptBlock out).2.id = address ∧
      ∃ call ∈ calls, call.Offers address (C.decryptBlock out).2.data := by
  let V : ℕ → D → Prop := fun a v => ∃ call ∈ calls, call.Offers a v
  have hw : Faithful knows V w := Prog.Keeps.trace (fun call hcall =>
    SqrtOp.keeps_faithful hS fun a v hoffer => ⟨call, hcall, hoffer⟩)
    (fun c hc => absurd hc (hnew c)) hrun
  obtain ⟨out', w₁, haccess, hlast⟩ := Prog.bind_eq_ok hread
  cases hlast
  exact ((yields_access (V := V) hS address (fun h => by cases h) draws).ok hw haccess).2 rfl
    hnormal

/-- The word of a write reaches the shelter, but the answer is lost. -/
theorem sqrtOram_authentic_small : ∃ outs w out w',
    Prog.trace Exit.fatal
      (SqrtOp.run (OramService.sqrtStub (Codec.plain ℕ)).relayed smallSqrt)
      [.fillWithData (fun _ => dummyWord) smallSqrtData smallSqrtFill,
        .access .kWrite 0 ⟨⟨0, .kNormal, 1⟩, 11⟩ smallSqrtDraws]
      ⟨.new, .new _ 2, [.carried, .carried, .carried, .carried, .unanswered "Deadline Exceeded"]⟩ =
        some (outs, w) ∧
    (SqrtOp.access .kRead 0 dummyWord smallSqrtDraws).run
      (OramService.sqrtStub (Codec.plain ℕ)).relayed smallSqrt w = (.ok (some out), w') ∧
    (out.data = 10 ∨ out.data = 11) := by
  have hsorted : (padded (fun _ => dummyWord) smallSqrtData
      smallSqrt.words).mergeSort byId = smallSqrtWords :=
    List.mergeSort_of_pairwise (by decide)
  obtain ⟨outs, w, out, w', hrun, hread, hnormal⟩ : ∃ outs w out w',
      Prog.trace Exit.fatal
        (SqrtOp.run (OramService.sqrtStub (Codec.plain ℕ)).relayed smallSqrt)
        [.fillWithData (fun _ => dummyWord) smallSqrtData smallSqrtFill,
          .access .kWrite 0 ⟨⟨0, .kNormal, 1⟩, 11⟩ smallSqrtDraws]
        ⟨.new, .new _ 2, [.carried, .carried, .carried, .carried,
          .unanswered "Deadline Exceeded"]⟩ = some (outs, w) ∧
      (SqrtOp.access .kRead 0 dummyWord smallSqrtDraws).run
        (OramService.sqrtStub (Codec.plain ℕ)).relayed smallSqrt w = (.ok (some out), w') ∧
      ((Codec.plain ℕ).decryptBlock out).2.isNormal = true := by
    rw [Prog.trace, SqrtOp.run, SquareRootOramController.fillWithData, if_neg (by decide), hsorted]
    exact ⟨_, _, _, _, rfl, rfl, rfl⟩
  refine ⟨outs, w, out, w', hrun, hread, ?_⟩
  obtain ⟨-, call, hcall, hoffer⟩ :=
    sqrtOram_authentic OramService.sqrtStub_replays.relayed (SqrtOramServerStorage.not_holds_new 2)
      hrun hread hnormal
  rcases List.mem_pair.mp hcall with rfl | rfl
  · obtain ⟨b, hb, -, hid, hdata⟩ := hoffer
    rcases List.mem_pair.mp hb with rfl | rfl
    · exact .inl hdata.symm
    · cases hid
  · exact .inr hoffer.2.2.2.symm

end ObliviousRam
