import Mathlib.Data.List.Induction
import ObliviousRam.Defs

set_option autoImplicit false

/-!
# What a status tells

`OramStatus::EmitString` (`base/oram_status.cc`). A status is a tree: `Append` puts a status with
all that was appended to it behind the others. The text has a line for the root and one for each
of its children, and each line looks up the name of a code in `kErrorList`.

Two codes are not in the list, and the lookup throws; and what is two levels down has no line.
-/

namespace ObliviousRam

/-- `kErrorList`. -/
def kErrorList : StatusCode → Option String
  | .kOK => some "OK"
  | .kInvalidArgument => some "InvalidArgument"
  | .kInvalidOperation => some "InvalidOperation"
  | .kOutOfMemory => some "OutOfMemory"
  | .kFileNotFound => some "FileNotFound"
  | .kFileIOError => some "FileIOError"
  | .kOutOfRange => some "OutOfRange"
  | .kServerError => some "ServerError"
  | .kObjectNotFound => some "ObjectNotFound"
  | .kUnknownError => some "UnknownError"
  | .kVersionMismatch => some "VersionMismatch"
  | .kExternalError => some "ExternalError"
  | .kAlreadyUsed => none
  | .kUnimplemented => none

/-- The name of a code: that of the list, or that of the enumerator. -/
def StatusCode.codeName : StatusCode → String
  | .kAlreadyUsed => "AlreadyUsed"
  | .kUnimplemented => "Unimplemented"
  | code => (kErrorList code).getD ""

theorem codeName_of_kErrorList {code : StatusCode} {name : String}
    (h : kErrorList code = some name) : code.codeName = name := by
  cases code <;> cases h <;> rfl

namespace OramStatus

/-- `Update`: only `OK` becomes another code. -/
def update (st : OramStatus) (code : StatusCode) : OramStatus :=
  if st.errorCode = .kOK then { st with errorCode := code } else st

/-- The line of a status; `at` throws if its code has no name. -/
def line (st : OramStatus) : Except Exit String :=
  match kErrorList st.errorCode with
  | none => .error (.abort "std::out_of_range")
  | some name => .ok ("[" ++ name ++ "@" ++ st.location ++ "]: " ++ st.errorMessage)

/-- The loop of `EmitString`. -/
def emitNested : List OramStatus → Except Exit String
  | [] => .ok ""
  | st :: sts => do
    let first ← st.line
    let rest ← emitNested sts
    .ok (first ++ "; caused by\n\t" ++ rest)

/-- The end of `EmitString`: nothing of an `OK`. -/
def ownLine (st : OramStatus) : Except Exit String :=
  if st.errorCode = .kOK then .ok "" else st.line

/-- `EmitString`: the statuses appended, the last one first, and the status itself. -/
def emitString (st : OramStatus) : Except Exit String := do
  let nested ← emitNested st.nestedStatus.reverse
  let own ← st.ownLine
  .ok ("\n\t" ++ nested ++ own)

/-! ## Trees of statuses -/

/-- What the constructors, `Append` and `Update` make. -/
inductive Built : OramStatus → Prop
  | default : Built OK
  | make (code : StatusCode) (msg location : String) : Built (make code msg location)
  | append {st new : OramStatus} : Built st → Built new → Built (st.append new)
  | update {st : OramStatus} (code : StatusCode) : Built st → Built (st.update code)

/-- `s` was appended to the status, or to one that was. -/
inductive Inside (s : OramStatus) : OramStatus → Prop
  | direct {st : OramStatus} : s ∈ st.nestedStatus → Inside s st
  | deeper {t st : OramStatus} : t ∈ st.nestedStatus → Inside s t → Inside s st

/-- Two trees with the same codes; messages and locations may differ. -/
inductive SameCodes : OramStatus → OramStatus → Prop
  | node {code : StatusCode} {msg location msg' location' : String}
      {nested nested' : List OramStatus} : List.Forall₂ SameCodes nested nested' →
      SameCodes ⟨code, msg, location, nested⟩ ⟨code, msg', location', nested'⟩

/-- The text has the part in it. -/
def Within (part text : String) : Prop := ∃ before after, text = before ++ part ++ after

/-- The text has code name, location and message of the status in it. -/
structure Tells (text : String) (st : OramStatus) : Prop where
  code : Within st.errorCode.codeName text
  location : Within st.location text
  message : Within st.errorMessage text

/-- `EmitString` returns, and tells everything. -/
def Complete (st : OramStatus) : Prop :=
  ∃ text, st.emitString = .ok text ∧ (st.errorCode ≠ .kOK → Tells text st) ∧
    ∀ s, Inside s st → s.errorCode ≠ .kOK → Tells text s

/-- The codes that are looked up have names. -/
def Listed (st : OramStatus) : Prop :=
  (kErrorList st.errorCode).isSome = true ∧
    ∀ t ∈ st.nestedStatus, (kErrorList t.errorCode).isSome = true

/-- Nothing was appended to what was appended. -/
def Flat (st : OramStatus) : Prop := ∀ t ∈ st.nestedStatus, t.nestedStatus = []

/-- A root of the same code over such trees. -/
theorem SameCodes.of_nested {st st' : OramStatus} (hcode : st'.errorCode = st.errorCode)
    (h : List.Forall₂ SameCodes st.nestedStatus st'.nestedStatus) : SameCodes st st' := by
  cases st
  cases st'
  cases hcode
  exact .node h

/-- A tree has the codes of itself. -/
theorem SameCodes.refl : ∀ st, SameCodes st st
  | ⟨_, _, _, nested⟩ => .node (children nested)
where
  children : ∀ nested : List OramStatus, List.Forall₂ SameCodes nested nested
    | [] => .nil
    | st :: nested => .cons (SameCodes.refl st) (children nested)

theorem SameCodes.errorCode_eq {st st' : OramStatus} (h : SameCodes st st') :
    st'.errorCode = st.errorCode := by
  cases h
  rfl

/-- The children have the same codes, one by one. -/
theorem SameCodes.nested {st st' : OramStatus} (h : SameCodes st st') :
    List.Forall₂ SameCodes st.nestedStatus st'.nestedStatus := by
  cases h
  assumption

/-- Every child has a child of the other tree for a counterpart. -/
theorem SameCodes.exists_nested {st st' : OramStatus} (h : SameCodes st st') {t' : OramStatus}
    (ht : t' ∈ st'.nestedStatus) : ∃ t ∈ st.nestedStatus, SameCodes t t' := by
  obtain ⟨i, hi, rfl⟩ := List.getElem_of_mem ht
  have hlen := h.nested.length_eq
  exact ⟨_, List.getElem_mem (by omega), h.nested.get (by omega) hi⟩

/-! ## Lines

A text tells of a status if it has the line of it somewhere. What is in the text of a
part is in the whole text. -/

theorem Within.trans {part middle text : String} (h : Within part middle)
    (h' : Within middle text) : Within part text := by
  obtain ⟨before, after, rfl⟩ := h
  obtain ⟨before', after', rfl⟩ := h'
  exact ⟨before' ++ before, after ++ after', by simp only [String.append_assoc]⟩

theorem Within.mem {part text : String} (h : Within part text) {c : Char} (hc : c ∈ part.toList) :
    c ∈ text.toList := by
  obtain ⟨before, after, rfl⟩ := h
  simp [hc]

theorem Within.append_left {part text : String} (h : Within part text) (before : String) :
    Within part (before ++ text) := by
  obtain ⟨b, a, rfl⟩ := h
  exact ⟨before ++ b, a, by simp only [String.append_assoc]⟩

theorem Within.append_right {part text : String} (h : Within part text) (after : String) :
    Within part (text ++ after) := by
  obtain ⟨b, a, rfl⟩ := h
  exact ⟨b, a ++ after, by simp only [String.append_assoc]⟩

theorem Within.refl (text : String) : Within text text := ⟨"", "", by simp⟩

/-- A longer text tells as much. -/
theorem Tells.mono {part text : String} {st : OramStatus} (h : Tells part st)
    (h' : Within part text) : Tells text st :=
  ⟨h.code.trans h', h.location.trans h', h.message.trans h'⟩

/-- A line, if there is one, tells its status. -/
theorem line_ok {st : OramStatus} (h : (kErrorList st.errorCode).isSome = true) :
    ∃ text, st.line = .ok text ∧ Tells text st := by
  obtain ⟨name, hname⟩ := Option.isSome_iff_exists.mp h
  have hcode : st.errorCode.codeName = name := codeName_of_kErrorList hname
  refine ⟨"[" ++ name ++ "@" ++ st.location ++ "]: " ++ st.errorMessage, ?_, ?_, ?_, ?_⟩
  · rw [line, hname]
  · rw [hcode]
    exact ⟨"[", "@" ++ st.location ++ "]: " ++ st.errorMessage, by simp only [String.append_assoc]⟩
  · exact ⟨"[" ++ name ++ "@", "]: " ++ st.errorMessage, by simp only [String.append_assoc]⟩
  · exact (Within.refl _).append_left _

/-- The lookup of a code that is not listed throws. -/
theorem line_error {st : OramStatus} (h : (kErrorList st.errorCode).isSome = false) :
    st.line = .error (.abort "std::out_of_range") := by
  rw [line, Option.isSome_eq_false_iff.mp h |> Option.isNone_iff_eq_none.mp]

/-- A line that came out is of a code in the list. -/
theorem listed_of_line {st : OramStatus} {text : String} (h : st.line = .ok text) :
    (kErrorList st.errorCode).isSome = true := by
  by_contra hnone
  cases (line_error (Bool.eq_false_iff.mpr hnone)).symm.trans h

/-- The line of the root is there unless the status is `OK`. -/
theorem ownLine_ok {st : OramStatus} (h : (kErrorList st.errorCode).isSome = true) :
    ∃ text, st.ownLine = .ok text ∧ (st.errorCode ≠ .kOK → Tells text st) := by
  by_cases hok : st.errorCode = .kOK
  · exact ⟨"", if_pos hok, fun hne => absurd hok hne⟩
  · obtain ⟨text, hline, htells⟩ := line_ok h
    exact ⟨text, (if_neg hok).trans hline, fun _ => htells⟩

/-- The name of `OK` is not looked up, but it is in the list. -/
theorem listed_of_ownLine {st : OramStatus} {text : String} (h : st.ownLine = .ok text) :
    (kErrorList st.errorCode).isSome = true := by
  by_cases hok : st.errorCode = .kOK
  · rw [hok]
    rfl
  · rw [ownLine, if_neg hok] at h
    exact listed_of_line h

/-- The loop returns with a line for the first status and the text of the others. -/
theorem emitNested_cons_eq_ok {st : OramStatus} {sts : List OramStatus} {text : String}
    (h : emitNested (st :: sts) = .ok text) :
    ∃ first rest, st.line = .ok first ∧ emitNested sts = .ok rest ∧
      text = first ++ "; caused by\n\t" ++ rest := by
  cases hfirst : st.line with
  | error stop =>
    rw [emitNested, hfirst] at h
    cases h
  | ok first =>
    cases hrest : emitNested sts with
    | error stop =>
      rw [emitNested, hfirst, hrest] at h
      cases h
    | ok rest =>
      rw [emitNested, hfirst, hrest] at h
      exact ⟨first, rest, rfl, rfl, (Except.ok.inj h).symm⟩

/-- `EmitString` returns with the text of the loop and its own line. -/
theorem emitString_eq_ok {st : OramStatus} {text : String} (h : st.emitString = .ok text) :
    ∃ nested own, emitNested st.nestedStatus.reverse = .ok nested ∧ st.ownLine = .ok own ∧
      text = "\n\t" ++ nested ++ own := by
  cases hnested : emitNested st.nestedStatus.reverse with
  | error stop =>
    rw [emitString, hnested] at h
    cases h
  | ok nested =>
    cases hown : st.ownLine with
    | error stop =>
      rw [emitString, hnested, hown] at h
      cases h
    | ok own =>
      rw [emitString, hnested, hown] at h
      exact ⟨nested, own, rfl, rfl, (Except.ok.inj h).symm⟩

/-- The loop tells every status of the list, if all codes have names. -/
theorem emitNested_ok {sts : List OramStatus}
    (h : ∀ t ∈ sts, (kErrorList t.errorCode).isSome = true) :
    ∃ text, emitNested sts = .ok text ∧ ∀ t ∈ sts, Tells text t := by
  induction sts with
  | nil => exact ⟨"", rfl, nofun⟩
  | cons t sts ih =>
    obtain ⟨first, hfirst, htells⟩ := line_ok (h t List.mem_cons_self)
    obtain ⟨rest, hrest, hall⟩ := ih fun t ht => h t (List.mem_cons_of_mem _ ht)
    refine ⟨first ++ "; caused by\n\t" ++ rest, ?_, fun s hs => ?_⟩
    · rw [emitNested, hfirst, hrest]
      rfl
    · rcases List.mem_cons.mp hs with rfl | hs
      · exact htells.mono (((Within.refl _).append_right _).append_right _)
      · exact (hall s hs).mono ((Within.refl _).append_left _)

/-- And it returns only then. -/
theorem listed_of_emitNested {sts : List OramStatus} {text : String}
    (h : emitNested sts = .ok text) : ∀ t ∈ sts, (kErrorList t.errorCode).isSome = true := by
  induction sts generalizing text with
  | nil => exact nofun
  | cons t sts ih =>
    obtain ⟨first, rest, hfirst, hrest, -⟩ := emitNested_cons_eq_ok h
    intro s hs
    rcases List.mem_cons.mp hs with rfl | hs
    · exact listed_of_line hfirst
    · exact ih hrest s hs

/-! ## `EmitString` -/

/-- The text, if all codes have names: it tells the status and its children. -/
theorem emitString_ok {st : OramStatus} (h : st.Listed) :
    ∃ text, st.emitString = .ok text ∧ (st.errorCode ≠ .kOK → Tells text st) ∧
      ∀ t ∈ st.nestedStatus, Tells text t := by
  obtain ⟨nested, hnested, hall⟩ := @emitNested_ok st.nestedStatus.reverse
    fun t ht => h.2 t (List.mem_reverse.mp ht)
  obtain ⟨own, hown, htells⟩ := ownLine_ok h.1
  refine ⟨"\n\t" ++ nested ++ own, ?_, fun hne => ?_, fun t ht => ?_⟩
  · rw [emitString, hnested, hown]
    rfl
  · exact (htells hne).mono ((Within.refl _).append_left _)
  · exact (hall t (List.mem_reverse.mpr ht)).mono
      (((Within.refl _).append_left _).append_right _)

/-- `EmitString` returns exactly if all codes that are looked up have names. -/
theorem emitString_returns_iff (st : OramStatus) :
    (∃ text, st.emitString = .ok text) ↔ st.Listed := by
  constructor
  · rintro ⟨text, h⟩
    obtain ⟨nested, own, hnested, hown, -⟩ := emitString_eq_ok h
    exact ⟨listed_of_ownLine hown,
      fun t ht => listed_of_emitNested hnested t (List.mem_reverse.mpr ht)⟩
  · intro h
    obtain ⟨text, hok, -⟩ := emitString_ok h
    exact ⟨text, hok⟩

/-- Nothing is left out of a flat tree. -/
theorem complete_of_flat {st : OramStatus} (hlisted : st.Listed) (hflat : st.Flat) :
    st.Complete := by
  obtain ⟨text, hok, hown, hall⟩ := emitString_ok hlisted
  refine ⟨text, hok, hown, fun s hs _ => ?_⟩
  cases hs with
  | direct hmem => exact hall s hmem
  | deeper hmem hinside =>
    have hnil := hflat _ hmem
    cases hinside with
    | direct hs => exact absurd (hnil ▸ hs) List.not_mem_nil
    | deeper ht _ => exact absurd (hnil ▸ ht) List.not_mem_nil

/-! ## What is built -/

/-- The children of what is built are no `OK`, and are built themselves. -/
theorem Built.children {st : OramStatus} (h : Built st) :
    ∀ t ∈ st.nestedStatus, t.errorCode ≠ .kOK ∧ Built t := by
  induction h with
  | default => exact nofun
  | make code msg location => exact nofun
  | @append st new _ hnew ih _ =>
    rw [OramStatus.append]
    split
    · exact ih
    next hok =>
      intro t ht
      rcases List.mem_append.mp ht with ht | ht
      · exact ih t ht
      · obtain rfl := List.mem_singleton.mp ht
        exact ⟨fun he => hok (by rw [ok, he]; rfl), hnew⟩
  | update code _ ih =>
    rw [OramStatus.update]
    split
    · exact ih
    · exact ih

/-- Whatever has such children is built: they are appended one after the other. -/
theorem built_of_children (code : StatusCode) (msg location : String) {nested : List OramStatus}
    (h : ∀ t ∈ nested, t.errorCode ≠ .kOK ∧ Built t) : Built ⟨code, msg, location, nested⟩ := by
  induction nested using List.reverseRecOn with
  | nil => exact .make code msg location
  | append_singleton nested t ih =>
    obtain ⟨hne, ht⟩ := h t (List.mem_append_right _ (List.mem_singleton.mpr rfl))
    have hbuilt := (ih fun s hs => h s (List.mem_append_left _ hs)).append ht
    rwa [OramStatus.append, if_neg (by rw [ok, beq_iff_eq]; exact hne)] at hbuilt

/-! ## A mark two levels down

To see what the text leaves out, a message is put two levels down that occurs nowhere
else. No line has it. -/

/-- The tree with a mark in the messages that have no line, and no texts in those that have one. -/
def marked (st : OramStatus) : OramStatus where
  errorCode := st.errorCode
  errorMessage := ""
  location := ""
  nestedStatus := st.nestedStatus.map fun t =>
    { errorCode := t.errorCode
      errorMessage := ""
      location := ""
      nestedStatus := t.nestedStatus.map fun s => { s with errorMessage := "#" } }

/-- A mark changes no code. -/
theorem sameCodes_marked (st : OramStatus) : SameCodes st st.marked := by
  refine .of_nested rfl (List.forall₂_map_right_iff.mpr (List.forall₂_same.mpr fun t _ => ?_))
  refine .of_nested rfl (List.forall₂_map_right_iff.mpr (List.forall₂_same.mpr fun s _ => ?_))
  exact .of_nested rfl (SameCodes.refl.children s.nestedStatus)

/-- A tree with a mark can be built as well. -/
theorem built_marked {st : OramStatus} (h : Built st) : Built st.marked := by
  refine built_of_children _ _ _ fun t' ht' => ?_
  obtain ⟨t, ht, rfl⟩ := List.mem_map.mp ht'
  obtain ⟨hne, hbuilt⟩ := h.children t ht
  refine ⟨hne, built_of_children _ _ _ fun s' hs' => ?_⟩
  obtain ⟨s, hs, rfl⟩ := List.mem_map.mp hs'
  obtain ⟨hne', hbuilt'⟩ := hbuilt.children s hs
  exact ⟨hne', built_of_children _ _ _ hbuilt'.children⟩

/-- A line without texts has no mark. -/
theorem mark_notMem_line {st : OramStatus} (hmsg : st.errorMessage = "") (hloc : st.location = "")
    {text : String} (h : st.line = .ok text) : '#' ∉ text.toList := by
  rw [line, hmsg, hloc] at h
  cases hcode : st.errorCode <;> rw [hcode] at h <;> cases h <;> decide

theorem mark_notMem_ownLine {st : OramStatus} (hmsg : st.errorMessage = "")
    (hloc : st.location = "") {text : String} (h : st.ownLine = .ok text) : '#' ∉ text.toList := by
  rw [ownLine] at h
  split at h
  · cases h
    decide
  · exact mark_notMem_line hmsg hloc h

theorem mark_notMem_emitNested {sts : List OramStatus}
    (hempty : ∀ t ∈ sts, t.errorMessage = "" ∧ t.location = "") {text : String}
    (h : emitNested sts = .ok text) : '#' ∉ text.toList := by
  induction sts generalizing text with
  | nil =>
    cases h
    decide
  | cons t sts ih =>
    obtain ⟨hmsg, hloc⟩ := hempty t List.mem_cons_self
    obtain ⟨first, rest, hfirst, hrest, rfl⟩ := emitNested_cons_eq_ok h
    have hno := mark_notMem_line hmsg hloc hfirst
    have hnone := ih (fun s hs => hempty s (List.mem_cons_of_mem _ hs)) hrest
    have hsep : '#' ∉ "; caused by\n\t".toList := by decide
    simp only [String.toList_append, List.mem_append, not_or]
    exact ⟨⟨hno, hsep⟩, hnone⟩

/-- `EmitString` does not tell the mark. -/
theorem mark_notMem_emitString {st : OramStatus} {text : String}
    (h : st.marked.emitString = .ok text) : '#' ∉ text.toList := by
  obtain ⟨nested, own, hnested, hown, rfl⟩ := emitString_eq_ok h
  have hempty : ∀ t ∈ st.marked.nestedStatus.reverse, t.errorMessage = "" ∧ t.location = "" := by
    intro t ht
    obtain ⟨t, -, rfl⟩ := List.mem_map.mp (List.mem_reverse.mp ht)
    exact ⟨rfl, rfl⟩
  have hno := mark_notMem_emitNested hempty hnested
  have hnone := mark_notMem_ownLine rfl rfl hown
  have hsep : '#' ∉ "\n\t".toList := by decide
  simp only [String.toList_append, List.mem_append, not_or]
  exact ⟨⟨hsep, hno⟩, hnone⟩

/-- What is two levels down is not told. -/
theorem not_complete_marked {st : OramStatus} (h : Built st) (hflat : ¬ st.Flat) :
    ¬ st.marked.Complete := by
  rintro ⟨text, hok, -, hinside⟩
  simp only [Flat, not_forall] at hflat
  obtain ⟨t, ht, hne⟩ := hflat
  obtain ⟨s, hs⟩ := List.exists_mem_of_ne_nil _ hne
  have hcode := (((h.children t ht).2).children s hs).1
  have hmem : Inside { s with errorMessage := "#" } st.marked :=
    .deeper (List.mem_map_of_mem ht) (.direct (List.mem_map_of_mem hs))
  have hmark : '#' ∈ "#".toList := by decide
  exact mark_notMem_emitString hok ((hinside _ hmem hcode).message.mem hmark)

/-- **When a status tells everything.** `EmitString` returns exactly if the code of the status and
those of its children are in `kErrorList`; and it tells everything about all trees with these codes,
whatever their texts, exactly if moreover the children have no children. -/
theorem emitString_complete_iff {st : OramStatus} (h : Built st) :
    ((∃ text, st.emitString = .ok text) ↔ st.Listed) ∧
    ((∀ st', Built st' → SameCodes st st' → st'.Complete) ↔ st.Listed ∧ st.Flat) := by
  refine ⟨emitString_returns_iff st, fun hall => ⟨?_, ?_⟩, fun ⟨hlisted, hflat⟩ st' _ hsame => ?_⟩
  · obtain ⟨text, hok, -⟩ := hall st h (SameCodes.refl st)
    exact (emitString_returns_iff st).mp ⟨text, hok⟩
  · by_contra hflat
    exact not_complete_marked h hflat (hall _ (built_marked h) (sameCodes_marked st))
  · refine complete_of_flat ⟨?_, fun t' ht' => ?_⟩ fun t' ht' => ?_
    · rw [hsame.errorCode_eq]
      exact hlisted.1
    · obtain ⟨t, ht, hcodes⟩ := hsame.exists_nested ht'
      rw [hcodes.errorCode_eq]
      exact hlisted.2 t ht
    · obtain ⟨t, ht, hcodes⟩ := hsame.exists_nested ht'
      have hlen := hcodes.nested.length_eq
      rw [hflat t ht] at hlen
      exact List.length_eq_zero_iff.mp hlen.symm

theorem emitString_complete_iff_permute :
    ((∃ text, (append (.make .kServerError "no connection" "DoPermute")
        (.make .kInvalidOperation "cannot permute" "PermuteOnFull")).emitString = .ok text) ↔
      (append (.make .kServerError "no connection" "DoPermute")
        (.make .kInvalidOperation "cannot permute" "PermuteOnFull")).Listed) ∧
    ((∀ st', Built st' → SameCodes (append (.make .kServerError "no connection" "DoPermute")
        (.make .kInvalidOperation "cannot permute" "PermuteOnFull")) st' → st'.Complete) ↔
      (append (.make .kServerError "no connection" "DoPermute")
        (.make .kInvalidOperation "cannot permute" "PermuteOnFull")).Listed ∧
      (append (.make .kServerError "no connection" "DoPermute")
        (.make .kInvalidOperation "cannot permute" "PermuteOnFull")).Flat) :=
  emitString_complete_iff (.append (.make _ _ _) (.make _ _ _))

/-- What `PartitionOramController` returns for a call it does not have. -/
def notImplemented : OramStatus := make .kUnimplemented "Not implemeneted" ""

/-- A status under a status that is appended. -/
def twoLevels : OramStatus :=
  append (make .kInvalidOperation "access failed" "Access")
    (append (make .kServerError "read failed" "ReadPath") (make .kOutOfMemory "quota" "Alloc"))

/-- The lookup throws for the one, and the text of the other does not tell of a quota. -/
theorem emitString_not_complete :
    (Built notImplemented ∧ notImplemented.emitString = .error (.abort "std::out_of_range") ∧
      ¬ notImplemented.Complete) ∧
    Built twoLevels ∧ twoLevels.emitString = .ok ("\n\t" ++ "[ServerError@ReadPath]: read failed" ++
      "; caused by\n\t" ++ "[InvalidOperation@Access]: access failed") ∧ ¬ twoLevels.Complete := by
  have hthrows : notImplemented.emitString = .error (.abort "std::out_of_range") := rfl
  have htext : twoLevels.emitString = .ok ("\n\t" ++ "[ServerError@ReadPath]: read failed" ++
      "; caused by\n\t" ++ "[InvalidOperation@Access]: access failed") := rfl
  refine ⟨⟨.make _ _ _, hthrows, ?_⟩, .append (.make _ _ _) (.append (.make _ _ _) (.make _ _ _)),
    htext, ?_⟩
  · rintro ⟨text, hok, -⟩
    cases hthrows.symm.trans hok
  · rintro ⟨text, hok, -, hinside⟩
    cases htext.symm.trans hok
    have htold := hinside (make .kOutOfMemory "quota" "Alloc")
      (.deeper (List.mem_singleton.mpr rfl) (.direct (List.mem_singleton.mpr rfl))) nofun
    exact absurd (htold.message.mem (show 'q' ∈ "quota".toList by decide)) (by decide)

end OramStatus

end ObliviousRam
