import ObliviousRam.OdictController

set_option autoImplicit false

/-!
# The nodes of the dictionary, seen through its cache

During an operation the dictionary sees a node in the cache if it is there, and
in the ORAM otherwise (`look`). A read does not change what it sees, and a write
changes it in one place, as long as `Put` pushes out no node that the ORAM does
not have (`Lost`); this is the bad event of this part of the development.

A `Discipline` is a reason why that does not happen. There are two: the cache
has room for all the nodes of the operation (`roomy`), or no node is changed
(`unchanging`).

The ORAM is taken as what the dictionary wants it to be, an array.
-/

namespace ObliviousRam

variable {V : Type}

/-- The `Access` of an ORAM that behaves as an array with the addresses `0`, …, `last`. -/
def arrayAccess (last : ℕ) (op : Operation) (id : ℕ) (block : OramBlock (TreeNode V)) :
    Prog Exit (ℕ → TreeNode V) (OramBlock (TreeNode V)) := fun m =>
  if id ≤ last then
    match op with
    | .kRead => (.ok { block with data := m id }, m)
    | .kWrite => (.ok block, Function.update m id block.data)
    | .kInvalid => (.error (.abort "Invalid ORAM operation!"), m)
  else (.error (.status (.make .kObjectNotFound "The requested block is not found." "Access")), m)

/-- A dictionary over an array: the parameters of its `OdictConfig`. -/
structure ArraySetup (V : Type) where
  last : ℕ
  clientCacheMaxSize : ℕ
  computePadVal : ℕ → ℕ
  garbage : OramBlock (TreeNode V)

/-- The configuration over the array. -/
def ArraySetup.config (A : ArraySetup V) : OdictConfig V (ℕ → TreeNode V) where
  access := arrayAccess A.last
  clientCacheMaxSize := A.clientCacheMaxSize
  computePadVal := A.computePadVal
  garbage := A.garbage

/-- A dictionary over an array. -/
abbrev ArrayOdict (V : Type) : Type := OdictController V (ℕ → TreeNode V)

namespace OdictController

/-- The node under an id, as an operation sees it. -/
def look (w : ArrayOdict V) (id : ℕ) : TreeNode V := (w.odsCache.find id).getD (w.oram id)

/-- A node was pushed out of the cache that the ORAM does not have. -/
def Lost (w : ArrayOdict V) : Prop := ∃ x ∈ w.pushedOut, w.oram x.id ≠ x

variable (A : ArraySetup V)

/-- The cache holds nodes under their own ids, which are addresses of the array,
and `heap` is what the operation sees. -/
structure Cached (heap : ℕ → TreeNode V) (w : ArrayOdict V) : Prop where
  valid : w.odsCache.Valid
  own : ∀ id x, w.odsCache.find id = some x → x.id = id ∧ id ≠ invalidMask ∧ id ≤ A.last
  look_eq : ∀ id, w.look id = heap id

/-- The state in the course of an operation that began in `w₀`: what the
operation sees, and how many reads and writes it has counted. -/
structure Shows (w₀ : ArrayOdict V) (heap : ℕ → TreeNode V) (reads writes : ℕ)
    (w : ArrayOdict V) : Prop extends Cached A heap w where
  oram_eq : w.oram = w₀.oram
  rootId_eq : w.rootId = w₀.rootId
  nodeCount_eq : w.nodeCount = w₀.nodeCount
  readCount_eq : w.readCount = w₀.readCount + reads
  writeCount_eq : w.writeCount = w₀.writeCount + writes
  latest : ∀ id ≠ invalidMask, ∀ x, w.stored.find? (fun x => x.id = id) = some x → heap id = x

/-- A property of the cache and of what it has pushed out that survives the
insertion of `allowed` nodes, while `o` has every node that is pushed out. -/
structure Discipline (o : ℕ → TreeNode V)
    (G : (ℕ → Option (TreeNode V)) → List (TreeNode V) → Prop) (allowed : TreeNode V → Prop) :
    Prop where
  safe : ∀ f p, G f p → ∀ x ∈ p, o x.id = x
  put : ∀ (c c' : OdsCache V) (p : List (TreeNode V)) (x : TreeNode V) (ret : Option (TreeNode V)),
    c.Valid → G c.find p → allowed x → (c.insert x.id x).Without c' ret →
      ((c.insert x.id x).lruTable.length ≤ A.clientCacheMaxSize → ret = none) →
        G c'.find (p ++ ret.toList)

/-- A discipline as a property of the controller. -/
def Guard (G : (ℕ → Option (TreeNode V)) → List (TreeNode V) → Prop) (w : ArrayOdict V) : Prop :=
  G w.odsCache.find w.pushedOut

variable {A} {w₀ w : ArrayOdict V} {heap : ℕ → TreeNode V} {reads writes : ℕ}
  {G : (ℕ → Option (TreeNode V)) → List (TreeNode V) → Prop} {allowed : TreeNode V → Prop}

/-! ## `Put` -/

/-- `Put` in the course of an operation: unless a node is lost, the operation
sees the node that was put, and what it saw before elsewhere. -/
theorem cachePut_spec (hw : Cached A heap w) {x : TreeNode V} (hid : x.id ≠ invalidMask)
    (hlast : x.id ≤ A.last) :
    ∃ ret c', cachePut A.config x.id x w =
        (.ok (), { w with odsCache := c', pushedOut := w.pushedOut ++ ret.toList }) ∧
      (w.odsCache.insert x.id x).Without c' ret ∧
      ((w.odsCache.insert x.id x).lruTable.length ≤ A.clientCacheMaxSize → ret = none) ∧
      (¬Lost { w with odsCache := c', pushedOut := w.pushedOut ++ ret.toList } →
        Cached A (Function.update heap x.id x)
          { w with odsCache := c', pushedOut := w.pushedOut ++ ret.toList }) := by
  obtain ⟨ret, c', hput, hvalid, hwithout, hroom⟩ :=
    OdsCache.put_spec hw.valid A.clientCacheMaxSize x.id x
  refine ⟨ret, c', ?_, hwithout, hroom, fun hlost => ⟨hvalid, fun id y hy => ?_, fun id => ?_⟩⟩
  · have hrun : onCache (OdsCache.put A.config.clientCacheMaxSize x.id x) w =
        (.ok ret, { w with odsCache := c' }) := onCache_eq hput
    rw [cachePut, Prog.bind_ok hrun]
    rfl
  · -- every node in the cache is the new one or was there before
    have hfind : (w.odsCache.insert x.id x).find id = some y := by
      rcases ret with _ | z
      · exact hwithout ▸ hy
      · obtain ⟨back, -, hother⟩ := hwithout
        rw [hother] at hy
        split at hy
        next => cases hy
        next => exact hy
    rw [OdsCache.find_insert] at hfind
    split at hfind
    next h =>
      cases hfind
      exact ⟨h.symm, h ▸ hid, h ▸ hlast⟩
    next => exact hw.own id y hfind
  · have hseen : ((w.odsCache.insert x.id x).find id).getD (w.oram id) =
        Function.update heap x.id x id := by
      rw [OdsCache.find_insert, Function.update_apply]
      split
      next => rfl
      next => exact hw.look_eq id
    rcases ret with _ | z
    · rw [← hseen, ← (show c' = _ from hwithout)]
      rfl
    · obtain ⟨back, hback, hother⟩ := hwithout
      rw [← hseen, look]
      simp only [hother]
      split
      next h =>
        -- the node that was pushed out is in the ORAM
        subst h
        have hzid : z.id = id := by
          rw [OdsCache.find_insert] at hback
          split at hback
          next h' =>
            cases hback
            exact h'.symm
          next => exact (hw.own id z hback).1
        have hclean : w.oram z.id = z := by
          by_contra hne
          exact hlost ⟨z, List.mem_append_right _ (List.mem_singleton.mpr rfl), hne⟩
        rw [hback, Option.getD_none, Option.getD_some, ← hzid]
        exact hclean
      next => rfl

/-- Under a discipline no node is lost. -/
theorem Discipline.not_lost {o : ℕ → TreeNode V} (hD : Discipline A o G allowed)
    (ho : w.oram = o) (hG : Guard G w) : ¬Lost w := by
  rintro ⟨x, hx, hne⟩
  rw [ho] at hne
  exact hne (hD.safe _ _ hG x hx)

/-- Under a discipline `Put` keeps the guard. -/
theorem Discipline.guard (hD : Discipline A w₀.oram G allowed) (hw : Cached A heap w)
    {x : TreeNode V} (hx : allowed x) {ret : Option (TreeNode V)} {c' : OdsCache V}
    (hwithout : (w.odsCache.insert x.id x).Without c' ret)
    (hroom : (w.odsCache.insert x.id x).lruTable.length ≤ A.clientCacheMaxSize → ret = none)
    (hG : Guard G w) :
    Guard G { w with odsCache := c', pushedOut := w.pushedOut ++ ret.toList } :=
  hD.put _ _ _ x ret hw.valid hG hx hwithout hroom

/-! ## Nothing undoes a loss

A node that `Put` has pushed out unsaved stays among the lost ones until the operation
ends, whatever comes after it. This makes the loss a sticky event, so that the
statements below can be read off the end of the operation. -/

section Sticky

variable (A)

instance {α : Type} (m : Prog Exit (OdsCache V) α) :
    Prog.Sticky Lost (onCache m : Prog Exit (ArrayOdict V) α) := ⟨fun _ h => h⟩

instance (id : ℕ) (x : TreeNode V) : Prog.Sticky Lost (cachePut A.config id x) :=
  ⟨.bind (Prog.Sticky.keeps) fun _ => .modify fun _ ⟨y, hy, hne⟩ =>
    ⟨y, List.mem_append_left _ hy, hne⟩⟩

instance (id : ℕ) (x : TreeNode V) : Prog.Sticky Lost (cacheHelper A.config id x) := by
  refine ⟨.bind (fun w h => ?_) fun _ => .pure _⟩
  have hsame : (onOram (A.config.access .kRead id (localBlock A.config id
      A.config.garbage.header.type A.config.garbage.data)) w).2 = w := by
    show { w with oram := (arrayAccess A.last .kRead id _ w.oram).2 } = w
    rw [arrayAccess]
    split <;> rfl
  rw [hsame]
  exact h

instance (reason : String) (x : TreeNode V) : Prog.Sticky Lost (writeNode A.config reason x) :=
  ⟨.bind (.mapError (.bind (.modify fun _ h => h) fun _ => .bind Prog.Sticky.keeps fun _ =>
    .bind Prog.Sticky.keeps fun _ => .pure _)) fun _ => .pure _⟩

instance (reason : String) (x : TreeNode V) :
    Prog.Sticky Lost (checkStatus reason (odsAccess A.config .kInsert x)) :=
  ⟨.mapError (.bind (.modify fun _ h => h) fun _ => .bind Prog.Sticky.keeps fun _ => .pure _)⟩

variable [Inhabited V]

instance (reason : String) (id : ℕ) : Prog.Sticky Lost (readNode A.config reason id) := by
  refine ⟨.mapError (.bind (.modify fun _ h => h) fun _ => .bind Prog.Sticky.keeps fun found => ?_)⟩
  cases found with
  | none => exact .bind (.mapError Prog.Sticky.keeps) fun _ => .bind Prog.Sticky.keeps fun _ => .pure _
  | some x => exact .pure x

end Sticky

/-! ## Writing, inserting, reading -/

/-- Putting a node that has just been recorded as stored. -/
theorem cachePut_stored (hD : Discipline A w₀.oram G allowed) (hw : Shows A w₀ heap reads writes w)
    {x : TreeNode V} (hid : x.id ≠ invalidMask) (hlast : x.id ≤ A.last) (hallowed : allowed x)
    {c : OdsCache V} (hc : c.Valid) (hfind : c.find = w.odsCache.find) (k : ℕ) :
    Prog.UpTo Lost (Guard G) (cachePut A.config x.id x)
      { w with writeCount := w.writeCount + k, stored := x :: w.stored, odsCache := c }
      fun _ w' => Shows A w₀ (Function.update heap x.id x) reads (writes + k) w' := by
  let w₁ : ArrayOdict V :=
    { w with writeCount := w.writeCount + k, stored := x :: w.stored, odsCache := c }
  have hw₁ : Cached A heap w₁ := by
    refine ⟨hc, fun j y hy => hw.own j y ?_, fun j => ?_⟩
    · rw [← hfind]
      exact hy
    · rw [← hw.look_eq j, look, look, hfind]
  obtain ⟨ret, c', hput, hwithout, hroom, hcached⟩ := cachePut_spec hw₁ hid hlast
  have hkeep : Guard G w₁ → Guard G { w₁ with
      odsCache := c', pushedOut := w₁.pushedOut ++ ret.toList } :=
    hD.guard hw₁ hallowed hwithout hroom
  refine .of_ok hput (fun h => ?_) hkeep
  have hnot : ¬Lost { w₁ with odsCache := c', pushedOut := w₁.pushedOut ++ ret.toList } :=
    h.elim (fun hgood => hgood) fun hG => hD.not_lost hw.oram_eq (hkeep hG)
  refine ⟨hcached hnot, hw.oram_eq, hw.rootId_eq, hw.nodeCount_eq, hw.readCount_eq, ?_,
    fun j hj y hy => ?_⟩
  · show w.writeCount + k = _
    rw [hw.writeCount_eq, Nat.add_assoc]
  · -- the node stored last is the one that is seen now
    have hy' : (x :: w.stored).find? (fun z => z.id = j) = some y := hy
    rw [List.find?_cons] at hy'
    rw [Function.update_apply]
    by_cases h : x.id = j
    · simp only [h, decide_true, Option.some.injEq] at hy'
      rw [if_pos h.symm]
      exact hy'
    · simp only [h, decide_false] at hy'
      rw [if_neg (Ne.symm h)]
      exact hw.latest j hj y hy'

/-- **A write** changes the node it writes. -/
theorem writeNode_spec (hD : Discipline A w₀.oram G allowed) (hw : Shows A w₀ heap reads writes w)
    (reason : String) {x : TreeNode V} (hid : x.id ≠ invalidMask) (hlast : x.id ≤ A.last)
    (hallowed : allowed x) :
    Prog.UpTo Lost (Guard G) (writeNode A.config reason x) w fun _ w' =>
      Shows A w₀ (Function.update heap x.id x) reads (writes + 1) w' := by
  obtain ⟨c, hget, hc, hitems⟩ := OdsCache.get_spec hw.valid x.id
  have hfind : c.find = w.odsCache.find := by
    funext k
    rw [OdsCache.find, hitems, OdsCache.find]
  have hstart : onCache (OdsCache.get x.id)
      { w with writeCount := w.writeCount + 1, stored := x :: w.stored } =
      (.ok (w.odsCache.find x.id),
        { w with writeCount := w.writeCount + 1, stored := x :: w.stored, odsCache := c }) :=
    onCache_eq hget
  have hrun : odsAccessWrite A.config x w = (cachePut A.config x.id x >>= fun _ => pure x)
      { w with writeCount := w.writeCount + 1, stored := x :: w.stored, odsCache := c } := by
    rw [odsAccessWrite, Prog.modify_bind]
    exact Prog.bind_ok hstart
  have hput : Prog.UpTo Lost (Guard G) (odsAccessWrite A.config x) w fun _ w' =>
      Shows A w₀ (Function.update heap x.id x) reads (writes + 1) w' := by
    refine .of_eq hrun (fun hG => ?_) (.bind (cachePut_stored hD hw hid hlast hallowed hc hfind 1)
      fun _ w' hw' => .pure hw')
    rw [Guard, hfind]
    exact hG
  exact .bind hput.mapError fun _ w' hw' => .pure hw'

/-- **An insertion** of a node into the cache. -/
theorem insertNode_spec (hD : Discipline A w₀.oram G allowed) (hw : Shows A w₀ heap reads writes w)
    (reason : String) {x : TreeNode V} (hid : x.id ≠ invalidMask) (hlast : x.id ≤ A.last)
    (hallowed : allowed x) :
    Prog.UpTo Lost (Guard G) (checkStatus reason (odsAccess A.config .kInsert x)) w fun y w' =>
      y = x ∧ Shows A w₀ (Function.update heap x.id x) reads writes w' := by
  have hput : Prog.UpTo Lost (Guard G) (odsAccessInsert A.config x) w fun y w' =>
      y = x ∧ Shows A w₀ (Function.update heap x.id x) reads writes w' := by
    have hrun : odsAccessInsert A.config x w = (cachePut A.config x.id x >>= fun _ => pure x)
        { w with writeCount := w.writeCount + 0, stored := x :: w.stored } := rfl
    exact .of_eq hrun (fun hG => hG) (.bind
      (cachePut_stored hD hw hid hlast hallowed hw.valid rfl 0) fun _ w' hw' => .pure ⟨rfl, hw'⟩)
  exact hput.mapError

variable [Inhabited V]

/-- **A read** returns the node that the operation sees. -/
theorem readNode_spec (hD : Discipline A w₀.oram G allowed) (hw : Shows A w₀ heap reads writes w)
    (reason : String) {id : ℕ} (hown : (heap id).id = id) (hid : id ≠ invalidMask)
    (hlast : id ≤ A.last) (hallowed : allowed (heap id)) :
    Prog.UpTo Lost (Guard G) (readNode A.config reason id) w fun x w' =>
      x = heap id ∧ Shows A w₀ heap (reads + 1) writes w' := by
  obtain ⟨c, hget, hc, hitems⟩ := OdsCache.get_spec hw.valid id
  have hfind : c.find = w.odsCache.find := by
    funext k
    rw [OdsCache.find, hitems, OdsCache.find]
  -- the count goes up, and the id comes first in the table
  let w₁ : ArrayOdict V := { w with readCount := w.readCount + 1, odsCache := c }
  have hw₁ : Shows A w₀ heap (reads + 1) writes w₁ := by
    refine ⟨⟨hc, fun k x hx => hw.own k x ?_, fun k => ?_⟩, hw.oram_eq, hw.rootId_eq,
      hw.nodeCount_eq, ?_, hw.writeCount_eq, hw.latest⟩
    · rw [← hfind]
      exact hx
    · rw [← hw.look_eq k, look, look, hfind]
    · show w.readCount + 1 = _
      rw [hw.readCount_eq, Nat.add_assoc]
  have hG₁ : Guard G w → Guard G w₁ := by
    intro hG
    rw [Guard, hfind]
    exact hG
  have hstart : onCache (OdsCache.get id) { w with readCount := w.readCount + 1 } =
      (.ok (w.odsCache.find id), w₁) := onCache_eq hget
  rcases hcase : w.odsCache.find id with _ | x
  · -- a miss: the node comes from the ORAM
    have horam : w₁.oram id = heap id := by
      rw [← hw.look_eq id, look, hcase]
      rfl
    have hhelper : cacheHelper A.config id (TreeNode.new id) w₁ = (.ok (heap id), w₁) := by
      have haccess : onOram (A.config.access .kRead id (localBlock A.config id
          A.config.garbage.header.type A.config.garbage.data)) w₁ =
          (.ok { localBlock A.config id A.config.garbage.header.type A.config.garbage.data with
            data := heap id }, w₁) := by
        refine onOram_eq ?_
        show arrayAccess A.last .kRead id _ w₁.oram = _
        rw [arrayAccess, if_pos hlast, horam]
      rw [cacheHelper, Prog.bind_ok haccess, if_pos hid]
      rfl
    obtain ⟨ret, c', hput, hwithout, hroom, hcached⟩ := cachePut_spec hw₁.toCached
      (x := heap id) (by rw [hown]; exact hid) (by rw [hown]; exact hlast)
    have hrun : readNode A.config reason id w = (.ok (heap id),
        { w₁ with odsCache := c', pushedOut := w₁.pushedOut ++ ret.toList }) := by
      rw [readNode, odsAccess, odsAccessRead]
      refine checkStatus_ok ?_
      rw [hcase] at hstart
      rw [Prog.modify_bind]
      simp only [TreeNode.new] at hhelper ⊢
      rw [Prog.bind_ok hstart]
      simp only
      rw [Prog.bind_ok (checkStatus_ok hhelper)]
      rw [hown] at hput
      exact Prog.bind_ok hput
    have hkeep : Guard G w → Guard G { w₁ with
        odsCache := c', pushedOut := w₁.pushedOut ++ ret.toList } :=
      fun hG => hD.guard hw₁.toCached hallowed hwithout hroom (hG₁ hG)
    refine .of_ok hrun (fun h => ⟨rfl, ?_⟩) hkeep
    have hnot : ¬Lost { w₁ with odsCache := c', pushedOut := w₁.pushedOut ++ ret.toList } :=
      h.elim (fun hgood => hgood) fun hG => hD.not_lost hw.oram_eq (hkeep hG)
    have hupdate : Function.update heap (heap id).id (heap id) = heap := by
      rw [hown, Function.update_eq_self]
    exact ⟨hupdate ▸ hcached hnot, hw₁.oram_eq, hw₁.rootId_eq, hw₁.nodeCount_eq, hw₁.readCount_eq,
      hw₁.writeCount_eq, hw₁.latest⟩
  · -- a hit
    have hx : x = heap id := by
      rw [← hw.look_eq id, look, hcase]
      rfl
    have hrun : readNode A.config reason id w = (.ok x, w₁) := by
      rw [readNode, odsAccess, odsAccessRead]
      refine checkStatus_ok ?_
      rw [hcase] at hstart
      rw [Prog.modify_bind]
      simp only [TreeNode.new]
      rw [Prog.bind_ok hstart]
      rfl
    exact .of_ok hrun (fun _ => ⟨hx, hw₁⟩) hG₁

end OdictController

end ObliviousRam
