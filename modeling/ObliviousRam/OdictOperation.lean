import ObliviousRam.OdictTree

set_option autoImplicit false

/-!
# The operations of the dictionary

What `Find` and `Insert` do to a dictionary at rest. The access phase is what
the functions on the tree do, under one of the two disciplines or as long as
nothing is lost; `OdsFinalize` takes what the operation sees over into the ORAM.
-/

namespace ObliviousRam

open BinaryTree (nil node Rotation)
open OdsTree (nodeOf topNode Represents treeIds Proper)

variable {V : Type} {A : ArraySetup V}

namespace OdictController

/-! ## Disciplines -/

/-- No reason why nothing should be lost. -/
theorem careless (o : ℕ → TreeNode V) :
    Discipline A o (fun _ _ => False) fun _ => True where
  safe := fun _ _ h => h.elim
  put := fun _ _ _ _ _ _ h => h.elim

/-- The cache has room for all nodes of the operation. -/
theorem roomy (o : ℕ → TreeNode V) {ids : List ℕ} (h : ids.length ≤ A.clientCacheMaxSize) :
    Discipline A o (fun f p => (∀ id x, f id = some x → id ∈ ids) ∧ p = [])
      fun x => x.id ∈ ids where
  safe := by
    rintro f p ⟨-, rfl⟩ x hx
    exact absurd hx List.not_mem_nil
  put := by
    rintro c c' p x ret hc ⟨hsub, rfl⟩ hx hwithout hroom
    have hsub' : ∀ id y, (c.insert x.id x).find id = some y → id ∈ ids := by
      intro id y hy
      rw [OdsCache.find_insert] at hy
      split at hy
      next he => exact he ▸ hx
      next => exact hsub id y hy
    have hvalid := hc.insert x.id x
    have hlength : (c.insert x.id x).lruTable.length ≤ ids.length := by
      refine (List.subperm_of_subset hvalid.nodup fun id hid => ?_).length_le
      obtain ⟨y, hy⟩ := hvalid.find_of_mem hid
      exact hsub' id y hy
    obtain rfl := hroom (hlength.trans h)
    obtain rfl : c' = _ := hwithout
    exact ⟨hsub', rfl⟩

/-- Every node in the cache is as the ORAM has it. -/
theorem unchanging (o : ℕ → TreeNode V) :
    Discipline A o (fun f p => (∀ id x, f id = some x → o id = x ∧ x.id = id) ∧
      ∀ x ∈ p, o x.id = x) fun x => o x.id = x where
  safe := fun _ _ h => h.2
  put := by
    rintro c c' p x ret hc ⟨hsame, hpushed⟩ hx hwithout -
    have hsame' : ∀ id y, (c.insert x.id x).find id = some y → o id = y ∧ y.id = id := by
      intro id y hy
      rw [OdsCache.find_insert] at hy
      split at hy
      next he =>
        cases hy
        exact ⟨he ▸ hx, he.symm⟩
      next => exact hsame id y hy
    rcases ret with _ | z
    · obtain rfl : c' = _ := hwithout
      exact ⟨hsame', by rw [Option.toList, List.append_nil]; exact hpushed⟩
    · obtain ⟨back, hback, hother⟩ := hwithout
      refine ⟨fun id y hy => ?_, fun y hy => ?_⟩
      · rw [hother] at hy
        split at hy
        next => cases hy
        next => exact hsame' id y hy
      · rcases List.mem_append.mp hy with hy | hy
        · exact hpushed y hy
        · obtain rfl := List.mem_singleton.mp hy
          obtain ⟨hz, hid⟩ := hsame' back y hback
          rw [hid, hz]

/-! ## The end of an operation -/

/-- Padding touches the block of address 0 at most. -/
theorem padAccesses_spec {op : Operation} (hop : op ≠ .kInvalid) (num : ℕ)
    (block : OramBlock (TreeNode V)) (w : ArrayOdict V) :
    ∃ o, padAccesses A.config op num block w = (.ok (), { w with oram := o }) ∧
      ∀ id ≠ invalidMask, o id = w.oram id := by
  induction num generalizing block w with
  | zero => exact ⟨w.oram, rfl, fun _ _ => rfl⟩
  | succ num ih =>
    obtain ⟨block', o₁, haccess, hsame₁⟩ : ∃ block' o₁,
        arrayAccess A.last op 0 block w.oram = (.ok block', o₁) ∧
          ∀ id ≠ invalidMask, o₁ id = w.oram id := by
      cases op with
      | kRead => exact ⟨_, _, if_pos (Nat.zero_le _), fun _ _ => rfl⟩
      | kWrite => exact ⟨_, _, if_pos (Nat.zero_le _), fun id hid => Function.update_of_ne hid _ _⟩
      | kInvalid => exact absurd rfl hop
    obtain ⟨o, hrest, hsame⟩ := ih block' { w with oram := o₁ }
    refine ⟨o, ?_, fun id hid => (hsame id hid).trans (hsame₁ id hid)⟩
    have hfirst : onOram (A.config.access op 0 block) w = (.ok block', { w with oram := o₁ }) :=
      onOram_eq haccess
    rw [padAccesses, Prog.bind_ok hfirst]
    exact hrest

/-- The loop of `OdsFinalize` leaves in the ORAM what was seen through the cache. -/
theorem evictCache_spec (n : ℕ) (w : ArrayOdict V) (hvalid : w.odsCache.Valid)
    (hown : ∀ id x, w.odsCache.find id = some x → x.id = id ∧ id ≤ A.last)
    (hsize : w.odsCache.cacheItems.entries.length = n) :
    ∃ o c, evictCache A.config n w = (.ok (), { w with oram := o, odsCache := c }) ∧
      o = w.look := by
  induction n generalizing w with
  | zero =>
    refine ⟨w.oram, w.odsCache, rfl, ?_⟩
    funext id
    have hlru : w.odsCache.lruTable = [] :=
      List.eq_nil_of_length_eq_zero (hvalid.length_eq.trans hsize)
    rcases hcase : w.odsCache.find id with _ | x
    · rw [look, hcase]
      rfl
    · have hmem := hvalid.mem_of_find hcase
      rw [hlru] at hmem
      exact absurd hmem List.not_mem_nil
  | succ n ih =>
    rw [← hvalid.length_eq] at hsize
    obtain ⟨id, rest, hlru⟩ := List.exists_cons_of_length_eq_add_one hsize
    obtain ⟨x, hx, hfront, c, hpop, hc, hrest, hfind⟩ := OdsCache.front_pop_spec hvalid hlru
    obtain ⟨hxid, hxlast⟩ := hown id x hx
    let w₁ : ArrayOdict V := { w with oram := Function.update w.oram id x, odsCache := c }
    have hlook : w₁.look = w.look := by
      funext k
      show (c.find k).getD (Function.update w.oram id x k) = _
      rw [hfind, look, Function.update_apply]
      split
      next h =>
        subst h
        rw [hx]
        rfl
      next => rfl
    obtain ⟨o, c', hrun, ho⟩ := ih w₁ hc
      (fun k y hy => by
        have hy' : c.find k = some y := hy
        rw [hfind] at hy'
        split at hy'
        next => cases hy'
        next => exact hown k y hy')
      (by
        show c.cacheItems.entries.length = n
        rw [← hc.length_eq, hrest]
        rw [hlru, List.length_cons] at hsize
        omega)
    refine ⟨o, c', ?_, ho.trans hlook⟩
    have hnonempty : w.odsCache.isEmpty = false := hvalid.isEmpty_eq_false hsize
    have hfront' : onCache OdsCache.front w = (.ok x, w) := onCache_eq hfront
    have hwrite : ignoreStatus (localBlock A.config x.id .kNormal x)
        (onOram (A.config.access .kWrite x.id (localBlock A.config x.id .kNormal x))) w =
        (.ok (localBlock A.config x.id .kNormal x),
          { w with oram := Function.update w.oram id x }) := by
      have haccess : onOram (A.config.access .kWrite x.id (localBlock A.config x.id .kNormal x)) w =
          (.ok (localBlock A.config x.id .kNormal x),
            { w with oram := Function.update w.oram id x }) := by
        refine onOram_eq ?_
        show arrayAccess A.last .kWrite x.id _ w.oram = _
        rw [arrayAccess, hxid, if_pos hxlast]
        rfl
      rw [ignoreStatus, haccess]
    have hpop' : onCache OdsCache.pop { w with oram := Function.update w.oram id x } =
        (.ok (), w₁) := onCache_eq hpop
    rw [evictCache, Prog.get_bind, hnonempty, if_neg Bool.false_ne_true, Prog.bind_ok hfront',
      Prog.bind_ok hwrite, Prog.bind_ok hpop']
    exact hrun

/-- **`OdsFinalize`**, if the padding suffices: the ORAM has what the operation saw. -/
theorem odsFinalize_spec {heap : ℕ → TreeNode V} {w : ArrayOdict V} (hw : Cached A heap w)
    {padVal : ℕ} (hread : w.readCount ≤ padVal) (hwrite : w.writeCount ≤ padVal) :
    ∃ o c, odsFinalize A.config padVal w =
        (.ok (), { w with oram := o, odsCache := c, readCount := 0, writeCount := 0 }) ∧
      ∀ id ≠ invalidMask, o id = heap id := by
  obtain ⟨o₁, hpad₁, hsame₁⟩ := padAccesses_spec (A := A)
    (by decide : Operation.kRead ≠ .kInvalid)
    (padVal - w.readCount) (localBlock A.config 0 .kNormal A.config.garbage.data) w
  obtain ⟨o₂, c, hevict, ho₂⟩ := evictCache_spec (A := A) _ { w with oram := o₁ } hw.valid
    (fun id x hx => ⟨(hw.own id x hx).1, (hw.own id x hx).2.2⟩) rfl
  obtain ⟨o₃, hpad₃, hsame₃⟩ := padAccesses_spec (A := A)
    (by decide : Operation.kWrite ≠ .kInvalid)
    (padVal - w.writeCount) (localBlock A.config 0 .kNormal A.config.garbage.data)
    { w with oram := o₂, odsCache := c }
  refine ⟨o₃, c, ?_, fun id hid => ?_⟩
  · rw [odsFinalize, Prog.get_bind, if_neg (Nat.not_lt.mpr hread), doPad, Prog.bind_ok hpad₁,
      Prog.get_bind, Prog.bind_ok hevict, Prog.get_bind, if_neg (Nat.not_lt.mpr hwrite), doPad,
      Prog.bind_ok hpad₃]
    rfl
  · rw [hsame₃ id hid]
    show o₂ id = heap id
    rw [ho₂, ← hw.look_eq id, look]
    show (w.odsCache.find id).getD (o₁ id) = w.look id
    rw [hsame₁ id hid, look]

/-! ## Between two operations

At rest the cache is empty and the ORAM has every node of the tree. An operation starts
from there and `OdsFinalize` brings it back there. -/

/-- A dictionary at rest, whose nodes in the ORAM represent `t`. -/
structure Rests (A : ArraySetup V) (t : OdsTree V) (w : ArrayOdict V) : Prop
    extends Proper A w.nodeCount t where
  rootId_eq : w.rootId = OdsTree.rootId t
  represents : Represents w.oram t
  readCount_eq : w.readCount = 0
  writeCount_eq : w.writeCount = 0
  latest : ∀ id ≠ invalidMask, ∀ x, w.stored.find? (fun x => x.id = id) = some x → w.oram id = x

/-- A new dictionary rests, and has no nodes. -/
theorem rests_new (o : ℕ → TreeNode V) : Rests A nil (new o) where
  toProper := OdsTree.proper_nil A
  rootId_eq := rfl
  represents := trivial
  readCount_eq := rfl
  writeCount_eq := rfl
  latest := nofun

/-- The state in which the tree is accessed, `nodeCount` being the counter then. -/
def started (w : ArrayOdict V) (nodeCount : ℕ) : ArrayOdict V :=
  { w with odsCache := .new, pushedOut := [], nodeCount := nodeCount }

theorem Rests.shows {t : OdsTree V} {w : ArrayOdict V} (hw : Rests A t w) (n : ℕ) :
    Shows A (started w n) w.oram 0 0 (started w n) where
  valid := OdsCache.valid_new
  own := nofun
  look_eq := fun _ => rfl
  oram_eq := rfl
  rootId_eq := rfl
  nodeCount_eq := rfl
  readCount_eq := rfl
  writeCount_eq := rfl
  latest := hw.latest

/-- The nodes on a search path are found under their ids. -/
theorem Rests.own_path {t : OdsTree V} {w : ArrayOdict V} (hw : Rests A t w) (key : ℕ) :
    ∀ x ∈ t.path OdsEntry.key key, w.oram (w.oram x.id).id = w.oram x.id := by
  have hrep := hw.represents
  clear hw
  induction t with
  | nil => exact fun x hx => absurd hx List.not_mem_nil
  | node y l r hl hr =>
    intro x hx
    rcases List.mem_cons.mp hx with rfl | hx
    · rw [hrep.1]
      exact hrep.1
    · split_ifs at hx
      · exact hr hrep.2.2 x hx
      · exact hl hrep.2.1 x hx
      · exact absurd hx List.not_mem_nil

/-- What an operation that began in `w` has come to before `OdsFinalize`. -/
structure Accessed (A : ArraySetup V) (w : ArrayOdict V) (t : OdsTree V) (heap : ℕ → TreeNode V)
    (reads writes nodeCount : ℕ) (w' : ArrayOdict V) : Prop extends Cached A heap w' where
  oram_eq : w'.oram = w.oram
  rootId_eq : w'.rootId = OdsTree.rootId t
  nodeCount_eq : w'.nodeCount = nodeCount
  represents : Represents heap t
  readCount_eq : w'.readCount = reads
  writeCount_eq : w'.writeCount = writes
  latest : ∀ id ≠ invalidMask, ∀ x, w'.stored.find? (fun x => x.id = id) = some x → heap id = x
  not_lost : ¬Lost w'

variable [Inhabited V]

/-- Nothing is lost by a search. -/
theorem findAccess_spec {t : OdsTree V} {w : ArrayOdict V} (hw : Rests A t w) (key : ℕ) :
    ∃ w', findAccess A.config key w =
        (.ok ((t.search OdsEntry.key key).map fun e => w.oram e.id), w') ∧
      Accessed A w t w.oram (t.path OdsEntry.key key).length 0 w.nodeCount w' := by
  have hD : Discipline A (started w w.nodeCount).oram _ _ := unchanging w.oram
  have hfuel : t.height < w.nodeCount := t.height_le_numNodes.trans_lt hw.size_lt
  have hstart : findAccess A.config key w =
      internalFind A.config key w.nodeCount w.rootId (started w w.nodeCount) := rfl
  obtain ⟨found, w', hrun, ⟨rfl, hw'⟩, hG⟩ := internalFind_spec hD hw.represents hw.toSound key
    (hw.own_path key) hfuel (hw.shows w.nodeCount) (.inr ⟨nofun, nofun⟩)
  refine ⟨w', ?_, hw'.toCached, hw'.oram_eq, hw'.rootId_eq.trans hw.rootId_eq, hw'.nodeCount_eq,
    hw.represents, ?_, ?_, hw'.latest, hD.not_lost hw'.oram_eq (hG ⟨nofun, nofun⟩)⟩
  · rw [hstart, hw.rootId_eq]
    exact hrun
  · rw [hw'.readCount_eq]
    show w.readCount + _ = _
    rw [hw.readCount_eq, Nat.zero_add, Nat.zero_add]
  · rw [hw'.writeCount_eq]
    exact hw.writeCount_eq

/-- The last step of `Insert` before `OdsFinalize`. -/
def setRoot (ans : TreeNode V) : Prog Exit (ArrayOdict V) (TreeNode V) := do
  Prog.modify fun w => { w with rootId := ans.id }
  pure ans

instance (ans : TreeNode V) : Prog.Sticky Lost (setRoot ans) :=
  ⟨.bind (.modify fun _ h => h) fun _ => .pure _⟩

/-- What is left of `Insert` before `OdsFinalize` once the tree is built. -/
theorem setRoot_spec {G : (ℕ → Option (TreeNode V)) → List (TreeNode V) → Prop}
    {allowed : TreeNode V → Prop} {t₀ t : OdsTree V} {w : ArrayOdict V} (hw : Rests A t₀ w)
    (hD : Discipline A w.oram G allowed) {m : Prog Exit (ArrayOdict V) (TreeNode V)}
    {reads writes n : ℕ} {extra : (ℕ → TreeNode V) → Prop}
    (hm : Prog.UpTo Lost (Guard G) m (started w n) fun top w' =>
      ∃ heap, top = topNode t ∧ Shows A (started w n) heap (0 + reads) (0 + writes) w' ∧
        Represents heap t ∧ extra heap)
    (hsafe : ¬Lost ((m >>= setRoot) (started w n)).2 ∨ Guard G (started w n)) :
    ∃ heap w', (m >>= setRoot) (started w n) = (.ok (topNode t), w') ∧
      Accessed A w t heap reads writes n w' ∧ extra heap := by
  obtain ⟨_, w₁, hrun, ⟨heap, rfl, hw₁, ht, hextra⟩, hG⟩ :=
    hm (hsafe.imp_left Prog.Sticky.before)
  have hset : (m >>= setRoot) (started w n) =
      (.ok (topNode t), { w₁ with rootId := (topNode t).id }) := Prog.bind_ok hrun
  have hnot : ¬Lost w₁ := by
    rcases hsafe with hgood | hstart
    · rw [hset] at hgood
      exact hgood
    · exact hD.not_lost hw₁.oram_eq (hG hstart)
  refine ⟨heap, _, hset, ⟨⟨hw₁.valid, hw₁.own, hw₁.look_eq⟩, hw₁.oram_eq, OdsTree.topNode_id t,
    hw₁.nodeCount_eq, ht, ?_, ?_, hw₁.latest, hnot⟩, hextra⟩
  · show w₁.readCount = reads
    rw [hw₁.readCount_eq, Nat.zero_add]
    show w.readCount + _ = _
    rw [hw.readCount_eq, Nat.zero_add]
  · show w₁.writeCount = writes
    rw [hw₁.writeCount_eq, Nat.zero_add]
    show w.writeCount + _ = _
    rw [hw.writeCount_eq, Nat.zero_add]

/-- **An insertion inserts into the tree**, if nothing is lost. That is so if the
key is known, or else if the cache has room for the search path and the new node. -/
theorem insertAccess_spec {t : OdsTree V} {w : ArrayOdict V} (hw : Rests A t w)
    (hlast : w.nodeCount ≤ A.last) (hwidth : A.last < 2 ^ 32) (kvPair : ℕ × V)
    (hsafe : (t.search OdsEntry.key kvPair.1 = none →
        (t.path OdsEntry.key kvPair.1).length < A.clientCacheMaxSize) ∨
      ¬Lost (insertAccess A.config kvPair w).2) :
    ∃ heap w', insertAccess A.config kvPair w =
        (.ok (topNode (t.avlInsert OdsEntry.key ⟨w.nodeCount, kvPair⟩)), w') ∧
      Accessed A w (t.avlInsert OdsEntry.key ⟨w.nodeCount, kvPair⟩) heap
        ((t.path OdsEntry.key kvPair.1).length +
          readPrice (t.insertRotation OdsEntry.key ⟨w.nodeCount, kvPair⟩))
        ((t.path OdsEntry.key kvPair.1).length +
          writePrice (t.insertRotation OdsEntry.key ⟨w.nodeCount, kvPair⟩)) (w.nodeCount + 1) w' ∧
      (t.search OdsEntry.key kvPair.1 ≠ none → heap = w.oram) := by
  let e : OdsEntry V := ⟨w.nodeCount, kvPair⟩
  let w₀ := started w (w.nodeCount + 1)
  have hfuel : t.height < w.nodeCount + 1 := by
    have := t.height_le_numNodes.trans_lt hw.size_lt
    omega
  have hid : w.nodeCount % 2 ^ 32 = w.nodeCount := Nat.mod_eq_of_lt (by omega)
  have hnode : nodeOf e nil nil =
      { (TreeNode.new (w.nodeCount % 2 ^ 32) : TreeNode V) with kvPair := kvPair } := by
    rw [hid]
    rfl
  have hstart : insertAccess A.config kvPair w =
      (internalInsert A.config (nodeOf e nil nil) (w.nodeCount + 1) (OdsTree.rootId t) >>=
        fun ans => setRoot ans) w₀ := by
    rw [hnode, ← hw.rootId_eq]
    rfl
  rw [hstart] at hsafe ⊢
  cases hfound : t.search OdsEntry.key kvPair.1 with
  | some x =>
    -- every node is written back as it was read
    have hknown : t.search OdsEntry.key e.key ≠ none := fun h =>
      Option.some_ne_none x (hfound.symm.trans h)
    obtain ⟨hsame, hnone⟩ := BinaryTree.avlInsert_of_search (a := e) hw.balanced hknown
    have hD : Discipline A w₀.oram _ _ := unchanging w.oram
    rw [hsame, hnone]
    refine setRoot_spec hw hD ?_ (.inr ⟨nofun, nofun⟩)
    refine (internalInsert_known hD hw.represents hw.toSound hw.balanced
      (nodeOf e nil nil) hknown (hw.own_path kvPair.1) hfuel (hw.shows _)).mono ?_
    rintro top w' ⟨htop, hw'⟩
    exact ⟨w.oram, htop, hw', hw.represents, fun _ => rfl⟩
  | none =>
    have hnew : e.id ∉ treeIds t := fun h => absurd (hw.fresh _ h) (Nat.lt_irrefl _)
    have haddress : e.id ≠ invalidMask ∧ e.id ≤ A.last := ⟨hw.ne_invalidMask, hlast⟩
    have hbuilt : ∀ top w', Builds A w₀ w.oram (t.avlInsert OdsEntry.key e)
        (0 + t.insertCost OdsEntry.key readPrice e) (0 + t.insertCost OdsEntry.key writePrice e)
        top w' → ∃ heap, top = topNode (t.avlInsert OdsEntry.key e) ∧
          Shows A w₀ heap (0 + ((t.path OdsEntry.key kvPair.1).length +
            readPrice (t.insertRotation OdsEntry.key e)))
            (0 + ((t.path OdsEntry.key kvPair.1).length +
              writePrice (t.insertRotation OdsEntry.key e))) w' ∧
          Represents heap (t.avlInsert OdsEntry.key e) ∧
          ((none : Option (OdsEntry V)) ≠ none → heap = w.oram) := by
      rintro top w' ⟨heap, htop, hw', ht', -⟩
      rw [BinaryTree.insertCost_eq rfl e hw.balanced, BinaryTree.insertCost_eq rfl e hw.balanced]
        at hw'
      exact ⟨heap, htop, hw', ht', fun h => absurd rfl h⟩
    rw [hfound] at hsafe
    rcases hsafe with hroom | hgood
    · -- the cache takes the path and the new node
      have hids : ((e :: t.path OdsEntry.key e.key).map OdsEntry.id).length ≤
          A.clientCacheMaxSize := by
        rw [List.length_map, List.length_cons]
        exact hroom rfl
      have hD : Discipline A w₀.oram _ _ := roomy w.oram hids
      refine setRoot_spec hw hD ?_ (.inr ⟨nofun, rfl⟩)
      refine (internalInsert_new hD hw.represents hw.toSound hnew haddress hfound
        (fun v hv => ?_) hfuel (hw.shows _)).mono hbuilt
      obtain ⟨y, hy, hvy⟩ := hv
      rw [hvy]
      exact List.mem_map_of_mem ((BinaryTree.insertVisits_subset e hw.balanced
        (fun b => b ∈ e :: t.path OdsEntry.key e.key) List.mem_cons_self
        fun b hb => List.mem_cons_of_mem e hb).1 y hy)
    · have hD : Discipline A w₀.oram _ _ := careless w.oram
      refine setRoot_spec hw hD ?_ (.inl hgood)
      refine (internalInsert_new hD hw.represents hw.toSound hnew haddress hfound
        (fun _ _ => trivial) hfuel (hw.shows _)).mono hbuilt

end OdictController

end ObliviousRam
