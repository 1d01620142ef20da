import ObliviousRam.Connection
import ObliviousRam.OdictRun

set_option autoImplicit false

/-!
# Hits and misses of the dictionary

Every read of a node counts, but only a miss is an access to the ORAM. Here the
accesses are written down (`OdictConfig.logged`), and an operation is followed
through the cache: `Recalls` says which nodes it has touched, and which of them,
those used last, the cache still has. A node is a miss when it is read for the
first time. The nodes of a rotation are hits: `Recent` says that they are the
ones used last.

Unlike the specifications in terms of `Lost`, these hold whether nodes are
pushed out or not.
-/

namespace ObliviousRam

open BinaryTree (nil node Rotation)
open OdsTree (nodeOf topNode Represents Sound treeIds mem_treeIds_node sound_node)

variable {V σ : Type}

/-- The dictionary over an ORAM whose accesses are written down. -/
def OdictConfig.logged (K : OdictConfig V σ) : OdictConfig V (σ × List Operation) where
  access op id block := Prog.logged op (K.access op id block)
  clientCacheMaxSize := K.clientCacheMaxSize
  computePadVal := K.computePadVal
  garbage := K.garbage

/-- A dictionary over an array, with the accesses to it. -/
abbrev LoggedOdict (V : Type) : Type := OdictController V ((ℕ → TreeNode V) × List Operation)

namespace OdictController

/-- The state, with nothing written down yet. -/
def unlogged (w : OdictController V σ) : OdictController V (σ × List Operation) where
  oram := (w.oram, [])
  odsCache := w.odsCache
  rootId := w.rootId
  nodeCount := w.nodeCount
  readCount := w.readCount
  writeCount := w.writeCount
  stored := w.stored
  pushedOut := w.pushedOut

/-- The state in the course of an operation that began in `w₀`: `heap` are the
nodes as they were touched last, `touched` their ids, and `table` are the ids
that the cache still has. -/
structure Recalls (A : ArraySetup V) (w₀ : LoggedOdict V) (heap : ℕ → TreeNode V)
    (touched : Finset ℕ) (table : List ℕ) (reads writes misses : ℕ) (w : LoggedOdict V) : Prop where
  valid : w.odsCache.Valid
  table_eq : w.odsCache.lruTable = table
  find_eq : ∀ id ∈ table, w.odsCache.find id = some (heap id)
  touched_of_mem : ∀ id ∈ table, id ∈ touched
  length_eq : table.length = min touched.card A.clientCacheMaxSize
  heap_eq : ∀ id ∉ touched, heap id = w₀.oram.1 id
  oram_eq : w.oram = (w₀.oram.1, w₀.oram.2 ++ List.replicate misses .kRead)
  rootId_eq : w.rootId = w₀.rootId
  nodeCount_eq : w.nodeCount = w₀.nodeCount
  readCount_eq : w.readCount = w₀.readCount + reads
  writeCount_eq : w.writeCount = w₀.writeCount + writes

variable {A : ArraySetup V} {w₀ w : LoggedOdict V} {heap : ℕ → TreeNode V} {touched : Finset ℕ}
  {table : List ℕ} {reads writes misses : ℕ}

/-- The cache never holds more than it may. -/
theorem Recalls.length_le (hw : Recalls A w₀ heap touched table reads writes misses w) :
    table.length ≤ A.clientCacheMaxSize := hw.length_eq.trans_le (Nat.min_le_right _ _)

/-! ## The cache

`Get` finds a node that was touched and is not yet pushed out, and misses every other
one. Either way the node is then the last one touched, after the `Put` that follows a
miss. -/

/-- `Get` of a node that is there. -/
theorem Recalls.get_hit (hw : Recalls A w₀ heap touched table reads writes misses w) {id : ℕ}
    (hid : id ∈ table) :
    ∃ w', onCache (OdsCache.get id) w = (.ok (some (heap id)), w') ∧
      Recalls A w₀ heap touched (id :: table.erase id) reads writes misses w' := by
  have hperm := List.perm_cons_erase hid
  have hget : onCache (OdsCache.get id) w = (.ok (some (heap id)),
      { w with odsCache := { w.odsCache with lruTable := id :: table.erase id } }) := by
    apply onCache_eq
    rw [OdsCache.get_hit hw.valid (hw.find_eq id hid), hw.table_eq]
  refine ⟨_, hget, ?_, rfl, fun k hk => ?_, fun k hk => ?_, ?_, hw.heap_eq, hw.oram_eq,
    hw.rootId_eq, hw.nodeCount_eq, hw.readCount_eq, hw.writeCount_eq⟩
  · apply hw.valid.reorder
    rw [hw.table_eq]
    exact hperm.symm
  · exact hw.find_eq k (hperm.mem_iff.mpr hk)
  · exact hw.touched_of_mem k (hperm.mem_iff.mpr hk)
  · rw [← hperm.length_eq]
    exact hw.length_eq

/-- `Get` of a node that is not there. -/
theorem Recalls.get_miss (hw : Recalls A w₀ heap touched table reads writes misses w) {id : ℕ}
    (hid : id ∉ table) : onCache (OdsCache.get id) w = (.ok none, w) := by
  have hfind : w.odsCache.find id = none := by
    rw [← hw.table_eq, hw.valid.mem_iff, ← AList.lookup_isSome] at hid
    simpa [OdsCache.find] using hid
  exact onCache_eq (OdsCache.get_miss hfind)

/-- **`Put`**: the node is touched, and comes first in the cache. -/
theorem Recalls.put (hw : Recalls A w₀ heap touched table reads writes misses w) (x : TreeNode V) :
    ∃ w', cachePut A.config.logged x.id x w = (.ok (), w') ∧
      Recalls A w₀ (Function.update heap x.id x) (touched ∪ {x.id})
        (OdsCache.lruUse A.clientCacheMaxSize x.id table) reads writes misses w' := by
  have hsize : w.odsCache.lruTable.length ≤ A.clientCacheMaxSize := by
    rw [hw.table_eq]
    exact hw.length_le
  obtain ⟨ret, c, hput, hvalid, htable, hfind⟩ := OdsCache.put_recent hw.valid hsize x.id x
  have hrun : onCache (OdsCache.put A.clientCacheMaxSize x.id x) w =
      (.ok ret, { w with odsCache := c }) := onCache_eq hput
  rw [hw.table_eq] at htable
  rw [htable] at hfind
  refine ⟨{ w with odsCache := c, pushedOut := w.pushedOut ++ ret.toList }, ?_, hvalid, htable,
    fun k hk => ?_, fun k hk => ?_, ?_, fun k hk => ?_, hw.oram_eq, hw.rootId_eq, hw.nodeCount_eq,
    hw.readCount_eq, hw.writeCount_eq⟩
  · rw [cachePut]
    exact Prog.bind_ok hrun
  · show c.find k = _
    rw [hfind k hk, Function.update_apply]
    by_cases hkx : k = x.id
    · simp [hkx]
    · rw [if_neg hkx, if_neg hkx]
      exact hw.find_eq k ((OdsCache.mem_lruUse hk).resolve_left hkx)
  · rcases OdsCache.mem_lruUse hk with rfl | hk
    · simp
    · simp [hw.touched_of_mem k hk]
  · exact OdsCache.length_lruUse (hw.table_eq ▸ hw.valid.nodup) hw.touched_of_mem hw.length_eq
  · simp only [Finset.mem_union, Finset.mem_singleton, not_or] at hk
    rw [Function.update_of_ne hk.2, hw.heap_eq k hk.1]

/-! ## Reading, writing, inserting

`ReadNode` takes a node from the cache if it is there, and otherwise from the ORAM,
which is the only case in which an access is made. -/

/-- **A write**: the node is touched. -/
theorem writeNode_touches (hw : Recalls A w₀ heap touched table reads writes misses w)
    (reason : String) (x : TreeNode V) :
    ∃ w', writeNode A.config.logged reason x w = (.ok (), w') ∧
      Recalls A w₀ (Function.update heap x.id x) (touched ∪ {x.id})
        (OdsCache.lruUse A.clientCacheMaxSize x.id table) reads (writes + 1) misses w' := by
  let w₁ : LoggedOdict V := { w with writeCount := w.writeCount + 1, stored := x :: w.stored }
  have hw₁ : Recalls A w₀ heap touched table reads (writes + 1) misses w₁ :=
    { hw with writeCount_eq := by rw [← Nat.add_assoc, ← hw.writeCount_eq] }
  -- `Get` at most brings forward what `Put` brings forward anyway
  have hboth : ∃ found w₂ w', onCache (OdsCache.get x.id) w₁ = (.ok found, w₂) ∧
      cachePut A.config.logged x.id x w₂ = (.ok (), w') ∧
      Recalls A w₀ (Function.update heap x.id x) (touched ∪ {x.id})
        (OdsCache.lruUse A.clientCacheMaxSize x.id table) reads (writes + 1) misses w' := by
    by_cases hid : x.id ∈ table
    · obtain ⟨w₂, hget, hw₂⟩ := hw₁.get_hit hid
      obtain ⟨w', hput, hw'⟩ := hw₂.put x
      rw [OdsCache.lruUse_twice] at hw'
      exact ⟨_, w₂, w', hget, hput, hw'⟩
    · obtain ⟨w', hput, hw'⟩ := hw₁.put x
      exact ⟨_, w₁, w', hw₁.get_miss hid, hput, hw'⟩
  obtain ⟨found, w₂, w', hget, hput, hw'⟩ := hboth
  refine ⟨w', ?_, hw'⟩
  have hrun : odsAccess A.config.logged .kWrite x w = (.ok x, w') := by
    rw [odsAccess, odsAccessWrite, Prog.modify_bind, Prog.bind_ok hget, Prog.bind_ok hput]
    rfl
  rw [writeNode, Prog.bind_ok (checkStatus_ok hrun)]
  rfl

/-- **An insertion**: the node is touched. -/
theorem insertNode_touches (hw : Recalls A w₀ heap touched table reads writes misses w)
    (reason : String) (x : TreeNode V) :
    ∃ w', checkStatus reason (odsAccess A.config.logged .kInsert x) w = (.ok x, w') ∧
      Recalls A w₀ (Function.update heap x.id x) (touched ∪ {x.id})
        (OdsCache.lruUse A.clientCacheMaxSize x.id table) reads writes misses w' := by
  have hw₁ : Recalls A w₀ heap touched table reads writes misses
      { w with stored := x :: w.stored } := { hw with }
  obtain ⟨w', hput, hw'⟩ := hw₁.put x
  refine ⟨w', checkStatus_ok ?_, hw'⟩
  rw [odsAccess, odsAccessInsert, Prog.modify_bind, Prog.bind_ok hput]
  rfl

variable [Inhabited V]

/-- **A hit**: the node comes from the cache. -/
theorem readNode_hit (hw : Recalls A w₀ heap touched table reads writes misses w) (reason : String)
    {id : ℕ} (hid : id ∈ table) :
    ∃ w', readNode A.config.logged reason id w = (.ok (heap id), w') ∧
      Recalls A w₀ heap touched (id :: table.erase id) (reads + 1) writes misses w' := by
  have hw₁ : Recalls A w₀ heap touched table (reads + 1) writes misses
      { w with readCount := w.readCount + 1 } :=
    { hw with readCount_eq := by rw [← Nat.add_assoc, ← hw.readCount_eq] }
  obtain ⟨w', hget, hw'⟩ := hw₁.get_hit hid
  refine ⟨w', checkStatus_ok ?_, hw'⟩
  rw [odsAccess, odsAccessRead, Prog.modify_bind]
  simp only [TreeNode.new]
  rw [Prog.bind_ok hget]
  rfl

/-- **A miss**: the node is read from the ORAM. -/
theorem readNode_miss (hw : Recalls A w₀ heap touched table reads writes misses w) (reason : String)
    {id : ℕ} (htouched : id ∉ touched) (hown : (heap id).id = id) (hid : id ≠ invalidMask)
    (hlast : id ≤ A.last) :
    ∃ w', readNode A.config.logged reason id w = (.ok (heap id), w') ∧
      Recalls A w₀ heap (touched ∪ {id}) (OdsCache.lruUse A.clientCacheMaxSize id table)
        (reads + 1) writes (misses + 1) w' := by
  have hw₁ : Recalls A w₀ heap touched table (reads + 1) writes misses
      { w with readCount := w.readCount + 1 } :=
    { hw with readCount_eq := by rw [← Nat.add_assoc, ← hw.readCount_eq] }
  have hget := hw₁.get_miss fun h => htouched (hw.touched_of_mem id h)
  let w₂ : LoggedOdict V :=
    { w with readCount := w.readCount + 1, oram := (w.oram.1, w.oram.2 ++ [.kRead]) }
  have hw₂ : Recalls A w₀ heap touched table (reads + 1) writes (misses + 1) w₂ :=
    { hw₁ with
      oram_eq := by
        show (w.oram.1, w.oram.2 ++ [.kRead]) = _
        rw [hw.oram_eq, List.replicate_succ', List.append_assoc] }
  have haccess : cacheHelper A.config.logged id (TreeNode.new id)
      { w with readCount := w.readCount + 1 } = (.ok (heap id), w₂) := by
    have hread : onOram (A.config.logged.access .kRead id (localBlock A.config.logged id
        A.config.garbage.header.type A.config.garbage.data))
        { w with readCount := w.readCount + 1 } =
        (.ok { localBlock A.config.logged id A.config.garbage.header.type A.config.garbage.data with
          data := heap id }, w₂) := by
      refine onOram_eq ?_
      show ((arrayAccess A.last .kRead id _ w.oram.1).1,
        (arrayAccess A.last .kRead id _ w.oram.1).2, w.oram.2 ++ [.kRead]) = _
      rw [arrayAccess, if_pos hlast, hw.heap_eq id htouched, hw.oram_eq]
    rw [cacheHelper]
    apply (Prog.bind_ok hread).trans
    rw [if_pos hid]
    rfl
  obtain ⟨w', hput, hw'⟩ := hw₂.put (heap id)
  rw [hown, Function.update_eq_self] at hw'
  rw [hown] at hput
  refine ⟨w', checkStatus_ok ?_, hw'⟩
  rw [odsAccess, odsAccessRead, Prog.modify_bind]
  simp only [TreeNode.new] at haccess ⊢
  rw [Prog.bind_ok hget]
  simp only
  rw [Prog.bind_ok (checkStatus_ok haccess), Prog.bind_ok hput]
  rfl

end OdictController

end ObliviousRam
