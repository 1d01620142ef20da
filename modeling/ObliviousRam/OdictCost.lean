import ObliviousRam.OdictMisses
import ObliviousRam.OdictMap

set_option autoImplicit false

/-!
# What a call of the dictionary costs

The accesses to the ORAM that a call makes, with the padding and the flush of the
cache (`run_log`). The padding is computed from counters in which a hit counts
like a miss, and the flush is not in them, so that the numbers give away which
repair an insertion made and how many nodes were flushed.
-/

namespace ObliviousRam

open BinaryTree (nil node Rotation)
open OdsTree (nodeOf topNode Represents Sound treeIds mem_treeIds_node sound_node)

variable {V : Type} {A : ArraySetup V}

namespace OdictController

/-! ## The end of an operation -/

/-- Padding makes the accesses that it is asked for. -/
theorem padAccesses_log {op : Operation} (hop : op ≠ .kInvalid) (num : ℕ)
    (block : OramBlock (TreeNode V)) (w : LoggedOdict V) :
    ∃ o, padAccesses A.config.logged op num block w =
      (.ok (), { w with oram := (o, w.oram.2 ++ List.replicate num op) }) := by
  induction num generalizing block w with
  | zero =>
    refine ⟨w.oram.1, ?_⟩
    simp [padAccesses]
  | succ num ih =>
    obtain ⟨block', o₁, haccess⟩ : ∃ block' o₁,
        arrayAccess A.last op 0 block w.oram.1 = (.ok block', o₁) := by
      cases op with
      | kRead => exact ⟨_, _, if_pos (Nat.zero_le _)⟩
      | kWrite => exact ⟨_, _, if_pos (Nat.zero_le _)⟩
      | kInvalid => exact absurd rfl hop
    have hfirst : onOram (A.config.logged.access op 0 block) w =
        (.ok block', { w with oram := (o₁, w.oram.2 ++ [op]) }) := by
      refine onOram_eq ?_
      show ((arrayAccess A.last op 0 block w.oram.1).1,
        (arrayAccess A.last op 0 block w.oram.1).2, w.oram.2 ++ [op]) = _
      rw [haccess]
    obtain ⟨o, hrest⟩ := ih block' { w with oram := (o₁, w.oram.2 ++ [op]) }
    refine ⟨o, ?_⟩
    rw [padAccesses, Prog.bind_ok hfirst, hrest, List.append_assoc]
    rfl

/-- A node that is flushed is written once, whether the ORAM has its address or not. -/
theorem flush_log (x : TreeNode V) (w : LoggedOdict V) :
    ∃ o, ignoreStatus (localBlock A.config.logged x.id .kNormal x)
        (onOram (A.config.logged.access .kWrite x.id
          (localBlock A.config.logged x.id .kNormal x))) w =
      (.ok (localBlock A.config.logged x.id .kNormal x),
        { w with oram := (o, w.oram.2 ++ [.kWrite]) }) := by
  have hrun : ∀ r o, arrayAccess A.last .kWrite x.id (localBlock A.config.logged x.id .kNormal x)
      w.oram.1 = (r, o) → onOram (A.config.logged.access .kWrite x.id
        (localBlock A.config.logged x.id .kNormal x)) w =
          (r, { w with oram := (o, w.oram.2 ++ [.kWrite]) }) := by
    intro r o haccess
    refine onOram_eq ?_
    show ((arrayAccess A.last .kWrite x.id _ w.oram.1).1,
      (arrayAccess A.last .kWrite x.id _ w.oram.1).2, w.oram.2 ++ [.kWrite]) = _
    rw [haccess]
  by_cases hlast : x.id ≤ A.last
  · refine ⟨Function.update w.oram.1 x.id x, ?_⟩
    rw [ignoreStatus, hrun _ _ (if_pos hlast)]
    rfl
  · refine ⟨w.oram.1, ?_⟩
    rw [ignoreStatus, hrun _ _ (if_neg hlast)]

/-- The loop of `OdsFinalize` makes a write for every node in the cache. -/
theorem evictCache_log (n : ℕ) (w : LoggedOdict V) (hvalid : w.odsCache.Valid)
    (hsize : w.odsCache.lruTable.length = n) :
    ∃ o c, evictCache A.config.logged n w = (.ok (),
      { w with oram := (o, w.oram.2 ++ List.replicate n .kWrite), odsCache := c }) := by
  induction n generalizing w with
  | zero =>
    refine ⟨w.oram.1, w.odsCache, ?_⟩
    simp [evictCache]
  | succ n ih =>
    obtain ⟨id, rest, hlru⟩ := List.exists_cons_of_length_eq_add_one hsize
    obtain ⟨x, -, hfront, c, hpop, hc, hrest, -⟩ := OdsCache.front_pop_spec hvalid hlru
    obtain ⟨o₁, hwrite⟩ := flush_log (A := A) x w
    obtain ⟨o, c', hloop⟩ := ih { w with oram := (o₁, w.oram.2 ++ [.kWrite]), odsCache := c } hc (by
      rw [hlru, List.length_cons] at hsize
      rw [hrest]
      omega)
    have hnonempty : w.odsCache.isEmpty = false := hvalid.isEmpty_eq_false hsize
    have hfront' : onCache OdsCache.front w = (.ok x, w) := onCache_eq hfront
    have hpop' : onCache OdsCache.pop { w with oram := (o₁, w.oram.2 ++ [.kWrite]) } =
        (.ok (), { w with oram := (o₁, w.oram.2 ++ [.kWrite]), odsCache := c }) := onCache_eq hpop
    refine ⟨o, c', ?_⟩
    rw [evictCache, Prog.get_bind, hnonempty, if_neg Bool.false_ne_true, Prog.bind_ok hfront',
      Prog.bind_ok hwrite, Prog.bind_ok hpop', hloop, List.append_assoc]
    rfl

/-- **`OdsFinalize`** pads the reads, flushes the cache and pads the writes. -/
theorem odsFinalize_log {padVal : ℕ} {w w' : LoggedOdict V} (hvalid : w.odsCache.Valid)
    (h : odsFinalize A.config.logged padVal w = (.ok (), w')) :
    w.readCount ≤ padVal ∧ w.writeCount ≤ padVal ∧
      w'.oram.2 = w.oram.2 ++ List.replicate (padVal - w.readCount) .kRead ++
        List.replicate w.odsCache.lruTable.length .kWrite ++
        List.replicate (padVal - w.writeCount) .kWrite := by
  obtain ⟨o₁, hpad₁⟩ := padAccesses_log (A := A) (by decide : Operation.kRead ≠ .kInvalid)
    (padVal - w.readCount) (localBlock A.config.logged 0 .kNormal A.config.logged.garbage.data) w
  obtain ⟨o₂, c, hevict⟩ := evictCache_log (A := A) _
    { w with oram := (o₁, w.oram.2 ++ List.replicate (padVal - w.readCount) .kRead) } hvalid rfl
  obtain ⟨o₃, hpad₃⟩ := padAccesses_log (A := A) (by decide : Operation.kWrite ≠ .kInvalid)
    (padVal - w.writeCount) (localBlock A.config.logged 0 .kNormal A.config.logged.garbage.data)
    { w with
      oram := (o₂, w.oram.2 ++ List.replicate (padVal - w.readCount) .kRead ++
        List.replicate w.odsCache.lruTable.length .kWrite)
      odsCache := c }
  rw [odsFinalize, Prog.get_bind] at h
  split at h
  next => cases h
  next hread =>
    rw [doPad, Prog.bind_ok hpad₁, Prog.get_bind, ← hvalid.length_eq, Prog.bind_ok hevict,
      Prog.get_bind] at h
    split at h
    next => cases h
    next hwrite =>
      rw [doPad, Prog.bind_ok hpad₃] at h
      cases h
      exact ⟨not_lt.mp hread, not_lt.mp hwrite, rfl⟩

/-! ## The nodes of a path -/

theorem card_idSet {entries : List (OdsEntry V)} (h : (entries.map OdsEntry.id).Nodup) :
    (idSet entries).card = entries.length := by
  rw [idSet, List.toFinset_card_of_nodup h, List.length_map]

theorem mem_treeIds_of_path {t : OdsTree V} {key id : ℕ}
    (h : id ∈ (t.path OdsEntry.key key).map OdsEntry.id) : id ∈ treeIds t := by
  obtain ⟨x, hx, rfl⟩ := List.mem_map.mp h
  exact List.mem_map_of_mem (BinaryTree.mem_inorder_of_mem_path hx)

/-- The nodes of a search path have distinct ids. -/
theorem nodup_path {t : OdsTree V} (hs : Sound A t) (key : ℕ) :
    ((t.path OdsEntry.key key).map OdsEntry.id).Nodup := by
  induction t with
  | nil => exact List.nodup_nil
  | node x l r hl hr =>
    obtain ⟨hsl, hsr, -, hxl, hxr, -⟩ := sound_node.mp hs
    rw [BinaryTree.path, List.map_cons, List.nodup_cons]
    split_ifs
    · exact ⟨fun h => hxr (mem_treeIds_of_path h), hr hsr⟩
    · exact ⟨fun h => hxl (mem_treeIds_of_path h), hl hsl⟩
    · exact ⟨List.not_mem_nil, List.nodup_nil⟩

/-- The beginning of an operation. -/
theorem recalls_started (w : ArrayOdict V) (n : ℕ) :
    Recalls A (started w n).unlogged w.oram ∅ [] 0 0 0 (started w n).unlogged where
  valid := OdsCache.valid_new
  table_eq := rfl
  find_eq := nofun
  touched_of_mem := nofun
  length_eq := by simp
  heap_eq := fun _ _ => rfl
  oram_eq := rfl
  rootId_eq := rfl
  nodeCount_eq := rfl
  readCount_eq := rfl
  writeCount_eq := rfl

end OdictController

namespace OdictCall

open OdictController

/-! ## The access phase -/

/-- How many nodes the call touches: those on the search path and a new one. -/
def touches (t : OdsTree V) (c : OdictCall V) : ℕ :=
  (t.path OdsEntry.key c.key).length +
    if c.isInsert && (t.search OdsEntry.key c.key).isNone then 1 else 0

/-- How many nodes it flushes: as many as the cache still has. -/
def flushed (A : ArraySetup V) (t : OdsTree V) (c : OdictCall V) : ℕ :=
  min (c.touches t) A.clientCacheMaxSize

/-- How many nodes it rewrites on the way up. -/
def rewrites (t : OdsTree V) (c : OdictCall V) : ℕ :=
  if c.isInsert then (t.path OdsEntry.key c.key).length else 0

/-- The state of the call when `OdsFinalize` is called. -/
structure Spent (A : ArraySetup V) (n : ℕ) (t : OdsTree V) (c : OdictCall V)
    (w : LoggedOdict V) : Prop where
  valid : w.odsCache.Valid
  length_eq : w.odsCache.lruTable.length = c.flushed A t
  readCount_eq : w.readCount = c.reads n t
  writeCount_eq : w.writeCount = c.writes n t
  nodeCount_eq : w.nodeCount = c.count n
  log_eq : w.oram.2 = List.replicate (t.path OdsEntry.key c.key).length .kRead

/-- What is left of the access phase, read off its course. -/
theorem spent_of_recalls {t : OdsTree V} {w : ArrayOdict V} (hw : Rests A t w) {c : OdictCall V}
    {heap : ℕ → TreeNode V} {touched : Finset ℕ} {table : List ℕ} {reads writes misses : ℕ}
    {w' : LoggedOdict V}
    (h : Recalls A (started w (c.count w.nodeCount)).unlogged heap touched table reads writes misses
      w')
    (htouched : touched.card = c.touches t) (hreads : reads = c.reads w.nodeCount t)
    (hwrites : writes = c.writes w.nodeCount t)
    (hmisses : misses = (t.path OdsEntry.key c.key).length) (rootId : ℕ) :
    Spent A w.nodeCount t c { w' with rootId := rootId } where
  valid := h.valid
  length_eq := by
    show w'.odsCache.lruTable.length = _
    rw [h.table_eq, h.length_eq, htouched, flushed]
  readCount_eq := by
    have hstart : (started w (c.count w.nodeCount)).unlogged.readCount = 0 := hw.readCount_eq
    exact h.readCount_eq.trans (by rw [hstart, Nat.zero_add, hreads])
  writeCount_eq := by
    have hstart : (started w (c.count w.nodeCount)).unlogged.writeCount = 0 := hw.writeCount_eq
    exact h.writeCount_eq.trans (by rw [hstart, Nat.zero_add, hwrites])
  nodeCount_eq := h.nodeCount_eq
  log_eq := (congrArg Prod.snd h.oram_eq).trans (by rw [hmisses]; rfl)

theorem writes_eq (n : ℕ) (t : OdsTree V) (c : OdictCall V) :
    c.writes n t = c.rewrites t + writePrice (c.rotation n t) := by
  cases c <;> rfl

/-- The number of reads tells which repair was made. -/
theorem readPrice_injective {ρ ρ' : Rotation} (h : readPrice ρ = readPrice ρ') : ρ = ρ' := by
  cases ρ <;> cases ρ' <;> first | rfl | cases h

theorem count_reads_writes (reads writes : ℕ) :
    let log := List.replicate reads Operation.kRead ++ List.replicate writes Operation.kWrite
    log.count Operation.kRead = reads ∧ log.count Operation.kWrite = writes := by
  simp [List.count_replicate]

variable [Inhabited V]

theorem find_spent {t : OdsTree V} {w : ArrayOdict V} (hw : Rests A t w) (key : ℕ) :
    ∃ ans w', findAccess A.config.logged key w.unlogged = (.ok ans, w') ∧
      Spent A w.nodeCount t (find key) w' := by
  have hfuel : t.height < w.nodeCount := t.height_le_numNodes.trans_lt hw.size_lt
  have hstart : findAccess A.config.logged key w.unlogged =
      internalFind A.config.logged key w.nodeCount w.rootId (started w w.nodeCount).unlogged := rfl
  obtain ⟨found, w', table, hrun, hw'⟩ := internalFind_misses hw.represents hw.toSound key
    (fun id _ => Finset.notMem_empty id) hfuel (recalls_started w w.nodeCount)
  rw [Finset.empty_union, Nat.zero_add] at hw'
  refine ⟨found, w', ?_, spent_of_recalls hw (c := find key) hw'
    (card_idSet (nodup_path hw.toSound key)) rfl rfl rfl w'.rootId⟩
  rw [hstart, hw.rootId_eq]
  exact hrun

/-- The access phase of an insertion, and what it leaves for `OdsFinalize`. -/
theorem insert_spent {t : OdsTree V} {w : ArrayOdict V} (hw : Rests A t w)
    (hwidth : w.nodeCount < 2 ^ 32) (kvPair : ℕ × V)
    (hroom : ((insert kvPair).rotation w.nodeCount t).size ≤ A.clientCacheMaxSize) :
    ∃ ans w', insertAccess A.config.logged kvPair w.unlogged = (.ok ans, w') ∧
      Spent A w.nodeCount t (insert kvPair) w' := by
  let e : OdsEntry V := ⟨w.nodeCount, kvPair⟩
  have hfuel : t.height < w.nodeCount + 1 := by
    have := t.height_le_numNodes.trans_lt hw.size_lt
    omega
  have hnode : nodeOf e nil nil =
      { (TreeNode.new (w.nodeCount % 2 ^ 32) : TreeNode V) with kvPair := kvPair } := by
    rw [Nat.mod_eq_of_lt hwidth]
    rfl
  have hstart : insertAccess A.config.logged kvPair w.unlogged =
      (internalInsert A.config.logged (nodeOf e nil nil) (w.nodeCount + 1) (OdsTree.rootId t) >>=
        fun ans => Prog.modify (fun w => { w with rootId := ans.id }) >>= fun _ => pure ans)
        (started w (w.nodeCount + 1)).unlogged := by
    rw [hnode, ← hw.rootId_eq]
    rfl
  have hempty : ∀ id ∈ treeIds t, id ∉ (∅ : Finset ℕ) := fun id _ => Finset.notMem_empty id
  have hnodup := nodup_path hw.toSound kvPair.1
  cases hfound : t.search OdsEntry.key kvPair.1 with
  | some x =>
    have hknown : t.search OdsEntry.key e.key ≠ none := fun h =>
      Option.some_ne_none x (hfound.symm.trans h)
    have hnone : (insert kvPair).rotation w.nodeCount t = .none :=
      (BinaryTree.avlInsert_of_search (a := e) hw.balanced hknown).2
    obtain ⟨w', table, hrun, hw'⟩ := internalInsert_known_misses hw.represents hw.toSound
      hw.balanced (nodeOf e nil nil) hknown hempty hfuel (recalls_started w (w.nodeCount + 1))
    rw [Finset.empty_union, Nat.zero_add] at hw'
    refine ⟨topNode t, _, ?_, spent_of_recalls hw (c := insert kvPair) hw' ?_ ?_ ?_ rfl
      (topNode t).id⟩
    · rw [hstart, Prog.bind_ok hrun]
      rfl
    · rw [touches, key, hfound]
      exact card_idSet hnodup
    · rw [reads, hnone]
      rfl
    · rw [writes, hnone]
      rfl
  | none =>
    have hnew : e.id ∉ treeIds t := fun h => absurd (hw.fresh _ h) (Nat.lt_irrefl _)
    obtain ⟨heap, w', table, hrun, hw', -⟩ := internalInsert_new_misses (e := e) hw.represents
      hw.toSound hw.balanced hnew hw.ne_invalidMask hfound hempty hroom hfuel
      (recalls_started w (w.nodeCount + 1))
    rw [Finset.empty_union, Nat.zero_add, Nat.zero_add, Nat.zero_add,
      BinaryTree.insertCost_eq rfl e hw.balanced, BinaryTree.insertCost_eq rfl e hw.balanced] at hw'
    refine ⟨topNode (t.avlInsert OdsEntry.key e), _, ?_, spent_of_recalls hw (c := insert kvPair)
      hw' ?_ rfl rfl rfl (topNode (t.avlInsert OdsEntry.key e)).id⟩
    · rw [hstart, Prog.bind_ok hrun]
      rfl
    · rw [touches, key, hfound]
      exact card_idSet (List.nodup_cons.mpr ⟨fun h => hnew (mem_treeIds_of_path h), hnodup⟩)

/-- **The access phase of a call** reads every node of the search path once. -/
theorem access_spent {t : OdsTree V} {w : ArrayOdict V} (hw : Rests A t w)
    (hwidth : w.nodeCount < 2 ^ 32) (c : OdictCall V)
    (hroom : (c.rotation w.nodeCount t).size ≤ A.clientCacheMaxSize) :
    ∃ ans w', c.access A.config.logged w.unlogged = (.ok ans, w') ∧
      Spent A w.nodeCount t c w' := by
  cases c with
  | insert kvPair =>
    obtain ⟨top, w', hrun, hw'⟩ := insert_spent hw hwidth kvPair hroom
    refine ⟨some top, w', ?_, hw'⟩
    rw [access, Prog.bind_ok hrun]
    rfl
  | find key => exact find_spent hw key

/-! ## The whole call

What is sent is the access phase, the padding up to the bound and the flush. The bound
is the same for both calls, so two calls of one kind differ in the repair and in what is
flushed. -/

/-- **What a call costs**: the reads are those of the padding bound but for the
hits of the repair, and the flush comes on top of the padded writes. -/
theorem run_log {t : OdsTree V} {w : ArrayOdict V} (hw : Rests A t w)
    (hwidth : w.nodeCount < 2 ^ 32) {c : OdictCall V}
    (hroom : (c.rotation w.nodeCount t).size ≤ A.clientCacheMaxSize) {ans : Option (TreeNode V)}
    {v : LoggedOdict V} (hrun : c.run A.config.logged w.unlogged = (.ok ans, v)) :
    let pad := A.computePadVal (c.count w.nodeCount % 2 ^ 32)
    c.reads w.nodeCount t ≤ pad ∧ c.writes w.nodeCount t ≤ pad ∧
      v.oram.2 = List.replicate (pad - readPrice (c.rotation w.nodeCount t)) .kRead ++
        List.replicate (c.flushed A t + (pad - c.writes w.nodeCount t)) .kWrite := by
  intro pad
  obtain ⟨ans', w₁, haccess, hw₁⟩ := access_spent hw hwidth c hroom
  have hpad : padVal A.config.logged w₁ = pad := by
    rw [padVal, hw₁.nodeCount_eq]
    rfl
  have hfinal := final_of_run haccess hrun
  rw [hpad] at hfinal
  obtain ⟨hread, hwrite, hlog⟩ := odsFinalize_log hw₁.valid hfinal
  rw [hw₁.readCount_eq] at hread hlog
  rw [hw₁.writeCount_eq] at hwrite hlog
  refine ⟨hread, hwrite, ?_⟩
  -- the misses of the path and the padding
  have hreads : (t.path OdsEntry.key c.key).length + (pad - c.reads w.nodeCount t) =
      pad - readPrice (c.rotation w.nodeCount t) := by
    rw [reads] at hread ⊢
    omega
  rw [hlog, hw₁.log_eq, hw₁.length_eq, List.replicate_append_replicate, hreads, List.append_assoc,
    List.replicate_append_replicate]

/-- **Two calls cost the same** exactly if they make the same repair, and flush as
many nodes more than they rewrite. The cache has room for the nodes of a repair. -/
theorem odict_costs_equal_iff {t t' : OdsTree V} {w w' : ArrayOdict V} (hw : Rests A t w)
    (hw' : Rests A t' w') (hcount : w.nodeCount = w'.nodeCount) (hwidth : w.nodeCount < 2 ^ 32)
    {c c' : OdictCall V} (hkind : c.isInsert = c'.isInsert)
    (hroom : (c.rotation w.nodeCount t).size ≤ A.clientCacheMaxSize)
    (hroom' : (c'.rotation w'.nodeCount t').size ≤ A.clientCacheMaxSize)
    {ans ans' : Option (TreeNode V)} {v v' : LoggedOdict V}
    (hrun : c.run A.config.logged w.unlogged = (.ok ans, v))
    (hrun' : c'.run A.config.logged w'.unlogged = (.ok ans', v')) :
    v.oram.2.count .kRead = v'.oram.2.count .kRead ∧
        v.oram.2.count .kWrite = v'.oram.2.count .kWrite ↔
      c.rotation w.nodeCount t = c'.rotation w'.nodeCount t' ∧
        c.flushed A t + c'.rewrites t' = c'.flushed A t' + c.rewrites t := by
  obtain ⟨hread, hwrite, hlog⟩ := run_log hw hwidth hroom hrun
  obtain ⟨hread', hwrite', hlog'⟩ := run_log hw' (hcount ▸ hwidth) hroom' hrun'
  have hpad : c.count w.nodeCount = c'.count w'.nodeCount := by
    rw [hcount]
    cases c <;> cases c' <;> first | rfl | cases hkind
  rw [reads] at hread
  rw [reads, ← hpad] at hread'
  rw [writes_eq] at hwrite hlog
  rw [writes_eq, ← hpad] at hwrite'
  rw [writes_eq, ← hpad] at hlog'
  rw [hlog, hlog', (count_reads_writes _ _).1, (count_reads_writes _ _).1,
    (count_reads_writes _ _).2, (count_reads_writes _ _).2]
  constructor
  · rintro ⟨hreads, hwrites⟩
    have hρ : c.rotation w.nodeCount t = c'.rotation w'.nodeCount t' :=
      readPrice_injective (by omega)
    rw [hρ] at hwrites hwrite
    exact ⟨hρ, by omega⟩
  · rintro ⟨hρ, hflush⟩
    rw [hρ] at hwrite ⊢
    exact ⟨rfl, by omega⟩

/-- Six addresses. -/
def wideOdict : ArraySetup ℕ := { smallOdict 4 with last := 6 }

/-- Two dictionaries of four keys, the one deepest on the right and the other on the
left. Each gets the key that makes it rotate. -/
theorem odict_costs_equal_iff_small :
    ∃ (outs outs' : List (Except Exit (Option (TreeNode ℕ)))) (w w' : ArrayOdict ℕ)
        (ans ans' : Option (TreeNode ℕ)) (v v' : LoggedOdict ℕ),
      Prog.trace Exit.fatal (run wideOdict.config)
        [insert (2, 20), insert (1, 10), insert (3, 30), insert (4, 40)] (new .new) =
          some (outs, w) ∧
      Prog.trace Exit.fatal (run wideOdict.config)
        [insert (5, 50), insert (3, 30), insert (6, 60), insert (2, 20)] (new .new) =
          some (outs', w') ∧
      (insert (5, 50)).run wideOdict.config.logged w.unlogged = (.ok ans, v) ∧
      (insert (1, 10)).run wideOdict.config.logged w'.unlogged = (.ok ans', v') ∧
      (insert (5, 50)).rotation w.nodeCount w.storedTree = .single ∧
      v.oram.2.count .kRead = v'.oram.2.count .kRead ∧
      v.oram.2.count .kWrite = v'.oram.2.count .kWrite := by
  -- both insertions return, turn once, flush four nodes and rewrite three
  have hend : (Prog.trace Exit.fatal (run wideOdict.config)
      [insert (2, 20), insert (1, 10), insert (3, 30), insert (4, 40)] (new .new)).map
        (fun r => (((insert (5, 50)).run wideOdict.config.logged r.2.unlogged).1.isOk, r.2.nodeCount,
          (insert (5, 50)).rotation r.2.nodeCount r.2.storedTree,
          (insert (5, 50)).flushed wideOdict r.2.storedTree,
          (insert (5, 50)).rewrites r.2.storedTree)) = some (true, 5, .single, 4, 3) := by
    decide +kernel
  have hend' : (Prog.trace Exit.fatal (run wideOdict.config)
      [insert (5, 50), insert (3, 30), insert (6, 60), insert (2, 20)] (new .new)).map
        (fun r => (((insert (1, 10)).run wideOdict.config.logged r.2.unlogged).1.isOk, r.2.nodeCount,
          (insert (1, 10)).rotation r.2.nodeCount r.2.storedTree,
          (insert (1, 10)).flushed wideOdict r.2.storedTree,
          (insert (1, 10)).rewrites r.2.storedTree)) = some (true, 5, .single, 4, 3) := by
    decide +kernel
  obtain ⟨⟨outs, w⟩, htrace, hw⟩ := Option.map_eq_some_iff.mp hend
  obtain ⟨⟨outs', w'⟩, htrace', hw'⟩ := Option.map_eq_some_iff.mp hend'
  simp only [Prod.mk.injEq] at hw hw'
  obtain ⟨hok, hcount, hturn, hflush, hrewrite⟩ := hw
  obtain ⟨hok', hcount', hturn', hflush', hrewrite'⟩ := hw'
  obtain ⟨ans, hrun⟩ := Prog.ok_of_isOk hok
  obtain ⟨ans', hrun'⟩ := Prog.ok_of_isOk hok'
  have hsafe : Prog.Along Exit.fatal (run wideOdict.config)
      (fun c w => CacheSuffices wideOdict c w ∧ Padded wideOdict c w)
      [insert (2, 20), insert (1, 10), insert (3, 30), insert (4, 40)] (new .new) :=
    .cons (by decide +kernel) (.cons (by decide +kernel) (.cons (by decide +kernel)
      (.cons (by decide +kernel) trivial)))
  have hsafe' : Prog.Along Exit.fatal (run wideOdict.config)
      (fun c w => CacheSuffices wideOdict c w ∧ Padded wideOdict c w)
      [insert (5, 50), insert (3, 30), insert (6, 60), insert (2, 20)] (new .new) :=
    .cons (by decide +kernel) (.cons (by decide +kernel) (.cons (by decide +kernel)
      (.cons (by decide +kernel) trivial)))
  have hrests := rests_of_trace (by decide) .new (by decide) hsafe htrace
  have hrests' := rests_of_trace (by decide) .new (by decide) hsafe' htrace'
  have hwidth : w.nodeCount < 2 ^ 32 := by
    rw [hcount]
    decide
  have hroom : ((insert (5, 50)).rotation w.nodeCount w.storedTree).size ≤
      wideOdict.clientCacheMaxSize := by
    rw [hturn]
    decide
  have hroom' : ((insert (1, 10)).rotation w'.nodeCount w'.storedTree).size ≤
      wideOdict.clientCacheMaxSize := by
    rw [hturn']
    decide
  have hkind : (insert (5, (50 : ℕ))).isInsert = (insert (1, (10 : ℕ))).isInsert := rfl
  have hiff := odict_costs_equal_iff hrests hrests' (hcount.trans hcount'.symm) hwidth hkind
    hroom hroom' hrun hrun'
  refine ⟨outs, outs', w, w', ans, ans', _, _, htrace, htrace', hrun, hrun', hturn, hiff.mpr ⟨?_, ?_⟩⟩
  · rw [hturn, hturn']
  · rw [hflush, hflush', hrewrite, hrewrite']

/-- A node on the way costs a write: with the keys 1 and 3 in this order, the node
of 3 is below that of 1. -/
theorem odict_costs_differ :
    ∃ (outs : List (Except Exit (Option (TreeNode ℕ)))) (w : ArrayOdict ℕ)
        (ans ans' : Option (TreeNode ℕ)) (v v' : LoggedOdict ℕ),
      Prog.trace Exit.fatal (run (smallOdict 4).config) [insert (1, 10), insert (3, 30)]
        (new .new) = some (outs, w) ∧
      (find 1).run (smallOdict 4).config.logged w.unlogged = (.ok ans, v) ∧
      (find 3).run (smallOdict 4).config.logged w.unlogged = (.ok ans', v') ∧
      v.oram.2.count .kWrite ≠ v'.oram.2.count .kWrite := by
  have hend : (Prog.trace Exit.fatal (run (smallOdict 4).config) [insert (1, 10), insert (3, 30)]
      (new .new)).map (fun r => [find 1, find 3].map fun c =>
        ((c.run (smallOdict 4).config.logged r.2.unlogged).1.isOk,
          (c.run (smallOdict 4).config.logged r.2.unlogged).2.oram.2.count .kWrite)) =
      some [(true, 6), (true, 7)] := by
    decide +kernel
  obtain ⟨⟨outs, w⟩, htrace, hw⟩ := Option.map_eq_some_iff.mp hend
  simp only [List.map_cons, List.map_nil, List.cons.injEq, Prod.mk.injEq] at hw
  obtain ⟨⟨hok, hwrites⟩, ⟨hok', hwrites'⟩, -⟩ := hw
  obtain ⟨ans, hrun⟩ := Prog.ok_of_isOk hok
  obtain ⟨ans', hrun'⟩ := Prog.ok_of_isOk hok'
  refine ⟨outs, w, ans, ans', _, _, htrace, hrun, hrun', ?_⟩
  rw [hwrites, hwrites']
  decide

end OdictCall

end ObliviousRam
