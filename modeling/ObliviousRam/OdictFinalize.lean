import ObliviousRam.OdictAccess
import ObliviousRam.Trace

set_option autoImplicit false

/-!
# The nodes that `OdsFinalize` does not write

The loop of `OdsFinalize` keeps the status of a write in a variable of its own,
which nobody reads, and pops the node. So the loop is a **sequence of writes** to
the ORAM, one for each node in the cache, that goes on after a failure; and at its
end the cache is empty.
-/

namespace ObliviousRam

namespace OdsCache

variable {V : Type}

/-- The items with their ids, the one used last first. -/
def items (c : OdsCache V) : List (ℕ × TreeNode V) :=
  c.lruTable.filterMap fun id => (c.find id).map (Prod.mk id)

theorem mem_items {c : OdsCache V} (hc : c.Valid) {p : ℕ × TreeNode V} :
    p ∈ c.items ↔ c.find p.1 = some p.2 := by
  constructor
  · intro hp
    obtain ⟨id, -, hfind⟩ := List.mem_filterMap.mp hp
    obtain ⟨x, hx, rfl⟩ := Option.map_eq_some_iff.mp hfind
    exact hx
  · intro hp
    refine List.mem_filterMap.mpr ⟨p.1, hc.mem_of_find hp, ?_⟩
    rw [hp, Option.map_some]

theorem nodup_items {c : OdsCache V} (hc : c.Valid) : c.items.Nodup := by
  refine List.Nodup.filterMap (fun k k' p hk hk' => ?_) hc.nodup
  obtain ⟨x, -, rfl⟩ := Option.map_eq_some_iff.mp hk
  obtain ⟨y, -, heq⟩ := Option.map_eq_some_iff.mp hk'
  exact (congrArg Prod.fst heq).symm

/-- Without the item used last, the others are still in their order. -/
theorem items_eq_cons {c c' : OdsCache V} (hc : c.Valid) {id : ℕ} {x : TreeNode V}
    (hx : c.find id = some x) (hlru : c.lruTable = id :: c'.lruTable)
    (hother : ∀ k, c'.find k = if k = id then none else c.find k) :
    c.items = (id, x) :: c'.items := by
  have hnodup := hlru ▸ hc.nodup
  have hrest : c'.lruTable.filterMap (fun k => (c.find k).map (Prod.mk k)) = c'.items := by
    refine List.filterMap_congr fun k hk => ?_
    have hne : k ≠ id := fun h => (List.nodup_cons.mp hnodup).1 (h ▸ hk)
    rw [hother, if_neg hne]
  rw [items, hlru, List.filterMap_cons, hx, Option.map_some, hrest]

end OdsCache

namespace OdictController

variable {V σ : Type} (K : OdictConfig V σ)

/-- The accesses of `DoPad`, on the ORAM. -/
def padOram (opType : Operation) : ℕ → OramBlock (TreeNode V) → Prog Exit σ Unit
  | 0, _ => pure ()
  | num + 1, block => do
    let block ← K.access opType 0 block
    padOram opType num block

/-- The write of an item by `OdsFinalize`, on the ORAM. -/
def writeBack (item : ℕ × TreeNode V) : Prog Exit σ (OramBlock (TreeNode V)) :=
  K.access .kWrite item.2.id (localBlock K item.2.id .kNormal item.2)

/-- The padding only touches the ORAM. -/
theorem padAccesses_eq (opType : Operation) (num : ℕ) (block : OramBlock (TreeNode V)) :
    padAccesses K opType num block = onOram (padOram K opType num block) := by
  induction num generalizing block with
  | zero => rfl
  | succ num ih =>
    funext w
    rw [padAccesses]
    rcases haccess : K.access opType 0 block w.oram with ⟨e | block', oram⟩
    · have hrun : padOram K opType (num + 1) block w.oram = (.error e, oram) :=
        Prog.bind_error haccess
      rw [Prog.bind_error (onOram_eq haccess), onOram_eq hrun]
    · have hrun : padOram K opType (num + 1) block w.oram = padOram K opType num block' oram :=
        Prog.bind_ok haccess
      rw [Prog.bind_ok (onOram_eq haccess), ih, onOram_eq hrun]
      exact onOram_eq rfl

theorem doPad_keeps_odsCache (opType : Operation) (num : ℕ) (cache : OdsCache V) :
    Prog.Keeps (fun w : OdictController V σ => w.odsCache = cache) (doPad K opType num) := by
  rw [doPad, padAccesses_eq]
  exact fun w h => h

/-- **The loop of `OdsFinalize`** makes the writes one after the other, whatever
they return, and leaves an empty cache; the process may end on the way. -/
theorem evictCache_trace (n : ℕ) (w : OdictController V σ) (hvalid : w.odsCache.Valid)
    (hsize : w.odsCache.lruTable.length = n) :
    (∃ rs oram cache,
      Prog.trace Exit.fatal (writeBack K) w.odsCache.items w.oram = some (rs, oram) ∧
      evictCache K n w = (.ok (), { w with oram := oram, odsCache := cache }) ∧
      cache.lruTable = [] ∧ cache.Valid) ∨
    Prog.trace Exit.fatal (writeBack K) w.odsCache.items w.oram = none ∧
      ∃ e w', evictCache K n w = (.error e, w') ∧ e.fatal = true := by
  induction n generalizing w with
  | zero =>
    have hlru := List.eq_nil_of_length_eq_zero hsize
    have hitems : w.odsCache.items = [] := by rw [OdsCache.items, hlru, List.filterMap_nil]
    exact .inl ⟨[], w.oram, w.odsCache, by rw [hitems]; rfl, rfl, hlru, hvalid⟩
  | succ n ih =>
    obtain ⟨id, rest, hlru⟩ := List.exists_cons_of_length_eq_add_one hsize
    obtain ⟨x, hx, hfront, c, hpop, hc, hrest, hother⟩ := OdsCache.front_pop_spec hvalid hlru
    have hitems : w.odsCache.items = (id, x) :: c.items :=
      OdsCache.items_eq_cons hvalid hx (by rw [hlru, hrest]) hother
    have hnonempty : w.odsCache.isEmpty = false := hvalid.isEmpty_eq_false hsize
    have hlength : c.lruTable.length = n := by
      rw [hlru, List.length_cons, ← hrest] at hsize
      omega
    have hloop : evictCache K (n + 1) w = (ignoreStatus (localBlock K x.id .kNormal x)
        (onOram (writeBack K (id, x))) >>= fun _ => onCache OdsCache.pop >>= fun _ =>
          evictCache K n) w := by
      rw [evictCache, Prog.get_bind, hnonempty, if_neg Bool.false_ne_true,
        Prog.bind_ok (onCache_eq hfront)]
      rfl
    rw [hitems, hloop]
    -- after a write that the process survives, the loop goes on with the rest
    have hgo : ∀ r oram, Prog.survive Exit.fatal (writeBack K (id, x)) w.oram = some (r, oram) →
        ∃ block, ignoreStatus (localBlock K x.id .kNormal x) (onOram (writeBack K (id, x))) w =
          (.ok block, { w with oram := oram }) := by
      intro r oram hsurvive
      obtain ⟨hwrite, halive⟩ := Prog.eq_of_survive hsurvive
      have hon := onOram_eq (w := w) hwrite
      rcases r with e | block
      · cases e with
        | status st => exact ⟨_, by rw [ignoreStatus, hon]⟩
        | abort why => cases halive _ rfl
        | undefined why => cases halive _ rfl
      · exact ⟨block, by rw [ignoreStatus, hon]⟩
    rcases hsurvive : Prog.survive Exit.fatal (writeBack K (id, x)) w.oram with _ | ⟨r, oram⟩
    · refine .inr ⟨by rw [Prog.trace, hsurvive], ?_⟩
      obtain ⟨e, oram, hwrite, hfatal⟩ := Prog.eq_of_survive_none hsurvive
      have hon := onOram_eq (w := w) hwrite
      refine ⟨e, { w with oram := oram }, Prog.bind_error ?_, hfatal⟩
      cases e with
      | status st => cases hfatal
      | abort why => rw [ignoreStatus, hon]
      | undefined why => rw [ignoreStatus, hon]
    · obtain ⟨block, hignored⟩ := hgo r oram hsurvive
      have hpop' : onCache OdsCache.pop { w with oram := oram } =
          (.ok (), { w with oram := oram, odsCache := c }) := onCache_eq hpop
      rw [Prog.bind_ok hignored, Prog.bind_ok hpop', Prog.trace, hsurvive]
      rcases ih { w with oram := oram, odsCache := c } hc hlength with
        ⟨rs, oram', cache, htrace, hevict, hempty, hvalid'⟩ | ⟨htrace, hdead⟩
      · exact .inl ⟨r :: rs, oram', cache, by simp only [htrace, Option.map_some], hevict, hempty,
          hvalid'⟩
      · exact .inr ⟨by simp only [htrace, Option.map_none], hdead⟩

/-! ## What the call returns, and what is left -/

/-- The padding of the reads. -/
def padReads (padVal : ℕ) (w : OdictController V σ) : Except Exit Unit × σ :=
  padOram K .kRead (padVal - w.readCount) (localBlock K 0 .kNormal K.garbage.data) w.oram

/-- **The three ways of `OdsFinalize`**: the padding of the reads fails and nothing
has happened to the cache; or the writes are made and the cache is empty, whatever
is returned then; or the process ends. -/
theorem odsFinalize_cases (padVal : ℕ) (w : OdictController V σ) (hvalid : w.odsCache.Valid) :
    (∃ st oram, padReads K padVal w = (.error (.status st), oram) ∧
      odsFinalize K padVal w = (.error (.status st), { w with oram := oram })) ∨
    (∃ oram rs oram' r w', padReads K padVal w = (.ok (), oram) ∧
      Prog.trace Exit.fatal (writeBack K) w.odsCache.items oram = some (rs, oram') ∧
      odsFinalize K padVal w = (r, w') ∧ w'.odsCache.lruTable = [] ∧ w'.odsCache.Valid) ∨
    ∃ e w', odsFinalize K padVal w = (.error e, w') ∧ e.fatal = true := by
  by_cases hread : padVal < w.readCount
  · refine .inr (.inr ⟨.abort "Pad value is smaller than the read count!", w, ?_, rfl⟩)
    rw [odsFinalize, Prog.get_bind, if_pos hread]
    rfl
  have hpad : ∀ r oram, padReads K padVal w = (r, oram) →
      doPad K .kRead (padVal - w.readCount) w = (r, { w with oram := oram }) := by
    intro r oram h
    rw [doPad, padAccesses_eq]
    exact onOram_eq h
  rcases hreads : padReads K padVal w with ⟨e | u, oram⟩
  · have hcall : odsFinalize K padVal w = (.error e, { w with oram := oram }) := by
      rw [odsFinalize, Prog.get_bind, if_neg hread, Prog.bind_error (hpad _ _ hreads)]
    cases e with
    | status st => exact .inl ⟨st, oram, rfl, hcall⟩
    | abort why => exact .inr (.inr ⟨_, _, hcall, rfl⟩)
    | undefined why => exact .inr (.inr ⟨_, _, hcall, rfl⟩)
  · refine .inr ?_
    rcases evictCache_trace K _ { w with oram := oram } hvalid rfl with
      ⟨rs, oram', cache, htrace, hevict, hempty, hvalid'⟩ | ⟨-, e, w', hevict, hfatal⟩
    · refine .inl ⟨oram, rs, oram', (odsFinalize K padVal w).1, (odsFinalize K padVal w).2, rfl,
        htrace, rfl, ?_⟩
      have hcache : (odsFinalize K padVal w).2.odsCache = cache := by
        rw [odsFinalize, Prog.get_bind, if_neg hread, Prog.bind_ok (hpad _ _ hreads),
          Prog.get_bind, ← hvalid.length_eq, Prog.bind_ok hevict, Prog.get_bind]
        split
        · rfl
        · refine Prog.Keeps.bind (doPad_keeps_odsCache K .kWrite _ cache) (fun _ => ?_) _ rfl
          exact Prog.Keeps.modify fun w' h => h
      exact ⟨hcache ▸ hempty, hcache ▸ hvalid'⟩
    · refine .inr ⟨e, w', ?_, hfatal⟩
      rw [odsFinalize, Prog.get_bind, if_neg hread, Prog.bind_ok (hpad _ _ hreads),
        Prog.get_bind, ← hvalid.length_eq, Prog.bind_error hevict]

/-- The call writes an item: it comes to the writes, and the one of the item returns `OK`. -/
def Writes (padVal : ℕ) (w : OdictController V σ) (item : ℕ × TreeNode V) : Prop :=
  ∃ oram rs oram' block, padReads K padVal w = (.ok (), oram) ∧
    Prog.trace Exit.fatal (writeBack K) w.odsCache.items oram = some (rs, oram') ∧
    (item, .ok block) ∈ w.odsCache.items.zip rs

/-- **No node is lost unnoticed**: if `OdsFinalize` returns `OK` it has written all
nodes of the cache, and if not, what it has not written is still in the cache. -/
structure ReportsLoss (padVal : ℕ) (w : OdictController V σ) : Prop where
  ok : ∀ w', odsFinalize K padVal w = (.ok (), w') →
    ∀ item ∈ w.odsCache.items, Writes K padVal w item
  error : ∀ st w', odsFinalize K padVal w = (.error (.status st), w') →
    ∀ item ∈ w.odsCache.items, ¬ Writes K padVal w item →
      w'.odsCache.find item.1 = some item.2

/-- The padding of the reads goes through and so do all the writes. -/
def WritesSucceed (padVal : ℕ) (w : OdictController V σ) : Prop :=
  ∃ (oram : σ) (blocks : List (OramBlock (TreeNode V))) (oram' : σ),
    padReads K padVal w = (.ok (), oram) ∧
    Prog.trace Exit.fatal (writeBack K) w.odsCache.items oram = some (blocks.map .ok, oram')

/-- Then each node is written. -/
theorem WritesSucceed.writes {padVal : ℕ} {w : OdictController V σ}
    (h : WritesSucceed K padVal w) : ∀ item ∈ w.odsCache.items, Writes K padVal w item := by
  obtain ⟨oram, blocks, oram', hpad, htrace⟩ := h
  intro item hitem
  obtain ⟨i, hi, rfl⟩ := List.mem_iff_getElem.mp hitem
  have hlength := Prog.length_trace htrace
  rw [List.length_map] at hlength
  refine ⟨oram, _, oram', blocks[i], hpad, htrace, ?_⟩
  refine List.mem_iff_getElem.mpr ⟨i, by simp [hlength, hi], ?_⟩
  rw [List.getElem_zip, List.getElem_map]

/-- And the other way round, in a call that gets to the end of its loop. -/
theorem writesSucceed_of_writes {padVal : ℕ} {w : OdictController V σ} (hvalid : w.odsCache.Valid)
    {oram oram' : σ} {rs : List (Except Exit (OramBlock (TreeNode V)))}
    (hpad : padReads K padVal w = (.ok (), oram))
    (htrace : Prog.trace Exit.fatal (writeBack K) w.odsCache.items oram = some (rs, oram'))
    (hwrites : ∀ item ∈ w.odsCache.items, Writes K padVal w item) : WritesSucceed K padVal w := by
  have hlength := Prog.length_trace htrace
  obtain ⟨blocks, rfl⟩ := Prog.exists_eq_map_ok hlength fun item r hr => by
    obtain ⟨o, rs', o', block, hpad', htrace', hmem⟩ := hwrites item (List.of_mem_zip hr).1
    cases hpad.symm.trans hpad'
    cases htrace.symm.trans htrace'
    -- an item is in the cache once, so that it has one outcome
    have hnodup : ((w.odsCache.items.zip rs).map Prod.fst).Nodup := by
      rw [List.map_fst_zip hlength.ge]
      exact OdsCache.nodup_items hvalid
    have heq := List.inj_on_of_nodup_map hnodup hr hmem rfl
    exact ⟨block, congrArg Prod.snd heq⟩
  exact ⟨oram, blocks, oram', hpad, htrace⟩

/-- **When no node is lost unnoticed**, of the calls that return: the padding of the
reads fails, so that nothing is written, or all the writes succeed. -/
theorem odsFinalize_reportsLoss_iff {padVal : ℕ} {w : OdictController V σ}
    (hvalid : w.odsCache.Valid)
    (hreturns : ∀ e w', odsFinalize K padVal w = (.error e, w') → e.fatal = false) :
    ReportsLoss K padVal w ↔
      (∃ st oram, padReads K padVal w = (.error (.status st), oram)) ∨
        WritesSucceed K padVal w := by
  constructor
  · intro hreports
    rcases odsFinalize_cases K padVal w hvalid with ⟨st, oram, hpad, -⟩ |
      ⟨oram, rs, oram', r, w', hpad, htrace, hcall, hempty, hvalid'⟩ | ⟨e, w', hcall, hfatal⟩
    · exact .inl ⟨st, oram, hpad⟩
    · refine .inr (writesSucceed_of_writes K hvalid hpad htrace fun item hitem => ?_)
      rcases r with e | u
      · cases e with
        | status st =>
          -- the cache is empty behind the loop
          by_contra hlost
          have hleft := hvalid'.mem_of_find (hreports.error st w' hcall item hitem hlost)
          rw [hempty] at hleft
          cases hleft
        | abort why => cases hreturns _ _ hcall
        | undefined why => cases hreturns _ _ hcall
      · exact hreports.ok w' hcall item hitem
    · rw [hreturns e w' hcall] at hfatal
      cases hfatal
  · rintro (⟨st, oram, hpad⟩ | hsucceed)
    · rcases odsFinalize_cases K padVal w hvalid with ⟨st', oram', hpad', hcall⟩ |
        ⟨oram', rs, o, r, w', hpad', -⟩ | ⟨e, w', hcall, hfatal⟩
      · constructor
        · intro w' hok
          cases hcall.symm.trans hok
        · intro st'' w' herror item hitem _
          cases hcall.symm.trans herror
          exact (OdsCache.mem_items hvalid).mp hitem
      · cases hpad.symm.trans hpad'
      · rw [hreturns e w' hcall] at hfatal
        cases hfatal
    · have hwrites := hsucceed.writes K
      exact ⟨fun w' _ => hwrites, fun st w' _ item hitem hlost =>
        absurd (hwrites item hitem) hlost⟩

/-! ## A node beyond the addresses

The ids of new nodes are counted up, and the ORAM has only so many addresses. The write
of a node beyond them fails, and `Insert` returns as if it had not. -/

/-- The addresses `0`, …, `last`, and more padding than one insertion needs. -/
def smallArray (last : ℕ) : ArraySetup ℕ where
  last := last
  clientCacheMaxSize := 4
  computePadVal := fun _ => 3
  garbage := ⟨⟨0, .kDummy, 0⟩, .new 0⟩

/-- The controller before the `OdsFinalize` of an `Insert` into an empty dictionary. -/
def afterInsert (last : ℕ) : ArrayOdict ℕ :=
  (insertAccess (smallArray last).config (7, 70) (new .new)).2

theorem afterInsert_valid (last : ℕ) : (afterInsert last).odsCache.Valid :=
  OdsCache.valid_new.insert 1 ⟨1, (7, 70), 0, 0, 0, 0⟩

/-- The id of the first node is 1, which is not an address: `OdsFinalize` returns
`OK`, and the node is neither in the ORAM nor in the cache. -/
theorem odsFinalize_loses_node :
    ¬ ReportsLoss (smallArray 0).config 3 (afterInsert 0) ∧
    (afterInsert 0).odsCache.items = [(1, ⟨1, (7, 70), 0, 0, 0, 0⟩)] ∧
    ∃ w', odsFinalize (smallArray 0).config 3 (afterInsert 0) = (.ok (), w') ∧
      w'.odsCache.items = [] ∧ w'.oram 1 = .new 1 := by
  refine ⟨fun h => ?_, rfl, _, rfl, rfl, rfl⟩
  obtain ⟨oram, rs, oram', block, hpad, htrace, hmem⟩ := h.ok _ rfl (1, _) List.mem_cons_self
  cases hpad
  cases htrace
  cases hmem with
  | tail _ h => cases h

/-- With two addresses the node is written. -/
theorem odsFinalize_reportsLoss_smallArray :
    ReportsLoss (smallArray 1).config 3 (afterInsert 1) := by
  refine (odsFinalize_reportsLoss_iff _ (afterInsert_valid 1) fun e w' h => ?_).mpr (.inr ?_)
  · cases h
  · exact ⟨_, [_], _, rfl, rfl⟩

end OdictController

end ObliviousRam
