import ObliviousRam.Defs
import Mathlib.Data.List.AList
import Mathlib.Data.Finset.Card

set_option autoImplicit false

/-!
# The client cache of the oblivious dictionary

`TreeNode` (`base/ods_objects.h`) and `OdsCache` (`core/ods_cache.cc`): a map from
ids to nodes, with the ids in the order of their last use next to it.

The cache holds pointers. A node that is in the cache is only changed right
before it is put there again, so the model keeps values.
-/

namespace ObliviousRam

/-- `invalid_mask` (`base/ods_defs.h`), the id of no node. -/
def invalidMask : ℕ := 0

/-- `TreeNode`, with values of type `V`. -/
structure TreeNode (V : Type) where
  id : ℕ
  kvPair : ℕ × V
  leftId : ℕ
  rightId : ℕ
  leftHeight : ℕ
  rightHeight : ℕ
  deriving DecidableEq, Repr

namespace TreeNode

variable {V : Type}

/-- The constructor from an id. -/
def new [Inhabited V] (id : ℕ) : TreeNode V where
  id := id
  kvPair := (0, default)
  leftId := invalidMask
  rightId := invalidMask
  leftHeight := invalidMask
  rightHeight := invalidMask

/-- `HEIGHT`. -/
def height (x : TreeNode V) : ℕ := max x.leftHeight x.rightHeight + 1

end TreeNode

/-- `OdsCache`: `lru_table_`, the most recently used id first, and `cache_items_`. -/
structure OdsCache (V : Type) where
  lruTable : List ℕ
  cacheItems : AList fun _ : ℕ => TreeNode V

namespace OdsCache

variable {V : Type}

/-- The empty cache. -/
def new : OdsCache V := ⟨[], ∅⟩

/-- `Clear`. -/
def clear {ε : Type} : Prog ε (OdsCache V) Unit := Prog.modify fun _ => new

/-- `IsEmpty`. -/
def isEmpty (c : OdsCache V) : Bool := c.cacheItems.entries.isEmpty

/-- `Get(id)`: an item that is found is now the most recently used one. -/
def get (id : ℕ) : Prog Exit (OdsCache V) (Option (TreeNode V)) := fun c =>
  match c.cacheItems.lookup id with
  | none => (.ok none, c)
  | some item =>
    if id ∈ c.lruTable then
      (.ok (some item), { c with lruTable := id :: c.lruTable.erase id })
    else (.error (.undefined "lru_table_.end() is dereferenced"), c)

/-- The last lines of `Put`: over its size, the cache gives up the item that has
not been used for longest. -/
def evict (maxSize : ℕ) : Prog Exit (OdsCache V) (Option (TreeNode V)) := fun c =>
  if c.cacheItems.entries.length > maxSize then
    match c.lruTable.getLast? with
    | none => (.error (.undefined "lru_table_ is empty"), c)
    | some back =>
      match c.cacheItems.lookup back with
      | none => (.error (.undefined "cache_items_.end() is dereferenced"), c)
      | some ret => (.ok (some ret), ⟨c.lruTable.dropLast, c.cacheItems.erase back⟩)
  else (.ok none, c)

/-- `Put`: returns the item that had to go, if any. -/
def put (maxSize id : ℕ) (item : TreeNode V) : Prog Exit (OdsCache V) (Option (TreeNode V)) := do
  Prog.modify fun c =>
    if id ∈ c.cacheItems ∧ id ∈ c.lruTable then ⟨c.lruTable.erase id, c.cacheItems.erase id⟩ else c
  Prog.modify fun c => ⟨id :: c.lruTable, c.cacheItems.insert id item⟩
  evict maxSize

/-- `Get()`: the item used last. -/
def front : Prog Exit (OdsCache V) (TreeNode V) := fun c =>
  match c.lruTable with
  | [] => (.error (.undefined "lru_table_ is empty"), c)
  | id :: _ =>
    match c.cacheItems.lookup id with
    | none => (.error (.undefined "cache_items_.end() is dereferenced"), c)
    | some item => (.ok item, c)

/-- `Pop`. -/
def pop : Prog Exit (OdsCache V) Unit := fun c =>
  match c.lruTable with
  | [] => (.error (.undefined "lru_table_ is empty"), c)
  | id :: rest =>
    if id ∈ c.cacheItems then (.ok (), ⟨rest, c.cacheItems.erase id⟩)
    else (.error (.undefined "cache_items_.end() is erased"), c)

/-! ## What the operations do -/

/-- The table lists the ids of the items, each once. -/
structure Valid (c : OdsCache V) : Prop where
  nodup : c.lruTable.Nodup
  mem_iff : ∀ id, id ∈ c.lruTable ↔ id ∈ c.cacheItems

/-- The node under an id. -/
def find (c : OdsCache V) (id : ℕ) : Option (TreeNode V) := c.cacheItems.lookup id

theorem valid_new : (new : OdsCache V).Valid := ⟨List.nodup_nil, fun _ => Iff.rfl⟩

/-- A node that is found is in the table. -/
theorem Valid.mem_of_find {c : OdsCache V} (hc : c.Valid) {id : ℕ} {x : TreeNode V}
    (h : c.find id = some x) : id ∈ c.lruTable := by
  rw [hc.mem_iff, ← AList.lookup_isSome, ← find, h]
  rfl

/-- The table lists no other ids. -/
theorem Valid.find_of_mem {c : OdsCache V} (hc : c.Valid) {id : ℕ} (h : id ∈ c.lruTable) :
    ∃ x, c.find id = some x := by
  rw [hc.mem_iff, ← AList.lookup_isSome] at h
  exact Option.isSome_iff_exists.mp h

/-- The table is as long as the map is large. -/
theorem Valid.length_eq {c : OdsCache V} (hc : c.Valid) :
    c.lruTable.length = c.cacheItems.entries.length := by
  have hperm : c.lruTable.Perm c.cacheItems.keys :=
    (List.perm_ext_iff_of_nodup hc.nodup c.cacheItems.keys_nodup).mpr hc.mem_iff
  rw [hperm.length_eq, AList.keys, List.keys, List.length_map]

theorem Valid.isEmpty_eq_false {c : OdsCache V} (hc : c.Valid) {n : ℕ}
    (h : c.lruTable.length = n + 1) : c.isEmpty = false := by
  rw [isEmpty, List.isEmpty_eq_false_iff, ← List.length_pos_iff, ← hc.length_eq, h]
  exact Nat.succ_pos n

/-- A miss. -/
theorem get_miss {c : OdsCache V} {id : ℕ} (h : c.find id = none) : get id c = (.ok none, c) := by
  rw [find] at h
  rw [get, h]

/-- A hit: the id comes first in the table. -/
theorem get_hit {c : OdsCache V} (hc : c.Valid) {id : ℕ} {x : TreeNode V} (h : c.find id = some x) :
    get id c = (.ok (some x), { c with lruTable := id :: c.lruTable.erase id }) := by
  have hmem := hc.mem_of_find h
  rw [find] at h
  simp only [get, h, if_pos hmem]

/-- An order of the ids is as good as another. -/
theorem Valid.reorder {c : OdsCache V} (hc : c.Valid) {table : List ℕ}
    (h : table.Perm c.lruTable) : ({ c with lruTable := table } : OdsCache V).Valid where
  nodup := h.nodup_iff.mpr hc.nodup
  mem_iff := fun id => h.mem_iff.trans (hc.mem_iff id)

/-- `Get(id)` changes the order only. -/
theorem get_spec {c : OdsCache V} (hc : c.Valid) (id : ℕ) :
    ∃ c', get id c = (.ok (c.find id), c') ∧ c'.Valid ∧ c'.cacheItems = c.cacheItems := by
  cases h : c.find id with
  | none => exact ⟨c, get_miss h, hc, rfl⟩
  | some x =>
    exact ⟨_, get_hit hc h, hc.reorder (List.perm_cons_erase (hc.mem_of_find h)).symm, rfl⟩

/-- The cache after the insertion of `Put`, before it looks at the size. -/
def insert (c : OdsCache V) (id : ℕ) (item : TreeNode V) : OdsCache V :=
  ⟨id :: c.lruTable.erase id, c.cacheItems.insert id item⟩

theorem Valid.insert {c : OdsCache V} (hc : c.Valid) (id : ℕ) (item : TreeNode V) :
    (c.insert id item).Valid where
  nodup := List.nodup_cons.mpr ⟨hc.nodup.not_mem_erase, hc.nodup.erase id⟩
  mem_iff := by
    intro k
    rw [OdsCache.insert, List.mem_cons, hc.nodup.mem_erase_iff, AList.mem_insert, hc.mem_iff]
    tauto

theorem find_insert (c : OdsCache V) (id : ℕ) (item : TreeNode V) (k : ℕ) :
    (c.insert id item).find k = if k = id then some item else c.find k := by
  split
  next h =>
    subst h
    exact AList.lookup_insert _
  next h => exact AList.lookup_insert_ne h

/-- What `Put` leaves: the cache with the item, or without the one it pushed out. -/
def Without (c c' : OdsCache V) : Option (TreeNode V) → Prop
  | none => c' = c
  | some x => ∃ back, c.find back = some x ∧
      ∀ k, c'.find k = if k = back then none else c.find k

/-- A cache that is too large gives up the id at the end of its table. -/
theorem evict_eq {c : OdsCache V} (hc : c.Valid) (maxSize : ℕ) :
    (c.lruTable.length ≤ maxSize ∧ evict maxSize c = (.ok none, c)) ∨
    (maxSize < c.lruTable.length ∧ ∃ back x, c.lruTable.getLast? = some back ∧
      c.find back = some x ∧
      evict maxSize c = (.ok (some x), ⟨c.lruTable.dropLast, c.cacheItems.erase back⟩)) := by
  rw [hc.length_eq]
  by_cases hsize : maxSize < c.cacheItems.entries.length
  · have hne : c.lruTable ≠ [] := by
      intro h
      have hlen := hc.length_eq
      rw [h, List.length_nil] at hlen
      omega
    have hlast := List.getLast?_eq_getLast_of_ne_nil hne
    obtain ⟨x, hx⟩ := hc.find_of_mem (List.getLast_mem hne)
    refine .inr ⟨hsize, _, x, hlast, hx, ?_⟩
    rw [find] at hx
    simp only [evict, if_pos hsize, hlast, hx]
  · exact .inl ⟨Nat.not_lt.mp hsize, if_neg hsize⟩

/-- What is left without the last id of the table. -/
theorem Valid.dropLast {c : OdsCache V} (hc : c.Valid) {back : ℕ}
    (hback : c.lruTable.getLast? = some back) :
    (⟨c.lruTable.dropLast, c.cacheItems.erase back⟩ : OdsCache V).Valid where
  nodup := (List.dropLast_sublist _).nodup hc.nodup
  mem_iff := by
    intro k
    have hsplit := List.dropLast_append_getLast? back hback
    have hnodup := hsplit ▸ hc.nodup
    have hmem : k ∈ c.lruTable ↔ k ∈ c.lruTable.dropLast ∨ k = back := by
      conv_lhs => rw [← hsplit]
      rw [List.mem_append, List.mem_singleton]
    have hnot : back ∉ c.lruTable.dropLast := fun h =>
      (List.nodup_append.mp hnodup).2.2 back h back (List.mem_singleton.mpr rfl) rfl
    rw [AList.mem_erase, ← hc.mem_iff, hmem]
    constructor
    · exact fun h => ⟨fun he => hnot (he ▸ h), .inl h⟩
    · exact fun h => h.2.resolve_right h.1

/-- An item is taken out. -/
theorem find_erase (c : OdsCache V) (table : List ℕ) (back k : ℕ) :
    (⟨table, c.cacheItems.erase back⟩ : OdsCache V).find k =
      if k = back then none else c.find k := by
  split
  next h =>
    subst h
    exact AList.lookup_erase _ _
  next h => exact AList.lookup_erase_ne h

/-- What `Put` does when the table is too long: it drops the last id, and the node under
it is what it returns. -/
theorem evict_spec {c : OdsCache V} (hc : c.Valid) (maxSize : ℕ) :
    ∃ ret c', evict maxSize c = (.ok ret, c') ∧ c'.Valid ∧ c.Without c' ret ∧
      (c.lruTable.length ≤ maxSize → ret = none) := by
  obtain ⟨-, hrun⟩ | ⟨hsize, back, x, hback, hx, hrun⟩ := evict_eq hc maxSize
  · exact ⟨none, c, hrun, hc, rfl, fun _ => rfl⟩
  · exact ⟨some x, _, hrun, hc.dropLast hback, ⟨back, hx, find_erase c _ back⟩,
      fun h => absurd hsize (Nat.not_lt.mpr h)⟩

/-- `Put` inserts the item and then looks at the size. -/
theorem put_eq {c : OdsCache V} (hc : c.Valid) (maxSize id : ℕ) (item : TreeNode V) :
    put maxSize id item c = evict maxSize (c.insert id item) := by
  rw [put, Prog.modify_bind, Prog.modify_bind]
  by_cases hmem : id ∈ c.cacheItems
  · rw [if_pos ⟨hmem, (hc.mem_iff id).mpr hmem⟩]
    have herase : (c.cacheItems.erase id).insert id item = c.cacheItems.insert id item := by
      refine AList.ext ?_
      rw [AList.entries_insert, AList.entries_insert]
      exact congrArg _ (List.kerase_of_notMem_keys
        (List.notMem_keys_kerase id c.cacheItems.nodupKeys))
    rw [herase]
    rfl
  · have hlru : c.lruTable.erase id = c.lruTable :=
      List.erase_of_not_mem fun h => hmem ((hc.mem_iff id).mp h)
    rw [if_neg fun h => hmem h.1, OdsCache.insert, hlru]

/-- `Put` inserts the item, and pushes one out if the cache is larger then than it may be. -/
theorem put_spec {c : OdsCache V} (hc : c.Valid) (maxSize id : ℕ) (item : TreeNode V) :
    ∃ ret c', put maxSize id item c = (.ok ret, c') ∧ c'.Valid ∧
      (c.insert id item).Without c' ret ∧
      ((c.insert id item).lruTable.length ≤ maxSize → ret = none) := by
  rw [put_eq hc]
  exact evict_spec (hc.insert id item) maxSize

/-- `Get()` and `Pop` on a cache that is not empty. -/
theorem front_pop_spec {c : OdsCache V} (hc : c.Valid) {id : ℕ} {rest : List ℕ}
    (h : c.lruTable = id :: rest) :
    ∃ x, c.find id = some x ∧ front c = (.ok x, c) ∧
      ∃ c', pop c = (.ok (), c') ∧ c'.Valid ∧ c'.lruTable = rest ∧
        ∀ k, c'.find k = if k = id then none else c.find k := by
  obtain ⟨x, hx⟩ := hc.find_of_mem (h ▸ List.mem_cons_self)
  have hnodup := h ▸ hc.nodup
  have hmem : id ∈ c.cacheItems := (hc.mem_iff id).mp (h ▸ List.mem_cons_self)
  refine ⟨x, hx, ?_, ⟨rest, c.cacheItems.erase id⟩, ?_, ⟨hnodup.tail, fun k => ?_⟩, rfl,
    fun k => ?_⟩
  · rw [find] at hx
    simp only [front, h, hx]
  · simp only [pop, h, if_pos hmem]
  · have hk := hc.mem_iff k
    rw [h, List.mem_cons] at hk
    rw [AList.mem_erase, ← hk]
    constructor
    · exact fun hr => ⟨fun he => (List.nodup_cons.mp hnodup).1 (he ▸ hr), .inr hr⟩
    · exact fun hr => hr.2.resolve_left hr.1
  · exact find_erase c rest id k

/-! ## The order of the last uses

The table is sorted by last use. A second use of the same id in a row changes nothing,
and the ids used last come first whatever was done before. This is what lets
`OdictRecall` tell hits from misses. -/

/-- The table after an id was put, in a cache of `maxSize` nodes. -/
def lruUse (maxSize id : ℕ) (table : List ℕ) : List ℕ := (id :: table.erase id).take maxSize

/-- What is pushed out is the end of the table. -/
theorem evict_table {c c' : OdsCache V} (hc : c.Valid) {maxSize : ℕ} {ret : Option (TreeNode V)}
    (h : evict maxSize c = (.ok ret, c')) (hsize : c.lruTable.length ≤ maxSize + 1) :
    c'.lruTable = c.lruTable.take maxSize := by
  obtain ⟨hle, hrun⟩ | ⟨hlt, back, x, -, -, hrun⟩ := evict_eq hc maxSize
  · cases hrun.symm.trans h
    rw [List.take_of_length_le hle]
  · cases hrun.symm.trans h
    have hlength : c.lruTable.length - 1 = maxSize := by omega
    simp only [List.dropLast_eq_take, hlength]

/-- A node that is still there after one was pushed out was there before. -/
theorem Without.find_eq {c c' : OdsCache V} {ret : Option (TreeNode V)} (h : c.Without c' ret)
    (hc' : c'.Valid) {id : ℕ} (hid : id ∈ c'.lruTable) : c'.find id = c.find id := by
  cases ret with
  | none => rw [show c' = c from h]
  | some x =>
    obtain ⟨back, -, hother⟩ := h
    obtain ⟨y, hy⟩ := hc'.find_of_mem hid
    have hne : id ≠ back := by
      rintro rfl
      rw [hother, if_pos rfl] at hy
      cases hy
    rw [hother, if_neg hne]

/-- **`Put` in a cache that is not too large** keeps the ids used last. -/
theorem put_recent {c : OdsCache V} (hc : c.Valid) {maxSize : ℕ}
    (hsize : c.lruTable.length ≤ maxSize) (id : ℕ) (item : TreeNode V) :
    ∃ ret c', put maxSize id item c = (.ok ret, c') ∧ c'.Valid ∧
      c'.lruTable = lruUse maxSize id c.lruTable ∧
      ∀ k ∈ c'.lruTable, c'.find k = if k = id then some item else c.find k := by
  obtain ⟨ret, c', hput, hvalid, hwithout, -⟩ := put_spec hc maxSize id item
  refine ⟨ret, c', hput, hvalid, ?_, fun k hk => ?_⟩
  · rw [put_eq hc] at hput
    refine evict_table (hc.insert id item) hput ?_
    have := List.length_erase_le (a := id) (l := c.lruTable)
    simp only [insert, List.length_cons]
    omega
  · rw [hwithout.find_eq hvalid hk, find_insert]

theorem mem_lruUse {maxSize id k : ℕ} {table : List ℕ} (h : k ∈ lruUse maxSize id table) :
    k = id ∨ k ∈ table := by
  rcases List.mem_cons.mp (List.mem_of_mem_take h) with h | h
  · exact .inl h
  · exact .inr (List.mem_of_mem_erase h)

/-- A hit changes the order only. -/
theorem lruUse_of_mem {maxSize id : ℕ} {table : List ℕ} (h : id ∈ table)
    (hsize : table.length ≤ maxSize) : lruUse maxSize id table = id :: table.erase id := by
  refine List.take_of_length_le ?_
  rw [← (List.perm_cons_erase h).length_eq]
  exact hsize

/-- To use an id twice in a row is to use it once. -/
theorem lruUse_twice (maxSize id : ℕ) (table : List ℕ) :
    lruUse maxSize id (id :: table.erase id) = lruUse maxSize id table := by
  rw [lruUse, List.erase_cons_head, lruUse]

/-- **The cache is as large as it can be**: it has all ids that were used, or as
many as it may have. -/
theorem length_lruUse {maxSize id : ℕ} {table : List ℕ} {touched : Finset ℕ} (hnodup : table.Nodup)
    (hsub : ∀ k ∈ table, k ∈ touched) (hlength : table.length = min touched.card maxSize) :
    (lruUse maxSize id table).length = min (touched ∪ {id}).card maxSize := by
  rw [lruUse, List.length_take, List.length_cons]
  by_cases hmem : id ∈ table
  · have hpos := List.length_pos_of_mem hmem
    rw [List.length_erase_of_mem hmem,
      Finset.union_eq_left.mpr (Finset.singleton_subset_iff.mpr (hsub id hmem))]
    omega
  · rw [List.erase_of_not_mem hmem]
    by_cases htouched : id ∈ touched
    · -- it was pushed out, so the cache is full
      have hlt : table.toFinset.card < touched.card := by
        refine Finset.card_lt_card ⟨fun k hk => hsub k (List.mem_toFinset.mp hk), fun h => hmem ?_⟩
        exact List.mem_toFinset.mp (h htouched)
      rw [List.toFinset_card_of_nodup hnodup] at hlt
      rw [Finset.union_eq_left.mpr (Finset.singleton_subset_iff.mpr htouched)]
      omega
    · rw [Finset.card_union_of_disjoint (Finset.disjoint_singleton_right.mpr htouched),
        Finset.card_singleton]
      omega

/-- What was used last stays ahead. -/
theorem prefix_lruUse {maxSize id : ℕ} {recent table : List ℕ}
    (h : recent.take maxSize <+: table) (hid : id ∉ recent) :
    (id :: recent).take maxSize <+: lruUse maxSize id table := by
  cases maxSize with
  | zero => exact List.nil_prefix
  | succ n =>
    obtain ⟨rest, hrest⟩ := (List.take_prefix_take_left (l := recent) (Nat.le_succ n)).trans h
    rw [lruUse, List.take_succ_cons, List.take_succ_cons, List.prefix_cons_inj, ← hrest,
      List.erase_append_right _ (fun hmem => hid (List.mem_of_mem_take hmem)), List.prefix_take_iff]
    exact ⟨List.prefix_append _ _, List.length_take_le n recent⟩

end OdsCache

end ObliviousRam
