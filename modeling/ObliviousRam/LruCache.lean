import ObliviousRam.OdsCache

set_option autoImplicit false

/-!
# The cache as an LRU map

What the calls of `OdsCache` return, told by the calls before them. `held` is what was put under an
id last, unless the id left the cache since then; `lastUse` is when an id was used last. After any
run the cache holds what `held` says, with the ids ordered by `lastUse` (`LruMap`), and this
determines what the next call returns.
-/

namespace ObliviousRam

namespace OdsCache

variable {V : Type}

/-! ## Runs -/

/-- A call of a member function. -/
inductive Call (V : Type) where
  | put (id : ℕ) (item : TreeNode V)
  | get (id : ℕ)
  | front
  | pop
  | clear

namespace Call

/-- The call, with what it returns if it returns an item. -/
def run (maxSize : ℕ) : Call V → Prog Exit (OdsCache V) (Option (TreeNode V))
  | .put id item => OdsCache.put maxSize id item
  | .get id => OdsCache.get id
  | .front => do
    let item ← OdsCache.front
    pure (some item)
  | .pop => do
    OdsCache.pop
    pure none
  | .clear => do
    OdsCache.clear
    pure none

/-- `Get()` and `Pop` are for a cache that is not empty. -/
def Allowed (c : OdsCache V) : Call V → Prop
  | .front => c.isEmpty = false
  | .pop => c.isEmpty = false
  | _ => True

/-- The id that the call uses. (`Get()` is a use of the id used last already.) -/
def used : Call V → Option ℕ
  | .put id _ => some id
  | .get id => some id
  | _ => none

/-- The id whose item is evicted or popped. -/
def gone (maxSize : ℕ) (c : OdsCache V) : Call V → Option ℕ
  | .put id _ =>
    if maxSize < (id :: c.lruTable.erase id).length then (id :: c.lruTable.erase id).getLast?
    else none
  | .pop => c.lruTable.head?
  | _ => none

end Call

/-- A call of a run, and the id that it took out of the cache. -/
structure Event (V : Type) where
  call : Call V
  gone : Option ℕ

/-- The calls that led from the empty cache to this one, the last one first. -/
inductive Reached (maxSize : ℕ) : List (Event V) → OdsCache V → Prop
  | new : Reached maxSize [] new
  | call {history : List (Event V)} {c c' : OdsCache V} {call : Call V}
      {out : Option (TreeNode V)} : Reached maxSize history c → call.Allowed c →
      call.run maxSize c = (.ok out, c') →
      Reached maxSize (⟨call, call.gone maxSize c⟩ :: history) c'

/-- The item put last under an id, unless it was evicted, popped or cleared since then. -/
def held (id : ℕ) : List (Event V) → Option (TreeNode V)
  | [] => none
  | e :: history =>
    if e.gone = some id then none
    else match e.call with
      | .put k item => if id = k then some item else held id history
      | .clear => none
      | _ => held id history

theorem held_put (k id : ℕ) (item : TreeNode V) (gone : Option ℕ) (history : List (Event V)) :
    held k (⟨.put id item, gone⟩ :: history) =
      if gone = some k then none else if k = id then some item else held k history := rfl

theorem held_pop (k id : ℕ) (history : List (Event V)) :
    held k (⟨.pop, some id⟩ :: history) = if k = id then none else held k history := by
  rw [held]
  simp only [Option.some.injEq, eq_comm]

/-- When an id was used last; 0 if it never was. -/
def lastUse (id : ℕ) : List (Event V) → ℕ
  | [] => 0
  | e :: history => if e.call.used = some id then history.length + 1 else lastUse id history

/-- The time of a use is a position in the history. -/
theorem lastUse_le (id : ℕ) (history : List (Event V)) : lastUse id history ≤ history.length := by
  induction history with
  | nil => exact le_refl _
  | cons e history ih =>
    rw [lastUse, List.length_cons]
    split
    · exact le_refl _
    · exact ih.trans (Nat.le_succ _)

theorem lastUse_self {e : Event V} {id : ℕ} (h : e.call.used = some id)
    (history : List (Event V)) : lastUse id (e :: history) = history.length + 1 := if_pos h

theorem lastUse_of_ne {e : Event V} {id : ℕ} (h : e.call.used ≠ some id)
    (history : List (Event V)) : lastUse id (e :: history) = lastUse id history := if_neg h

/-! ## Ordered tables

The two lemmas below are the two ways in which a call changes the order: it uses no id,
and time passes; or it uses one, and the id moves to the front. -/

/-- From the most to the least recently used. -/
def Ordered (history : List (Event V)) (table : List ℕ) : Prop :=
  table.Pairwise fun a b => lastUse b history < lastUse a history

/-- A call that uses none of the ids leaves the order alone. -/
theorem Ordered.cons_event {history : List (Event V)} {table : List ℕ}
    (h : Ordered history table) {e : Event V} (he : ∀ id ∈ table, e.call.used ≠ some id) :
    Ordered (e :: history) table := by
  refine List.Pairwise.imp_of_mem (fun {a b} ha hb hlt => ?_) h
  rw [lastUse_of_ne (he a ha), lastUse_of_ne (he b hb)]
  exact hlt

/-- The id that is used comes first. -/
theorem Ordered.use {history : List (Event V)} {table : List ℕ} (h : Ordered history table)
    (hnodup : table.Nodup) {e : Event V} {id : ℕ} (he : e.call.used = some id) :
    Ordered (e :: history) (id :: table.erase id) := by
  have hne : ∀ k ∈ table.erase id, e.call.used ≠ some k := by
    intro k hk hused
    rw [he, Option.some.injEq] at hused
    exact hnodup.not_mem_erase (hused ▸ hk)
  refine List.pairwise_cons.mpr ⟨fun k hk => ?_, ?_⟩
  · rw [lastUse_self he, lastUse_of_ne (hne k hk)]
    exact Nat.lt_succ_of_le (lastUse_le k history)
  · exact Ordered.cons_event (List.Pairwise.sublist List.erase_sublist h) hne

/-- What is last was used before all others. -/
theorem Ordered.last_lt {history : List (Event V)} {table : List ℕ} (h : Ordered history table)
    {back : ℕ} (hback : table.getLast? = some back) {k : ℕ} (hk : k ∈ table) (hne : k ≠ back) :
    lastUse back history < lastUse k history := by
  rw [← List.dropLast_append_getLast? back hback] at h hk
  rcases List.mem_append.mp hk with hk | hk
  · exact (List.pairwise_append.mp h).2.2 k hk back (List.mem_singleton.mpr rfl)
  · exact absurd (List.mem_singleton.mp hk) hne

/-! ## What holds after any run

One lemma per member function says that it leads from the LRU map of a history to that
of the history with one call more, and what it returns on the way. The run is an
induction over them. -/

/-- The cache is the LRU map of its history. -/
structure LruMap (maxSize : ℕ) (history : List (Event V)) (c : OdsCache V) : Prop where
  valid : c.Valid
  ordered : Ordered history c.lruTable
  length_le : c.lruTable.length ≤ maxSize
  find_eq : ∀ id, c.find id = held id history

/-- The empty cache is the LRU map of no calls. -/
theorem lruMap_new (maxSize : ℕ) : LruMap maxSize [] (new : OdsCache V) where
  valid := valid_new
  ordered := List.Pairwise.nil
  length_le := Nat.zero_le _
  find_eq := fun _ => rfl

/-- What `Put` does with an LRU map: the id it takes out is the least recently used one of those in
the table and the new one, and its item is returned. -/
structure PutResult (maxSize : ℕ) (history : List (Event V)) (c : OdsCache V) (id : ℕ)
    (item : TreeNode V) (out : Option (TreeNode V)) (c' : OdsCache V) : Prop where
  length_le : c'.lruTable.length ≤ maxSize
  nothing : (Call.put id item).gone maxSize c = none →
    out = none ∧ ∀ k, k ∈ c'.lruTable ↔ k = id ∨ k ∈ c.lruTable
  evicted : ∀ back, (Call.put id item).gone maxSize c = some back →
    out = (if back = id then some item else held back history) ∧ out ≠ none ∧
      (∀ k, k ∈ c'.lruTable ↔ (k = id ∨ k ∈ c.lruTable) ∧ k ≠ back) ∧
      ∀ k, k = id ∨ k ∈ c.lruTable → k ≠ back →
        lastUse back (⟨.put id item, some back⟩ :: history) <
          lastUse k (⟨.put id item, some back⟩ :: history)

namespace LruMap

variable {maxSize : ℕ} {history : List (Event V)} {c : OdsCache V}

/-- An insertion adds its id. -/
theorem mem_insert_table (hc : c.Valid) (id : ℕ) (item : TreeNode V) (k : ℕ) :
    k ∈ (c.insert id item).lruTable ↔ k = id ∨ k ∈ c.lruTable := by
  rw [insert, List.mem_cons, hc.nodup.mem_erase_iff]
  tauto

/-- **`Put`.** -/
theorem put (h : LruMap maxSize history c) (id : ℕ) (item : TreeNode V) :
    ∃ out c', OdsCache.put maxSize id item c = (.ok out, c') ∧
      PutResult maxSize history c id item out c' ∧
      LruMap maxSize (⟨.put id item, (Call.put id item).gone maxSize c⟩ :: history) c' := by
  have hvalid := h.valid.insert id item
  have hmem := mem_insert_table h.valid id item
  have hordered (e : Event V) (he : e.call.used = some id) :
      Ordered (e :: history) (c.insert id item).lruTable := h.ordered.use h.valid.nodup he
  have hgone : (Call.put id item).gone maxSize c =
      if maxSize < (c.insert id item).lruTable.length then (c.insert id item).lruTable.getLast?
      else none := rfl
  rw [put_eq h.valid]
  obtain ⟨hle, hrun⟩ | ⟨hlt, back, x, hback, hx, hrun⟩ := evict_eq hvalid maxSize
  · rw [if_neg (Nat.not_lt.mpr hle)] at hgone
    refine ⟨none, _, hrun, ⟨hle, fun _ => ⟨rfl, hmem⟩, fun back hback => ?_⟩,
      hvalid, hordered _ rfl, hle, fun k => ?_⟩
    · cases hgone.symm.trans hback
    · rw [find_insert, hgone, held_put, if_neg (Option.some_ne_none k).symm, h.find_eq]
  · rw [if_pos hlt, hback] at hgone
    have hdrop := hvalid.dropLast hback
    have hsplit := List.dropLast_append_getLast? back hback
    have hlength : (c.insert id item).lruTable.dropLast.length ≤ maxSize := by
      have := List.length_erase_le (a := id) (l := c.lruTable)
      have hle := h.length_le
      rw [List.length_dropLast, insert, List.length_cons]
      omega
    refine ⟨some x, _, hrun, ⟨hlength, fun hnone => ?_, fun back' hback' => ?_⟩,
      hdrop, ?_, hlength, fun k => ?_⟩
    · cases hgone.symm.trans hnone
    · obtain rfl : back = back' := Option.some.inj (hgone.symm.trans hback')
      refine ⟨?_, fun hnone => ?_, fun k => ?_, fun k hk hne => ?_⟩
      · rw [← hx, find_insert, h.find_eq]
      · cases hnone
      · rw [← hmem, hdrop.mem_iff, AList.mem_erase, ← hvalid.mem_iff, and_comm]
      · exact (hordered _ rfl).last_lt hback ((hmem k).mpr hk) hne
    · exact List.Pairwise.sublist (List.dropLast_sublist _) (hordered _ rfl)
    · rw [find_erase, hgone, held_put, find_insert, h.find_eq]
      simp only [Option.some.injEq, eq_comm]

/-- **`Get(id)`.** -/
theorem get (h : LruMap maxSize history c) (id : ℕ) :
    ∃ c', OdsCache.get id c = (.ok (held id history), c') ∧
      LruMap maxSize (⟨.get id, none⟩ :: history) c' := by
  have hheld (k : ℕ) : held k (⟨.get id, none⟩ :: history) = held k history := by
    rw [held, if_neg nofun]
  rw [← h.find_eq]
  cases hfind : c.find id with
  | none =>
    refine ⟨c, get_miss hfind, h.valid, h.ordered.cons_event fun k hk hused => ?_, h.length_le,
      fun k => (h.find_eq k).trans (hheld k).symm⟩
    obtain ⟨x, hx⟩ := h.valid.find_of_mem hk
    rw [← Option.some.inj hused, hfind] at hx
    cases hx
  | some x =>
    have hmem := h.valid.mem_of_find hfind
    refine ⟨_, get_hit h.valid hfind, h.valid.reorder (List.perm_cons_erase hmem).symm,
      h.ordered.use h.valid.nodup rfl, ?_, fun k => (h.find_eq k).trans (hheld k).symm⟩
    rw [← (List.perm_cons_erase hmem).length_eq]
    exact h.length_le

/-- A cache that is not empty has an id used last. -/
theorem exists_cons (hc : c.Valid) (hempty : c.isEmpty = false) :
    ∃ id rest, c.lruTable = id :: rest := by
  refine List.exists_cons_of_length_pos ?_
  rw [hc.length_eq]
  refine List.length_pos_iff.mpr fun hnil => ?_
  rw [isEmpty, hnil] at hempty
  cases hempty

/-- **`Get()` and `Pop`**: the item used last. -/
theorem front_pop (h : LruMap maxSize history c) (hempty : c.isEmpty = false) :
    ∃ id x c', c.lruTable.head? = some id ∧ held id history = some x ∧
      Call.front.run maxSize c = (.ok (some x), c) ∧
      LruMap maxSize (⟨.front, none⟩ :: history) c ∧
      Call.pop.run maxSize c = (.ok none, c') ∧
      LruMap maxSize (⟨.pop, some id⟩ :: history) c' := by
  obtain ⟨id, rest, htable⟩ := exists_cons h.valid hempty
  obtain ⟨x, hx, hfront, c', hpop, hc', hrest, hother⟩ := front_pop_spec h.valid htable
  have hlength := h.length_le
  have hordered := h.ordered
  rw [htable] at hlength hordered
  refine ⟨id, x, c', by rw [htable, List.head?_cons], (h.find_eq id).symm.trans hx, ?_,
    ⟨h.valid, h.ordered.cons_event fun k _ => nofun, h.length_le, fun k => ?_⟩, ?_, hc', ?_, ?_,
    fun k => ?_⟩
  · rw [Call.run, Prog.bind_ok hfront, Prog.pure_apply]
  · rw [h.find_eq, held, if_neg nofun]
  · rw [Call.run, Prog.bind_ok hpop, Prog.pure_apply]
  · rw [hrest]
    exact Ordered.cons_event (List.pairwise_cons.mp hordered).2 fun k _ => nofun
  · rw [hrest]
    exact (Nat.le_succ _).trans hlength
  · rw [hother, held_pop, h.find_eq]

/-- `Clear` forgets all that was put. -/
theorem clear (history : List (Event V)) : LruMap maxSize (⟨.clear, none⟩ :: history) new where
  valid := valid_new
  ordered := List.Pairwise.nil
  length_le := Nat.zero_le _
  find_eq := fun _ => by rw [held, if_neg nofun]; rfl

/-- One call. -/
theorem step (h : LruMap maxSize history c) {call : Call V} (hallowed : call.Allowed c) :
    ∃ out c', call.run maxSize c = (.ok out, c') ∧
      LruMap maxSize (⟨call, call.gone maxSize c⟩ :: history) c' := by
  cases call with
  | put id item =>
    obtain ⟨out, c', hrun, -, hc'⟩ := h.put id item
    exact ⟨out, c', hrun, hc'⟩
  | get id =>
    obtain ⟨c', hrun, hc'⟩ := h.get id
    exact ⟨_, c', hrun, hc'⟩
  | front =>
    obtain ⟨id, x, c', -, -, hrun, hc, -⟩ := h.front_pop hallowed
    exact ⟨some x, c, hrun, hc⟩
  | pop =>
    obtain ⟨id, x, c', hhead, -, -, -, hrun, hc'⟩ := h.front_pop hallowed
    refine ⟨none, c', hrun, ?_⟩
    rw [Call.gone, hhead]
    exact hc'
  | clear => exact ⟨none, new, rfl, clear history⟩

end LruMap

/-- Any run. -/
theorem lruMap_of_reached {maxSize : ℕ} {history : List (Event V)} {c : OdsCache V}
    (h : Reached maxSize history c) : LruMap maxSize history c := by
  induction h with
  | new => exact lruMap_new maxSize
  | call _ hallowed hrun ih =>
    obtain ⟨out, c', hrun', hc'⟩ := ih.step hallowed
    cases hrun.symm.trans hrun'
    exact hc'

/-- **`OdsCache` is an LRU map.** After any run the table lists the ids of the items, each once,
from the most to the least recently used, and no more than the cache may have; and what `Get(id)`
and `Put` return is told by the run. -/
theorem reached_lru {maxSize : ℕ} {history : List (Event V)} {c : OdsCache V}
    (h : Reached maxSize history c) :
    c.lruTable.Nodup ∧ (∀ id, id ∈ c.lruTable ↔ id ∈ c.cacheItems) ∧
      Ordered history c.lruTable ∧ c.lruTable.length ≤ maxSize ∧
      (∀ id, ∃ c', get id c = (.ok (held id history), c')) ∧
      (∀ id item, ∃ out c', put maxSize id item c = (.ok out, c') ∧
        PutResult maxSize history c id item out c') ∧
      ∀ call : Call V, call.Allowed c → ∃ out c', call.run maxSize c = (.ok out, c') ∧
        Reached maxSize (⟨call, call.gone maxSize c⟩ :: history) c' := by
  have hc := lruMap_of_reached h
  refine ⟨hc.valid.nodup, hc.valid.mem_iff, hc.ordered, hc.length_le, fun id => ?_,
    fun id item => ?_, fun call hallowed => ?_⟩
  · obtain ⟨c', hrun, -⟩ := hc.get id
    exact ⟨c', hrun⟩
  · obtain ⟨out, c', hrun, hput, -⟩ := hc.put id item
    exact ⟨out, c', hrun, hput⟩
  · obtain ⟨out, c', hrun, -⟩ := hc.step hallowed
    exact ⟨out, c', hrun, h.call hallowed hrun⟩

/-- Room for two: `Put(1)`, `Put(2)`, `Get(1)`, `Put(3)`. -/
theorem reached_lru_two : ∃ (history : List (Event ℕ)) (c : OdsCache ℕ),
    c.lruTable = [3, 1] ∧
    c.lruTable.Nodup ∧ (∀ id, id ∈ c.lruTable ↔ id ∈ c.cacheItems) ∧
      Ordered history c.lruTable ∧ c.lruTable.length ≤ 2 ∧
      (∀ id, ∃ c', get id c = (.ok (held id history), c')) ∧
      (∀ id item, ∃ out c', put 2 id item c = (.ok out, c') ∧
        PutResult 2 history c id item out c') ∧
      ∀ call : Call ℕ, call.Allowed c → ∃ out c', call.run 2 c = (.ok out, c') ∧
        Reached 2 (⟨call, call.gone 2 c⟩ :: history) c' :=
  have one : Reached 2 _ _ := @Reached.call ℕ 2 _ _ _ (.put 1 (.new 1)) _ .new trivial rfl
  have two : Reached 2 _ _ := @Reached.call ℕ 2 _ _ _ (.put 2 (.new 2)) _ one trivial rfl
  have back : Reached 2 _ _ := @Reached.call ℕ 2 _ _ _ (.get 1) _ two trivial rfl
  have three : Reached 2 _ _ := @Reached.call ℕ 2 _ _ _ (.put 3 (.new 3)) _ back trivial rfl
  ⟨_, _, rfl, reached_lru three⟩

end OdsCache

end ObliviousRam
