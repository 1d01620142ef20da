import ObliviousRam.PathContents

set_option autoImplicit false

/-!
# One access of a Path ORAM

What an access does to the bag of real blocks, and the invariant it keeps.

`Settled P free w` is the invariant: real blocks have distinct ids, positions
are leaves of the tree, and a real block in a bucket outside `free` is on the
path its position names. Between calls nothing is free (`Inv`). Inside a call
the buckets of the path that is about to be read are: the block of the access
has been remapped already, and a caller of `AccessDirect` may name a path that
the position map knows nothing about. Reading a path empties its buckets, so
the free ones hold nothing when the write-back begins, and what the write-back
puts there is on the path by construction.
-/

namespace ObliviousRam

open TreeOramServerStorage PathOramController

variable {D : Type} {C : Codec D} {P : PathOramConfig}

/-- The buckets of path `x`, from the root to the leaf. -/
def pathTags (L x : ℕ) : List Tag := (List.range (L + 1)).map (pathTag L x)

/-- A bucket is on the path if the path, cut down to its level, is its offset. -/
theorem mem_pathTags {L x : ℕ} {t : Tag} :
    t ∈ pathTags L x ↔ t.1 ≤ L ∧ x / 2 ^ (L - t.1) = t.2 := by
  rw [pathTags, List.mem_map]
  constructor
  · rintro ⟨l, hl, rfl⟩
    exact ⟨Nat.lt_succ_iff.mp (List.mem_range.mp hl), rfl⟩
  · rintro ⟨hl, ho⟩
    exact ⟨t.1, List.mem_range.mpr (Nat.lt_succ_of_le hl), Prod.ext rfl ho⟩

/-- The real blocks on path `x`, from the root to the leaf. -/
def pathBlocks (L x : ℕ) (s : TreeOramServerStorage C) : List (OramBlock D) :=
  (List.range (L + 1)).flatMap fun l => s.normalAt (pathTag L x l)

theorem mem_pathBlocks {L x : ℕ} {s : TreeOramServerStorage C} {b : OramBlock D} :
    b ∈ pathBlocks L x s ↔ ∃ t ∈ pathTags L x, b ∈ s.normalAt t := by
  simp only [pathBlocks, pathTags, List.mem_flatMap, List.mem_map]
  constructor
  · rintro ⟨l, hl, hb⟩
    exact ⟨_, ⟨l, hl, rfl⟩, hb⟩
  · rintro ⟨_, ⟨l, hl, rfl⟩, hb⟩
    exact ⟨l, hl, hb⟩

namespace PathSystem

/-- The invariant of a client and its tree, with the buckets in `free` excused. -/
structure Settled (P : PathOramConfig) (free : Tag → Prop)
    (w : PathSystem D (TreeOramServerStorage C)) : Prop where
  intact : Intact P.treeLevel w.server
  stash_normal : ∀ b ∈ w.client.stash, b.isNormal = true
  unique : UniqueKeys OramBlock.id (w.contents P)
  position_lt : ∀ a, w.client.positionMap.index a < P.numberOfLeafs
  on_path : ∀ t ∈ treeTags P.treeLevel, ¬free t → ∀ b ∈ w.server.normalAt t,
    w.client.positionMap.index b.id / 2 ^ (P.treeLevel - t.1) = t.2

/-- The invariant between calls. -/
def Inv (P : PathOramConfig) (w : PathSystem D (TreeOramServerStorage C)) : Prop :=
  w.Settled P fun _ => False

/-- More buckets may be excused. -/
theorem Settled.mono {free free' : Tag → Prop} {w : PathSystem D (TreeOramServerStorage C)}
    (h : w.Settled P free) (hle : ∀ t, free t → free' t) : w.Settled P free' where
  intact := h.intact
  stash_normal := h.stash_normal
  unique := h.unique
  position_lt := h.position_lt
  on_path := fun t ht hfree => h.on_path t ht fun hf => hfree (hle t hf)

/-- The stash of a settled system holds real blocks only. -/
theorem Settled.contents_eq {free : Tag → Prop} {w : PathSystem D (TreeOramServerStorage C)}
    (h : w.Settled P free) :
    w.contents P = (w.client.stash : Multiset (OramBlock D)) + treeBlocks P.treeLevel w.server := by
  rw [contents, filter_isNormal_of_forall h.stash_normal]

theorem mem_contents_iff {free : Tag → Prop} {w : PathSystem D (TreeOramServerStorage C)}
    (h : w.Settled P free) {b : OramBlock D} :
    b ∈ w.contents P ↔
      b ∈ w.client.stash ∨ ∃ t ∈ treeTags P.treeLevel, b ∈ w.server.normalAt t := by
  rw [h.contents_eq, Multiset.mem_add, Multiset.mem_coe, mem_treeBlocks]

theorem isNormal_of_mem_contents {w : PathSystem D (TreeOramServerStorage C)} {b : OramBlock D}
    (hb : b ∈ w.contents P) : b.isNormal = true := by
  rcases Multiset.mem_add.mp hb with hb | hb
  · exact (List.mem_filter.mp (Multiset.mem_coe.mp hb)).2
  · obtain ⟨t, -, hb⟩ := mem_treeBlocks.mp hb
    exact (mem_normalAt.mp hb).2

end PathSystem

namespace PathOramController

open PathSystem

/-! ## Reading the path into the stash

After the read the free buckets are empty, so the invariant holds of the stash and of
all buckets again, and the block of the access is in the stash if it is anywhere
(`Absorbed.find?_eq_some`). -/

/-- The state in the middle of an access: the path has moved to the stash. -/
structure Absorbed (P : PathOramConfig) (x : ℕ)
    (w w' : PathSystem D (TreeOramServerStorage C)) : Prop where
  intact : Intact P.treeLevel w'.server
  stash_eq : w'.client.stash = w.client.stash ++ pathBlocks P.treeLevel x w.server
  position_eq : w'.client.positionMap = w.client.positionMap
  initialized_eq : w'.client.isInitialized = w.client.isInitialized
  contents_eq : w'.contents P = w.contents P
  blocks_eq : ∀ t, w'.server.blocksAt t =
    if t ∈ pathTags P.treeLevel x then [] else w.server.blocksAt t

theorem filter_flatten_blocksAt (L x : ℕ) (s : TreeOramServerStorage C) (ls : List ℕ) :
    ((ls.map fun l => s.blocksAt (pathTag L x l)).flatten.filter OramBlock.isNormal) =
      ls.flatMap fun l => s.normalAt (pathTag L x l) := by
  rw [List.filter_flatten, List.map_map, List.flatMap_def]
  rfl

/-- Steps 3-5 of an access. -/
theorem absorb_spec {x : ℕ} (hx : x < P.numberOfLeafs) {free : Tag → Prop}
    {w : PathSystem D (TreeOramServerStorage C)} (hw : w.Settled P free) :
    ∃ path w₁ w₂, readLevels (OramService.stub C P.id) P x (List.range (P.treeLevel + 1)) w =
        (.ok path, w₁) ∧
      update (ε := Exit) (fun c => { c with stash := mergePath c.stash path }) w₁ = (.ok (), w₂) ∧
      Absorbed P x w w₂ := by
  obtain ⟨n, server, hread, hs, hblocks, hsum⟩ := readLevels_spec hx
    (List.range (P.treeLevel + 1)) w hw.intact List.nodup_range
    fun l hl => Nat.lt_succ_iff.mp (List.mem_range.mp hl)
  have hsplit : w.contents P = (w.client.stash : Multiset (OramBlock D)) +
      (pathBlocks P.treeLevel x w.server : List (OramBlock D)) + treeBlocks P.treeLevel server := by
    rw [hw.contents_eq, ← hsum, pathBlocks]
    abel
  have hmerge : mergePath w.client.stash ((List.range (P.treeLevel + 1)).map fun l =>
      w.server.blocksAt (pathTag P.treeLevel x l)) =
      w.client.stash ++ pathBlocks P.treeLevel x w.server := by
    rw [mergePath_eq_foldl_normal, filter_flatten_blocksAt, ← pathBlocks]
    refine foldl_mergeBlock (fun b hb => ?_) (hsplit ▸ hw.unique).left
    obtain ⟨t, -, hb⟩ := mem_pathBlocks.mp hb
    exact (mem_normalAt.mp hb).2
  refine ⟨_, _, _, hread, rfl, hs, hmerge, rfl, rfl, ?_, hblocks⟩
  simp only [PathSystem.contents, hmerge]
  rw [filter_isNormal_of_forall, ← Multiset.coe_add, ← hsplit]
  · rw [PathSystem.contents]
  · intro b hb
    refine isNormal_of_mem_contents (P := P) (w := w) ?_
    rw [hsplit]
    exact Multiset.mem_add.mpr (.inl (Multiset.mem_coe.mpr hb))

/-- Off the path nothing has moved, and the path is empty. -/
theorem Absorbed.normalAt_eq {x : ℕ} {w w' : PathSystem D (TreeOramServerStorage C)}
    (h : Absorbed P x w w') (t : Tag) :
    w'.server.normalAt t = if t ∈ pathTags P.treeLevel x then [] else w.server.normalAt t := by
  rw [normalAt, h.blocks_eq]
  split
  · rfl
  · rw [normalAt]

/-- Once the path is in the stash, the excuse for its buckets is not needed any more. -/
theorem Absorbed.inv {x : ℕ} {w w' : PathSystem D (TreeOramServerStorage C)}
    (h : Absorbed P x w w') (hw : w.Settled P (· ∈ pathTags P.treeLevel x)) : w'.Inv P where
  intact := h.intact
  stash_normal := by
    intro b hb
    rw [h.stash_eq] at hb
    rcases List.mem_append.mp hb with hb | hb
    · exact hw.stash_normal b hb
    · obtain ⟨t, -, hb⟩ := mem_pathBlocks.mp hb
      exact (mem_normalAt.mp hb).2
  unique := h.contents_eq ▸ hw.unique
  position_lt := by
    rw [h.position_eq]
    exact hw.position_lt
  on_path := by
    intro t ht _ b hb
    rw [h.normalAt_eq] at hb
    by_cases hpath : t ∈ pathTags P.treeLevel x
    · rw [if_pos hpath] at hb
      exact absurd hb List.not_mem_nil
    · rw [if_neg hpath] at hb
      rw [h.position_eq]
      exact hw.on_path t ht hpath b hb

/-- A block of the bag that is in the stash or on the path is found, and only such a block. -/
theorem Absorbed.find?_eq_some {x a : ℕ} {w w' : PathSystem D (TreeOramServerStorage C)}
    (h : Absorbed P x w w') (hw : w.Settled P (· ∈ pathTags P.treeLevel x)) {b : OramBlock D}
    (hb : b ∈ w.client.stash ∨ b ∈ pathBlocks P.treeLevel x w.server) (ha : b.id = a) :
    w'.client.stash.find? (blockEqual a) = some b := by
  have hinv := h.inv hw
  have hunique : UniqueKeys OramBlock.id (w'.client.stash : Multiset (OramBlock D)) :=
    (hinv.contents_eq ▸ hinv.unique).left
  refine find?_eq_some_of_unique hunique (fun c hc => ?_) ?_ ha
  · rw [blockEqual_iff]
    exact ⟨And.left, fun hk => ⟨hk, hinv.stash_normal c hc⟩⟩
  · rw [h.stash_eq]
    exact List.mem_append.mpr hb

/-! ## Updating the block -/

/-- The effect of steps 6-9 on the bag: a write stores the buffer under the
address, an embedded read removes the address, a standalone read does nothing. -/
def accessed (P : PathOramConfig) (op : Operation) (address : ℕ) (buffer : OramBlock D)
    (s : Multiset (OramBlock D)) : Multiset (OramBlock D) :=
  if op = .kWrite then replaceKey OramBlock.id address (·.store buffer) s
  else if P.standalone = false then dropKey OramBlock.id address s
  else s

/-- What `*data` holds after the call. -/
def output (op : Operation) (buffer block : OramBlock D) : OramBlock D :=
  if op = .kWrite then buffer else block

theorem accessed_add (op : Operation) (address : ℕ) (buffer : OramBlock D)
    (s t : Multiset (OramBlock D)) :
    accessed P op address buffer (s + t) =
      accessed P op address buffer s + accessed P op address buffer t := by
  simp only [accessed]
  split
  · exact replaceKey_add
  · split
    · exact dropKey_add
    · rfl

/-- An access to an address that is not stored leaves the bag alone. -/
theorem accessed_of_notMem {op : Operation} {address : ℕ} {buffer : OramBlock D}
    {s : Multiset (OramBlock D)} (h : ∀ b ∈ s, b.id ≠ address) :
    accessed P op address buffer s = s := by
  simp only [accessed]
  split
  · exact replaceKey_of_notMem h
  · split
    · exact dropKey_of_notMem h
    · rfl

theorem accessed_unique {op : Operation} {address : ℕ} {buffer : OramBlock D}
    {s : Multiset (OramBlock D)} (h : UniqueKeys OramBlock.id s) :
    UniqueKeys OramBlock.id (accessed P op address buffer s) := by
  simp only [accessed]
  split
  · exact h.replaceKey fun b => b.store_id buffer
  · split
    · exact h.dropKey
    · exact h

/-- The ids an access leaves behind are among those it found. -/
theorem id_mem_of_mem_accessed {op : Operation} {address : ℕ} {buffer : OramBlock D}
    {s : Multiset (OramBlock D)} {b : OramBlock D} (hb : b ∈ accessed P op address buffer s) :
    ∃ c ∈ s, c.id = b.id := by
  simp only [accessed] at hb
  split at hb
  · obtain ⟨c, hc, rfl⟩ := Multiset.mem_map.mp hb
    refine ⟨c, hc, ?_⟩
    split
    · exact (c.store_id buffer).symm
    · rfl
  · split at hb
    · exact ⟨b, (mem_dropKey.mp hb).1, rfl⟩
    · exact ⟨b, hb, rfl⟩

/-- An update never fails, and does not reach the server. -/
theorem updateBlock_total {σ : Type} (op : Operation) (address : ℕ) (buffer block : OramBlock D)
    (c : PathOramController D) (s : σ) :
    ∃ out c', updateBlock P op address buffer block ⟨c, s⟩ = (.ok out, ⟨c', s⟩) := by
  simp only [updateBlock, update, Prog.modify_bind]
  split
  · exact ⟨_, _, rfl⟩
  · split
    · exact ⟨_, _, rfl⟩
    · exact ⟨_, _, rfl⟩

/-- Steps 6-9 on a settled system whose stash holds the block. -/
theorem updateBlock_spec (op : Operation) {address : ℕ} (buffer : OramBlock D) {block : OramBlock D}
    {w : PathSystem D (TreeOramServerStorage C)} (hw : w.Inv P)
    (hfind : w.client.stash.find? (blockEqual address) = some block) :
    ∃ w', updateBlock P op address buffer block w = (.ok (output op buffer block), w') ∧
      w'.Inv P ∧ w'.server = w.server ∧ w'.client.isInitialized = w.client.isInitialized ∧
      w'.contents P = accessed P op address buffer (w.contents P) ∧
      (∀ a ≠ address, w'.client.positionMap.index a = w.client.positionMap.index a) := by
  have hmem : block ∈ w.client.stash := List.mem_of_find?_eq_some hfind
  have hid : block.id = address := (blockEqual_iff.mp (List.find?_some hfind)).1
  have hunique : UniqueKeys OramBlock.id ((w.client.stash : Multiset (OramBlock D)) +
      treeBlocks P.treeLevel w.server) := hw.contents_eq ▸ hw.unique
  have hmatch : ∀ b ∈ w.client.stash, blockEqual address b ↔ b.id = address := fun b hb => by
    rw [blockEqual_iff]
    exact ⟨And.left, fun hk => ⟨hk, hw.stash_normal b hb⟩⟩
  -- the tree holds no block of this id, so the update of the stash is the update of the bag
  have htree : ∀ b ∈ treeBlocks P.treeLevel w.server, b.id ≠ address := fun b hb he =>
    hunique.ne_of_mem (Multiset.mem_coe.mpr hmem) hb (hid.trans he.symm)
  have key : ∀ (client : PathOramController D),
      (client.stash : Multiset (OramBlock D)) =
        accessed P op address buffer (w.client.stash : Multiset (OramBlock D)) →
      (∀ b ∈ client.stash, b.isNormal = true) →
      (∀ a ≠ address, client.positionMap.index a = w.client.positionMap.index a) →
      (∀ a, client.positionMap.index a < P.numberOfLeafs) →
      ({ client := client, server := w.server } : PathSystem D _).Inv P ∧
        ({ client := client, server := w.server } : PathSystem D _).contents P =
          accessed P op address buffer (w.contents P) := by
    intro client hstash hnormal hindex hlt
    have hcont : ({ client := client, server := w.server } : PathSystem D _).contents P =
        accessed P op address buffer (w.contents P) := by
      rw [hw.contents_eq, accessed_add, accessed_of_notMem htree, ← hstash, contents,
        filter_isNormal_of_forall hnormal]
    refine ⟨⟨hw.intact, hnormal, ?_, hlt, ?_⟩, hcont⟩
    · rw [hcont]
      exact accessed_unique hw.unique
    · intro t ht hfree b hb
      have hne : b.id ≠ address := htree b (mem_treeBlocks.mpr ⟨t, ht, hb⟩)
      simp only [hindex b.id hne]
      exact hw.on_path t ht hfree b hb
  by_cases hop : op = .kWrite
  · subst hop
    have hcoe := coe_updateFirst (f := (·.store buffer)) hunique.left hmatch
    have hnormal : ∀ b ∈ updateFirst (blockEqual address) (·.store buffer) w.client.stash,
        b.isNormal = true := by
      intro b hb
      have hb' := hcoe ▸ Multiset.mem_coe.mpr hb
      obtain ⟨c, hc, rfl⟩ := Multiset.mem_map.mp hb'
      split
      · exact hw.stash_normal c hc
      · exact hw.stash_normal c hc
    obtain ⟨hinv, hcont⟩ := key
      { w.client with
        stashSize := max w.client.stashSize w.client.stash.length
        stash := updateFirst (blockEqual address) (·.store buffer) w.client.stash }
      (by rw [accessed, if_pos rfl]; exact hcoe) hnormal (fun a _ => rfl) hw.position_lt
    exact ⟨_, rfl, hinv, rfl, rfl, hcont, fun a _ => rfl⟩
  · rcases hstand : P.standalone with _ | _
    · -- embedded: read and remove
      have hlt : ∀ a, (w.client.positionMap.erase address).index a < P.numberOfLeafs := by
        intro a
        by_cases ha : a = address
        · rw [ha, PositionMap.index_erase_self]
          exact Nat.two_pow_pos _
        · rw [PositionMap.index_erase_ne _ ha]
          exact hw.position_lt a
      obtain ⟨hinv, hcont⟩ := key
        { w.client with
          stashSize := max w.client.stashSize w.client.stash.length
          stash := w.client.stash.eraseP (blockEqual address)
          positionMap := w.client.positionMap.erase address }
        (by rw [accessed, if_neg hop, if_pos hstand]; exact coe_eraseP hunique.left hmatch)
        (fun b hb => hw.stash_normal b (List.mem_of_mem_eraseP hb))
        (fun a ha => PositionMap.index_erase_ne _ ha) hlt
      refine ⟨_, ?_, hinv, rfl, rfl, hcont, fun a ha => PositionMap.index_erase_ne _ ha⟩
      rw [updateBlock, output, if_neg hop, if_neg hop, if_pos hstand]
      rfl
    · have hne : ¬P.standalone = false := by rw [hstand]; exact Bool.noConfusion
      obtain ⟨hinv, hcont⟩ := key
        { w.client with stashSize := max w.client.stashSize w.client.stash.length }
        (by rw [accessed, if_neg hop, if_neg hne]) hw.stash_normal (fun a _ => rfl) hw.position_lt
      refine ⟨_, ?_, hinv, rfl, rfl, hcont, fun a _ => rfl⟩
      rw [updateBlock, output, if_neg hop, if_neg hop, if_neg hne]
      rfl

/-! ## The whole access -/

/-- Writing the path back keeps the invariant. -/
theorem WrittenBack.inv {x : ℕ} {w w' : PathSystem D (TreeOramServerStorage C)}
    (h : WrittenBack P x (P.treeLevel + 1) w w') (hw : w.Inv P) : w'.Inv P where
  intact := h.intact
  stash_normal := h.stash_normal
  unique := h.contents_eq ▸ hw.unique
  position_lt := fun a => h.index_eq a ▸ hw.position_lt a
  on_path := by
    intro t ht hfree b hb
    rw [h.index_eq]
    by_cases hpath : t ∈ pathTags P.treeLevel x
    · obtain ⟨l, hl, rfl⟩ := List.mem_map.mp hpath
      rw [h.placed l (List.mem_range.mp hl) b hb]
      exact (mem_pathTags.mp hpath).2
    · refine hw.on_path t ht hfree b ?_
      rw [normalAt, ← h.off_path t fun l hl he =>
        hpath (List.mem_map.mpr ⟨l, List.mem_range.mpr hl, he.symm⟩), ← normalAt]
      exact hb

/-- An access whose block is in the stash or on the path it reads. -/
theorem internalAccessDirect_found (op : Operation) {address x : ℕ} (buffer : OramBlock D)
    {b : OramBlock D}
    {draws : AccessDraws C} {w : PathSystem D (TreeOramServerStorage C)}
    (hx : x < P.numberOfLeafs) (hpad : ∀ l j, (draws.pad l j).isNormal = false)
    (hw : w.Settled P (· ∈ pathTags P.treeLevel x))
    (hb : b ∈ w.client.stash ∨ b ∈ pathBlocks P.treeLevel x w.server) (hid : b.id = address) :
    ∃ w', internalAccessDirect (OramService.stub C P.id) P op address x buffer draws false w =
        (.ok (output op buffer b), w') ∧
      w'.Inv P ∧ w'.contents P = accessed P op address buffer (w.contents P) ∧
      w'.client.isInitialized = w.client.isInitialized ∧
      ∀ a ≠ address, w'.client.positionMap.index a = w.client.positionMap.index a := by
  obtain ⟨path, w₁, w₂, hread, hmerge, habs⟩ := absorb_spec hx hw
  have hfind := habs.find?_eq_some hw hb hid
  obtain ⟨w₃, hupd, hinv₃, hserver₃, hinit₃, hcont₃, hindex₃⟩ :=
    updateBlock_spec op buffer (habs.inv hw) hfind
  have hempty : ∀ l < P.treeLevel + 1, w₃.server.normalAt (pathTag P.treeLevel x l) = [] := by
    intro l hl
    rw [hserver₃, habs.normalAt_eq, if_pos]
    exact List.mem_map.mpr ⟨l, List.mem_range.mpr hl, rfl⟩
  obtain ⟨w₄, hwrite, hback⟩ := writeLevels_spec hx hpad (P.treeLevel + 1) w₃ le_rfl hinv₃.intact
    hinv₃.stash_normal hempty
  refine ⟨w₄, ?_, hback.inv hinv₃, ?_, ?_, ?_⟩
  · rw [internalAccessDirect, Prog.bind_ok hread, if_neg Bool.false_ne_true, Prog.bind_ok hmerge,
      Prog.get_bind]
    simp only [hfind]
    rw [Prog.bind_ok hupd, Prog.bind_ok hwrite]
    rfl
  · rw [hback.contents_eq, hcont₃, habs.contents_eq]
  · rw [hback.initialized_eq, hinit₃, habs.initialized_eq]
  · intro a ha
    rw [hback.index_eq, hindex₃ a ha, habs.position_eq]

/-- An access whose block is neither in the stash nor on the path: the path
stays in the stash, and nothing else happens. -/
theorem internalAccessDirect_missing (op : Operation) {address x : ℕ} (buffer : OramBlock D)
    (draws : AccessDraws C) {w : PathSystem D (TreeOramServerStorage C)}
    (hx : x < P.numberOfLeafs) (hw : w.Settled P (· ∈ pathTags P.treeLevel x))
    (hmiss : ∀ b, b ∈ w.client.stash ∨ b ∈ pathBlocks P.treeLevel x w.server → b.id ≠ address) :
    ∃ st w', internalAccessDirect (OramService.stub C P.id) P op address x buffer draws false w =
        (.error (.status st), w') ∧
      st.errorCode = .kObjectNotFound ∧ w'.Inv P ∧ w'.contents P = w.contents P ∧
      w'.client.isInitialized = w.client.isInitialized ∧
      w'.client.positionMap = w.client.positionMap := by
  obtain ⟨path, w₁, w₂, hread, hmerge, habs⟩ := absorb_spec hx hw
  have hfind : w₂.client.stash.find? (blockEqual address) = none := by
    refine List.find?_eq_none.mpr fun b hb he => ?_
    rw [habs.stash_eq] at hb
    exact hmiss b (List.mem_append.mp hb) (blockEqual_iff.mp he).1
  refine ⟨.make .kObjectNotFound s!"Failed to find the block {address} in the stash!"
    "InternalAccessDirect", w₂, ?_, rfl, habs.inv hw, habs.contents_eq, habs.initialized_eq,
    habs.position_eq⟩
  · rw [internalAccessDirect, Prog.bind_ok hread, if_neg Bool.false_ne_true, Prog.bind_ok hmerge,
      Prog.get_bind]
    simp only [hfind, fail_apply]

/-- The path of an `AccessDirect` outside the tree: refused, and nothing changes. -/
theorem internalAccessDirect_out_of_range {σ : Type} (S : TreeStub C σ) (op : Operation)
    (address : ℕ) {x : ℕ} (buffer : OramBlock D) (draws : AccessDraws C) (dummy : Bool)
    {w : PathSystem D σ} (hx : ¬x < P.numberOfLeafs) :
    internalAccessDirect S P op address x buffer draws dummy w =
      (.error (.status (badPath x)), w) :=
  Prog.bind_error (readLevels_out_of_range hx w)

/-! ## Remapping and the public entry points

The remap is what makes the buckets of the old path free: the position of the block is
new while the block is still where the old one says. -/

/-- `RandomPosition` draws a leaf, and every leaf can be drawn. -/
theorem randomPosition_spec {σ : Type} (value : ℕ) (w : PathSystem D σ) :
    randomPosition P value w = (.ok (value % P.numberOfLeafs), w) := by
  have hpos : 0 < P.numberOfLeafs := Nat.two_pow_pos _
  rw [randomPosition, checkedRandom_ok _ _ (Nat.zero_le _), Nat.sub_zero,
    Nat.sub_add_cancel hpos, Nat.add_zero]

/-- The system after the block of `address` has been remapped to leaf `x`. -/
def remap (address x : ℕ) (w : PathSystem D (TreeOramServerStorage C)) :
    PathSystem D (TreeOramServerStorage C) :=
  { w with client := { w.client with positionMap := w.client.positionMap.set address x } }

/-- After the remapping only the buckets of the block's old path are excused. -/
theorem settled_remap (address : ℕ) {x : ℕ} {w : PathSystem D (TreeOramServerStorage C)} (hw : w.Inv P)
    (hx : x < P.numberOfLeafs) :
    (remap address x w).Settled P
      (· ∈ pathTags P.treeLevel (w.client.positionMap.index address)) where
  intact := hw.intact
  stash_normal := hw.stash_normal
  unique := hw.unique
  position_lt := by
    intro a
    by_cases ha : a = address
    · rw [ha, remap, PositionMap.index_set_self]
      exact hx
    · rw [remap, PositionMap.index_set_ne _ _ ha]
      exact hw.position_lt a
  on_path := by
    intro t ht hfree b hb
    have hpos := hw.on_path t ht not_false b hb
    by_cases hid : b.id = address
    · exact absurd (mem_pathTags.mpr ⟨(mem_treeTags.mp ht).1, hid ▸ hpos⟩) hfree
    · rw [remap, PositionMap.index_set_ne _ _ hid]
      exact hpos

/-- A block of a settled system is in the stash or on the path its position names. -/
theorem mem_stash_or_path {w : PathSystem D (TreeOramServerStorage C)} (hw : w.Inv P)
    {b : OramBlock D} (hb : b ∈ w.contents P) :
    b ∈ w.client.stash ∨
      b ∈ pathBlocks P.treeLevel (w.client.positionMap.index b.id) w.server := by
  rcases (mem_contents_iff hw).mp hb with hb | ⟨t, ht, hb⟩
  · exact .inl hb
  · exact .inr (mem_pathBlocks.mpr ⟨t, mem_pathTags.mpr
      ⟨(mem_treeTags.mp ht).1, hw.on_path t ht not_false b hb⟩, hb⟩)

/-- An initialised real access is a remapping followed by a direct access to the old path. -/
theorem internalAccess_eq {op : Operation} {address : ℕ} {buffer : OramBlock D}
    {draws : AccessDraws C} {S : TreeStub C (TreeOramServerStorage C)}
    {w : PathSystem D (TreeOramServerStorage C)}
    (hinit : w.client.isInitialized = true) (hop : op ≠ .kInvalid) :
    internalAccess S P op address buffer draws false w =
      internalAccessDirect S P op address (w.client.positionMap.index address) buffer draws false
        (remap address (draws.position % P.numberOfLeafs) w) := by
  rw [internalAccess, Prog.get_bind, hinit, if_neg Bool.false_ne_true.symm, if_neg hop,
    Prog.bind_ok (randomPosition_spec _ _)]
  rfl

/-- A real access to a stored address. -/
theorem internalAccess_found {op : Operation} {address : ℕ} (buffer : OramBlock D) {b : OramBlock D}
    {draws : AccessDraws C} {w : PathSystem D (TreeOramServerStorage C)} (hw : w.Inv P)
    (hinit : w.client.isInitialized = true) (hop : op ≠ .kInvalid)
    (hpad : ∀ l j, (draws.pad l j).isNormal = false) (hb : b ∈ w.contents P)
    (hid : b.id = address) :
    ∃ w', internalAccess (OramService.stub C P.id) P op address buffer draws false w =
        (.ok (output op buffer b), w') ∧
      w'.Inv P ∧ w'.contents P = accessed P op address buffer (w.contents P) ∧
      w'.client.isInitialized = true := by
  have hlt : draws.position % P.numberOfLeafs < P.numberOfLeafs :=
    Nat.mod_lt _ (Nat.two_pow_pos _)
  obtain ⟨w', haccess, hinv, hcont, hinit', -⟩ := internalAccessDirect_found op
    buffer (hw.position_lt address) hpad (settled_remap address hw hlt)
    (hid ▸ mem_stash_or_path hw hb) hid
  exact ⟨w', (internalAccess_eq hinit hop).trans haccess, hinv, hcont, hinit'.trans hinit⟩

/-- A real access to an address that is not stored. -/
theorem internalAccess_missing {op : Operation} {address : ℕ} (buffer : OramBlock D)
    (draws : AccessDraws C) {w : PathSystem D (TreeOramServerStorage C)} (hw : w.Inv P)
    (hinit : w.client.isInitialized = true) (hop : op ≠ .kInvalid)
    (hmiss : ∀ b ∈ w.contents P, b.id ≠ address) :
    ∃ st w', internalAccess (OramService.stub C P.id) P op address buffer draws false w =
        (.error (.status st), w') ∧
      st.errorCode = .kObjectNotFound ∧ w'.Inv P ∧ w'.contents P = w.contents P ∧
      w'.client.isInitialized = true := by
  have hlt : draws.position % P.numberOfLeafs < P.numberOfLeafs :=
    Nat.mod_lt _ (Nat.two_pow_pos _)
  have hmiss' : ∀ b, b ∈ w.client.stash ∨
      b ∈ pathBlocks P.treeLevel (w.client.positionMap.index address) w.server →
      b.id ≠ address := by
    intro b hb
    refine hmiss b ((mem_contents_iff hw).mpr (hb.imp id fun hb => ?_))
    obtain ⟨t, ht, hb⟩ := mem_pathBlocks.mp hb
    refine ⟨t, mem_treeTags.mpr ⟨(mem_pathTags.mp ht).1, ?_⟩, hb⟩
    rw [← (mem_pathTags.mp ht).2]
    exact pathTag_lt (hw.position_lt address) (mem_pathTags.mp ht).1
  obtain ⟨st, w', haccess, hcode, hinv, hcont, hinit', -⟩ := internalAccessDirect_missing op
    buffer draws (hw.position_lt address) (settled_remap address hw hlt) hmiss'
  exact ⟨st, w', (internalAccess_eq hinit hop).trans haccess, hcode, hinv, hcont,
    hinit'.trans hinit⟩

end PathOramController

end ObliviousRam
