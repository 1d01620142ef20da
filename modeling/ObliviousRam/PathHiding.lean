import ObliviousRam.FromFile
import ObliviousRam.PathPattern

set_option autoImplicit false

/-!
# What the access pattern of a Path ORAM hides

The traces that are possible for a sequence of accesses, over all outcomes of
the random choices of `FillWithData` and `RandomPosition`: one path for each
access, chosen freely among the leaves the access can show (`leavesAt`). For an
address that has been accessed before these are all leaves. For a first access
they are the leaves below the bucket into which the greedy load has put the
block, and that bucket is a function of the address.
-/

namespace ObliviousRam

open PathSystem PathOramController

variable {D : Type} {C : Codec D} {P : PathOramConfig}

/-! ## Free choices

The traces of a run are sequences, one leaf for each access, and each leaf is chosen
from a set of its own. Two families of sets that are nowhere empty have the same
sequences only if they are the same family; that is all that the comparison of two runs
comes down to. -/

section

variable {ι ω : Type}

/-- The sequences of length `n` whose elements are chosen from given sets. -/
def choices (n : ℕ) (A : ℕ → Set ι) : Set (List ι) :=
  {xs | xs.length = n ∧ ∀ i x, xs[i]? = some x → x ∈ A i}

/-- If something can be chosen everywhere, the sequences determine the sets. -/
theorem choices_eq_iff {n : ℕ} {A B : ℕ → Set ι} (hA : ∀ i < n, (A i).Nonempty)
    (hB : ∀ i < n, (B i).Nonempty) : choices n A = choices n B ↔ ∀ i < n, A i = B i := by
  -- any element of any of the sets is chosen by some sequence
  have hsub : ∀ {A B : ℕ → Set ι}, (∀ i < n, (A i).Nonempty) → choices n A ⊆ choices n B →
      ∀ i < n, A i ⊆ B i := by
    intro A B hA hsub i hi x hx
    classical
    choose pick hpick using hA
    let xs : List ι := List.ofFn fun j : Fin n => if (j : ℕ) = i then x else pick j j.isLt
    have hxs : xs ∈ choices n A := by
      refine ⟨List.length_ofFn, fun j y hy => ?_⟩
      obtain ⟨hj, hy⟩ := List.getElem?_eq_some_iff.mp hy
      simp only [xs, List.getElem_ofFn] at hy
      split at hy
      next he => exact hy ▸ he ▸ hx
      next => exact hy ▸ hpick _ _
    refine (hsub hxs).2 i x ?_
    rw [List.getElem?_eq_some_iff]
    have hlen : i < xs.length := by rwa [List.length_ofFn]
    exact ⟨hlen, by simp only [xs, List.getElem_ofFn, if_true]⟩
  constructor
  · intro h i hi
    exact Set.Subset.antisymm (hsub hA h.subset i hi) (hsub hB h.symm.subset i hi)
  · intro h
    ext xs
    refine and_congr_right fun hlen => forall_congr' fun i => forall_congr' fun x => ?_
    refine imp_congr_right fun hx => ?_
    rw [h i (hlen ▸ (List.getElem?_eq_some_iff.mp hx).1)]

/-- Words of one length and no two the same: their concatenation can be read back. -/
theorem flatMap_injective {f : ι → List ω} (hlen : ∀ x y, (f x).length = (f y).length)
    (hf : Function.Injective f) {xs ys : List ι} (hlength : xs.length = ys.length)
    (heq : xs.flatMap f = ys.flatMap f) : xs = ys := by
  rw [List.flatMap_def, List.flatMap_def] at heq
  apply List.map_injective_iff.mpr hf
  rw [List.eq_iff_flatten_eq]
  refine ⟨heq, List.ext_getElem (by simp [hlength]) fun i _ _ => ?_⟩
  simp only [List.getElem_map]
  apply hlen

end

/-- A path read and a path written. -/
theorem length_pattern (x : ℕ) :
    (pattern P x).length = (P.treeLevel + 1) + (P.treeLevel + 1) := by
  rw [pattern, List.length_append, List.length_map, List.length_map, List.length_reverse,
    List.length_range]

/-- The pattern names its path. -/
theorem pattern_injective : Function.Injective (pattern P) := by
  intro x y h
  have hhead := congrArg (fun events : List TreeEvent => events[0]?) h
  simp only [pattern, List.range_succ_eq_map, List.map_cons, List.cons_append,
    List.getElem?_cons_zero, Option.some.injEq, TreeEvent.readPath.injEq, and_true] at hhead
  exact hhead

/-! ## Where the load puts a block

The load is greedy and has no choice where to put a block: line `a` goes to bucket `a /
bucket_size_` in the order of the load. What it draws is the leaf below that bucket. -/

/-- The bucket that takes the `a`-th block of the data. -/
def fillTag (P : PathOramConfig) (a : ℕ) : Tag :=
  (fillOrder P.treeLevel).getD (a / P.bucketSize) (0, 0)

/-- How many leaves lie below a bucket. -/
def span (P : PathOramConfig) (t : Tag) : ℕ := 2 ^ (P.treeLevel - t.1)

/-- The position that the load draws in bucket `t` for the `k`-th of its blocks. -/
def filledPosition (P : PathOramConfig) (path : Tag → ℕ → ℕ) (t : Tag) (k : ℕ) : ℕ :=
  path t (P.bucketSize - 1 - k) % span P t + t.2 * span P t

/-- The block in slot `i` of the data has the position drawn for that slot. -/
theorem fillBucket_position {start stop : ℕ} (hle : start ≤ stop) (draw : ℕ → ℕ) (k : ℕ)
    {data : List (OramBlock D)} (hnormal : ∀ b ∈ data, b.isNormal = true)
    (hids : (data.map OramBlock.id).Nodup) {w w' : PathSystem D (TreeOramServerStorage C)}
    {r : List (OramBlock D) × List (OramBlock D)}
    (hrun : fillBucket start stop draw k data w = (.ok r, w')) {i : ℕ} {b : OramBlock D} (hi : i < k)
    (hb : data[i]? = some b) :
    w'.client.positionMap.index b.id = draw (k - 1 - i) % (stop - start + 1) + start := by
  induction k generalizing data w i r with
  | zero => exact absurd hi (Nat.not_lt_zero i)
  | succ k ih =>
    cases data with
    | nil => cases hb
    | cons b₀ data =>
      rw [List.map_cons, List.nodup_cons] at hids
      obtain ⟨hfresh, hids⟩ := hids
      rw [fillBucket, if_pos (hnormal b₀ List.mem_cons_self)] at hrun
      obtain ⟨path, w₁, hdraw, hrest⟩ := Prog.bind_eq_ok hrun
      rw [checkedRandom_ok _ _ hle] at hdraw
      cases hdraw
      rw [update, Prog.modify_bind] at hrest
      obtain ⟨rest, w₂, hbucket, hlast⟩ := Prog.bind_eq_ok hrest
      cases hlast
      cases i with
      | zero =>
        -- the blocks after the first have other ids
        cases hb
        obtain ⟨m, hspec, hother, -⟩ := fillBucket_spec hle draw k data
          { w with client := { w.client with
            positionMap := w.client.positionMap.set b.id
              (draw k % (stop - start + 1) + start) } }
        cases hspec.symm.trans hbucket
        rw [hother b.id fun c hc he => hfresh (he ▸ List.mem_map_of_mem
          (List.mem_of_mem_take (List.mem_filter.mp hc).1)), PositionMap.index_set_self]
        simp
      | succ i =>
        rw [List.getElem?_cons_succ] at hb
        have hpos := ih (fun c hc => hnormal c (List.mem_cons_of_mem _ hc)) hids hbucket
          (Nat.lt_of_succ_lt_succ hi) hb
        rw [hpos, Nat.add_sub_cancel, Nat.sub_sub, Nat.add_comm 1 i]

theorem accurateWriteBucket_client {S : TreeStub C (TreeOramServerStorage C)} {level offset : ℕ}
    {iv : ℕ → C.Iv} {bucket : List (OramBlock D)} {w w' : PathSystem D (TreeOramServerStorage C)}
    (h : checkStatus "Failed to write bucket accurately when intializing the ORAM!"
      (accurateWriteBucket S level offset iv bucket) w = (.ok (), w')) : w'.client = w.client := by
  have hwrite := Prog.mapError_eq_ok h
  rw [accurateWriteBucket] at hwrite
  cases hstub : S.writePath ⟨0, level, offset, .kInit, sealBucket iv bucket⟩ w.server with
  | mk r s =>
    rw [hstub] at hwrite
    cases r with
    | error msg => cases hwrite
    | ok u =>
      cases hwrite
      rfl

/-- A block past the first `k` has another id than one of the first `k`. -/
theorem id_ne_of_mem_drop {data : List (OramBlock D)} (hids : (data.map OramBlock.id).Nodup)
    {n k : ℕ} {b c : OramBlock D} (hb : data[n]? = some b) (hn : n < k) (hc : c ∈ data.drop k) :
    c.id ≠ b.id := by
  intro he
  obtain ⟨j, hj⟩ := List.mem_iff_getElem?.mp hc
  rw [List.getElem?_drop] at hj
  have hlt : n < (data.map OramBlock.id).length := by
    rw [List.length_map]
    exact (List.getElem?_eq_some_iff.mp hb).1
  have hsame : n = k + j := (List.getElem?_inj hlt hids).mp (by
    rw [List.getElem?_map, List.getElem?_map, hb, hj, Option.map_some, Option.map_some, he])
  omega

/-- The load gives block `n` the position it draws for it in its bucket. -/
theorem fillTree_position {draws : FillDraws C} {ts : List Tag} {data : List (OramBlock D)}
    (hnormal : ∀ b ∈ data, b.isNormal = true) (hids : (data.map OramBlock.id).Nodup)
    {w w' : PathSystem D (TreeOramServerStorage C)}
    (hrun : fillTree (OramService.stub C P.id) P draws ts data w = (.ok (), w')) :
    (∀ a, (∀ b ∈ data, b.id ≠ a) → w'.client.positionMap.index a = w.client.positionMap.index a) ∧
      ∀ n b, data[n]? = some b → n < ts.length * P.bucketSize →
        w'.client.positionMap.index b.id =
          filledPosition P draws.path (ts.getD (n / P.bucketSize) (0, 0)) (n % P.bucketSize) := by
  induction ts generalizing data w with
  | nil =>
    cases hrun
    refine ⟨fun a _ => rfl, fun n b _ hn => ?_⟩
    rw [List.length_nil, Nat.zero_mul] at hn
    exact absurd hn (Nat.not_lt_zero n)
  | cons t ts ih =>
    rw [fillTree_cons] at hrun
    obtain ⟨r, w₁, hbucket, hrest⟩ := Prog.bind_eq_ok hrun
    obtain ⟨u, w₂, hwrite, htree⟩ := Prog.bind_eq_ok hrest
    have hpos := Nat.two_pow_pos (P.treeLevel - t.1)
    have hle : t.2 * 2 ^ (P.treeLevel - t.1) ≤
        t.2 * 2 ^ (P.treeLevel - t.1) + 2 ^ (P.treeLevel - t.1) - 1 := by omega
    have hspan : t.2 * 2 ^ (P.treeLevel - t.1) + 2 ^ (P.treeLevel - t.1) - 1 -
        t.2 * 2 ^ (P.treeLevel - t.1) + 1 = 2 ^ (P.treeLevel - t.1) := by omega
    obtain ⟨m, hspec, hother, -⟩ := fillBucket_spec hle (draws.path t) P.bucketSize data w
    cases hspec.symm.trans hbucket
    have hdrop : ∀ b ∈ data.drop P.bucketSize, b ∈ data := fun b hb => List.mem_of_mem_drop hb
    have hnodup : ((data.drop P.bucketSize).map OramBlock.id).Nodup := by
      rw [List.map_drop]
      exact hids.sublist (List.drop_sublist _ _)
    obtain ⟨hother', hrest'⟩ := ih (fun b hb => hnormal b (hdrop b hb)) hnodup htree
    have hclient := accurateWriteBucket_client hwrite
    refine ⟨fun a ha => ?_, fun n b hb hn => ?_⟩
    · rw [hother' a fun b hb => ha b (hdrop b hb), hclient]
      exact hother a fun b hb => ha b (List.mem_of_mem_take (List.mem_filter.mp hb).1)
    · by_cases hn' : n < P.bucketSize
      · -- a block of the first bucket: the buckets that follow leave its id alone
        have hfirst := fillBucket_position hle (draws.path t) P.bucketSize hnormal hids hspec hn' hb
        rw [hother' b.id fun c hc he => ?_, hclient, Nat.div_eq_of_lt hn', Nat.mod_eq_of_lt hn']
        · rw [hspan] at hfirst
          exact hfirst
        · exact id_ne_of_mem_drop hids hb hn' hc he
      · rw [Nat.not_lt] at hn'
        have hget : (data.drop P.bucketSize)[n - P.bucketSize]? = some b := by
          rw [List.getElem?_drop, Nat.add_sub_cancel' hn', hb]
        have hlt : n - P.bucketSize < ts.length * P.bucketSize := by
          rw [List.length_cons, Nat.succ_mul] at hn
          omega
        have hB : 0 < P.bucketSize := by
          rcases Nat.eq_zero_or_pos P.bucketSize with h0 | h0
          · rw [h0, Nat.mul_zero] at hn
            exact absurd hn (Nat.not_lt_zero n)
          · exact h0
        have hdiv : n / P.bucketSize = (n - P.bucketSize) / P.bucketSize + 1 :=
          Nat.div_eq_sub_div hB hn'
        rw [hrest' _ b hget hlt, hdiv, List.getD_cons_succ, ← Nat.mod_eq_sub_mod hn']

/-! ## A loaded file -/

/-- The ids of a file are its line numbers, so they are distinct. -/
theorem uniqueKeys_fileBlocks (lines : List (D × ℕ)) :
    UniqueKeys OramBlock.id (loadedBlocks (fileBlocks lines)) := by
  rw [loadedBlocks, filter_isNormal_of_forall fun b => isNormal_fileBlocks, UniqueKeys,
    Multiset.map_coe, Multiset.coe_nodup]
  exact nodup_fileBlocks lines

/-- The addresses that can be accessed are the numbers of the lines. -/
theorem PathRequest.Proper.address_lt {lines : List (D × ℕ)} {r : PathRequest C}
    (hr : r.Proper (fileBlocks lines)) : r.address < lines.length := by
  obtain ⟨b, hb, -, hid⟩ := hr.loaded
  have hmem : r.address ∈ (fileBlocks lines).map OramBlock.id := hid ▸ List.mem_map_of_mem hb
  rw [map_id_fileBlocks] at hmem
  exact List.mem_range.mp hmem

/-- The positions after a load: each block has the draw of its slot. -/
theorem fillWithData_position {lines : List (D × ℕ)} (hlen : lines.length ≤ P.capacity)
    {draws : FillDraws C} {w : PathSystem D (TreeOramServerStorage C)}
    (hfill : fillWithData (OramService.stub C P.id) P (fileBlocks lines) draws (PathSystem.init C P) =
      (.ok (), w)) {a : ℕ} (ha : a < lines.length) :
    w.client.positionMap.index a =
      filledPosition P draws.path (fillTag P a) (a % P.bucketSize) := by
  obtain ⟨u, w₁, htree, hlast⟩ := Prog.bind_eq_ok hfill
  cases hlast
  obtain ⟨-, hpos⟩ := fillTree_position (fun b => isNormal_fileBlocks) (nodup_fileBlocks lines) htree
  have hget : (fileBlocks lines)[a]? = some ⟨⟨a, .kNormal, lines[a].2⟩, lines[a].1⟩ := by
    rw [getElem?_fileBlocks, List.getElem?_eq_getElem ha, Option.map_some]
  have hroom : a < (fillOrder P.treeLevel).length * P.bucketSize := by
    rw [fillOrder_length, ← PathOramConfig.capacity]
    exact Nat.lt_of_lt_of_le ha hlen
  exact hpos a _ hget hroom

/-! ## The leaves an access can show

The position that an access shows was drawn by the last access to its address, for which
every leaf is possible, or by the load, for which only the leaves below the bucket are. -/

/-- The leaves below a bucket. -/
def leavesBelow (P : PathOramConfig) (t : Tag) : Set ℕ := {x | x / span P t = t.2}

/-- The leaves that the `i`-th access can show: any leaf, if its address has been
accessed before; those below the bucket of the load, if not. -/
def leavesAt (P : PathOramConfig) (requests : List (PathRequest C)) (i : ℕ) : Set ℕ :=
  match requests[i]? with
  | none => ∅
  | some r =>
    match PathRequest.lastBefore requests r.address i with
    | none => leavesBelow P (fillTag P r.address)
    | some _ => {x | x < P.numberOfLeafs}

theorem filledPosition_mem (path : Tag → ℕ → ℕ) (t : Tag) (k : ℕ) :
    filledPosition P path t k ∈ leavesBelow P t := by
  have hpos : 0 < span P t := Nat.two_pow_pos _
  rw [leavesBelow, Set.mem_ofPred_eq, filledPosition, Nat.add_mul_div_right _ _ hpos,
    Nat.div_eq_of_lt (Nat.mod_lt _ hpos), Nat.zero_add]

/-- Every leaf below the bucket is drawn by some value. -/
theorem filledPosition_of_mem {path : Tag → ℕ → ℕ} {t : Tag} {k x : ℕ} (hx : x ∈ leavesBelow P t)
    (hpath : path t (P.bucketSize - 1 - k) = x) : filledPosition P path t k = x := by
  have hx' : x / span P t = t.2 := hx
  rw [filledPosition, hpath, ← hx', Nat.mod_add_div']

section

variable {requests : List (PathRequest C)} {i : ℕ} {r : PathRequest C}

/-- A first access shows a leaf below the bucket that the load has put its block into. -/
theorem leavesAt_first (hr : requests[i]? = some r)
    (h : PathRequest.lastBefore requests r.address i = none) :
    leavesAt P requests i = leavesBelow P (fillTag P r.address) := by
  simp only [leavesAt, hr, h]

/-- A later access can show every leaf. -/
theorem leavesAt_again (hr : requests[i]? = some r) {p : ℕ × PathRequest C}
    (h : PathRequest.lastBefore requests r.address i = some p) :
    leavesAt P requests i = {x | x < P.numberOfLeafs} := by
  simp only [leavesAt, hr, h]

/-- Every access has a leaf to show. -/
theorem leavesAt_nonempty (hi : i < requests.length) : (leavesAt P requests i).Nonempty := by
  have hr : requests[i]? = some requests[i] := List.getElem?_eq_getElem hi
  cases hlast : PathRequest.lastBefore requests requests[i].address i with
  | none =>
    rw [leavesAt_first hr hlast]
    exact ⟨_, filledPosition_mem (fun _ _ => 0) _ 0⟩
  | some p =>
    rw [leavesAt_again hr hlast]
    exact ⟨0, Nat.two_pow_pos _⟩

end

/-! ## Free draws -/

/-- The requests, with other outcomes of `RandomPosition`. -/
def redraw (position : ℕ → ℕ) (requests : List (PathRequest C)) : List (PathRequest C) :=
  requests.mapIdx fun k r => { r with draws := { r.draws with position := position k } }

theorem getElem?_redraw (position : ℕ → ℕ) (requests : List (PathRequest C)) (i : ℕ) :
    (redraw position requests)[i]? =
      requests[i]?.map fun r => { r with draws := { r.draws with position := position i } } :=
  List.getElem?_mapIdx

theorem lastBefore_redraw (position : ℕ → ℕ) (requests : List (PathRequest C)) (a i : ℕ) :
    PathRequest.lastBefore (redraw position requests) a i =
      (PathRequest.lastBefore requests a i).map fun p =>
        (p.1, { p.2 with draws := { p.2.draws with position := position p.1 } }) := by
  induction i with
  | zero => rfl
  | succ i ih =>
    rw [PathRequest.lastBefore, PathRequest.lastBefore, getElem?_redraw]
    cases requests[i]? with
    | none => exact ih
    | some r =>
      simp only [Option.map_some]
      split
      · rfl
      · exact ih

/-- The paths that the draws show. -/
def shown (P : PathOramConfig) (path : Tag → ℕ → ℕ) (position : ℕ → ℕ)
    (requests : List (PathRequest C)) : List ℕ :=
  requests.mapIdx fun i r =>
    match PathRequest.lastBefore requests r.address i with
    | none => filledPosition P path (fillTag P r.address) (r.address % P.bucketSize)
    | some p => position p.1 % P.numberOfLeafs

theorem getElem?_shown {path : Tag → ℕ → ℕ} {position : ℕ → ℕ} {requests : List (PathRequest C)}
    {i : ℕ} {r : PathRequest C} (hr : requests[i]? = some r) :
    (shown P path position requests)[i]? = some (
      match PathRequest.lastBefore requests r.address i with
      | none => filledPosition P path (fillTag P r.address) (r.address % P.bucketSize)
      | some p => position p.1 % P.numberOfLeafs) := by
  rw [shown, List.getElem?_mapIdx, hr]
  rfl

/-- Whatever is drawn, what is shown was possible. -/
theorem shown_mem_choices (path : Tag → ℕ → ℕ) (position : ℕ → ℕ)
    (requests : List (PathRequest C)) :
    shown P path position requests ∈ choices requests.length (leavesAt P requests) := by
  refine ⟨List.length_mapIdx, fun i x hx => ?_⟩
  have hi : i < requests.length := by
    rw [← List.length_mapIdx]
    exact (List.getElem?_eq_some_iff.mp hx).1
  have hr : requests[i]? = some requests[i] := List.getElem?_eq_getElem hi
  rw [getElem?_shown hr, Option.some.injEq] at hx
  cases hlast : PathRequest.lastBefore requests requests[i].address i with
  | none =>
    rw [hlast] at hx
    rw [leavesAt_first hr hlast, ← hx]
    exact filledPosition_mem _ _ _
  | some p =>
    rw [hlast] at hx
    rw [leavesAt_again hr hlast, ← hx]
    exact Nat.mod_lt _ (Nat.two_pow_pos _)

/-- A draw that is shown once can be chosen for what it is to show. -/
theorem exists_draw {R : ℕ → ℕ → Prop} (hR : ∀ i i' j, R i j → R i' j → i = i') (g : ℕ → ℕ) :
    ∃ draw : ℕ → ℕ, ∀ i j, R i j → draw j = g i := by
  classical
  refine ⟨fun j => if h : ∃ i, R i j then g h.choose else 0, fun i j hij => ?_⟩
  have hex : ∃ i, R i j := ⟨i, hij⟩
  simp only [dif_pos hex]
  rw [hR hex.choose i j hex.choose_spec hij]

/-- The slots of the load are distinct: a draw for each address. -/
theorem exists_fill_draw (lines : ℕ) (hlines : lines ≤ P.capacity) (f : ℕ → ℕ) :
    ∃ path : Tag → ℕ → ℕ, ∀ a < lines,
      path (fillTag P a) (P.bucketSize - 1 - a % P.bucketSize) = f a := by
  let number : Tag → ℕ → ℕ := fun t s =>
    (fillOrder P.treeLevel).idxOf t * P.bucketSize + (P.bucketSize - 1 - s)
  refine ⟨fun t s => f (number t s), fun a ha => congrArg f ?_⟩
  have hroom : a < (2 ^ (P.treeLevel + 1) - 1) * P.bucketSize := Nat.lt_of_lt_of_le ha hlines
  have hB : 0 < P.bucketSize := by
    rcases Nat.eq_zero_or_pos P.bucketSize with h0 | h0
    · rw [h0, Nat.mul_zero] at hroom
      exact absurd hroom (Nat.not_lt_zero a)
    · exact h0
  have hdiv : a / P.bucketSize < (fillOrder P.treeLevel).length := by
    rw [fillOrder_length]
    exact Nat.div_lt_of_lt_mul (by rwa [Nat.mul_comm] at hroom)
  have htag : fillTag P a = (fillOrder P.treeLevel)[a / P.bucketSize] := by
    rw [fillTag, List.getD_eq_getElem?_getD, List.getElem?_eq_getElem hdiv, Option.getD_some]
  have hslot : P.bucketSize - 1 - (P.bucketSize - 1 - a % P.bucketSize) = a % P.bucketSize := by
    have := Nat.mod_lt a hB
    omega
  simp only [number]
  rw [htag, (fillOrder_nodup _).idxOf_getElem, hslot, Nat.div_add_mod']

/-- Every free choice of leaves is shown by some draws. -/
theorem exists_shown {lines : List (D × ℕ)} (hlen : lines.length ≤ P.capacity)
    {requests : List (PathRequest C)} (hproper : ∀ r ∈ requests, r.Proper (fileBlocks lines))
    {xs : List ℕ} (hxs : xs ∈ choices requests.length (leavesAt P requests)) :
    ∃ path position, shown P path position requests = xs := by
  -- the position drawn by access `j` is shown by at most one later access
  obtain ⟨position, hposition⟩ := exists_draw (R := fun i j => ∃ r q, requests[i]? = some r ∧
      PathRequest.lastBefore requests r.address i = some (j, q)) (by
    rintro i i' j ⟨r, q, hr, h⟩ ⟨r', q', hr', h'⟩
    obtain ⟨-, hq, -⟩ := PathRequest.lastBefore_some h
    obtain ⟨-, hq', -⟩ := PathRequest.lastBefore_some h'
    cases hq.symm.trans hq'
    exact PathRequest.lastBefore_inj hr hr' h h') (fun i => xs.getD i 0)
  -- the position drawn by the load for `a` is shown by the first access to `a`
  obtain ⟨first, hfirst⟩ := exists_draw (R := fun i a => ∃ r, requests[i]? = some r ∧
      r.address = a ∧ PathRequest.lastBefore requests a i = none) (by
    rintro i i' a ⟨r, hr, rfl, h⟩ ⟨r', hr', ha, h'⟩
    exact PathRequest.first_inj hr hr' ha h (ha ▸ h')) (fun i => xs.getD i 0)
  obtain ⟨path, hpath⟩ := exists_fill_draw lines.length hlen first
  refine ⟨path, position, List.ext_getElem? fun i => ?_⟩
  by_cases hi : i < requests.length
  · have hr : requests[i]? = some requests[i] := List.getElem?_eq_getElem hi
    have hx : xs[i]? = some (xs.getD i 0) := by
      rw [List.getD_eq_getElem?_getD, List.getElem?_eq_getElem (hxs.1 ▸ hi), Option.getD_some]
    have hmem := hxs.2 i _ hx
    rw [getElem?_shown hr, hx]
    cases hlast : PathRequest.lastBefore requests requests[i].address i with
    | none =>
      rw [leavesAt_first hr hlast] at hmem
      have ha := (hproper _ (List.getElem_mem hi)).address_lt
      refine congrArg some (filledPosition_of_mem hmem ?_)
      rw [hpath _ ha]
      exact hfirst i _ ⟨_, hr, rfl, hlast⟩
    | some p =>
      rw [leavesAt_again hr hlast] at hmem
      have hdraw := hposition i p.1 ⟨_, p.2, hr, hlast⟩
      simp only [hdraw]
      rw [Nat.mod_eq_of_lt hmem]
  · rw [List.getElem?_eq_none, List.getElem?_eq_none]
    · rw [hxs.1]
      exact Nat.not_lt.mp hi
    · rw [shown, List.length_mapIdx]
      exact Nat.not_lt.mp hi

/-! ## The possible traces

Both directions are needed: no trace but those chosen from the sets occurs, and each of
them does, for some outcome of the draws. -/

/-- What the load of a file shows. -/
def loadPattern (P : PathOramConfig) : List TreeEvent :=
  (fillOrder P.treeLevel).map fun t => .writePath 0 t.1 P.bucketSize

/-- The traces of a load and a sequence of accesses, over all outcomes of the
choices of `FillWithData` and `RandomPosition`. -/
def possibleTraces (P : PathOramConfig) (lines : List (D × ℕ)) (fill : FillDraws C)
    (requests : List (PathRequest C)) : Set (List TreeEvent) :=
  {log | ∃ (path : Tag → ℕ → ℕ) (position : ℕ → ℕ)
      (w : PathSystem D (TreeOramServerStorage C × List TreeEvent))
      (outs : List (Except Exit (OramBlock D)))
      (v : PathSystem D (TreeOramServerStorage C × List TreeEvent)),
    fillWithData (loggedTreeStub (OramService.stub C P.id)) P (fileBlocks lines)
      { fill with path := path } ((PathSystem.init C P).withLog []) = (.ok (), w) ∧
    Prog.trace Exit.fatal (PathRequest.runLogged P) (redraw position requests) w =
      some (outs, v) ∧
    v.server.2 = log}

section

variable {lines : List (D × ℕ)} {fill : FillDraws C} {requests : List (PathRequest C)}

theorem redraw_proper {data : List (OramBlock D)} (hproper : ∀ r ∈ requests, r.Proper data)
    (position : ℕ → ℕ) : ∀ r ∈ redraw position requests, r.Proper data := by
  intro r hr
  obtain ⟨i, hi⟩ := List.mem_iff_getElem?.mp hr
  rw [getElem?_redraw, Option.map_eq_some_iff] at hi
  obtain ⟨r₀, hr₀, rfl⟩ := hi
  have hr := hproper r₀ (List.mem_of_getElem? hr₀)
  exact ⟨hr.op_valid, hr.loaded, hr.pad_dummy⟩

/-- The paths of a run after a load are those its draws show. -/
theorem paths_redraw {path : Tag → ℕ → ℕ} {m : ℕ → ℕ}
    (hm : ∀ a < lines.length,
      m a = filledPosition P path (fillTag P a) (a % P.bucketSize))
    (hproper : ∀ r ∈ requests, r.Proper (fileBlocks lines)) (position : ℕ → ℕ) :
    PathRequest.paths P m (redraw position requests) = shown P path position requests := by
  apply List.ext_getElem?
  intro i
  rw [PathRequest.paths, List.getElem?_mapIdx, getElem?_redraw]
  cases hr : requests[i]? with
  | none =>
    rw [shown, List.getElem?_mapIdx, hr]
    rfl
  | some r =>
    rw [getElem?_shown hr, Option.map_some, Option.map_some, PathRequest.revealed,
      lastBefore_redraw]
    cases PathRequest.lastBefore requests r.address i with
    | none =>
      have ha := (hproper r (List.mem_of_getElem? hr)).address_lt
      exact congrArg some (hm r.address ha)
    | some p => rfl

/-- A load and a sequence of accesses: it runs to its end, and shows the paths of its draws. -/
theorem run_after_load (hstand : P.standalone = true) (hlen : lines.length ≤ P.capacity)
    (hpad : ∀ t i, (fill.pad t i).isNormal = false)
    (hproper : ∀ r ∈ requests, r.Proper (fileBlocks lines)) (path : Tag → ℕ → ℕ)
    (position : ℕ → ℕ) :
    ∃ (w : PathSystem D (TreeOramServerStorage C × List TreeEvent))
      (outs : List (Except Exit (OramBlock D)))
      (v : PathSystem D (TreeOramServerStorage C × List TreeEvent)),
    fillWithData (loggedTreeStub (OramService.stub C P.id)) P (fileBlocks lines)
      { fill with path := path } ((PathSystem.init C P).withLog []) = (.ok (), w) ∧
    Prog.trace Exit.fatal (PathRequest.runLogged P) (redraw position requests) w =
      some (outs, v) ∧
    v.server.2 =
      loadPattern P ++ (shown P path position requests).flatMap (pattern P) := by
  have hlen' : (fileBlocks lines).length ≤ P.capacity := by rwa [length_fileBlocks]
  have hpad' : ∀ t i, (({ fill with path := path } : FillDraws C).pad t i).isNormal = false := hpad
  obtain ⟨w₀, hfill, -⟩ := fillWithData_spec hpad' hlen' (uniqueKeys_fileBlocks lines)
  -- the same load, with a log
  obtain ⟨hagree, hclient, hserver⟩ := (simulates_loggedTreeStub
    (OramService.stub C P.id)).fillWithData (P := P) (fileBlocks lines) { fill with path := path }
    (PathSystem.init C P) ((PathSystem.init C P).withLog []) ⟨rfl, rfl⟩
  rw [Prog.agree_eq, hfill] at hagree
  cases hlogged : fillWithData (loggedTreeStub (OramService.stub C P.id)) P (fileBlocks lines)
      { fill with path := path } ((PathSystem.init C P).withLog []) with
  | mk r w =>
    rw [hlogged] at hagree hclient hserver
    rw [hfill] at hclient hserver
    cases hagree
    have hlog := fillWithData_log hlogged
    have hw : w = w₀.withLog (loadPattern P) := by
      obtain ⟨c, s, log⟩ := w
      cases hclient
      cases hserver
      cases hlog
      rfl
    obtain ⟨outs, v, hrun, -, hend⟩ := logged_run hstand (fillWithData_presents hfill)
      (fun r hr => (redraw_proper hproper position r hr).aimsAt hlen') (loadPattern P)
      requests.length
    have hall : (redraw position requests).take requests.length = redraw position requests :=
      List.take_of_length_le (Nat.le_of_eq List.length_mapIdx)
    rw [hall] at hrun hend
    refine ⟨w, outs.map .ok, v, rfl, hw ▸ hrun, ?_⟩
    rw [hend, List.take_of_length_le, paths_redraw (fun a ha => fillWithData_position hlen hfill ha)
      hproper position]
    rw [PathRequest.paths, List.length_mapIdx]

/-- **The possible traces**: freely chosen leaves, one path for each. -/
theorem possibleTraces_eq (hstand : P.standalone = true) (hlen : lines.length ≤ P.capacity)
    (hpad : ∀ t i, (fill.pad t i).isNormal = false)
    (hproper : ∀ r ∈ requests, r.Proper (fileBlocks lines)) :
    possibleTraces P lines fill requests =
      (fun xs => loadPattern P ++ xs.flatMap (pattern P)) ''
        choices requests.length (leavesAt P requests) := by
  ext log
  constructor
  · rintro ⟨path, position, w, outs, v, hfill, hrun, rfl⟩
    obtain ⟨w', outs', v', hfill', hrun', hlog⟩ :=
      run_after_load hstand hlen hpad hproper path position
    cases hfill.symm.trans hfill'
    cases hrun.symm.trans hrun'
    exact ⟨_, shown_mem_choices path position requests, hlog.symm⟩
  · rintro ⟨xs, hxs, rfl⟩
    obtain ⟨path, position, rfl⟩ := exists_shown hlen hproper hxs
    exact ⟨path, position, run_after_load hstand hlen hpad hproper path position⟩

/-- Different choices are different traces. -/
theorem image_choices_eq_iff {n : ℕ} {A B : ℕ → Set ℕ} (hA : ∀ i < n, (A i).Nonempty)
    (hB : ∀ i < n, (B i).Nonempty) :
    (fun xs => loadPattern P ++ xs.flatMap (pattern P)) '' choices n A =
        (fun xs => loadPattern P ++ xs.flatMap (pattern P)) '' choices n B ↔
      ∀ i < n, A i = B i := by
  have hinj : Set.InjOn (fun xs => loadPattern P ++ xs.flatMap (pattern P))
      {xs : List ℕ | xs.length = n} := by
    intro xs hxs ys hys h
    have hflat := List.append_cancel_left h
    exact flatMap_injective (fun x y => (length_pattern x).trans (length_pattern y).symm)
      pattern_injective (hxs.trans hys.symm) hflat
  rw [hinj.image_eq_image_iff (fun xs h => h.1) (fun xs h => h.1)]
  exact choices_eq_iff hA hB

/-- **What the access pattern hides.** Two sequences of accesses have the same
possible traces if and only if, access by access, they can show the same leaves:
all leaves where the address has been accessed before, and the leaves below the
bucket of the load where it has not. -/
theorem pathOram_traces_eq_iff (hstand : P.standalone = true) (hlen : lines.length ≤ P.capacity)
    {fill' : FillDraws C} (hpad : ∀ t i, (fill.pad t i).isNormal = false)
    (hpad' : ∀ t i, (fill'.pad t i).isNormal = false)
    (hproper : ∀ r ∈ requests, r.Proper (fileBlocks lines)) {requests' : List (PathRequest C)}
    (hproper' : ∀ r ∈ requests', r.Proper (fileBlocks lines))
    (hsame : requests.length = requests'.length) :
    possibleTraces P lines fill requests = possibleTraces P lines fill' requests' ↔
      ∀ i < requests.length, leavesAt P requests i = leavesAt P requests' i := by
  rw [possibleTraces_eq hstand hlen hpad hproper, possibleTraces_eq hstand hlen hpad' hproper',
    ← hsame]
  exact image_choices_eq_iff (fun i hi => leavesAt_nonempty hi)
    fun i hi => leavesAt_nonempty (hsame ▸ hi)

end

/-! ## Two first accesses -/

/-- A file of four lines: two blocks for each leaf of the small tree. -/
def smallLines : List (ℕ × ℕ) := [(10, 1), (11, 1), (12, 1), (13, 1)]

/-- A read of block `a`. -/
def smallRead (a : ℕ) : PathRequest (Codec.plain ℕ) := ⟨.kRead, a, dummyBlock, smallDraws⟩

theorem smallRead_proper {a : ℕ} (ha : a < 4) : (smallRead a).Proper (fileBlocks smallLines) where
  op_valid := .inl rfl
  loaded := by
    have hget := getElem?_fileBlocks smallLines a
    rw [List.getElem?_eq_getElem (show a < smallLines.length from ha), Option.map_some] at hget
    have hmem := List.mem_of_getElem? hget
    exact ⟨_, hmem, isNormal_fileBlocks hmem, rfl⟩
  pad_dummy := fun _ _ => rfl

theorem smallReads_proper (as : List ℕ) (has : ∀ a ∈ as, a < 4) :
    ∀ r ∈ as.map smallRead, r.Proper (fileBlocks smallLines) := by
  intro r hr
  obtain ⟨a, ha, rfl⟩ := List.mem_map.mp hr
  exact smallRead_proper (has a ha)

/-- The first access to block 0 shows the left leaf, and the first to block 2 the right one. -/
theorem pathOram_shows_first :
    smallLines.length ≤ smallTree.capacity ∧
      (∀ r ∈ [0].map smallRead, r.Proper (fileBlocks smallLines)) ∧
      (∀ r ∈ [2].map smallRead, r.Proper (fileBlocks smallLines)) ∧
      possibleTraces smallTree smallLines smallFill ([0].map smallRead) ≠
        possibleTraces smallTree smallLines smallFill ([2].map smallRead) := by
  have hleft := smallReads_proper [0] (by decide)
  have hright := smallReads_proper [2] (by decide)
  have hlen : smallLines.length ≤ smallTree.capacity := by decide
  refine ⟨hlen, hleft, hright, fun h => ?_⟩
  rw [possibleTraces_eq rfl hlen smallFill_pad hleft, possibleTraces_eq rfl hlen smallFill_pad hright]
    at h
  have hsets := (image_choices_eq_iff (P := smallTree) (n := 1)
    (A := leavesAt smallTree ([0].map smallRead)) (B := leavesAt smallTree ([2].map smallRead))
    (fun i hi => leavesAt_nonempty hi) (fun i hi => leavesAt_nonempty hi)).mp h 0 Nat.zero_lt_one
  have hmem : (0 : ℕ) ∈ leavesAt smallTree ([2].map smallRead) 0 := by
    rw [← hsets]
    exact filledPosition_mem (P := smallTree) (fun _ _ => 0) (1, 0) 0
  have hzero : 0 / span smallTree (1, 1) = 1 := hmem
  exact absurd hzero (by decide)

/-- Blocks 0 and 1 share a bucket, and an access that is repeated shows any leaf. -/
theorem pathOram_traces_eq_small :
    possibleTraces smallTree smallLines smallFill ([0, 1, 0].map smallRead) =
      possibleTraces smallTree smallLines smallFill ([1, 0, 0].map smallRead) := by
  refine (pathOram_traces_eq_iff rfl (by decide) smallFill_pad smallFill_pad
    (smallReads_proper [0, 1, 0] (by decide))
    (smallReads_proper [1, 0, 0] (by decide)) rfl).mpr fun i hi => ?_
  match i, hi with
  | 0, _ => rfl
  | 1, _ => rfl
  | 2, _ => rfl

end ObliviousRam
