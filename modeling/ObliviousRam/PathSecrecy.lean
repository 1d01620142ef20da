import ObliviousRam.PathHiding
import Mathlib.Data.Fintype.BigOperators
import Mathlib.Algebra.Order.BigOperators.Ring.Finset
import Mathlib.Data.Set.Card
import Mathlib.Order.Interval.Finset.Nat

set_option autoImplicit false

/-!
# How likely a trace of a Path ORAM is

`PathHiding` says which traces are possible. Here the outcomes of the random
choices are counted: the leaf that `FillWithData` draws for each line of the
file, and the leaf that each access draws. All are uniform (`UniformRandom`
draws from a range of `2 ^ l` leaves), and each is shown by one access at most,
so all traces that are possible at all are equally likely.

The view is that of `PathHiding`: kind, path and level of each request. It is not
all that a server gets. Every block of a bucket carries its `block_id` outside the
encrypted bytes, so a server that looks into the buckets knows which blocks it
stores where; what is counted here is what the paths alone tell.
-/

namespace ObliviousRam

open PathSystem PathOramController

variable {D : Type} {C : Codec D} {P : PathOramConfig}

/-! ## Fixing some coordinates -/

section

variable {ι κ ω : Type} [Fintype ι] [Fintype κ] [DecidableEq κ] [DecidableEq ω]

/-- Of the points of a product, how many have given values at some coordinates. -/
theorem card_fixed {A : κ → Finset ω} {c : ι → κ} (hc : Function.Injective c) {v : ι → ω}
    (hv : ∀ i, v i ∈ A (c i)) [DecidablePred fun f : κ → ω => ∀ i, f (c i) = v i] :
    ((Fintype.piFinset A).filter fun f => ∀ i, f (c i) = v i).card * ∏ i, (A (c i)).card =
      ∏ k, (A k).card := by
  classical
  -- the fixed coordinates have one value left, the others keep all of theirs
  have hfix : ((Fintype.piFinset A).filter fun f => ∀ i, f (c i) = v i) =
      Fintype.piFinset fun k => (A k).filter fun x => ∀ i, c i = k → x = v i := by
    ext f
    simp only [Finset.mem_filter, Fintype.mem_piFinset]
    constructor
    · rintro ⟨hf, hvalues⟩ k
      exact ⟨hf k, fun i hi => hi ▸ hvalues i⟩
    · intro hf
      exact ⟨fun k => (hf k).1, fun i => (hf (c i)).2 i rfl⟩
  have hfixed : ∀ i, ((A (c i)).filter fun x => ∀ i', c i' = c i → x = v i').card = 1 := by
    intro i
    rw [Finset.card_eq_one]
    refine ⟨v i, ?_⟩
    ext x
    rw [Finset.mem_filter, Finset.mem_singleton]
    constructor
    · exact fun hx => hx.2 i rfl
    · rintro rfl
      exact ⟨hv i, fun i' hi' => congrArg v (hc hi').symm⟩
  have hfree : ∀ k ∉ Finset.univ.image c,
      ((A k).filter fun x => ∀ i, c i = k → x = v i).card = (A k).card := by
    intro k hk
    rw [Finset.filter_true_of_mem]
    intro x _ i hi
    exact absurd (Finset.mem_image.mpr ⟨i, Finset.mem_univ i, hi⟩) hk
  have himage : ∀ g : κ → ℕ, ∏ k ∈ Finset.univ.image c, g k = ∏ i, g (c i) :=
    fun g => Finset.prod_image hc.injOn
  rw [hfix, Fintype.card_piFinset, ← Finset.prod_mul_prod_compl (Finset.univ.image c),
    ← Finset.prod_mul_prod_compl (Finset.univ.image c) fun k => (A k).card, himage, himage,
    Finset.prod_congr rfl fun i _ => hfixed i, Finset.prod_const_one, one_mul, mul_comm]
  refine congrArg _ (Finset.prod_congr rfl fun k hk => hfree k ?_)
  exact Finset.mem_compl.mp hk

end

/-! ## The outcomes of the random choices

One coordinate for each line, which is the leaf that the load draws for it, and one for
each access. All outcomes count the same. -/

/-- The leaves from which the load draws for a bucket: those below it. -/
def leavesUnder (P : PathOramConfig) (t : Tag) : Finset ℕ :=
  Finset.Ico (t.2 * span P t) ((t.2 + 1) * span P t)

/-- The finite set that is counted is the set of `PathHiding`. -/
theorem coe_leavesUnder (t : Tag) : ↑(leavesUnder P t) = leavesBelow P t := by
  ext x
  have hspan : 0 < span P t := Nat.two_pow_pos _
  rw [leavesUnder, Finset.coe_Ico, Set.mem_Ico, leavesBelow, Set.mem_ofPred_eq,
    Nat.div_eq_iff hspan, Nat.add_mul, Nat.one_mul]
  omega

theorem finite_leavesAt (requests : List (PathRequest C)) (i : ℕ) :
    (leavesAt P requests i).Finite := by
  rw [leavesAt]
  split
  · exact Set.finite_empty
  · split
    · rw [← coe_leavesUnder]
      exact Finset.finite_toSet _
    · exact Set.finite_lt_nat _

/-- The leaves among which a choice is made: for a line those below the bucket
that takes it, for an access all. -/
def leafSet (P : PathOramConfig) (m n : ℕ) : Fin m ⊕ Fin n → Finset ℕ :=
  Sum.elim (fun a => leavesUnder P (fillTag P a)) fun _ => Finset.range P.numberOfLeafs

/-- What a load of `m` lines and `n` accesses draw. -/
def leafDraws (P : PathOramConfig) (m n : ℕ) : Finset (Fin m ⊕ Fin n → ℕ) :=
  Fintype.piFinset (leafSet P m n)

variable {m n : ℕ}

/-- The draws of the load, by bucket and slot: the lines fill the slots in order. -/
def loadDraws (P : PathOramConfig) (draws : Fin m ⊕ Fin n → ℕ) (t : Tag) (s : ℕ) : ℕ :=
  let a := (fillOrder P.treeLevel).idxOf t * P.bucketSize + (P.bucketSize - 1 - s)
  if h : a < m then draws (.inl ⟨a, h⟩) else 0

/-- The draws of the accesses. -/
def accessDraws (draws : Fin m ⊕ Fin n → ℕ) (k : ℕ) : ℕ :=
  if h : k < n then draws (.inr ⟨k, h⟩) else 0

/-- A load with a log, and the same load without one. -/
theorem exists_load {lines : List (D × ℕ)} {fill : FillDraws C} (hlen : lines.length ≤ P.capacity)
    (hpad : ∀ t i, (fill.pad t i).isNormal = false) (path : Tag → ℕ → ℕ) :
    ∃ w : PathSystem D (TreeOramServerStorage C × List TreeEvent),
      fillWithData (loggedTreeStub (OramService.stub C P.id)) P (fileBlocks lines)
        { fill with path := path } ((PathSystem.init C P).withLog []) = (.ok (), w) ∧
      fillWithData (OramService.stub C P.id) P (fileBlocks lines) { fill with path := path }
        (PathSystem.init C P) = (.ok (), ⟨w.client, w.server.1⟩) := by
  have hpad' : ∀ t i, (({ fill with path := path } : FillDraws C).pad t i).isNormal = false := hpad
  have hlen' : (fileBlocks lines).length ≤ P.capacity := by rwa [length_fileBlocks]
  obtain ⟨w₀, hfill, -⟩ := fillWithData_spec hpad' hlen' (uniqueKeys_fileBlocks lines)
  obtain ⟨hagree, hclient, hserver⟩ := (simulates_loggedTreeStub
    (OramService.stub C P.id)).fillWithData (P := P) (fileBlocks lines) { fill with path := path }
    (PathSystem.init C P) ((PathSystem.init C P).withLog []) ⟨rfl, rfl⟩
  rw [Prog.agree_eq, hfill] at hagree
  rw [hfill] at hclient hserver
  refine ⟨_, Prod.ext hagree.symm rfl, ?_⟩
  rw [hfill, ← hclient, show _ = _ from hserver]

/-- What the server sees of a load and a sequence of accesses under these draws. -/
def view (P : PathOramConfig) (lines : List (D × ℕ)) (fill : FillDraws C)
    (requests : List (PathRequest C)) (draws : Fin m ⊕ Fin n → ℕ) : Option (List TreeEvent) :=
  match fillWithData (loggedTreeStub (OramService.stub C P.id)) P (fileBlocks lines)
      { fill with path := loadDraws P draws } ((PathSystem.init C P).withLog []) with
  | (.ok (), w) =>
    (Prog.trace Exit.fatal (PathRequest.runLogged P) (redraw (accessDraws draws) requests) w).map
      fun run => run.2.server.2
  | (.error _, _) => none

/-- The slot of line `a` is drawn by the coordinate of `a`. -/
theorem loadDraws_slot (draws : Fin m ⊕ Fin n → ℕ) (hm : m ≤ P.capacity) (a : Fin m) :
    loadDraws P draws (fillTag P a) (P.bucketSize - 1 - a % P.bucketSize) = draws (.inl a) := by
  have hroom : (a : ℕ) < (2 ^ (P.treeLevel + 1) - 1) * P.bucketSize := Nat.lt_of_lt_of_le a.2 hm
  have hB : 0 < P.bucketSize := Nat.pos_of_mul_pos_left (Nat.zero_lt_of_lt hroom)
  have hdiv : a / P.bucketSize < (fillOrder P.treeLevel).length := by
    rw [fillOrder_length]
    exact Nat.div_lt_of_lt_mul (by rwa [Nat.mul_comm] at hroom)
  have htag : fillTag P a = (fillOrder P.treeLevel)[a / P.bucketSize] := by
    rw [fillTag, List.getD_eq_getElem?_getD, List.getElem?_eq_getElem hdiv, Option.getD_some]
  have hslot : P.bucketSize - 1 - (P.bucketSize - 1 - a % P.bucketSize) = a % P.bucketSize := by
    have := Nat.mod_lt (a : ℕ) hB
    omega
  simp only [loadDraws]
  rw [htag, (fillOrder_nodup _).idxOf_getElem, hslot, Nat.div_add_mod', dif_pos a.2]

/-- **Where the shown leaves come from**: each is the outcome of a choice of its own. -/
theorem exists_source {requests : List (PathRequest C)} (hm : m ≤ P.capacity)
    (haddress : ∀ r ∈ requests, r.address < m) (hn : requests.length = n) :
    ∃ c : Fin n → Fin m ⊕ Fin n, Function.Injective c ∧
      (∀ i : Fin n, leavesAt P requests i = ↑(leafSet P m n (c i))) ∧
      ∀ draws ∈ leafDraws P m n, shown P (loadDraws P draws) (accessDraws draws) requests =
        List.ofFn fun i => draws (c i) := by
  subst hn
  have hget : ∀ i : Fin requests.length, requests[(i : ℕ)]? = some requests[i] :=
    fun i => List.getElem?_eq_getElem i.2
  -- the line that the access is the first to read, or the access before it
  have hsource : ∀ i : Fin requests.length, ∃ k : Fin m ⊕ Fin requests.length,
      (∀ a, k = .inl a → (a : ℕ) = requests[i].address ∧
        PathRequest.lastBefore requests requests[i].address i = none) ∧
      ∀ j, k = .inr j → ∃ q,
        PathRequest.lastBefore requests requests[i].address i = some ((j : ℕ), q) := by
    intro i
    cases hlast : PathRequest.lastBefore requests requests[i].address i with
    | none =>
      refine ⟨.inl ⟨_, haddress _ (List.getElem_mem i.2)⟩, ?_, by rintro j ⟨⟩⟩
      rintro a ⟨⟩
      exact ⟨rfl, rfl⟩
    | some p =>
      obtain ⟨hlt, -⟩ := PathRequest.lastBefore_some (j := p.1) (q := p.2) hlast
      refine ⟨.inr ⟨p.1, hlt.trans i.2⟩, by rintro a ⟨⟩, ?_⟩
      rintro j ⟨⟩
      exact ⟨p.2, rfl⟩
  choose c hfirst hagain using hsource
  refine ⟨c, fun i i' he => Fin.ext ?_, fun i => ?_, fun draws hdraws => ?_⟩
  · cases hk : c i with
    | inl a =>
      obtain ⟨ha, hlast⟩ := hfirst i a hk
      obtain ⟨ha', hlast'⟩ := hfirst i' a (he ▸ hk)
      exact PathRequest.first_inj (hget i) (hget i') (ha'.symm.trans ha) hlast hlast'
    | inr j =>
      obtain ⟨q, hlast⟩ := hagain i j hk
      obtain ⟨q', hlast'⟩ := hagain i' j (he ▸ hk)
      obtain ⟨-, hq, -⟩ := PathRequest.lastBefore_some hlast
      obtain ⟨-, hq', -⟩ := PathRequest.lastBefore_some hlast'
      cases hq.symm.trans hq'
      exact PathRequest.lastBefore_inj (hget i) (hget i') hlast hlast'
  · cases hk : c i with
    | inl a =>
      obtain ⟨ha, hlast⟩ := hfirst i a hk
      rw [leavesAt_first (hget i) hlast, leafSet, Sum.elim_inl, coe_leavesUnder, ha]
    | inr j =>
      obtain ⟨q, hlast⟩ := hagain i j hk
      rw [leavesAt_again (hget i) hlast, leafSet, Sum.elim_inr, Finset.coe_range]
      rfl
  · refine List.ext_getElem? fun i => ?_
    by_cases hi : i < requests.length
    · have hdrawn : ∀ k, draws k ∈ leafSet P m requests.length k := Fintype.mem_piFinset.mp hdraws
      rw [getElem?_shown (hget ⟨i, hi⟩), List.getElem?_ofFn, dif_pos hi]
      refine congrArg some ?_
      cases hk : c ⟨i, hi⟩ with
      | inl a =>
        obtain ⟨ha, hlast⟩ := hfirst _ a hk
        have hmem := hdrawn (.inl a)
        rw [leafSet, Sum.elim_inl, ← Finset.mem_coe, coe_leavesUnder] at hmem
        simp only [hlast]
        rw [← ha]
        exact filledPosition_of_mem hmem (loadDraws_slot draws hm a)
      | inr j =>
        obtain ⟨q, hlast⟩ := hagain _ j hk
        have hmem := hdrawn (.inr j)
        rw [leafSet, Sum.elim_inr, Finset.mem_range] at hmem
        simp only [hlast]
        rw [accessDraws, dif_pos j.2, Nat.mod_eq_of_lt hmem]
    · rw [List.getElem?_eq_none, List.getElem?_eq_none]
      · rw [List.length_ofFn]
        exact Nat.not_lt.mp hi
      · rw [shown, List.length_mapIdx]
        exact Nat.not_lt.mp hi

/-! ## Counting the outcomes

Every access shows one coordinate and no coordinate is shown twice. So an outcome that
leads to a given trace is fixed on as many coordinates as there are accesses, and free
on the others, which is the same number for every trace. -/

section

variable {lines : List (D × ℕ)} {fill : FillDraws C} {requests : List (PathRequest C)}

/-- The trace of a load and of accesses along the given paths. -/
def traceAlong (P : PathOramConfig) (xs : List ℕ) : List TreeEvent :=
  loadPattern P ++ xs.flatMap (pattern P)

theorem traceAlong_inj {xs ys : List ℕ} (hlength : xs.length = ys.length)
    (h : traceAlong P xs = traceAlong P ys) : xs = ys :=
  flatMap_injective (fun x y => (length_pattern x).trans (length_pattern y).symm)
    pattern_injective hlength (List.append_cancel_left h)

theorem view_eq (hstand : P.standalone = true) (hlen : lines.length ≤ P.capacity)
    (hpad : ∀ t i, (fill.pad t i).isNormal = false)
    (hproper : ∀ r ∈ requests, r.Proper (fileBlocks lines)) (draws : Fin m ⊕ Fin n → ℕ) :
    view P lines fill requests draws =
      some (traceAlong P (shown P (loadDraws P draws) (accessDraws draws) requests)) := by
  obtain ⟨w, outs, v, hfill, hrun, hlog⟩ := run_after_load hstand hlen hpad hproper
    (loadDraws P draws) (accessDraws draws)
  rw [view, hfill]
  simp only [hrun, Option.map_some, hlog, traceAlong]

/-- Which access was the last to an address depends on the addresses only. -/
theorem lastBefore_congr {requests' : List (PathRequest C)}
    (h : requests.map PathRequest.address = requests'.map PathRequest.address) (a i : ℕ) :
    (PathRequest.lastBefore requests a i).map Prod.fst =
      (PathRequest.lastBefore requests' a i).map Prod.fst := by
  induction i with
  | zero => rfl
  | succ i ih =>
    have hi := congrArg (fun addresses => addresses[i]?) h
    simp only [List.getElem?_map] at hi
    rw [PathRequest.lastBefore, PathRequest.lastBefore]
    cases hr : requests[i]? <;> cases hr' : requests'[i]? <;> rw [hr, hr'] at hi
    · exact ih
    · cases hi
    · cases hi
    · simp only [Option.map_some, Option.some.injEq] at hi ⊢
      rw [hi]
      split
      · rfl
      · exact ih

/-- So do the leaves shown. -/
theorem shown_congr {requests' : List (PathRequest C)}
    (h : requests.map PathRequest.address = requests'.map PathRequest.address)
    (path : Tag → ℕ → ℕ) (position : ℕ → ℕ) :
    shown P path position requests = shown P path position requests' := by
  refine List.ext_getElem? fun i => ?_
  have hi := congrArg (fun addresses => addresses[i]?) h
  simp only [List.getElem?_map] at hi
  cases hr : requests[i]? <;> cases hr' : requests'[i]? <;> rw [hr, hr'] at hi
  · rw [shown, shown, List.getElem?_mapIdx, List.getElem?_mapIdx, hr, hr']
    rfl
  · cases hi
  · cases hi
  · next r r' =>
    simp only [Option.map_some, Option.some.injEq] at hi
    have hlast := lastBefore_congr h r.address i
    rw [getElem?_shown hr, getElem?_shown hr', ← hi]
    cases hp : PathRequest.lastBefore requests r.address i with
    | none =>
      rw [hp, Option.map_none, eq_comm, Option.map_eq_none_iff] at hlast
      rw [hlast]
    | some p =>
      rw [hp, Option.map_some, eq_comm, Option.map_eq_some_iff] at hlast
      obtain ⟨p', hp', he⟩ := hlast
      simp only [hp', he]

/-- How many outcomes show the given leaves. -/
theorem card_view (hstand : P.standalone = true) (hlen : lines.length ≤ P.capacity)
    (hpad : ∀ t i, (fill.pad t i).isNormal = false)
    (hproper : ∀ r ∈ requests, r.Proper (fileBlocks lines)) (hn : requests.length = n)
    {xs : List ℕ} (hxs : xs ∈ choices n (leavesAt P requests)) :
    ((leafDraws P lines.length n).filter fun draws =>
        view P lines fill requests draws = some (traceAlong P xs)).card *
      ∏ i : Fin n, (leavesAt P requests i).ncard = (leafDraws P lines.length n).card := by
  obtain ⟨c, hc, hleaves, hshown⟩ := exists_source (n := n) hlen
    (fun r hr => (hproper r hr).address_lt) hn
  obtain ⟨y, rfl⟩ : ∃ y : Fin n → ℕ, xs = List.ofFn y := by
    obtain ⟨rfl, -⟩ := hxs
    exact ⟨xs.get, (List.ofFn_get xs).symm⟩
  have hvalue : ∀ i, y i ∈ leafSet P lines.length n (c i) := by
    intro i
    have hy := hxs.2 i (y i) (by rw [List.getElem?_ofFn, dif_pos i.2])
    rwa [hleaves, Finset.mem_coe] at hy
  have hfilter : ((leafDraws P lines.length n).filter fun draws =>
      view P lines fill requests draws = some (traceAlong P (List.ofFn y))) =
        (leafDraws P lines.length n).filter fun draws => ∀ i, draws (c i) = y i := by
    refine Finset.filter_congr fun draws hdraws => ?_
    rw [view_eq hstand hlen hpad hproper, hshown draws hdraws, Option.some.injEq]
    constructor
    · intro h
      have hlist := traceAlong_inj (by simp) h
      exact congrFun (List.ofFn_injective hlist)
    · intro h
      rw [funext h]
  have hncard : ∀ i : Fin n,
      (leavesAt P requests i).ncard = (leafSet P lines.length n (c i)).card := by
    intro i
    rw [hleaves, Set.ncard_coe_finset]
  rw [hfilter, Finset.prod_congr rfl fun i _ => hncard i]
  rw [leafDraws, Fintype.card_piFinset]
  convert card_fixed hc hvalue

/-- What the server sees is a trace along leaves that the accesses can show. -/
theorem exists_view (hstand : P.standalone = true) (hlen : lines.length ≤ P.capacity)
    (hpad : ∀ t i, (fill.pad t i).isNormal = false)
    (hproper : ∀ r ∈ requests, r.Proper (fileBlocks lines)) (hn : requests.length = n)
    (draws : Fin lines.length ⊕ Fin n → ℕ) :
    ∃ xs ∈ choices n (leavesAt P requests),
      view P lines fill requests draws = some (traceAlong P xs) :=
  ⟨_, by
    subst hn
    exact shown_mem_choices _ _ requests, view_eq hstand hlen hpad hproper draws⟩

/-- A trace gives away how many accesses it is of. -/
theorem length_view (hstand : P.standalone = true) (hlen : lines.length ≤ P.capacity)
    (hpad : ∀ t i, (fill.pad t i).isNormal = false)
    (hproper : ∀ r ∈ requests, r.Proper (fileBlocks lines)) (draws : Fin m ⊕ Fin n → ℕ) :
    (view P lines fill requests draws).map List.length =
      some ((loadPattern P).length +
        requests.length * (P.treeLevel + 1 + (P.treeLevel + 1))) := by
  rw [view_eq hstand hlen hpad hproper]
  simp only [traceAlong, shown, Option.map_some, List.length_append, List.length_flatMap,
    length_pattern, List.map_const', List.sum_replicate, List.length_mapIdx, Nat.nsmul_eq_mul]

/-- What is in the file does not show, nor what is written. -/
theorem view_congr (hstand : P.standalone = true) (hlen : lines.length ≤ P.capacity)
    {lines' : List (D × ℕ)} (hlen' : lines'.length ≤ P.capacity) {fill' : FillDraws C}
    (hpad : ∀ t i, (fill.pad t i).isNormal = false)
    (hpad' : ∀ t i, (fill'.pad t i).isNormal = false) {requests' : List (PathRequest C)}
    (hproper : ∀ r ∈ requests, r.Proper (fileBlocks lines))
    (hproper' : ∀ r ∈ requests', r.Proper (fileBlocks lines'))
    (haddress : requests.map PathRequest.address = requests'.map PathRequest.address)
    (draws : Fin m ⊕ Fin n → ℕ) :
    view P lines fill requests draws = view P lines' fill' requests' draws := by
  rw [view_eq hstand hlen hpad hproper, view_eq hstand hlen' hpad' hproper', shown_congr haddress]

/-- Where two sequences can show the same leaves, all traces are as likely. -/
theorem card_view_congr (hstand : P.standalone = true) (hlen : lines.length ≤ P.capacity)
    {fill' : FillDraws C} (hpad : ∀ t i, (fill.pad t i).isNormal = false)
    (hpad' : ∀ t i, (fill'.pad t i).isNormal = false) {requests' : List (PathRequest C)}
    (hproper : ∀ r ∈ requests, r.Proper (fileBlocks lines))
    (hproper' : ∀ r ∈ requests', r.Proper (fileBlocks lines)) (hn : requests.length = n)
    (hn' : requests'.length = n)
    (hleaves : ∀ i < n, leavesAt P requests i = leavesAt P requests' i) (log : List TreeEvent) :
    ((leafDraws P lines.length n).filter fun draws =>
        view P lines fill requests draws = some log).card =
      ((leafDraws P lines.length n).filter fun draws =>
        view P lines fill' requests' draws = some log).card := by
  have hsame : choices n (leavesAt P requests) = choices n (leavesAt P requests') :=
    (choices_eq_iff (fun i hi => leavesAt_nonempty (hn ▸ hi))
      fun i hi => leavesAt_nonempty (hn' ▸ hi)).mpr hleaves
  by_cases hlog : ∃ xs ∈ choices n (leavesAt P requests), log = traceAlong P xs
  · obtain ⟨xs, hxs, rfl⟩ := hlog
    have hcount := card_view (n := n) hstand hlen hpad hproper hn hxs
    have hcount' := card_view (n := n) hstand hlen hpad' hproper' hn' (hsame ▸ hxs)
    have hprod : ∏ i : Fin n, (leavesAt P requests i).ncard =
        ∏ i : Fin n, (leavesAt P requests' i).ncard :=
      Finset.prod_congr rfl fun i _ => congrArg Set.ncard (hleaves i i.2)
    have hpos : 0 < ∏ i : Fin n, (leavesAt P requests' i).ncard := by
      exact Finset.prod_pos fun i _ =>
        (Set.ncard_pos (finite_leavesAt _ _)).mpr (leavesAt_nonempty (hn' ▸ i.2))
    rw [hprod] at hcount
    exact Nat.eq_of_mul_eq_mul_right hpos (hcount.trans hcount'.symm)
  · -- a log of another shape is seen under no outcome, in neither run
    have hnever : ∀ {fill : FillDraws C} {requests : List (PathRequest C)},
        (∀ t i, (fill.pad t i).isNormal = false) →
        (∀ r ∈ requests, r.Proper (fileBlocks lines)) → requests.length = n →
        (¬∃ xs ∈ choices n (leavesAt P requests), log = traceAlong P xs) →
        ((leafDraws P lines.length n).filter fun draws =>
          view P lines fill requests draws = some log).card = 0 := by
      intro fill requests hpad hproper hn hlog
      rw [Finset.card_eq_zero, Finset.filter_eq_empty_iff]
      intro draws _ hview
      obtain ⟨xs, hxs, hsome⟩ := exists_view (n := n) hstand hlen hpad hproper hn draws
      exact hlog ⟨xs, hxs, Option.some.inj (hview.symm.trans hsome)⟩
    rw [hnever hpad hproper hn hlog, hnever hpad' hproper' hn' (hsame ▸ hlog)]

/-- **All possible traces are equally likely.** Under every outcome of the random
choices the server sees one path for each access, along a leaf that the access
can show, and each choice of such leaves comes from the same share of the
outcomes: one in the number of all choices. -/
theorem pathOram_traces_uniform (hstand : P.standalone = true) (hlen : lines.length ≤ P.capacity)
    (hpad : ∀ t i, (fill.pad t i).isNormal = false)
    (hproper : ∀ r ∈ requests, r.Proper (fileBlocks lines)) :
    (∀ draws ∈ leafDraws P lines.length requests.length,
      ∃ xs ∈ choices requests.length (leavesAt P requests),
        view P lines fill requests draws = some (traceAlong P xs)) ∧
      ∀ xs ∈ choices requests.length (leavesAt P requests),
        ((leafDraws P lines.length requests.length).filter fun draws =>
            view P lines fill requests draws = some (traceAlong P xs)).card *
          ∏ i : Fin requests.length, (leavesAt P requests i).ncard =
        (leafDraws P lines.length requests.length).card :=
  ⟨fun draws _ => exists_view hstand hlen hpad hproper rfl draws,
    fun _ hxs => card_view hstand hlen hpad hproper rfl hxs⟩

end

/-- Twice the same line, from a tree of two leaves. -/
theorem pathOram_traces_uniform_small :
    (∀ draws ∈ leafDraws smallTree 4 2,
      ∃ xs ∈ choices 2 (leavesAt smallTree ([0, 0].map smallRead)),
        view smallTree smallLines smallFill ([0, 0].map smallRead) draws =
          some (traceAlong smallTree xs)) ∧
      ∀ xs ∈ choices 2 (leavesAt smallTree ([0, 0].map smallRead)),
        ((leafDraws smallTree 4 2).filter fun draws =>
            view smallTree smallLines smallFill ([0, 0].map smallRead) draws =
              some (traceAlong smallTree xs)).card *
          ∏ i : Fin 2, (leavesAt smallTree ([0, 0].map smallRead) i).ncard =
        (leafDraws smallTree 4 2).card :=
  pathOram_traces_uniform rfl (by decide) (fun _ _ => rfl) (smallReads_proper [0, 0] (by decide))

/-! ## After a warm-up

Once an address has been accessed, every leaf is possible for it. So behind a warm-up
that leaves no address out the sets of leaves do not depend on the accesses any more. -/

section

variable {lines : List (D × ℕ)} {fill : FillDraws C} {requests : List (PathRequest C)}

/-- What comes later does not matter for what was accessed before. -/
theorem lastBefore_append (warm requests : List (PathRequest C)) (a : ℕ) {i : ℕ}
    (hi : i ≤ warm.length) :
    PathRequest.lastBefore (warm ++ requests) a i = PathRequest.lastBefore warm a i := by
  induction i with
  | zero => rfl
  | succ i ih =>
    rw [PathRequest.lastBefore, PathRequest.lastBefore, List.getElem?_append_left hi,
      ih (Nat.le_of_succ_le hi)]

theorem leavesAt_append (warm requests : List (PathRequest C)) {i : ℕ} (hi : i < warm.length) :
    leavesAt P (warm ++ requests) i = leavesAt P warm i := by
  simp only [leavesAt, List.getElem?_append_left hi, List.getElem?_eq_getElem hi,
    lastBefore_append warm requests _ (Nat.le_of_lt hi)]

/-- Once every address has been accessed, an access can show every leaf. -/
theorem leavesAt_warm {warm : List (PathRequest C)}
    (hwarm : ∀ a < lines.length, ∃ r ∈ warm, r.address = a)
    (hproper : ∀ r ∈ warm ++ requests, r.Proper (fileBlocks lines)) {i : ℕ}
    (hi : warm.length ≤ i) (hlt : i < (warm ++ requests).length) :
    leavesAt P (warm ++ requests) i = {x | x < P.numberOfLeafs} := by
  have hr : (warm ++ requests)[i]? = some (warm ++ requests)[i] := List.getElem?_eq_getElem hlt
  obtain ⟨q, hq, ha⟩ := hwarm _ (hproper _ (List.getElem_mem hlt)).address_lt
  obtain ⟨k, hk⟩ := List.mem_iff_getElem?.mp hq
  have hkw : k < warm.length := (List.getElem?_eq_some_iff.mp hk).1
  cases hlast : PathRequest.lastBefore (warm ++ requests) (warm ++ requests)[i].address i with
  | none =>
    refine absurd ha (PathRequest.lastBefore_none hlast (hkw.trans_le hi) ?_)
    rw [List.getElem?_append_left hkw, hk]
  | some p => exact leavesAt_again hr hlast

/-- So it does not matter which addresses come after. -/
theorem leavesAt_congr_warm {warm requests' : List (PathRequest C)}
    (hwarm : ∀ a < lines.length, ∃ r ∈ warm, r.address = a)
    (hproper : ∀ r ∈ warm ++ requests, r.Proper (fileBlocks lines))
    (hproper' : ∀ r ∈ warm ++ requests', r.Proper (fileBlocks lines))
    (hn : (warm ++ requests).length = n) (hn' : (warm ++ requests').length = n) :
    ∀ i < n, leavesAt P (warm ++ requests) i = leavesAt P (warm ++ requests') i := by
  intro i hi
  rcases Nat.lt_or_ge i warm.length with hlt | hge
  · rw [leavesAt_append _ _ hlt, leavesAt_append _ _ hlt]
  · rw [leavesAt_warm hwarm hproper hge (hn ▸ hi), leavesAt_warm hwarm hproper' hge (hn' ▸ hi)]

/-- **The paths do not show what is accessed.** Once every line of the file has been
accessed, two sequences of accesses of the same length make every trace of kinds,
paths and levels as likely: nothing of the operations, the addresses and the data
can be told from the paths. (The ids of the blocks are in the buckets, in the clear.) -/
theorem pathOram_hides_accesses (hstand : P.standalone = true) (hlen : lines.length ≤ P.capacity)
    {fill' : FillDraws C} (hpad : ∀ t i, (fill.pad t i).isNormal = false)
    (hpad' : ∀ t i, (fill'.pad t i).isNormal = false) {warm : List (PathRequest C)}
    (hwarm : ∀ a < lines.length, ∃ r ∈ warm, r.address = a) {requests' : List (PathRequest C)}
    (hproper : ∀ r ∈ warm ++ requests, r.Proper (fileBlocks lines))
    (hproper' : ∀ r ∈ warm ++ requests', r.Proper (fileBlocks lines))
    (hn : (warm ++ requests).length = n) (hn' : (warm ++ requests').length = n)
    (log : List TreeEvent) :
    ((leafDraws P lines.length n).filter fun draws =>
        view P lines fill (warm ++ requests) draws = some log).card =
      ((leafDraws P lines.length n).filter fun draws =>
        view P lines fill' (warm ++ requests') draws = some log).card :=
  card_view_congr hstand hlen hpad hpad' hproper hproper' hn hn'
    (leavesAt_congr_warm hwarm hproper hproper' hn hn') log

end

/-- All four lines are read, and then the first one twice; every position drawn is `0`. -/
def smallTrace : List TreeEvent :=
  (view smallTree smallLines smallFill ([0, 1, 2, 3, 0, 0].map smallRead)
    (fun _ : Fin smallLines.length ⊕ Fin 6 => 0)).getD []

/-- Reading two others in the end shows this trace as often. -/
theorem pathOram_hides_accesses_small :
    ((leafDraws smallTree smallLines.length 6).filter fun draws =>
        view smallTree smallLines smallFill ([0, 1, 2, 3].map smallRead ++ [0, 0].map smallRead)
          draws = some smallTrace).card =
      ((leafDraws smallTree smallLines.length 6).filter fun draws =>
        view smallTree smallLines smallFill ([0, 1, 2, 3].map smallRead ++ [3, 2].map smallRead)
          draws = some smallTrace).card := by
  have hwarm : ∀ a < smallLines.length, ∃ r ∈ [0, 1, 2, 3].map smallRead, r.address = a := by
    decide
  have hproper : ∀ as : List ℕ, (∀ a ∈ as, a < 4) →
      ∀ r ∈ [0, 1, 2, 3].map smallRead ++ as.map smallRead, r.Proper (fileBlocks smallLines) := by
    intro as has
    rw [← List.map_append]
    have hfour : ∀ a ∈ [0, 1, 2, 3], a < 4 := by decide
    exact smallReads_proper _ fun a ha => (List.mem_append.mp ha).elim (hfour a) (has a)
  exact pathOram_hides_accesses rfl (by decide) (fun _ _ => rfl) (fun _ _ => rfl) hwarm
    (hproper [0, 0] (by decide)) (hproper [3, 2] (by decide)) rfl rfl smallTrace

end ObliviousRam
