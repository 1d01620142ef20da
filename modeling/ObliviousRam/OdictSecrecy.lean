import ObliviousRam.OdictOverPath
import ObliviousRam.PathSecrecy

set_option autoImplicit false

/-!
# What a dictionary over a Path ORAM hides

`PathSecrecy` is about accesses that are fixed beforehand. Those of a dictionary
depend on the nodes that it reads. But what it reads does not depend on the
random choices of the Path ORAM: it is what a plain array would have given. So
the paths show what they show of the accesses to that array (`odictView_eq`), and
of these they show how many there are.

As in `PathSecrecy`, the view is made of kinds, paths and levels. The `block_id` of
a block, which is the id of a node, is in its bucket in the clear and not in the view.
-/

namespace ObliviousRam

open PathSystem PathOramController

variable {V σ : Type} {C : Codec (TreeNode V)} {P : PathOramConfig} {A : ArraySetup V}

/-! ## The addresses of a dictionary -/

/-- The dictionary over an ORAM of which the addresses are written down. -/
def OdictConfig.addressed (K : OdictConfig V σ) : OdictConfig V (σ × List ℕ) where
  access op id block := Prog.logged id (K.access op id block)
  clientCacheMaxSize := K.clientCacheMaxSize
  computePadVal := K.computePadVal
  garbage := K.garbage

section

variable [Inhabited V]

/-- A file as an array of nodes. -/
def fileArray (lines : List (TreeNode V × ℕ)) (id : ℕ) : TreeNode V :=
  (lines[id]?.map Prod.fst).getD (.new id)

/-- A block of the file holds what the array has at its id. -/
theorem fileArray_eq {lines : List (TreeNode V × ℕ)} {b : OramBlock (TreeNode V)}
    (hb : b ∈ fileBlocks lines) : b.data = fileArray lines b.id := by
  obtain ⟨i, hi⟩ := List.mem_iff_getElem?.mp hb
  rw [getElem?_fileBlocks, Option.map_eq_some_iff] at hi
  obtain ⟨line, hline, rfl⟩ := hi
  simp [fileArray, OramBlock.id, hline]

/-- The addresses that the calls access, with a plain array for the ORAM. -/
def OdictCall.addresses (A : ArraySetup V) (lines : List (TreeNode V × ℕ))
    (calls : List (OdictCall V)) : Option (List ℕ) :=
  (Prog.trace Exit.fatal (OdictCall.run A.config.addressed) calls
    (.new (fileArray lines, []))).map fun run => run.2.oram.2

/-- Addresses that are written down stay. -/
theorem addresses_append {lines : List (TreeNode V × ℕ)} {warm calls : List (OdictCall V)}
    {as bs : List ℕ} (hwarm : OdictCall.addresses A lines warm = some as)
    (hcalls : OdictCall.addresses A lines (warm ++ calls) = some bs) : as <+: bs := by
  obtain ⟨⟨outs, v⟩, hfirst, rfl⟩ := Option.map_eq_some_iff.mp hwarm
  obtain ⟨⟨outs', u⟩, hrun, rfl⟩ := Option.map_eq_some_iff.mp hcalls
  obtain ⟨rs, v', rs', hfirst', hrest, rfl⟩ := Prog.trace_append_eq_some hrun
  cases hfirst.symm.trans hfirst'
  -- the first part of the list is kept, whatever the dictionary does
  have hkeeps : A.config.addressed.Mirrors (fun t => v.oram.2 <+: t.2) (fun _ _ => False)
      A.config.addressed := by
    refine ⟨fun op _ id block block' _ => ⟨fun t ht => ?_, fun _ _ hfalse => hfalse.elim⟩,
      rfl, rfl, rfl⟩
    exact ht.trans (List.prefix_append _ _)
  have : Nonempty ((ℕ → TreeNode V) × List ℕ) := ⟨v.oram⟩
  have hstart : OdictController.OnOram (fun t => v.oram.2 <+: t.2) v := List.prefix_rfl
  exact Prog.bad_of_trace (fun c _ => (hkeeps.call c).keeps) hstart hrest

end

/-! ## Side by side

The dictionary is run over a Path ORAM and over an array at once. As long as the two
ORAMs give the same nodes the dictionary goes the same way, so the addresses are those
of the run over the array, and these are fixed before any position is drawn. -/

/-- The stream of random choices, with these positions. -/
def withPositions (base : ℕ → AccessDraws C) (position : ℕ → ℕ) (k : ℕ) : AccessDraws C :=
  { base k with position := position k }

/-- The Path ORAM is where the accesses so far have led, and it is the array. -/
structure Reached (P : PathOramConfig) (lines : List (TreeNode V × ℕ)) (position : ℕ → ℕ)
    (w₀ : PathSystem (TreeNode V) (TreeOramServerStorage C × List TreeEvent)) (last : ℕ)
    (w : Backbone V (TreeOramServerStorage C × List TreeEvent))
    (t : (ℕ → TreeNode V) × List ℕ) : Prop where
  count_eq : w.2 = t.2.length
  realizes : Realizes P last t.1 (⟨w.1.client, w.1.server.1⟩ : PathSystem _ _)
  exists_run : ∃ (requests : List (PathRequest C)) (outs : List (Except Exit (OramBlock _))),
    requests.map PathRequest.address = t.2 ∧ redraw position requests = requests ∧
      (∀ r ∈ requests, r.Proper (fileBlocks lines)) ∧
      Prog.trace Exit.fatal (PathRequest.runLogged P) requests w₀ = some (outs, w.1)

/-- An address past the end of the array. -/
def Strays (last : ℕ) (t : (ℕ → TreeNode V) × List ℕ) : Prop := ∃ a ∈ t.2, last < a

theorem redraw_concat {position : ℕ → ℕ} {requests : List (PathRequest C)} {r : PathRequest C}
    (h : redraw position requests = requests) (hr : r.draws.position = position requests.length) :
    redraw position (requests ++ [r]) = requests ++ [r] := by
  rw [redraw, List.mapIdx_concat, ← redraw, h, ← hr]

/-- An address of the array is found. -/
theorem arrayAccess_found {last id : ℕ} (hid : id ≤ last) {op : Operation} (hop : op ≠ .kInvalid)
    (block : OramBlock (TreeNode V)) (o : ℕ → TreeNode V) :
    ∃ out o', arrayAccess last op id block o = (.ok out, o') := by
  cases op with
  | kInvalid => exact absurd rfl hop
  | kRead => exact ⟨_, _, if_pos hid⟩
  | kWrite => exact ⟨_, _, if_pos hid⟩

/-- An access to an address of the array, with a log behind it. -/
theorem access_found (hstand : P.standalone = true) {draws : AccessDraws C}
    (hdraws : ∀ l j, (draws.pad l j).isNormal = false) {last id : ℕ} (hid : id ≤ last)
    {op : Operation} (hop : op ≠ .kInvalid) {block block' : OramBlock (TreeNode V)}
    (hblock : SameNode block block') {o : ℕ → TreeNode V}
    {w : PathSystem (TreeNode V) (TreeOramServerStorage C × List TreeEvent)}
    (hw : Realizes P last o (⟨w.client, w.server.1⟩ : PathSystem _ _)) :
    ∃ out w' out' o', access (loggedTreeStub (OramService.stub C P.id)) P op id block draws w =
        (.ok out, w') ∧
      arrayAccess last op id block' o = (.ok out', o') ∧ SameNode out out' ∧
      Realizes P last o' (⟨w'.client, w'.server.1⟩ : PathSystem _ _) := by
  obtain ⟨out', o', harray⟩ := arrayAccess_found hid hop block' o
  have hall : ∀ (n : ℕ) l j, (((fun _ => draws : ℕ → AccessDraws C) n).pad l j).isNormal = false :=
    fun _ => hdraws
  -- the access without the log
  rcases (mirrors_pathAccess hstand hall last hop id hblock.symm).step o (⟨w.client, w.server.1⟩, 0) hw with hfalse | ⟨hout, hw'⟩
  · exact hfalse.elim
  obtain ⟨hagree, hclient, hserver⟩ :=
    (simulates_loggedTreeStub (OramService.stub C P.id)).access (P := P) op id block
      draws ⟨w.client, w.server.1⟩ w ⟨rfl, rfl⟩
  rw [harray] at hout hw'
  obtain ⟨out, hplain, hsame⟩ := hout.eq_ok
  rw [Prog.agree_eq] at hagree
  refine ⟨out, _, out', o', Prod.ext (hagree.symm.trans hplain) rfl, harray, hsame.symm, ?_⟩
  rw [← hclient, show _ = _ from hserver]
  exact hw'

/-- An access to a line of the file. -/
theorem proper_of_lt {lines : List (TreeNode V × ℕ)} {op : Operation} (hop : op ≠ .kInvalid)
    {id : ℕ} (hid : id < lines.length) {block : OramBlock (TreeNode V)} {draws : AccessDraws C}
    (hdraws : ∀ l j, (draws.pad l j).isNormal = false) :
    PathRequest.Proper (fileBlocks lines) ⟨op, id, block, draws⟩ where
  op_valid := by
    cases op with
    | kInvalid => exact absurd rfl hop
    | kRead => exact .inl rfl
    | kWrite => exact .inr rfl
  loaded := by
    have hget := getElem?_fileBlocks lines id
    rw [List.getElem?_eq_getElem hid] at hget
    have hb := List.mem_of_getElem? hget
    exact ⟨_, hb, isNormal_fileBlocks hb, rfl⟩
  pad_dummy := hdraws

/-- **The dictionary over the Path ORAM and over the array**, as long as it does
not stray: the same happens, and the accesses are to the same addresses. -/
theorem mirrors_reached (hstand : P.standalone = true) {lines : List (TreeNode V × ℕ)}
    (hlines : lines.length = A.last + 1) {base : ℕ → AccessDraws C}
    (hbase : ∀ n l j, ((base n).pad l j).isNormal = false) (position : ℕ → ℕ)
    (w₀ : PathSystem (TreeNode V) (TreeOramServerStorage C × List TreeEvent)) :
    (A.overPath (loggedTreeStub (OramService.stub C P.id)) P (withPositions base position)).Mirrors
      (Strays A.last) (Reached P lines position w₀ A.last) A.config.addressed where
  access := by
    intro op hop id block block' hblock
    refine ⟨fun t => ?_, ?_⟩
    · rintro ⟨a, ha, hlt⟩
      exact ⟨a, List.mem_append_left _ ha, hlt⟩
    · rintro ⟨w, k⟩ ⟨o, as⟩ ⟨hcount, hreal, requests, outs, haddress, hredraw, hproper, hrun⟩
      obtain rfl : k = as.length := hcount
      rcases Nat.lt_or_ge A.last id with hstray | hid
      · exact .inl ⟨id, List.mem_append_right _ (List.mem_singleton_self id), hstray⟩
      · have hpads : ∀ l j, ((withPositions base position as.length).pad l j).isNormal = false :=
          hbase _
        obtain ⟨out, w', out', o', haccess, harray, hsame, hreal'⟩ :=
          access_found hstand hpads hid hop hblock hreal
        have hpath : pathAccess (loggedTreeStub (OramService.stub C P.id)) P
            (withPositions base position) op id block (w, as.length) =
              (.ok out, w', as.length + 1) := by
          rw [pathAccess, haccess]
        have hlogged : Prog.logged id (A.config.access op id block') (o, as) =
            (.ok out', o', as ++ [id]) := by
          have hplain : A.config.access op id block' o = (.ok out', o') := harray
          rw [Prog.logged, hplain]
        let r : PathRequest C := ⟨op, id, block, withPositions base position as.length⟩
        have hlength : requests.length = as.length := by
          rw [← List.length_map (f := PathRequest.address), haddress]
        right
        show Prog.Corresponds _ _ (pathAccess _ _ _ _ _ _ _).1 (Prog.logged _ _ _).1 ∧
          Reached _ _ _ _ _ (pathAccess _ _ _ _ _ _ _).2 (Prog.logged _ _ _).2
        rw [hpath, hlogged]
        refine ⟨.ok hsame, ?_, hreal', requests ++ [r], outs ++ [.ok out], ?_, ?_, ?_, ?_⟩
        · exact (List.length_append : (as ++ [id]).length = as.length + [id].length).symm
        · rw [List.map_append, haddress]
          rfl
        · exact redraw_concat hredraw (by rw [hlength]; rfl)
        · intro q hq
          rcases List.mem_append.mp hq with hq | hq
          · exact hproper q hq
          · rw [List.mem_singleton.mp hq]
            exact proper_of_lt hop (hlines ▸ Nat.lt_succ_of_le hid) (hbase _)
        · exact Prog.trace_concat hrun (Prog.survive_ok haccess)
  clientCacheMaxSize_eq := rfl
  computePadVal_eq := rfl
  garbage_eq := rfl

/-! ## What the server sees

`PathSecrecy` counts the choices of positions for accesses that are fixed beforehand. As
the addresses are fixed, it applies: the number of choices that lead to a view depends
on how many accesses there are, and on nothing else. -/

section

variable [Inhabited V] {m n : ℕ} {lines : List (TreeNode V × ℕ)} {fill : FillDraws C}
  {base : ℕ → AccessDraws C} {calls : List (OdictCall V)} {as : List ℕ}

/-- What the server sees of the load and of a sequence of calls under these draws. -/
def odictView (A : ArraySetup V) (P : PathOramConfig) (lines : List (TreeNode V × ℕ))
    (fill : FillDraws C) (base : ℕ → AccessDraws C) (calls : List (OdictCall V))
    (draws : Fin m ⊕ Fin n → ℕ) : Option (List TreeEvent) :=
  match fillWithData (loggedTreeStub (OramService.stub C P.id)) P (fileBlocks lines)
      { fill with path := loadDraws P draws } ((PathSystem.init C P).withLog []) with
  | (.ok (), w) =>
    (Prog.trace Exit.fatal (OdictCall.run (A.overPath (loggedTreeStub (OramService.stub C P.id)) P
      (withPositions base (accessDraws draws)))) calls (.new (w, 0))).map
        fun run => run.2.oram.1.server.2
  | (.error _, _) => none

/-- Reads of these addresses. -/
def readsOf (draws : AccessDraws C) (as : List ℕ) : List (PathRequest C) :=
  as.map fun a => ⟨.kRead, a, ⟨⟨a, .kNormal, 0⟩, .new a⟩, draws⟩

theorem readsOf_append (draws : AccessDraws C) (as bs : List ℕ) :
    readsOf draws (as ++ bs) = readsOf draws as ++ readsOf draws bs := List.map_append

/-- These reads are what was asked for, in this order. -/
theorem map_address_readsOf (draws : AccessDraws C) (as : List ℕ) :
    (readsOf draws as).map PathRequest.address = as := by
  rw [readsOf, List.map_map]
  exact List.map_id as

theorem length_readsOf (draws : AccessDraws C) (as : List ℕ) :
    (readsOf draws as).length = as.length := List.length_map _

theorem readsOf_proper {draws : AccessDraws C} (hdraws : ∀ l j, (draws.pad l j).isNormal = false)
    (has : ∀ a ∈ as, a < lines.length) :
    ∀ r ∈ readsOf draws as, r.Proper (fileBlocks lines) := by
  intro r hr
  obtain ⟨a, ha, rfl⟩ := List.mem_map.mp hr
  exact proper_of_lt (by decide) (has a ha) hdraws

/-- **The server sees what it sees of accesses to the same addresses.** -/
theorem odictView_eq (hstand : P.standalone = true) (hlen : lines.length ≤ P.capacity)
    (hlines : lines.length = A.last + 1) (hpad : ∀ t i, (fill.pad t i).isNormal = false)
    (hbase : ∀ n l j, ((base n).pad l j).isNormal = false)
    (haddresses : OdictCall.addresses A lines calls = some as) (hrange : ∀ a ∈ as, a ≤ A.last)
    (draws : Fin m ⊕ Fin n → ℕ) :
    odictView A P lines fill base calls draws = view P lines fill (readsOf (base 0) as) draws := by
  obtain ⟨⟨outs, u⟩, hrun, rfl⟩ := Option.map_eq_some_iff.mp haddresses
  obtain ⟨w, hlogged, hplain⟩ := exists_load hlen hpad (loadDraws P draws)
  -- the ORAM is the file
  have hids : (loadedBlocks (fileBlocks lines)).map OramBlock.id = Multiset.range (A.last + 1) := by
    rw [loadedBlocks, filter_isNormal_of_forall fun b => isNormal_fileBlocks, Multiset.map_coe,
      map_id_fileBlocks, hlines]
    rfl
  have hreal : Realizes P A.last (fileArray lines) (⟨w.client, w.server.1⟩ : PathSystem _ _) :=
    realizes_of_fillWithData hplain (by rwa [length_fileBlocks]) hids hpad
      fun b hb => fileArray_eq (mem_loadedBlocks.mp hb).1
  have hstart : Reached P lines (accessDraws draws) w A.last (w, 0) (fileArray lines, []) :=
    ⟨rfl, hreal, [], [], rfl, rfl, by simp, rfl⟩
  -- the calls over the array, and over the Path ORAM
  have hmirrors := mirrors_reached (A := A) hstand hlines hbase (accessDraws draws) w
  have hgood : ¬OdictController.OnOram (Strays A.last) u := by
    rintro ⟨a, ha, hlt⟩
    exact absurd (hrange a ha) (Nat.not_le_of_lt hlt)
  have : Nonempty (Backbone V (TreeOramServerStorage C × List TreeEvent)) := ⟨(w, 0)⟩
  have hlift : OdictController.Lift (Reached P lines (accessDraws draws) w A.last)
      (OdictController.new (V := V) (w, 0)) (.new (fileArray lines, [])) := ⟨_, hstart, rfl⟩
  obtain ⟨outs', v, htrace, -, oram, hreached, rfl⟩ :=
    Prog.trace_mirrors hmirrors.call (Prog.fatal_of_eq Exit.fatal) hlift hrun hgood
  obtain ⟨-, -, requests, outs'', haddress, hredraw, hproper, hpath⟩ := hreached
  have hdictionary : odictView A P lines fill base calls draws =
      view P lines fill requests draws := by
    rw [odictView, view, hlogged, hredraw]
    simp only [htrace, hpath, Option.map_some]
  have haddress' : requests.map PathRequest.address =
      (readsOf (base 0) oram.2).map PathRequest.address := by rw [haddress, map_address_readsOf]
  have hreads : ∀ r ∈ readsOf (base 0) oram.2, r.Proper (fileBlocks lines) :=
    readsOf_proper (hbase 0) fun a ha => hlines ▸ Nat.lt_succ_of_le (hrange a ha)
  rw [hdictionary, view_eq hstand hlen hpad hproper, shown_congr haddress']
  exact (view_eq hstand hlen hpad hreads draws).symm

/-- **What the paths of a dictionary give away** is how often it accesses its ORAM.
Take two files of one length, and two sequences of calls, after calls that have
accessed every address. If the sequences access the ORAM equally often, all traces
of kinds, paths and levels are as likely for the one as for the other; if not, no
trace of the one is one of the other. -/
theorem odict_hides_calls (hstand : P.standalone = true) (hlen : lines.length ≤ P.capacity)
    (hlines : lines.length = A.last + 1) {lines' : List (TreeNode V × ℕ)}
    (hlines' : lines'.length = A.last + 1) {fill' : FillDraws C}
    (hpad : ∀ t i, (fill.pad t i).isNormal = false)
    (hpad' : ∀ t i, (fill'.pad t i).isNormal = false) {base' : ℕ → AccessDraws C}
    (hbase : ∀ n l j, ((base n).pad l j).isNormal = false)
    (hbase' : ∀ n l j, ((base' n).pad l j).isNormal = false)
    {warm calls' : List (OdictCall V)} {bs bs' : List ℕ}
    (hwarm : OdictCall.addresses A lines warm = some as)
    (hwarm' : OdictCall.addresses A lines' warm = some as) (hall : ∀ a ≤ A.last, a ∈ as)
    (hcalls : OdictCall.addresses A lines (warm ++ calls) = some bs)
    (hcalls' : OdictCall.addresses A lines' (warm ++ calls') = some bs')
    (hrange : ∀ b ∈ bs, b ≤ A.last) (hrange' : ∀ b ∈ bs', b ≤ A.last)
    (hn : bs.length = n) {n' : ℕ} (hn' : bs'.length = n') :
    (n' = n → ∀ log : List TreeEvent,
      ((leafDraws P lines.length n).filter fun draws =>
          odictView A P lines fill base (warm ++ calls) draws = some log).card =
        ((leafDraws P lines.length n).filter fun draws =>
          odictView A P lines' fill' base' (warm ++ calls') draws = some log).card) ∧
      (n' ≠ n → ∀ (draws : Fin lines.length ⊕ Fin n → ℕ)
        (draws' : Fin lines.length ⊕ Fin n' → ℕ),
        odictView A P lines fill base (warm ++ calls) draws ≠
          odictView A P lines' fill' base' (warm ++ calls') draws') := by
  have hlength : lines'.length = lines.length := hlines'.trans hlines.symm
  have hlen' : lines'.length ≤ P.capacity := hlength ▸ hlen
  have hreads : ∀ {cs : List ℕ}, (∀ c ∈ cs, c ≤ A.last) → ∀ {lines : List (TreeNode V × ℕ)},
      lines.length = A.last + 1 → ∀ r ∈ readsOf (base 0) cs, r.Proper (fileBlocks lines) :=
    fun hcs _ hlines => readsOf_proper (hbase 0) fun c hc =>
      hlines ▸ Nat.lt_succ_of_le (hcs c hc)
  have hreads' : ∀ r ∈ readsOf (base' 0) bs', r.Proper (fileBlocks lines') :=
    readsOf_proper (hbase' 0) fun b hb => hlines' ▸ Nat.lt_succ_of_le (hrange' b hb)
  -- both are views of reads of the same file
  have hview : ∀ {k : ℕ} (draws : Fin lines.length ⊕ Fin k → ℕ),
      odictView A P lines fill base (warm ++ calls) draws =
        view P lines fill (readsOf (base 0) bs) draws :=
    odictView_eq hstand hlen hlines hpad hbase hcalls hrange
  have hview' : ∀ {k : ℕ} (draws : Fin lines.length ⊕ Fin k → ℕ),
      odictView A P lines' fill' base' (warm ++ calls') draws =
        view P lines fill (readsOf (base 0) bs') draws := by
    intro k draws
    rw [odictView_eq hstand hlen' hlines' hpad' hbase' hcalls' hrange']
    exact view_congr hstand hlen' hlen hpad' hpad hreads' (hreads hrange' hlines)
      (by rw [map_address_readsOf, map_address_readsOf]) draws
  simp only [hview, hview']
  constructor
  · rintro rfl log
    obtain ⟨cs, rfl⟩ := addresses_append hwarm hcalls
    obtain ⟨cs', rfl⟩ := addresses_append hwarm' hcalls'
    have hboth := hreads hrange hlines
    have hboth' := hreads hrange' hlines
    have hlong := (length_readsOf (base 0) _).trans hn
    have hlong' := (length_readsOf (base 0) _).trans hn'
    rw [readsOf_append] at hboth hboth' hlong hlong'
    rw [readsOf_append, readsOf_append]
    have hcover : ∀ a < lines.length, ∃ r ∈ readsOf (base 0) as, r.address = a := by
      intro a ha
      have hmem := hall a (by omega)
      rw [← map_address_readsOf (base 0) as] at hmem
      exact List.mem_map.mp hmem
    exact card_view_congr hstand hlen hpad hpad hboth hboth' hlong hlong'
      (leavesAt_congr_warm hcover hboth hboth' hlong hlong') log
  · intro hne draws draws' heq
    have hlengths := congrArg (Option.map List.length) heq
    rw [length_view hstand hlen hpad (hreads hrange hlines),
      length_view hstand hlen hpad (hreads hrange' hlines), length_readsOf, length_readsOf,
      Option.some.injEq, Nat.add_left_cancel_iff, Nat.mul_left_inj (by omega), hn, hn'] at hlengths
    exact hne hlengths.symm

end

/-! ### A small instance -/

/-- Five fresh nodes. -/
def fiveLines : List (TreeNode ℕ × ℕ) := (List.range 5).map fun id => (.new id, 1)

/-- Insertions that fill the dictionary. -/
def fourInserts : List (OdictCall ℕ) :=
  [.insert (1, 10), .insert (2, 20), .insert (3, 30), .insert (4, 40)]

/-- The node of 2 is the root. The nodes of 1 and 3 are below it, on one level. -/
theorem odict_hides_calls_small :
    (∀ log : List TreeEvent,
      ((leafDraws smallTree fiveLines.length 57).filter fun draws =>
          odictView (OdictCall.smallOdict 4) smallTree fiveLines fiveFill fiveDraws
            (fourInserts ++ [.find 1]) draws = some log).card =
        ((leafDraws smallTree fiveLines.length 57).filter fun draws =>
          odictView (OdictCall.smallOdict 4) smallTree fiveLines fiveFill fiveDraws
            (fourInserts ++ [.find 3]) draws = some log).card) ∧
      ∀ (draws : Fin fiveLines.length ⊕ Fin 57 → ℕ) (draws' : Fin fiveLines.length ⊕ Fin 56 → ℕ),
        odictView (OdictCall.smallOdict 4) smallTree fiveLines fiveFill fiveDraws
            (fourInserts ++ [.find 1]) draws ≠
          odictView (OdictCall.smallOdict 4) smallTree fiveLines fiveFill fiveDraws
            (fourInserts ++ [.find 2]) draws' := by
  have hwarm : (OdictCall.addresses (OdictCall.smallOdict 4) fiveLines fourInserts).any
      (fun as => decide (∀ a ∈ List.range 5, a ∈ as)) = true := by decide +kernel
  obtain ⟨as, has, hmem⟩ := (Option.any_eq_true _ _).mp hwarm
  have hall : ∀ a ≤ (OdictCall.smallOdict 4).last, a ∈ as :=
    fun a ha => of_decide_eq_true hmem a (List.mem_range.mpr (Nat.lt_succ_of_le ha))
  have hfinds : ∀ p ∈ [(1, 57), (3, 57), (2, 56)],
      (OdictCall.addresses (OdictCall.smallOdict 4) fiveLines (fourInserts ++ [.find p.1])).any
        (fun bs => decide (bs.length = p.2 ∧ ∀ b ∈ bs, b ≤ 4)) = true := by decide +kernel
  have hfind : ∀ p ∈ [(1, 57), (3, 57), (2, 56)], ∃ bs,
      OdictCall.addresses (OdictCall.smallOdict 4) fiveLines (fourInserts ++ [.find p.1]) =
        some bs ∧ bs.length = p.2 ∧ ∀ b ∈ bs, b ≤ 4 := by
    intro p hp
    obtain ⟨bs, hbs, hboth⟩ := (Option.any_eq_true _ _).mp (hfinds p hp)
    exact ⟨bs, hbs, of_decide_eq_true hboth⟩
  obtain ⟨bs₁, hbs₁, hn₁, hrange₁⟩ := hfind (1, 57) (by decide)
  obtain ⟨bs₃, hbs₃, hn₃, hrange₃⟩ := hfind (3, 57) (by decide)
  obtain ⟨bs₂, hbs₂, hn₂, hrange₂⟩ := hfind (2, 56) (by decide)
  have hpad : ∀ t i, (fiveFill.pad t i).isNormal = false := fun _ _ => rfl
  have hdraws : ∀ n l j, ((fiveDraws n).pad l j).isNormal = false := fun _ _ _ => rfl
  have hsame := odict_hides_calls (P := smallTree) rfl (by decide) rfl rfl hpad hpad hdraws hdraws
    has has hall hbs₁ hbs₃ hrange₁ hrange₃ hn₁ hn₃
  have hother := odict_hides_calls (P := smallTree) rfl (by decide) rfl rfl hpad hpad hdraws hdraws
    has has hall hbs₁ hbs₂ hrange₁ hrange₂ hn₁ hn₂
  exact ⟨hsame.1 rfl, hother.2 (by decide)⟩

end ObliviousRam
