import ObliviousRam.OdictMap
import Mathlib.Analysis.SpecialFunctions.Log.Basic
import Mathlib.Analysis.Complex.ExponentialBounds

set_option autoImplicit false

/-!
# When the padding suffices

`ComputePadVal` bounds the accesses of an operation by `3 * 1.44 * ln` of the
number of nodes. A balanced tree is low enough for that, except for very small
trees in which an insertion takes a double rotation.
-/

namespace ObliviousRam

open BinaryTree (nil node Rotation)
open OdictController (new Rests Lost)

/-- `ComputePadVal`, in exact reals. -/
noncomputable def computePadVal (x : ℕ) : ℕ := ⌈3 * 1.44 * Real.log x⌉₊

/-! ## Logarithms

The estimates compare `ln` of a Fibonacci number with a multiple of its index. Each base
case is an inequality between powers, decided in whole numbers. -/

/-- Inequalities between logarithms are inequalities between powers of whole numbers. -/
theorem log_pow_lt {a b : ℝ} {m n : ℕ} (ha : 0 < a) (h : a ^ m < b ^ n) :
    m * Real.log a < n * Real.log b := by
  rw [← Real.log_pow, ← Real.log_pow]
  exact Real.log_lt_log (pow_pos ha m) h

theorem log_three_gt : 11 / 7 * Real.log 2 < Real.log 3 := by
  have h := log_pow_lt (a := 2) (b := 3) (m := 11) (n := 7) (by norm_num) (by norm_num)
  push_cast at h
  linarith

theorem log_seven_gt : 14 / 5 * Real.log 2 < Real.log 7 := by
  have h := log_pow_lt (a := 2) (b := 7) (m := 14) (n := 5) (by norm_num) (by norm_num)
  push_cast at h
  linarith

theorem log_four_thirds_gt : 2 / 5 * Real.log 2 < Real.log (4 / 3) := by
  have h := log_pow_lt (a := 2) (b := 4 / 3) (m := 2) (n := 5) (by norm_num) (by norm_num)
  push_cast at h
  linarith

theorem log_four_eq : Real.log 4 = 2 * Real.log 2 := by
  rw [show (4 : ℝ) = 2 ^ 2 by norm_num, Real.log_pow]
  norm_num

theorem log_six_eq : Real.log 6 = Real.log 2 + Real.log 3 := by
  rw [show (6 : ℝ) = 2 * 3 by norm_num, Real.log_mul (by norm_num) (by norm_num)]

theorem log_nine_eq : Real.log 9 = 2 * Real.log 3 := by
  rw [show (9 : ℝ) = 3 ^ 2 by norm_num, Real.log_pow]
  norm_num

/-! ## The padding of a tree of a given height -/

/-- More nodes, more padding. -/
theorem computePadVal_mono {x y : ℕ} (hx : 0 < x) (h : x ≤ y) :
    computePadVal x ≤ computePadVal y := by
  refine Nat.ceil_mono (mul_le_mul_of_nonneg_left ?_ (by norm_num))
  exact Real.log_le_log (by exact_mod_cast hx) (by exact_mod_cast h)

theorem lt_computePadVal {n x : ℕ} (h : (n : ℝ) < 3 * 1.44 * Real.log x) :
    n < computePadVal x := Nat.lt_ceil.mpr h

/-- From one height to the next the number of nodes grows by a third. -/
theorem fib_growth {h : ℕ} (hh : 1 ≤ h) : 4 * (Nat.fib (h + 2) + 1) ≤ 3 * (Nat.fib (h + 3) + 1) := by
  obtain ⟨k, rfl⟩ := Nat.exists_eq_add_of_le' hh
  have h₁ : Nat.fib (k + 4) = Nat.fib (k + 2) + Nat.fib (k + 3) := Nat.fib_add_two
  have h₂ : Nat.fib (k + 3) = Nat.fib (k + 1) + Nat.fib (k + 2) := Nat.fib_add_two
  have hmono : Nat.fib (k + 1) ≤ Nat.fib (k + 2) := Nat.fib_mono (Nat.le_succ _)
  have hpos : 0 < Nat.fib (k + 1) := Nat.fib_pos.mpr (Nat.succ_pos k)
  show 4 * (Nat.fib (k + 3) + 1) ≤ 3 * (Nat.fib (k + 4) + 1)
  omega

/-- Enough for a search path and a double rotation. -/
theorem log_fib_double {h : ℕ} (hh : 4 ≤ h) :
    (h : ℝ) + 5 < 3 * 1.44 * Real.log (Nat.fib (h + 2) + 1) := by
  have hlog := Real.log_two_gt_d9
  have hthree := log_three_gt
  induction h, hh using Nat.le_induction with
  | base =>
    rw [show Nat.fib (4 + 2) = 8 from rfl, show ((8 : ℕ) : ℝ) + 1 = 9 by norm_num, log_nine_eq]
    push_cast
    linarith
  | succ h hh ih =>
    have hgrowth : (4 / 3 : ℝ) * (Nat.fib (h + 2) + 1) ≤ Nat.fib (h + 3) + 1 := by
      have := fib_growth (h := h) (by omega)
      have hcast : (4 : ℝ) * (Nat.fib (h + 2) + 1) ≤ 3 * (Nat.fib (h + 3) + 1) := by
        exact_mod_cast this
      linarith
    have hstep : Real.log (4 / 3) + Real.log (Nat.fib (h + 2) + 1) ≤
        Real.log (Nat.fib (h + 3) + 1) := by
      rw [← Real.log_mul (by norm_num) (by positivity)]
      exact Real.log_le_log (by positivity) hgrowth
    have hfour := log_four_thirds_gt
    rw [show h + 1 + 2 = h + 3 from rfl]
    push_cast
    linarith

/-- Enough for a search path and a single rotation. -/
theorem log_fib_single (h : ℕ) : (h : ℝ) + 2 < 3 * 1.44 * Real.log (Nat.fib (h + 2) + 1) := by
  by_cases hh : 4 ≤ h
  · have := log_fib_double hh
    linarith
  · have hlog := Real.log_two_gt_d9
    have hthree := log_three_gt
    have hfour := log_four_eq
    have hsix := log_six_eq
    have hcases : h = 0 ∨ h = 1 ∨ h = 2 ∨ h = 3 := by omega
    rcases hcases with rfl | rfl | rfl | rfl
    · rw [show Nat.fib (0 + 2) = 1 from rfl, show ((1 : ℕ) : ℝ) + 1 = 2 by norm_num]
      push_cast
      linarith
    · rw [show Nat.fib (1 + 2) = 2 from rfl, show ((2 : ℕ) : ℝ) + 1 = 3 by norm_num]
      push_cast
      linarith
    · rw [show Nat.fib (2 + 2) = 3 from rfl, show ((3 : ℕ) : ℝ) + 1 = 4 by norm_num]
      push_cast
      linarith
    · rw [show Nat.fib (3 + 2) = 5 from rfl, show ((5 : ℕ) : ℝ) + 1 = 6 by norm_num]
      push_cast
      linarith

/-- Enough for a search path. -/
theorem log_fib_path (h : ℕ) : (h : ℝ) - 1 < 3 * 1.44 * Real.log (Nat.fib (h + 2)) := by
  have hsingle := log_fib_single h
  have htwo := Real.log_two_lt_d9
  have hpos : 1 ≤ Nat.fib (h + 2) := Nat.fib_pos.mpr (Nat.succ_pos _)
  have hone : (1 : ℝ) ≤ Nat.fib (h + 2) := by exact_mod_cast hpos
  have hdouble : Real.log (Nat.fib (h + 2) + 1) ≤ Real.log 2 + Real.log (Nat.fib (h + 2)) := by
    rw [← Real.log_mul (by norm_num) (by linarith)]
    exact Real.log_le_log (by linarith) (by linarith)
  linarith

/-- The padding covers a search path. -/
theorem path_le_computePadVal {h x : ℕ} (hx : Nat.fib (h + 2) ≤ x) : h ≤ computePadVal x := by
  rcases h with _ | h
  · exact Nat.zero_le _
  · refine (lt_computePadVal ?_ : h < _).trans_le
      (computePadVal_mono (Nat.fib_pos.mpr (Nat.succ_pos _)) hx)
    have := log_fib_path (h + 1)
    push_cast at this
    linarith

/-- The padding covers a path with a single rotation. -/
theorem single_le_computePadVal {h x : ℕ} (hx : Nat.fib (h + 2) + 1 ≤ x) :
    h + 3 ≤ computePadVal x := by
  refine (lt_computePadVal ?_ : h + 2 < _).trans_le (computePadVal_mono (Nat.succ_pos _) hx)
  push_cast
  exact log_fib_single h

/-- From height 4 on the padding covers a path with a double rotation. -/
theorem double_le_computePadVal {h x : ℕ} (hh : 4 ≤ h) (hx : Nat.fib (h + 2) + 1 ≤ x) :
    h + 6 ≤ computePadVal x := by
  refine (lt_computePadVal ?_ : h + 5 < _).trans_le (computePadVal_mono (Nat.succ_pos _) hx)
  push_cast
  exact log_fib_double hh

/-- The low trees are checked one by one. -/
theorem eight_le_computePadVal {x : ℕ} (hx : 6 ≤ x) : 8 ≤ computePadVal x := by
  refine (lt_computePadVal ?_ : 7 < _).trans_le (computePadVal_mono (by norm_num) hx)
  have := Real.log_two_gt_d9
  have := log_three_gt
  push_cast
  rw [log_six_eq]
  linarith

theorem nine_le_computePadVal {x : ℕ} (hx : 7 ≤ x) : 9 ≤ computePadVal x := by
  refine (lt_computePadVal ?_ : 8 < _).trans_le (computePadVal_mono (by norm_num) hx)
  have := Real.log_two_gt_d9
  have := log_seven_gt
  push_cast
  linarith

/-- With four nodes the padding is too short for a double rotation. -/
theorem computePadVal_four_le : computePadVal 4 ≤ 6 := by
  have := Real.log_two_lt_d9
  refine Nat.ceil_le.mpr ?_
  push_cast
  rw [log_four_eq]
  linarith

/-! ## The accesses of a call -/

variable {V : Type} {A : ArraySetup V}

namespace OdictCall

/-- An insertion into so small a tree that the padding is too short for the double
rotation it takes. -/
def Cramped (n : ℕ) (t : OdsTree V) : OdictCall V → Prop
  | insert kvPair => t.Squeezed OdsEntry.key kvPair.1 ∧
      (n = 3 ∨ n = 4 ∨ n = 5 ∧ t.numNodes = 4)
  | find _ => False

theorem writePrice_le (ρ : Rotation) : OdictController.writePrice ρ ≤ OdictController.readPrice ρ := by
  cases ρ <;> decide

/-- There are no more writes than reads. -/
theorem writes_le_reads (n : ℕ) (t : OdsTree V) (c : OdictCall V) : c.writes n t ≤ c.reads n t := by
  rw [writes, reads]
  split
  · exact Nat.add_le_add_left (writePrice_le _) _
  · exact Nat.zero_le _

/-- A double rotation in a tree of height three or less. -/
theorem double_of_low {n : ℕ} {t : OdsTree V} (ht : OdsTree.Proper A n t) {kvPair : ℕ × V}
    (hρ : t.insertRotation OdsEntry.key ⟨n, kvPair⟩ = .double)
    (hc : ¬(insert kvPair).Cramped n t) (hlow : t.height < 4) :
    t.height + 6 ≤ computePadVal (n + 1) := by
  have hfib := BinaryTree.fib_height_le ht.balanced
  have hsize := ht.size_lt
  by_cases hmany : 5 ≤ t.numNodes
  · have := nine_le_computePadVal (x := n + 1) (by omega)
    omega
  · -- so few nodes that the key is squeezed in
    have hsqueezed := BinaryTree.squeezed_of_double ht.balanced (by omega) hρ
    have htwo := BinaryTree.two_le_of_squeezed hsqueezed
    have hcount : ¬(n = 3 ∨ n = 4 ∨ n = 5 ∧ t.numNodes = 4) := fun h => hc ⟨hsqueezed, h⟩
    by_cases hthree : t.height = 3
    · rw [hthree] at hfib
      have := nine_le_computePadVal (x := n + 1) (by
        have : Nat.fib (3 + 2) = 5 := rfl
        omega)
      omega
    · have := eight_le_computePadVal (x := n + 1) (by omega)
      omega

/-- **The padding suffices for a call on a proper tree** that is not cramped. -/
theorem reads_le_computePadVal {n : ℕ} {t : OdsTree V} (ht : OdsTree.Proper A n t) (c : OdictCall V)
    (hc : ¬c.Cramped n t) : c.reads n t ≤ computePadVal (c.count n) := by
  have hfib := BinaryTree.fib_height_le ht.balanced
  have hsize := ht.size_lt
  have hpath : (t.path OdsEntry.key c.key).length ≤ t.height := BinaryTree.length_path_le c.key t
  cases c with
  | find key =>
    show _ ≤ computePadVal n
    exact hpath.trans (path_le_computePadVal (by omega))
  | insert kvPair =>
    rw [reads, rotation, count]
    rcases hρ : t.insertRotation OdsEntry.key ⟨n, kvPair⟩ with _ | _ | _
    · have := single_le_computePadVal (h := t.height) (x := n + 1) (by omega)
      rw [OdictController.readPrice]
      omega
    · have := single_le_computePadVal (h := t.height) (x := n + 1) (by omega)
      rw [OdictController.readPrice]
      omega
    · rw [OdictController.readPrice]
      by_cases hhigh : 4 ≤ t.height
      · have := double_le_computePadVal hhigh (x := n + 1) (by omega)
        omega
      · have := double_of_low ht hρ hc (by omega)
        omega

variable [Inhabited V]

/-- A call that finds room in the cache and is not cramped gets what it needs. -/
theorem Holds.safe {past : List (OdictCall V)} {t : OdsTree V} {w : ArrayOdict V}
    (hw : Holds A past t w) (hwidth : A.last < 2 ^ 32) (hpad : A.computePadVal = computePadVal)
    {c : OdictCall V} (hroom : (inserted (past ++ [c])).length ≤ A.last)
    (hcount : (inserted (past ++ [c])).length + 1 < 2 ^ 32) (hcache : CacheSuffices A c w)
    (hc : ¬c.Cramped w.nodeCount w.storedTree) : Safe A c w := by
  rw [hw.storedTree_eq] at hc
  have hsmall : c.count w.nodeCount < 2 ^ 32 := by
    rw [hw.nodeCount_eq]
    rw [inserted_append, List.length_append] at hcount
    cases c with
    | insert kvPair => exact hcount
    | find key => exact hcount
  have hreads := reads_le_computePadVal hw.toProper c hc
  refine ⟨.inl hcache, (padded_iff hw.toRests c (hw.nodeCount_le hroom) hwidth (.inl hcache)).mpr ?_⟩
  rw [Nat.mod_eq_of_lt hsmall, hpad]
  exact ⟨hreads, (writes_le_reads _ _ _).trans hreads⟩

/-- **The padding suffices** in a run in which every insertion finds room in the
cache and is not cramped: at every `OdsFinalize` both counts are at most
`3 * 1.44 * ln` of `node_count_`, rounded up, and no call aborts. -/
theorem odict_padding_suffices (hwidth : A.last < 2 ^ 32) (hpad : A.computePadVal = computePadVal)
    (o : ℕ → TreeNode V) (past : List (OdictCall V)) (c : OdictCall V)
    (hroom : (inserted (past ++ [c])).length ≤ A.last)
    (hcount : (inserted (past ++ [c])).length + 1 < 2 ^ 32)
    (hsafe : Prog.Along Exit.fatal (run A.config)
      (fun c w => CacheSuffices A c w ∧ ¬c.Cramped w.nodeCount w.storedTree) (past ++ [c]) (new o)) :
    ∃ (outs : List (Option (TreeNode V))) (w : ArrayOdict V) (ans : Option (TreeNode V))
        (w₁ w' : ArrayOdict V),
      Prog.trace Exit.fatal (run A.config) past (new o) = some (outs.map .ok, w) ∧
      c.access A.config w = (.ok ans, w₁) ∧
      w₁.readCount ≤ ⌈3 * 1.44 * Real.log w₁.nodeCount⌉₊ ∧
      w₁.writeCount ≤ ⌈3 * 1.44 * Real.log w₁.nodeCount⌉₊ ∧
      ∃ ans, c.run A.config w = (.ok ans, w') := by
  obtain ⟨hpast, hlast⟩ := hsafe.append
  obtain ⟨outs, w, t, htrace, hw⟩ := holds_of_trace hwidth o
    ((inserted_length_le past [c]).trans hroom)
    (fun before d t w hlength hw hd => hw.safe hwidth hpad
      (hlength.trans ((inserted_length_le past [c]).trans hroom))
      (Nat.lt_of_le_of_lt (Nat.succ_le_succ
        (hlength.trans (inserted_length_le past [c]))) hcount) hd.1 hd.2) hpast
  obtain ⟨hcache, hcramped⟩ := (hlast _ _ htrace).1
  have hgood := hw.safe hwidth hpad hroom hcount hcache hcramped
  obtain ⟨_, w₁, haccess, hw₁, -⟩ :=
    access_spec hw.toRests c (hw.nodeCount_le hroom) hwidth (.inl hcache)
  obtain ⟨w', hcall, -⟩ := run_spec hw.toRests c (hw.nodeCount_le hroom) hwidth hgood
  have hreads := reads_le_computePadVal hw.toProper c (hw.storedTree_eq ▸ hcramped)
  refine ⟨outs, w, _, w₁, w', htrace, haccess, ?_, ?_, _, hcall⟩
  · rw [hw₁.readCount_eq, hw₁.nodeCount_eq]
    exact hreads
  · rw [hw₁.writeCount_eq, hw₁.nodeCount_eq]
    exact (writes_le_reads _ _ _).trans hreads

/-! ### A small instance -/

/-- Four addresses, a cache of four nodes, and the padding of the source. -/
noncomputable def realOdict : ArraySetup ℕ where
  last := 4
  clientCacheMaxSize := 4
  computePadVal := computePadVal
  garbage := ⟨⟨0, .kDummy, 0⟩, .new 0⟩

/-- An insertion into a tree that is known. -/
theorem realOdict_insert {past : List (OdictCall ℕ)} {t : OdsTree ℕ} {w : ArrayOdict ℕ}
    (hw : Holds realOdict past t w) (kvPair : ℕ × ℕ)
    (hroom : (inserted (past ++ [insert kvPair])).length ≤ 4)
    (hpath : (t.path OdsEntry.key kvPair.1).length < 4) :
    CacheSuffices realOdict (insert kvPair) w ∧
    (¬(insert kvPair).Cramped w.nodeCount t → ∃ ans w',
      (insert kvPair).run realOdict.config w = (.ok ans, w') ∧
      Holds realOdict (past ++ [insert kvPair])
        (t.avlInsert OdsEntry.key ⟨(inserted past).length + 1, kvPair⟩) w') := by
  have hcache : CacheSuffices realOdict (insert kvPair) w := by
    rw [CacheSuffices, hw.storedTree_eq]
    exact fun _ => hpath
  refine ⟨hcache, fun hc => ?_⟩
  have hgood := hw.safe (by decide : 4 < 2 ^ 32) rfl hroom
    ((Nat.succ_le_succ hroom).trans_lt (by decide)) hcache (hw.storedTree_eq.symm ▸ hc)
  obtain ⟨w', hcall, hw', hcount, -⟩ := run_spec hw.toRests (insert kvPair)
    (hw.nodeCount_le hroom) (by decide : 4 < 2 ^ 32) hgood
  have hnext := hw.next _ hw' hcount
  rw [after, hw.nodeCount_eq] at hnext
  exact ⟨_, w', hcall, hnext⟩

theorem odict_padding_suffices_small :
    ∃ (outs : List (Option (TreeNode ℕ))) (w : ArrayOdict ℕ) (ans : Option (TreeNode ℕ))
        (w₁ : ArrayOdict ℕ),
      Prog.trace Exit.fatal (run realOdict.config) [insert (1, 10)] (new .new) =
        some (outs.map .ok, w) ∧
      (insert (3, 30)).access realOdict.config w = (.ok ans, w₁) ∧
      w₁.readCount ≤ ⌈3 * 1.44 * Real.log w₁.nodeCount⌉₊ := by
  obtain ⟨hcache₁, hstep₁⟩ := realOdict_insert (holds_new realOdict .new) (1, 10) (by decide)
    (by decide)
  have hcramped₁ : ¬(insert (1, 10)).Cramped 1 (nil : OdsTree ℕ) := fun h => h.1.elim
  obtain ⟨ans, w', hcall, hw'⟩ := hstep₁ hcramped₁
  obtain ⟨hcache₂, -⟩ := realOdict_insert hw' (3, 30) (by decide) (by decide)
  have hcramped₂ : ¬(insert (3, 30)).Cramped w'.nodeCount w'.storedTree := by
    rw [hw'.nodeCount_eq]
    rintro ⟨-, h | h | h⟩
    · exact absurd h (by decide)
    · exact absurd h (by decide)
    · exact absurd h.1 (by decide)
  obtain ⟨outs, w, ans, w₁, -, htrace, haccess, hreads, -⟩ := odict_padding_suffices
    (A := realOdict) (by decide : 4 < 2 ^ 32) rfl .new [insert (1, 10)] (insert (3, 30))
    (by decide : 2 ≤ 4) (by decide)
    (.cons ⟨hcache₁, hcramped₁⟩ (hcall ▸ .cons ⟨hcache₂, hcramped₂⟩ trivial))
  exact ⟨outs, w, ans, w₁, htrace, haccess, hreads⟩

/-- Keys 1, 3 and 2: the double rotation brings the reads to eight, and the bound
for four is six. -/
theorem odict_padding_falls_short :
    ∃ (outs : List (Option (TreeNode ℕ))) (w : ArrayOdict ℕ),
      Prog.trace Exit.fatal (run realOdict.config) [insert (1, 10), insert (3, 30)] (new .new) =
        some (outs.map .ok, w) ∧
      ((insert (2, 20)).access realOdict.config w).2.nodeCount = 4 ∧
      ⌈3 * 1.44 * Real.log (4 : ℕ)⌉₊ < ((insert (2, 20)).access realOdict.config w).2.readCount := by
  obtain ⟨-, hstep₁⟩ := realOdict_insert (holds_new realOdict .new) (1, 10) (by decide) (by decide)
  obtain ⟨ans₁, w₁, hcall₁, hw₁⟩ := hstep₁ fun h => h.1.elim
  obtain ⟨-, hstep₂⟩ := realOdict_insert hw₁ (3, 30) (by decide) (by decide)
  obtain ⟨ans₂, w₂, hcall₂, hw₂⟩ := hstep₂ fun h => by
    rw [hw₁.nodeCount_eq] at h
    rcases h.2 with h | h | h
    · exact absurd h (by decide)
    · exact absurd h (by decide)
    · exact absurd h.1 (by decide)
  obtain ⟨hcache, -⟩ := realOdict_insert hw₂ (2, 20) (by decide) (by decide)
  obtain ⟨heap, w₃, haccess, hw₃, -⟩ := access_spec hw₂.toRests (insert (2, 20))
    (hw₂.nodeCount_le (by decide : 3 ≤ 4)) (by decide : 4 < 2 ^ 32) (.inl hcache)
  refine ⟨[ans₁, ans₂], w₂, ?_, ?_, ?_⟩
  · rw [Prog.trace_cons_ok hcall₁, Prog.trace_cons_ok hcall₂]
    rfl
  · rw [haccess, hw₃.nodeCount_eq, hw₂.nodeCount_eq]
    rfl
  · rw [haccess, hw₃.readCount_eq, hw₂.nodeCount_eq]
    refine computePadVal_four_le.trans_lt ?_
    decide

end OdictCall

end ObliviousRam
