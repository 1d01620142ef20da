import ObliviousRam.Prog
import Mathlib.Data.List.Induction

set_option autoImplicit false

/-!
# Sequences of calls

A client makes one call after the other on the same state. Some stops end the
process (`fatal`), after which there is no state to speak of; the others are
reported to the client, which goes on.

* `Prog.trace` — the outcomes of a sequence of calls and the state it ends in,
  or `none` if the process did not survive it.
* `Prog.Along` — a condition that every call of a sequence meets in the state it
  is made in.
* three induction rules for a relation between the **history** and the state:
  `trace_total` shows that a sequence goes through, `trace_history` is about the
  sequences that did, and `along_iff_history` about conditions that are exact.
* `Prog.forEach` — the loop inside a program, with the same two rules.
* `latest` — what a memory holds after a history: the abstract object a store
  implements.

Nothing here mentions an oblivious RAM.
-/

namespace ObliviousRam

namespace Prog

variable {ε σ ι α : Type} (fatal : ε → Bool) (call : ι → Prog ε σ α)

/-- The outcome of a program and the state it leaves, unless it takes the process down. -/
def survive (m : Prog ε σ α) (s : σ) : Option (Except ε α × σ) :=
  match m s with
  | (.ok a, s') => some (.ok a, s')
  | (.error e, s') => if fatal e then none else some (.error e, s')

/-- A sequence of calls. -/
def trace : List ι → σ → Option (List (Except ε α) × σ)
  | [], s => some ([], s)
  | i :: is, s =>
    match survive fatal (call i) s with
    | none => none
    | some (r, s') => (trace is s').map fun t => (r :: t.1, t.2)

/-- Every call of the sequence meets `cond` in the state it is made in. -/
def Along (cond : ι → σ → Prop) : List ι → σ → Prop
  | [], _ => True
  | i :: is, s => cond i s ∧ ∀ r s', survive fatal (call i) s = some (r, s') → Along cond is s'

variable {fatal call} {cond : ι → σ → Prop}

/-- A call that returns is survived. -/
theorem survive_ok {m : Prog ε σ α} {s s' : σ} {a : α} (hm : m s = (.ok a, s')) :
    survive fatal m s = some (.ok a, s') := by
  rw [survive, hm]

theorem survive_error {m : Prog ε σ α} {s s' : σ} {e : ε} (hm : m s = (.error e, s'))
    (he : fatal e = false) : survive fatal m s = some (.error e, s') := by
  rw [survive, hm]
  exact if_neg (he ▸ Bool.false_ne_true)

/-- Inversion: what a process survives is an outcome of the program. -/
theorem eq_of_survive {m : Prog ε σ α} {s s' : σ} {r : Except ε α}
    (h : survive fatal m s = some (r, s')) :
    m s = (r, s') ∧ ∀ e, r = .error e → fatal e = false := by
  rw [survive] at h
  rcases hm : m s with ⟨e | a, s₁⟩
  · rcases hf : fatal e with _ | _
    · simp only [hm, hf, Bool.false_eq_true, if_false] at h
      cases h
      exact ⟨rfl, fun e' he => by cases he; exact hf⟩
    · simp only [hm, hf, if_true] at h
      cases h
  · rw [hm] at h
    cases h
    exact ⟨rfl, fun e he => by cases he⟩

/-- Inversion: what a process does not survive is a fatal stop. -/
theorem eq_of_survive_none {m : Prog ε σ α} {s : σ} (h : survive fatal m s = none) :
    ∃ e s', m s = (.error e, s') ∧ fatal e = true := by
  rcases hm : m s with ⟨e | a, s'⟩
  · rcases hf : fatal e with _ | _
    · rw [survive_error hm hf] at h
      cases h
    · exact ⟨e, s', rfl, hf⟩
  · rw [survive_ok hm] at h
    cases h

theorem Along.of_forall {is : List ι} (h : ∀ i ∈ is, ∀ s, cond i s) (s : σ) :
    Along fatal call cond is s := by
  induction is generalizing s with
  | nil => trivial
  | cons i is ih =>
    exact ⟨h i List.mem_cons_self s, fun r s' _ =>
      ih (fun j hj => h j (List.mem_cons_of_mem _ hj)) s'⟩

/-- The state that a call leaves is the only one to go on from. -/
theorem Along.cons {i : ι} {is : List ι} {s : σ} (h : cond i s)
    (hrest : Along fatal call cond is (call i s).2) : Along fatal call cond (i :: is) s := by
  refine ⟨h, fun r s' hcall => ?_⟩
  have hs' : (call i s).2 = s' := congrArg Prod.snd (eq_of_survive hcall).1
  exact hs' ▸ hrest

theorem trace_cons_ok {i : ι} {is : List ι} {s s' : σ} {a : α} (hm : call i s = (.ok a, s')) :
    trace fatal call (i :: is) s =
      (trace fatal call is s').map fun t => (.ok a :: t.1, t.2) := by
  rw [trace, survive_ok hm]

/-- Inversion: the first call of a run is survived, and the others make a run. -/
theorem trace_cons_eq_some {i : ι} {is : List ι} {s s' : σ} {rs : List (Except ε α)}
    (h : trace fatal call (i :: is) s = some (rs, s')) :
    ∃ r s₁ rs', survive fatal (call i) s = some (r, s₁) ∧
      trace fatal call is s₁ = some (rs', s') ∧ rs = r :: rs' := by
  rw [trace] at h
  rcases hcall : survive fatal (call i) s with _ | ⟨r, s₁⟩
  · rw [hcall] at h
    cases h
  · rw [hcall] at h
    obtain ⟨⟨rs', s₂⟩, hrest, he⟩ := Option.map_eq_some_iff.mp h
    cases he
    exact ⟨r, s₁, rs', rfl, hrest, rfl⟩

/-- One more call at the end of a run. -/
theorem trace_concat {is : List ι} {i : ι} {s s₁ s' : σ} {rs : List (Except ε α)}
    {r : Except ε α} (hrun : trace fatal call is s = some (rs, s₁))
    (hcall : survive fatal (call i) s₁ = some (r, s')) :
    trace fatal call (is ++ [i]) s = some (rs ++ [r], s') := by
  induction is generalizing s rs with
  | nil =>
    cases hrun
    rw [List.nil_append, trace, hcall]
    rfl
  | cons j is ih =>
    obtain ⟨r₀, s₀, rs₀, hfirst, hrest, rfl⟩ := trace_cons_eq_some hrun
    rw [List.cons_append, trace, hfirst]
    simp only [ih hrest, Option.map_some, List.cons_append]

/-- Inversion: a run of two sequences is a run of the one and then of the other. -/
theorem trace_append_eq_some {is js : List ι} {s s' : σ} {rs : List (Except ε α)}
    (h : trace fatal call (is ++ js) s = some (rs, s')) :
    ∃ rs₁ s₁ rs₂, trace fatal call is s = some (rs₁, s₁) ∧
      trace fatal call js s₁ = some (rs₂, s') ∧ rs = rs₁ ++ rs₂ := by
  induction is generalizing s rs with
  | nil => exact ⟨[], s, rs, rfl, h, rfl⟩
  | cons i is ih =>
    rw [List.cons_append] at h
    obtain ⟨r, s₀, rs₀, hfirst, hrest, rfl⟩ := trace_cons_eq_some h
    obtain ⟨rs₁, s₁, rs₂, his, hjs, rfl⟩ := ih hrest
    refine ⟨r :: rs₁, s₁, rs₂, ?_, hjs, rfl⟩
    rw [trace, hfirst]
    simp only [his, Option.map_some]

/-- Every call of a run has an outcome. -/
theorem length_trace {is : List ι} {s s' : σ} {rs : List (Except ε α)}
    (hrun : trace fatal call is s = some (rs, s')) : rs.length = is.length := by
  induction is generalizing s rs with
  | nil =>
    cases hrun
    rfl
  | cons i is ih =>
    obtain ⟨r, s₁, rs', -, hrest, rfl⟩ := trace_cons_eq_some hrun
    exact congrArg Nat.succ (ih hrest)

/-- All outcomes are values if that of each call is. -/
theorem exists_eq_map_ok {is : List ι} {rs : List (Except ε α)}
    (hlength : rs.length = is.length) (h : ∀ i r, (i, r) ∈ is.zip rs → ∃ a, r = .ok a) :
    ∃ outs : List α, rs = outs.map .ok := by
  induction is generalizing rs with
  | nil => exact ⟨[], List.eq_nil_of_length_eq_zero hlength⟩
  | cons i is ih =>
    obtain ⟨r, rs, rfl⟩ := List.exists_cons_of_length_eq_add_one hlength
    obtain ⟨a, rfl⟩ := h i r (by simp)
    obtain ⟨outs, rfl⟩ := ih (Nat.succ.inj hlength) fun j r hj =>
      h j r (by rw [List.zip_cons_cons]; exact List.mem_cons_of_mem _ hj)
    exact ⟨a :: outs, rfl⟩

/-- **The rule for total runs.** If a call made under the condition returns, and
the relation between history and state goes on, then a whole sequence of such
calls returns. -/
theorem trace_total (fatal : ε → Bool) (cond : ι → σ → Prop) (R : List ι → σ → Prop) {is : List ι}
    (hstep : ∀ past i rest s, is = past ++ i :: rest → cond i s → R past s →
      ∃ a s', call i s = (.ok a, s') ∧ R (past ++ [i]) s')
    {s : σ} (hR : R [] s) (hcond : Along fatal call cond is s) :
    ∃ (outs : List α) (s' : σ), trace fatal call is s = some (outs.map .ok, s') ∧ R is s' := by
  -- the calls still to be made, from where the ones before have led
  have hfrom : ∀ rest past s, is = past ++ rest → R past s → Along fatal call cond rest s →
      ∃ (outs : List α) (s' : σ),
        trace fatal call rest s = some (outs.map .ok, s') ∧ R is s' := by
    intro rest
    induction rest with
    | nil =>
      intro past s his hR _
      rw [List.append_nil] at his
      exact ⟨[], s, rfl, his ▸ hR⟩
    | cons i rest ih =>
      intro past s his hR hcond
      obtain ⟨a, s', hcall, hR'⟩ := hstep past i rest s his hcond.1 hR
      obtain ⟨outs, s'', hrest, hR''⟩ := ih (past ++ [i]) s'
        (by rw [his, List.append_assoc, List.singleton_append]) hR' (hcond.2 _ _ (survive_ok hcall))
      refine ⟨a :: outs, s'', ?_, hR''⟩
      rw [trace_cons_ok hcall, hrest]
      rfl
  exact hfrom is [] s rfl hR hcond

/-- **The rule for runs that went through.** If every call that the process
survives keeps the relation between the history, outcomes included, and the
state, then so does a whole sequence. -/
theorem trace_history (fatal : ε → Bool) (cond : ι → σ → Prop)
    (R : List (ι × Except ε α) → σ → Prop)
    (hstep : ∀ past i s r s', cond i s → R past s →
      survive fatal (call i) s = some (r, s') → R (past ++ [(i, r)]) s')
    {is : List ι} (past : List (ι × Except ε α)) {s s' : σ} {rs : List (Except ε α)}
    (hR : R past s) (hcond : Along fatal call cond is s)
    (hrun : trace fatal call is s = some (rs, s')) : R (past ++ is.zip rs) s' := by
  induction is generalizing past s rs with
  | nil =>
    cases hrun
    rw [List.zip_nil_left, List.append_nil]
    exact hR
  | cons i is ih =>
    obtain ⟨r, s₁, rs', hcall, hrest, rfl⟩ := trace_cons_eq_some hrun
    have hR' := ih _ (hstep past i s r s₁ hcond.1 hR hcall) (hcond.2 r s₁ hcall) hrest
    rw [List.append_assoc, List.singleton_append] at hR'
    exact hR'

/-- What holds of every call of a sequence can be added to the condition. -/
theorem Along.and {good : ι → Prop} {is : List ι} {s : σ} (hgood : ∀ i ∈ is, good i)
    (h : Along fatal call cond is s) : Along fatal call (fun i s => good i ∧ cond i s) is s := by
  induction is generalizing s with
  | nil => trivial
  | cons i is ih =>
    exact ⟨⟨hgood i List.mem_cons_self, h.1⟩, fun r s' hcall =>
      ih (fun j hj => hgood j (List.mem_cons_of_mem _ hj)) (h.2 r s' hcall)⟩

/-- A condition along a sequence is one along its two parts, the second from where the
first ends. -/
theorem Along.append {is js : List ι} {s : σ} (h : Along fatal call cond (is ++ js) s) :
    Along fatal call cond is s ∧ ∀ rs s', trace fatal call is s = some (rs, s') →
      Along fatal call cond js s' := by
  induction is generalizing s with
  | nil =>
    refine ⟨trivial, fun rs s' hrun => ?_⟩
    cases hrun
    exact h
  | cons i is ih =>
    refine ⟨⟨h.1, fun r s₁ hcall => (ih (h.2 r s₁ hcall)).1⟩, fun rs s' hrun => ?_⟩
    obtain ⟨r, s₁, rs', hcall, hrest, rfl⟩ := trace_cons_eq_some hrun
    exact (ih (h.2 r s₁ hcall)).2 rs' s' hrest

/-- Under an invariant of the calls, an exact condition can take the place of another. -/
theorem along_iff_of_invariant {cond' : ι → σ → Prop} (I : σ → Prop)
    (hiff : ∀ i s, I s → (cond i s ↔ cond' i s))
    (hkeep : ∀ i s r s', I s → cond' i s → survive fatal (call i) s = some (r, s') → I s')
    (is : List ι) {s : σ} (hI : I s) :
    Along fatal call cond is s ↔ Along fatal call cond' is s := by
  induction is generalizing s with
  | nil => exact Iff.rfl
  | cons i is ih =>
    constructor
    · rintro ⟨hcond, hrest⟩
      have hcond' := (hiff i s hI).mp hcond
      exact ⟨hcond', fun r s' hcall =>
        (ih (hkeep i s r s' hI hcond' hcall)).mp (hrest r s' hcall)⟩
    · rintro ⟨hcond', hrest⟩
      exact ⟨(hiff i s hI).mpr hcond', fun r s' hcall =>
        (ih (hkeep i s r s' hI hcond' hcall)).mpr (hrest r s' hcall)⟩

/-- **The rule for exact conditions.** If, where `Q` holds of history and state,
a call leads to a state where it holds again exactly when the call meets `cond`,
then `Q` holds after every call of a sequence exactly when all calls meet `cond`. -/
theorem along_iff_history {good : ι → Prop} {I : σ → Prop} (Q : List ι → σ → Prop)
    (hstep : ∀ past i s, good i → I s → Q past s →
      (survive fatal (call i) s = none → cond i s) ∧
        ∀ r s', survive fatal (call i) s = some (r, s') →
          I s' ∧ (Q (past ++ [i]) s' ↔ cond i s))
    {is : List ι} (hgood : ∀ i ∈ is, good i) (past : List ι) {s : σ} (hI : I s) (hQ : Q past s) :
    (∀ done rest, is = done ++ rest → ∀ rs s', trace fatal call done s = some (rs, s') →
      Q (past ++ done) s') ↔ Along fatal call cond is s := by
  induction is generalizing past s with
  | nil =>
    refine ⟨fun _ => trivial, fun _ done rest he rs s' hrun => ?_⟩
    obtain ⟨rfl, -⟩ := List.append_eq_nil_iff.mp he.symm
    cases hrun
    rw [List.append_nil]
    exact hQ
  | cons i is ih =>
    obtain ⟨hdead, halive⟩ := hstep past i s (hgood i List.mem_cons_self) hI hQ
    have hrest : ∀ j ∈ is, good j := fun j hj => hgood j (List.mem_cons_of_mem _ hj)
    have hfirst : ∀ r s₁, survive fatal (call i) s = some (r, s₁) →
        trace fatal call [i] s = some ([r], s₁) := by
      intro r s₁ hcall
      rw [trace, hcall]
      rfl
    constructor
    · intro h
      have hcond : cond i s := by
        rcases hcall : survive fatal (call i) s with _ | ⟨r, s₁⟩
        · exact hdead hcall
        · exact (halive r s₁ hcall).2.mp (h [i] is rfl _ _ (hfirst r s₁ hcall))
      refine ⟨hcond, fun r s₁ hcall => ?_⟩
      obtain ⟨hI₁, hQ₁⟩ := halive r s₁ hcall
      refine (ih hrest (past ++ [i]) hI₁ (hQ₁.mpr hcond)).mp fun done rest he rs s₂ hrun => ?_
      rw [List.append_assoc, List.singleton_append]
      refine h (i :: done) rest (by rw [he, List.cons_append]) (r :: rs) s₂ ?_
      rw [trace, hcall]
      simp only [hrun, Option.map_some]
    · rintro ⟨hcond, htail⟩ done rest he rs s₂ hrun
      rcases done with _ | ⟨j, done⟩
      · cases hrun
        rw [List.append_nil]
        exact hQ
      · rw [List.cons_append] at he
        obtain ⟨hij, hdone⟩ := List.cons_eq_cons.mp he
        subst hij
        obtain ⟨r, s₁, rs', hcall, hrun', rfl⟩ := trace_cons_eq_some hrun
        obtain ⟨hI₁, hQ₁⟩ := halive r s₁ hcall
        have hlast := (ih hrest (past ++ [i]) hI₁ (hQ₁.mpr hcond)).mpr (htail r s₁ hcall) done
          rest hdone rs' s₂ hrun'
        rw [List.append_assoc, List.singleton_append] at hlast
        exact hlast

/-- **The rule for conditions on the history.** If along every run, which never
breaks off, `cond` says of a call in its state what `cond'` says of it after its
history, then all calls of a sequence meet the one exactly if they meet the other. -/
theorem along_iff_forall_history (R : List ι → σ → Prop) (cond' : List ι → ι → Prop)
    {good : ι → Prop}
    (hstep : ∀ past i s, good i → R past s → (cond i s ↔ cond' past i) ∧
      ∃ r s', survive fatal (call i) s = some (r, s') ∧ R (past ++ [i]) s')
    {is : List ι} (hgood : ∀ i ∈ is, good i) (past : List ι) {s : σ} (hR : R past s) :
    Along fatal call cond is s ↔
      ∀ done i rest, is = done ++ i :: rest → cond' (past ++ done) i := by
  induction is generalizing past s with
  | nil =>
    refine ⟨fun _ done i rest he => ?_, fun _ => trivial⟩
    exact absurd he.symm (List.append_ne_nil_of_right_ne_nil _ (List.cons_ne_nil _ _))
  | cons i is ih =>
    obtain ⟨hiff, r, s', hcall, hR'⟩ := hstep past i s (hgood i List.mem_cons_self) hR
    have hrest := ih (fun j hj => hgood j (List.mem_cons_of_mem _ hj)) (past ++ [i]) hR'
    constructor
    · rintro ⟨hcond, htail⟩ done j rest he
      rcases done with _ | ⟨k, done⟩
      · cases he
        rw [List.append_nil]
        exact hiff.mp hcond
      · obtain ⟨hik, hdone⟩ := List.cons_eq_cons.mp he
        subst hik
        have h := hrest.mp (htail r s' hcall) done j rest hdone
        rwa [List.append_assoc, List.singleton_append] at h
    · intro h
      have hhead := h [] i is rfl
      rw [List.append_nil] at hhead
      refine ⟨hiff.mpr hhead, fun r₁ s₁ hcall₁ => ?_⟩
      cases hcall.symm.trans hcall₁
      refine hrest.mpr fun done j rest he => ?_
      rw [List.append_assoc, List.singleton_append]
      exact h (i :: done) j rest (by rw [he, List.cons_append])

/-- Calls that agree from related states agree in every sequence. -/
theorem trace_relates {τ : Type} {call' : ι → Prog ε τ α} {R : σ → τ → Prop}
    (hstep : ∀ i, Relates R Eq (call i) (call' i)) :
    ∀ (is : List ι) {s : σ} {t : τ}, R s t →
      (trace fatal call is s).map Prod.fst = (trace fatal call' is t).map Prod.fst
  | [], _, _, _ => rfl
  | i :: is, s, t, hR => by
    obtain ⟨hagree, hR'⟩ := hstep i s t hR
    rw [agree_eq] at hagree
    rw [trace, trace, survive, survive]
    rcases h : call i s with ⟨e | a, s'⟩ <;> rcases h' : call' i t with ⟨e' | a', t'⟩ <;>
      rw [h, h'] at hagree hR'
    · cases hagree
      rcases hf : fatal e with _ | _
      · have hrest := trace_relates hstep is hR'
        simp only [hf, Bool.false_eq_true, if_false, Option.map_map, Function.comp_def]
        rw [← Function.comp_def (List.cons (Except.error e)), ← Option.map_map, hrest, Option.map_map]
        rfl
      · simp only [hf, if_true]
        rfl
    · cases hagree
    · cases hagree
    · cases hagree
      have hrest := trace_relates hstep is hR'
      simp only [Option.map_map, Function.comp_def]
      rw [← Function.comp_def (List.cons (Except.ok a)), ← Option.map_map, hrest, Option.map_map]
      rfl

/-! ## Loops

The loops of the source stop with the first call that fails. `forEach` is that loop, and
its two rules are those of sequences of calls, with an invariant that knows how far the
loop has come. -/

/-- Run a program for every element of a list; the first stop ends the loop. -/
def forEach (body : ι → Prog ε σ Unit) : List ι → Prog ε σ Unit
  | [] => pure ()
  | i :: is => do
    body i
    forEach body is

/-- A condition that every iteration of a loop meets, as long as the loop runs. -/
def EachTime (body : ι → Prog ε σ Unit) (cond : ι → σ → Prop) : List ι → σ → Prop :=
  Along (fun _ => true) body cond

/-- A loop whose iterations return and keep `I` returns and keeps `I`. -/
theorem forEach_total {body : ι → Prog ε σ Unit} (I : σ → Prop)
    (hstep : ∀ i s, cond i s → I s → ∃ s', body i s = (.ok (), s') ∧ I s') :
    ∀ (is : List ι) (s : σ), I s → EachTime body cond is s →
      ∃ s', forEach body is s = (.ok (), s') ∧ I s'
  | [], s, hI, _ => ⟨s, rfl, hI⟩
  | i :: is, s, hI, hcond => by
    obtain ⟨s₁, hbody, hI₁⟩ := hstep i s hcond.1 hI
    obtain ⟨s', hrest, hI'⟩ := forEach_total I hstep is s₁ hI₁ (hcond.2 _ _ (survive_ok hbody))
    refine ⟨s', ?_, hI'⟩
    rw [forEach, bind_ok hbody]
    exact hrest

/-- A loop that returned kept what its iterations keep when they return. -/
theorem forEach_ok {body : ι → Prog ε σ Unit} (I : σ → Prop)
    (hstep : ∀ i s s', cond i s → I s → body i s = (.ok (), s') → I s') :
    ∀ (is : List ι) (s s' : σ), I s → EachTime body cond is s →
      forEach body is s = (.ok (), s') → I s'
  | [], _, _, hI, _, hrun => by
    cases hrun
    exact hI
  | i :: is, s, s', hI, hcond, hrun => by
    obtain ⟨_, s₁, hbody, hrest⟩ := bind_eq_ok hrun
    exact forEach_ok I hstep is s₁ s' (hstep i s s₁ hcond.1 hI hbody)
      (hcond.2 _ _ (survive_ok hbody)) hrest

end Prog

/-! ## Memories

What a store is for is said by the last write to each key. `latest` computes it from a
history, and the theorems on stores compare what a read returns with it. -/

variable {ι κ υ : Type}

/-- What a memory holds under key `a` after the calls `past`: the value the last
of them to write `a` has written, or the initial one. `written i a` is the value
call `i` writes under `a`, if it does. -/
def latest (written : ι → κ → Option υ) (initial : κ → Option υ) (past : List ι) (a : κ) :
    Option υ :=
  (past.reverse.findSome? (written · a)).or (initial a)

theorem latest_nil (written : ι → κ → Option υ) (initial : κ → Option υ) (a : κ) :
    latest written initial [] a = initial a := rfl

theorem latest_snoc (written : ι → κ → Option υ) (initial : κ → Option υ) (past : List ι) (i : ι)
    (a : κ) :
    latest written initial (past ++ [i]) a =
      (written i a).or (latest written initial past a) := by
  rw [latest, latest, List.reverse_append, List.reverse_singleton, List.singleton_append,
    List.findSome?_cons]
  rcases written i a with _ | v
  · rfl
  · rfl

/-- Part of the value. -/
theorem latest_map {υ' : Type} (f : υ → υ') (written : ι → κ → Option υ)
    (initial : κ → Option υ) (past : List ι) (a : κ) :
    latest (fun i a => (written i a).map f) (fun a => (initial a).map f) past a =
      (latest written initial past a).map f := by
  induction past using List.reverseRecOn with
  | nil => rfl
  | append_singleton past i ih =>
    rw [latest_snoc, latest_snoc, ih]
    rcases written i a with _ | v
    · rfl
    · rfl

/-- The same calls under another name. -/
theorem latest_map_list {ι' : Type} (f : ι' → ι) (written : ι → κ → Option υ)
    (initial : κ → Option υ) (past : List ι') (a : κ) :
    latest written initial (past.map f) a = latest (fun i => written (f i)) initial past a := by
  induction past using List.reverseRecOn with
  | nil => rfl
  | append_singleton past i ih => rw [List.map_append, List.map_singleton, latest_snoc,
      latest_snoc, ih]

/-- Calls that do not write `a` can be left out. -/
theorem latest_filter (p : ι → Bool) (written : ι → κ → Option υ) (initial : κ → Option υ)
    {past : List ι} {a : κ} (h : ∀ i ∈ past, p i = false → written i a = none) :
    latest written initial (past.filter p) a = latest written initial past a := by
  induction past using List.reverseRecOn with
  | nil => rfl
  | append_singleton past i ih =>
    have hpast := ih fun j hj => h j (List.mem_append_left _ hj)
    rw [List.filter_append, latest_snoc]
    rcases hp : p i with _ | _
    · rw [List.filter_singleton, hp, cond_false, List.append_nil, hpast,
        h i (List.mem_append_right _ List.mem_cons_self) hp, Option.none_or]
    · rw [List.filter_singleton, hp, cond_true, latest_snoc, hpast]

/-- The initial value is used where nothing has been written. -/
theorem latest_eq_or (written : ι → κ → Option υ) (initial : κ → Option υ) (past : List ι)
    (a : κ) :
    latest written initial past a = (latest written (fun _ => none) past a).or (initial a) := by
  rw [latest, latest, Option.or_none]

end ObliviousRam
