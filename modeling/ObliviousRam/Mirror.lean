import ObliviousRam.Trace
import Mathlib.Logic.Relation
import Mathlib.Data.List.Forall2

set_option autoImplicit false

/-!
# Programs that do the same until something bad happens

Two programs run side by side, as in `Prog.Relates`, with two differences:

* the second one may run into a **bad event**, after which nothing is said about it;
* values and reasons of stops are related, and need not be equal.

`Prog.Mirrors` is the relation, with a rule for each way to build a program and
one for sequences of calls. `Prog.amid` is a call in a state that others change
between the calls of a program: whoever mirrors a program on a state of its own
still mirrors it there, if what the others do keeps the relation.

Nothing here mentions an oblivious RAM.
-/

namespace ObliviousRam

namespace Prog

variable {ε ε' ε₁ ε₁' σ τ σ₁ τ₁ ω : Type} {α α' β β' : Type}

/-! ## Related outcomes -/

/-- Both programs returned, with values related by `V`, or both stopped, for
reasons related by `E`. -/
inductive Corresponds (E : ε → ε' → Prop) (V : α → α' → Prop) : Except ε α → Except ε' α' → Prop
  | ok {a a'} : V a a' → Corresponds E V (.ok a) (.ok a')
  | error {e e'} : E e e' → Corresponds E V (.error e) (.error e')

namespace Corresponds

variable {E : ε → ε' → Prop} {V W : α → α' → Prop}

/-- Equal outcomes correspond. -/
theorem of_eq {r r' : Except ε α} (h : r = r') : Corresponds Eq Eq r r' := by
  subst h
  cases r with
  | error e => exact .error rfl
  | ok a => exact .ok rfl

theorem refl {E : ε → ε → Prop} (hE : ∀ e, E e e) (r : Except ε α) : Corresponds E Eq r r := by
  cases r with
  | error e => exact .error (hE e)
  | ok a => exact .ok rfl

/-- Up to equality of both, outcomes that correspond are equal. -/
theorem eq {r r' : Except ε α} (h : Corresponds Eq Eq r r') : r = r' := by
  cases h with
  | ok h => exact congrArg Except.ok h
  | error h => exact congrArg Except.error h

/-- What corresponds to a value is a value. -/
theorem eq_ok {r' : Except ε' α'} {a : α} (h : Corresponds E V (.ok a) r') :
    ∃ a', r' = .ok a' ∧ V a a' := by
  cases h with
  | ok h => exact ⟨_, rfl, h⟩

/-- What corresponds to a stop is a stop. -/
theorem eq_error {r' : Except ε' α'} {e : ε} (h : Corresponds E V (.error e : Except ε α) r') :
    ∃ e', r' = .error e' ∧ E e e' := by
  cases h with
  | error h => exact ⟨_, rfl, h⟩

theorem mono {r : Except ε α} {r' : Except ε' α'} (h : Corresponds E V r r')
    (hV : ∀ a a', V a a' → W a a') : Corresponds E W r r' := by
  cases h with
  | ok h => exact .ok (hV _ _ h)
  | error h => exact .error h

theorem mapError {E₁ : ε₁ → ε₁' → Prop} {f : ε → ε₁} {f' : ε' → ε₁'}
    (hE : ∀ e e', E e e' → E₁ (f e) (f' e')) {r : Except ε α} {r' : Except ε' α'}
    (h : Corresponds E V r r') : Corresponds E₁ V (r.mapError f) (r'.mapError f') := by
  cases h with
  | ok h => exact .ok h
  | error h => exact .error (hE _ _ h)

end Corresponds

/-- Outcomes of sequences that correspond without exception are the same. -/
theorem eq_of_forall₂_corresponds {rs rs' : List (Except ε α)}
    (h : List.Forall₂ (Corresponds Eq Eq) rs rs') : rs = rs' := by
  induction h with
  | nil => rfl
  | cons hr _ ih => rw [hr.eq, ih]

/-! ## Programs

The right-hand program is the one that may meet the bad event. Its rules ask of every
step that it keep the event once it has happened, so that the event can be read off the
last state alone. -/

/-- From related states, `m'` has an outcome that corresponds to that of `m` and
reaches a related state, unless it ends badly; and it does not undo what is bad. -/
structure Mirrors (Bad : τ → Prop) (E : ε → ε' → Prop) (R : σ → τ → Prop) (V : α → α' → Prop)
    (m : Prog ε σ α) (m' : Prog ε' τ α') : Prop where
  keeps : Keeps Bad m'
  step : ∀ s t, R s t → Bad (m' t).2 ∨ Corresponds E V (m s).1 (m' t).1 ∧ R (m s).2 (m' t).2

namespace Mirrors

variable {Bad : τ → Prop} {E : ε → ε' → Prop} {R : σ → τ → Prop} {V : α → α' → Prop}
  {W : β → β' → Prop} {m : Prog ε σ α} {m' : Prog ε' τ α'} {f : α → Prog ε σ β}
  {f' : α' → Prog ε' τ β'}

/-- Programs that nothing bad can happen to. -/
theorem of_relates {m' : Prog ε τ α} (hkeeps : Keeps Bad m') (h : Relates R Eq m m') :
    Mirrors Bad Eq R Eq m m' where
  keeps := hkeeps
  step := by
    intro s t hR
    obtain ⟨hagree, hR'⟩ := h s t hR
    exact .inr ⟨.of_eq (agree_eq.mp hagree), hR'⟩

/-- Programs that agree, the other way round. -/
theorem of_relates_symm {m' : Prog ε τ α} {R : τ → σ → Prop} (h : Relates R Eq m' m) :
    Mirrors (fun _ => False) Eq (fun s t => R t s) Eq m m' where
  keeps := fun _ hbad => hbad
  step := by
    intro s t hR
    obtain ⟨hagree, hR'⟩ := h t s hR
    exact .inr ⟨.of_eq (agree_eq.mp hagree).symm, hR'⟩

theorem pure {a : α} {a' : α'} (h : V a a') :
    Mirrors Bad E R V (pure a : Prog ε σ α) (pure a' : Prog ε' τ α') :=
  ⟨.pure a', fun _ _ hR => .inr ⟨.ok h, hR⟩⟩

theorem throw {e : ε} {e' : ε'} (h : E e e') :
    Mirrors Bad E R V (throw e : Prog ε σ α) (throw e' : Prog ε' τ α') :=
  ⟨.throw e', fun _ _ hR => .inr ⟨.error h, hR⟩⟩

theorem modify {g : σ → σ} {g' : τ → τ} (h : ∀ s t, R s t → R (g s) (g' t))
    (hbad : ∀ t, Bad t → Bad (g' t)) :
    Mirrors Bad E R Eq (modify g : Prog ε σ Unit) (modify g' : Prog ε' τ Unit) :=
  ⟨.modify hbad, fun s t hR => .inr ⟨.ok rfl, h s t hR⟩⟩

/-- **The rule of sequencing.** What comes later does not undo a bad event,
whatever value it is given: every value of the second program is related to one
of the first. -/
theorem bind (hV : ∀ a', ∃ a, V a a') (hm : Mirrors Bad E R V m m')
    (hf : ∀ a a', V a a' → Mirrors Bad E R W (f a) (f' a')) :
    Mirrors Bad E R W (m >>= f) (m' >>= f') := by
  have hlater : ∀ a', Keeps Bad (f' a') := by
    intro a'
    obtain ⟨a, ha⟩ := hV a'
    exact (hf a a' ha).keeps
  refine ⟨.bind hm.keeps hlater, fun s t hR => ?_⟩
  rcases h : m s with ⟨r, s'⟩
  rcases h' : m' t with ⟨r', t'⟩
  have hstep := hm.step s t hR
  rw [h, h'] at hstep
  rcases hstep with hbad | ⟨hout, hR'⟩
  · left
    cases r' with
    | error e' =>
      rw [bind_error h']
      exact hbad
    | ok a' =>
      rw [bind_ok h']
      exact hlater a' t' hbad
  · cases hout with
    | error he =>
      rw [bind_error h, bind_error h']
      exact .inr ⟨.error he, hR'⟩
    | ok hV =>
      rw [bind_ok h, bind_ok h']
      exact (hf _ _ hV).step s' t' hR'

/-- The common case: both programs return the same value. -/
theorem bind_eq {m' : Prog ε' τ α} {f' : α → Prog ε' τ β'} (hm : Mirrors Bad E R Eq m m')
    (hf : ∀ a, Mirrors Bad E R W (f a) (f' a)) : Mirrors Bad E R W (m >>= f) (m' >>= f') := by
  apply bind (fun a => ⟨a, rfl⟩) hm
  rintro a _ rfl
  exact hf a

/-- Both programs look at a part of their states first, which is the same in
related states; and whatever it is for the second, it can be for the first. -/
theorem get_bind {γ : Type} (sel : σ → γ) (sel' : τ → γ) {f : σ → Prog ε σ β}
    {f' : τ → Prog ε' τ β'} (hsel : ∀ s t, R s t → sel s = sel' t)
    (hsel' : ∀ t, ∃ s, sel s = sel' t)
    (hf : ∀ s t, sel s = sel' t → Mirrors Bad E R W (f s) (f' t)) :
    Mirrors Bad E R W (get >>= f) (get >>= f') where
  keeps := by
    refine .bind .get fun t => ?_
    obtain ⟨s, hs⟩ := hsel' t
    exact (hf s t hs).keeps
  step := fun s t hR => (hf s t (hsel s t hR)).step s t hR

/-- A call whose outcome, a stop included, is looked at. -/
theorem attempt {E₁ : ε₁ → ε₁' → Prop} (hm : Mirrors Bad E R V m m') :
    Mirrors Bad E₁ R (Corresponds E V) (Prog.attempt m) (Prog.attempt m') where
  keeps := hm.keeps
  step := by
    intro s t hR
    rcases hm.step s t hR with hbad | ⟨hout, hR'⟩
    · exact .inl hbad
    · exact .inr ⟨.ok hout, hR'⟩

/-- A conditional on something that both programs see alike. -/
theorem ite {c : Prop} [Decidable c] {n : Prog ε σ α} {n' : Prog ε' τ α'}
    (hm : Mirrors Bad E R V m m') (hn : Mirrors Bad E R V n n') :
    Mirrors Bad E R V (if c then m else n) (if c then m' else n') := by
  split
  · exact hm
  · exact hn

theorem mapError {E₁ : ε₁ → ε₁' → Prop} {g : ε → ε₁} {g' : ε' → ε₁'}
    (hE : ∀ e e', E e e' → E₁ (g e) (g' e')) (hm : Mirrors Bad E R V m m') :
    Mirrors Bad E₁ R V (Prog.mapError g m) (Prog.mapError g' m') where
  keeps := .mapError hm.keeps
  step := by
    intro s t hR
    rcases hm.step s t hR with hbad | ⟨hout, hR'⟩
    · exact .inl hbad
    · exact .inr ⟨hout.mapError hE, hR'⟩

/-- The same reasons, rewritten in the same way. -/
theorem mapError_eq {m' : Prog ε τ α'} (g : ε → ε₁) (hm : Mirrors Bad Eq R V m m') :
    Mirrors Bad Eq R V (Prog.mapError g m) (Prog.mapError g m') :=
  hm.mapError fun _ _ he => congrArg g he

theorem mono {V' : α → α' → Prop} (hm : Mirrors Bad E R V m m') (hV : ∀ a a', V a a' → V' a a') :
    Mirrors Bad E R V' m m' where
  keeps := hm.keeps
  step := by
    intro s t hR
    rcases hm.step s t hR with hbad | ⟨hout, hR'⟩
    · exact .inl hbad
    · exact .inr ⟨hout.mono hV, hR'⟩

/-- Both programs rewrite an outcome. -/
theorem outcome {E₁ : ε₁ → ε₁' → Prop} {n : Prog ε₁ σ β} {n' : Prog ε₁' τ β'}
    {g : Except ε α → Except ε₁ β} {g' : Except ε' α' → Except ε₁' β'}
    (hn : ∀ s, n s = (g (m s).1, (m s).2)) (hn' : ∀ t, n' t = (g' (m' t).1, (m' t).2))
    (hg : ∀ r r', Corresponds E V r r' → Corresponds E₁ W (g r) (g' r'))
    (hm : Mirrors Bad E R V m m') : Mirrors Bad E₁ R W n n' where
  keeps := by
    intro t hbad
    rw [hn']
    exact hm.keeps t hbad
  step := by
    intro s t hR
    rw [hn, hn']
    rcases hm.step s t hR with hbad | ⟨hout, hR'⟩
    · exact .inl hbad
    · exact .inr ⟨hg _ _ hout, hR'⟩

/-- A condition that does not change. -/
theorem guard {p : Prop} (hkeeps : Keeps Bad m') (hm : p → Mirrors Bad E R V m m') :
    Mirrors Bad E (fun s t => p ∧ R s t) V m m' where
  keeps := hkeeps
  step := by
    rintro s t ⟨hp, hR⟩
    rcases (hm hp).step s t hR with hbad | ⟨hout, hR'⟩
    · exact .inl hbad
    · exact .inr ⟨hout, hp, hR'⟩

/-- **Mirrors compose**: nothing bad in the middle, and the same values at the end. -/
theorem trans {υ : Type} {Bad' : υ → Prop} {R' : τ → υ → Prop} {m'' : Prog ε' υ α'}
    (hm : Mirrors (fun _ => False) E R V m m') (hm' : Mirrors Bad' Eq R' Eq m' m'') :
    Mirrors Bad' E (Relation.Comp R R') V m m'' where
  keeps := hm'.keeps
  step := by
    rintro s u ⟨t, hR, hR'⟩
    obtain hbad | ⟨hout, hnext⟩ := hm.step s t hR
    · exact hbad.elim
    · rcases hm'.step t u hR' with hbad | ⟨hout', hnext'⟩
      · exact .inl hbad
      · exact .inr ⟨hout'.eq ▸ hout, _, hnext, hnext'⟩

/-- On the components of larger states. -/
theorem zoom {sel : σ₁ → σ} {upd : σ → σ₁ → σ₁} {sel' : τ₁ → τ} {upd' : τ → τ₁ → τ₁}
    {R₁ : σ₁ → τ₁ → Prop} {Bad₁ : τ₁ → Prop} (hm : Mirrors Bad E R V m m')
    (hsel : ∀ s t, R₁ s t → R (sel s) (sel' t))
    (hupd : ∀ s t s' t', R₁ s t → R s' t' → R₁ (upd s' s) (upd' t' t))
    (hbad : ∀ t' t, Bad t' → Bad₁ (upd' t' t)) (hbad' : ∀ t, Bad₁ t → Bad (sel' t)) :
    Mirrors Bad₁ E R₁ V (Prog.zoom sel upd m) (Prog.zoom sel' upd' m') where
  keeps := fun t ht => hbad _ _ (hm.keeps _ (hbad' t ht))
  step := by
    intro s t hR
    rcases hm.step _ _ (hsel s t hR) with h | ⟨hout, hR'⟩
    · exact .inl (hbad _ _ h)
    · exact .inr ⟨hout, hupd _ _ _ _ hR hR'⟩

end Mirrors

/-! ## Sequences of calls -/

/-- The same reasons are fatal. -/
theorem fatal_of_eq (fatal : ε → Bool) : ∀ e e', e = e' → fatal e' = false → fatal e = false := by
  rintro e _ rfl he
  exact he

section

variable {ι : Type} {fatal : ε → Bool} {fatal' : ε' → Bool} {call : ι → Prog ε σ α}
  {call' : ι → Prog ε' τ α'} {Bad : τ → Prop} {E : ε → ε' → Prop} {R : σ → τ → Prop}
  {V : α → α' → Prop}

/-- A sequence of calls does not undo a bad event. -/
theorem bad_of_trace {κ : Type} {call' : κ → Prog ε' τ α'} {is : List κ}
    (hkeeps : ∀ i ∈ is, Keeps Bad (call' i)) {t t' : τ} {rs' : List (Except ε' α')} (hbad : Bad t)
    (hrun : trace fatal' call' is t = some (rs', t')) : Bad t' := by
  induction is generalizing t rs' with
  | nil =>
    cases hrun
    exact hbad
  | cons i is ih =>
    obtain ⟨r, t₁, rs, hcall, hrest, -⟩ := trace_cons_eq_some hrun
    have hbad₁ := hkeeps i List.mem_cons_self t hbad
    rw [(eq_of_survive hcall).1] at hbad₁
    exact ih (fun j hj => hkeeps j (List.mem_cons_of_mem _ hj)) hbad₁ hrest

/-- A mirrored call that is survived, and leads to no bad event. -/
theorem survive_mirrors {m : Prog ε σ α} {m' : Prog ε' τ α'} (hm : Mirrors Bad E R V m m')
    (hfatal : ∀ e e', E e e' → fatal' e' = false → fatal e = false) {s : σ} {t t' : τ}
    {r' : Except ε' α'} (hR : R s t) (hcall : survive fatal' m' t = some (r', t'))
    (hgood : ¬Bad t') :
    ∃ r s', survive fatal m s = some (r, s') ∧ Corresponds E V r r' ∧ R s' t' := by
  obtain ⟨hrun, hsurvived⟩ := eq_of_survive hcall
  have hout := hm.step s t hR
  rw [hrun] at hout
  rcases hout with hbad | ⟨hout, hR'⟩
  · exact absurd hbad hgood
  · refine ⟨(m s).1, (m s).2, ?_, hout, hR'⟩
    rcases hfirst : m s with ⟨e | a, s₁⟩
    · rw [hfirst] at hout
      obtain ⟨e', rfl, hE⟩ := hout.eq_error
      exact survive_error hfirst (hfatal e e' hE (hsurvived e' rfl))
    · exact survive_ok hfirst

/-- Calls that mirror others one by one keep the bad event one by one. -/
theorem keeps_of_forall₂ {κ : Type} {call' : κ → Prog ε' τ α'} {is : List ι} {js : List κ}
    (h : List.Forall₂ (fun i j => Mirrors Bad E R V (call i) (call' j)) is js) :
    ∀ j ∈ js, Keeps Bad (call' j) := by
  induction h with
  | nil => exact fun _ hj => absurd hj List.not_mem_nil
  | cons hcall _ ih => exact List.forall_mem_cons.mpr ⟨hcall.keeps, ih⟩

/-- **The rule for two sequences of calls.** If no bad event has happened by the
end of the second, the first has gone through with outcomes that correspond. -/
theorem trace_mirrors_forall₂ {κ : Type} {call' : κ → Prog ε' τ α'} {is : List ι} {js : List κ}
    (hcalls : List.Forall₂ (fun i j => Mirrors Bad E R V (call i) (call' j)) is js)
    (hfatal : ∀ e e', E e e' → fatal' e' = false → fatal e = false) {s : σ} {t t' : τ}
    {rs' : List (Except ε' α')} (hR : R s t)
    (hrun : trace fatal' call' js t = some (rs', t')) (hgood : ¬Bad t') :
    ∃ rs s', trace fatal call is s = some (rs, s') ∧
      List.Forall₂ (Corresponds E V) rs rs' ∧ R s' t' := by
  induction hcalls generalizing s t rs' with
  | nil =>
    cases hrun
    exact ⟨[], s, rfl, .nil, hR⟩
  | @cons i j is js hcall hcalls ih =>
    obtain ⟨r', t₁, rs₁', hsurvive, hrest, rfl⟩ := trace_cons_eq_some hrun
    have hgood₁ : ¬Bad t₁ :=
      fun hbad => hgood (bad_of_trace (keeps_of_forall₂ hcalls) hbad hrest)
    obtain ⟨r, s₁, hsurvive₁, hout, hR₁⟩ := survive_mirrors hcall hfatal hR hsurvive hgood₁
    obtain ⟨rs, s', hrun', hrs, hR'⟩ := ih hR₁ hrest
    refine ⟨r :: rs, s', ?_, .cons hout hrs, hR'⟩
    rw [trace, hsurvive₁]
    simp only [hrun', Option.map_some]

/-- **The rule for sequences of calls**, if the calls are the same. -/
theorem trace_mirrors (hstep : ∀ i, Mirrors Bad E R V (call i) (call' i))
    (hfatal : ∀ e e', E e e' → fatal' e' = false → fatal e = false) {is : List ι} {s : σ}
    {t t' : τ} {rs' : List (Except ε' α')} (hR : R s t)
    (hrun : trace fatal' call' is t = some (rs', t')) (hgood : ¬Bad t') :
    ∃ rs s', trace fatal call is s = some (rs, s') ∧
      List.Forall₂ (Corresponds E V) rs rs' ∧ R s' t' :=
  trace_mirrors_forall₂ (List.forall₂_same.mpr fun i _ => hstep i) hfatal hR hrun hgood

end

/-! ## A state that others change

A client that talks to a shared server finds at each of its calls a state that others
may have changed since the last one. `amid` makes the changes part of the program: they
are fixed beforehand as a list of batches, one for each call, and the theorems quantify
over all such lists. -/

/-- A call in a state that others change: before every call, the next batch of
`events` takes place; past the list, nothing does. -/
def amid (event : ω → τ → τ) (m : Prog ε τ α) : Prog ε (τ × List (List ω)) α := fun t =>
  match t.2 with
  | [] => ((m t.1).1, (m t.1).2, [])
  | events :: rest =>
    ((m (events.foldl (fun t e => event e t) t.1)).1,
      (m (events.foldl (fun t e => event e t) t.1)).2, rest)

section

variable {event : ω → τ → τ} {Bad : τ → Prop} {good : ω → Prop}

theorem amid_nil (m : Prog ε τ α) (t : τ) : amid event m (t, []) = ((m t).1, (m t).2, []) := rfl

theorem amid_cons (m : Prog ε τ α) (t : τ) (events : List ω) (rest : List (List ω)) :
    amid event m (t, events :: rest) =
      ((m (events.foldl (fun t e => event e t) t)).1,
        (m (events.foldl (fun t e => event e t) t)).2, rest) := rfl

/-- One batch of events keeps what every event keeps. -/
theorem foldl_event {I : τ → Prop} (h : ∀ e t, good e → I t → I (event e t)) {events : List ω}
    (hgood : ∀ e ∈ events, good e) {t : τ} (hI : I t) :
    I (events.foldl (fun t e => event e t) t) := by
  induction events generalizing t with
  | nil => exact hI
  | cons e events ih =>
    exact ih (fun e' he' => hgood e' (List.mem_cons_of_mem _ he'))
      (h e t (hgood e List.mem_cons_self) hI)

/-- The others do not undo a bad event either. -/
theorem keeps_amid {m : Prog ε τ α} (hevent : ∀ e t, Bad t → Bad (event e t))
    (hm : Keeps Bad m) : Keeps (fun t : τ × List (List ω) => Bad t.1) (amid event m) := by
  rintro ⟨t, _ | ⟨events, rest⟩⟩ hbad
  · exact hm t hbad
  · apply hm
    exact @foldl_event _ _ event (fun _ => True) Bad (fun e t _ => hevent e t) events
      (fun _ _ => trivial) t hbad

/-- What a call that returns finds and leaves, in the midst of good events. -/
theorem amid_ok {G : ω → Prop} {I Q : τ → Prop} {m : Prog ε τ α} {a : α}
    (hI : ∀ e t, G e → I t → I (event e t)) (hm : ∀ t t', I t → m t = (.ok a, t') → Q t')
    {t t' : τ × List (List ω)} (ht : I t.1) (hgood : ∀ events ∈ t.2, ∀ e ∈ events, G e)
    (h : amid event m t = (.ok a, t')) : Q t'.1 ∧ ∀ events ∈ t'.2, ∀ e ∈ events, G e := by
  obtain ⟨t, _ | ⟨events, rest⟩⟩ := t
  · cases hrun : m t with
    | mk r t₁ =>
      rw [amid_nil, hrun] at h
      cases h
      exact ⟨hm _ _ ht hrun, hgood⟩
  · have hbatch := foldl_event hI (hgood events List.mem_cons_self) ht
    cases hrun : m (events.foldl (fun t e => event e t) t) with
    | mk r t₁ =>
      rw [amid_cons, hrun] at h
      cases h
      exact ⟨hm _ _ hbatch hrun, fun b hb => hgood b (List.mem_cons_of_mem _ hb)⟩

/-- A state of one's own next to a state that others change, by good events only. -/
def Amid (good : ω → Prop) (R : σ → τ → Prop) (s : σ) (t : τ × List (List ω)) : Prop :=
  R s t.1 ∧ ∀ events ∈ t.2, ∀ e ∈ events, good e

/-- **Others in between.** A program that is mirrored in a state is mirrored
there too if others change that state, as long as they keep the relation. -/
theorem mirrors_amid {E : ε → ε' → Prop} {R : σ → τ → Prop} {V : α → α' → Prop}
    {m : Prog ε σ α} {m' : Prog ε' τ α'} (hevent : ∀ e t, Bad t → Bad (event e t))
    (hkeep : ∀ e s t, good e → R s t → Bad (event e t) ∨ R s (event e t))
    (hm : Mirrors Bad E R V m m') :
    Mirrors (fun t => Bad t.1) E (Amid good R) V m (amid event m') where
  keeps := keeps_amid hevent hm.keeps
  step := by
    rintro s ⟨t, _ | ⟨events, rest⟩⟩ ⟨hR, hgood⟩
    · rcases hm.step s t hR with hbad | ⟨hout, hR'⟩
      · exact .inl hbad
      · exact .inr ⟨hout, hR', hgood⟩
    · have hbatch : Bad (events.foldl (fun t e => event e t) t) ∨
          R s (events.foldl (fun t e => event e t) t) :=
        foldl_event (I := fun t => Bad t ∨ R s t) (fun e t he h => h.elim
          (fun hbad => .inl (hevent e t hbad)) fun hR => hkeep e s t he hR)
          (hgood events List.mem_cons_self) (.inr hR)
      rcases hbatch with hbad | hR
      · exact .inl (hm.keeps _ hbad)
      · rcases hm.step s _ hR with hbad | ⟨hout, hR'⟩
        · exact .inl hbad
        · exact .inr ⟨hout, hR', fun b hb => hgood b (List.mem_cons_of_mem _ hb)⟩

end

end Prog

end ObliviousRam
