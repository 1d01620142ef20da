import ObliviousRam.Prog

set_option autoImplicit false

/-!
# Contracts with two ends

A program returns or stops. `Prog.Leads I m Q E` says what holds in either case
if it was run from `I`: a triple with a postcondition for each end. There is a
rule for each way to build a program. The stop of a sequence is one of its first
half or one of its second half, so the rule of sequencing asks for both.

Nothing here mentions an oblivious RAM.
-/

namespace ObliviousRam

namespace Prog

variable {ε ε' σ α β : Type}

/-- From `I`, `m` returns in `Q` or stops in `E`. -/
structure Leads (I : σ → Prop) (m : Prog ε σ α) (Q : α → σ → Prop) (E : ε → σ → Prop) : Prop where
  ok : ∀ {s a s'}, I s → m s = (.ok a, s') → Q a s'
  error : ∀ {s e s'}, I s → m s = (.error e, s') → E e s'

namespace Leads

variable {I I' : σ → Prop} {Q Q' : α → σ → Prop} {E E' : ε → σ → Prop} {m : Prog ε σ α}
  {f : α → Prog ε σ β} {W : β → σ → Prop}

/-- It is enough to say of each run how it ends. -/
theorem of_outcome (h : ∀ s, I s → (∃ a s', m s = (.ok a, s') ∧ Q a s') ∨
    ∃ e s', m s = (.error e, s') ∧ E e s') : Leads I m Q E := by
  constructor
  · intro s a s' hs hrun
    obtain ⟨a', s₁, hok, hQ⟩ | ⟨e, s₁, herror, -⟩ := h s hs
    · cases hok.symm.trans hrun
      exact hQ
    · cases herror.symm.trans hrun
  · intro s e s' hs hrun
    obtain ⟨a, s₁, hok, -⟩ | ⟨e', s₁, herror, hE⟩ := h s hs
    · cases hok.symm.trans hrun
    · cases herror.symm.trans hrun
      exact hE

theorem pure {a : α} (h : ∀ s, I s → Q a s) : Leads I (pure a : Prog ε σ α) Q E := by
  constructor
  · rintro s _ _ hs ⟨⟩
    exact h s hs
  · rintro s _ _ _ ⟨⟩

theorem throw {e : ε} (h : ∀ s, I s → E e s) : Leads I (throw e : Prog ε σ α) Q E := by
  constructor
  · rintro s _ _ _ ⟨⟩
  · rintro s _ _ hs ⟨⟩
    exact h s hs

theorem modify {g : σ → σ} {Q : Unit → σ → Prop} (h : ∀ s, I s → Q () (g s)) :
    Leads I (modify g : Prog ε σ Unit) Q E := by
  constructor
  · rintro s _ _ hs ⟨⟩
    exact h s hs
  · rintro s _ _ _ ⟨⟩

/-- The rule of consequence. -/
theorem mono (hm : Leads I m Q E) (hI : ∀ s, I' s → I s) (hQ : ∀ a s, Q a s → Q' a s)
    (hE : ∀ e s, E e s → E' e s) : Leads I' m Q' E' :=
  ⟨fun hs h => hQ _ _ (hm.ok (hI _ hs) h), fun hs h => hE _ _ (hm.error (hI _ hs) h)⟩

/-- **The rule of sequencing.** -/
theorem bind (hm : Leads I m Q E) (hf : ∀ a, Leads (Q a) (f a) W E) : Leads I (m >>= f) W E := by
  constructor
  · intro s b s'' hs h
    obtain ⟨a, s', hfirst, hrest⟩ := bind_eq_ok h
    exact (hf a).ok (hm.ok hs hfirst) hrest
  · intro s e s'' hs h
    rcases hfirst : m s with ⟨e' | a, s'⟩
    · rw [bind_error hfirst] at h
      cases h
      exact hm.error hs hfirst
    · rw [bind_ok hfirst] at h
      exact (hf a).error (hm.ok hs hfirst) h

/-- What does not depend on the state is still so. -/
theorem frame (p : Prop) (hm : Leads I m Q E) :
    Leads (fun s => I s ∧ p) m (fun a s => Q a s ∧ p) E :=
  ⟨fun hs h => ⟨hm.ok hs.1 h, hs.2⟩, fun hs h => hm.error hs.1 h⟩

/-- The state that is looked at is the one of the precondition. -/
theorem get_bind {g : σ → Prog ε σ α} (hg : ∀ w, I w → Leads (· = w) (g w) Q E) :
    Leads I (get >>= g) Q E := by
  constructor
  · intro s a s' hs h
    exact (hg s hs).ok rfl h
  · intro s e s' hs h
    exact (hg s hs).error rfl h

theorem mapError {g : ε → ε'} {E : ε' → σ → Prop} (hm : Leads I m Q fun e => E (g e)) :
    Leads I (mapError g m) Q E := by
  constructor
  · exact fun hs h => hm.ok hs (mapError_eq_ok h)
  · intro s e s' hs h
    rcases hfirst : m s with ⟨e' | a, s₁⟩
    · rw [mapError_error hfirst] at h
      cases h
      exact hm.error hs hfirst
    · rw [mapError_ok hfirst] at h
      cases h

/-- An attempt returns with either end. -/
theorem attempt (hm : Leads I m Q E) {E' : ε' → σ → Prop} :
    Leads I (attempt m : Prog ε' σ (Except ε α))
      (fun r s => match r with
        | .ok a => Q a s
        | .error e => E e s) E' := by
  constructor
  · rintro s _ _ hs ⟨⟩
    rcases h : m s with ⟨e | a, s'⟩
    · exact hm.error hs h
    · exact hm.ok hs h
  · rintro s _ _ _ ⟨⟩

/-- What is known to exist may be taken as given. -/
theorem of_exists {κ : Type} {I : κ → σ → Prop} (h : ∀ k, Leads (I k) m Q E) :
    Leads (fun s => ∃ k, I k s) m Q E := by
  constructor
  · rintro s a s' ⟨k, hs⟩ hrun
    exact (h k).ok hs hrun
  · rintro s e s' ⟨k, hs⟩ hrun
    exact (h k).error hs hrun

theorem ite {c : Prop} [Decidable c] {m' : Prog ε σ α} (hm : c → Leads I m Q E)
    (hm' : ¬c → Leads I m' Q E) : Leads I (if c then m else m') Q E := by
  split
  next h => exact hm h
  next h => exact hm' h

end Leads

/-- `m` keeps `I`, and what it returns has `R`. -/
def Yields (I : σ → Prop) (m : Prog ε σ α) (R : α → Prop) : Prop :=
  Leads I m (fun a s => I s ∧ R a) fun _ => I

namespace Yields

variable {I : σ → Prop} {R R' : α → Prop} {W : β → Prop} {m : Prog ε σ α} {f : α → Prog ε σ β}

theorem pure {a : α} (h : R a) : Yields I (pure a : Prog ε σ α) R :=
  Leads.pure fun _ hs => ⟨hs, h⟩

theorem throw (e : ε) : Yields I (throw e : Prog ε σ α) R := Leads.throw fun _ hs => hs

theorem modify {g : σ → σ} (h : ∀ s, I s → I (g s)) :
    Yields I (modify g : Prog ε σ Unit) fun _ => True :=
  Leads.modify fun s hs => ⟨h s hs, trivial⟩

/-- What is returned may be said to have less. -/
theorem weaken (hm : Yields I m R) (h : ∀ a, R a → R' a) : Yields I m R' :=
  hm.mono (fun _ hs => hs) (fun a _ hs => ⟨hs.1, h a hs.2⟩) fun _ _ hs => hs

/-- The rule of sequencing, with what is known of the value in between. -/
theorem bind (hm : Yields I m R) (hf : ∀ a, R a → Yields I (f a) W) : Yields I (m >>= f) W := by
  refine Leads.bind hm fun a => ⟨fun hs h => ?_, fun hs h => ?_⟩
  · exact (hf a hs.2).ok hs.1 h
  · exact (hf a hs.2).error hs.1 h

theorem get_bind {g : σ → Prog ε σ α} (hg : ∀ w, I w → Yields I (g w) R) :
    Yields I (get >>= g) R :=
  Leads.get_bind fun w hw => (hg w hw).mono (fun _ he => he ▸ hw) (fun _ _ h => h) fun _ _ h => h

theorem mapError {g : ε → ε'} (hm : Yields I m R) : Yields I (mapError g m) R := Leads.mapError hm

theorem attempt (hm : Yields I m R) : Yields I (attempt m : Prog ε' σ (Except ε α))
    (fun r => ∀ a, r = .ok a → R a) := by
  refine (Leads.attempt hm).mono (fun _ hs => hs) (fun r s hs => ?_) fun _ _ hs => hs
  cases r with
  | ok a =>
    refine ⟨hs.1, ?_⟩
    rintro _ ⟨⟩
    exact hs.2
  | error e =>
    refine ⟨hs, ?_⟩
    rintro _ ⟨⟩

theorem ite {c : Prop} [Decidable c] {m' : Prog ε σ α} (hm : c → Yields I m R)
    (hm' : ¬c → Yields I m' R) : Yields I (if c then m else m') R := Leads.ite hm hm'

/-- What is kept is kept whatever the outcome. -/
theorem keeps (hm : Yields I m R) : Keeps I m := by
  intro s hs
  rcases h : m s with ⟨e | a, s'⟩
  · exact hm.error hs h
  · exact (hm.ok hs h).1

/-- A program on a component. -/
theorem zoom {τ : Type} {J : τ → Prop} {sel : τ → σ} {upd : σ → τ → τ} (hm : Yields I m R)
    (hsel : ∀ t, J t → I (sel t)) (hupd : ∀ t s, J t → I s → J (upd s t)) :
    Yields J (zoom sel upd m) R := by
  constructor
  · intro t a t' ht hrun
    obtain ⟨hok, rfl⟩ := Prod.mk.inj hrun
    obtain ⟨hs, ha⟩ := hm.ok (hsel t ht) (Prod.ext hok rfl)
    exact ⟨hupd t _ ht hs, ha⟩
  · intro t e t' ht hrun
    obtain ⟨-, rfl⟩ := Prod.mk.inj hrun
    exact hupd t _ ht (hm.keeps _ (hsel t ht))

end Yields

end Prog

end ObliviousRam
