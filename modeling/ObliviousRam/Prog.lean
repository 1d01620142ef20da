import Mathlib.Logic.Basic
import Mathlib.Data.List.Basic

set_option autoImplicit false

/-!
# Programs over a state that may stop early

Support for the whole development; nothing here mentions an oblivious RAM.

* `Prog ε σ α` — a **program** over states `σ`: from a state it either returns
  an `α` or stops with an `ε`, and in both cases it hands back the state it
  reached. Keeping the state of a stopped program is the point: a call that
  fails half way leaves its effects behind.
* the equations and inversions of `bind`, in the form proofs rewrite with.
* `Prog.Keeps` — a property of the state that a program preserves.
* `Prog.Relates` — two programs run side by side: from related states they have
  the same outcome and reach related states.
* `Prog.UpTo` — what a program does as long as a **bad event** has not happened,
  with the rules to compose such statements; the event must be one that programs
  cannot undo (`Prog.Sticky`).

The sequences of calls that a client makes on one state are in `Trace`.
-/

namespace ObliviousRam

universe u v

/-- A program over states `σ` returning `α` or stopping with `ε`. -/
def Prog (ε σ : Type) (α : Type u) : Type u := σ → Except ε α × σ

namespace Prog

variable {ε ε' σ τ : Type} {α β : Type}

/-- Return without touching the state. -/
protected def pure (a : α) : Prog ε σ α := fun s => (.ok a, s)

/-- Sequencing: a stop of the first program is a stop of the whole. -/
protected def bind (m : Prog ε σ α) (f : α → Prog ε σ β) : Prog ε σ β := fun s =>
  match m s with
  | (.ok a, s') => f a s'
  | (.error e, s') => (.error e, s')

instance : Monad (Prog ε σ) where
  pure := Prog.pure
  bind := Prog.bind

/-- Stop with `e`, keeping the state. -/
def throw (e : ε) : Prog ε σ α := fun s => (.error e, s)

/-- Read the state. -/
def get : Prog ε σ σ := fun s => (.ok s, s)

/-- Replace the state by its image under `f`. -/
def modify (f : σ → σ) : Prog ε σ Unit := fun s => (.ok (), f s)

/-- Hand the outcome of `m` to the caller as a value. -/
def attempt (m : Prog ε σ α) : Prog ε' σ (Except ε α) := fun s => (.ok (m s).1, (m s).2)

/-- Rewrite the reason of a stop. -/
def mapError (f : ε → ε') (m : Prog ε σ α) : Prog ε' σ α := fun s =>
  ((m s).1.mapError f, (m s).2)

/-- Run a program on the component of a larger state that `sel` selects and
`upd` puts back. -/
def zoom (sel : τ → σ) (upd : σ → τ → τ) (m : Prog ε σ α) : Prog ε τ α := fun t =>
  ((m (sel t)).1, upd (m (sel t)).2 t)

@[simp] theorem pure_apply (a : α) (s : σ) : (pure a : Prog ε σ α) s = (.ok a, s) := rfl

@[simp] theorem throw_apply (e : ε) (s : σ) : (throw e : Prog ε σ α) s = (.error e, s) := rfl

@[simp] theorem get_apply (s : σ) : (get : Prog ε σ σ) s = (.ok s, s) := rfl

@[simp] theorem modify_apply (f : σ → σ) (s : σ) :
    (modify f : Prog ε σ Unit) s = (.ok (), f s) := rfl

@[simp] theorem attempt_apply (m : Prog ε σ α) (s : σ) :
    (attempt m : Prog ε' σ (Except ε α)) s = (.ok (m s).1, (m s).2) := rfl

/-- Sequencing, as the match that it is. -/
theorem bind_apply (m : Prog ε σ α) (f : α → Prog ε σ β) (s : σ) :
    (m >>= f) s = match m s with
      | (.ok a, s') => f a s'
      | (.error e, s') => (.error e, s') := rfl

/-- Forward reading of `bind` when the first program returns. -/
theorem bind_ok {m : Prog ε σ α} {f : α → Prog ε σ β} {s s' : σ} {a : α}
    (hm : m s = (.ok a, s')) : (m >>= f) s = f a s' := by
  rw [bind_apply, hm]

/-- Forward reading of `bind` when the first program stops. -/
theorem bind_error {m : Prog ε σ α} {f : α → Prog ε σ β} {s s' : σ} {e : ε}
    (hm : m s = (.error e, s')) : (m >>= f) s = (.error e, s') := by
  rw [bind_apply, hm]

/-- A run whose outcome is known to be a value only by its shape, as a decision
procedure tells it. -/
theorem ok_of_isOk {m : Prog ε σ α} {s : σ} (h : (m s).1.isOk) : ∃ a, m s = (.ok a, (m s).2) := by
  rcases hm : m s with ⟨_ | a, s'⟩
  · rw [hm] at h
    cases h
  · exact ⟨a, rfl⟩

/-- Inversion for `bind`: a sequence that returns ran both its parts. -/
theorem bind_eq_ok {m : Prog ε σ α} {f : α → Prog ε σ β} {s s'' : σ} {b : β}
    (h : (m >>= f) s = (.ok b, s'')) :
    ∃ a s', m s = (.ok a, s') ∧ f a s' = (.ok b, s'') := by
  rw [bind_apply] at h
  rcases hm : m s with ⟨_ | a, s'⟩
  · rw [hm] at h
    cases h
  · rw [hm] at h
    exact ⟨a, s', rfl, h⟩

@[simp] theorem pure_bind (a : α) (f : α → Prog ε σ β) : (pure a >>= f) = f a := rfl

@[simp] theorem get_bind (f : σ → Prog ε σ β) (s : σ) : (get >>= f) s = f s s := rfl

@[simp] theorem modify_bind (g : σ → σ) (f : Unit → Prog ε σ β) (s : σ) :
    (modify g >>= f) s = f () (g s) := rfl

@[simp] theorem throw_bind (e : ε) (f : α → Prog ε σ β) :
    ((throw e : Prog ε σ α) >>= f) = throw e := rfl

@[simp] theorem attempt_bind (m : Prog ε σ α) (f : Except ε α → Prog ε' σ β) (s : σ) :
    (attempt m >>= f) s = f (m s).1 (m s).2 := rfl

/-- The monad law that steps through a `do` block one call at a time. -/
theorem bind_assoc {γ : Type} (m : Prog ε σ α) (f : α → Prog ε σ β) (g : β → Prog ε σ γ) :
    (m >>= f) >>= g = m >>= fun a => f a >>= g := by
  funext s
  rcases hm : m s with ⟨_ | a, s'⟩
  · rw [bind_error (bind_error hm), bind_error hm]
  · rw [bind_ok hm, bind_apply, bind_ok hm, bind_apply]

/-- A value passes `mapError` unchanged. -/
theorem mapError_ok {m : Prog ε σ α} {f : ε → ε'} {s s' : σ} {a : α}
    (hm : m s = (.ok a, s')) : mapError f m s = (.ok a, s') := by
  rw [mapError, hm]
  rfl

theorem mapError_error {m : Prog ε σ α} {f : ε → ε'} {s s' : σ} {e : ε}
    (hm : m s = (.error e, s')) : mapError f m s = (.error (f e), s') := by
  rw [mapError, hm]
  rfl

/-- Inversion for `mapError`: it does not touch a value. -/
theorem mapError_eq_ok {m : Prog ε σ α} {f : ε → ε'} {s s' : σ} {a : α}
    (h : mapError f m s = (.ok a, s')) : m s = (.ok a, s') := by
  rw [mapError] at h
  rcases hm : m s with ⟨_ | b, s₁⟩ <;> rw [hm] at h <;> cases h
  rfl

/-- A run on a component, from the run on the component alone. -/
theorem zoom_eq {sel : τ → σ} {upd : σ → τ → τ} {m : Prog ε σ α} {t : τ} {s' : σ}
    {r : Except ε α} (hm : m (sel t) = (r, s')) : zoom sel upd m t = (r, upd s' t) := by
  rw [zoom, hm]

/-! ## Preservation

An invariant of a state machine is kept by every step, whether the step ends with a
value or not. `Keeps` composes along the constructors of `Prog`, so the invariant of a
procedure is read off the invariants of its remote calls; a procedure that fails half
way has kept it as well. -/

/-- The program keeps `I`, whether it returns or stops. -/
def Keeps (I : σ → Prop) (m : Prog ε σ α) : Prop := ∀ s, I s → I (m s).2

namespace Keeps

variable {I : σ → Prop} {m : Prog ε σ α} {f : α → Prog ε σ β}

theorem pure (a : α) : Keeps I (pure a : Prog ε σ α) := fun _ h => h

theorem throw (e : ε) : Keeps I (throw e : Prog ε σ α) := fun _ h => h

theorem get : Keeps I (get : Prog ε σ σ) := fun _ h => h

theorem modify {g : σ → σ} (h : ∀ s, I s → I (g s)) : Keeps I (modify g : Prog ε σ Unit) := h

theorem bind (hm : Keeps I m) (hf : ∀ a, Keeps I (f a)) : Keeps I (m >>= f) := by
  intro s hs
  have hs' := hm s hs
  rcases h : m s with ⟨_ | a, s'⟩
  · rw [bind_error h]
    rw [h] at hs'
    exact hs'
  · rw [bind_ok h]
    rw [h] at hs'
    exact hf a s' hs'

theorem mapError {g : ε → ε'} (hm : Keeps I m) : Keeps I (mapError g m) := hm

end Keeps

/-! ## Two runs side by side

The relational counterpart of `Keeps`, with one rule per constructor again. It is used
where the two programs are the same code over two servers (a plain one and one that
writes a log, say), so the values are mostly equal and only the states differ. -/

/-- Two outcomes agree: both programs returned, with values related by `V`, or
both stopped for the same reason. -/
def Agree (V : α → β → Prop) : Except ε α → Except ε β → Prop
  | .ok a, .ok b => V a b
  | .error e, .error e' => e = e'
  | _, _ => False

/-- Outcomes that agree up to equality of values are the same outcome. -/
theorem agree_eq {r r' : Except ε α} : Agree Eq r r' ↔ r = r' := by
  cases r <;> cases r' <;> simp [Agree]

/-- From related states the two programs have agreeing outcomes and reach related states. -/
def Relates (R : σ → τ → Prop) (V : α → β → Prop) (m : Prog ε σ α) (m' : Prog ε τ β) : Prop :=
  ∀ s t, R s t → Agree V (m s).1 (m' t).1 ∧ R (m s).2 (m' t).2

namespace Relates

variable {α' β' : Type} {R : σ → τ → Prop} {V : α → α' → Prop} {W : β → β' → Prop}
  {m : Prog ε σ α} {m' : Prog ε τ α'} {f : α → Prog ε σ β} {f' : α' → Prog ε τ β'}

theorem pure {a : α} {a' : α'} (h : V a a') :
    Relates R V (pure a : Prog ε σ α) (pure a' : Prog ε τ α') := fun _ _ hR => ⟨h, hR⟩

theorem throw (e : ε) : Relates R V (throw e : Prog ε σ α) (throw e : Prog ε τ α') :=
  fun _ _ hR => ⟨rfl, hR⟩

theorem get : Relates R R (get : Prog ε σ σ) (get : Prog ε τ τ) := fun _ _ hR => ⟨hR, hR⟩

theorem bind (hm : Relates R V m m') (hf : ∀ a a', V a a' → Relates R W (f a) (f' a')) :
    Relates R W (m >>= f) (m' >>= f') := by
  intro s t hR
  obtain ⟨hagree, hR'⟩ := hm s t hR
  rcases h : m s with ⟨e | a, s'⟩ <;> rcases h' : m' t with ⟨e' | a', t'⟩ <;>
    rw [h, h'] at hagree hR'
  · rw [bind_error h, bind_error h']
    exact ⟨hagree, hR'⟩
  · exact hagree.elim
  · exact hagree.elim
  · rw [bind_ok h, bind_ok h']
    exact hf a a' hagree s' t' hR'

/-- The common case: both programs return the same value. -/
theorem bind_eq {m' : Prog ε τ α} {f' : α → Prog ε τ β'} (hm : Relates R Eq m m')
    (hf : ∀ a, Relates R W (f a) (f' a)) : Relates R W (m >>= f) (m' >>= f') := by
  refine .bind hm ?_
  rintro a _ rfl
  exact hf a

theorem mapError (g : ε → ε') (hm : Relates R V m m') :
    Relates R V (mapError g m) (mapError g m') := by
  intro s t hR
  obtain ⟨hagree, hR'⟩ := hm s t hR
  refine ⟨?_, hR'⟩
  simp only [Prog.mapError]
  generalize (m s).1 = r at hagree
  generalize (m' t).1 = r' at hagree
  cases r <;> cases r'
  · exact congrArg g hagree
  · exact hagree
  · exact hagree
  · exact hagree

end Relates

/-! ## Up to a bad event

Some procedures do what they should unless a certain event happens on the way, and
nobody looks at them after it. Reading off the final state whether the event has
happened only works if no later step can undo it, which is what `Sticky` asks of every
step behind. -/

/-- The program does not undo `Bad`. -/
class Sticky (Bad : σ → Prop) (m : Prog ε σ α) : Prop where
  keeps : Keeps Bad m

namespace Sticky

variable {Bad : σ → Prop} {m m' : Prog ε σ α} {f : α → Prog ε σ β}

instance (a : α) : Sticky Bad (pure a : Prog ε σ α) := ⟨.pure a⟩

instance (e : ε) : Sticky Bad (throw e : Prog ε σ α) := ⟨.throw e⟩

instance : Sticky Bad (get : Prog ε σ σ) := ⟨.get⟩

instance [Sticky Bad m] [∀ a, Sticky Bad (f a)] : Sticky Bad (m >>= f) :=
  ⟨.bind keeps fun _ => keeps⟩

instance [Sticky Bad m] (g : ε → ε') : Sticky Bad (mapError g m) := ⟨.mapError keeps⟩

instance {c : Prop} [Decidable c] [Sticky Bad m] [Sticky Bad m'] :
    Sticky Bad (if c then m else m') := by
  split <;> infer_instance

/-- What comes after cannot undo what went wrong before. -/
theorem before [∀ a, Sticky Bad (f a)] {s : σ} (h : ¬Bad ((m >>= f) s).2) : ¬Bad (m s).2 := by
  intro hbad
  refine h ?_
  rcases hrun : m s with ⟨e | a, s'⟩
  · rw [bind_error hrun]
    rw [hrun] at hbad
    exact hbad
  · rw [bind_ok hrun]
    rw [hrun] at hbad
    exact keeps s' hbad

end Sticky

/-- From `s` the program returns with a value and in a state as `Q` says, unless
that state is bad. If `G` holds of `s` it holds of that state too; `G` stands for
a reason why nothing bad can happen, and then there is no exception. -/
def UpTo (Bad G : σ → Prop) (m : Prog ε σ α) (s : σ) (Q : α → σ → Prop) : Prop :=
  ¬Bad (m s).2 ∨ G s → ∃ a s', m s = (.ok a, s') ∧ Q a s' ∧ (G s → G s')

namespace UpTo

variable {Bad G : σ → Prop} {m : Prog ε σ α} {f : α → Prog ε σ β} {s s' : σ}
  {Q R : α → σ → Prop} {S : β → σ → Prop} {a : α}

/-- A run whose end is known, with what it has to show there. -/
theorem of_ok (hm : m s = (.ok a, s')) (hQ : ¬Bad s' ∨ G s → Q a s') (hG : G s → G s') :
    UpTo Bad G m s Q := by
  intro h
  rw [hm] at h
  exact ⟨a, s', hm, hQ h, hG⟩

protected theorem pure (h : Q a s) : UpTo Bad G (pure a : Prog ε σ α) s Q :=
  .of_ok rfl (fun _ => h) id

/-- **The rule of sequencing.** -/
protected theorem bind [∀ a, Sticky Bad (f a)] (hm : UpTo Bad G m s R)
    (hf : ∀ a s', R a s' → UpTo Bad G (f a) s' S) : UpTo Bad G (m >>= f) s S := by
  intro h
  obtain ⟨a, s₁, hrun, hR, hG⟩ := hm (h.imp_left Sticky.before)
  rw [bind_ok hrun] at h ⊢
  obtain ⟨b, s₂, hrun', hS, hG'⟩ := hf a s₁ hR (h.imp_right hG)
  exact ⟨b, s₂, hrun', hS, fun hs => hG' (hG hs)⟩

/-- The same run from another state. -/
theorem of_eq {m' : Prog ε σ α} (hm : m s = m' s') (hG : G s → G s') (h : UpTo Bad G m' s' Q) :
    UpTo Bad G m s Q := by
  intro hs
  rw [hm] at hs ⊢
  obtain ⟨a, s'', hrun, hQ, hkeep⟩ := h (hs.imp_right hG)
  exact ⟨a, s'', hrun, hQ, fun hstart => hkeep (hG hstart)⟩

theorem mono (hm : UpTo Bad G m s R) (h : ∀ a s', R a s' → Q a s') : UpTo Bad G m s Q := by
  intro hs
  obtain ⟨a, s', hrun, hR, hG⟩ := hm hs
  exact ⟨a, s', hrun, h a s' hR, hG⟩

theorem mapError {g : ε → ε'} (hm : UpTo Bad G m s Q) :
    UpTo Bad G (mapError g m) s Q := by
  intro hs
  obtain ⟨a, s', hrun, hQ⟩ := hm hs
  exact ⟨a, s', mapError_ok hrun, hQ⟩

end UpTo

end Prog

end ObliviousRam
