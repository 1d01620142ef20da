import ObliviousRam.Prog

set_option autoImplicit false

/-!
# Remote calls that are watched, and remote calls that fail

A client reaches its server through a few remote calls. Three ways to wrap such
a call, none of which the client can see:

* `logged` — write down that the call was made. A **trace** of a client is what
  its logged calls have written.
* `Fault.inject` — let one call of a run fail, with or without its effect.
* `Delivery.relay` — say of every call of a run what becomes of it.

Nothing here mentions an oblivious RAM.
-/

namespace ObliviousRam

namespace Prog

variable {ε σ ω : Type} {α : Type}

/-- Make the call and write the event down. -/
def logged (event : ω) (m : Prog ε σ α) : Prog ε (σ × List ω) α := fun s =>
  ((m s.1).1, (m s.1).2, s.2 ++ [event])

/-- The state behind a log. -/
def Behind (s : σ) (t : σ × List ω) : Prop := t.1 = s

/-- A client does not notice that its calls are written down. -/
theorem relates_logged (event : ω) (m : Prog ε σ α) :
    Relates Behind Eq m (logged event m) := by
  rintro s t rfl
  exact ⟨agree_eq.mpr rfl, rfl⟩

/-- A logged call that returns has written its event behind the others. -/
theorem logged_ok {event : ω} {m : Prog ε σ α} {t t' : σ × List ω} {a : α}
    (h : logged event m t = (.ok a, t')) : t'.2 = t.2 ++ [event] := by
  rw [logged] at h
  exact (congrArg (fun p => p.2.2) h).symm

end Prog

/-- One call of a run that fails. -/
structure Fault where
  /-- how many calls go through before it -/
  call : ℕ
  /-- the server has carried the call out -/
  tookEffect : Bool
  /-- what the client is told -/
  message : String

namespace Fault

variable {σ : Type} {α : Type} (f : Fault)

/-- A remote call, with the number of calls to the fault beside the server;
`none` when it has happened. -/
def inject (m : Prog String σ α) : Prog String (σ × Option ℕ) α := fun s =>
  match s.2 with
  | none => ((m s.1).1, (m s.1).2, none)
  | some (k + 1) => ((m s.1).1, (m s.1).2, some k)
  | some 0 => (.error f.message, if f.tookEffect then (m s.1).2 else s.1, none)

/-- The server of a run whose fault is over. -/
def Over (s : σ) (t : σ × Option ℕ) : Prop := t = (s, none)

/-- After the fault, the connection is an ordinary one. -/
theorem relates_inject (m : Prog String σ α) : Prog.Relates Over Eq m (f.inject m) := by
  rintro s t rfl
  exact ⟨Prog.agree_eq.mpr rfl, rfl⟩

theorem inject_later {m : Prog String σ α} {s s' : σ} {r : Except String α} {k : ℕ}
    (h : m s = (r, s')) : f.inject m (s, some (k + 1)) = (r, s', some k) := by
  simp only [inject, h]

theorem inject_now (m : Prog String σ α) (s : σ) :
    f.inject m (s, some 0) = (.error f.message, if f.tookEffect then (m s).2 else s, none) := rfl

end Fault

/-- What becomes of a call. -/
inductive Delivery where
  | carried
  /-- the call does not get to the server -/
  | lost (message : String)
  /-- the call is carried out, and the client does not learn of it -/
  | unanswered (message : String)

namespace Delivery

variable {σ : Type} {α : Type}

/-- A remote call over a connection that fails as the list says; past the list,
every call is carried out. -/
def relay (m : Prog String σ α) : Prog String (σ × List Delivery) α := fun s =>
  match s.2 with
  | [] => ((m s.1).1, (m s.1).2, [])
  | carried :: ds => ((m s.1).1, (m s.1).2, ds)
  | lost message :: ds => (.error message, s.1, ds)
  | unanswered message :: ds => (.error message, (m s.1).2, ds)

/-- Over any connection, a call is carried out, or the client is told of a
failure; then the server may have carried it out or not. -/
theorem relay_cases (m : Prog String σ α) (s : σ) (ds : List Delivery) :
    ∃ ds', relay m (s, ds) = ((m s).1, (m s).2, ds') ∨
      ∃ message, relay m (s, ds) = (.error message, s, ds') ∨
        relay m (s, ds) = (.error message, (m s).2, ds') := by
  rcases ds with _ | ⟨_ | message | message, ds⟩
  · exact ⟨[], .inl rfl⟩
  · exact ⟨ds, .inl rfl⟩
  · exact ⟨ds, .inr ⟨message, .inl rfl⟩⟩
  · exact ⟨ds, .inr ⟨message, .inr rfl⟩⟩

/-- No call has an effect that the client does not learn of. -/
def Clean (ds : List Delivery) : Prop := ∀ d ∈ ds, ∀ message, d ≠ unanswered message

theorem Clean.tail {d : Delivery} {ds : List Delivery} (h : Clean (d :: ds)) : Clean ds :=
  fun d' hd' => h d' (List.mem_cons_of_mem _ hd')

/-- Over a clean connection, a call is carried out or leaves the server alone. -/
theorem relay_clean (m : Prog String σ α) (s : σ) {ds : List Delivery} (hds : Clean ds) :
    ∃ ds', Clean ds' ∧ (relay m (s, ds) = ((m s).1, (m s).2, ds') ∨
      ∃ message, relay m (s, ds) = (.error message, s, ds')) := by
  rcases ds with _ | ⟨_ | message | message, ds⟩
  · exact ⟨[], hds, .inl rfl⟩
  · exact ⟨ds, hds.tail, .inl rfl⟩
  · exact ⟨ds, hds.tail, .inr ⟨message, rfl⟩⟩
  · exact absurd rfl (hds _ List.mem_cons_self message)

end Delivery

end ObliviousRam
