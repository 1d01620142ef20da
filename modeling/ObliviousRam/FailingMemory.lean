import ObliviousRam.Trace

set_option autoImplicit false

/-!
# A memory whose calls may fail

Who reads and writes a memory over a connection that fails knows what its
addresses can hold, but not always what they do: a write that has failed has
happened or not, and a later read settles which. `possible` is that knowledge,
after any history of calls with their outcomes.

Nothing here mentions an oblivious RAM.
-/

namespace ObliviousRam

variable {κ υ ε : Type}

/-- What a call asks of a memory. -/
inductive MemoryCall (κ υ : Type) where
  /-- a call that concerns no address -/
  | other
  | read (a : κ)
  | write (a : κ) (v : υ)

namespace MemoryCall

/-- What the addresses can hold once the call has failed: a write has happened, or not. -/
def failed (V : κ → υ → Prop) : MemoryCall κ υ → κ → υ → Prop
  | other | read _ => V
  | write a v => fun k u => V k u ∨ k = a ∧ u = v ∧ ∃ p, V a p

variable {V : κ → υ → Prop} {c : MemoryCall κ υ} {k a : κ} {u v p : υ} {out : Option υ}

/-- A failed call may have had no effect. -/
theorem failed_of (h : V k u) : c.failed V k u := by
  cases c with
  | other => exact h
  | read _ => exact h
  | write _ _ => exact .inl h

/-- A call puts nothing where there was nothing. -/
theorem exists_of_failed (h : c.failed V k v) : ∃ u, V k u := by
  cases c with
  | other => exact ⟨v, h⟩
  | read _ => exact ⟨v, h⟩
  | write a u =>
    rcases h with h | ⟨rfl, -, h⟩
    · exact ⟨v, h⟩
    · exact h

variable [DecidableEq κ]

/-- What they can hold once it has returned `out`. -/
def returned (V : κ → υ → Prop) (out : Option υ) : MemoryCall κ υ → κ → υ → Prop
  | other => V
  | read a => fun k u => V k u ∧ (k = a → out = some u)
  | write a v => fun k u => if k = a then u = v ∧ ∃ p, V a p else V k u

/-- A write that has returned settles its own address. -/
theorem returned_write_self (h : V a p) : (write a v).returned V out a v :=
  (if_pos rfl : _ = (v = v ∧ ∃ p, V a p)).mpr ⟨rfl, p, h⟩

theorem returned_write_of_ne (hk : k ≠ a) (h : V k u) : (write a v).returned V out k u :=
  (if_neg hk : _ = V k u).mpr h

/-- A failed call may have had its effect. -/
theorem failed_of_returned (h : c.returned V out k u) : c.failed V k u := by
  cases c with
  | other => exact h
  | read _ => exact h.1
  | write a v =>
    rw [returned] at h
    split at h
    next hk => exact .inr ⟨hk, h⟩
    next => exact .inl h

/-- What they can hold after the call. -/
def after (V : κ → υ → Prop) (p : MemoryCall κ υ × Except ε (Option υ)) : κ → υ → Prop :=
  match p.2 with
  | .ok out => p.1.returned V out
  | .error _ => p.1.failed V

/-- A call makes nothing possible at an address that could hold nothing before it. -/
theorem exists_of_after {p : MemoryCall κ υ × Except ε (Option υ)} (h : after V p k v) :
    ∃ u, V k u := by
  rcases p with ⟨c, e | out⟩
  · exact exists_of_failed (c := c) h
  · exact exists_of_failed (c := c) (failed_of_returned h)

/-- What they can hold after a history, if they held `initial` before it. -/
def possible (initial : κ → Option υ) (history : List (MemoryCall κ υ × Except ε (Option υ))) :
    κ → υ → Prop :=
  history.foldl after fun a v => initial a = some v

theorem possible_snoc (initial : κ → Option υ)
    (history : List (MemoryCall κ υ × Except ε (Option υ)))
    (p : MemoryCall κ υ × Except ε (Option υ)) :
    possible initial (history ++ [p]) = after (possible initial history) p := by
  rw [possible, List.foldl_append]
  rfl

/-- After any history, what an address can hold is due to an address that was there at the start. -/
theorem exists_of_possible {initial : κ → Option υ}
    {history : List (MemoryCall κ υ × Except ε (Option υ))} (h : possible initial history k v) :
    ∃ u, initial k = some u := by
  induction history using List.reverseRecOn generalizing v with
  | nil => exact ⟨v, h⟩
  | append_singleton history p ih =>
    rw [possible_snoc] at h
    obtain ⟨u, hu⟩ := exists_of_after h
    exact ih hu

end MemoryCall

end ObliviousRam
