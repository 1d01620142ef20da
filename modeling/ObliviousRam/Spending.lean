import ObliviousRam.Trace
import Mathlib.Algebra.BigOperators.Group.Finset.Basic
import Mathlib.Algebra.Ring.Nat

set_option autoImplicit false

/-!
# What a program spends

A meter is a number that is read off the state. `Prog.Spends` bounds how far a
program drives it, whatever the outcome; `Prog.Costs` says how far exactly, for
a program that returns. Both carry an invariant, which the bound may need, and
both add up: along a sequence, and along a run of calls.
-/

namespace ObliviousRam

namespace Prog

variable {ε ε' σ α β ι : Type}

/-- `m` keeps `I` and drives the meter up by at most `k`, whatever the outcome. -/
def Spends (meter : σ → ℕ) (I : σ → Prop) (k : ℕ) (m : Prog ε σ α) : Prop :=
  ∀ s, I s → I (m s).2 ∧ meter (m s).2 ≤ meter s + k

/-- If `m` returns, it leads from `I` to `J`, and the meter is up by `k`. -/
def Costs (meter : σ → ℕ) (I : σ → Prop) (k : ℕ) (J : σ → Prop) (m : Prog ε σ α) : Prop :=
  ∀ s a s', I s → m s = (.ok a, s') → J s' ∧ meter s' = meter s + k

variable {meter : σ → ℕ} {I J K : σ → Prop} {k l : ℕ} {m : Prog ε σ α} {f : α → Prog ε σ β}

namespace Spends

/-- What makes no step spends nothing. -/
theorem pure (a : α) : Spends meter I 0 (pure a : Prog ε σ α) := fun _ hs => ⟨hs, Nat.le_refl _⟩

theorem throw (e : ε) : Spends meter I 0 (throw e : Prog ε σ α) := fun _ hs => ⟨hs, Nat.le_refl _⟩

/-- A change of the rest of the state is free. -/
theorem modify {g : σ → σ} (hg : ∀ s, I s → I (g s)) (hmeter : ∀ s, meter (g s) = meter s) :
    Spends meter I 0 (modify g : Prog ε σ Unit) :=
  fun s hs => ⟨hg s hs, Nat.le_of_eq (hmeter s)⟩

/-- A bound may be raised. -/
theorem mono (h : Spends meter I k m) (hkl : k ≤ l) : Spends meter I l m :=
  fun s hs => ⟨(h s hs).1, Nat.le_trans (h s hs).2 (Nat.add_le_add_left hkl _)⟩

/-- Two steps spend what each of them does, and the second no more if the first fails. -/
theorem bind (hm : Spends meter I k m) (hf : ∀ a, Spends meter I l (f a)) :
    Spends meter I (k + l) (m >>= f) := by
  intro s hs
  obtain ⟨hI, hle⟩ := hm s hs
  rcases h : m s with ⟨e | a, s₁⟩
  · rw [h] at hI hle
    rw [bind_error h]
    exact ⟨hI, Nat.le_trans hle (Nat.add_le_add_left (Nat.le_add_right k l) _)⟩
  · rw [h] at hI hle
    obtain ⟨hI', hle'⟩ := hf a s₁ hI
    rw [bind_ok h, ← Nat.add_assoc]
    exact ⟨hI', Nat.le_trans hle' (Nat.add_le_add_right hle l)⟩

/-- A sequence of which only the second half spends anything. -/
theorem free_bind (hm : Spends meter I 0 m) (hf : ∀ a, Spends meter I k (f a)) :
    Spends meter I k (m >>= f) :=
  (hm.bind hf).mono (Nat.le_of_eq (Nat.zero_add k))

theorem get_bind {g : σ → Prog ε σ α} (hg : ∀ w, Spends meter I k (g w)) :
    Spends meter I k (get >>= g) := by
  intro s hs
  rw [Prog.get_bind]
  exact hg s s hs

/-- The error that is reported makes no difference. -/
theorem mapError {g : ε → ε'} (hm : Spends meter I k m) : Spends meter I k (mapError g m) := hm

/-- A loop spends its turns. -/
theorem forEach {f : ι → Prog ε σ Unit} {is : List ι} (h : ∀ i ∈ is, Spends meter I k (f i)) :
    Spends meter I (is.length * k) (forEach f is) := by
  induction is with
  | nil => exact (pure ()).mono (Nat.zero_le _)
  | cons i is ih =>
    rw [List.length_cons, Nat.succ_mul, Nat.add_comm]
    exact (h i List.mem_cons_self).bind fun _ => ih fun j hj => h j (List.mem_cons_of_mem _ hj)

/-- **A part of a system.** The meter of the whole is the sum over its parts. -/
theorem component {τ κ : Type} [DecidableEq κ] {part : τ → κ → σ} {put : κ → σ → τ → τ}
    (hput : ∀ i u t, part (put i u t) = Function.update (part t) i u) (meters : κ → σ → ℕ)
    (Is : κ → σ → Prop) {i : κ} (hm : Spends (meters i) (Is i) k m) (s : Finset κ) :
    Spends (fun t => ∑ j ∈ s, meters j (part t j)) (fun t => ∀ j ∈ s, Is j (part t j)) k
      (zoom (fun t => part t i) (put i) m) := by
  intro t ht
  have hself : part (put i (m (part t i)).2 t) i = (m (part t i)).2 := by
    rw [hput, Function.update_self]
  have hne : ∀ j, j ≠ i → part (put i (m (part t i)).2 t) j = part t j := by
    intro j hj
    rw [hput, Function.update_of_ne hj]
  change (∀ j ∈ s, Is j (part (put i (m (part t i)).2 t) j)) ∧
    ∑ j ∈ s, meters j (part (put i (m (part t i)).2 t) j) ≤ ∑ j ∈ s, meters j (part t j) + k
  by_cases hi : i ∈ s
  · obtain ⟨hI, hle⟩ := hm (part t i) (ht i hi)
    constructor
    · intro j hj
      by_cases he : j = i
      · subst he
        rwa [hself]
      · rw [hne j he]
        exact ht j hj
    · have hrest : ∑ j ∈ s.erase i, meters j (part (put i (m (part t i)).2 t) j) =
          ∑ j ∈ s.erase i, meters j (part t j) :=
        Finset.sum_congr rfl fun j hj => by rw [hne j (Finset.ne_of_mem_erase hj)]
      rw [← Finset.add_sum_erase s _ hi, ← Finset.add_sum_erase s _ hi, hself, hrest]
      omega
  · -- a part that does not count
    have hall : ∀ j ∈ s, part (put i (m (part t i)).2 t) j = part t j :=
      fun j hj => hne j fun he => hi (he ▸ hj)
    constructor
    · intro j hj
      rw [hall j hj]
      exact ht j hj
    · rw [Finset.sum_congr rfl fun j hj => by rw [hall j hj]]
      exact Nat.le_add_right _ _

/-- **A run** spends what its calls may spend. -/
theorem trace {fatal : ε → Bool} {call : ι → Prog ε σ α} {is : List ι}
    (h : ∀ i ∈ is, Spends meter I k (call i)) {s s' : σ} {rs : List (Except ε α)} (hs : I s)
    (hrun : trace fatal call is s = some (rs, s')) :
    I s' ∧ meter s' ≤ meter s + is.length * k := by
  induction is generalizing s rs with
  | nil =>
    cases hrun
    exact ⟨hs, Nat.le_add_right _ _⟩
  | cons i is ih =>
    obtain ⟨r, s₁, rs', hfirst, hrest, rfl⟩ := trace_cons_eq_some hrun
    obtain ⟨hcall, -⟩ := eq_of_survive hfirst
    obtain ⟨hI, hle⟩ := h i List.mem_cons_self s hs
    rw [hcall] at hI hle
    obtain ⟨hI', hle'⟩ := ih (fun j hj => h j (List.mem_cons_of_mem _ hj)) hI hrest
    refine ⟨hI', Nat.le_trans hle' ?_⟩
    rw [List.length_cons, Nat.succ_mul]
    omega

end Spends

namespace Costs

theorem pure (a : α) : Costs meter I 0 I (pure a : Prog ε σ α) := by
  rintro s _ _ hs ⟨⟩
  exact ⟨hs, rfl⟩

theorem throw (e : ε) : Costs meter I k J (throw e : Prog ε σ α) := by
  rintro s _ _ _ ⟨⟩

theorem modify {g : σ → σ} (hg : ∀ s, I s → J (g s)) (hmeter : ∀ s, meter (g s) = meter s) :
    Costs meter I 0 J (modify g : Prog ε σ Unit) := by
  rintro s _ _ hs ⟨⟩
  exact ⟨hg s hs, hmeter s⟩

theorem bind (hm : Costs meter I k J m) (hf : ∀ a, Costs meter J l K (f a)) :
    Costs meter I (k + l) K (m >>= f) := by
  intro s b s' hs h
  obtain ⟨a, s₁, h₁, h₂⟩ := bind_eq_ok h
  obtain ⟨hJ, hmeter⟩ := hm s a s₁ hs h₁
  obtain ⟨hK, hmeter'⟩ := hf a s₁ b s' hJ h₂
  exact ⟨hK, by omega⟩

/-- A sequence of which only the second half costs anything. -/
theorem free_bind (hm : Costs meter I 0 J m) (hf : ∀ a, Costs meter J k K (f a)) :
    Costs meter I k K (m >>= f) := by
  have h := hm.bind hf
  rwa [Nat.zero_add] at h

theorem get_bind {g : σ → Prog ε σ α} (hg : ∀ w, Costs meter I k J (g w)) :
    Costs meter I k J (get >>= g) := by
  intro s a s' hs h
  rw [Prog.get_bind] at h
  exact hg s s a s' hs h

theorem mapError {g : ε → ε'} (hm : Costs meter I k J m) : Costs meter I k J (mapError g m) :=
  fun s a s' hs h => hm s a s' hs (mapError_eq_ok h)

/-- **A run** whose calls all return costs what they cost. -/
theorem trace {fatal : ε → Bool} {call : ι → Prog ε σ α} {is : List ι}
    (h : ∀ i ∈ is, Costs meter I k I (call i)) {s s' : σ} {rs : List (Except ε α)} (hs : I s)
    (hrun : trace fatal call is s = some (rs, s')) (hok : ∀ r ∈ rs, r.isOk = true) :
    I s' ∧ meter s' = meter s + is.length * k := by
  induction is generalizing s rs with
  | nil =>
    cases hrun
    exact ⟨hs, by simp⟩
  | cons i is ih =>
    obtain ⟨r, s₁, rs', hfirst, hrest, rfl⟩ := trace_cons_eq_some hrun
    obtain ⟨hcall, -⟩ := eq_of_survive hfirst
    obtain ⟨a, rfl⟩ : ∃ a, r = .ok a := by
      rcases r with e | a
      · cases hok _ List.mem_cons_self
      · exact ⟨a, rfl⟩
    obtain ⟨hI, hmeter⟩ := h i List.mem_cons_self s a s₁ hs hcall
    obtain ⟨hI', hmeter'⟩ := ih (fun j hj => h j (List.mem_cons_of_mem _ hj)) hI hrest
      fun r hr => hok r (List.mem_cons_of_mem _ hr)
    refine ⟨hI', ?_⟩
    rw [List.length_cons, Nat.succ_mul]
    omega

end Costs

end Prog

end ObliviousRam
