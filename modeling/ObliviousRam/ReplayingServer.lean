import ObliviousRam.Connection
import ObliviousRam.Contract
import ObliviousRam.Trace

set_option autoImplicit false

/-!
# A server that can only replay

Values that cannot be forged come back from a server only if it was sent them.
The server may keep old ones, mix them up, lose some and refuse calls; a server
that does as it should is one case, and stays one behind a connection that fails
(`Replays.relay`).

What all that a server knows has in common, it has in common for good, as long
as no client sends it anything else.

Nothing here mentions an oblivious RAM.
-/

namespace ObliviousRam

namespace Prog

variable {ε ε' σ α ι κ : Type}

/-- The call makes nothing up: what the server knows afterwards, and what its
answer shows, it knew before or has just been sent. -/
structure Replays (knows : σ → κ → Prop) (sent : κ → Prop) (shown : α → κ → Prop)
    (m : Prog ε σ α) : Prop where
  keeps : ∀ {s c}, knows (m s).2 c → knows s c ∨ sent c
  shows : ∀ {s a s' c}, m s = (.ok a, s') → shown a c → knows s c ∨ sent c

/-- All that the server knows is in `G`. -/
def Only (knows : σ → κ → Prop) (G : κ → Prop) (s : σ) : Prop := ∀ c, knows s c → G c

namespace Replays

variable {knows : σ → κ → Prop} {sent : κ → Prop} {shown : α → κ → Prop} {G : κ → Prop}
  {m : Prog ε σ α}

/-- A property of all that is known stays, if what is sent has it. -/
theorem only (h : Replays knows sent shown m) (hsent : ∀ c, sent c → G c) {s : σ}
    (hs : Only knows G s) : Only knows G (m s).2 :=
  fun c hc => (h.keeps hc).elim (hs c) (hsent c)

/-- **What is sent is what comes back.** -/
theorem yields (h : Replays knows sent shown m) (hsent : ∀ c, sent c → G c) :
    Yields (Only knows G) m fun a => ∀ c, shown a c → G c := by
  constructor
  · intro s a s' hs hrun
    have hs' := h.only hsent hs
    rw [hrun] at hs'
    exact ⟨hs', fun c hc => (h.shows hrun hc).elim (hs c) (hsent c)⟩
  · intro s e s' hs hrun
    have hs' := h.only hsent hs
    rwa [hrun] at hs'

theorem mapError {f : ε → ε'} (h : Replays knows sent shown m) :
    Replays knows sent shown (mapError f m) :=
  ⟨h.keeps, fun hrun => h.shows (mapError_eq_ok hrun)⟩

/-- A call on a component. -/
theorem zoom {τ : Type} {sel : τ → σ} {upd : σ → τ → τ} {knows' : τ → κ → Prop}
    (h : Replays knows sent shown m) (hsel : ∀ {t c}, knows (sel t) c → knows' t c)
    (hupd : ∀ {s t c}, knows' (upd s t) c → knows' t c ∨ knows s c) :
    Replays knows' sent shown (zoom sel upd m) := by
  constructor
  · intro t c hc
    rcases hupd hc with hc | hc
    · exact .inl hc
    · exact (h.keeps hc).imp_left hsel
  · intro t a t' c hrun hc
    obtain ⟨hok, -⟩ := Prod.mk.inj hrun
    exact (h.shows (Prod.ext hok rfl) hc).imp_left hsel

/-- A connection that fails adds nothing. -/
theorem relay {m : Prog String σ α} (h : Replays knows sent shown m) :
    Replays (fun s : σ × List Delivery => knows s.1) sent shown (Delivery.relay m) := by
  constructor
  · rintro ⟨s, ds⟩ c hc
    obtain ⟨ds', hrun | ⟨message, hrun | hrun⟩⟩ := Delivery.relay_cases m s ds
    · rw [hrun] at hc
      exact h.keeps hc
    · rw [hrun] at hc
      exact .inl hc
    · rw [hrun] at hc
      exact h.keeps hc
  · rintro ⟨s, ds⟩ a s' c hrun hc
    obtain ⟨ds', hrun' | ⟨message, hrun' | hrun'⟩⟩ := Delivery.relay_cases m s ds
    · obtain ⟨hok, -⟩ := Prod.mk.inj (hrun'.symm.trans hrun)
      exact h.shows (Prod.ext hok rfl) hc
    · cases hrun'.symm.trans hrun
    · cases hrun'.symm.trans hrun

end Replays

/-- A run of calls that keep an invariant. -/
theorem Keeps.trace {fatal : ε → Bool} {call : ι → Prog ε σ α} {I : σ → Prop} {is : List ι}
    (h : ∀ i ∈ is, Keeps I (call i)) {s s' : σ} {rs : List (Except ε α)} (hs : I s)
    (hrun : trace fatal call is s = some (rs, s')) : I s' := by
  refine trace_history fatal (fun i _ => Keeps I (call i)) (fun _ s => I s) ?_ [] hs
    (Along.of_forall (fun i hi _ => h i hi) _) hrun
  intro past i s r s' hi hs hstep
  have hs' := hi s hs
  rwa [(eq_of_survive hstep).1] at hs'

end Prog

end ObliviousRam
