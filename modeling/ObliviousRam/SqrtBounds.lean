import ObliviousRam.SqrtLine

set_option autoImplicit false

/-!
# The arrays of the square-root server

The client counts the accesses of an epoch in `counter_` and the dummies it has used in
`next_dummy_`; the server has `√m` dummies and `√m` slots. What keeps the indices in
range is that an access uses a dummy only if it has found something in the shelter, and
something gets there only by an access that is counted — unless the write-back is
carried out and its answer lost, for then the access stops before it is counted.

* `sqrtOram_stays_in_bounds` — in every run, whatever calls fail, only reads of dummies
  can be out of range; and none is if no write is left stranded in that way.
* `sqrtOram_runs_out_of_dummies` — three stranded writes to one address, and the next
  access to it reads a dummy that is not there.
-/

namespace ObliviousRam

open SqrtSystem SquareRootOramController

variable {D : Type} {C : Codec D} {K : SquareRootOramConfig}

namespace SqrtRequest

/-- `Access` over the line. -/
def runOverLine (K : SquareRootOramConfig) (r : SqrtRequest C) :
    Prog Exit (SqrtSystem (SqrtLine C)) C.Sealed :=
  access (SqrtLine.stub C) K r.op r.address r.buffer r.draws

/-- The access fetches its block, and its write-back is carried out without an answer. -/
def Stranded (K : SquareRootOramConfig) (r : SqrtRequest C) (w : SqrtSystem (SqrtLine C)) : Prop :=
  (w.client.positionMap r.address).isSome = true ∧ ∃ b, w.fetched K r.address = some b ∧
    strands r.op r.address b (w.restOfCalls K) = true

end SqrtRequest

namespace SqrtSystem

/-- What holds in every run. -/
structure Answering (K : SquareRootOramConfig) (w : SqrtSystem (SqrtLine C)) : Prop where
  shaped : w.Shaped K
  initialized : w.client.isInitialized = true
  only_dummies : ∀ o ∈ w.server.overruns, o = .dummyRead

/-- What holds as long as no write is stranded: the dummies in use are at most the accesses
counted, give or take one if the shelter is empty. -/
structure WithinBounds (K : SquareRootOramConfig) (w : SqrtSystem (SqrtLine C)) : Prop where
  shaped : w.Shaped K
  initialized : w.client.isInitialized = true
  overruns_eq : w.server.overruns = []
  counter_lt : 0 < K.words → w.client.counter < K.sqrtM
  nextDummy_le : w.client.nextDummy ≤ w.client.counter + 1
  nextDummy_le_of_occupied :
    w.server.storage.Occupied → w.client.nextDummy ≤ w.client.counter

end SqrtSystem

/-- What an access finds in the shelter takes a slot. -/
theorem SqrtOramServerStorage.occupied_of_shelterHit {a : ℕ} {s : SqrtOramServerStorage C}
    (h : (s.shelterHit a).isSome = true) : s.Occupied := by
  have hfold : ∀ (slots : List (ℕ × Option C.Sealed)) (found : Option (OramBlock D)),
      (slots.foldl (lastMatch a) found).isSome = true →
        found.isSome = true ∨ ∃ t c, (t, some c) ∈ slots := by
    intro slots
    induction slots with
    | nil => exact fun found hfound => .inl hfound
    | cons e slots ih =>
      intro found hfound
      rcases ih _ hfound with hfirst | ⟨t, c, hmem⟩
      · obtain ⟨tag, content⟩ := e
        cases content with
        | none => exact .inl hfirst
        | some sealed => exact .inr ⟨tag, sealed, List.mem_cons_self⟩
      · exact .inr ⟨t, c, List.mem_cons_of_mem _ hmem⟩
  rcases hfold s.shelter none h with hnone | hsome
  · cases hnone
  · exact hsome

namespace SquareRootOramController

variable {r : SqrtRequest C} {w : SqrtSystem (SqrtLine C)}

/-- An access either makes no call, or does what `Accessed` says. -/
theorem runOverLine_cases (hsqrt : K.blockNum ≠ 0 → K.sqrtM ≠ 0) (hw : w.Shaped K)
    (hinit : w.client.isInitialized = true) (hperm : r.draws.perm.Perm (List.range K.words)) :
    (r.runOverLine K w).2 = w ∨
    (w.client.positionMap r.address).isSome = true ∧ 0 < K.words ∧ 0 < K.sqrtM ∧
      Accessed K r.op r.address r.buffer r.draws.iv w (r.runOverLine K w).2
        (r.runOverLine K w).1 := by
  by_cases hcalls : r.op = .kInvalid ∨ w.client.positionMap r.address = none
  · obtain ⟨e, hrefused⟩ := access_refused (S := SqrtLine.stub C) (K := K) hcalls r.buffer r.draws
    exact .inl (congrArg Prod.snd hrefused)
  · obtain ⟨hop, hpos⟩ := not_or.mp hcalls
    obtain ⟨t, ht⟩ := Option.ne_none_iff_exists'.mp hpos
    have hwords : 0 < K.words := Nat.zero_lt_of_lt (hw.tag_lt _ _ ht).1
    have hsize : 0 < K.sqrtM := by
      rw [SquareRootOramConfig.words] at hwords
      omega
    obtain ⟨q, w', hrun, hdone⟩ := access_line hop r.buffer hperm hsize hw hinit ht
    rw [SqrtRequest.runOverLine, hrun, ht]
    exact .inr ⟨rfl, hwords, hsize, hdone⟩

/-- **One access, whatever becomes of its calls.** -/
theorem answering_run (hsqrt : K.blockNum ≠ 0 → K.sqrtM ≠ 0)
    (hperm : r.draws.perm.Perm (List.range K.words)) (hw : w.Answering K) :
    (r.runOverLine K w).2.Answering K := by
  rcases runOverLine_cases hsqrt hw.shaped hw.initialized hperm with hsame | ⟨-, -, -, hdone⟩
  · rw [hsame]
    exact hw
  · refine ⟨hdone.shaped, hdone.initialized, fun o ho => ?_⟩
    rw [hdone.overruns_eq, List.mem_append] at ho
    rcases ho with hold | hnew
    · exact hw.only_dummies o hold
    · split at hnew
      · rw [dummyOverrun] at hnew
        split at hnew
        · exact List.mem_singleton.mp hnew
        · cases hnew
      · cases hnew

/-- **One access that is not stranded.** -/
theorem withinBounds_run (hsqrt : K.blockNum ≠ 0 → K.sqrtM ≠ 0)
    (hperm : r.draws.perm.Perm (List.range K.words)) (hstep : ¬r.Stranded K w)
    (hw : w.WithinBounds K) : (r.runOverLine K w).2.WithinBounds K := by
  rcases runOverLine_cases hsqrt hw.shaped hw.initialized hperm with
    hsame | ⟨hknown, hwords, hsize, hdone⟩
  · rw [hsame]
    exact hw
  · have hcounter := hw.counter_lt hwords
    have hslack := hw.nextDummy_le
    -- a dummy is used only if something is in the shelter
    have hhit : w.hits K r.address = true → w.client.nextDummy ≤ w.client.counter := by
      intro h
      rw [hits, Bool.and_eq_true] at h
      exact hw.nextDummy_le_of_occupied (SqrtOramServerStorage.occupied_of_shelterHit h.2)
    have hnext : (w.afterFetch K r.address).nextDummy ≤ w.client.counter + 1 := by
      show w.client.nextDummy + (if w.hits K r.address then 1 else 0) ≤ w.client.counter + 1
      split
      next h => exact Nat.succ_le_succ (hhit h)
      next => exact hslack
    have hover : (r.runOverLine K w).2.server.overruns = [] := by
      rw [hdone.overruns_eq, hw.overruns_eq, List.nil_append]
      split
      next h =>
        rw [dummyOverrun, if_neg (Nat.not_le.mpr (Nat.lt_of_le_of_lt (hhit h) hcounter))]
        rfl
      next => rfl
    have hcounters := hdone.counters_eq
    rcases hreach : (w.fetched K r.address).any
        (fun b => reachesPermute r.op r.address b (w.restOfCalls K)) with _ | _
    · -- the access is not counted, and has left nothing behind
      rw [hreach, if_neg Bool.false_ne_true] at hcounters
      obtain ⟨hc, hn⟩ := Prod.mk.inj hcounters
      refine ⟨hdone.shaped, hdone.initialized, hover, fun _ => hc ▸ hcounter,
        hn ▸ hc ▸ hnext, fun hocc => ?_⟩
      rcases hdone.occupied hocc with ⟨hold, hmiss, -⟩ | ⟨b, hb, hyes | hstrands⟩
      · rw [hn, hc, afterFetch, hmiss]
        exact hw.nextDummy_le_of_occupied hold
      · rw [hb, Option.any_some, hyes] at hreach
        cases hreach
      · exact absurd ⟨hknown, b, hb, hstrands⟩ hstep
    · -- it is counted
      rw [hreach, if_pos rfl, counted] at hcounters
      split at hcounters
      · obtain ⟨hc, hn⟩ := Prod.mk.inj hcounters
        exact ⟨hdone.shaped, hdone.initialized, hover, fun _ => hc ▸ hsize, hn ▸ Nat.zero_le _,
          fun _ => hn ▸ Nat.zero_le _⟩
      next hfull =>
        obtain ⟨hc, hn⟩ := Prod.mk.inj hcounters
        have hnotFull : w.client.counter + 1 ≠ K.sqrtM := hfull
        have hcount : (r.runOverLine K w).2.client.counter = w.client.counter + 1 := hc
        refine ⟨hdone.shaped, hdone.initialized, hover, fun _ => ?_, ?_, fun _ => ?_⟩
        · omega
        · rw [hn, hcount]
          exact Nat.le_succ_of_le hnext
        · rw [hn, hcount]
          exact hnext

end SquareRootOramController

variable {m : ℕ} {garbage : ℕ → OramBlock D} {data : List (OramBlock D)} {fill : SqrtFillDraws C}
  {ds : List Delivery} {w w' : SqrtSystem (SqrtLine C)} {requests : List (SqrtRequest C)}
  {outs : List (Except Exit C.Sealed)}

/-- The states that a run over the line reaches. -/
theorem SqrtSystem.answering_of_trace (hK : SquareRootOramConfig.new m = .ok K)
    (hfill : fillWithData (SqrtLine.stub C) K garbage data fill (atStart C K ds) = (.ok (), w))
    (hfillPerm : fill.perm.Perm (List.range K.words))
    (hperms : ∀ r ∈ requests, r.draws.perm.Perm (List.range K.words))
    (hrun : Prog.trace Exit.fatal (SqrtRequest.runOverLine K) requests w = some (outs, w')) :
    w'.Answering K := by
  obtain ⟨hshaped, hinit, -, -, hover⟩ := shaped_of_fillWithData hfill hfillPerm
  refine Prog.trace_history Exit.fatal
    (fun r _ => r.draws.perm.Perm (List.range K.words)) (fun _ w => w.Answering K)
    (fun _ r w out w' hr hw hstep => ?_) [] ⟨hshaped, hinit, hover ▸ nofun⟩
    (Prog.Along.of_forall (fun r hr _ => hperms r hr) w) hrun
  have hkeep := answering_run (SquareRootOramConfig.sqrtM_ne_zero hK) hr hw
  rwa [(Prog.eq_of_survive hstep).1] at hkeep

/-- **Indices stay in range.** After an answered load, in every run of accesses whose calls
fail as they like, before or after taking effect: nothing but the read of a dummy is ever
out of range. And as long as no write is stranded, not that either. -/
theorem sqrtOram_stays_in_bounds (hK : SquareRootOramConfig.new m = .ok K)
    (hfill : fillWithData (SqrtLine.stub C) K garbage data fill (atStart C K ds) = (.ok (), w))
    (hfillPerm : fill.perm.Perm (List.range K.words))
    (hperms : ∀ r ∈ requests, r.draws.perm.Perm (List.range K.words))
    (hrun : Prog.trace Exit.fatal (SqrtRequest.runOverLine K) requests w = some (outs, w')) :
    w'.server.storage.dummy.length = K.sqrtM ∧ (∀ o ∈ w'.server.overruns, o = .dummyRead) ∧
      (Prog.Along Exit.fatal (SqrtRequest.runOverLine K) (fun r w => ¬r.Stranded K w) requests w →
        w'.server.overruns = []) := by
  have hsqrt := SquareRootOramConfig.sqrtM_ne_zero hK
  obtain ⟨hshaped, hinit, hcounter, hnext, hover⟩ := shaped_of_fillWithData hfill hfillPerm
  have hanswering := SqrtSystem.answering_of_trace hK hfill hfillPerm hperms hrun
  refine ⟨hanswering.shaped.storage.dummy_length, hanswering.only_dummies, fun hsteps => ?_⟩
  have hbounds : w.WithinBounds K := by
    refine ⟨hshaped, hinit, hover, fun hwords => ?_, ?_, fun _ => ?_⟩
    · rw [SquareRootOramConfig.words] at hwords
      omega
    · omega
    · omega
  have hafter : w'.WithinBounds K := by
    refine Prog.trace_history Exit.fatal
      (fun r w => r.draws.perm.Perm (List.range K.words) ∧ ¬r.Stranded K w)
      (fun _ w => w.WithinBounds K) (fun _ r w out w' hr hw hstep => ?_) [] hbounds
      (Prog.Along.and hperms hsteps) hrun
    have hkeep := withinBounds_run hsqrt hr.1 hr.2 hw
    rwa [(Prog.eq_of_survive hstep).1] at hkeep
  exact hafter.overruns_eq

/-! ### A small instance -/

/-- The load passes, then three writes are stranded: each needs four calls. -/
def strandingLine : List Delivery :=
  let stranded : List Delivery := [.carried, .carried, .carried, .unanswered "Deadline Exceeded"]
  .carried :: stranded ++ stranded ++ stranded

/-- The state after the load, with the line as it will be. -/
def smallSqrtOnLine (ds : List Delivery) : SqrtSystem (SqrtLine (Codec.plain ℕ)) :=
  ⟨smallSqrtLoaded.client, smallSqrtLoaded.server, ds, []⟩

theorem smallSqrt_fillOverLine (ds : List Delivery) :
    fillWithData (SqrtLine.stub _) smallSqrt (fun _ => dummyWord) smallSqrtData smallSqrtFill
      (atStart _ smallSqrt (.carried :: ds)) = (.ok (), smallSqrtOnLine ds) := by
  have hsorted : (padded (fun _ => dummyWord) smallSqrtData smallSqrt.words).mergeSort byId =
      smallSqrtWords := List.mergeSort_of_pairwise (by decide)
  rw [fillWithData, if_neg (by decide), hsorted]
  rfl

/-- A write whose write-back is lost, and a read after it: neither is out of range. -/
theorem sqrtOram_stays_in_bounds_small :
    (Prog.trace Exit.fatal (SqrtRequest.runOverLine smallSqrt) [writeWord, readWord 0]
      (smallSqrtOnLine [.carried, .carried, .carried, .lost "Unavailable"])).map
        (fun t => t.2.server.overruns) = some [] := by
  have hgoes : (Prog.trace Exit.fatal (SqrtRequest.runOverLine smallSqrt) [writeWord, readWord 0]
      (smallSqrtOnLine [.carried, .carried, .carried, .lost "Unavailable"])).isSome = true := by
    decide
  obtain ⟨⟨outs, w'⟩, hrun⟩ := Option.isSome_iff_exists.mp hgoes
  rw [hrun, Option.map_some]
  have hperms : ∀ r ∈ [writeWord, readWord 0], r.draws.perm.Perm (List.range smallSqrt.words) := by
    intro r hr
    rw [List.mem_pair] at hr
    rcases hr with rfl | rfl <;> decide
  have hlost : Delivery.unheard ((smallSqrtOnLine [.carried, .carried, .carried,
      .lost "Unavailable"]).restOfCalls smallSqrt) = false := rfl
  refine congrArg some ((sqrtOram_stays_in_bounds smallSqrt_new (smallSqrt_fillOverLine _)
    (by decide) hperms hrun).2.2 (.cons ?_ (.cons ?_ trivial)))
  · rintro ⟨-, b, -, hstrands⟩
    rw [strands, hlost, Bool.and_false] at hstrands
    cases hstrands
  · rintro ⟨-, b, -, hstrands⟩
    rw [strands, readWord, bne_self_eq_false, Bool.and_false] at hstrands
    cases hstrands

/-- Three stranded writes to one address: no access is counted, both dummies are used. The
next access reads a third. -/
theorem sqrtOram_runs_out_of_dummies :
    SquareRootOramConfig.new 2 = .ok smallSqrt ∧
    fillWithData (SqrtLine.stub _) smallSqrt (fun _ => dummyWord) smallSqrtData smallSqrtFill
      (atStart _ smallSqrt strandingLine) = (.ok (), smallSqrtOnLine (strandingLine.drop 1)) ∧
    (Prog.trace Exit.fatal (SqrtRequest.runOverLine smallSqrt) [writeWord, writeWord, writeWord]
      (smallSqrtOnLine (strandingLine.drop 1))).map (fun t =>
        (t.2.client.counter, t.2.client.nextDummy, t.2.server.overruns)) = some (0, 2, []) ∧
    (Prog.trace Exit.fatal (SqrtRequest.runOverLine smallSqrt)
      [writeWord, writeWord, writeWord, readWord 0] (smallSqrtOnLine (strandingLine.drop 1))).map
        (fun t => t.2.server.overruns) = some [.dummyRead] :=
  ⟨smallSqrt_new, smallSqrt_fillOverLine _, by decide, by decide⟩

end ObliviousRam
