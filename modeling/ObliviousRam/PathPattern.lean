import ObliviousRam.PathSimulation
import ObliviousRam.PathPresence

set_option autoImplicit false

/-!
# The access pattern of a Path ORAM

A run of accesses of a standalone controller, with a server that keeps a log.
Every access adds the pattern of one path, and that path is a random choice that
nothing else depends on: the position drawn by the last access to the same
address (`lastBefore`), or by `FillWithData`. Two accesses never reveal the same
draw.

An access shows all that only if it returns, and it returns if it finds its
block (`PathPresence`). So the run is one over the addresses that the load has
room for: `FillWithData` answers `OK` to data that does not fit, and an access to
a block that it has dropped reads a path and writes none.
-/

namespace ObliviousRam

open PathSystem PathOramController

variable {D : Type} {C : Codec D} {P : PathOramConfig}

namespace PathRequest

/-- `Access`, with a server that keeps a log. -/
def runLogged (P : PathOramConfig) (r : PathRequest C) :
    Prog Exit (PathSystem D (TreeOramServerStorage C × List TreeEvent)) (OramBlock D) :=
  PathOramController.access (loggedTreeStub (OramService.stub C P.id)) P r.op r.address r.buffer
    r.draws

/-- The position that an access draws for its address. -/
def drawn (P : PathOramConfig) (r : PathRequest C) : ℕ := r.draws.position % P.numberOfLeafs

/-- The last of the first `i` requests that is to address `a`, with its number. -/
def lastBefore (requests : List (PathRequest C)) (a : ℕ) : ℕ → Option (ℕ × PathRequest C)
  | 0 => none
  | i + 1 =>
    match requests[i]? with
    | none => lastBefore requests a i
    | some q => if q.address = a then some (i, q) else lastBefore requests a i

/-- The path that an access to `a` after `i` requests goes along: the position
drawn last, or the one that the map had to begin with. -/
def revealed (P : PathOramConfig) (m : ℕ → ℕ) (requests : List (PathRequest C)) (a i : ℕ) : ℕ :=
  match lastBefore requests a i with
  | none => m a
  | some (_, q) => q.drawn P

variable {requests : List (PathRequest C)}

theorem lastBefore_some {a i j : ℕ} {q : PathRequest C} (h : lastBefore requests a i = some (j, q)) :
    j < i ∧ requests[j]? = some q ∧ q.address = a ∧
      ∀ k r, j < k → k < i → requests[k]? = some r → r.address ≠ a := by
  induction i with
  | zero => cases h
  | succ i ih =>
    have hlater : lastBefore requests a i = some (j, q) →
        (∀ r, requests[i]? = some r → r.address ≠ a) →
        j < i + 1 ∧ requests[j]? = some q ∧ q.address = a ∧
          ∀ k r, j < k → k < i + 1 → requests[k]? = some r → r.address ≠ a := by
      intro hlast hi
      obtain ⟨hlt, hj, ha, hnone⟩ := ih hlast
      refine ⟨Nat.lt_succ_of_lt hlt, hj, ha, fun k r hjk hk hr => ?_⟩
      cases Nat.lt_succ_iff_lt_or_eq.mp hk with
      | inl hk => exact hnone k r hjk hk hr
      | inr hk => exact hi r (hk ▸ hr)
    rw [lastBefore] at h
    cases hi : requests[i]? with
    | none =>
      rw [hi] at h
      exact hlater h fun r hr => nomatch hi.symm.trans hr
    | some r =>
      simp only [hi] at h
      split at h
      next ha =>
        cases h
        exact ⟨Nat.lt_succ_self _, hi, ha, fun k r hik hk _ =>
          absurd hk (Nat.not_lt.mpr (Nat.succ_le_of_lt hik))⟩
      next ha =>
        refine hlater h fun r' hr' => ?_
        cases hi.symm.trans hr'
        exact ha

/-- An address that has no last access before `i` has none before `i`. -/
theorem lastBefore_none {a i : ℕ} (h : lastBefore requests a i = none) {k : ℕ} {r : PathRequest C}
    (hk : k < i) (hr : requests[k]? = some r) : r.address ≠ a := by
  induction i with
  | zero => exact absurd hk (Nat.not_lt_zero k)
  | succ i ih =>
    rw [lastBefore] at h
    cases hi : requests[i]? with
    | none =>
      rw [hi] at h
      cases Nat.lt_succ_iff_lt_or_eq.mp hk with
      | inl hk => exact ih h hk
      | inr hk =>
        subst hk
        cases hi.symm.trans hr
    | some r' =>
      simp only [hi] at h
      split at h
      next => cases h
      next ha =>
        cases Nat.lt_succ_iff_lt_or_eq.mp hk with
        | inl hk => exact ih h hk
        | inr hk =>
          subst hk
          cases hi.symm.trans hr
          exact ha

/-- A draw is the last one for its address at one access only. -/
theorem lastBefore_inj {i i' j : ℕ} {r r' q : PathRequest C} (hr : requests[i]? = some r)
    (hr' : requests[i']? = some r') (h : lastBefore requests r.address i = some (j, q))
    (h' : lastBefore requests r'.address i' = some (j, q)) : i = i' := by
  obtain ⟨hlt, -, ha, hnone⟩ := lastBefore_some h
  obtain ⟨hlt', -, ha', hnone'⟩ := lastBefore_some h'
  rcases Nat.lt_trichotomy i i' with hi | hi | hi
  · exact absurd (ha.symm.trans ha') (hnone' i r hlt hi hr)
  · exact hi
  · exact absurd (ha'.symm.trans ha) (hnone i' r' hlt' hi hr')

/-- An address is accessed for the first time once. -/
theorem first_inj {i i' : ℕ} {r r' : PathRequest C} (hr : requests[i]? = some r)
    (hr' : requests[i']? = some r') (ha : r'.address = r.address)
    (h : lastBefore requests r.address i = none) (h' : lastBefore requests r'.address i' = none) :
    i = i' := by
  rcases Nat.lt_trichotomy i i' with hi | hi | hi
  · exact absurd ha.symm (lastBefore_none h' hi hr)
  · exact hi
  · exact absurd ha (lastBefore_none h hi hr')

theorem lastBefore_succ {a i : ℕ} {r : PathRequest C} (hr : requests[i]? = some r) :
    lastBefore requests a (i + 1) =
      if r.address = a then some (i, r) else lastBefore requests a i := by
  rw [lastBefore, hr]

/-- An access determines what the next one to its address reveals, and nothing else. -/
theorem revealed_succ {m : ℕ → ℕ} {a i : ℕ} {r : PathRequest C} (hr : requests[i]? = some r) :
    revealed P m requests a (i + 1) =
      if a = r.address then r.drawn P else revealed P m requests a i := by
  rw [revealed, lastBefore_succ hr]
  by_cases ha : r.address = a
  · rw [if_pos ha, if_pos ha.symm]
  · rw [if_neg ha, if_neg fun he => ha he.symm, revealed]

/-- The paths of a run, one after the other. -/
def paths (P : PathOramConfig) (m : ℕ → ℕ) (requests : List (PathRequest C)) : List ℕ :=
  requests.mapIdx fun i r => revealed P m requests r.address i

end PathRequest

/-! ## A run, access by access

What is carried along is that the server has logged the patterns so far, that the
positions are those which the next accesses will reveal, and that every address aimed at
can still be found. -/

/-- A read or a write of one of the addresses. -/
structure PathRequest.AimsAt (addresses : ℕ → Prop) (r : PathRequest C) : Prop where
  op_valid : r.op = .kRead ∨ r.op = .kWrite
  address : addresses r.address

/-- `kInvalid` is not among the operations of a client. -/
theorem PathRequest.AimsAt.op_ne {addresses : ℕ → Prop} {r : PathRequest C}
    (hr : r.AimsAt addresses) : r.op ≠ .kInvalid := by
  rcases hr.op_valid with h | h <;> rw [h] <;> decide

/-- The requests of a client that knows what it has loaded, if all of it has fitted. -/
theorem PathRequest.Proper.aimsAt {data : List (OramBlock D)} (hlen : data.length ≤ P.capacity)
    {r : PathRequest C} (hr : r.Proper data) : r.AimsAt (RoomFor P data) :=
  ⟨hr.op_valid, roomFor_of_length_le hlen hr.loaded⟩

/-- What holds between two accesses of a run with a log. -/
structure PathSystem.Logged (P : PathOramConfig) (addresses : ℕ → Prop) (positions : ℕ → ℕ)
    (w : PathSystem D (TreeOramServerStorage C × List TreeEvent)) : Prop where
  presents : (⟨w.client, w.server.1⟩ : PathSystem D (TreeOramServerStorage C)).Presents P addresses
  positions : ∀ a, w.client.positionMap.index a = positions a

/-- One access: it returns, shows the path of its address, and replaces that
position by the one it has drawn. -/
theorem PathRequest.runLogged_spec {addresses : ℕ → Prop} {r : PathRequest C}
    (hstand : P.standalone = true) (hr : r.AimsAt addresses) {m : ℕ → ℕ}
    {w : PathSystem D (TreeOramServerStorage C × List TreeEvent)} (hw : w.Logged P addresses m) :
    ∃ out w', r.runLogged P w = (.ok out, w') ∧
      w'.Logged P addresses (fun a => if a = r.address then r.drawn P else m a) ∧
      w'.server.2 = w.server.2 ++ pattern P (m r.address) := by
  obtain ⟨out, v, hrun, hv⟩ := access_presents hstand hr.op_ne hr.address r.buffer r.draws
    hw.presents
  -- the controller does not notice the log
  obtain ⟨hagree, hclient, hserver⟩ := (simulates_loggedTreeStub (OramService.stub C P.id)).access
    (P := P) r.op r.address r.buffer r.draws ⟨w.client, w.server.1⟩ w ⟨rfl, rfl⟩
  rw [Prog.agree_eq] at hagree
  rw [hrun] at hagree hclient hserver
  cases hlogged : r.runLogged P w with
  | mk res w' =>
    rw [runLogged] at hlogged
    rw [hlogged] at hagree hclient hserver
    cases hagree
    have hv' : (⟨w'.client, w'.server.1⟩ : PathSystem D (TreeOramServerStorage C)) = v := by
      rw [← hclient, hserver]
    refine ⟨out, w', rfl, ⟨hv' ▸ hv, fun a => ?_⟩, ?_⟩
    · rw [access_positions hstand hlogged a, hw.positions a, drawn]
    · rw [access_pattern hlogged, hw.positions]

/-- The first `i` accesses of a run. -/
theorem logged_run {P : PathOramConfig} (hstand : P.standalone = true) {addresses : ℕ → Prop}
    {w : PathSystem D (TreeOramServerStorage C)} (hw : w.Presents P addresses)
    {requests : List (PathRequest C)} (haims : ∀ r ∈ requests, r.AimsAt addresses)
    (log : List TreeEvent) (i : ℕ) :
    ∃ (outs : List (OramBlock D)) (v : PathSystem D (TreeOramServerStorage C × List TreeEvent)),
      Prog.trace Exit.fatal (PathRequest.runLogged P) (requests.take i) (w.withLog log) =
        some (outs.map .ok, v) ∧
      v.Logged P addresses (fun a =>
        PathRequest.revealed P w.client.positionMap.index requests a (requests.take i).length) ∧
      v.server.2 = log ++ ((PathRequest.paths P w.client.positionMap.index requests).take
        (requests.take i).length).flatMap (pattern P) := by
  refine Prog.trace_total Exit.fatal (fun (r : PathRequest C) _ => r.AimsAt addresses)
    (fun past (v : PathSystem D (TreeOramServerStorage C × List TreeEvent)) =>
      v.Logged P addresses (fun a =>
        PathRequest.revealed P w.client.positionMap.index requests a past.length) ∧
      v.server.2 = log ++ ((PathRequest.paths P w.client.positionMap.index requests).take
        past.length).flatMap (pattern P)) ?_ ⟨⟨hw, fun a => rfl⟩, (List.append_nil _).symm⟩
    (Prog.Along.of_forall (fun r hr _ => haims r (List.mem_of_mem_take hr)) _)
  rintro past r rest v hsplit hr ⟨hlogged, hlog⟩
  obtain ⟨out, v', hrun, hlogged', hlog'⟩ := r.runLogged_spec hstand hr hlogged
  -- the request is the one after `past`
  have hget : requests[past.length]? = some r := by
    have hlt : past.length < i := by
      have hlen := congrArg List.length hsplit
      rw [List.length_take, List.length_append, List.length_cons] at hlen
      omega
    rw [← List.getElem?_take_of_lt hlt, hsplit, List.getElem?_append_right (Nat.le_refl _),
      Nat.sub_self]
    rfl
  refine ⟨out, v', hrun, ⟨hlogged'.presents, fun a => ?_⟩, ?_⟩
  · rw [hlogged'.positions, List.length_append, List.length_singleton,
      PathRequest.revealed_succ hget]
  · have hpath : (PathRequest.paths P w.client.positionMap.index requests)[past.length]? =
        some (PathRequest.revealed P w.client.positionMap.index requests r.address
          past.length) := by
      rw [PathRequest.paths, List.getElem?_mapIdx, hget]
      rfl
    rw [hlog', hlog, List.length_append, List.length_singleton, List.take_add_one, hpath,
      List.flatMap_append, List.append_assoc]
    simp only [Option.toList_some, List.flatMap_cons, List.flatMap_nil, List.append_nil]

/-- **What a run of accesses shows.** Every access of a standalone controller to an
address that the load had room for adds to the log the reads of the levels `0` to
`tree_level_` and the writes of the levels `tree_level_` to `0`, all of one path,
with `bucket_size_` blocks each. The path is the position drawn by the last
access to the address, or by `FillWithData`; and no draw is shown twice. What the
padding is does not matter, nor whether the ids of the data are distinct. -/
theorem pathOram_reveals_once {P : PathOramConfig} (hstand : P.standalone = true)
    {data : List (OramBlock D)} {fill : FillDraws C} {w : PathSystem D (TreeOramServerStorage C)}
    (hfill : fillWithData (OramService.stub C P.id) P data fill (PathSystem.init C P) = (.ok (), w))
    {requests : List (PathRequest C)} (haims : ∀ r ∈ requests, r.AimsAt (RoomFor P data)) {i : ℕ}
    {r : PathRequest C} (hr : requests[i]? = some r) :
    (∃ (outs : List (OramBlock D)) (v : PathSystem D (TreeOramServerStorage C × List TreeEvent))
        (out : OramBlock D) (v' : PathSystem D (TreeOramServerStorage C × List TreeEvent)),
      Prog.trace Exit.fatal (PathRequest.runLogged P) (requests.take i) (w.withLog []) =
        some (outs.map .ok, v) ∧
      r.runLogged P v = (.ok out, v') ∧
      v'.server.2 = v.server.2 ++
        pattern P (PathRequest.revealed P w.client.positionMap.index requests r.address i)) ∧
    (∀ i' r' j q, requests[i']? = some r' →
      PathRequest.lastBefore requests r.address i = some (j, q) →
      PathRequest.lastBefore requests r'.address i' = some (j, q) → i = i') ∧
    ∀ i' r', requests[i']? = some r' → r'.address = r.address →
      PathRequest.lastBefore requests r.address i = none →
      PathRequest.lastBefore requests r'.address i' = none → i = i' := by
  obtain ⟨outs, v, hpast, hlogged, -⟩ :=
    logged_run hstand (fillWithData_presents hfill) haims [] i
  obtain ⟨out, v', hrun, -, hlog⟩ := r.runLogged_spec hstand
    (haims r (List.mem_of_getElem? hr)) hlogged
  have hlength : (requests.take i).length = i := by
    rw [List.length_take, Nat.min_eq_left]
    exact Nat.le_of_lt (List.getElem?_eq_some_iff.mp hr).1
  rw [hlength] at hlog
  exact ⟨⟨outs, v, out, v', hpast, hrun, hlog⟩,
    fun i' r' j q hr' h h' => PathRequest.lastBefore_inj hr hr' h h',
    fun i' r' hr' ha h h' => PathRequest.first_inj hr hr' ha h h'⟩

/-- Data in which an id occurs twice, and one block more than the small tree holds. -/
def crowdedData : List (OramBlock ℕ) :=
  [smallBlock 3 29, smallBlock 5 50, smallBlock 0 1, smallBlock 3 30, smallBlock 1 2, smallBlock 2 3,
    smallBlock 4 40]

/-- A write, another read, and the read that shows what the write has drawn. -/
theorem pathOram_reveals_once_small :
    ∃ w, fillWithData (OramService.stub _ 0) smallTree crowdedData smallFill
        (PathSystem.init _ smallTree) = (.ok (), w) ∧
      ∃ (outs : List (OramBlock ℕ))
          (v : PathSystem ℕ (TreeOramServerStorage (Codec.plain ℕ) × List TreeEvent))
          (out : OramBlock ℕ)
          (v' : PathSystem ℕ (TreeOramServerStorage (Codec.plain ℕ) × List TreeEvent)),
        Prog.trace Exit.fatal (PathRequest.runLogged smallTree)
          [⟨.kWrite, 3, smallBlock 3 31, smallDraws⟩, ⟨.kRead, 5, dummyBlock, smallDraws⟩]
          (w.withLog []) = some (outs.map .ok, v) ∧
        PathRequest.runLogged smallTree ⟨.kRead, 3, dummyBlock, smallDraws⟩ v = (.ok out, v') ∧
        v'.server.2 = v.server.2 ++ pattern smallTree 1 := by
  have haims : ∀ r ∈ ([⟨.kWrite, 3, smallBlock 3 31, smallDraws⟩,
      ⟨.kRead, 5, dummyBlock, smallDraws⟩, ⟨.kRead, 3, dummyBlock, smallDraws⟩] :
        List (PathRequest (Codec.plain ℕ))), r.AimsAt (RoomFor smallTree crowdedData) := by
    intro r hr
    simp only [List.mem_cons, List.not_mem_nil, or_false] at hr
    rcases hr with rfl | rfl | rfl
    · exact ⟨.inr rfl, smallBlock 3 30, by decide, rfl⟩
    · exact ⟨.inl rfl, smallBlock 5 50, by decide, rfl⟩
    · exact ⟨.inl rfl, smallBlock 3 30, by decide, rfl⟩
  have hfill : fillWithData (OramService.stub _ smallTree.id) smallTree crowdedData smallFill
      (PathSystem.init _ smallTree) = (.ok (), _) := rfl
  have hthird := pathOram_reveals_once rfl hfill haims (i := 2) rfl
  obtain ⟨⟨outs, v, out, v', hpast, hrun, hlog⟩, -⟩ := hthird
  exact ⟨_, rfl, outs, v, out, v', hpast, hrun, hlog⟩

/-- Two blocks for a tree of one: the load returns `OK`, and the access to the
second block reads its path and writes nothing. -/
theorem pathOram_dropped_shows_no_write :
    ∃ (w : PathSystem ℕ (TreeOramServerStorage (Codec.plain ℕ))) (st : OramStatus)
        (v : PathSystem ℕ (TreeOramServerStorage (Codec.plain ℕ) × List TreeEvent)),
      fillWithData (OramService.stub _ 0) oneBucket [smallBlock 0 10, smallBlock 1 20] smallFill
        (PathSystem.init _ oneBucket) = (.ok (), w) ∧
      PathRequest.runLogged oneBucket ⟨.kRead, 1, dummyBlock, smallDraws⟩ (w.withLog []) =
        (.error (.status st), v) ∧
      st.errorCode = .kObjectNotFound ∧ v.server.2 = [.readPath 0 0] ∧
      ∀ x, v.server.2 ≠ pattern oneBucket x := by
  refine ⟨_, _, _, rfl, rfl, rfl, rfl, fun x h => ?_⟩
  have hlength : 1 = 2 := congrArg List.length h
  exact absurd hlength (by decide)

end ObliviousRam
