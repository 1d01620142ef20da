import ObliviousRam.SharedPath
import ObliviousRam.PartitionRefinement
import ObliviousRam.PartitionMemory
import ObliviousRam.BlockBytes

set_option autoImplicit false

/-!
# A Partition ORAM among other clients

A Partition ORAM with `n` slots takes the ids `0`, …, `n - 1` on the server for its Path
ORAMs, each under an instance hash of its own (`OramServer.forestStub`).

* `partitionOram_shared` — from an `InitOram` that went through on the shared table, and as
  long as the server is up, no sequence of calls tells this controller from the one of
  `PartitionOram`, whatever the others do in the meantime.
* `partitionOram_once` — until a reset there is no second one: whoever calls `InitOram` for
  a Partition ORAM later on the same server fails.
-/

namespace ObliviousRam

variable {D σ τ α : Type} {C : Codec D} {L : Sodium} {Q : PartitionOramConfig}

/-! ## Mirrored stubs

A Partition ORAM calls one Path ORAM at a time. So its calls are mirrored if those of
each Path ORAM are, which is what `SharedPath` has shown. -/

/-- The calls of `T` for the ids below `n` mirror those of `S`; the others at least do not
undo what is bad. -/
def ForestStub.Mirrors (Bad : τ → Prop) (R : σ → τ → Prop) (n : ℕ) (S : ForestStub C σ)
    (T : ForestStub C τ) : Prop :=
  ∀ i, (S.tree i).Mirrors Bad (fun s t => i < n ∧ R s t) (T.tree i)

namespace PartitionSystem

/-- The same client, whose Path ORAMs have ids below `n`, on related servers. -/
structure Lift (n : ℕ) (R : σ → τ → Prop) (w : PartitionSystem D σ) (v : PartitionSystem D τ) :
    Prop where
  client_eq : w.client = v.client
  id_lt : ∀ p ∈ v.client.pathOramControllers, p.1.id < n
  server : R w.server v.server

end PartitionSystem

open PartitionSystem

namespace ForestStub.Mirrors

variable {Bad : τ → Prop} {R : σ → τ → Prop} {n : ℕ}

/-- The server of the system has met the bad event. -/
def OnServer (Bad : τ → Prop) (w : PartitionSystem D τ) : Prop := Bad w.server

/-- A change of the client that leaves the Path ORAMs alone. -/
theorem update {f : PartitionMembers D → PartitionMembers D}
    (hf : ∀ c, (f c).pathOramControllers = c.pathOramControllers) :
    Prog.Mirrors (OnServer Bad) Eq (Lift n R) Eq (PartitionSystem.update (ε := Exit) f)
      (PartitionSystem.update f) := by
  refine .modify (fun w v h => ⟨congrArg f h.client_eq, ?_, h.server⟩) fun v hbad => hbad
  rw [hf]
  exact h.id_lt

/-- A look at the client. -/
theorem look {m : Prog Exit (PartitionSystem D σ) α} {m' : Prog Exit (PartitionSystem D τ) α}
    (f : PartitionMembers D → Except Exit α) (hm : ∀ w, m w = (f w.client, w))
    (hm' : ∀ v, m' v = (f v.client, v)) : Prog.Mirrors (OnServer Bad) Eq (Lift n R) Eq m m' where
  keeps := by
    intro v hbad
    rw [hm']
    exact hbad
  step := by
    intro w v h
    rw [hm, hm', h.client_eq]
    exact .inr ⟨.of_eq rfl, h⟩

/-- Related clients have the same slots. -/
theorem slot (i : ℕ) :
    Prog.Mirrors (OnServer (D := D) Bad) Eq (Lift n R) Eq (PartitionSystem.slot i)
      (PartitionSystem.slot i) := by
  have hlook : ∀ {ρ : Type} (w : PartitionSystem D ρ), PartitionSystem.slot i w =
      ((w.client.slots[i]?).elim (.error (.undefined "slots_[slot_id] is out of range")) .ok,
        w) := by
    intro ρ w
    rw [PartitionSystem.slot]
    cases w.client.slots[i]? <;> rfl
  exact look (fun c => (c.slots[i]?).elim _ .ok) hlook hlook

theorem sampleSlot (value : ℕ) :
    Prog.Mirrors (OnServer (D := D) Bad) Eq (Lift n R) Eq (PartitionSystem.sampleSlot value)
      (PartitionSystem.sampleSlot value) where
  keeps := by
    intro v hbad
    rw [PartitionSystem.sampleSlot, checkedRandom]
    split
    · exact hbad
    · split <;> exact hbad
  step := by
    intro w v h
    rw [PartitionSystem.sampleSlot, PartitionSystem.sampleSlot, checkedRandom, checkedRandom,
      h.client_eq]
    right
    split
    · exact ⟨.of_eq rfl, h⟩
    · split <;> exact ⟨.of_eq rfl, h⟩

/-- Anything that is done with a Path ORAM. -/
theorem onController (i : ℕ) {m : PathOramConfig → Prog Exit (PathSystem D σ) α}
    {m' : PathOramConfig → Prog Exit (PathSystem D τ) α}
    (hm : ∀ P, Prog.Mirrors (TreeStub.Mirrors.OnServer Bad) Eq
      (PathSystem.Lift fun s t => P.id < n ∧ R s t) Eq (m P) (m' P)) :
    Prog.Mirrors (OnServer Bad) Eq (Lift n R) Eq (PartitionSystem.onController i m)
      (PartitionSystem.onController i m') where
  keeps := by
    intro v hbad
    rw [PartitionSystem.onController]
    cases hget : v.client.pathOramControllers[i]? with
    | none => exact hbad
    | some p => exact (hm p.1).keeps ⟨p.2, v.server⟩ hbad
  step := by
    rintro ⟨c, s⟩ ⟨_, t⟩ ⟨rfl, hids, hR⟩
    rw [PartitionSystem.onController, PartitionSystem.onController]
    cases hget : c.pathOramControllers[i]? with
    | none => exact .inr ⟨.of_eq rfl, rfl, hids, hR⟩
    | some p =>
      have hlt : p.1.id < n := hids p (List.mem_of_getElem? hget)
      rcases (hm p.1).step ⟨p.2, s⟩ ⟨p.2, t⟩ ⟨rfl, hlt, hR⟩ with hbad | ⟨hout, hclient, -, hR'⟩
      · exact .inl hbad
      · refine .inr ⟨hout, ?_, ?_, hR'⟩
        · simp only [hclient]
        · intro q hq
          rcases List.mem_or_eq_of_mem_set hq with hq | rfl
          · exact hids q hq
          · exact hlt

/-- A status that is ignored is ignored on both sides. -/
theorem ignoreStatus {m : Prog Exit (PartitionSystem D σ) α}
    {m' : Prog Exit (PartitionSystem D τ) α} (default : α)
    (hm : Prog.Mirrors (OnServer Bad) Eq (Lift n R) Eq m m') :
    Prog.Mirrors (OnServer Bad) Eq (Lift n R) Eq (ObliviousRam.ignoreStatus default m)
      (ObliviousRam.ignoreStatus default m') := by
  refine hm.outcome (ignoreStatus_apply default m) (ignoreStatus_apply default m') ?_
  rintro r _ hout
  rw [hout.eq]
  exact .of_eq rfl

variable {S : ForestStub C σ} {T : ForestStub C τ} (h : S.Mirrors Bad R n T)
include h

/-! ## The calls of the controller -/

theorem fillControllers (draws : ℕ → FillDraws C) (is : List ℕ) (data : List (OramBlock D)) :
    Prog.Mirrors (OnServer Bad) Eq (Lift n R) Eq (PartitionSystem.fillControllers S Q draws is data)
      (PartitionSystem.fillControllers T Q draws is data) := by
  induction is generalizing data with
  | nil => exact .pure rfl
  | cons i is ih =>
    refine .bind_eq (update fun _ => rfl) fun _ => .bind_eq (.mapError_eq _ ?_) fun _ => ih _
    exact onController i fun P => (h P.id).fillWithData _ _

variable [Nonempty σ]

/-- An access to one of the Path ORAMs is mirrored by `SharedPath`. -/
theorem oramAccess (i : ℕ) (op : Operation) (address : ℕ) (buffer : OramBlock D)
    (draws : AccessDraws C) (dummy : Bool) :
    Prog.Mirrors (OnServer Bad) Eq (Lift n R) Eq
      (PartitionSystem.oramAccess S i op address buffer draws dummy)
      (PartitionSystem.oramAccess T i op address buffer draws dummy) :=
  onController i fun P => (h P.id).internalAccess op address buffer draws dummy

theorem evict (id : ℕ) (draws : AccessDraws C) (garbage : OramBlock D) :
    Prog.Mirrors (OnServer Bad) Eq (Lift n R) Eq (PartitionSystem.evict S id draws garbage)
      (PartitionSystem.evict T id draws garbage) := by
  refine .bind_eq (slot id) fun blocks => ?_
  cases blocks.getLast? with
  | none => exact .bind_eq (oramAccess h _ _ _ _ _ _) fun _ => .pure rfl
  | some block =>
    exact .bind_eq (update fun _ => rfl) fun _ =>
      .bind_eq (oramAccess h _ _ _ _ _ _) fun _ => .pure rfl

theorem randomEvict (garbage : OramBlock D) (draws : List (EvictDraws C)) :
    Prog.Mirrors (OnServer Bad) Eq (Lift n R) Eq
      (Prog.forEach (PartitionSystem.evictRandom S garbage) draws)
      (Prog.forEach (PartitionSystem.evictRandom T garbage) draws) := by
  induction draws with
  | nil => exact .pure rfl
  | cons draw draws ih =>
    exact .bind_eq (.bind_eq (sampleSlot _) fun id => evict h id _ _) fun _ => ih

theorem fetch (op : Operation) (address slotId : ℕ) (draws : PartitionDraws C) :
    Prog.Mirrors (OnServer Bad) Eq (Lift n R) Eq (PartitionSystem.fetch S op address slotId draws)
      (PartitionSystem.fetch T op address slotId draws) := by
  refine .bind_eq (slot slotId) fun blocks => ?_
  cases blocks.find? (blockEqual address) with
  | none => exact ignoreStatus _ (oramAccess h _ _ _ _ _ _)
  | some block =>
    exact .bind_eq (.mapError_eq _ (oramAccess h _ _ _ _ _ _)) fun _ =>
      .bind_eq (update fun _ => rfl) fun _ => .pure rfl

omit h in
/-- Every client can be the client of either server. -/
theorem exists_client (v : PartitionSystem D τ) :
    ∃ w : PartitionSystem D σ, w.client = v.client :=
  ⟨⟨v.client, Classical.arbitrary σ⟩, rfl⟩

/-- Whole accesses are mirrored. -/
theorem access (op : Operation) (address : ℕ) (buffer : OramBlock D) (draws : PartitionDraws C) :
    Prog.Mirrors (OnServer Bad) Eq (Lift n R) Eq
      (PartitionSystem.access S Q op address buffer draws)
      (PartitionSystem.access T Q op address buffer draws) := by
  refine .bind_eq (sampleSlot _) fun newSlot =>
    .get_bind client client (fun _ _ hwv => hwv.client_eq) exists_client fun w v hclient => ?_
  rw [hclient]
  refine .bind_eq (update fun _ => rfl) fun _ => .bind_eq (fetch h _ _ _ _) fun fetched =>
    .bind_eq (slot newSlot) fun blocks => .bind_eq (update fun _ => rfl) fun _ =>
      .bind_eq (.mapError_eq _ (randomEvict h _ _)) fun _ => .pure rfl

theorem fillWithData (data : List (OramBlock D)) (draws : ℕ → FillDraws C) :
    Prog.Mirrors (OnServer Bad) Eq (Lift n R) Eq (PartitionSystem.fillWithData S Q data draws)
      (PartitionSystem.fillWithData T Q data draws) := by
  refine .get_bind client client (fun _ _ hwv => hwv.client_eq) exists_client
    fun w v hclient => ?_
  rw [hclient]
  exact .ite (.throw rfl) (.ite (.throw rfl)
    (.bind_eq (fillControllers h _ _ _) fun _ => update fun _ => rfl))

end ForestStub.Mirrors

/-! ## The forest on the shared table

All trees of the ORAM are on the table, under their ids and hashes. An event of the
others leaves each of them alone. -/

namespace OramServer

/-- The header of the `i`-th Path ORAM. -/
def forestHeader (hashes : ℕ → ByteString) (i : ℕ) : RequestHeader := ⟨i, hashes i⟩

/-- The stub of a Partition ORAM. -/
def forestStub (hashes : ℕ → ByteString) (lost : String) : ForestStub C (Shared L C) where
  initTreeOram := fun P => Prog.amid arrive (ask lost (fun _ => ())
    (.initTreeOram (forestHeader hashes P.id) P.numberOfLeafs ORAM_BLOCK_SIZE))
  tree := fun i => treeStub (forestHeader hashes i) lost

/-- The process has the trees of the first `k` Path ORAMs. -/
def HostsForest (hashes : ℕ → ByteString) (k : ℕ) (f : Forest C) (p : Process L C) : Prop :=
  ∀ i < k, Hosts (treeClass C) (forestHeader hashes i) (f i) p

/-- The event concerns none of the first `n` Path ORAMs. -/
def ServerEvent.Spares (hashes : ℕ → ByteString) (n : ℕ) (e : ServerEvent C) : Prop :=
  ∀ i < n, e.belongsTo i (hashes i) = false

/-- The trees of the first `k` Path ORAMs are on the table, and what happens there is done
by others. -/
def SharesForest (hashes : ℕ → ByteString) (n k : ℕ) : Forest C → Shared L C → Prop :=
  Prog.Amid (ServerEvent.Spares hashes n) (HostsForest hashes k)

variable {hashes : ℕ → ByteString} {lost : String} {n k : ℕ} {f : Forest C}

theorem arrive_hostsForest {e : ServerEvent C} {p : Process L C} (he : e.Spares hashes k)
    (h : HostsForest hashes k f p) :
    Down (arrive e p) ∨ HostsForest hashes k f (arrive e p) := by
  by_cases hdown : Down (arrive e p)
  · exact .inl hdown
  · exact .inr fun i hi => (arrive_hosts (he i hi) (h i hi)).resolve_left hdown

variable (lost) in
/-- A call of the client for another storage. -/
theorem ask_hosts {T : Type} {K : StorageClass C T} {header : RequestHeader} {t : T}
    {p : Process L C} {request : Request C} (pick : OramResponse C → α)
    (hrequest : request.belongsTo header.id header.instanceHash = false)
    (h : Hosts K header t p) :
    Down (ask lost pick request p).2 ∨ Hosts K header t (ask lost pick request p).2 := by
  obtain ⟨w, rfl, hserves⟩ := h
  have hserves' : Serves K header t
      (ServiceState.serve (.table (.request request)) w).2.storages := serves_serve hrequest hserves
  rw [ask]
  rcases hcall : ServiceState.serve (.table (.request request)) w with
    ⟨(st | why | why) | answer, w'⟩ <;> rw [hcall] at hserves'
  · exact .inr ⟨w', rfl, hserves'⟩
  · exact .inl rfl
  · exact .inl rfl
  · exact .inr ⟨w', rfl, hserves'⟩

/-- A call for one tree of the forest. -/
theorem mirrors_ask_tree {i : ℕ} (hi : i < n) {m : Prog String (TreeOramServerStorage C) α}
    {body : Prog HandlerExit (TreeOramServerStorage C) (OramResponse C)} {request : Request C}
    {pick : OramResponse C → α}
    (hhandler : handle request = withStorage (treeClass C) (forestHeader hashes i) body)
    (haddress : request.address = some (i, some (hashes i)))
    (h : ∀ t, AnswersLike pick m body t) :
    Prog.Mirrors Down Eq (HostsForest (L := L) hashes n) Eq
      (Prog.zoom (fun f => f i) (fun s f => Function.update f i s) m)
      (ask lost pick request) where
  keeps := keeps_ask _ _ _
  step := by
    intro f p hf
    by_cases hdown : Down (ask lost pick request p).2
    · exact .inl hdown
    · obtain ⟨hout, hhosts⟩ :=
        ((mirrors_ask lost hhandler h).step (f i) p (hf i hi)).resolve_left hdown
      refine .inr ⟨hout, fun j hj => ?_⟩
      change Hosts _ _ (Function.update f i (m (f i)).2 j) _
      by_cases he : j = i
      · subst he
        rw [Function.update_self]
        exact hhosts
      · have hother : request.belongsTo j (hashes j) = false := by
          rw [Request.belongsTo, haddress, Bool.and_eq_false_iff, beq_eq_false_iff_ne]
          exact .inr fun heq => he (Prod.ext_iff.mp (Option.some.inj heq)).1.symm
        rw [Function.update_of_ne he]
        exact (ask_hosts lost pick hother (hf j hj)).resolve_left hdown

/-- The stub of the forest, on the shared table. -/
theorem mirrors_forestStub :
    (OramService.forestStub C).Mirrors Gone (SharesForest (L := L) hashes n n) n
      (forestStub hashes lost) := by
  have hkeeps : ∀ {β : Type} (pick : OramResponse C → β) (request : Request C),
      Prog.Keeps (Gone (L := L) (C := C)) (Prog.amid arrive (ask lost pick request)) :=
    fun pick request => Prog.keeps_amid arrive_down (keeps_ask lost pick request)
  have hshared : ∀ {β : Type} {m : Prog String (Forest C) β} {call : Prog String (Process L C) β},
      Prog.Mirrors Down Eq (HostsForest hashes n) Eq m call →
        Prog.Mirrors Gone Eq (SharesForest hashes n n) Eq m (Prog.amid arrive call) :=
    fun hm => Prog.mirrors_amid arrive_down (fun _ _ _ he hp => arrive_hostsForest he hp) hm
  intro i
  refine ⟨fun path level => .guard (hkeeps _ _) fun hi => hshared ?_,
    fun request => .guard (hkeeps _ _) fun hi => hshared ?_⟩
  · exact mirrors_ask_tree hi rfl rfl (answersLike_call _ OramResponse.bucket (fun _ => rfl) _
      fun _ _ _ => rfl)
  · exact mirrors_ask_tree hi rfl rfl (answersLike_call _ (fun _ => OramResponse.empty)
      (fun _ => rfl) _ fun _ _ _ => by simp [forestHeader, String.append_assoc])

/-! ## `InitOram` on the shared table -/

/-- Inversion: a call that returns has found the server. -/
theorem ask_ok {pick : OramResponse C → α} {request : Request C} {a : α} {p p' : Process L C}
    (h : ask lost pick request p = (.ok a, p')) :
    ∃ w answer w', p = some w ∧
      ServiceState.serve (.table (.request request)) w = (.ok answer, w') ∧ p' = some w' := by
  cases p with
  | none => cases h
  | some w =>
    rw [ask] at h
    rcases hcall : ServiceState.serve (.table (.request request)) w with
      ⟨(st | why | why) | answer, w'⟩ <;> rw [hcall] at h <;> cases h
    exact ⟨w, answer, w', rfl, hcall, rfl⟩

/-- An `InitTreeOram` that goes through adds a tree to the forest. -/
theorem sharesForest_of_initTreeOram (hk : k < n) {P : PathOramConfig} (hid : P.id = k)
    {v v' : Shared L C} (h : SharesForest hashes n k f v)
    (hok : (forestStub hashes lost).initTreeOram P v = (.ok (), v')) :
    SharesForest hashes n (k + 1) (Function.update f k (.new C P.numberOfLeafs)) v' := by
  subst hid
  refine Prog.amid_ok (G := ServerEvent.Spares hashes n)
    (I := fun p => Down p ∨ HostsForest hashes P.id f p)
    (Q := HostsForest hashes (P.id + 1) (Function.update f P.id (.new C P.numberOfLeafs)))
    (fun e p he hp => ?_) (fun p p' hp hask i hi => ?_) (.inr h.1) h.2 hok
  · rcases hp with hdown | hp
    · exact .inl (arrive_down e p hdown)
    · exact arrive_hostsForest (fun i hi => he i (hi.trans hk)) hp
  · obtain ⟨w, answer, w', rfl, hcall, rfl⟩ := ask_ok hask
    rcases Nat.lt_succ_iff_lt_or_eq.mp hi with hlt | rfl
    · rw [Function.update_of_ne hlt.ne]
      have hother : (Request.initTreeOram (forestHeader hashes P.id) P.numberOfLeafs
          ORAM_BLOCK_SIZE : Request C).belongsTo i (hashes i) = false := rfl
      have hkept := ask_hosts lost (fun _ => ()) hother
        ((hp.resolve_left (by rintro ⟨⟩)) i hlt)
      rw [hask] at hkept
      exact hkept.resolve_left (by rintro ⟨⟩)
    · rw [Function.update_self]
      have hothers : ByOthers (forestHeader hashes P.id) ([] : List (List (ServerEvent C))) := by
        rintro _ ⟨⟩
      exact (shares_of_initTreeOram hcall hothers).1

end OramServer

namespace PartitionSystem

open OramServer (Shared Gone SharesForest ServerEvent forestStub)

variable {hashes : ℕ → ByteString} {lost : String}

/-- `InitOram` is its loop, from no Path ORAM on. -/
theorem initOram_eq (S : ForestStub C σ) (server : σ) :
    initOram S Q (.new D Q.size server) =
      initControllers S Q (List.range Q.size) (.new D Q.size server) := by
  have hslots : (new D Q.size server).client.slots.length = Q.size := List.length_replicate
  rw [initOram, Prog.get_bind, hslots]

/-- The rest of `InitOram`, by the outcome of one `InitTreeOram`. -/
def initRest (S : ForestStub C σ) (Q : PartitionOramConfig) (is : List ℕ)
    (client : PartitionMembers D) :
    Except String Unit × σ → Except Exit Unit × PartitionSystem D σ
  | (.ok (), server) => initControllers S Q is ⟨client, server⟩
  | (.error msg, server) => fail .kServerError msg "InitOram" ⟨client, server⟩

theorem initControllers_cons (S : ForestStub C σ) (i : ℕ) (is : List ℕ)
    (w : PartitionSystem D σ) :
    initControllers S Q (i :: is) w = initRest S Q is { w.client with
      pathOramControllers := w.client.pathOramControllers ++ [(Q.oram i, .new)] }
      (S.initTreeOram (Q.oram i) w.server) := rfl

/-- Inversion of one iteration of `InitOram`. -/
theorem initControllers_cons_ok {S : ForestStub C σ} {i : ℕ} {is : List ℕ}
    {w w' : PartitionSystem D σ} (h : initControllers S Q (i :: is) w = (.ok (), w')) :
    ∃ server, S.initTreeOram (Q.oram i) w.server = (.ok (), server) ∧
      initControllers S Q is ⟨{ w.client with
        pathOramControllers := w.client.pathOramControllers ++ [(Q.oram i, .new)] }, server⟩ =
          (.ok (), w') := by
  rw [initControllers_cons] at h
  rcases hinit : S.initTreeOram (Q.oram i) w.server with ⟨msg | _, server⟩ <;> rw [hinit] at h
  · cases h
  · exact ⟨server, rfl, h⟩

/-- The iterations of `InitOram` from `i` on, if they go through on the shared table. -/
theorem initControllers_shared (k : ℕ) :
    ∀ (i : ℕ) (u : PartitionSystem D (Forest C)) (v v' : PartitionSystem D (Shared L C)),
      i + k = Q.size → u.client = v.client →
      (∀ p ∈ v.client.pathOramControllers, p.1.id < Q.size) →
      SharesForest hashes Q.size i u.server v.server →
      initControllers (forestStub hashes lost) Q (List.range' i k) v = (.ok (), v') →
      ∃ u', initControllers (OramService.forestStub C) Q (List.range' i k) u = (.ok (), u') ∧
        Lift Q.size (SharesForest hashes Q.size Q.size) u' v' := by
  induction k with
  | zero =>
    intro i u v v' hik hclient hids hserver hinit
    cases hinit
    obtain rfl : i = Q.size := hik
    exact ⟨u, rfl, hclient, hids, hserver⟩
  | succ k ih =>
    intro i u v v' hik hclient hids hserver hinit
    rw [List.range'_succ] at hinit ⊢
    obtain ⟨server, hfirst, hrest⟩ := initControllers_cons_ok hinit
    have hi : i < Q.size := by omega
    have hserver' := OramServer.sharesForest_of_initTreeOram hi rfl hserver hfirst
    have hids' : ∀ p ∈ v.client.pathOramControllers ++ [(Q.oram i, .new)], p.1.id < Q.size := by
      intro p hp
      rcases List.mem_append.mp hp with hp | hp
      · exact hids p hp
      · rw [List.mem_singleton.mp hp]
        exact hi
    exact ih (i + 1) ⟨{ u.client with
      pathOramControllers := u.client.pathOramControllers ++ [(Q.oram i, .new)] },
      Function.update u.server i (.new C (Q.oram i).numberOfLeafs)⟩ _ v' (by omega)
      (by rw [hclient]) hids' hserver' hrest

/-! ## Whole runs -/

/-- A Partition ORAM among other clients, and the controller of `PartitionOram`. -/
def Among (Q : PartitionOramConfig) (hashes : ℕ → ByteString) :
    PartitionOramController C → PartitionSystem D (Shared L C) → Prop :=
  Relation.Comp (fun v u => Runs Q u v) (Lift Q.size (SharesForest hashes Q.size Q.size))

/-- The call over a stub. -/
def Call.runOver (S : ForestStub C σ) (Q : PartitionOramConfig) :
    Call C → Prog Exit (PartitionSystem D σ) (Option (OramBlock D))
  | fillWithData data draws => do
    PartitionSystem.fillWithData S Q data draws
    pure none
  | access op address buffer draws => do
    let block ← PartitionSystem.access S Q op address buffer draws
    pure (some block)

/-- The process behind the client's stub is gone. -/
def ServerGone (v : PartitionSystem D (Shared L C)) : Prop := Gone v.server

instance : Nonempty (Forest C) := ⟨fun _ => .new C 1⟩

variable (lost) in
theorem Call.mirrors (hsize : 0 < Q.size) (c : Call C) :
    Prog.Mirrors ServerGone Eq (Among (L := L) Q hashes) Eq (c.runs Q)
      (c.runOver (forestStub hashes lost) Q) := by
  have hstub : (OramService.forestStub C).Mirrors Gone (SharesForest (L := L) hashes Q.size Q.size)
      Q.size (forestStub hashes lost) := OramServer.mirrors_forestStub
  have hover : Prog.Mirrors ServerGone Eq (Lift Q.size (SharesForest hashes Q.size Q.size)) Eq
      (c.run Q) (c.runOver (forestStub (L := L) hashes lost) Q) := by
    cases c with
    | fillWithData data draws =>
      exact .bind_eq (hstub.fillWithData data draws) fun _ => .pure rfl
    | access op address buffer draws =>
      exact .bind_eq (hstub.access op address buffer draws) fun _ => .pure rfl
  exact (Prog.Mirrors.of_relates_symm (relates_call hsize c)).trans hover

/-- **A Partition ORAM among other clients.** Once its `InitOram` has gone through on the
shared table, every sequence of loads and accesses has the outcomes it has for the
controller of `PartitionOram`, as long as the server is up; and so has any call that
follows, unless the server goes down in it. The others may call anything from the start on
but `ResetServer` and what carries the id and the hash of one of its Path ORAMs. -/
theorem partitionOram_shared (hsize : 0 < Q.size) {w : ServiceState L C}
    {schedule : List (List (ServerEvent C))}
    (hothers : ∀ events ∈ schedule, ∀ e ∈ events, e.Spares hashes Q.size)
    {v₀ v : PartitionSystem D (Shared L C)}
    (hinit : initOram (forestStub hashes lost) Q (.new D Q.size (some w, schedule)) =
      (.ok (), v₀)) {calls : List (Call C)} {outs : List (Except Exit (Option (OramBlock D)))}
    (hrun : Prog.trace Exit.fatal (Call.runOver (forestStub hashes lost) Q) calls v₀ =
      some (outs, v)) (hup : ¬v.ServerGone) :
    ∃ u, Prog.trace Exit.fatal (Call.runs Q) calls (PartitionOramController.new C Q) =
        some (outs, u) ∧ Among Q hashes u v ∧
      ∀ c : Call C, (c.runOver (forestStub hashes lost) Q v).2.ServerGone ∨
        (c.runOver (forestStub hashes lost) Q v).1 = (c.runs Q u).1 := by
  -- the start, over a forest of one's own
  rw [initOram_eq, List.range_eq_range'] at hinit
  obtain ⟨f⟩ : Nonempty (Forest C) := inferInstance
  obtain ⟨u', hown, hlift⟩ := initControllers_shared Q.size 0 (new D Q.size f) _ v₀
    (Nat.zero_add _) rfl (by rintro _ ⟨⟩)
    (⟨fun i hi => absurd hi (Nat.not_lt_zero i), hothers⟩) hinit
  obtain ⟨u'', hown', hruns⟩ := runs_of_initOram (Q := Q) f
  rw [initOram_eq, List.range_eq_range'] at hown'
  cases hown.symm.trans hown'
  have hstart : Among Q hashes (PartitionOramController.new C Q) v₀ := ⟨u', hruns, hlift⟩
  obtain ⟨outs', u, htrace, houts, hu⟩ := Prog.trace_mirrors (Call.mirrors lost hsize)
    (Prog.fatal_of_eq Exit.fatal) hstart hrun hup
  rw [Prog.eq_of_forall₂_corresponds houts] at htrace
  refine ⟨u, htrace, hu, fun c => ?_⟩
  rcases (Call.mirrors lost hsize c).step u v hu with hbad | ⟨hout, -⟩
  · exact .inl hbad
  · exact .inr hout.eq.symm

/-- Another client makes a storage with an id past those of the Path ORAMs, and then
tries the second one of theirs under its own hash. -/
def besidePartitions : List (List (ServerEvent (Codec.plain ℕ))) :=
  [[.call (.table (.request (.initFlatOram ⟨7, [2]⟩ 4 8)))],
    [.monitor, .call (.table (.request (.readPath ⟨1, [9]⟩ 0 0)))],
    [.call (.table (.request (.readFlatMemory ⟨7, [2]⟩)))]]

/-- A load, a write whose block is evicted, and two reads with fake evictions. -/
def twoPartitionsCalls : List (Call (Codec.plain ℕ)) :=
  [.fillWithData twoPartitionsData fun _ => smallFill,
    .access .kWrite 0 (smallBlock 0 11) (twoDraws 0 0),
    .access .kRead 1 dummyBlock (twoDraws 0 1), .access .kRead 0 dummyBlock (twoDraws 0 1)]

/-- The server once it runs. -/
def partitionServer : ServiceState Sodium.toy (Codec.plain ℕ) :=
  .start _ OramController.freshCryptor

/-- Their stub. -/
def twoPartitionsStub : ForestStub (Codec.plain ℕ) (Shared Sodium.toy (Codec.plain ℕ)) :=
  forestStub (fun i => [i.toUInt8]) "Socket closed"

/-- The Partition ORAM once its `InitOram` has returned. -/
def twoPartitionsStarted : PartitionSystem ℕ (Shared Sodium.toy (Codec.plain ℕ)) :=
  (initOram twoPartitionsStub twoPartitions (.new ℕ 2 (some partitionServer, besidePartitions))).2

theorem twoPartitions_init :
    initOram twoPartitionsStub twoPartitions (.new ℕ 2 (some partitionServer, besidePartitions)) =
      (.ok (), twoPartitionsStarted) :=
  Prod.ext rfl rfl

theorem partitionOram_shared_small :
    ∃ outs v u, Prog.trace Exit.fatal (Call.runOver twoPartitionsStub twoPartitions)
        twoPartitionsCalls twoPartitionsStarted = some (outs, v) ∧
      Prog.trace Exit.fatal (Call.runs twoPartitions) twoPartitionsCalls
        (PartitionOramController.new _ twoPartitions) = some (outs, u) := by
  have hothers : ∀ events ∈ besidePartitions, ∀ e ∈ events,
      e.Spares (fun i => [i.toUInt8]) twoPartitions.size := by
    intro events hevents e he i hi
    have hi' : i = 0 ∨ i = 1 := by
      have hlt : i < 2 := hi
      omega
    rcases hi' with rfl | rfl
    · exact (by decide : OramServer.ByOthers ⟨0, [0]⟩ besidePartitions) events hevents e he
    · exact (by decide : OramServer.ByOthers ⟨1, [1]⟩ besidePartitions) events hevents e he
  have hserver : (Prog.trace Exit.fatal (Call.runOver twoPartitionsStub twoPartitions)
      twoPartitionsCalls twoPartitionsStarted).map (fun run => run.2.server.1.isSome) =
        some true := by
    decide +kernel
  obtain ⟨⟨outs, v⟩, hrun, hsome⟩ := Option.map_eq_some_iff.mp hserver
  have hup : ¬v.ServerGone := by
    intro hgone
    have hnone : v.server.1 = none := hgone
    simp [hnone] at hsome
  obtain ⟨u, htrace, -⟩ := partitionOram_shared (by decide) hothers twoPartitions_init hrun hup
  exact ⟨outs, v, u, hrun, htrace⟩

end PartitionSystem

/-! ## The second Partition ORAM

An id that is taken stays taken until a reset. The ids are `0`, `1`, … for every
Partition ORAM, so the second one finds its first id taken and gives up. -/

namespace OramServer

/-- The event is a reset. -/
def ServerEvent.isReset : ServerEvent C → Bool
  | .call r => r.isReset
  | .monitor => false

/-- If the process is there, its table has a storage of this id. -/
def Taken (id : ℕ) (p : Process L C) : Prop :=
  ∀ w, p = some w → w.storages.storages id ≠ none

/-- A call that is no reset frees no id. -/
theorem serve_taken {id : ℕ} {r : Rpc C} {w : ServiceState L C} (hr : r.isReset = false)
    (h : w.storages.storages id ≠ none) :
    (ServiceState.serve r w).2.storages.storages id ≠ none := by
  cases hmessage : r.message? with
  | none =>
    rw [ServiceState.serve_storages hmessage, hr, if_neg Bool.false_ne_true]
    exact h
  | some m =>
    obtain rfl : r = .table m := by
      cases r <;> cases hmessage
      rfl
    obtain ⟨s, hs⟩ := Option.ne_none_iff_exists'.mp h
    obtain ⟨s', hs', -, -⟩ := receive_kept m hs
    rw [ServiceState.serve_table, hs']
    exact Option.some_ne_none s'

theorem arrive_taken {id : ℕ} {e : ServerEvent C} {p : Process L C} (he : e.isReset = false)
    (h : Taken id p) : Taken id (arrive e p) := by
  intro w' hw'
  cases p with
  | none =>
    cases e <;> cases hw'
  | some w =>
    cases e with
    | call r =>
      have hkept := serve_taken he (h w rfl)
      rw [arrive, Option.bind_some] at hw'
      obtain ⟨⟨out, w₁⟩, hcall, rfl⟩ := Option.map_eq_some_iff.mp hw'
      rwa [(Prog.eq_of_survive hcall).1] at hkept
    | monitor =>
      rw [arrive, Option.filter_eq_some_iff] at hw'
      exact h w' hw'.1

/-- An `InitTreeOram` that goes through takes an id that was free. -/
theorem initTreeOram_takes {header : RequestHeader} {bucketNum blockSize : ℕ}
    {w w' : ServiceState L C} {answer : RpcAnswer C}
    (hinit : ServiceState.serve (.table (.request (.initTreeOram header bucketNum blockSize))) w =
      (.ok answer, w')) :
    w.storages.storages header.id = none ∧ w'.storages.storages header.id ≠ none := by
  rw [ServiceState.serve_table, receive, handle] at hinit
  cases bucketNum with
  | zero =>
    obtain ⟨e, he⟩ := initTreeOram_empty w.storages header blockSize
    rw [he] at hinit
    cases hinit
  | succ n =>
    rw [initTreeOram, if_neg (Nat.succ_ne_zero n)] at hinit
    obtain ⟨hfree, -, hnew⟩ | ⟨-, st, hrefused⟩ := createStorage_cases w.storages header.id
      ⟨⟨header.id, n + 1, blockSize, header.instanceHash⟩, .tree (.new C (n + 1))⟩
    · rw [hnew] at hinit
      cases hinit
      exact ⟨hfree, by rw [put_storages_self]; exact Option.some_ne_none _⟩
    · rw [hrefused] at hinit
      cases hinit

/-- What happens in between is no reset. -/
def NoReset (schedule : List (List (ServerEvent C))) : Prop :=
  ∀ events ∈ schedule, ∀ e ∈ events, e.isReset = false

instance (schedule : List (List (ServerEvent C))) : Decidable (NoReset schedule) :=
  inferInstanceAs (Decidable (∀ events ∈ schedule, ∀ e ∈ events, _ = _))

variable {hashes : ℕ → ByteString} {lost : String} {P : PathOramConfig} {v v' : Shared L C}

/-- What an `InitTreeOram` that goes through finds and leaves. -/
theorem initTreeOram_ok {I R : Process L C → Prop}
    (hI : ∀ e p, e.isReset = false → I p → I (arrive e p))
    (hR : ∀ w answer w', I (some w) →
      ServiceState.serve (.table (.request
        (.initTreeOram (forestHeader hashes P.id) P.numberOfLeafs ORAM_BLOCK_SIZE))) w =
          (.ok answer, w') → R (some w'))
    (hreset : NoReset v.2) (h : I v.1)
    (hok : (forestStub hashes lost).initTreeOram P v = (.ok (), v')) : R v'.1 ∧ NoReset v'.2 := by
  refine Prog.amid_ok (G := fun e : ServerEvent C => e.isReset = false) hI
    (fun p p' hp hask => ?_) h hreset hok
  obtain ⟨w, answer, w', rfl, hcall, rfl⟩ := ask_ok hask
  exact hR w answer w' hp hcall

/-- Afterwards the id of the Path ORAM is taken. -/
theorem taken_of_initTreeOram (hreset : NoReset v.2)
    (hok : (forestStub hashes lost).initTreeOram P v = (.ok (), v')) :
    Taken P.id v'.1 ∧ NoReset v'.2 := by
  refine initTreeOram_ok (I := fun _ => True) (fun _ _ _ _ => trivial)
    (fun w answer w' _ hcall => ?_) hreset trivial hok
  rintro _ ⟨rfl⟩
  exact (initTreeOram_takes hcall).2

/-- The ids that were taken before still are. -/
theorem initTreeOram_keeps_taken {id : ℕ} (hreset : NoReset v.2) (h : Taken id v.1)
    (hok : (forestStub hashes lost).initTreeOram P v = (.ok (), v')) : Taken id v'.1 := by
  refine (initTreeOram_ok (R := Taken id) (fun _ _ he hp => arrive_taken he hp)
    (fun w answer w' hp hcall => ?_) hreset h hok).1
  have hkept := serve_taken (r := .table (.request
    (.initTreeOram (forestHeader hashes P.id) P.numberOfLeafs ORAM_BLOCK_SIZE))) rfl (hp w rfl)
  rintro _ ⟨rfl⟩
  rwa [hcall] at hkept

/-- A taken id is refused. -/
theorem initTreeOram_ne_ok (hreset : NoReset v.2) (h : Taken P.id v.1) :
    (forestStub hashes lost).initTreeOram P v ≠ (.ok (), v') := by
  intro hok
  exact (initTreeOram_ok (R := fun _ => False) (fun _ _ he hp => arrive_taken he hp)
    (fun w _ _ hp hcall => hp w rfl (initTreeOram_takes hcall).1) hreset h hok).1

end OramServer

namespace PartitionSystem

open OramServer (Process Shared ServerEvent Taken NoReset forestStub arrive)

variable {hashes : ℕ → ByteString} {lost : String}

/-- After the iterations of `InitOram` their ids are taken, and the taken ones still are. -/
theorem taken_of_initControllers {is : List ℕ} {v v' : PartitionSystem D (Shared L C)}
    (hreset : NoReset v.server.2)
    (h : initControllers (forestStub hashes lost) Q is v = (.ok (), v')) {id : ℕ}
    (hid : id ∈ is ∨ Taken id v.server.1) : Taken id v'.server.1 := by
  induction is generalizing v with
  | nil =>
    cases h
    exact hid.resolve_left List.not_mem_nil
  | cons i is ih =>
    obtain ⟨server, hfirst, hrest⟩ := initControllers_cons_ok h
    obtain ⟨htaken, hreset'⟩ := OramServer.taken_of_initTreeOram hreset hfirst
    refine ih hreset' hrest ?_
    rcases hid with hid | hid
    · rcases List.mem_cons.mp hid with rfl | hid
      · exact .inr htaken
      · exact .inl hid
    · exact .inr (OramServer.initTreeOram_keeps_taken hreset hid hfirst)

/-- An iteration over a taken id stops `InitOram`. -/
theorem initControllers_ne_ok {is : List ℕ} {v v' : PartitionSystem D (Shared L C)}
    (hreset : NoReset v.server.2) {id : ℕ} (hid : id ∈ is) (htaken : Taken id v.server.1) :
    initControllers (forestStub hashes lost) Q is v ≠ (.ok (), v') := by
  induction is generalizing v with
  | nil => cases hid
  | cons i is ih =>
    intro h
    obtain ⟨server, hfirst, hrest⟩ := initControllers_cons_ok h
    by_cases he : i = id
    · subst he
      exact OramServer.initTreeOram_ne_ok hreset htaken hfirst
    · have hmem : id ∈ is := (List.mem_cons.mp hid).resolve_left fun heq => he heq.symm
      exact ih (OramServer.taken_of_initTreeOram hreset hfirst).2 hmem
        (OramServer.initTreeOram_keeps_taken hreset htaken hfirst) hrest

/-- **There is no second Partition ORAM.** Once an `InitOram` has gone through on a server,
every other `InitOram` on it fails, of whatever size and with whatever hashes, and whatever
has been called before and is called in between, as long as nobody resets the server. -/
theorem partitionOram_once (hsize : 0 < Q.size) {p : Process L C}
    {schedule : List (List (ServerEvent C))} {v : PartitionSystem D (Shared L C)}
    (hinit : initOram (forestStub hashes lost) Q (.new D Q.size (p, schedule)) = (.ok (), v))
    (hreset : NoReset schedule)
    {between : List (ServerEvent C)} (hbetween : ∀ e ∈ between, e.isReset = false)
    {Q' : PartitionOramConfig} (hsize' : 0 < Q'.size) {schedule' : List (List (ServerEvent C))}
    (hreset' : NoReset schedule')
    (hashes' : ℕ → ByteString) (lost' : String) :
    (initOram (forestStub hashes' lost') Q' (.new D Q'.size
      (between.foldl (fun p e => arrive e p) v.server.1, schedule'))).1 ≠ .ok () := by
  rw [initOram_eq] at hinit ⊢
  have htaken : Taken 0 v.server.1 := taken_of_initControllers
    (v := new D Q.size (p, schedule)) hreset hinit (.inl (List.mem_range.mpr hsize))
  have hlater : Taken 0 (between.foldl (fun p e => arrive e p) v.server.1) :=
    Prog.foldl_event (fun _ _ he hp => OramServer.arrive_taken he hp) hbetween htaken
  intro hok
  exact initControllers_ne_ok (v := new D Q'.size (_, schedule')) hreset'
    (List.mem_range.mpr hsize') hlater (Prod.ext hok rfl)

/-- The second one is smaller, and comes after a call for a storage of the first. -/
theorem partitionOram_once_small :
    (initOram (forestStub (fun _ => [9]) "Socket closed") (onePartition 1)
      (.new ℕ 1 ([ServerEvent.call (.table (.request (.readPath ⟨0, [0]⟩ 0 0))),
        .monitor].foldl (fun p e => arrive e p) twoPartitionsStarted.server.1,
          besidePartitions))).1 ≠ .ok () := by
  have hbetween : ∀ e ∈ ([.call (.table (.request (.readPath ⟨0, [0]⟩ 0 0))), .monitor] :
      List (ServerEvent (Codec.plain ℕ))), e.isReset = false := by decide
  have hsize : 0 < (onePartition 1).size := by decide
  exact partitionOram_once (by decide) twoPartitions_init (by decide) hbetween hsize (by decide) _ _

end PartitionSystem

end ObliviousRam
