import ObliviousRam.PathSimulation

set_option autoImplicit false

/-!
# Dummy accesses have another shape

The **shape** of an access is the sequence of its request kinds and levels: what
a server sees of it apart from the path. A real access that returns reads the
levels of a path and writes them back. A dummy access returns after the reads,
so it sends no write at all, whatever its path and its outcome.

The dummy accesses are those of a Partition ORAM, the only caller with `dummy` set:
a fake read when the block is in a slot, a fake write when the slot to evict is
empty. Whoever sees the shapes can tell both from the accesses they stand in for.
-/

namespace ObliviousRam

open PathSystem PathOramController

variable {D σ : Type} {C : Codec D} {P : PathOramConfig} {S : TreeStub C σ}

/-- The kind of a request, with its level. -/
inductive TreeShape where
  | readPath (level : ℕ)
  | writePath (level : ℕ)
  deriving DecidableEq, Repr

/-- A request without its path. -/
def TreeEvent.shape : TreeEvent → TreeShape
  | readPath _ level => .readPath level
  | writePath _ level _ => .writePath level

namespace PathOramController

/-- What `InternalAccess` sends, without the paths. -/
def shapeSent (S : TreeStub C σ) (P : PathOramConfig) (op : Operation) (address : ℕ)
    (buffer : OramBlock D) (draws : AccessDraws C) (dummy : Bool) (w : PathSystem D σ) :
    List TreeShape :=
  (internalAccess (loggedTreeStub S) P op address buffer draws dummy
    (w.withLog [])).2.server.2.map TreeEvent.shape

/-- The reads of a path, from the root to the leaf. -/
def readShape (P : PathOramConfig) : List TreeShape :=
  (List.range (P.treeLevel + 1)).map .readPath

/-- The writes of a path, from the leaf to the root. -/
def writeShape (P : PathOramConfig) : List TreeShape :=
  (List.range (P.treeLevel + 1)).reverse.map .writePath

theorem shape_reads (x : ℕ) :
    ((List.range (P.treeLevel + 1)).map (TreeEvent.readPath x)).map TreeEvent.shape =
      readShape P := by
  rw [List.map_map]
  rfl

/-- The shape of a pattern: the levels down, and up again. -/
theorem shape_pattern (x : ℕ) : (pattern P x).map TreeEvent.shape = readShape P ++ writeShape P := by
  rw [pattern, List.map_append, shape_reads, List.map_map]
  rfl

/-! ## Real accesses -/

/-- A run with a log, from the run without. -/
theorem internalAccess_logged {op : Operation} {address : ℕ} {buffer : OramBlock D}
    {draws : AccessDraws C} {dummy : Bool} {w w' : PathSystem D σ} {r : Except Exit (OramBlock D)}
    (h : internalAccess S P op address buffer draws dummy w = (r, w')) :
    ∃ log, internalAccess (loggedTreeStub S) P op address buffer draws dummy (w.withLog []) =
      (r, w'.withLog log) := by
  obtain ⟨hagree, hclient, hserver⟩ := (simulates_loggedTreeStub S).internalAccess (P := P) op
    address buffer draws dummy w (w.withLog []) ⟨rfl, rfl⟩
  cases hlogged : internalAccess (loggedTreeStub S) P op address buffer draws dummy
      (w.withLog []) with
  | mk r' v =>
    rw [Prog.agree_eq, h, hlogged] at hagree
    rw [h, hlogged] at hclient hserver
    obtain ⟨client, server, log⟩ := v
    cases hagree
    cases hclient
    cases hserver
    exact ⟨log, rfl⟩

/-- An access that returns was valid, and went along some path. -/
theorem internalAccess_ok {op : Operation} {address : ℕ} {buffer out : OramBlock D}
    {draws : AccessDraws C} {dummy : Bool} {w w' : PathSystem D σ}
    (h : internalAccess S P op address buffer draws dummy w = (.ok out, w')) :
    ∃ x v, v.server = w.server ∧
      internalAccessDirect S P op address x buffer draws dummy v = (.ok out, w') := by
  rw [internalAccess, Prog.get_bind] at h
  split at h
  next => cases h
  split at h
  next => cases h
  obtain ⟨x, w₁, hrandom, hrest⟩ := Prog.bind_eq_ok h
  rw [randomPosition_spec] at hrandom
  cases hrandom
  cases dummy with
  | true => exact ⟨_, w, rfl, hrest⟩
  | false =>
    rw [if_neg Bool.false_ne_true] at hrest
    simp only [update, Prog.modify_bind] at hrest
    refine ⟨_, _, ?_, hrest⟩
    rfl

/-- The shape of a real access that returns. -/
theorem shapeSent_real {op : Operation} {address : ℕ} {buffer out : OramBlock D}
    {draws : AccessDraws C} {w w' : PathSystem D σ}
    (h : internalAccess S P op address buffer draws false w = (.ok out, w')) :
    shapeSent S P op address buffer draws false w = readShape P ++ writeShape P := by
  obtain ⟨log, hlogged⟩ := internalAccess_logged h
  obtain ⟨x, v, hserver, hdirect⟩ := internalAccess_ok hlogged
  have hlog := internalAccessDirect_log hdirect
  rw [shapeSent, hlogged, hlog, hserver, withLog, List.nil_append, shape_pattern]

/-- The shape of a dummy access that returns. -/
theorem shapeSent_dummy {op : Operation} {address : ℕ} {buffer out : OramBlock D}
    {draws : AccessDraws C} {w w' : PathSystem D σ}
    (h : internalAccess S P op address buffer draws true w = (.ok out, w')) :
    shapeSent S P op address buffer draws true w = readShape P := by
  obtain ⟨log, hlogged⟩ := internalAccess_logged h
  obtain ⟨x, v, hserver, hdirect⟩ := internalAccess_ok hlogged
  have hlog := internalAccessDirect_dummy_log hdirect
  rw [shapeSent, hlogged, hlog, hserver, withLog, List.nil_append, shape_reads]

/-! ## Dummy accesses, whatever their outcome -/

/-- Nothing has been written. -/
def OnlyReads (w : PathSystem D (σ × List TreeEvent)) : Prop :=
  ∀ event ∈ w.server.2, ∃ x l, event = .readPath x l

/-- Reading writes nothing. -/
theorem keeps_onlyReads_readLevels (x : ℕ) (ls : List ℕ) :
    Prog.Keeps OnlyReads (readLevels (loggedTreeStub S) P x ls) := by
  induction ls with
  | nil => exact .pure _
  | cons l ls ih =>
    refine .bind (.mapError ?_) fun _ => .bind ih fun _ => .pure _
    intro w hw
    have hread : ∀ event ∈ w.server.2 ++ [.readPath x l], ∃ x l, event = TreeEvent.readPath x l := by
      intro event hevent
      rw [List.mem_append, List.mem_singleton] at hevent
      cases hevent with
      | inl h => exact hw event h
      | inr h => exact ⟨x, l, h⟩
    rw [readBucket]
    split
    · exact hw
    · cases hcall : (loggedTreeStub S).readPath x l w.server with
      | mk r s =>
        have hlog : w.server.2 ++ [.readPath x l] = s.2 := congrArg (fun p => p.2.2) hcall
        rw [hlog] at hread
        cases r <;> exact hread

/-- A dummy access writes nothing. -/
theorem keeps_onlyReads_dummy (op : Operation) (address : ℕ) (buffer : OramBlock D)
    (draws : AccessDraws C) :
    Prog.Keeps OnlyReads
      (internalAccess (loggedTreeStub S) P op address buffer draws true) := by
  refine .bind .get fun w => ?_
  split
  · exact .throw _
  split
  · exact .throw _
  refine .bind (fun w hw => ?_) fun x => ?_
  · rw [randomPosition_spec]
    exact hw
  · exact .bind (keeps_onlyReads_readLevels _ _) fun _ => .pure _

/-- A dummy access never shows a write, whatever becomes of it. -/
theorem writePath_not_mem_dummy (op : Operation) (address : ℕ) (buffer : OramBlock D)
    (draws : AccessDraws C) (w : PathSystem D σ) (l : ℕ) :
    TreeShape.writePath l ∉ shapeSent S P op address buffer draws true w := by
  intro h
  obtain ⟨event, hevent, hshape⟩ := List.mem_map.mp h
  have hstart : OnlyReads (w.withLog []) := fun event h => absurd h List.not_mem_nil
  obtain ⟨x, l', rfl⟩ := keeps_onlyReads_dummy op address buffer draws _ hstart event hevent
  cases hshape

theorem writePath_mem_real : TreeShape.writePath 0 ∈ readShape P ++ writeShape P := by
  refine List.mem_append_right _ (List.mem_map.mpr ⟨0, ?_, rfl⟩)
  rw [List.mem_reverse, List.mem_range]
  exact Nat.succ_pos _

/-- The shapes of a dummy access and of a real one that returns, from any two states. -/
theorem shapeSent_ne {op op' : Operation} {address address' : ℕ} {buffer buffer' out : OramBlock D}
    {draws draws' : AccessDraws C} {w w' : PathSystem D σ}
    (hreal : internalAccess S P op address buffer draws false w = (.ok out, w'))
    (v : PathSystem D σ) :
    shapeSent S P op' address' buffer' draws' true v ≠
      shapeSent S P op address buffer draws false w := by
  intro h
  apply writePath_not_mem_dummy (S := S) (P := P) op' address' buffer' draws' v 0
  rw [h, shapeSent_real hreal]
  exact writePath_mem_real

end PathOramController

/-- **A dummy access never has the shape of a real one.** Over any server: if a
real access returns, its shape is a path read and a path written; a dummy access
that returns has read a path only; and a dummy access of whatever arguments, in
whatever state and whatever its outcome, has another shape. -/
theorem dummy_shape_ne_real {op : Operation} {address : ℕ} {buffer out : OramBlock D}
    {draws : AccessDraws C} {w w' : PathSystem D σ}
    (hreal : internalAccess S P op address buffer draws false w = (.ok out, w')) :
    shapeSent S P op address buffer draws false w = readShape P ++ writeShape P ∧
      ∀ (op' : Operation) (address' : ℕ) (buffer' : OramBlock D) (draws' : AccessDraws C)
        (v : PathSystem D σ),
        shapeSent S P op' address' buffer' draws' true v ≠
            shapeSent S P op address buffer draws false w ∧
          ∀ out' v', internalAccess S P op' address' buffer' draws' true v = (.ok out', v') →
            shapeSent S P op' address' buffer' draws' true v = readShape P := by
  exact ⟨shapeSent_real hreal, fun op' address' buffer' draws' v =>
    ⟨shapeSent_ne hreal v, fun _ _ => shapeSent_dummy⟩⟩

/-! ## A small instance -/

/-- Two leaves, buckets of two blocks, behind a slot of a Partition ORAM. -/
def embeddedTree : PathOramConfig := .new 0 4 2 false

/-- The embedded tree after its load. -/
def embeddedSystem : PathSystem ℕ (TreeOramServerStorage (Codec.plain ℕ)) :=
  (fillWithData (OramService.stub _ 0) embeddedTree [smallBlock 3 30, smallBlock 5 50] smallFill
    (PathSystem.init _ embeddedTree)).2

/-- The read of block 3 and the fake read of it. -/
theorem dummy_shape_differs :
    embeddedTree.standalone = false ∧
      outcomeCode (internalAccess (OramService.stub _ 0) embeddedTree .kRead 3 dummyBlock smallDraws
        false embeddedSystem).1 = some .kOK ∧
      shapeSent (OramService.stub _ 0) embeddedTree .kRead 3 dummyBlock smallDraws false
          embeddedSystem = [.readPath 0, .readPath 1, .writePath 1, .writePath 0] ∧
      shapeSent (OramService.stub _ 0) embeddedTree .kRead 3 dummyBlock smallDraws true
          embeddedSystem = [.readPath 0, .readPath 1] ∧
      shapeSent (OramService.stub _ 0) embeddedTree .kRead 3 dummyBlock smallDraws true
          embeddedSystem ≠
        shapeSent (OramService.stub _ 0) embeddedTree .kRead 3 dummyBlock smallDraws false
          embeddedSystem := by
  decide

/-- The fake write of an empty slot and the read of a block. -/
theorem dummy_shape_ne_real_small :
    shapeSent (OramService.stub _ 0) embeddedTree .kWrite 0 dummyBlock smallDraws true
        embeddedSystem ≠
      shapeSent (OramService.stub _ 0) embeddedTree .kRead 3 dummyBlock smallDraws false
        embeddedSystem := by
  have hreal : internalAccess (OramService.stub _ 0) embeddedTree .kRead 3 dummyBlock smallDraws
      false embeddedSystem = (.ok (smallBlock 3 30), (internalAccess (OramService.stub _ 0)
        embeddedTree .kRead 3 dummyBlock smallDraws false embeddedSystem).2) := rfl
  exact ((dummy_shape_ne_real hreal).2 .kWrite 0 dummyBlock smallDraws embeddedSystem).1

end ObliviousRam
