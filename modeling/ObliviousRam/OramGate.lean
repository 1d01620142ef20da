import ObliviousRam.PartitionStart
import ObliviousRam.PartitionMemory
import ObliviousRam.LinearMemory
import ObliviousRam.SquareRootMemory

set_option autoImplicit false

/-!
# The gate before the first load

`OramController::Access` turns a client away as long as `is_initialized_` is down. Which
accesses that stops depends on who raises the flag, and when:

* the square-root and the Path controllers raise it at the end of a `FillWithData` that
  returned OK: until then every access is refused;
* the linear controller raises it before it sends the data, and keeps it up if the call
  fails: it refuses exactly until the first `FillWithData`, whatever becomes of that;
* the Partition controller overrides `Access` and never looks at the flag.

The connection is arbitrary in what follows: any state `σ`, and a stub that does anything
to it, fails when it likes, and may count how often it is called.
-/

namespace ObliviousRam

variable {D σ : Type} {C : Codec D}

/-! ## What a client can call

The controllers have `InitOram`, `FillWithData` and `Access` in common, and
`OramInterface` has the three, with the flag. `Tracks` says what the flag does: of all
calls only a load raises it, and nothing lowers it. -/

/-- Run a program for its effects. -/
def Prog.forget {ε α : Type} (m : Prog ε σ α) : Prog ε σ Unit := do
  let _ ← m
  pure ()

/-- The calls of an `OramController` that the gate is about. A `World` is the client
together with what it is connected to. -/
structure OramInterface (σ : Type) where
  World : Type
  FillArgs : Type
  AccessArgs : Type
  new : σ → World
  initOram : Prog Exit World Unit
  fillWithData : FillArgs → Prog Exit World Unit
  access : AccessArgs → Prog Exit World Unit

/-- A call with its arguments. -/
inductive ControllerCall (O : OramInterface σ) where
  | initOram
  | fillWithData (args : O.FillArgs)
  | access (args : O.AccessArgs)

namespace ControllerCall

variable {O : OramInterface σ}

/-- Make the call. -/
def run : ControllerCall O → Prog Exit O.World Unit
  | initOram => O.initOram
  | fillWithData args => O.fillWithData args
  | access args => O.access args

/-- The call is a `FillWithData`. -/
def isFill : ControllerCall O → Bool
  | fillWithData _ => true
  | _ => false

end ControllerCall

namespace OramInterface

variable (O : OramInterface σ)

/-- The access is turned away: it returns `kInvalidOperation`, and the client and what it is
connected to are as they were. (A server may count the calls, so there was none.) -/
def Refuses (args : O.AccessArgs) (w : O.World) : Prop :=
  ∃ st, O.access args w = (.error (.status st), w) ∧ st.errorCode = .kInvalidOperation

/-- `flag` follows the calls: no call takes it down, and only a `FillWithData` can raise it,
which it does if its outcome is as `raises` says. -/
structure Tracks (flag : O.World → Bool) (raises : Except Exit Unit → Bool) : Prop where
  init : ∀ b, Prog.Keeps (fun w => flag w = b) O.initOram
  access : ∀ args b, Prog.Keeps (fun w => flag w = b) (O.access args)
  fill : ∀ args w, flag (O.fillWithData args w).2 = (flag w || raises (O.fillWithData args w).1)

variable {O} {flag : O.World → Bool} {raises : Except Exit Unit → Bool}

/-- One call. -/
theorem Tracks.step (h : O.Tracks flag raises) (c : ControllerCall O) (w : O.World) :
    flag (c.run w).2 = (flag w || c.isFill && raises (c.run w).1) := by
  cases c with
  | initOram => exact (h.init _ w rfl).trans (Bool.or_false _).symm
  | fillWithData args => exact h.fill args w
  | access args => exact (h.access args _ w rfl).trans (Bool.or_false _).symm

/-- **After a run, the flag is up exactly if a `FillWithData` has raised it.** -/
theorem Tracks.flag_eq (h : O.Tracks flag raises) {calls : List (ControllerCall O)}
    {w w' : O.World} {rs : List (Except Exit Unit)} (hw : flag w = false)
    (hrun : Prog.trace Exit.fatal ControllerCall.run calls w = some (rs, w')) :
    flag w' = (calls.zip rs).any fun c => c.1.isFill && raises c.2 := by
  refine Prog.trace_history Exit.fatal (fun _ _ => True)
    (fun past w => flag w = past.any fun c => c.1.isFill && raises c.2) ?_ [] hw
    (.of_forall (fun _ _ _ => trivial) w) hrun
  intro past c w₁ r w₂ _ hpast hcall
  have hstep := h.step c w₁
  rw [(Prog.eq_of_survive hcall).1] at hstep
  rw [hstep, hpast, List.any_append, List.any_cons, List.any_nil, Bool.or_false]

/-- A flag that is raised at the very end is raised by what returns OK. -/
theorem flag_of_last {W : Type} {flag : W → Bool} {up : W → W} {m : Prog Exit W Unit}
    (hm : ∀ b, Prog.Keeps (fun w => flag w = b) m) (hup : ∀ w, flag (up w) = true) (w : W) :
    flag ((m >>= fun _ => Prog.modify up) w).2 =
      (flag w || ((m >>= fun _ => Prog.modify up) w).1.isOk) := by
  have hkeep := hm _ w rfl
  rcases hrun : m w with ⟨e | _, w'⟩
  · rw [hrun] at hkeep
    rw [Prog.bind_error hrun]
    exact hkeep.trans (Bool.or_false _).symm
  · rw [Prog.bind_ok hrun]
    exact (hup w').trans (Bool.or_true _).symm

end OramInterface

theorem Prog.Keeps.forget {ε α : Type} {I : σ → Prop} {m : Prog ε σ α} (hm : Prog.Keeps I m) :
    Prog.Keeps I m.forget := .bind hm fun _ => .pure _

theorem Prog.forget_error {ε α : Type} {m : Prog ε σ α} {s s' : σ} {e : ε}
    (hm : m s = (.error e, s')) : m.forget s = (.error e, s') := Prog.bind_error hm

theorem Prog.Reports.forget {α : Type} {P : OramStatus → Prop} {m : Prog Exit σ α}
    (hm : m.Reports P) : m.forget.Reports P := .bind hm fun _ => .pure _

/-- A program that never returns the code is no refusal. -/
theorem OramInterface.not_refuses {O : OramInterface σ} {P : OramStatus → Prop}
    {args : O.AccessArgs} {w : O.World} (hreports : (O.access args).Reports P)
    (hP : ∀ st, P st → st.errorCode ≠ .kInvalidOperation) : ¬O.Refuses args w := by
  rintro ⟨st, hrun, hcode⟩
  refine hP st (hreports w st ?_) hcode
  rw [hrun]

/-! ## The linear controller

A load raises the flag first and sends then. Whatever becomes of the data, the gate is
open. -/

namespace LinearOramController

variable (S : FlatStub C σ)

/-- `InitOram`. -/
def initOram (initFlatOram : Prog String σ Unit) : Prog Exit (LinearSystem σ) Unit := fun w =>
  match initFlatOram w.server with
  | (.ok (), server) => (.ok (), { w with server := server })
  | (.error _, server) =>
    fail .kServerError "Cannot invoke InitOram on the server side" "InitOram"
      { w with server := server }

/-- The calls of a linear ORAM. -/
def interface (initFlatOram : Prog String σ Unit) : OramInterface σ where
  World := LinearSystem σ
  FillArgs := List (OramBlock D) × (ℕ → C.Iv)
  AccessArgs := LinearRequest C
  new := fun server => ⟨.new, server⟩
  initOram := initOram initFlatOram
  fillWithData := fun args => fillWithData S args.1 args.2
  access := fun r => (access S r.op r.address r.buffer r.iv).forget

variable {S} {b : Bool}

theorem keeps_flag_initOram (initFlatOram : Prog String σ Unit) :
    Prog.Keeps (fun w => w.client.isInitialized = b) (initOram initFlatOram) := by
  intro w hw
  rw [initOram]
  split <;> exact hw

/-- The remote calls leave the flag alone, however they end. -/
theorem keeps_flag_readFromServer :
    Prog.Keeps (fun w => w.client.isInitialized = b) (readFromServer S) := by
  intro w hw
  rw [readFromServer]
  split <;> exact hw

theorem keeps_flag_writeToServer (content : FlatString C) :
    Prog.Keeps (fun w => w.client.isInitialized = b) (writeToServer S content) := by
  intro w hw
  rw [writeToServer]
  split <;> exact hw

theorem keeps_flag_access (op : Operation) (address : ℕ) (data : OramBlock D) (iv : ℕ → C.Iv) :
    Prog.Keeps (fun w => w.client.isInitialized = b) (access S op address data iv) := by
  refine .bind .get fun w => ?_
  split
  · exact .throw _
  · rw [internalAccess]
    split
    · exact .throw _
    · exact .bind (.mapError keeps_flag_readFromServer) fun storage =>
        .bind (.mapError (keeps_flag_writeToServer _)) fun _ => .pure _

/-- Every `FillWithData` raises the flag. -/
theorem tracks (initFlatOram : Prog String σ Unit) :
    (interface S initFlatOram).Tracks (fun w => w.client.isInitialized) fun _ => true where
  init := fun _ => keeps_flag_initOram initFlatOram
  access := fun r _ => (keeps_flag_access r.op r.address r.buffer r.iv).forget
  fill := by
    rintro ⟨data, iv⟩ w
    rw [Bool.or_true]
    exact keeps_flag_writeToServer _ { w with client := ⟨true⟩ } rfl

/-- With the flag down, `Access` ends at the gate. -/
theorem access_closed {w : LinearSystem σ} (h : w.client.isInitialized = false)
    (op : Operation) (address : ℕ) (data : OramBlock D) (iv : ℕ → C.Iv) :
    access S op address data iv w = fail .kInvalidOperation
      "Cannot access ORAM before it is initialized" "" w := by
  rw [access, Prog.get_bind, if_pos h]

/-- Past the gate the only error status is `kServerError`. -/
theorem internalAccess_reports (op : Operation) (address : ℕ) (data : OramBlock D)
    (iv : ℕ → C.Iv) :
    (internalAccess S op address data iv).Reports fun st => st.errorCode = .kServerError := by
  rw [internalAccess]
  split
  · exact .abort _
  · refine .bind ?_ fun storage => .bind ?_ fun _ => .pure _
    · -- the code of `ReadFromServer` comes first, `kInvalidOperation` is appended to it
      refine .mapError (P := fun st => st.errorCode = .kServerError) ?_ ?_
      · intro w st h
        rw [readFromServer] at h
        split at h <;> cases h
        rfl
      · intro e st hst he
        cases e <;> cases he
        exact (OramStatus.append_errorCode _ _).trans (hst _ rfl)
    · refine .mapError (P := fun _ => True) (fun _ _ _ => trivial) ?_
      intro e st _ he
      cases he
      rfl

/-- **The linear gate**: shut exactly until the flag is up. -/
theorem refuses_iff {initFlatOram : Prog String σ Unit} {w : LinearSystem σ}
    (r : LinearRequest C) :
    (interface S initFlatOram).Refuses r w ↔ w.client.isInitialized = false := by
  constructor
  · rintro ⟨st, hrun, hcode⟩
    by_contra hopen
    have hreports : st.errorCode = .kServerError := by
      refine Prog.Reports.forget (internalAccess_reports (S := S) r.op r.address r.buffer r.iv)
        w st ?_
      have hsame : (access S r.op r.address r.buffer r.iv).forget w =
          (internalAccess S r.op r.address r.buffer r.iv).forget w := by
        rw [Prog.forget, Prog.bind_apply, access, Prog.get_bind, if_neg hopen]
        rfl
      exact hsame ▸ congrArg Prod.fst hrun
    rw [hreports] at hcode
    cases hcode
  · intro h
    exact ⟨_, Prog.forget_error (access_closed h _ _ _ _), rfl⟩

end LinearOramController

/-! ## The square-root controller -/

namespace SquareRootOramController

variable (S : SqrtStub C σ) (K : SquareRootOramConfig)

/-- `InitOram`. -/
def initOram (initSqrtOram : SquareRootOramConfig → Prog String σ Unit) :
    Prog Exit (SqrtSystem σ) Unit :=
  remote "InitOram" (initSqrtOram K)

/-- The calls of a square-root ORAM. `FillWithData` gets the bytes that padding happens to
have, the data, and its draws. -/
def interface (initSqrtOram : SquareRootOramConfig → Prog String σ Unit) : OramInterface σ where
  World := SqrtSystem σ
  FillArgs := (ℕ → OramBlock D) × List (OramBlock D) × SqrtFillDraws C
  AccessArgs := SqrtRequest C
  new := fun server => ⟨.new, server⟩
  initOram := initOram K initSqrtOram
  fillWithData := fun args => fillWithData S K args.1 args.2.1 args.2.2
  access := fun r => (access S K r.op r.address r.buffer r.draws).forget

variable {S K} {b : Bool}

theorem keeps_flag_remote {α : Type} (location : String) (m : Prog String σ α) :
    Prog.Keeps (fun w => w.client.isInitialized = b) (remote location m) := by
  intro w hw
  rw [remote]
  split <;> exact hw

/-- No part of an access touches the flag. -/
theorem keeps_flag_scanShelter (address : ℕ) (is : List ℕ) (found : Option (OramBlock D)) :
    Prog.Keeps (fun w => w.client.isInitialized = b) (scanShelter S address is found) := by
  induction is generalizing found with
  | nil => exact .pure _
  | cons i is ih =>
    refine .bind (keeps_flag_remote _ _) fun content => ?_
    cases content with
    | none => exact ih found
    | some c => exact ih _

theorem keeps_flag_readShelter (address : ℕ) :
    Prog.Keeps (fun w => w.client.isInitialized = b) (readShelter S K address) := by
  refine .bind (keeps_flag_scanShelter _ _ _) fun found => ?_
  cases found with
  | none => exact .throw _
  | some block => exact .pure _

theorem keeps_flag_readMain (pos : ℕ) :
    Prog.Keeps (fun w => w.client.isInitialized = b) (readMain S pos) := by
  refine .bind (keeps_flag_remote _ _) fun content => ?_
  cases content with
  | none => exact .throw _
  | some c => exact .pure _

theorem keeps_flag_fetch (address position : ℕ) :
    Prog.Keeps (fun w => w.client.isInitialized = b) (fetch S K address position) := by
  refine .bind (keeps_flag_readShelter address) fun inShelter => ?_
  split
  · exact .bind .get fun w => .bind (fun _ hw => hw) fun _ =>
      .bind (.mapError (.bind (keeps_flag_remote _ _) fun _ => .pure _)) fun _ => .pure _
  · split
    · exact .throw _
    · exact .mapError (keeps_flag_readMain position)
  · exact .throw _

theorem keeps_flag_permuteOnFull (draw : List ℕ) :
    Prog.Keeps (fun w => w.client.isInitialized = b) (permuteOnFull S K draw) := by
  refine .bind (fun _ hw => hw) fun _ => .bind .get fun w => ?_
  split
  · refine .bind (fun _ hw => hw) fun _ => ?_
    split
    · exact .bind (keeps_flag_remote _ _) fun _ _ hw => hw
    · exact .throw _
  · exact .pure _

theorem keeps_flag_access (op : Operation) (address : ℕ) (buffer : OramBlock D)
    (draws : SqrtDraws C) :
    Prog.Keeps (fun w => w.client.isInitialized = b) (access S K op address buffer draws) := by
  refine .bind .get fun w => ?_
  split
  · exact .throw _
  · refine .bind .get fun w => ?_
    split
    · exact .throw _
    · split
      · exact .throw _
      · split
        · exact .throw _
        · refine .bind (keeps_flag_fetch _ _) fun block => ?_
          split
          · exact .throw _
          · split
            · exact .bind (keeps_flag_remote _ _) fun _ =>
                .bind (.mapError (keeps_flag_permuteOnFull _)) fun _ => .pure _
            · exact .bind (.mapError (keeps_flag_remote _ _)) fun _ =>
                .bind (.mapError (keeps_flag_permuteOnFull _)) fun _ => .pure _

/-- A `FillWithData` raises the flag if it returns OK. -/
theorem tracks (initSqrtOram : SquareRootOramConfig → Prog String σ Unit) :
    (interface S K initSqrtOram).Tracks (fun w => w.client.isInitialized) Except.isOk where
  init := fun _ => keeps_flag_remote _ _
  access := fun r _ => (keeps_flag_access r.op r.address r.buffer r.draws).forget
  fill := by
    rintro ⟨garbage, data, draws⟩ w
    show (fillWithData S K garbage data draws w).2.client.isInitialized =
      (w.client.isInitialized || (fillWithData S K garbage data draws w).1.isOk)
    rw [fillWithData]
    split
    · exact (Bool.or_false _).symm
    · rw [← Prog.bind_assoc]
      exact OramInterface.flag_of_last (fun b => .bind (fun _ hw => hw) fun _ =>
        keeps_flag_remote _ _) (fun _ => rfl) w

theorem access_closed {w : SqrtSystem σ} (h : w.client.isInitialized = false) (op : Operation)
    (address : ℕ) (buffer : OramBlock D) (draws : SqrtDraws C) :
    access S K op address buffer draws w = fail .kInvalidOperation
      "Cannot access ORAM before it is initialized" "" w := by
  rw [access, Prog.get_bind, if_pos h]

/-- A closed gate is a refusal. -/
theorem refuses_of_closed {initSqrtOram : SquareRootOramConfig → Prog String σ Unit}
    {w : SqrtSystem σ} (h : w.client.isInitialized = false) (r : SqrtRequest C) :
    (interface S K initSqrtOram).Refuses r w :=
  ⟨_, Prog.forget_error (access_closed h _ _ _ _), rfl⟩

end SquareRootOramController

/-! ## The Path controller -/

namespace PathOramController

variable (S : TreeStub C σ) (P : PathOramConfig)

/-- `InitOram`. -/
def initOram (initTreeOram : PathOramConfig → Prog String σ Unit) :
    Prog Exit (PathSystem D σ) Unit := fun w =>
  match initTreeOram P w.server with
  | (.ok (), server) => (.ok (), { w with server := server })
  | (.error msg, server) => fail .kServerError msg "InitOram" { w with server := server }

/-- The calls of a Path ORAM. -/
def interface (initTreeOram : PathOramConfig → Prog String σ Unit) : OramInterface σ where
  World := PathSystem D σ
  FillArgs := List (OramBlock D) × FillDraws C
  AccessArgs := PathRequest C
  new := fun server => ⟨.new, server⟩
  initOram := initOram P initTreeOram
  fillWithData := fun args => fillWithData S P args.1 args.2
  access := fun r => (access S P r.op r.address r.buffer r.draws).forget

variable {S P} {b : Bool}

theorem keeps_flag_initOram (initTreeOram : PathOramConfig → Prog String σ Unit) :
    Prog.Keeps (fun w : PathSystem D σ => w.client.isInitialized = b)
      (initOram P initTreeOram) := by
  intro w hw
  rw [initOram]
  split <;> exact hw

/-- The steps that the accesses of a Path ORAM are made of keep the flag. -/
theorem keptBySteps_flag :
    KeptBySteps S P fun w => w.client.isInitialized = b where
  readBucket := by
    intro x l w hw
    rw [readBucket]
    split
    · exact hw
    · split <;> exact hw
  writeBucket := by
    intro x l iv bucket w hw
    rw [writeBucket]
    split <;> exact hw
  accurateWriteBucket := by
    intro l o iv bucket w hw
    rw [accurateWriteBucket]
    split <;> exact hw
  client := fun _ _ hc hw => hc.trans hw

theorem keeps_flag_access (op : Operation) (address : ℕ) (buffer : OramBlock D)
    (draws : AccessDraws C) :
    Prog.Keeps (fun w => w.client.isInitialized = b) (access S P op address buffer draws) := by
  refine .bind .get fun w => ?_
  split
  · exact .throw _
  · exact keptBySteps_flag.internalAccess _ _ _ _ _

/-- A `FillWithData` raises the flag if it returns OK. -/
theorem tracks (initTreeOram : PathOramConfig → Prog String σ Unit) :
    (interface S P initTreeOram).Tracks (fun w => w.client.isInitialized) Except.isOk where
  init := fun _ => keeps_flag_initOram initTreeOram
  access := fun r _ => (keeps_flag_access r.op r.address r.buffer r.draws).forget
  fill := fun args w => OramInterface.flag_of_last
    (fun _ => keptBySteps_flag.fillTree args.2 _ args.1) (fun _ => rfl) w

theorem access_closed {w : PathSystem D σ} (h : w.client.isInitialized = false) (op : Operation)
    (address : ℕ) (buffer : OramBlock D) (draws : AccessDraws C) :
    access S P op address buffer draws w = fail .kInvalidOperation
      "Cannot access ORAM before it is initialized" "" w := by
  rw [access, Prog.get_bind, if_pos h]

theorem refuses_of_closed {initTreeOram : PathOramConfig → Prog String σ Unit}
    {w : PathSystem D σ} (h : w.client.isInitialized = false) (r : PathRequest C) :
    (interface S P initTreeOram).Refuses r w :=
  ⟨_, Prog.forget_error (access_closed h _ _ _ _), rfl⟩

end PathOramController

/-! ## The Partition controller

There is a flag, and `FillWithData` raises it, but its own `Access` never asks for it.
So an access before any load goes through to the slots, which may be out of range, and
no status comes back. -/

namespace PartitionSystem

variable (S : ForestStub C σ) (Q : PartitionOramConfig) (slots : ℕ)

/-- The calls of a Partition ORAM with so many slots. -/
def interface : OramInterface σ where
  World := PartitionSystem D σ
  FillArgs := List (OramBlock D) × (ℕ → FillDraws C)
  AccessArgs := PartitionRequest C
  new := .new D slots
  initOram := initOram S Q
  fillWithData := fun args => fillWithData S Q args.1 args.2
  access := fun r => (access S Q r.op r.address r.buffer r.draws).forget

/-- **There is no gate**: no access is refused, in any state. -/
theorem never_refuses (r : PartitionRequest C) (w : PartitionSystem D σ) :
    ¬(interface S Q slots).Refuses r w :=
  OramInterface.not_refuses
    (Prog.Reports.forget (access_reports_nothing S Q r.op r.address r.buffer r.draws))
    fun _ h => h.elim

end PartitionSystem

/-! ## The four gates

What is to be shown of the controllers is read off `Tracks` and the state of the flag at
the start, which is down. -/

/-- A controller of any of the four types, and the connection that it was given. -/
inductive ControllerSetup (C : Codec D) (σ : Type) where
  | linear (stub : FlatStub C σ) (initFlatOram : Prog String σ Unit)
  | squareRoot (stub : SqrtStub C σ) (initSqrtOram : SquareRootOramConfig → Prog String σ Unit)
    (K : SquareRootOramConfig)
  | path (stub : TreeStub C σ) (initTreeOram : PathOramConfig → Prog String σ Unit)
    (P : PathOramConfig)
  | partition (stub : ForestStub C σ) (Q : PartitionOramConfig) (slots : ℕ)

namespace ControllerSetup

/-- The calls of the controller. -/
def interface : ControllerSetup C σ → OramInterface σ
  | linear stub initFlatOram => LinearOramController.interface stub initFlatOram
  | squareRoot stub initSqrtOram K => SquareRootOramController.interface stub K initSqrtOram
  | path stub initTreeOram P => PathOramController.interface stub P initTreeOram
  | partition stub Q slots => PartitionSystem.interface stub Q slots

/-- Whether the gate is shut after calls among which no `FillWithData` returned OK. -/
def GateShut : (X : ControllerSetup C σ) → List (ControllerCall X.interface) → Prop
  | linear _ _, calls => ∀ c ∈ calls, c.isFill = false
  | squareRoot _ _ _, _ => True
  | path _ _ _, _ => True
  | partition _ _ _, _ => False

variable {O : OramInterface σ} {flag : O.World → Bool} {calls : List (ControllerCall O)}
  {rs : List (Except Exit Unit)} {w w' : O.World}

/-- A flag that only a load which returned OK can raise is still down. -/
theorem flag_down (h : O.Tracks flag Except.isOk) (hw : flag w = false)
    (hrun : Prog.trace Exit.fatal ControllerCall.run calls w = some (rs, w'))
    (hload : ∀ c ∈ calls.zip rs, c.1.isFill = true → c.2.isOk = false) : flag w' = false := by
  rw [h.flag_eq hw hrun, List.any_eq_false]
  intro c hc
  rw [Bool.and_eq_true]
  rintro ⟨hfill, hok⟩
  rw [hload c hc hfill] at hok
  cases hok

/-- A flag that every load raises is down exactly before the first. -/
theorem flag_down_iff (h : O.Tracks flag fun _ => true) (hw : flag w = false)
    (hrun : Prog.trace Exit.fatal ControllerCall.run calls w = some (rs, w')) :
    flag w' = false ↔ ∀ c ∈ calls, c.isFill = false := by
  rw [h.flag_eq hw hrun, List.any_eq_false]
  have hfst : (calls.zip rs).map Prod.fst = calls :=
    List.map_fst_zip (Nat.le_of_eq (Prog.length_trace hrun).symm)
  constructor
  · intro hnone c hc
    rw [← hfst] at hc
    obtain ⟨p, hp, rfl⟩ := List.mem_map.mp hc
    have hp := hnone p hp
    rw [Bool.and_true] at hp
    exact Bool.eq_false_iff.mpr hp
  · intro hnone p hp
    rw [Bool.and_true, hnone p.1 (List.of_mem_zip hp).1]
    exact Bool.false_ne_true

/-- **Before a `FillWithData` has returned OK**, in whatever order calls were made before and
whatever became of them: the square-root and the Path controllers refuse every access, the
linear controller does so exactly if no `FillWithData` was called at all, and the Partition
controller never does. -/
theorem access_refused_iff (X : ControllerSetup C σ) {server : σ}
    {calls : List (ControllerCall X.interface)} {rs : List (Except Exit Unit)}
    {w : X.interface.World}
    (hrun : Prog.trace Exit.fatal ControllerCall.run calls (X.interface.new server) =
      some (rs, w))
    (hload : ∀ c ∈ calls.zip rs, c.1.isFill = true → c.2.isOk = false)
    (args : X.interface.AccessArgs) : X.interface.Refuses args w ↔ X.GateShut calls := by
  cases X with
  | linear stub initFlatOram =>
    exact (LinearOramController.refuses_iff args).trans
      (flag_down_iff (LinearOramController.tracks initFlatOram) rfl hrun)
  | squareRoot stub initSqrtOram K =>
    have hflag := flag_down (SquareRootOramController.tracks initSqrtOram) rfl hrun hload
    exact ⟨fun _ => trivial, fun _ => SquareRootOramController.refuses_of_closed hflag args⟩
  | path stub initTreeOram P =>
    have hflag := flag_down (PathOramController.tracks initTreeOram) rfl hrun hload
    exact ⟨fun _ => trivial, fun _ => PathOramController.refuses_of_closed hflag args⟩
  | partition stub Q slots =>
    exact ⟨fun h => PartitionSystem.never_refuses stub Q slots args w h, fun h => h.elim⟩

/-- A square-root ORAM whose server cannot be loaded; the server counts the calls. -/
def unloadable : ControllerSetup (Codec.plain ℕ) ℕ :=
  .squareRoot
    { loadSqrtOram := fun _ n => (.error "unavailable", n + 1)
      readSqrtMemory := fun _ _ n => (.ok none, n + 1)
      writeSqrtMemory := fun _ _ n => (.ok (), n + 1)
      sqrtPermute := fun _ n => (.ok (), n + 1) }
    (fun _ n => (.ok (), n + 1)) ⟨2, 2⟩

/-- One call to make the ORAM and one to load it, and no more after the load has failed. -/
theorem access_refused_unloadable :
    ∃ (st : OramStatus) (w : SqrtSystem ℕ),
      Prog.trace Exit.fatal ControllerCall.run
          [.initOram, .fillWithData (fun _ => ⟨⟨0, .kDummy, 0⟩, 0⟩, [], ⟨[], fun _ => ()⟩)]
          (unloadable.interface.new 0) = some ([.ok (), .error (.status st)], w) ∧
        w.server = 2 ∧
        unloadable.interface.Refuses ⟨.kRead, 0, ⟨⟨0, .kNormal, 0⟩, 0⟩, ⟨[], ()⟩⟩ w := by
  have hrun : ∃ w : SqrtSystem ℕ,
      Prog.trace Exit.fatal ControllerCall.run
          [.initOram, .fillWithData (fun _ => ⟨⟨0, .kDummy, 0⟩, 0⟩, [], ⟨[], fun _ => ()⟩)]
          (unloadable.interface.new 0) = some ([.ok (), .error (.status
            (.make .kServerError "unavailable" "FillWithData"))], w) ∧ w.server = 2 :=
    ⟨_, rfl, rfl⟩
  obtain ⟨w, hrun, hserver⟩ := hrun
  refine ⟨_, w, hrun, hserver, (access_refused_iff unloadable hrun ?_ _).mpr trivial⟩
  intro c hc _
  rcases List.mem_cons.mp hc with rfl | hc
  · contradiction
  · rw [List.mem_singleton.mp hc]
    rfl

/-- A linear ORAM on a server that counts the calls, of which the first fails. -/
def unsteady : ControllerSetup (Codec.plain ℕ) ℕ :=
  .linear
    { readFlatMemory := fun n => (.ok ⟨[], []⟩, n + 1)
      writeFlatMemory := fun _ n => (if n = 0 then .error "unavailable" else .ok (), n + 1) }
    fun n => (.ok (), n + 1)

/-- A Partition ORAM of four slots. -/
def partitioned : ControllerSetup (Codec.plain ℕ) ℕ :=
  .partition
    { initTreeOram := fun _ n => (.ok (), n + 1)
      tree := fun _ => ⟨fun _ _ n => (.ok [], n + 1), fun _ n => (.ok (), n + 1)⟩ }
    (.run 16 4 1) 4

/-- **Two gates that are open.** After a load that failed, the linear controller goes on to
read and write the server. The Partition controller divides by zero if it is accessed before
`InitOram`. -/
theorem access_not_refused :
    (∃ (st : OramStatus) (w : LinearSystem ℕ),
      Prog.trace Exit.fatal ControllerCall.run [.fillWithData ([], fun _ => ())]
          (unsteady.interface.new 0) = some ([.error (.status st)], w) ∧
        st.errorCode = .kServerError ∧ w.server = 1 ∧
        unsteady.interface.access ⟨.kRead, 0, ⟨⟨0, .kNormal, 0⟩, 0⟩, fun _ => ()⟩ w =
          (.ok (), { w with server := 3 })) ∧
      (partitioned.interface.access ⟨.kRead, 0, ⟨⟨0, .kNormal, 0⟩, 0⟩,
          ⟨0, ⟨⟨0, .kDummy, 0⟩, 0⟩, ⟨0, fun _ _ => ⟨⟨0, .kDummy, 0⟩, 0⟩, fun _ _ => ()⟩,
            fun _ => ⟨0, ⟨0, fun _ _ => ⟨⟨0, .kDummy, 0⟩, 0⟩, fun _ _ => ()⟩⟩⟩⟩
        (partitioned.interface.new 0)).1 =
          .error (.undefined "division by zero in UniformRandom") :=
  ⟨⟨_, _, rfl, rfl, rfl, rfl⟩, rfl⟩

end ControllerSetup

end ObliviousRam
