import ObliviousRam.Contract
import ObliviousRam.SqrtPattern
import Mathlib.Data.Fin.VecNotation
import Mathlib.Data.Fintype.Perm
import Mathlib.Data.Fintype.Pi
import Mathlib.Data.Fintype.Prod
import Mathlib.Data.Setoid.Basic
import Mathlib.Logic.Equiv.Fintype

set_option autoImplicit false

/-!
# What a square-root ORAM shows

`SqrtPattern` looks at the kinds of the requests. Here the server sees them as
they are sent, but for the sealed contents: the tags that are read, the tag of
the word that is written, and the permutation of its memory.

The word of an access is written under its tag, hit or not, and the permutations
that move the tags are sent in the clear. So the server sees which accesses go
to the same address. The first permutation is not sent, and hides the rest of
what the tags could tell.

A sealed word still has its `block_id` in the clear. As a word of the server's
memory it is no part of the views that are compared here, which end with tags and
permutations; so this is a statement about the tags, not about all that is sent.
-/

namespace ObliviousRam

open SqrtSystem SquareRootOramController

variable {D σ : Type} {C : Codec D} {K : SquareRootOramConfig}

/-! ## The requests as they are sent -/

/-- A request; of the contents of a load, their number. -/
inductive SqrtEvent where
  | loadSqrtOram (contents : ℕ)
  | readSqrtMemory (readFrom : SqrtArea) (tag : ℕ)
  | writeSqrtMemory (pos : ℕ)
  | sqrtPermute (perms : List ℕ)
  deriving DecidableEq, Repr

/-- Its kind. -/
def SqrtEvent.call : SqrtEvent → SqrtCall
  | loadSqrtOram _ => .loadSqrtOram
  | readSqrtMemory readFrom _ => .readSqrtMemory readFrom
  | writeSqrtMemory _ => .writeSqrtMemory
  | sqrtPermute _ => .sqrtPermute

/-- A stub that writes down what it sends. -/
def watchedSqrtStub (S : SqrtStub C σ) : SqrtStub C (σ × List SqrtEvent) where
  loadSqrtOram := fun data => Prog.logged (.loadSqrtOram data.length) (S.loadSqrtOram data)
  readSqrtMemory := fun area tag =>
    Prog.logged (.readSqrtMemory area tag) (S.readSqrtMemory area tag)
  writeSqrtMemory := fun pos content =>
    Prog.logged (.writeSqrtMemory pos) (S.writeSqrtMemory pos content)
  sqrtPermute := fun perms => Prog.logged (.sqrtPermute perms) (S.sqrtPermute perms)

/-- The log of the kinds, and the log of the requests. -/
def SameKinds (s : σ × List SqrtCall) (t : σ × List SqrtEvent) : Prop :=
  s.1 = t.1 ∧ s.2 = t.2.map SqrtEvent.call

/-- The kinds of the requests can be read off the requests. -/
theorem relates_logged_call {α : Type} (event : SqrtEvent) (m : Prog String σ α) :
    Prog.Relates SameKinds Eq (Prog.logged event.call m) (Prog.logged event m) := by
  rintro ⟨s, log⟩ ⟨t, log'⟩ ⟨hserver, hlog⟩
  obtain rfl : s = t := hserver
  refine ⟨Prog.agree_eq.mpr rfl, rfl, ?_⟩
  rw [Prog.logged, Prog.logged, List.map_append, ← hlog]
  rfl

theorem simulates_watchedSqrtStub (S : SqrtStub C σ) :
    (loggedSqrtStub S).Simulates SameKinds (watchedSqrtStub S) where
  load := fun _ => relates_logged_call _ _
  read := fun _ _ => relates_logged_call _ _
  write := fun _ _ => relates_logged_call _ _
  permute := fun _ => relates_logged_call _ _

/-! ## What one access shows

The scan is the same for every access. Then come the tag of the word that is read, or
the number of a dummy, the tag of the word that is written, and in the last access of an
epoch the permutation. -/

/-- What an access shows: `hit` if it finds the block in the shelter, `full` if
it ends an epoch. -/
def accessEvents (K : SquareRootOramConfig) (hit full : Bool) (tag dummy : ℕ) (perm : List ℕ) :
    List SqrtEvent :=
  (List.range K.sqrtM).map (.readSqrtMemory .kShelter) ++
    (if hit then .readSqrtMemory .kDummy dummy else .readSqrtMemory .kMainMemory tag) ::
      .writeSqrtMemory tag :: if full then [.sqrtPermute perm] else []

/-- The log of `SqrtPattern` can be read off this one. -/
theorem map_call_accessEvents (hit full : Bool) (tag dummy : ℕ) (perm : List ℕ) :
    (accessEvents K hit full tag dummy perm).map SqrtEvent.call = accessCalls K hit full := by
  have hscan : ((List.range K.sqrtM).map (SqrtEvent.readSqrtMemory .kShelter)).map SqrtEvent.call =
      List.replicate K.sqrtM (.readSqrtMemory .kShelter) := by
    rw [List.map_map]
    exact (List.map_const' ..).trans (by rw [List.length_range])
  rw [accessEvents, List.map_append, hscan, accessCalls]
  cases hit <;> cases full <;> rfl

namespace SquareRootOramController

/-- What an access makes of the client. -/
def afterAccess (K : SquareRootOramConfig) (hit : Bool) (perm : List ℕ)
    (c : SquareRootOramController) : SquareRootOramController :=
  if c.counter + 1 = K.sqrtM then
    { c with
      counter := 0
      nextDummy := 0
      positionMap := (List.range perm.length).foldl (updateOne perm) c.positionMap }
  else { c with counter := c.counter + 1, nextDummy := c.nextDummy + hit.toNat }

/-- A hit moves the next dummy before the end of the access. -/
theorem afterAccess_hit (hit : Bool) (perm : List ℕ) (c : SquareRootOramController) :
    afterAccess K false perm { c with nextDummy := c.nextDummy + hit.toNat } =
      c.afterAccess K hit perm := rfl

/-- The client and the log so far. -/
def At (c : SquareRootOramController) (log : List SqrtEvent)
    (w : SqrtSystem (σ × List SqrtEvent)) : Prop :=
  w.client = c ∧ w.server.2 = log

variable {S : SqrtStub C σ} {c : SquareRootOramController} {log : List SqrtEvent}

/-- A call is written down, whatever comes of it; it does not fail with `kObjectNotFound`. -/
theorem leads_remote {α : Type} (location : String) (event : SqrtEvent) (m : Prog String σ α) :
    Prog.Leads (At c log) (remote location (Prog.logged event m)) (fun _ => At c (log ++ [event]))
      fun e w => At c (log ++ [event]) w ∧ ∃ st : OramStatus, e = .status st ∧
        st.errorCode = .kServerError := by
  refine .of_outcome ?_
  rintro ⟨c, s, log⟩ ⟨rfl, rfl⟩
  simp only [remote, Prog.logged]
  rcases m s with ⟨message | a, s'⟩
  · exact .inr ⟨_, _, rfl, ⟨rfl, rfl⟩, _, rfl, rfl⟩
  · exact .inl ⟨a, _, rfl, rfl, rfl⟩

theorem leads_update {E : Exit → SqrtSystem (σ × List SqrtEvent) → Prop}
    (f : SquareRootOramController → SquareRootOramController) :
    Prog.Leads (At c log) (update f) (fun _ => At (f c) log) E :=
  .modify fun _ hw => ⟨congrArg f hw.1, hw.2⟩

/-- The scan reads every slot, in order. -/
theorem leads_scanShelter (a : ℕ) (is : List ℕ) (found : Option (OramBlock D)) :
    Prog.Leads (At c log) (scanShelter (watchedSqrtStub S) a is found)
      (fun _ => At c (log ++ is.map (.readSqrtMemory .kShelter)))
      fun e _ => ∃ st : OramStatus, e = .status st ∧ st.errorCode = .kServerError := by
  induction is generalizing log found with
  | nil =>
    refine .pure fun w hw => ?_
    rwa [List.map_nil, List.append_nil]
  | cons i is ih =>
    rw [List.map_cons, List.append_cons]
    refine .bind ((leads_remote _ _ _).mono (fun _ h => h) (fun _ _ h => h) fun _ _ h => h.2)
      fun content => ?_
    cases content with
    | none => exact ih found
    | some sealedBlock => exact ih _

/-- The scan is over if it returns, and if it finds nothing. -/
theorem leads_readShelter (a : ℕ) :
    Prog.Leads (At c log) (readShelter (watchedSqrtStub S) K a)
      (fun _ => At c (log ++ (List.range K.sqrtM).map (.readSqrtMemory .kShelter)))
      fun e w => (∃ st : OramStatus, e = .status st ∧ st.errorCode = .kServerError) ∨
        At c (log ++ (List.range K.sqrtM).map (.readSqrtMemory .kShelter)) w := by
  refine .bind ((leads_scanShelter a _ _).mono (fun _ h => h) (fun _ _ h => h) fun _ _ => .inl)
    fun found => ?_
  cases found with
  | some block => exact .pure fun _ hw => hw
  | none => exact .throw fun _ hw => .inr hw

/-- The reads are logged with their tags. -/
theorem leads_readMain (pos : ℕ) :
    Prog.Leads (At c log) (readMain (watchedSqrtStub S) pos)
      (fun _ => At c (log ++ [.readSqrtMemory .kMainMemory pos])) fun _ _ => True := by
  refine .bind ((leads_remote _ _ _).mono (fun _ h => h) (fun _ _ h => h) fun _ _ _ => trivial)
    fun content => ?_
  cases content with
  | some sealedBlock => exact .pure fun _ hw => hw
  | none => exact .throw fun _ _ => trivial

theorem leads_readDummy (pos : ℕ) :
    Prog.Leads (At c log) (readDummy (watchedSqrtStub S) pos)
      (fun _ => At c (log ++ [.readSqrtMemory .kDummy pos])) fun _ _ => True :=
  .bind ((leads_remote _ _ _).mono (fun _ h => h) (fun _ _ h => h) fun _ _ _ => trivial)
    fun _ => .pure fun _ hw => hw

/-- The scan, and then one word. -/
theorem leads_fetch (a t : ℕ) :
    Prog.Leads (At c log) (fetch (watchedSqrtStub S) K a t)
      (fun _ w => ∃ hit : Bool, At { c with nextDummy := c.nextDummy + hit.toNat }
        (log ++ (List.range K.sqrtM).map (.readSqrtMemory .kShelter) ++
          [if hit then .readSqrtMemory .kDummy c.nextDummy else .readSqrtMemory .kMainMemory t]) w)
      fun _ _ => True := by
  refine .bind (leads_readShelter a).attempt fun r => ?_
  cases r with
  | ok block =>
    -- the next dummy is the one of the client as it was
    refine .get_bind fun w hw => ?_
    have hdummy : w.client.nextDummy = c.nextDummy := congrArg nextDummy hw.1
    rw [hdummy]
    refine .mono (.bind (leads_update _) fun _ => .bind (.mapError (leads_readDummy _)) fun _ =>
      .pure fun w' hw' => ⟨true, hw'⟩) ?_ (fun _ _ h => h) fun _ _ h => h
    rintro _ rfl
    exact hw
  | error e =>
    cases e with
    | status st =>
      refine .ite (fun _ => .throw fun _ _ => trivial) fun hcode => ?_
      refine .mono (.mapError (leads_readMain t)) ?_ (fun _ w' hw' => ⟨false, hw'⟩)
        fun _ _ h => h
      rintro w (⟨st', he, hserver⟩ | hw)
      · cases he
        rw [hserver] at hcode
        exact absurd (by decide) hcode
      · exact hw
    | abort why => exact .throw fun _ _ => trivial
    | undefined why => exact .throw fun _ _ => trivial

theorem leads_permuteOnFull (perm : List ℕ) :
    Prog.Leads (At c log) (permuteOnFull (watchedSqrtStub S) K perm)
      (fun _ => At (c.afterAccess K false perm)
        (log ++ if c.counter + 1 = K.sqrtM then [.sqrtPermute perm] else [])) fun _ _ => True := by
  refine .bind (leads_update _) fun _ => .get_bind fun w hw => ?_
  have hcounter : w.client.counter = c.counter + 1 := congrArg counter hw.1
  rw [hcounter, afterAccess]
  refine .mono (I := At { c with counter := c.counter + 1 } log) ?_ (by rintro _ rfl; exact hw)
    (fun _ _ h => h) fun _ _ h => h
  by_cases hfull : c.counter + 1 = K.sqrtM
  · rw [if_pos hfull, if_pos hfull, if_pos hfull]
    refine .bind (leads_update _) fun _ => ?_
    cases hdraw : randomPermutation K.words perm with
    | error st => exact .throw fun _ _ => trivial
    | ok perm' =>
      have he : perm' = perm := by
        rw [randomPermutation] at hdraw
        split at hdraw
        · cases hdraw
        · exact (Except.ok.inj hdraw).symm
      subst he
      exact .bind ((leads_remote _ _ _).mono (fun _ h => h) (fun _ _ h => h)
        fun _ _ _ => trivial) fun _ => leads_update _
  · rw [if_neg hfull, if_neg hfull, if_neg hfull]
    refine .pure fun w hw => ?_
    rw [List.append_nil]
    exact hw

/-- After the fetch, the word is written under its tag. -/
theorem leads_finish (op : Operation) (a t : ℕ) (buffer block : OramBlock D)
    (draws : SqrtDraws C) :
    Prog.Leads (At c log) (finish (watchedSqrtStub S) K op a t buffer draws block)
      (fun _ => At (c.afterAccess K false draws.perm) (log ++ .writeSqrtMemory t ::
        if c.counter + 1 = K.sqrtM then [.sqrtPermute draws.perm] else [])) fun _ _ => True := by
  have hpermute : ∀ {out : C.Sealed}, Prog.Leads (At c (log ++ [.writeSqrtMemory t]))
      (Prog.mapError (Exit.append (.make .kUnknownError
        "Permutation failed or internal logic error!" "InternalAccess"))
        (permuteOnFull (watchedSqrtStub S) K draws.perm) >>= fun _ => pure out)
      (fun _ => At (c.afterAccess K false draws.perm) (log ++ .writeSqrtMemory t ::
        if c.counter + 1 = K.sqrtM then [.sqrtPermute draws.perm] else [])) fun _ _ => True := by
    intro out
    refine .bind (.mapError (leads_permuteOnFull draws.perm)) fun _ => .pure fun _ hw => ?_
    rw [List.append_cons]
    exact hw
  refine .ite (fun _ => .throw fun _ _ => trivial) fun _ => ?_
  -- a read does not look at the outcome of the write
  refine .ite (fun _ => ?_) fun _ => ?_
  · refine .bind (leads_remote _ _ _).attempt fun r => ?_
    cases r with
    | ok _ => exact hpermute
    | error e => exact hpermute.mono (fun _ hw => hw.1) (fun _ _ h => h) fun _ _ h => h
  · exact .bind (.mapError ((leads_remote _ _ _).mono (fun _ h => h) (fun _ _ h => h)
      fun _ _ _ => trivial)) fun _ => hpermute

/-- **What an access shows**, if it returns. -/
theorem leads_access {a t : ℕ} (ht : c.positionMap a = some t) (op : Operation)
    (buffer : OramBlock D) (draws : SqrtDraws C) :
    Prog.Leads (At c log) (access (watchedSqrtStub S) K op a buffer draws)
      (fun _ w => ∃ hit : Bool, At (c.afterAccess K hit draws.perm) (log ++
        accessEvents K hit (c.counter + 1 = K.sqrtM) t c.nextDummy draws.perm) w)
      fun _ _ => True := by
  have hsteps : Prog.Leads (At c log)
      (fetch (watchedSqrtStub S) K a t >>= finish (watchedSqrtStub S) K op a t buffer draws)
      (fun _ w => ∃ hit : Bool, At (c.afterAccess K hit draws.perm) (log ++
        accessEvents K hit (c.counter + 1 = K.sqrtM) t c.nextDummy draws.perm) w)
      fun _ _ => True := by
    refine .bind (leads_fetch a t) fun block => .of_exists fun hit =>
      .mono (leads_finish op a t buffer block draws) (fun _ h => h) (fun _ w hw => ⟨hit, ?_⟩)
        fun _ _ h => h
    rw [accessEvents, ← afterAccess_hit]
    simp only [decide_eq_true_eq]
    simpa only [List.append_assoc, List.singleton_append] using hw
  constructor
  · intro w out w' hw hrun
    have hclient : w.client = c := hw.1
    have hrun' := hrun
    rw [access, Prog.get_bind] at hrun
    split at hrun
    · cases hrun
    next hinit =>
      rw [Bool.not_eq_false] at hinit
      have hop : op ≠ .kInvalid := by
        intro hop
        obtain ⟨e, he⟩ := access_refused (S := watchedSqrtStub S) (K := K) (w := w) (.inl hop)
          buffer draws
        cases he.symm.trans hrun'
      rw [access_eq hinit hop (hclient ▸ ht)] at hrun'
      exact hsteps.ok hw hrun'
  · exact fun _ _ => trivial

/-- The load shows how many words there are. -/
theorem fillWithData_observed (garbage : ℕ → OramBlock D) {data : List (OramBlock D)}
    (hlen : data.length ≤ K.words) {draws : SqrtFillDraws C}
    (hperm : draws.perm.Perm (List.range K.words)) :
    ∃ w, fillWithData (OramService.sqrtStub C) K garbage data draws (SqrtSystem.init C K) =
        (.ok (), w) ∧
      fillWithData (watchedSqrtStub (OramService.sqrtStub C)) K garbage data draws
        ⟨.new, .new C K.blockNum, []⟩ = (.ok (), ⟨w.client, w.server, [.loadSqrtOram K.words]⟩) ∧
      w.client.positionMap = loadedPositions K draws.perm ∧ w.client.nextDummy = 0 := by
  rw [SqrtSystem.init, fillWithData_eq _ _ garbage hlen hperm,
    fillWithData_eq _ _ garbage hlen hperm, ← length_loadedContents garbage hlen draws]
  exact ⟨_, rfl, rfl, rfl, rfl⟩

end SquareRootOramController

/-! ## Permutations as vectors

The first permutation is drawn and not sent. Renaming it changes the tags of all
accesses together, which is the symmetry that the count below rests on. -/

section

variable {n : ℕ}

/-- The vector of a permutation. -/
def permVector (π : Equiv.Perm (Fin n)) : List ℕ := List.ofFn fun i => (π i : ℕ)

/-- A permutation, as the vector that is sent. -/
theorem permVector_perm (π : Equiv.Perm (Fin n)) : (permVector π).Perm (List.range n) := by
  have hrange : List.ofFn (fun i : Fin n => (i : ℕ)) = List.range n := by
    rw [← List.map_coe_finRange_eq_range, ← List.ofFn_id, List.map_ofFn]
    rfl
  rw [← hrange]
  exact Equiv.Perm.ofFn_comp_perm π fun i => (i : ℕ)

theorem getD_permVector (π : Equiv.Perm (Fin n)) (i : Fin n) : (permVector π).getD i 0 = π i := by
  rw [permVector, List.getD_eq_getElem?_getD, List.getElem?_ofFn, dif_pos i.2, Option.getD_some]

/-- No two permutations are sent as the same vector. -/
theorem permVector_inj {π π' : Equiv.Perm (Fin n)} (h : permVector π = permVector π') : π = π' := by
  refine Equiv.ext fun i => Fin.ext ?_
  rw [← getD_permVector, h, getD_permVector]

/-- Two sequences that repeat themselves at the same places are renamings of each other. -/
theorem exists_renaming {ι α : Type} [Finite ι] {f g : ι → α} (h : ∀ i j, f i = f j ↔ g i = g j) :
    ∃ τ : Equiv.Perm α, ∀ i, τ (f i) = g i := by
  obtain ⟨τ, hτ⟩ := Equiv.Perm.exists_extending_pair (Setoid.kerLift f)
    (Quotient.lift g fun i j hij => (h i j).mp hij) (Setoid.kerLift_injective f) (by
      rintro ⟨i⟩ ⟨j⟩ hij
      exact Quotient.sound (s := Setoid.ker f) ((h i j).mpr hij))
  exact ⟨τ, fun i => hτ (Quotient.mk _ i)⟩

end

/-! ## A load and accesses -/

/-- What a client does: a load, and `n` accesses. -/
structure SqrtUse (C : Codec D) (n : ℕ) where
  data : List (OramBlock D)
  garbage : ℕ → OramBlock D
  iv : ℕ → C.Iv
  requests : Fin n → SqrtRequest C

/-- The permutations that are drawn: at the load, and at the accesses, where they
are used at the end of an epoch. -/
abbrev SqrtPerms (K : SquareRootOramConfig) (n : ℕ) : Type :=
  Equiv.Perm (Fin K.words) × (Fin n → Equiv.Perm (Fin K.words))

namespace SqrtRequest

/-- The request, with the permutation that is drawn. -/
def draw (r : SqrtRequest C) (perm : List ℕ) : SqrtRequest C :=
  { r with draws := { r.draws with perm := perm } }

/-- `Access`, with a server that watches. -/
def runObserved (K : SquareRootOramConfig) (r : SqrtRequest C) :
    Prog Exit (SqrtSystem (SqrtOramServerStorage C × List SqrtEvent)) C.Sealed :=
  access (watchedSqrtStub (OramService.sqrtStub C)) K r.op r.address r.buffer r.draws

/-- Looking closer does not change a run. -/
theorem runObserved_of_runLogged {r : SqrtRequest C}
    {v : SqrtSystem (SqrtOramServerStorage C × List SqrtEvent)} {out : C.Sealed}
    {w : SqrtSystem (SqrtOramServerStorage C)} {kinds : List SqrtCall}
    (hrun : r.runLogged K (SqrtSystem.withLog ⟨v.client, v.server.1⟩
      (v.server.2.map SqrtEvent.call)) = (.ok out, w.withLog kinds)) :
    ∃ v', r.runObserved K v = (.ok out, v') ∧ ⟨v'.client, v'.server.1⟩ = w ∧
      v'.server.2.map SqrtEvent.call = kinds := by
  have hsame : Prog.Relates (Lift SameKinds) Eq (r.runLogged K) (r.runObserved K) :=
    relates_access (simulates_watchedSqrtStub _) r.op r.address r.buffer r.draws
  obtain ⟨hagree, hclient, hserver, hkinds⟩ :=
    hsame (SqrtSystem.withLog ⟨v.client, v.server.1⟩ (v.server.2.map SqrtEvent.call)) v
      ⟨rfl, rfl, rfl⟩
  rw [Prog.agree_eq, hrun] at hagree
  rw [hrun] at hclient hserver hkinds
  obtain ⟨client, server⟩ := w
  refine ⟨_, Prod.ext hagree.symm rfl, ?_, hkinds.symm⟩
  rw [← hclient, ← hserver]
  rfl

end SqrtRequest

namespace SqrtUse

variable {n : ℕ}

/-- The data has the ids `0`, `1`, … in any order, and the accesses are reads and
writes of its blocks. -/
structure Proper (K : SquareRootOramConfig) (use : SqrtUse C n) : Prop where
  fits : use.data.length ≤ K.words
  ids : (use.data.map OramBlock.id).Perm (List.range use.data.length)
  valid : ∀ i, (use.requests i).op ≠ .kInvalid
  buffer_named : ∀ i, (use.requests i).op = .kWrite →
    (use.requests i).buffer.id = (use.requests i).address ∧
      (use.requests i).buffer.isNormal = true
  loaded : ∀ i, ∃ b ∈ use.data, b.isNormal = true ∧ b.id = (use.requests i).address

/-- The accesses, with the permutations that are drawn. -/
def drawn (use : SqrtUse C n) (perms : Fin n → Equiv.Perm (Fin K.words)) : List (SqrtRequest C) :=
  List.ofFn fun i => (use.requests i).draw (permVector (perms i))

/-- What the server sees. -/
def view (K : SquareRootOramConfig) (use : SqrtUse C n) (d : SqrtPerms K n) :
    Option (List SqrtEvent) :=
  match fillWithData (watchedSqrtStub (OramService.sqrtStub C)) K use.garbage use.data
      ⟨permVector d.1, use.iv⟩ ⟨.new, .new C K.blockNum, []⟩ with
  | (.ok (), w) =>
    (Prog.trace Exit.fatal (SqrtRequest.runObserved K) (use.drawn d.2) w).map
      fun run => run.2.server.2
  | (.error _, _) => none

theorem Proper.address_lt {use : SqrtUse C n} (h : use.Proper K) (i : Fin n) :
    (use.requests i).address < K.words := by
  obtain ⟨b, hb, -, hid⟩ := h.loaded i
  have hmem := h.ids.mem_iff.mp (List.mem_map_of_mem hb)
  rw [← hid]
  exact (List.mem_range.mp hmem).trans_le h.fits

/-- The address of an access, as one of the words. -/
def Proper.word {use : SqrtUse C n} (h : use.Proper K) (i : Fin n) : Fin K.words :=
  ⟨(use.requests i).address, h.address_lt i⟩

theorem Proper.sqrtM_pos {use : SqrtUse C n} (h : use.Proper K)
    (hsqrt : K.blockNum ≠ 0 → K.sqrtM ≠ 0) (i : Fin n) : 0 < K.sqrtM := by
  have hwords := h.address_lt i
  rw [SquareRootOramConfig.words] at hwords
  by_contra hzero
  have hblocks : K.blockNum ≠ 0 := by omega
  exact hsqrt hblocks (by omega)

/-- The access is in the epoch of the one before it, and to the same address. -/
def hit (K : SquareRootOramConfig) (use : SqrtUse C n) (i : Fin n) : Bool :=
  i % K.sqrtM ≠ 0 ∧ ∃ j : Fin n, (j : ℕ) + 1 = i ∧
    (use.requests j).address = (use.requests i).address

end SqrtUse

/-! ## What a run shows

The events of a run tell the tag of every access, and whether it was a hit. The tags are
those of the first permutation, moved along by the others, which are sent. -/

section

variable {n : ℕ}

/-- How the permutations of the epochs that are over have moved the tags. -/
def moved (K : SquareRootOramConfig) (perms : Fin n → Equiv.Perm (Fin K.words)) :
    ℕ → Equiv.Perm (Fin K.words)
  | 0 => 1
  | i + 1 =>
    if h : i < n then
      if (i + 1) % K.sqrtM = 0 then perms ⟨i, h⟩ * moved K perms i else moved K perms i
    else 1

/-- The next dummy: how many hits there were in the epoch. -/
def dummiesBefore (K : SquareRootOramConfig) (hits : Fin n → Bool) : ℕ → ℕ
  | 0 => 0
  | i + 1 =>
    if (i + 1) % K.sqrtM = 0 then 0
    else dummiesBefore K hits i + if h : i < n then (hits ⟨i, h⟩).toNat else 0

/-- What a run shows whose accesses are to the words with these first tags. -/
def shownBy (K : SquareRootOramConfig) (hits : Fin n → Bool) (tags : Fin n → Fin K.words)
    (perms : Fin n → Equiv.Perm (Fin K.words)) (i : Fin n) : List SqrtEvent :=
  accessEvents K (hits i) ((i + 1) % K.sqrtM = 0) (moved K perms i (tags i))
    (dummiesBefore K hits i) (permVector (perms i))

/-- An access shows its tag, and the permutation that it makes. -/
theorem accessEvents_inj {hit hit' full : Bool} {tag tag' dummy dummy' : ℕ} {perm perm' : List ℕ}
    (h : accessEvents K hit full tag dummy perm = accessEvents K hit' full tag' dummy' perm') :
    tag = tag' ∧ (full = true → perm = perm') := by
  have hrest := (List.cons_eq_cons.mp (List.append_cancel_left h)).2
  obtain ⟨hwrite, hpermute⟩ := List.cons_eq_cons.mp hrest
  refine ⟨SqrtEvent.writeSqrtMemory.inj hwrite, ?_⟩
  rintro rfl
  exact SqrtEvent.sqrtPermute.inj (List.cons_eq_cons.mp hpermute).1

/-- **A run shows the first tags**, in the clear but for the first permutation. -/
theorem shownBy_inj {hits hits' : Fin n → Bool} {tags tags' : Fin n → Fin K.words}
    {perms perms' : Fin n → Equiv.Perm (Fin K.words)}
    (h : ∀ i, shownBy K hits tags perms i = shownBy K hits' tags' perms' i) : tags = tags' := by
  have hmoved : ∀ i, moved K perms i = moved K perms' i := by
    intro i
    induction i with
    | zero => rfl
    | succ i ih =>
      rw [moved, moved]
      split
      next hi =>
        split
        next hfull =>
          have hperm := (accessEvents_inj (h ⟨i, hi⟩)).2 (decide_eq_true hfull)
          rw [permVector_inj hperm, ih]
        next => exact ih
      next => rfl
  funext i
  have htag := Fin.ext (accessEvents_inj (h i)).1
  rw [hmoved] at htag
  exact (moved K perms' i).injective htag

end

/-! ## Whole runs -/

namespace SqrtUse

variable {n : ℕ} {use : SqrtUse C n} {d : SqrtPerms K n}

/-- The `i`-th access, with the `i`-th permutation. -/
theorem getElem?_drawn (use : SqrtUse C n) (perms : Fin n → Equiv.Perm (Fin K.words)) (i : Fin n) :
    (use.drawn perms)[(i : ℕ)]? = some ((use.requests i).draw (permVector (perms i))) := by
  rw [drawn, List.getElem?_ofFn, dif_pos i.2]

/-- A hit is an access that repeats the one before it. -/
theorem repeats_drawn (use : SqrtUse C n) (perms : Fin n → Equiv.Perm (Fin K.words)) (i : Fin n) :
    SqrtRequest.Repeats K (use.drawn perms) i ↔ use.hit K i = true := by
  rw [SqrtRequest.Repeats, hit, decide_eq_true_eq, getElem?_drawn]
  refine and_congr_right fun hi => ?_
  have hpos : (i : ℕ) ≠ 0 := fun h => hi (by rw [h, Nat.zero_mod])
  have hlt : (i : ℕ) - 1 < n := by omega
  rw [show (i : ℕ) - 1 = (⟨i - 1, hlt⟩ : Fin n) from rfl, getElem?_drawn]
  constructor
  · intro h
    exact ⟨⟨i - 1, hlt⟩, Nat.sub_add_cancel (Nat.pos_of_ne_zero hpos), Option.some.inj h⟩
  · rintro ⟨j, hj, he⟩
    obtain rfl : j = ⟨i - 1, hlt⟩ := Fin.ext (show (j : ℕ) = i - 1 by omega)
    exact congrArg some he

/-- What holds after the accesses `past`. -/
structure Watched (h : use.Proper K) (d : SqrtPerms K n) (past : List (SqrtRequest C))
    (v : SqrtSystem (SqrtOramServerStorage C × List SqrtEvent)) : Prop where
  recent : SqrtSystem.Recent (C := C) K
    (fun a => ∃ b ∈ use.data, b.isNormal = true ∧ b.id = a) past ⟨v.client, v.server.1⟩
  next_dummy : v.client.nextDummy = dummiesBefore K (use.hit K) past.length
  position : ∀ a : Fin K.words,
    v.client.positionMap a = some (moved K d.2 past.length (d.1 a) : ℕ)
  log : v.server.2 = .loadSqrtOram K.words ::
    ((List.ofFn (shownBy K (use.hit K) (fun i => d.1 (h.word i)) d.2)).take past.length).flatten

/-- The tags move with the permutations of the client. -/
theorem position_afterAccess {c : SquareRootOramController} {i : Fin n}
    (hcounter : c.counter + 1 = K.sqrtM ↔ ((i : ℕ) + 1) % K.sqrtM = 0)
    (hposition : ∀ a : Fin K.words, c.positionMap a = some (moved K d.2 i (d.1 a) : ℕ)) (hit : Bool)
    (a : Fin K.words) :
    (c.afterAccess K hit (permVector (d.2 i))).positionMap a =
      some (moved K d.2 (i + 1) (d.1 a) : ℕ) := by
  rw [afterAccess, moved, dif_pos i.2]
  by_cases hfull : c.counter + 1 = K.sqrtM
  · rw [if_pos hfull, if_pos (hcounter.mp hfull)]
    simp only [foldl_updateOne, hposition]
    have hlen : (permVector (d.2 i)).length = K.words := List.length_ofFn
    rw [hlen, if_pos a.2, Option.getD_some, getD_permVector]
    rfl
  · rw [if_neg hfull, if_neg (mt hcounter.mpr hfull)]
    exact hposition a

/-- **One access of a run.** -/
theorem runObserved_spec (hsqrt : K.blockNum ≠ 0 → K.sqrtM ≠ 0) (hmask : K.words ≤ kInvalidMask)
    (h : use.Proper K) {past rest : List (SqrtRequest C)} {r : SqrtRequest C}
    (hsplit : use.drawn d.2 = past ++ r :: rest)
    {v : SqrtSystem (SqrtOramServerStorage C × List SqrtEvent)} (hv : Watched h d past v) :
    ∃ out v', r.runObserved K v = (.ok out, v') ∧ Watched h d (past ++ [r]) v' := by
  have hlt : past.length < n := by
    have hlen := congrArg List.length hsplit
    rw [drawn, List.length_ofFn, List.length_append, List.length_cons] at hlen
    omega
  obtain ⟨i, hi⟩ : ∃ i : Fin n, (i : ℕ) = past.length := ⟨⟨_, hlt⟩, rfl⟩
  obtain rfl : r = (use.requests i).draw (permVector (d.2 i)) := by
    have hget := getElem?_drawn use d.2 i
    rw [hsplit, hi, List.getElem?_append_right (Nat.le_refl _), Nat.sub_self] at hget
    exact Option.some.inj hget
  have hsize := h.sqrtM_pos hsqrt i
  have hnext : v.client.nextDummy = dummiesBefore K (use.hit K) i := hi ▸ hv.next_dummy
  have hposition : ∀ a : Fin K.words, v.client.positionMap a = some (moved K d.2 i (d.1 a) : ℕ) :=
    hi ▸ hv.position
  -- the access returns, and shows the kinds of its requests
  obtain ⟨out, w', hrun, hrecent⟩ := SqrtRequest.runLogged_spec hsize hmask
    (fun a ⟨b, hb, _, hid⟩ => hid ▸ (List.mem_range.mp
      (h.ids.mem_iff.mp (List.mem_map_of_mem hb))).trans_le h.fits) hsplit
    ⟨h.buffer_named i, permVector_perm _⟩ (h.valid i) (h.loaded i) hv.recent
    (v.server.2.map SqrtEvent.call)
  obtain ⟨v', hwatched, rfl, hkinds⟩ := SqrtRequest.runObserved_of_runLogged hrun
  -- what it shows, but for the hit
  obtain ⟨hit, hclient, hlog⟩ :=
    (leads_access (hposition (h.word i)) _ _ _).ok ⟨rfl, rfl⟩ hwatched
  have hfull : v.client.counter + 1 = K.sqrtM ↔ ((i : ℕ) + 1) % K.sqrtM = 0 := by
    rw [show v.client.counter = i % K.sqrtM from hi ▸ hv.recent.counter, SqrtRequest.succ_mod hsize]
    split
    next hend => exact iff_of_true hend rfl
    next hend => exact iff_of_false hend (Nat.succ_ne_zero _)
  have hhit : hit = use.hit K i := by
    have hcalls := hkinds
    rw [hlog, List.map_append, map_call_accessEvents, List.append_cancel_left_eq,
      SqrtRequest.calls, ← hi, decide_eq_decide.mpr hfull, accessCalls_inj] at hcalls
    rw [hcalls, Bool.eq_iff_iff, decide_eq_true_eq]
    exact repeats_drawn use d.2 i
  subst hhit
  have hevents : accessEvents K (use.hit K i) (v.client.counter + 1 = K.sqrtM)
      (moved K d.2 i (d.1 (h.word i))) v.client.nextDummy (permVector (d.2 i)) =
      shownBy K (use.hit K) (fun i => d.1 (h.word i)) d.2 i := by
    rw [shownBy, hnext, decide_eq_decide.mpr hfull]
  have hlen : (past ++ [(use.requests i).draw (permVector (d.2 i))]).length = i + 1 := by
    rw [List.length_append, List.length_singleton, hi]
  refine ⟨out, v', hwatched, hrecent, ?_, fun a => ?_, ?_⟩
  · rw [hlen, hclient, afterAccess, dummiesBefore, dif_pos i.2]
    by_cases hend : v.client.counter + 1 = K.sqrtM
    · rw [if_pos hend, if_pos (hfull.mp hend)]
    · rw [if_neg hend, if_neg (mt hfull.mpr hend), ← hnext]
  · rw [hlen, hclient]
    exact position_afterAccess hfull hposition _ a
  · have hget : (List.ofFn (shownBy K (use.hit K) (fun i => d.1 (h.word i)) d.2))[(i : ℕ)]? =
        some (shownBy K (use.hit K) (fun i => d.1 (h.word i)) d.2 i) := by
      rw [List.getElem?_ofFn, dif_pos i.2]
    have hpast := hv.log
    rw [← hi] at hpast
    rw [hlen, hlog, List.take_add_one, hget, Option.toList_some, List.flatten_concat, hpast,
      ← hevents]
    rfl

/-- **What the server sees** is what the accesses show, one after the other. -/
theorem view_eq {m : ℕ} (hK : SquareRootOramConfig.new m = .ok K) (hmask : K.words ≤ kInvalidMask)
    (h : use.Proper K) (d : SqrtPerms K n) :
    use.view K d = some (.loadSqrtOram K.words ::
      (List.ofFn (shownBy K (use.hit K) (fun i => d.1 (h.word i)) d.2)).flatten) := by
  have hperm : (⟨permVector d.1, use.iv⟩ : SqrtFillDraws C).perm.Perm (List.range K.words) :=
    permVector_perm d.1
  obtain ⟨w, hfill, hwatched, hpositions, hnext⟩ :=
    fillWithData_observed use.garbage h.fits hperm
  obtain ⟨-, hrecent⟩ := recent_of_fillWithData hfill h.ids hperm
  have hstart : Watched h d [] ⟨w.client, w.server, [.loadSqrtOram K.words]⟩ := by
    refine ⟨hrecent, hnext, fun a => ?_, rfl⟩
    rw [hpositions, loadedPositions, if_pos a.2]
    exact congrArg some (getD_permVector d.1 a)
  have hstep : ∀ past r rest v, use.drawn d.2 = past ++ r :: rest → True → Watched h d past v →
      ∃ out v', r.runObserved K v = (.ok out, v') ∧ Watched h d (past ++ [r]) v' :=
    fun past r rest v hsplit _ hv =>
      runObserved_spec (SquareRootOramConfig.sqrtM_ne_zero hK) hmask h hsplit hv
  obtain ⟨outs, v, hrun, hv⟩ := Prog.trace_total Exit.fatal (fun _ _ => True) (Watched h d) hstep
    hstart (Prog.Along.of_forall (fun _ _ _ => trivial) _)
  have hlen : (use.drawn d.2).length = n := List.length_ofFn
  have hlog := hv.log
  rw [List.take_of_length_le (by rw [List.length_ofFn, hlen])] at hlog
  rw [view, hwatched]
  simp only [hrun, Option.map_some, hlog]

/-- Two uses that access the same addresses at the same places. -/
def Alike (use use' : SqrtUse C n) : Prop :=
  ∀ i j, (use.requests i).address = (use.requests j).address ↔
    (use'.requests i).address = (use'.requests j).address

theorem Alike.hit_eq {use' : SqrtUse C n} (halike : use.Alike use') : use.hit K = use'.hit K := by
  funext i
  rw [hit, hit]
  exact decide_eq_decide.mpr (and_congr_right fun _ =>
    exists_congr fun j => and_congr_right fun _ => halike j i)

/-- Renaming the addresses is what the first permutation hides. -/
theorem card_view_eq {m : ℕ} (hK : SquareRootOramConfig.new m = .ok K)
    (hmask : K.words ≤ kInvalidMask) {use' : SqrtUse C n} (h : use.Proper K) (h' : use'.Proper K)
    (halike : use.Alike use') (view : List SqrtEvent) :
    (Finset.univ.filter fun d => use.view K d = some view).card =
      (Finset.univ.filter fun d => use'.view K d = some view).card := by
  obtain ⟨τ, hτ⟩ := exists_renaming (f := h.word) (g := h'.word) fun i j => by
    rw [Fin.ext_iff, Fin.ext_iff]
    exact halike i j
  refine Finset.card_equiv (Equiv.prodCongr (Equiv.mulRight τ⁻¹) (Equiv.refl _)) fun d => ?_
  have hsame : use'.view K (d.1 * τ⁻¹, d.2) = use.view K d := by
    rw [view_eq hK hmask h', view_eq hK hmask h, halike.hit_eq]
    have htags : (fun i => (d.1 * τ⁻¹) (h'.word i)) = fun i => d.1 (h.word i) := by
      funext i
      rw [← hτ, Equiv.Perm.mul_apply, Equiv.Perm.inv_def, Equiv.symm_apply_apply]
    simp only [htags]
  rw [Finset.mem_filter_univ, Finset.mem_filter_univ, ← hsame]
  rfl

theorem length_accessEvents (hit full : Bool) (tag dummy : ℕ) (perm : List ℕ) :
    (accessEvents K hit full tag dummy perm).length = K.sqrtM + 2 + if full then 1 else 0 := by
  rw [← length_accessCalls K hit full, ← map_call_accessEvents hit full tag dummy perm,
    List.length_map]

/-- Whoever sees the same, sees accesses to the same addresses at the same places. -/
theorem alike_of_view_eq {m : ℕ} (hK : SquareRootOramConfig.new m = .ok K)
    (hmask : K.words ≤ kInvalidMask) {use' : SqrtUse C n} (h : use.Proper K) (h' : use'.Proper K)
    {d d' : SqrtPerms K n} (hview : use.view K d = use'.view K d') : use.Alike use' := by
  rw [view_eq hK hmask h, view_eq hK hmask h'] at hview
  have hflat := (List.cons_eq_cons.mp (Option.some.inj hview)).2
  have hlengths :
      (List.ofFn (shownBy K (use.hit K) (fun i => d.1 (h.word i)) d.2)).map List.length =
        (List.ofFn (shownBy K (use'.hit K) (fun i => d'.1 (h'.word i)) d'.2)).map List.length := by
    rw [List.map_ofFn, List.map_ofFn]
    refine congrArg List.ofFn (funext fun i => ?_)
    simp only [Function.comp_apply, shownBy, length_accessEvents]
  have htags := shownBy_inj fun i =>
    congrFun (List.ofFn_injective (List.eq_iff_flatten_eq.mpr ⟨hflat, hlengths⟩)) i
  have htag : ∀ i, d.1 (h.word i) = d'.1 (h'.word i) := congrFun htags
  intro i j
  calc (use.requests i).address = (use.requests j).address
      ↔ h.word i = h.word j := (Fin.ext_iff (a := h.word i) (b := h.word j)).symm
    _ ↔ d.1 (h.word i) = d.1 (h.word j) := d.1.injective.eq_iff.symm
    _ ↔ d'.1 (h'.word i) = d'.1 (h'.word j) := by rw [htag, htag]
    _ ↔ h'.word i = h'.word j := d'.1.injective.eq_iff
    _ ↔ (use'.requests i).address = (use'.requests j).address := Fin.ext_iff

end SqrtUse

/-- **The tags of a square-root ORAM show which accesses go to the same address**,
and no more. Two loads, each with `n` accesses to its blocks: if the accesses
repeat addresses at the same places, then whatever requests, tags and permutations
can be seen of the one, they are seen of the other for the same share of the
permutations drawn. If they do not, no view of the one is a view of the other. -/
theorem sqrtOram_shows_equal_addresses {n m : ℕ} (hK : SquareRootOramConfig.new m = .ok K)
    (hmask : K.words ≤ kInvalidMask) {use use' : SqrtUse C n} (h : use.Proper K)
    (h' : use'.Proper K) :
    (use.Alike use' → ∀ view, (Finset.univ.filter fun d => use.view K d = some view).card =
      (Finset.univ.filter fun d => use'.view K d = some view).card) ∧
    (¬use.Alike use' → ∀ d d', ∃ view view', use.view K d = some view ∧
      use'.view K d' = some view' ∧ view ≠ view') := by
  refine ⟨SqrtUse.card_view_eq hK hmask h h', fun hdiffer d d' => ?_⟩
  refine ⟨_, _, SqrtUse.view_eq hK hmask h d, SqrtUse.view_eq hK hmask h' d', fun he => hdiffer ?_⟩
  have hview : use.view K d = use'.view K d' := by
    rw [SqrtUse.view_eq hK hmask h d, SqrtUse.view_eq hK hmask h' d', he]
  exact SqrtUse.alike_of_view_eq hK hmask h h' hview

/-- Reads of the two words. -/
def wordsRead (as : Fin 3 → ℕ) : SqrtUse (Codec.plain ℕ) 3 :=
  ⟨smallSqrtData, fun _ => dummyWord, fun _ => (), fun i => readWord (as i)⟩

theorem wordsRead_proper {as : Fin 3 → ℕ} (has : ∀ i, as i = 0 ∨ as i = 1) :
    (wordsRead as).Proper smallSqrt where
  fits := show smallSqrtData.length ≤ smallSqrt.words by decide
  ids := show (smallSqrtData.map OramBlock.id).Perm (List.range smallSqrtData.length) by decide
  valid := by
    rintro i ⟨⟩
  buffer_named := by
    rintro i ⟨⟩
  loaded := by
    intro i
    rcases has i with h | h
    · exact ⟨_, List.mem_cons_self, rfl, h.symm⟩
    · exact ⟨_, List.mem_cons_of_mem _ List.mem_cons_self, rfl, h.symm⟩

theorem sqrtOram_shows_equal_addresses_small :
    (∀ view, (Finset.univ.filter fun d =>
        (wordsRead ![0, 1, 0]).view smallSqrt d = some view).card =
      (Finset.univ.filter fun d => (wordsRead ![1, 0, 1]).view smallSqrt d = some view).card) ∧
    ∀ d d', ∃ view view', (wordsRead ![0, 1, 0]).view smallSqrt d = some view ∧
      (wordsRead ![0, 1, 1]).view smallSqrt d' = some view' ∧ view ≠ view' := by
  have hsame : (wordsRead ![0, 1, 0]).Alike (wordsRead ![1, 0, 1]) :=
    show ∀ i j : Fin 3, ![0, 1, 0] i = ![0, 1, 0] j ↔ ![1, 0, 1] i = ![1, 0, 1] j by decide
  have hdiffer : ¬(wordsRead ![0, 1, 0]).Alike (wordsRead ![0, 1, 1]) :=
    show ¬∀ i j : Fin 3, ![0, 1, 0] i = ![0, 1, 0] j ↔ ![0, 1, 1] i = ![0, 1, 1] j by decide
  exact ⟨(sqrtOram_shows_equal_addresses smallSqrt_new (by decide) (wordsRead_proper (by decide))
    (wordsRead_proper (by decide))).1 hsame,
    (sqrtOram_shows_equal_addresses smallSqrt_new (by decide) (wordsRead_proper (by decide))
      (wordsRead_proper (by decide))).2 hdiffer⟩

end ObliviousRam
