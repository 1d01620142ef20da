import ObliviousRam.PathMemory
import ObliviousRam.Connection

set_option autoImplicit false

/-!
# What a tree server sees of the path controller

The controller reaches its server through the stub only
(`TreeStub.Simulates`), so it does not notice a log of its calls
(`loggedTreeStub`). The **pattern** of an access is what it adds to the log:

* `access_pattern` — an access that returns reads one path from the root to the
  leaf and writes it back from the leaf to the root, in full buckets. The path is
  the position of the address; nothing else about the access shows.
* `access_positions` — the position of the address is then the one that was
  drawn, and no other position has changed.

Both hold over any server.
-/

namespace ObliviousRam

open Prog (Relates)

variable {D σ τ : Type} {C : Codec D} {P : PathOramConfig}

/-! ## The same calls, the same outcomes

One rule for each procedure, under the name of the procedure: from related servers the
same client gets the same answers, goes the same way and ends with the same outcome. -/

/-- The calls of `S` and `T` agree from related servers. -/
structure TreeStub.Simulates (R : σ → τ → Prop) (S : TreeStub C σ) (T : TreeStub C τ) : Prop where
  read : ∀ path level, Relates R Eq (S.readPath path level) (T.readPath path level)
  write : ∀ request, Relates R Eq (S.writePath request) (T.writePath request)

/-- One client on two related servers. -/
def PathSystem.Lift (R : σ → τ → Prop) (w : PathSystem D σ) (v : PathSystem D τ) : Prop :=
  w.client = v.client ∧ R w.server v.server

open PathSystem PathOramController

namespace TreeStub.Simulates

variable {R : σ → τ → Prop} {S : TreeStub C σ} {T : TreeStub C τ}

theorem update (f : PathOramController D → PathOramController D) :
    Relates (Lift R) Eq (PathOramController.update (ε := Exit) f)
      (PathOramController.update f) := by
  rintro w v ⟨hclient, hserver⟩
  exact ⟨rfl, congrArg f hclient, hserver⟩

theorem findSubsetOf (x : ℕ) (random : ℕ → OramBlock D) :
    Relates (Lift R) Eq (PathOramController.findSubsetOf (ε := Exit) P x random)
      (PathOramController.findSubsetOf P x random) := by
  rintro ⟨c, s⟩ ⟨_, t⟩ ⟨rfl, hserver⟩
  exact ⟨rfl, rfl, hserver⟩

theorem updateBlock (op : Operation) (address : ℕ) (buffer block : OramBlock D) :
    Relates (Lift R) Eq (PathOramController.updateBlock P op address buffer block)
      (PathOramController.updateBlock P op address buffer block) := by
  refine .bind_eq (update _) fun _ => ?_
  split
  · exact .bind_eq (update _) fun _ => .pure rfl
  · split
    · exact .bind_eq (update _) fun _ => .pure rfl
    · exact .pure rfl

theorem randomPosition (value : ℕ) :
    Relates (Lift (D := D) R) Eq (PathOramController.randomPosition P value)
      (PathOramController.randomPosition P value) := by
  intro w v hwv
  rw [randomPosition_spec, randomPosition_spec]
  exact ⟨rfl, hwv⟩

theorem checkedRandom (reason : String) (value start stop : ℕ) :
    Relates (Lift (D := D) R) Eq (ObliviousRam.checkedRandom reason value start stop)
      (ObliviousRam.checkedRandom reason value start stop) := by
  intro w v hwv
  rw [ObliviousRam.checkedRandom, ObliviousRam.checkedRandom]
  cases uniformRandom value start stop with
  | error e => exact ⟨rfl, hwv⟩
  | ok x => exact ⟨rfl, hwv⟩

/-- The positions that are drawn for a bucket do not depend on the server. -/
theorem fillBucket (start stop : ℕ) (draw : ℕ → ℕ) (k : ℕ) (data : List (OramBlock D)) :
    Relates (Lift R) Eq (PathOramController.fillBucket start stop draw k data)
      (PathOramController.fillBucket start stop draw k data) := by
  induction k generalizing data with
  | zero => exact .pure rfl
  | succ k ih =>
    cases data with
    | nil => exact .pure rfl
    | cons b data =>
      rw [PathOramController.fillBucket, PathOramController.fillBucket]
      split
      · exact .bind_eq (checkedRandom _ _ _ _) fun _ => .bind_eq (update _) fun _ =>
          .bind_eq (ih _) fun _ => .pure rfl
      · exact ih _

variable (h : S.Simulates R T)
include h

/-- A bucket that both servers deliver is decrypted alike. -/
theorem readBucket (path level : ℕ) :
    Relates (Lift R) Eq (PathOramController.readBucket S P path level)
      (PathOramController.readBucket T P path level) := by
  rintro ⟨c, s⟩ ⟨_, t⟩ ⟨rfl, hserver⟩
  obtain ⟨hagree, hserver'⟩ := h.read path level s t hserver
  rw [Prog.agree_eq] at hagree
  rw [PathOramController.readBucket, PathOramController.readBucket]
  split
  · exact ⟨rfl, rfl, hserver⟩
  · cases hS : S.readPath path level s with
    | mk r s' =>
      cases hT : T.readPath path level t with
      | mk r' t' =>
        rw [hS, hT] at hagree hserver'
        cases hagree
        cases r with
        | error msg => exact ⟨rfl, rfl, hserver'⟩
        | ok bucket => exact ⟨rfl, rfl, hserver'⟩

theorem writeBucket (path level : ℕ) (iv : ℕ → C.Iv) (bucket : List (OramBlock D)) :
    Relates (Lift R) Eq (PathOramController.writeBucket S path level iv bucket)
      (PathOramController.writeBucket T path level iv bucket) := by
  rintro ⟨c, s⟩ ⟨_, t⟩ ⟨rfl, hserver⟩
  obtain ⟨hagree, hserver'⟩ := h.write ⟨path, level, 0, .kNormal, sealBucket iv bucket⟩ s t hserver
  rw [Prog.agree_eq] at hagree
  rw [PathOramController.writeBucket, PathOramController.writeBucket]
  cases hS : S.writePath ⟨path, level, 0, .kNormal, sealBucket iv bucket⟩ s with
  | mk r s' =>
    cases hT : T.writePath ⟨path, level, 0, .kNormal, sealBucket iv bucket⟩ t with
    | mk r' t' =>
      rw [hS, hT] at hagree hserver'
      cases hagree
      cases r with
      | error msg => exact ⟨rfl, rfl, hserver'⟩
      | ok u => exact ⟨rfl, rfl, hserver'⟩

theorem readLevels (x : ℕ) (ls : List ℕ) :
    Relates (Lift R) Eq (PathOramController.readLevels S P x ls)
      (PathOramController.readLevels T P x ls) := by
  induction ls with
  | nil => exact .pure rfl
  | cons l ls ih =>
    exact .bind_eq (.mapError _ (readBucket h x l)) fun _ => .bind_eq ih fun _ => .pure rfl

/-- The write-back, by induction on the levels below. -/
theorem writeLevels (x : ℕ) (draws : AccessDraws C) (i : ℕ) :
    Relates (Lift R) Eq (PathOramController.writeLevels S P x draws i)
      (PathOramController.writeLevels T P x draws i) := by
  induction i with
  | zero => exact .pure rfl
  | succ i ih =>
    exact .bind_eq (findSubsetOf x _) fun _ =>
      .bind_eq (.mapError _ (writeBucket h x i _ _)) fun _ => ih

/-- The steps of an access, one after the other. -/
theorem internalAccessDirect (op : Operation) (address x : ℕ) (buffer : OramBlock D)
    (draws : AccessDraws C) (dummy : Bool) :
    Relates (Lift R) Eq (PathOramController.internalAccessDirect S P op address x buffer draws dummy)
      (PathOramController.internalAccessDirect T P op address x buffer draws dummy) := by
  refine .bind_eq (readLevels h x _) fun path => ?_
  split
  · exact .pure rfl
  · refine .bind_eq (update _) fun _ => .bind .get fun w v hwv => ?_
    rw [hwv.1]
    split
    · exact .throw _
    · exact .bind_eq (updateBlock _ _ _ _) fun _ =>
        .bind_eq (writeLevels h x draws _) fun _ => .pure rfl

/-- The path that is read comes from the client's map. -/
theorem internalAccess (op : Operation) (address : ℕ) (buffer : OramBlock D) (draws : AccessDraws C)
    (dummy : Bool) :
    Relates (Lift R) Eq (PathOramController.internalAccess S P op address buffer draws dummy)
      (PathOramController.internalAccess T P op address buffer draws dummy) := by
  refine .bind .get fun w v hwv => ?_
  rw [hwv.1]
  split
  · exact .throw _
  split
  · exact .throw _
  refine .bind_eq (randomPosition _) fun x => ?_
  split
  · exact internalAccessDirect h _ _ _ _ _ _
  · exact .bind_eq (update _) fun _ => internalAccessDirect h _ _ _ _ _ _

/-- No `Access` tells the two servers apart. -/
theorem access (op : Operation) (address : ℕ) (buffer : OramBlock D) (draws : AccessDraws C) :
    Relates (Lift R) Eq (PathOramController.access S P op address buffer draws)
      (PathOramController.access T P op address buffer draws) := by
  refine .bind .get fun w v hwv => ?_
  rw [hwv.1]
  split
  · exact .throw _
  · exact internalAccess h op address buffer draws false

theorem accurateWriteBucket (level offset : ℕ) (iv : ℕ → C.Iv) (bucket : List (OramBlock D)) :
    Relates (Lift R) Eq (PathOramController.accurateWriteBucket S level offset iv bucket)
      (PathOramController.accurateWriteBucket T level offset iv bucket) := by
  rintro ⟨c, s⟩ ⟨_, t⟩ ⟨rfl, hserver⟩
  obtain ⟨hagree, hserver'⟩ :=
    h.write ⟨0, level, offset, .kInit, sealBucket iv bucket⟩ s t hserver
  rw [Prog.agree_eq] at hagree
  rw [PathOramController.accurateWriteBucket, PathOramController.accurateWriteBucket]
  cases hS : S.writePath ⟨0, level, offset, .kInit, sealBucket iv bucket⟩ s with
  | mk r s' =>
    cases hT : T.writePath ⟨0, level, offset, .kInit, sealBucket iv bucket⟩ t with
    | mk r' t' =>
      rw [hS, hT] at hagree hserver'
      cases hagree
      cases r with
      | error msg => exact ⟨rfl, rfl, hserver'⟩
      | ok u => exact ⟨rfl, rfl, hserver'⟩

/-- Nor does `FillWithData`. -/
theorem fillTree (draws : FillDraws C) (ts : List Tag) (data : List (OramBlock D)) :
    Relates (Lift R) Eq (PathOramController.fillTree S P draws ts data)
      (PathOramController.fillTree T P draws ts data) := by
  induction ts generalizing data with
  | nil => exact .pure rfl
  | cons t ts ih =>
    rw [fillTree_cons, fillTree_cons]
    exact .bind_eq (fillBucket _ _ _ _ _) fun _ =>
      .bind_eq (.mapError _ (accurateWriteBucket h t.1 t.2 _ _)) fun _ => ih _

/-- The load, and with it every procedure of the controller. -/
theorem fillWithData (data : List (OramBlock D)) (draws : FillDraws C) :
    Relates (Lift R) Eq (PathOramController.fillWithData S P data draws)
      (PathOramController.fillWithData T P data draws) :=
  .bind_eq (fillTree h draws _ data) fun _ => update _

end TreeStub.Simulates

/-! ## The log of the server

What is written down is the kind of a request with its path and level, and of a write
how many blocks it has. The bytes of the blocks, with their ids in the clear, are left
out. -/

/-- What a tree server sees of a request, the bytes of the blocks apart. -/
inductive TreeEvent where
  | readPath (path level : ℕ)
  | writePath (path level blocks : ℕ)
  deriving DecidableEq, Repr

/-- A stub that writes its calls down. -/
def loggedTreeStub (S : TreeStub C σ) : TreeStub C (σ × List TreeEvent) where
  readPath := fun path level => Prog.logged (.readPath path level) (S.readPath path level)
  writePath := fun request =>
    Prog.logged (.writePath request.path request.level request.bucket.length) (S.writePath request)

/-- A server that writes down its calls answers as the one behind it. -/
theorem simulates_loggedTreeStub (S : TreeStub C σ) :
    S.Simulates Prog.Behind (loggedTreeStub S) where
  read := fun _ _ => Prog.relates_logged _ _
  write := fun _ => Prog.relates_logged _ _

namespace PathSystem

/-- The system, with the log so far. -/
def withLog (w : PathSystem D σ) (log : List TreeEvent) : PathSystem D (σ × List TreeEvent) :=
  ⟨w.client, w.server, log⟩

/-- What the server sees of a whole access along path `x`. -/
def pattern (P : PathOramConfig) (x : ℕ) : List TreeEvent :=
  (List.range (P.treeLevel + 1)).map (.readPath x) ++
    (List.range (P.treeLevel + 1)).reverse.map fun l => .writePath x l P.bucketSize

end PathSystem

namespace PathOramController

variable {S : TreeStub C σ} {w w' : PathSystem D (σ × List TreeEvent)}

/-- A padded bucket is full. -/
theorem length_padStash {random : ℕ → OramBlock D} {B : ℕ} {bucket : List (OramBlock D)}
    (h : bucket.length ≤ B) : (padStash random B bucket).length = B := by
  rw [padStash, List.length_append, List.length_map, List.length_range', Nat.add_sub_cancel' h]

/-- A bucket that has been read shows as one read. -/
theorem readBucket_log {x l : ℕ} {bucket : List (OramBlock D)}
    (h : readBucket (loggedTreeStub S) P x l w = (.ok bucket, w')) :
    w'.server.2 = w.server.2 ++ [.readPath x l] := by
  rw [readBucket] at h
  split at h
  · cases h
  · cases hread : (loggedTreeStub S).readPath x l w.server with
    | mk r s =>
      rw [hread] at h
      cases r with
      | error msg => cases h
      | ok response =>
        cases h
        exact Prog.logged_ok hread

/-- A path shows as one read for each level. -/
theorem readLevels_log {x : ℕ} {ls : List ℕ} {path : List (List (OramBlock D))}
    (h : readLevels (loggedTreeStub S) P x ls w = (.ok path, w')) :
    w'.server.2 = w.server.2 ++ ls.map (.readPath x) := by
  induction ls generalizing w path with
  | nil =>
    cases h
    exact (List.append_nil _).symm
  | cons l ls ih =>
    obtain ⟨bucket, w₁, hfirst, hrest⟩ := Prog.bind_eq_ok h
    obtain ⟨rest, w₂, hlevels, hlast⟩ := Prog.bind_eq_ok hrest
    cases hlast
    rw [ih hlevels, readBucket_log (Prog.mapError_eq_ok hfirst), List.append_assoc,
      List.singleton_append, List.map_cons]

/-- A bucket that has been written shows as one write, with its size. -/
theorem writeBucket_log {x l : ℕ} {iv : ℕ → C.Iv} {bucket : List (OramBlock D)}
    (h : writeBucket (loggedTreeStub S) x l iv bucket w = (.ok (), w')) :
    w'.server.2 = w.server.2 ++ [.writePath x l bucket.length] := by
  rw [writeBucket] at h
  cases hwrite : (loggedTreeStub S).writePath ⟨x, l, 0, .kNormal, sealBucket iv bucket⟩ w.server with
  | mk r s =>
    rw [hwrite] at h
    cases r with
    | error msg => cases h
    | ok u =>
      cases h
      have hlog := Prog.logged_ok hwrite
      simp only [sealBucket, List.length_mapIdx] at hlog
      exact hlog

/-- Every bucket that is written is full, whatever the stash holds. -/
theorem writeLevels_log {x : ℕ} {draws : AccessDraws C} {i : ℕ}
    (h : writeLevels (loggedTreeStub S) P x draws i w = (.ok (), w')) :
    w'.server.2 =
      w.server.2 ++ (List.range i).reverse.map fun l => .writePath x l P.bucketSize := by
  induction i generalizing w with
  | zero =>
    cases h
    exact (List.append_nil _).symm
  | succ i ih =>
    obtain ⟨bucket, w₁, hfind, hrest⟩ := Prog.bind_eq_ok h
    obtain ⟨u, w₂, hwrite, hlevels⟩ := Prog.bind_eq_ok hrest
    have hbucket : bucket.length = P.bucketSize ∧ w₁.server = w.server := by
      cases hfind
      exact ⟨length_padStash
        ((length_findSubset _ _ _ (Nat.zero_le _)).trans_le (Nat.min_le_left _ _)), rfl⟩
    rw [ih hlevels, writeBucket_log (Prog.mapError_eq_ok hwrite), hbucket.1, hbucket.2,
      List.append_assoc, List.singleton_append, List.range_succ, List.reverse_append,
      List.reverse_singleton, List.singleton_append, List.map_cons]

/-- The update happens in the stash; the server does not hear of it. -/
theorem updateBlock_server {σ : Type} {op : Operation} {address : ℕ} {buffer block out : OramBlock D}
    {w w' : PathSystem D σ} (h : updateBlock P op address buffer block w = (.ok out, w')) :
    w'.server = w.server := by
  simp only [updateBlock, update, Prog.modify_bind] at h
  split at h
  · cases h
    rfl
  · split at h
    · cases h
      rfl
    · cases h
      rfl

/-- **The pattern of a real access.** -/
theorem internalAccessDirect_log {op : Operation} {address x : ℕ} {buffer out : OramBlock D}
    {draws : AccessDraws C}
    (h : internalAccessDirect (loggedTreeStub S) P op address x buffer draws false w =
      (.ok out, w')) :
    w'.server.2 = w.server.2 ++ pattern P x := by
  obtain ⟨path, w₁, hread, hrest⟩ := Prog.bind_eq_ok h
  rw [if_neg Bool.false_ne_true] at hrest
  simp only [update, Prog.modify_bind, Prog.get_bind] at hrest
  cases hfind : (mergePath w₁.client.stash path).find? (blockEqual address) with
  | none =>
    simp only [hfind] at hrest
    cases hrest
  | some block =>
    simp only [hfind] at hrest
    obtain ⟨out', w₂, hupdate, hlast⟩ := Prog.bind_eq_ok hrest
    obtain ⟨u, w₃, hwrite, hpure⟩ := Prog.bind_eq_ok hlast
    cases hpure
    rw [writeLevels_log hwrite, updateBlock_server hupdate, readLevels_log hread, pattern,
      List.append_assoc]

/-- The pattern of a dummy access: nothing is written back. -/
theorem internalAccessDirect_dummy_log {op : Operation} {address x : ℕ} {buffer out : OramBlock D}
    {draws : AccessDraws C}
    (h : internalAccessDirect (loggedTreeStub S) P op address x buffer draws true w =
      (.ok out, w')) :
    w'.server.2 = w.server.2 ++ (List.range (P.treeLevel + 1)).map (.readPath x) := by
  obtain ⟨path, w₁, hread, hrest⟩ := Prog.bind_eq_ok h
  rw [if_pos rfl] at hrest
  cases hrest
  exact readLevels_log hread

theorem accurateWriteBucket_log {level offset : ℕ} {iv : ℕ → C.Iv} {bucket : List (OramBlock D)}
    (h : accurateWriteBucket (loggedTreeStub S) level offset iv bucket w = (.ok (), w')) :
    w'.server.2 = w.server.2 ++ [.writePath 0 level bucket.length] := by
  rw [accurateWriteBucket] at h
  cases hwrite : (loggedTreeStub S).writePath ⟨0, level, offset, .kInit, sealBucket iv bucket⟩
      w.server with
  | mk r s =>
    rw [hwrite] at h
    cases r with
    | error msg => cases h
    | ok u =>
      cases h
      have hlog := Prog.logged_ok hwrite
      simp only [sealBucket, List.length_mapIdx] at hlog
      exact hlog

/-- A load shows as one write for each bucket, and names no path. -/
theorem fillTree_log {draws : FillDraws C} {ts : List Tag} {data : List (OramBlock D)}
    (h : fillTree (loggedTreeStub S) P draws ts data w = (.ok (), w')) :
    w'.server.2 = w.server.2 ++ ts.map fun t => .writePath 0 t.1 P.bucketSize := by
  induction ts generalizing data w with
  | nil =>
    cases h
    exact (List.append_nil _).symm
  | cons t ts ih =>
    rw [fillTree_cons] at h
    obtain ⟨r, w₁, hbucket, hrest⟩ := Prog.bind_eq_ok h
    obtain ⟨u, w₂, hwrite, htree⟩ := Prog.bind_eq_ok hrest
    have hpos := Nat.two_pow_pos (P.treeLevel - t.1)
    have hle : t.2 * 2 ^ (P.treeLevel - t.1) ≤
        t.2 * 2 ^ (P.treeLevel - t.1) + 2 ^ (P.treeLevel - t.1) - 1 := by omega
    obtain ⟨m, hspec, -⟩ := fillBucket_spec hle (draws.path t) P.bucketSize data w
    cases hspec.symm.trans hbucket
    have hfull : ((data.take P.bucketSize).filter OramBlock.isNormal).length ≤ P.bucketSize :=
      (List.length_filter_le _ _).trans (List.length_take_le _ _)
    rw [ih htree, accurateWriteBucket_log (Prog.mapError_eq_ok hwrite), length_padStash hfull,
      List.append_assoc, List.singleton_append, List.map_cons]

/-- The load writes every bucket once, whatever the data is. -/
theorem fillWithData_log {data : List (OramBlock D)} {draws : FillDraws C}
    (h : fillWithData (loggedTreeStub S) P data draws w = (.ok (), w')) :
    w'.server.2 =
      w.server.2 ++ (fillOrder P.treeLevel).map fun t => .writePath 0 t.1 P.bucketSize := by
  obtain ⟨u, w₁, hfill, hlast⟩ := Prog.bind_eq_ok h
  cases hlast
  have hlog := fillTree_log hfill
  exact hlog

/-- An access that returns was valid. -/
theorem access_valid {σ : Type} {S : TreeStub C σ} {w w' : PathSystem D σ} {op : Operation}
    {address : ℕ} {buffer out : OramBlock D} {draws : AccessDraws C}
    (h : access S P op address buffer draws w = (.ok out, w')) :
    w.client.isInitialized = true ∧ op ≠ .kInvalid := by
  rw [access, Prog.get_bind] at h
  split at h
  next => cases h
  next hinit =>
    rw [internalAccess, Prog.get_bind, if_neg hinit] at h
    split at h
    next => cases h
    next hop => exact ⟨Bool.eq_true_of_not_eq_false hinit, hop⟩

/-- **The pattern of an access** is that of the path of its address. -/
theorem access_pattern {op : Operation} {address : ℕ} {buffer out : OramBlock D}
    {draws : AccessDraws C}
    (h : access (loggedTreeStub S) P op address buffer draws w = (.ok out, w')) :
    w'.server.2 = w.server.2 ++ pattern P (w.client.positionMap.index address) := by
  obtain ⟨hinit, hop⟩ := access_valid h
  rw [access_direct hinit hop] at h
  have hlog := internalAccessDirect_log h
  exact hlog

end PathOramController

/-! ## The position map -/

namespace PathOramController

variable {S : TreeStub C σ}

/-- The positions that the map names. -/
def Positions (m : ℕ → ℕ) (w : PathSystem D σ) : Prop := ∀ a, w.client.positionMap.index a = m a

variable {m : ℕ → ℕ}

/-- Reading leaves the position map alone. -/
theorem positions_readLevels (x : ℕ) (ls : List ℕ) :
    Prog.Keeps (Positions m) (readLevels S P x ls) := by
  induction ls with
  | nil => exact .pure _
  | cons l ls ih =>
    refine .bind (.mapError ?_) fun _ => .bind ih fun _ => .pure _
    intro w hw
    rw [readBucket]
    split
    · exact hw
    · cases S.readPath x l w.server with
      | mk r s => cases r <;> exact hw

/-- The write-back only looks positions up. -/
theorem positions_writeLevels (x : ℕ) (draws : AccessDraws C) (i : ℕ) :
    Prog.Keeps (Positions m) (writeLevels S P x draws i) := by
  induction i with
  | zero => exact .pure _
  | succ i ih =>
    refine .bind ?_ fun _ => .bind (.mapError ?_) fun _ => ih
    · intro w hw a
      exact ((findSubset_spec w.client.stash w.client.positionMap []).2.2 a).trans (hw a)
    · intro w hw
      rw [writeBucket]
      cases S.writePath _ w.server with
      | mk r s => cases r <;> exact hw

/-- A standalone controller forgets no position. -/
theorem positions_updateBlock (hstand : P.standalone = true) (op : Operation) (address : ℕ)
    (buffer block : OramBlock D) :
    Prog.Keeps (Positions (σ := σ) m) (updateBlock P op address buffer block) := by
  refine .bind (fun _ hw => hw) fun _ => ?_
  split
  · exact .bind (fun _ hw => hw) fun _ => .pure _
  · rw [hstand, if_neg (by simp)]
    exact .pure _

/-- An access of a standalone controller changes positions where it remaps and nowhere else. -/
theorem positions_internalAccessDirect (hstand : P.standalone = true) (op : Operation) (address x : ℕ)
    (buffer : OramBlock D) (draws : AccessDraws C) (dummy : Bool) :
    Prog.Keeps (Positions m) (internalAccessDirect S P op address x buffer draws dummy) := by
  refine .bind (positions_readLevels x _) fun path => ?_
  split
  · exact .pure _
  · refine .bind (fun _ hw => hw) fun _ => .bind .get fun w => ?_
    split
    · exact .throw _
    · exact .bind (positions_updateBlock hstand _ _ _ _) fun _ =>
        .bind (positions_writeLevels x draws _) fun _ => .pure _

/-- **The position of an address is the one drawn last for it.** -/
theorem access_positions (hstand : P.standalone = true) {w w' : PathSystem D σ} {op : Operation}
    {address : ℕ} {buffer out : OramBlock D} {draws : AccessDraws C}
    (h : access S P op address buffer draws w = (.ok out, w')) (a : ℕ) :
    w'.client.positionMap.index a =
      if a = address then draws.position % P.numberOfLeafs
      else w.client.positionMap.index a := by
  obtain ⟨hinit, hop⟩ := access_valid h
  rw [access_direct hinit hop] at h
  have hstart : Positions (fun a => if a = address then draws.position % P.numberOfLeafs
      else w.client.positionMap.index a) ({ w with client := { w.client with
        positionMap := w.client.positionMap.set address (draws.position % P.numberOfLeafs) } } :
          PathSystem D σ) := by
    intro a
    by_cases ha : a = address
    · subst ha
      exact (PositionMap.index_set_self _ _ _).trans (if_pos rfl).symm
    · exact (PositionMap.index_set_ne _ _ ha).trans (if_neg ha).symm
  have hend := positions_internalAccessDirect (S := S) hstand op address
    (w.client.positionMap.index address) buffer draws false _ hstart
  rw [h] at hend
  exact hend a

end PathOramController

end ObliviousRam
