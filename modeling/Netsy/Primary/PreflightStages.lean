import Netsy.NodeState
import Netsy.Primary.Preflight

/-! # A pass, stage by stage

`runPreflightPass` runs in a goroutine of its own, so between any two of its reads and writes the
rest of the node may move. A `Stage` says where a pass stands and what it has read; `Stage.pass` is
the program up to the next stage. The context and the state of the node are looked at only before a
chunk and before a record. A pass that nothing interrupts is the pass of `Preflight`
(`walks_iff`). -/

namespace Netsy.Primary.PreflightStages

open Proto NodeState Datastore Lib.StateError Primary.Preflight

inductive Stage
  | readLocalRevision
  | getLatestSnapshot (latestLocalRevision : ℤ)
  | listChunks (latestLocalRevision durableRevision : ℤ)
  /-- Before `ctx.Done()` is looked at for the first of these chunks. -/
  | chunks (latestLocalRevision durableRevision : ℤ) (rest : List ℤ)
  /-- Before the state is looked at for the chunk. -/
  | chunkState (latestLocalRevision durableRevision chunk : ℤ) (rest : List ℤ)
  | chunkBody (latestLocalRevision durableRevision chunk : ℤ) (rest : List ℤ)
  | insertInitial (latestLocalRevision durableRevision : ℤ)
  | listRecords (durableRevision : ℤ)
  /-- Before `ctx.Done()` is looked at for the first of these records. -/
  | records (rest : List Record)
  | recordState (next : Record) (rest : List Record)
  | recordBody (next : Record) (rest : List Record)
  | seedCompaction
  | readLatestRevision
  | setCommitted (latestRevision : ℤ)
  | storeNextRevision (latestRevision : ℤ)
  | broadcastCommit (latestRevision : ℤ)
deriving DecidableEq, Repr

/-- The checks before a chunk and before a record are stages of their own. -/
def unchecked (env : Env) : Env :=
  { env with
    works := fun
      | .beforeChunk _ => true
      | .beforeRecord _ => true
      | op => env.works op }

/-- The program of a pass up to its next stage, `none` after the last one. -/
def Stage.pass (env : Env) (nodeID : NodeID) (cancelled : Bool) (primary : PrimaryState) :
    Stage → Pass (Option Stage)
  | .readLocalRevision => do
    check env .readLocalRevision .readLocalRevision
    let n ← get
    pure (some (.getLatestSnapshot n.db.latestRevision))
  | .getLatestSnapshot latestLocal => do
    check env .getLatestSnapshot .getLatestSnapshot
    let n ← get
    requireSnapshot latestLocal (Datastore.getLatestSnapshot n.bucket)
    pure (some (.listChunks latestLocal ((Datastore.getLatestSnapshot n.bucket).getD 0)))
  | .listChunks latestLocal durable => do
    check env .listChunks .listChunks
    let n ← get
    pure (some (.chunks latestLocal durable (Datastore.listChunks n.bucket 0)))
  | .chunks latestLocal durable [] => pure (some (.insertInitial latestLocal durable))
  | .chunks latestLocal durable (chunk :: rest) =>
    if cancelled then throw .stopped
    else pure (some (.chunkState latestLocal durable chunk rest))
  | .chunkState latestLocal durable chunk rest =>
    if primary = .starting then pure (some (.chunkBody latestLocal durable chunk rest))
    else throw .stopped
  | .chunkBody latestLocal durable chunk rest => do
    importChunk (unchecked env) latestLocal chunk
    pure (some (.chunks latestLocal (if durable < chunk then chunk else durable) rest))
  | .insertInitial latestLocal durable => do
    Preflight.insertInitial env nodeID durable latestLocal
    pure (some (.listRecords durable))
  | .listRecords durable => do
    check env .listLocalRecords (.listLocalRecords durable)
    let n ← get
    pure (some (.records (n.db.findRecordsAfterRevision durable)))
  | .records [] => pure (some .seedCompaction)
  | .records (next :: rest) =>
    if cancelled then throw .stopped else pure (some (.recordState next rest))
  | .recordState next rest =>
    if primary = .starting then pure (some (.recordBody next rest)) else throw .stopped
  | .recordBody next rest => do
    uploadRecord (unchecked env) nodeID next
    pure (some (.records rest))
  | .seedCompaction => do
    Preflight.seedCompaction env
    pure (some .readLatestRevision)
  | .readLatestRevision => do
    check env .readLatestRevision .readLatestRevision
    let n ← get
    pure (some (.setCommitted n.db.latestRevision))
  | .setCommitted latest => do
    let n ← get
    set { n with committed := latest }
    pure (some (.storeNextRevision latest))
  | .storeNextRevision latest => do
    let n ← get
    set { n with nextRevisionID := latest + 1 }
    pure (some (.broadcastCommit latest))
  | .broadcastCommit latest => do
    let n ← get
    set { n with broadcast := n.broadcast ++ [PrimaryMessage.commit latest] }
    pure none

/-- Where a stage that does not fail goes on in this node. -/
def Stage.successor (n : Node) : Stage → Option Stage
  | .readLocalRevision => some (.getLatestSnapshot n.db.latestRevision)
  | .getLatestSnapshot l => some (.listChunks l ((Datastore.getLatestSnapshot n.bucket).getD 0))
  | .listChunks l d => some (.chunks l d (Datastore.listChunks n.bucket 0))
  | .chunks l d [] => some (.insertInitial l d)
  | .chunks l d (c :: cs) => some (.chunkState l d c cs)
  | .chunkState l d c cs => some (.chunkBody l d c cs)
  | .chunkBody l d c cs => some (.chunks l (if d < c then c else d) cs)
  | .insertInitial _ d => some (.listRecords d)
  | .listRecords d => some (.records (n.db.findRecordsAfterRevision d))
  | .records [] => some .seedCompaction
  | .records (r :: rs) => some (.recordState r rs)
  | .recordState r rs => some (.recordBody r rs)
  | .recordBody _ rs => some (.records rs)
  | .seedCompaction => some .readLatestRevision
  | .readLatestRevision => some (.setCommitted n.db.latestRevision)
  | .setCommitted l => some (.storeNextRevision l)
  | .storeNextRevision l => some (.broadcastCommit l)
  | .broadcastCommit _ => none

/-- The stage sets the committed revision or the next revision. -/
def Stage.numbers : Stage → Bool
  | .setCommitted _ => true
  | .storeNextRevision _ => true
  | _ => false

/-- The context is looked at again before the pass can end. -/
def Stage.checksAgain : Stage → Bool
  | .chunks _ _ rest => rest ≠ []
  | .chunkState _ _ _ rest => rest ≠ []
  | .chunkBody _ _ _ rest => rest ≠ []
  | .records rest => rest ≠ []
  | .recordState _ rest => rest ≠ []
  | .recordBody _ rest => rest ≠ []
  | _ => false

variable {env : Env} {nodeID : NodeID} {cancelled : Bool} {primary : PrimaryState} {n n' : Node}
variable {stage next : Stage} {o : Option Stage} {e : PreflightError} {d l : ℤ}

/-! ### One stage -/

theorem returns_check_iff {op : Op} {α : Type} {a : α} {f : Unit → Pass α} :
    Returns (check env op e >>= f) n a n' ↔ env.works op = true ∧ Returns (f ()) n a n' := by
  unfold check
  cases env.works op with
  | true => exact (and_iff_right rfl).symm
  | false => exact iff_of_false not_returns_throw fun h => Bool.false_ne_true h.1

theorem returns_requireSnapshot_iff {snapshot : Option ℤ} {α : Type} {a : α} {f : PUnit → Pass α} :
    Returns (requireSnapshot l snapshot >>= f) n a n' ↔
      (∀ rev ∈ snapshot, rev ≤ l) ∧ Returns (f PUnit.unit) n a n' := by
  unfold requireSnapshot
  cases snapshot with
  | none => exact (and_iff_right (by simp)).symm
  | some rev =>
    by_cases hrev : l < rev
    · simp only [if_pos hrev]
      exact iff_of_false not_returns_throw fun h => absurd (h.1 rev rfl) (not_le.mpr hrev)
    · simp only [if_neg hrev]
      exact (and_iff_right (by simpa using hrev)).symm

theorem eq_successor_of_returns (h : Returns (stage.pass env nodeID cancelled primary) n o n') :
    o = stage.successor n := by
  have hread : ∀ {op : Op} {e : PreflightError} {f : Node → Option Stage},
      Returns (check env op e >>= fun _ => get >>= fun m : Node =>
        (pure (f m) : Pass (Option Stage))) n o n' → o = f n := by
    intro op e f h
    have hg := returns_get_bind.mp (returns_check_iff.mp h).2
    exact (returns_pure.mp hg).1
  cases stage with
  | readLocalRevision => exact hread h
  | getLatestSnapshot l =>
    have hs := returns_get_bind.mp (returns_check_iff.mp h).2
    exact (returns_pure.mp (returns_requireSnapshot_iff.mp hs).2).1
  | listChunks l d => exact hread h
  | chunks l d cs =>
    cases cs with
    | nil => exact (returns_pure.mp h).1
    | cons c cs =>
      simp only [Stage.pass] at h
      split_ifs at h
      · exact absurd h not_returns_throw
      · exact (returns_pure.mp h).1
  | chunkState l d c cs =>
    simp only [Stage.pass] at h
    split_ifs at h
    · exact (returns_pure.mp h).1
    · exact absurd h not_returns_throw
  | chunkBody l d c cs => exact (returns_bind_pure.mp h).1
  | insertInitial l d => exact (returns_bind_pure.mp h).1
  | listRecords d => exact hread h
  | records rs =>
    cases rs with
    | nil => exact (returns_pure.mp h).1
    | cons r rs =>
      simp only [Stage.pass] at h
      split_ifs at h
      · exact absurd h not_returns_throw
      · exact (returns_pure.mp h).1
  | recordState r rs =>
    simp only [Stage.pass] at h
    split_ifs at h
    · exact (returns_pure.mp h).1
    · exact absurd h not_returns_throw
  | recordBody r rs => exact (returns_bind_pure.mp h).1
  | seedCompaction => exact (returns_bind_pure.mp h).1
  | readLatestRevision => exact hread h
  | setCommitted l => exact (returns_bind_pure.mp (returns_get_bind.mp h)).1
  | storeNextRevision l => exact (returns_bind_pure.mp (returns_get_bind.mp h)).1
  | broadcastCommit l => exact (returns_bind_pure.mp (returns_get_bind.mp h)).1

/-- What a stage that does not fail goes on to, in some node. -/
inductive Stage.Follows : Stage → Option Stage → Prop
  | readLocalRevision (l : ℤ) : Follows .readLocalRevision (some (.getLatestSnapshot l))
  | getLatestSnapshot (l d : ℤ) : Follows (.getLatestSnapshot l) (some (.listChunks l d))
  | listChunks (l d : ℤ) (cs : List ℤ) : Follows (.listChunks l d) (some (.chunks l d cs))
  | noChunk (l d : ℤ) : Follows (.chunks l d []) (some (.insertInitial l d))
  | chunk (l d c : ℤ) (cs : List ℤ) : Follows (.chunks l d (c :: cs)) (some (.chunkState l d c cs))
  | chunkState (l d c : ℤ) (cs : List ℤ) :
    Follows (.chunkState l d c cs) (some (.chunkBody l d c cs))
  | chunkBody (l d c d' : ℤ) (cs : List ℤ) : Follows (.chunkBody l d c cs) (some (.chunks l d' cs))
  | insertInitial (l d : ℤ) : Follows (.insertInitial l d) (some (.listRecords d))
  | listRecords (d : ℤ) (rs : List Record) : Follows (.listRecords d) (some (.records rs))
  | noRecord : Follows (.records []) (some .seedCompaction)
  | record (r : Record) (rs : List Record) : Follows (.records (r :: rs)) (some (.recordState r rs))
  | recordState (r : Record) (rs : List Record) :
    Follows (.recordState r rs) (some (.recordBody r rs))
  | recordBody (r : Record) (rs : List Record) : Follows (.recordBody r rs) (some (.records rs))
  | seedCompaction : Follows .seedCompaction (some .readLatestRevision)
  | readLatestRevision (l : ℤ) : Follows .readLatestRevision (some (.setCommitted l))
  | setCommitted (l : ℤ) : Follows (.setCommitted l) (some (.storeNextRevision l))
  | storeNextRevision (l : ℤ) : Follows (.storeNextRevision l) (some (.broadcastCommit l))
  | broadcastCommit (l : ℤ) : Follows (.broadcastCommit l) none

theorem follows_successor (stage : Stage) (n : Node) : stage.Follows (stage.successor n) := by
  cases stage with
  | chunks l d cs => cases cs <;> constructor
  | records rs => cases rs <;> constructor
  | _ => constructor

theorem follows_of_returns (h : Returns (stage.pass env nodeID cancelled primary) n o n') :
    stage.Follows o := by
  rw [eq_successor_of_returns h]
  exact follows_successor stage n

/-- **A cancelled pass that looks at its context again does not get past that.** -/
theorem checksAgain_of_returns (h : Returns (stage.pass env nodeID true primary) n o n')
    (hc : stage.checksAgain = true) : ∃ next, o = some next ∧ next.checksAgain = true := by
  cases follows_of_returns h with
  | chunk l d c cs => exact absurd h not_returns_throw
  | record r rs => exact absurd h not_returns_throw
  | chunkState l d c cs => exact ⟨_, rfl, hc⟩
  | chunkBody l d c d' cs => exact ⟨_, rfl, hc⟩
  | recordState r rs => exact ⟨_, rfl, hc⟩
  | recordBody r rs => exact ⟨_, rfl, hc⟩
  | noChunk => cases hc
  | noRecord => cases hc
  | _ => cases hc

/-- The stage changes nothing in the node. -/
def Stage.reads : Stage → Bool
  | .chunkBody _ _ _ _ | .insertInitial _ _ | .recordBody _ _ | .seedCompaction => false
  | .setCommitted _ | .storeNextRevision _ | .broadcastCommit _ => false
  | _ => true

theorem leaves_pass_of_reads (h : stage.reads = true) :
    leaves (stage.pass env nodeID cancelled primary) n = n := by
  have hread : ∀ {op : Op} {e : PreflightError} {f : Node → Stage},
      leaves (check env op e >>= fun _ => get >>= fun m : Node =>
        (pure (some (f m)) : Pass (Option Stage))) n = n := fun {_ _ _} =>
    leaves_check_bind (I := fun m => m = n) rfl rfl
  cases stage with
  | readLocalRevision => exact hread
  | getLatestSnapshot l =>
    refine leaves_check_bind (I := fun m => m = n) rfl ?_
    rw [leaves_get_bind]
    refine leaves_bind (I := fun m => m = n) ?_ fun _ _ hm => hm
    unfold requireSnapshot
    split
    · split_ifs <;> rfl
    · rfl
  | listChunks l d => exact hread
  | chunks l d cs =>
    cases cs with
    | nil => rfl
    | cons c cs => cases cancelled <;> rfl
  | chunkState l d c cs => cases primary <;> rfl
  | listRecords d => exact hread
  | records rs =>
    cases rs with
    | nil => rfl
    | cons r rs => cases cancelled <;> rfl
  | recordState r rs => cases primary <;> rfl
  | readLatestRevision => exact hread
  | _ => cases h

/-- The two numbers that a pass sets at its end. -/
def numbers (n : Node) : ℤ × ℤ := (n.committed, n.nextRevisionID)

theorem numbers_importChunk {c : ℤ} : numbers (leaves (importChunk env l c) n) = numbers n := by
  refine leaves_check_bind (I := fun m => numbers m = numbers n) rfl ?_
  split_ifs
  · rfl
  · rw [leaves_get_bind, leaves_set_bind]
    split <;> rfl

theorem numbers_insertInitial :
    numbers (leaves (Preflight.insertInitial env nodeID d l) n) = numbers n := by
  unfold Preflight.insertInitial
  split_ifs
  · rw [leaves_get_bind]
    split <;> rfl
  · rfl

theorem numbers_uploadRecord {r : Record} :
    numbers (leaves (uploadRecord env nodeID r) n) = numbers n := by
  refine leaves_check_bind (I := fun m => numbers m = numbers n) rfl ?_
  rw [leaves_get_bind, leaves_set_bind]
  split <;> rfl

theorem numbers_seedCompaction :
    numbers (leaves (Preflight.seedCompaction env) n) = numbers n := by
  refine leaves_check_bind (I := fun m => numbers m = numbers n) rfl ?_
  rw [leaves_get_bind]
  dsimp only
  split_ifs
  · exact leaves_check_bind (I := fun m => numbers m = numbers n) rfl
      (leaves_check_bind (I := fun m => numbers m = numbers n) rfl rfl)
  · rfl

theorem numbers_pass (h : stage.numbers = false) :
    numbers (leaves (stage.pass env nodeID cancelled primary) n) = numbers n := by
  have hthen : ∀ {p : Pass PUnit} {o : Option Stage}, numbers (leaves p n) = numbers n →
      numbers (leaves (p >>= fun _ => pure o) n) = numbers n := fun {_ _} hp =>
    leaves_bind (I := fun m => numbers m = numbers n) hp fun _ _ hm => hm
  cases stage with
  | chunkBody l d c cs => exact hthen numbers_importChunk
  | insertInitial l d => exact hthen numbers_insertInitial
  | recordBody r rs => exact hthen numbers_uploadRecord
  | seedCompaction => exact hthen numbers_seedCompaction
  | setCommitted l => cases h
  | storeNextRevision l => cases h
  | broadcastCommit l => rfl
  | _ => rw [leaves_pass_of_reads rfl]

/-! ### A pass that nothing stops -/

theorem avoids_check {op : Op} {e' : PreflightError} (hne : e' ≠ e) :
    Avoids e (check env op e') := by
  unfold check
  split_ifs
  · exact avoids_pure
  · exact avoids_throw hne

theorem avoids_importChunk {c : ℤ} : Avoids .stopped (importChunk (unchecked env) l c) := by
  refine Avoids.bind avoids_pure fun _ => ?_
  split_ifs
  · exact avoids_pure
  · refine avoids_get.bind fun _ => avoids_set.bind fun _ => ?_
    split
    · exact avoids_pure
    · exact avoids_throw (by simp)

theorem avoids_insertInitial : Avoids .stopped (Preflight.insertInitial env nodeID d l) := by
  unfold Preflight.insertInitial
  split_ifs
  · refine avoids_get.bind fun _ => ?_
    split
    · exact avoids_set
    · exact avoids_throw (by simp)
  · exact avoids_pure

theorem avoids_uploadRecord {r : Record} :
    Avoids .stopped (uploadRecord (unchecked env) nodeID r) := by
  refine Avoids.bind avoids_pure fun _ => avoids_get.bind fun _ => avoids_set.bind fun _ => ?_
  split
  · exact avoids_set
  · exact avoids_throw (by simp)

theorem avoids_seedCompaction : Avoids .stopped (Preflight.seedCompaction env) := by
  refine (avoids_check (by simp)).bind fun _ => avoids_get.bind fun _ => ?_
  dsimp only
  split_ifs
  · exact (avoids_check (by simp)).bind fun _ => (avoids_check (by simp)).bind fun _ => avoids_set
  · exact avoids_set

theorem avoids_requireSnapshot {snapshot : Option ℤ} :
    Avoids .stopped (requireSnapshot l snapshot) := by
  unfold requireSnapshot
  split
  · split_ifs
    · exact avoids_throw (by simp)
    · exact avoids_pure
  · exact avoids_pure

/-- **A pass of a Starting node stops only if it is cancelled.** -/
theorem avoids_pass : Avoids .stopped (stage.pass env nodeID false .starting) := by
  have hread : ∀ {op : Op} {e' : PreflightError} {f : Node → Stage}, e' ≠ .stopped →
      Avoids .stopped (check env op e' >>= fun _ => get >>= fun m : Node =>
        (pure (some (f m)) : Pass (Option Stage))) := fun {_ _ _} hne =>
    (avoids_check hne).bind fun _ => avoids_get.bind fun _ => avoids_pure
  cases stage with
  | readLocalRevision => exact hread (by simp)
  | getLatestSnapshot l =>
    exact (avoids_check (by simp)).bind fun _ => avoids_get.bind fun _ =>
      avoids_requireSnapshot.bind fun _ => avoids_pure
  | listChunks l d => exact hread (by simp)
  | chunks l d cs => cases cs <;> exact avoids_pure
  | chunkState l d c cs => exact avoids_pure
  | chunkBody l d c cs => exact avoids_importChunk.bind fun _ => avoids_pure
  | insertInitial l d => exact avoids_insertInitial.bind fun _ => avoids_pure
  | listRecords d => exact hread (by simp)
  | records rs => cases rs <;> exact avoids_pure
  | recordState r rs => exact avoids_pure
  | recordBody r rs => exact avoids_uploadRecord.bind fun _ => avoids_pure
  | seedCompaction => exact avoids_seedCompaction.bind fun _ => avoids_pure
  | readLatestRevision => exact hread (by simp)
  | setCommitted l => exact avoids_get.bind fun _ => avoids_set.bind fun _ => avoids_pure
  | storeNextRevision l => exact avoids_get.bind fun _ => avoids_set.bind fun _ => avoids_pure
  | broadcastCommit l => exact avoids_get.bind fun _ => avoids_set.bind fun _ => avoids_pure

/-! ### A pass that nothing interrupts -/

/-- The pass goes through its stages alone, in a node that stays Starting. -/
inductive Walks (env : Env) (nodeID : NodeID) : Stage → Node → Node → Prop
  | last {stage : Stage} {n n' : Node} :
    Returns (stage.pass env nodeID false .starting) n none n' → Walks env nodeID stage n n'
  | next {stage next : Stage} {n n1 n' : Node} :
    Returns (stage.pass env nodeID false .starting) n (some next) n1 →
      Walks env nodeID next n1 n' → Walks env nodeID stage n n'

/-- What a pass has still to do at a stage. -/
def Stage.remaining (env : Env) (nodeID : NodeID) : Stage → Pass PUnit
  | .readLocalRevision => runPreflightPass env nodeID
  | .getLatestSnapshot l => do
    check env .getLatestSnapshot .getLatestSnapshot
    let n ← get
    requireSnapshot l (Datastore.getLatestSnapshot n.bucket)
    check env .listChunks .listChunks
    (Datastore.listChunks n.bucket 0).forM (importChunk env l)
    fromInitial l (durableRevision n.bucket)
  | .listChunks l d => do
    check env .listChunks .listChunks
    let n ← get
    fromChunks l d (Datastore.listChunks n.bucket 0)
  | .chunks l d cs => fromChunks l d cs
  | .chunkState l d c cs => fromChunks l d (c :: cs)
  | .chunkBody l d c cs => fromChunks l d (c :: cs)
  | .insertInitial l d => fromInitial l d
  | .listRecords d => do
    uploadRecords env nodeID d
    fromCompaction
  | .records rs => fromRecords rs
  | .recordState r rs => fromRecords (r :: rs)
  | .recordBody r rs => fromRecords (r :: rs)
  | .seedCompaction => fromCompaction
  | .readLatestRevision => Preflight.setCommitted env
  | .setCommitted l => do
    let n ← get
    set { n with
      committed := l, nextRevisionID := l + 1
      broadcast := n.broadcast ++ [PrimaryMessage.commit l] }
  | .storeNextRevision l => do
    let n ← get
    set { n with
      nextRevisionID := l + 1, broadcast := n.broadcast ++ [PrimaryMessage.commit l] }
  | .broadcastCommit l => do
    let n ← get
    set { n with broadcast := n.broadcast ++ [PrimaryMessage.commit l] }
where
  fromCompaction : Pass PUnit := do
    Preflight.seedCompaction env
    Preflight.setCommitted env
  fromRecords (rs : List Record) : Pass PUnit := do
    rs.forM (uploadRecord env nodeID)
    fromCompaction
  fromInitial (l d : ℤ) : Pass PUnit := do
    Preflight.insertInitial env nodeID d l
    uploadRecords env nodeID d
    fromCompaction
  fromChunks (l d : ℤ) (cs : List ℤ) : Pass PUnit := do
    cs.forM (importChunk env l)
    fromInitial l (cs.foldl (fun d c => if d < c then c else d) d)

/-- The rest of the pass after a stage. -/
def afterwards (env : Env) (nodeID : NodeID) : Option Stage → Pass PUnit
  | none => pure PUnit.unit
  | some stage => stage.remaining env nodeID

theorem returns_remaining_iff {u : PUnit} :
    Returns (stage.remaining (unchecked env) nodeID) n u n' ↔
      Returns (stage.pass env nodeID false .starting >>= afterwards (unchecked env) nodeID)
        n u n' := by
  cases stage with
  | readLocalRevision =>
    simp only [Stage.remaining, runPreflightPass, Stage.pass, bind_assoc, pure_bind, afterwards,
      returns_check_iff, returns_get_bind]
    rfl
  | getLatestSnapshot l =>
    simp only [Stage.remaining, Stage.pass, bind_assoc, pure_bind, afterwards, returns_check_iff,
      returns_get_bind, returns_requireSnapshot_iff]
    rfl
  | chunks l d cs => cases cs <;> rfl
  | records rs => cases rs <;> rfl
  | chunkBody l d c cs =>
    simp only [Stage.remaining, Stage.remaining.fromChunks, Stage.pass, bind_assoc, pure_bind,
      afterwards, forM_cons_bind, List.foldl_cons]
  | recordBody r rs =>
    simp only [Stage.remaining, Stage.remaining.fromRecords, Stage.pass, bind_assoc, pure_bind,
      afterwards, forM_cons_bind]
  | listChunks l d =>
    simp only [Stage.pass, bind_assoc, pure_bind, afterwards]
    rfl
  | insertInitial l d =>
    simp only [Stage.pass, bind_assoc, pure_bind, afterwards]
    rfl
  | listRecords d =>
    simp only [Stage.remaining, uploadRecords, Stage.pass, bind_assoc, pure_bind, afterwards]
    rfl
  | seedCompaction =>
    simp only [Stage.pass, bind_assoc, pure_bind, afterwards]
    rfl
  | readLatestRevision =>
    simp only [Stage.remaining, Preflight.setCommitted, Stage.pass, bind_assoc, pure_bind,
      afterwards]
    rfl
  | chunkState l d c cs => rfl
  | recordState r rs => rfl
  | setCommitted l => rfl
  | storeNextRevision l => rfl
  | broadcastCommit l => rfl

/-- A bound on the stages that are left, and one on the rounds of the loop in it. -/
def Stage.rank : Stage → ℕ × ℕ
  | .readLocalRevision => (11, 0)
  | .getLatestSnapshot _ => (10, 0)
  | .listChunks _ _ => (9, 0)
  | .chunks _ _ cs => (8, 3 * cs.length)
  | .chunkState _ _ _ cs => (8, 3 * cs.length + 2)
  | .chunkBody _ _ _ cs => (8, 3 * cs.length + 1)
  | .insertInitial _ _ => (7, 0)
  | .listRecords _ => (6, 0)
  | .records rs => (5, 3 * rs.length)
  | .recordState _ rs => (5, 3 * rs.length + 2)
  | .recordBody _ rs => (5, 3 * rs.length + 1)
  | .seedCompaction => (4, 0)
  | .readLatestRevision => (3, 0)
  | .setCommitted _ => (2, 0)
  | .storeNextRevision _ => (1, 0)
  | .broadcastCommit _ => (0, 0)

theorem rank_lt_of_follows (h : stage.Follows (some next)) :
    Prod.Lex (· < ·) (· < ·) next.rank stage.rank := by
  cases h with
  | chunk => exact .right _ (by simp only [List.length_cons]; omega)
  | record => exact .right _ (by simp only [List.length_cons]; omega)
  | chunkState => exact .right _ (by omega)
  | chunkBody => exact .right _ (by omega)
  | recordState => exact .right _ (by omega)
  | recordBody => exact .right _ (by omega)
  | _ => exact .left _ _ (by decide)

theorem returns_of_walks {u : PUnit} (h : Walks env nodeID stage n n') :
    Returns (stage.remaining (unchecked env) nodeID) n u n' := by
  induction h with
  | last h =>
    rw [returns_remaining_iff, returns_bind]
    exact ⟨none, _, h, returns_pure.mpr ⟨rfl, rfl⟩⟩
  | next h _ ih =>
    rw [returns_remaining_iff, returns_bind]
    exact ⟨some _, _, h, ih⟩

theorem walks_of_returns {stage : Stage} {n : Node} {u : PUnit}
    (h : Returns (stage.remaining (unchecked env) nodeID) n u n') :
    Walks env nodeID stage n n' := by
  rw [returns_remaining_iff, returns_bind] at h
  obtain ⟨o, n1, h1, h2⟩ := h
  cases o with
  | none =>
    obtain ⟨-, rfl⟩ := returns_pure.mp h2
    exact .last h1
  | some next => exact .next h1 (walks_of_returns h2)
termination_by stage.rank
decreasing_by exact rank_lt_of_follows (follows_of_returns h1)

/-- **A pass that nothing interrupts** is `runPreflightPass`. -/
theorem walks_iff : Walks env nodeID .readLocalRevision n n' ↔
    Returns (runPreflightPass (unchecked env) nodeID) n PUnit.unit n' := by
  constructor
  · exact returns_of_walks
  · intro h
    have hrest : Returns (Stage.readLocalRevision.remaining (unchecked env) nodeID) n
      PUnit.unit n' := h
    exact walks_of_returns hrest

end Netsy.Primary.PreflightStages
