import Netsy.Snapshot.Restore

/-! # A snapshot and the chunks it replaces

`createSnapshot` writes the rows up to a revision into a snapshot and then deletes the chunks whose
key is not above it. A node that recovers reads the latest snapshot and the chunks above it. The
worker may fail at every step, a request of it may take effect although it reported an error, also
much later, and chunks above the revision are uploaded meanwhile. -/

namespace Netsy.Snapshot.Cleanup

open Proto Lib.ObjectStore Lib.Run Datastore LocalDB.Schema Snapshot.Restore
open LocalDB.Replicate (TimeText selectRecord)

/-! ### The worker -/

/-- `ListChunksForCleanup`, the revisions in ascending order. -/
def listChunksForCleanup (b : ObjectStorage) (upToRevision : ℤ) : List ℤ :=
  ((b.objects.filterMap fun o => o.1.chunkRevision?).filter (· ≤ upToRevision)).insertionSort
    (· ≤ ·)

/-- What `createSnapshot` is about to do. -/
inductive Stage
  | query
  | writeFile (records : List Record)
  | upload (file : DataFile)
  | list
  | delete (chunks : List ℤ)
  | done
deriving DecidableEq, Repr

/-- A request to the store that was not answered. -/
inductive Request
  | putSnapshot (file : DataFile)
  | deleteChunk (revision : ℤ)
deriving DecidableEq, Repr

/-- How a request ends for the worker: it was carried out, it was not, or there is no answer. -/
inductive Outcome
  | ok | failed | unanswered
deriving DecidableEq, Repr

structure State where
  store : ObjectStorage
  stage : Stage := .query
  inflight : List Request := []
deriving DecidableEq

inductive Action
  | query (ok : Bool)
  | writeFile (now : Time) (ok : Bool)
  | upload (outcome : Outcome)
  | list (ok : Bool)
  | delete (outcome : Outcome)
  /-- The process stops. -/
  | stop
  /-- An unanswered request is carried out after all. -/
  | land (i : ℕ)
  /-- A chunk is uploaded, with a create-only write. -/
  | putChunk (revision : ℤ) (file : DataFile)
deriving DecidableEq, Repr

variable (x : TimeText) (db : Table) (upToRevision : ℤ) (nodeID : NodeID)

def carryOut (b : ObjectStorage) : Request → ObjectStorage
  | .putSnapshot file => b.put (.snapshot upToRevision) file
  | .deleteChunk revision => b.delete (.chunk revision)

/-- One step of `createSnapshot` for the revision, or of its environment. -/
def step (s : State) : Action → Option State
  | .query ok =>
    match s.stage with
    | .query =>
      let records := findAllRecordsForSnapshot x db upToRevision
      -- without a record there is no snapshot
      some { s with stage := if ok && records ≠ [] then .writeFile records else .done }
    | _ => none
  | .writeFile now ok =>
    match s.stage with
    | .writeFile records =>
      some { s with stage := if ok then .upload (snapshotFile now records nodeID) else .done }
    | _ => none
  | .upload outcome =>
    match s.stage with
    | .upload file =>
      match outcome with
      | .ok =>
        some { s with store := carryOut upToRevision s.store (.putSnapshot file), stage := .list }
      | .failed => some { s with stage := .done }
      | .unanswered =>
        some { s with stage := .done, inflight := .putSnapshot file :: s.inflight }
    | _ => none
  | .list ok =>
    match s.stage with
    | .list =>
      some { s with
        stage := if ok then .delete (listChunksForCleanup s.store upToRevision) else .done }
    | _ => none
  | .delete outcome =>
    match s.stage with
    | .delete [] => some { s with stage := .done }
    | .delete (chunk :: chunks) =>
      match outcome with
      | .ok =>
        some { s with
          store := carryOut upToRevision s.store (.deleteChunk chunk), stage := .delete chunks }
      | .failed => some { s with stage := .delete chunks }
      | .unanswered =>
        some { s with stage := .delete chunks, inflight := .deleteChunk chunk :: s.inflight }
    | _ => none
  | .stop => some { s with stage := .done }
  | .land i =>
    s.inflight[i]?.map fun request =>
      { s with store := carryOut upToRevision s.store request, inflight := s.inflight.eraseIdx i }
  | .putChunk revision file =>
    if upToRevision < revision then
      some { s with store := s.store.create (.chunk revision) file }
    else none

/-! ### What can be recovered -/

/-- The object counts for recovery: it is the latest snapshot, or a chunk above it. -/
def counts (b : ObjectStorage) : ObjectKey → Bool
  | .snapshot revision => getLatestSnapshot b = some revision
  | .chunk revision => (getLatestSnapshot b).all (· < revision)

/-- The records that can be recovered. -/
def recoverable (b : ObjectStorage) : List Record :=
  (b.objects.filter fun o => counts b o.1).flatMap fun o => o.2.records

/-- A record can still be recovered, up to compaction of its value. -/
def Keeps (b : ObjectStorage) (r : Record) : Prop := ∃ r' ∈ recoverable b, SameRecord r' r

instance (b : ObjectStorage) (r : Record) : Decidable (Keeps b r) :=
  inferInstanceAs (Decidable (∃ r' ∈ recoverable b, SameRecord r' r))

/-- No chunk holds a record above its key. -/
def ChunksKeyed (b : ObjectStorage) : Prop :=
  ∀ o ∈ b, ∀ rev ∈ o.1.chunkRevision?, ∀ r ∈ o.2.records, r.revision ≤ rev

instance (b : ObjectStorage) : Decidable (ChunksKeyed b) :=
  inferInstanceAs (Decidable (∀ o ∈ b.objects, _))

/-- The latest snapshot holds no record above its key. -/
def SnapshotKeyed (b : ObjectStorage) : Prop :=
  ∀ o ∈ b, ∀ rev ∈ o.1.snapshotRevision?, getLatestSnapshot b = some rev →
    ∀ r ∈ o.2.records, r.revision ≤ rev

instance (b : ObjectStorage) : Decidable (SnapshotKeyed b) :=
  inferInstanceAs (Decidable (∀ o ∈ b.objects, _))

/-- The table has every record of the store up to the revision: some row is read as the record. -/
def Complete (b : ObjectStorage) : Prop :=
  ∀ o ∈ b, ∀ r ∈ o.2.records, r.revision ≤ upToRevision →
    ∃ row ∈ db, SameRecord (selectRecord x row) r

instance (b : ObjectStorage) : Decidable (Complete x db upToRevision b) :=
  inferInstanceAs (Decidable (∀ o ∈ b.objects, ∀ r ∈ o.2.records, r.revision ≤ upToRevision →
    ∃ row ∈ db.rows, SameRecord (selectRecord x row) r))

variable {x db upToRevision nodeID}
variable {b b₀ : ObjectStorage} {s s' : State} {a : Action} {as : List Action} {r : Record}
  {o : ObjectKey × DataFile} {file : DataFile} {rev : ℤ} {request : Request}

theorem mem_listChunksForCleanup :
    rev ∈ listChunksForCleanup b upToRevision → rev ≤ upToRevision := by
  intro h
  rw [listChunksForCleanup, List.mem_insertionSort, List.mem_filter] at h
  simpa using h.2

theorem mem_recoverable : r ∈ recoverable b ↔ ∃ o ∈ b, counts b o.1 = true ∧ r ∈ o.2.records := by
  simp [recoverable, Bucket.mem_def, and_assoc]

theorem counts_snapshot : counts b (.snapshot rev) = true ↔ getLatestSnapshot b = some rev := by
  simp [counts]

theorem counts_chunk :
    counts b (.chunk rev) = true ↔ ∀ latest, getLatestSnapshot b = some latest → latest < rev := by
  unfold counts
  cases getLatestSnapshot b <;> simp

/-! ### What a step leaves -/

/-- The file holds the rows up to the revision. -/
def Covers (x : TimeText) (db : Table) (upToRevision : ℤ) (file : DataFile) : Prop :=
  file.records = findAllRecordsForSnapshot x db upToRevision

/-- The snapshot of the revision is in the store. -/
def Covered (x : TimeText) (db : Table) (upToRevision : ℤ) (b : ObjectStorage) : Prop :=
  ∃ file, (.snapshot upToRevision, file) ∈ b ∧ Covers x db upToRevision file

/-- A request may be carried out: it stores the snapshot, or it deletes a chunk that the snapshot
covers. -/
def Harmless (x : TimeText) (db : Table) (upToRevision : ℤ) (b : ObjectStorage) :
    Request → Prop
  | .putSnapshot file => Covers x db upToRevision file
  | .deleteChunk rev => rev ≤ upToRevision ∧ Covered x db upToRevision b

/-- **What holds of the store after any steps**: the chunks above the revision and the other
snapshots are there as before, and either the snapshot of the revision is there or nothing has
happened yet. -/
structure Intact (x : TimeText) (db : Table) (upToRevision : ℤ) (b₀ b : ObjectStorage) : Prop where
  chunks : ∀ rev file, upToRevision < rev → (.chunk rev, file) ∈ b₀ → (.chunk rev, file) ∈ b
  snapshots : ∀ rev file, rev ≠ upToRevision →
    ((.snapshot rev, file) ∈ b ↔ (.snapshot rev, file) ∈ b₀)
  covered : Covered x db upToRevision b ∨
    ((∀ o ∈ b₀, o ∈ b) ∧ ∀ file, (.snapshot upToRevision, file) ∈ b →
      (.snapshot upToRevision, file) ∈ b₀)

/-- What the worker has in hand agrees with the store. -/
def StageOk (x : TimeText) (db : Table) (upToRevision : ℤ) (b : ObjectStorage) : Stage → Prop
  | .writeFile records => records = findAllRecordsForSnapshot x db upToRevision
  | .upload file => Covers x db upToRevision file
  | .list => Covered x db upToRevision b
  | .delete chunks => Covered x db upToRevision b ∧ ∀ rev ∈ chunks, rev ≤ upToRevision
  | .query | .done => True

structure Inv (x : TimeText) (db : Table) (upToRevision : ℤ) (b₀ : ObjectStorage) (s : State) :
    Prop where
  intact : Intact x db upToRevision b₀ s.store
  stage : StageOk x db upToRevision s.store s.stage
  inflight : ∀ request ∈ s.inflight, Harmless x db upToRevision s.store request

theorem Intact.refl (b : ObjectStorage) : Intact x db upToRevision b b :=
  ⟨fun _ _ _ h => h, fun _ _ _ => Iff.rfl, Or.inr ⟨fun _ h => h, fun _ h => h⟩⟩

theorem Intact.carryOut (h : Intact x db upToRevision b₀ b)
    (hreq : Harmless x db upToRevision b request) :
    Intact x db upToRevision b₀ (carryOut upToRevision b request) ∧
      Covered x db upToRevision (Cleanup.carryOut upToRevision b request) := by
  cases request with
  | putSnapshot file =>
    have hcovered : Covered x db upToRevision (b.put (.snapshot upToRevision) file) :=
      ⟨file, Bucket.mem_put.mpr (Or.inl rfl), hreq⟩
    refine ⟨⟨fun rev f hlt hf => ?_, fun rev f hne => ?_, Or.inl hcovered⟩, hcovered⟩
    · exact Bucket.mem_put.mpr (Or.inr ⟨h.chunks rev f hlt hf, by simp⟩)
    · have hkey : ObjectKey.snapshot rev ≠ .snapshot upToRevision := by simpa using hne
      rw [Cleanup.carryOut, Bucket.mem_put, ← h.snapshots rev f hne]
      simp [hkey]
  | deleteChunk chunk =>
    obtain ⟨hle, file, hmem, hcovers⟩ := hreq
    have hcovered : Covered x db upToRevision (b.delete (.chunk chunk)) :=
      ⟨file, Bucket.mem_delete.mpr ⟨hmem, by simp⟩, hcovers⟩
    refine ⟨⟨fun rev f hlt hf => ?_, fun rev f hne => ?_, Or.inl hcovered⟩, hcovered⟩
    · have hkey : rev ≠ chunk := by omega
      exact Bucket.mem_delete.mpr ⟨h.chunks rev f hlt hf, by simpa using hkey⟩
    · rw [Cleanup.carryOut, Bucket.mem_delete, ← h.snapshots rev f hne]
      simp

theorem Intact.create (h : Intact x db upToRevision b₀ b) :
    Intact x db upToRevision b₀ (b.create (.chunk rev) file) := by
  have hsnapshot : ∀ x f, (ObjectKey.snapshot x, f) ∈ b.create (.chunk rev) file ↔
      (.snapshot x, f) ∈ b := by
    intro x f
    simp [Bucket.mem_create]
  refine ⟨fun x f hlt hf => Bucket.mem_create_of_mem (h.chunks x f hlt hf), fun x f hne => ?_, ?_⟩
  · rw [hsnapshot, h.snapshots x f hne]
  · rcases h.covered with ⟨f, hf, hcovers⟩ | ⟨hall, hsame⟩
    · exact Or.inl ⟨f, (hsnapshot _ _).mpr hf, hcovers⟩
    · exact Or.inr ⟨fun o ho => Bucket.mem_create_of_mem (hall o ho),
        fun f hf => hsame f ((hsnapshot _ _).mp hf)⟩

theorem Covered.create (h : Covered x db upToRevision b) :
    Covered x db upToRevision (b.create (.chunk rev) file) := by
  obtain ⟨f, hf, hcovers⟩ := h
  exact ⟨f, Bucket.mem_create_of_mem hf, hcovers⟩

theorem Harmless.mono (h : Harmless x db upToRevision b request)
    (hcovered : Covered x db upToRevision b → Covered x db upToRevision b₀) :
    Harmless x db upToRevision b₀ request := by
  cases request with
  | putSnapshot file => exact h
  | deleteChunk rev => exact ⟨h.1, hcovered h.2⟩

theorem StageOk.mono {stage : Stage} (h : StageOk x db upToRevision b stage)
    (hcovered : Covered x db upToRevision b → Covered x db upToRevision b₀) :
    StageOk x db upToRevision b₀ stage := by
  cases stage with
  | query => trivial
  | writeFile records => exact h
  | upload file => exact h
  | list => exact hcovered h
  | delete chunks => exact ⟨hcovered h.1, h.2⟩
  | done => trivial

theorem Inv.goTo (hi : Inv x db upToRevision b₀ s) {stage : Stage}
    (hstage : StageOk x db upToRevision s.store stage) :
    Inv x db upToRevision b₀ { s with stage := stage } :=
  ⟨hi.intact, hstage, hi.inflight⟩

theorem Inv.send (hi : Inv x db upToRevision b₀ s)
    (hreq : Harmless x db upToRevision s.store request) :
    Inv x db upToRevision b₀ { s with inflight := request :: s.inflight } :=
  ⟨hi.intact, hi.stage, List.forall_mem_cons.mpr ⟨hreq, hi.inflight⟩⟩

/-- A harmless request is carried out. From then on the store is covered, so that whatever was
harmless stays so. -/
theorem Inv.carryOut (hi : Inv x db upToRevision b₀ s)
    (hreq : Harmless x db upToRevision s.store request) :
    Inv x db upToRevision b₀ { s with store := carryOut upToRevision s.store request } ∧
      Covered x db upToRevision (Cleanup.carryOut upToRevision s.store request) := by
  obtain ⟨hintact, hcovered⟩ := hi.intact.carryOut hreq
  exact ⟨⟨hintact, hi.stage.mono fun _ => hcovered,
    fun other ho => (hi.inflight other ho).mono fun _ => hcovered⟩, hcovered⟩

theorem inv_upload {outcome : Outcome} (hi : Inv x db upToRevision b₀ s)
    (h : step x db upToRevision nodeID s (.upload outcome) = some s') :
    Inv x db upToRevision b₀ s' := by
  cases hs : s.stage with
  | upload file =>
    have hreq : Harmless x db upToRevision s.store (.putSnapshot file) := by
      have hstage := hi.stage
      rwa [hs] at hstage
    cases outcome with
    | ok =>
      simp only [step, hs, Option.some.injEq] at h
      subst h
      obtain ⟨hnext, hcovered⟩ := hi.carryOut hreq
      exact hnext.goTo hcovered
    | failed =>
      simp only [step, hs, Option.some.injEq] at h
      subst h
      exact hi.goTo trivial
    | unanswered =>
      simp only [step, hs, Option.some.injEq] at h
      subst h
      exact (hi.send hreq).goTo trivial
  | _ => simp [step, hs] at h

theorem inv_delete {outcome : Outcome} (hi : Inv x db upToRevision b₀ s)
    (h : step x db upToRevision nodeID s (.delete outcome) = some s') :
    Inv x db upToRevision b₀ s' := by
  cases hs : s.stage with
  | delete chunks =>
    have hstage := hi.stage
    rw [hs] at hstage
    obtain ⟨hcovered, hle⟩ := hstage
    cases chunks with
    | nil =>
      simp only [step, hs, Option.some.injEq] at h
      subst h
      exact hi.goTo trivial
    | cons chunk chunks =>
      obtain ⟨hchunk, hchunks⟩ := List.forall_mem_cons.mp hle
      have hreq : Harmless x db upToRevision s.store (.deleteChunk chunk) := ⟨hchunk, hcovered⟩
      cases outcome with
      | ok =>
        simp only [step, hs, Option.some.injEq] at h
        subst h
        obtain ⟨hnext, hnow⟩ := hi.carryOut hreq
        exact hnext.goTo ⟨hnow, hchunks⟩
      | failed =>
        simp only [step, hs, Option.some.injEq] at h
        subst h
        exact hi.goTo ⟨hcovered, hchunks⟩
      | unanswered =>
        simp only [step, hs, Option.some.injEq] at h
        subst h
        exact (hi.send hreq).goTo ⟨hcovered, hchunks⟩
  | _ => simp [step, hs] at h

theorem inv_step (hi : Inv x db upToRevision b₀ s)
    (h : step x db upToRevision nodeID s a = some s') : Inv x db upToRevision b₀ s' := by
  have hstage := hi.stage
  cases a with
  | query ok =>
    cases hs : s.stage with
    | query =>
      simp only [step, hs, Option.some.injEq] at h
      subst h
      refine hi.goTo ?_
      split_ifs
      · rfl
      · trivial
    | _ => simp [step, hs] at h
  | writeFile now ok =>
    cases hs : s.stage with
    | writeFile records =>
      simp only [step, hs, Option.some.injEq] at h
      rw [hs] at hstage
      subst h
      refine hi.goTo ?_
      split_ifs
      · exact hstage
      · trivial
    | _ => simp [step, hs] at h
  | upload outcome => exact inv_upload hi h
  | list ok =>
    cases hs : s.stage with
    | list =>
      simp only [step, hs, Option.some.injEq] at h
      rw [hs] at hstage
      subst h
      refine hi.goTo ?_
      split_ifs
      · exact ⟨hstage, fun rev => mem_listChunksForCleanup⟩
      · trivial
    | _ => simp [step, hs] at h
  | delete outcome => exact inv_delete hi h
  | stop =>
    simp only [step, Option.some.injEq] at h
    subst h
    exact hi.goTo trivial
  | land i =>
    obtain ⟨request, hr, rfl⟩ := Option.map_eq_some_iff.mp h
    obtain ⟨hnext, -⟩ := hi.carryOut (hi.inflight request (List.mem_of_getElem? hr))
    exact ⟨hnext.intact, hnext.stage, fun other ho =>
      hnext.inflight other (List.mem_of_mem_eraseIdx ho)⟩
  | putChunk revision file =>
    simp only [step] at h
    split_ifs at h
    obtain rfl := Option.some.inj h
    exact ⟨hi.intact.create, hstage.mono Covered.create,
      fun request hr => (hi.inflight request hr).mono Covered.create⟩

/-! ### Nothing is lost -/

theorem Intact.latest_of_covered (h : Intact x db upToRevision b₀ b)
    (hcovered : Covered x db upToRevision b) :
    getLatestSnapshot b = some (max ((getLatestSnapshot b₀).getD upToRevision) upToRevision) := by
  obtain ⟨file, hfile, -⟩ := hcovered
  have hhas : ∀ x, x ≠ upToRevision → (b.Has (.snapshot x) ↔ b₀.Has (.snapshot x)) := by
    intro x hne
    rw [Bucket.has_iff, Bucket.has_iff]
    exact exists_congr fun f => h.snapshots x f hne
  have hnow : b.Has (.snapshot upToRevision) := Bucket.has_iff.mpr ⟨file, hfile⟩
  rw [getLatestSnapshot_eq_some]
  cases hl : getLatestSnapshot b₀ with
  | none =>
    have hnone := getLatestSnapshot_eq_none.mp hl
    rw [Option.getD_none, max_self]
    refine ⟨hnow, fun other hother => ?_⟩
    by_contra hlt
    exact hnone other ((hhas other (by omega)).mp hother)
  | some latest =>
    obtain ⟨hin, hmax⟩ := getLatestSnapshot_eq_some.mp hl
    rw [Option.getD_some]
    constructor
    · rcases le_total latest upToRevision with hle | hle
      · rwa [max_eq_right hle]
      · rw [max_eq_left hle]
        by_cases heq : latest = upToRevision
        · rwa [heq]
        · exact (hhas latest heq).mpr hin
    · intro other hother
      by_cases heq : other = upToRevision
      · omega
      · have := hmax other ((hhas other heq).mp hother)
        omega

theorem Intact.latest_of_same (h : Intact x db upToRevision b₀ b) (hall : ∀ o ∈ b₀, o ∈ b)
    (hsame : ∀ file, (.snapshot upToRevision, file) ∈ b → (.snapshot upToRevision, file) ∈ b₀) :
    getLatestSnapshot b = getLatestSnapshot b₀ := by
  have hhas : ∀ x, b.Has (.snapshot x) ↔ b₀.Has (.snapshot x) := by
    intro x
    rw [Bucket.has_iff, Bucket.has_iff]
    refine exists_congr fun f => ?_
    by_cases heq : x = upToRevision
    · exact ⟨fun hf => heq ▸ hsame f (heq ▸ hf), fun hf => hall _ hf⟩
    · exact h.snapshots x f heq
  ext latest
  simp only [getLatestSnapshot_eq_some, hhas]

theorem keeps_of_covered (hcovered : Covered x db upToRevision b)
    (hlatest : getLatestSnapshot b = some upToRevision) (hle : r.revision ≤ upToRevision)
    (hrow : ∃ row ∈ db, SameRecord (selectRecord x row) r) : Keeps b r := by
  obtain ⟨file, hfile, hcovers⟩ := hcovered
  obtain ⟨row, hrow, hsame⟩ := hrow
  refine ⟨selectRecord x row,
    mem_recoverable.mpr ⟨_, hfile, counts_snapshot.mpr hlatest, ?_⟩, hsame⟩
  have hrev : row.revision = r.revision := hsame.revision_eq
  rw [hcovers]
  exact List.mem_map.mpr ⟨row, List.mem_filter.mpr ⟨hrow, by simpa [hrev] using hle⟩, rfl⟩

/-- A record of the latest snapshot: a later snapshot stays, an earlier one is covered. -/
theorem Intact.keeps_snapshot {latest : ℤ} (h : Intact x db upToRevision b₀ b)
    (hcovered : Covered x db upToRevision b) (hsnapshot : SnapshotKeyed b₀)
    (hdb : Complete x db upToRevision b₀) (hmem : (.snapshot latest, file) ∈ b₀)
    (hl : getLatestSnapshot b₀ = some latest) (hrec : r ∈ file.records) : Keeps b r := by
  have hle : r.revision ≤ latest := hsnapshot _ hmem latest rfl hl r hrec
  have hlatest := h.latest_of_covered hcovered
  rw [hl, Option.getD_some] at hlatest
  by_cases hhigh : upToRevision < latest
  · rw [max_eq_left hhigh.le] at hlatest
    exact ⟨r, mem_recoverable.mpr ⟨_, (h.snapshots latest file (by omega)).mpr hmem,
      counts_snapshot.mpr hlatest, hrec⟩, SameRecord.refl r⟩
  · rw [max_eq_right (by omega)] at hlatest
    exact keeps_of_covered hcovered hlatest (by omega) (hdb _ hmem r hrec (by omega))

/-- A record of a chunk that counts: a chunk above the revision stays and still counts, another one
is covered. -/
theorem Intact.keeps_chunk (h : Intact x db upToRevision b₀ b)
    (hcovered : Covered x db upToRevision b) (hchunks : ChunksKeyed b₀)
    (hdb : Complete x db upToRevision b₀) (hmem : (.chunk rev, file) ∈ b₀)
    (hcounts : counts b₀ (.chunk rev) = true) (hrec : r ∈ file.records) : Keeps b r := by
  have hle : r.revision ≤ rev := hchunks _ hmem rev rfl r hrec
  have hlatest := h.latest_of_covered hcovered
  have hold : (getLatestSnapshot b₀).getD upToRevision < rev ∨
      (getLatestSnapshot b₀).getD upToRevision = upToRevision := by
    cases hl : getLatestSnapshot b₀ with
    | none => exact Or.inr rfl
    | some old => exact Or.inl (counts_chunk.mp hcounts old hl)
  by_cases hhigh : upToRevision < rev
  · refine ⟨r, mem_recoverable.mpr ⟨_, h.chunks rev file hhigh hmem,
      counts_chunk.mpr fun latest hl => ?_, hrec⟩, SameRecord.refl r⟩
    rw [hlatest, Option.some.injEq] at hl
    omega
  · rw [max_eq_right (by omega)] at hlatest
    exact keeps_of_covered hcovered hlatest (by omega) (hdb _ hmem r hrec (by omega))

theorem Intact.keeps (h : Intact x db upToRevision b₀ b) (hchunks : ChunksKeyed b₀)
    (hsnapshot : SnapshotKeyed b₀) (hdb : Complete x db upToRevision b₀)
    (hr : r ∈ recoverable b₀) : Keeps b r := by
  obtain ⟨⟨key, file⟩, hmem, hcounts, hrec⟩ := mem_recoverable.mp hr
  rcases h.covered with hcovered | ⟨hall, hsame⟩
  · cases key with
    | snapshot latest =>
      exact h.keeps_snapshot hcovered hsnapshot hdb hmem (counts_snapshot.mp hcounts) hrec
    | chunk rev => exact h.keeps_chunk hcovered hchunks hdb hmem hcounts hrec
  · have hlatest := h.latest_of_same hall hsame
    refine ⟨r, mem_recoverable.mpr ⟨_, hall _ hmem, ?_, hrec⟩, SameRecord.refl r⟩
    unfold counts at hcounts ⊢
    rw [hlatest]
    exact hcounts

/-- **Snapshot and cleanup lose nothing.** From any store whose chunks and latest snapshot hold no
record above their key, with a table that has every record of the store up to the revision, and
after any steps of the worker, whatever fails or is late, and any uploads of later chunks: every
record that could be recovered still can, up to compaction of its value. -/
theorem createSnapshot_keeps (x : TimeText) (db : Table) (upToRevision : ℤ) (nodeID : NodeID)
    (b₀ : ObjectStorage) (hchunks : ChunksKeyed b₀) (hsnapshot : SnapshotKeyed b₀)
    (hdb : Complete x db upToRevision b₀) (as : List Action) (s : State)
    (hrun : exec (step x db upToRevision nodeID) { store := b₀ } as = some s) :
    ∀ r ∈ recoverable b₀, Keeps s.store r := by
  have hinit : Inv x db upToRevision b₀ { store := b₀ } :=
    ⟨Intact.refl b₀, trivial, fun request hr => absurd hr List.not_mem_nil⟩
  have hmeets : Meets (step x db upToRevision nodeID) (fun _ _ => True) { store := b₀ } as :=
    meets_of_forall fun _ _ => trivial
  have hinv : Inv x db upToRevision b₀ s :=
    exec_invariant (fun s a s' hi _ hs => inv_step hi hs) hinit hmeets hrun
  exact fun r hr => hinv.intact.keeps hchunks hsnapshot hdb hr

/-! ### Runs -/

/-- The record of the revision, in a history of key `a`. -/
def recordOf (revision : ℤ) : Record :=
  { revision := revision, key := [97], created := revision = 1, createRevision := 1
    prevRevision := revision - 1, version := revision }

def fileOf (kind : FileKind) (revisions : List ℤ) : DataFile where
  kind := kind
  createdAt := 0
  leaderId := "n1"
  compression := .none
  records := revisions.map recordOf

/-- The rows 1 to 5. -/
def fiveRows : Table := ⟨[1, 2, 3, 4, 5].map recordOf, by decide, by decide⟩

/-- A snapshot of revision 2, a chunk that ends at 3, one that goes over 4, and one above it. -/
def fourFiles : ObjectStorage where
  objects := [(.snapshot 2, fileOf .snapshot [1, 2]), (.chunk 3, fileOf .chunk [2, 3]),
    (.chunk 5, fileOf .chunk [4, 5]), (.chunk 7, fileOf .chunk [6, 7])]
  nodup := by decide
  inflight := []

/-- All goes well but for the delete, which is carried out after all while a chunk is uploaded. -/
theorem createSnapshot_keeps_fourFiles : ∃ s : State,
    exec (step default fiveRows 4 "n1") { store := fourFiles }
      [.query true, .writeFile 0 true, .upload .ok, .list true, .delete .unanswered,
        .putChunk 8 (fileOf .chunk [8]), .land 0] = some s ∧
    ¬ s.store.Has (.chunk 3) ∧ ∀ r ∈ recoverable fourFiles, Keeps s.store r := by
  obtain ⟨s, hs, hp⟩ := exists_exec_of_any (step default fiveRows 4 "n1") { store := fourFiles }
    [.query true, .writeFile 0 true, .upload .ok, .list true, .delete .unanswered,
      .putChunk 8 (fileOf .chunk [8]), .land 0]
    (fun s => ¬ s.store.Has (.chunk 3)) (by decide +kernel)
  exact ⟨s, hs, hp, createSnapshot_keeps default fiveRows 4 "n1" fourFiles (by decide +kernel)
    (by decide +kernel) (by decide +kernel) _ s hs⟩

/-- A snapshot of revision 3 that holds the record 10. -/
def misplaced : ObjectStorage where
  objects := [(.snapshot 3, fileOf .snapshot [10])]
  nodup := by decide
  inflight := []

/-- **A snapshot whose key is too low loses its records** to the next one. -/
theorem createSnapshot_loses_misplaced : ∃ s : State,
    exec (step default fiveRows 5 "n1") { store := misplaced }
      [.query true, .writeFile 0 true, .upload .ok, .list true, .delete .ok] = some s ∧
    ChunksKeyed misplaced ∧ Complete default fiveRows 5 misplaced ∧
    recordOf 10 ∈ recoverable misplaced ∧ ¬ Keeps s.store (recordOf 10) := by
  obtain ⟨s, hs, hp⟩ := exists_exec_of_any (step default fiveRows 5 "n1") { store := misplaced }
    [.query true, .writeFile 0 true, .upload .ok, .list true, .delete .ok]
    (fun s => ¬ Keeps s.store (recordOf 10)) (by decide +kernel)
  exact ⟨s, hs, by decide +kernel, by decide +kernel, by decide +kernel, hp⟩

end Netsy.Snapshot.Cleanup
