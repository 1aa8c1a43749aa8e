import Netsy.Lib.ObjectStore
import Netsy.LocalDB.Replicate
import Mathlib.Algebra.GroupWithZero.Nat
import Mathlib.Data.List.Sort

/-! # Data files in object storage

Chunks and snapshots: their keys, what `MarshalChunk` and `MarshalChunkBatch` write, how they are
listed and imported. A file is modelled by what its bytes say. The checksums are functions of the
rest and are left out, so two files are equal exactly if their bytes are. -/

namespace Netsy.Datastore

open Proto Lib.ObjectStore LocalDB.Schema LocalDB.Replicate

/-- `ChunkKey` and `SnapshotKey`. -/
inductive ObjectKey
  | chunk (revision : ℤ)
  | snapshot (revision : ℤ)
deriving DecidableEq, Repr

inductive FileKind
  | chunk | snapshot
deriving DecidableEq, Repr

inductive FileCompression
  | none | zstd
deriving DecidableEq, Repr

/-- A data file: its header and its records. `damagedAt := some i` is a file whose reading fails
at record `i` (or, after the last record, at the footer). -/
structure DataFile where
  kind : FileKind
  createdAt : Time
  leaderId : String
  compression : FileCompression
  records : List Record
  damagedAt : Option ℕ := none
deriving DecidableEq, Repr

abbrev ObjectStorage := Bucket ObjectKey DataFile

/-! ### Writing -/

/-- `Writer.Write`: the record with the checksum of its contents. -/
def written (r : Record) : Record := { r with crc := 0 }

/-- `MarshalChunk`. The header carries the time of the call. -/
def marshalChunk (now : Time) (record : Record) (nodeID : NodeID) : ObjectKey × DataFile :=
  (.chunk record.revision,
    { kind := .chunk, createdAt := now, leaderId := nodeID, compression := .none,
      records := [written record] })

/-- The estimate of `NewWriterWithSmartCompression`. -/
def estimatedSize (records : List Record) : ℕ :=
  (records.map fun r => r.key.length + r.value.length).sum

/-- `MarshalChunkBatch`; `none` is the error `empty record set`. The key is the last revision. -/
def marshalChunkBatch (now : Time) (records : List Record) (nodeID : NodeID) :
    Option (ObjectKey × DataFile) :=
  records.getLast?.map fun last =>
    (.chunk last.revision,
      { kind := .chunk, createdAt := now, leaderId := nodeID,
        compression := if 4096 < estimatedSize records then .zstd else .none,
        records := records.map written })

/-- The errors of `PutIfAbsent`. -/
inductive PutError
  | upload | readExisting | differentContents
deriving DecidableEq, Repr

/-- `PutIfAbsent`. `getOk` says whether the existing object can be read. -/
def putIfAbsent (b : ObjectStorage) (key : ObjectKey) (data : DataFile) (dv : Delivery)
    (getOk : Bool) : ObjectStorage × Except PutError Unit :=
  match b.putIfMatch key data dv with
  | (b', .ok) => (b', .ok ())
  | (b', .failed) => (b', .error .upload)
  | (b', .precondition) =>
    if !getOk then (b', .error .readExisting)
    else if b'.get key = some data then (b', .ok ())
    else (b', .error .differentContents)

/-! ### Listing -/

def ObjectKey.revision : ObjectKey → ℤ
  | .chunk rev => rev
  | .snapshot rev => rev

def ObjectKey.chunkRevision? : ObjectKey → Option ℤ
  | .chunk rev => some rev
  | .snapshot _ => none

def ObjectKey.snapshotRevision? : ObjectKey → Option ℤ
  | .chunk _ => none
  | .snapshot rev => some rev

/-- `ListChunks`, the revisions in ascending order. -/
def listChunks (b : ObjectStorage) (fromRevision : ℤ) : List ℤ :=
  ((b.objects.filterMap fun o => o.1.chunkRevision?).filter (fromRevision < ·)).insertionSort
    (· ≤ ·)

/-- `ListSnapshots`, the revisions in descending order. -/
def listSnapshots (b : ObjectStorage) : List ℤ :=
  (b.objects.filterMap fun o => o.1.snapshotRevision?).insertionSort (· ≥ ·)

/-- `GetLatestSnapshot`; `none` is `Found: false`. -/
def getLatestSnapshot (b : ObjectStorage) : Option ℤ := (listSnapshots b).head?

/-! ### Importing -/

/-- The errors of `DownloadAndImportFile`. -/
inductive ImportError
  | download | kindMismatch | readRecord (i : ℕ) | replicate (i : ℕ) (e : ReplicateError) | close
deriving DecidableEq, Repr

/-- The loop of `DownloadAndImportFile` from record `i` on. -/
def importRecords (now : Time) (damagedAt : Option ℕ) :
    ℕ → List Record → Table → Table × Except ImportError Unit
  | i, [], t => (t, if damagedAt = some i then .error .close else .ok ())
  | i, r :: rs, t =>
    if damagedAt = some i then (t, .error (.readRecord i))
    else
      match replicateRecord t now r with
      | .error e => (t, .error (.replicate i e))
      | .ok (t', _) => importRecords now damagedAt (i + 1) rs t'

/-- `DownloadAndImportFile`. `getOk` says whether the object can be read. -/
def downloadAndImportFile (now : Time) (t : Table) (b : ObjectStorage) (key : ObjectKey)
    (expectedKind : FileKind) (getOk : Bool) : Table × Except ImportError Unit :=
  match b.get key with
  | none => (t, .error .download)
  | some file =>
    if !getOk then (t, .error .download)
    else if file.kind ≠ expectedKind then (t, .error .kindMismatch)
    else importRecords now file.damagedAt 0 file.records t

/-! ### What is durable -/

/-- The file counts for recovery: it is a chunk or the latest snapshot. -/
def current (b : ObjectStorage) : ObjectKey → Bool
  | .chunk _ => true
  | .snapshot rev => getLatestSnapshot b = some rev

/-- The records in the latest snapshot and in the chunks. -/
def durableRecords (b : ObjectStorage) : List Record :=
  (b.objects.filter fun o => current b o.1).flatMap fun o => o.2.records

variable {b : ObjectStorage} {t t' : Table} {now : Time} {r row : Record} {key : ObjectKey}
  {data : DataFile} {dv : Delivery} {getOk : Bool} {rev : ℤ} {o : ObjectKey × DataFile}

theorem mem_durableRecords :
    r ∈ durableRecords b ↔ ∃ o ∈ b, current b o.1 ∧ r ∈ o.2.records := by
  simp [durableRecords, Bucket.mem_def, and_assoc]

theorem mem_listChunks {fromRevision : ℤ} :
    rev ∈ listChunks b fromRevision ↔ fromRevision < rev ∧ b.Has (.chunk rev) := by
  have hkey : ∀ k : ObjectKey, k.chunkRevision? = some rev ↔ k = .chunk rev := by
    intro k
    cases k <;> simp [ObjectKey.chunkRevision?]
  simp [listChunks, Bucket.Has, hkey, and_comm]

theorem mem_listSnapshots : rev ∈ listSnapshots b ↔ b.Has (.snapshot rev) := by
  have hkey : ∀ k : ObjectKey, k.snapshotRevision? = some rev ↔ k = .snapshot rev := by
    intro k
    cases k <;> simp [ObjectKey.snapshotRevision?]
  simp [listSnapshots, Bucket.Has, hkey]

theorem getLatestSnapshot_eq_some :
    getLatestSnapshot b = some rev ↔
      b.Has (.snapshot rev) ∧ ∀ other, b.Has (.snapshot other) → other ≤ rev := by
  have hsorted : (listSnapshots b).Pairwise (· ≥ ·) := List.pairwise_insertionSort _ _
  have hmem : ∀ x, x ∈ listSnapshots b ↔ b.Has (.snapshot x) := fun x => mem_listSnapshots
  unfold getLatestSnapshot
  cases hl : listSnapshots b with
  | nil =>
    refine iff_of_false (by simp) fun h => ?_
    have := (hmem rev).mpr h.1
    rw [hl] at this
    cases this
  | cons first rest =>
    rw [hl] at hsorted hmem
    have hfirst : ∀ x ∈ rest, x ≤ first := (List.pairwise_cons.mp hsorted).1
    rw [List.head?_cons, Option.some.injEq]
    constructor
    · rintro rfl
      refine ⟨(hmem first).mp List.mem_cons_self, fun other hother => ?_⟩
      rcases List.mem_cons.mp ((hmem other).mpr hother) with rfl | hrest
      · exact le_rfl
      · exact hfirst other hrest
    · rintro ⟨hhas, hmax⟩
      have hle : first ≤ rev := hmax first ((hmem first).mp List.mem_cons_self)
      rcases List.mem_cons.mp ((hmem rev).mpr hhas) with rfl | hrest
      · rfl
      · exact le_antisymm hle (hfirst rev hrest)

theorem getLatestSnapshot_eq_none :
    getLatestSnapshot b = none ↔ ∀ rev, ¬ b.Has (.snapshot rev) := by
  rw [getLatestSnapshot, List.head?_eq_none_iff, List.eq_nil_iff_forall_not_mem]
  exact forall_congr' fun rev => not_congr mem_listSnapshots

theorem getLatestSnapshot_create_chunk :
    getLatestSnapshot (b.create (.chunk rev) data) = getLatestSnapshot b := by
  unfold Bucket.create getLatestSnapshot listSnapshots
  split_ifs <;> simp [ObjectKey.snapshotRevision?]

/-! ### Writing -/

theorem sameRecord_written (row : Record) : SameRecord row (written row) := ⟨rfl, Or.inl rfl⟩

/-- To the store, `PutIfAbsent` is its create-only write. -/
theorem putIfAbsent_fst :
    (putIfAbsent b key data dv getOk).1 = (b.putIfMatch key data dv).1 := by
  unfold putIfAbsent
  split
  · simp [*]
  · simp [*]
  · split_ifs <;> simp [*]

theorem mem_of_putIfAbsent_ok (h : (putIfAbsent b key data dv getOk).2 = .ok ()) :
    (key, data) ∈ (putIfAbsent b key data dv getOk).1 := by
  unfold putIfAbsent at h ⊢
  rcases hp : b.putIfMatch key data dv with ⟨b', _ | _ | _⟩ <;> simp only [hp] at h ⊢
  · have := (Bucket.mem_of_putIfMatch_ok (by rw [hp])).1
    rwa [hp] at this
  · split_ifs at h ⊢ with h1 h2
    exact Bucket.get_eq_some.mp h2
  · cases h

/-! ### Importing -/

theorem importRecords_ok {damagedAt : Option ℕ} {rs : List Record} {i : ℕ}
    (h : importRecords now damagedAt i rs t = (t', .ok ())) :
    (∀ row ∈ t, row ∈ t') ∧
      (∀ r ∈ rs, ∃ row ∈ t', recordsEqualForReplication row r) ∧
      ∀ row ∈ t', row ∈ t ∨ ∃ r ∈ rs, recordsEqualForReplication row r := by
  induction rs generalizing i t with
  | nil =>
    obtain ⟨rfl, -⟩ := Prod.mk.inj h
    exact ⟨fun row hr => hr, by simp, fun row hr => Or.inl hr⟩
  | cons r rs ih =>
    unfold importRecords at h
    split_ifs at h
    · simp at h
    cases hr : replicateRecord t now r with
    | error e => simp [hr] at h
    | ok p =>
      obtain ⟨u, r'⟩ := p
      simp only [hr] at h
      obtain ⟨h1, h2, h3⟩ := ih h
      obtain ⟨he, hm, hkeep, hnew⟩ := replicateRecord_ok hr
      refine ⟨fun row hrow => h1 row (hkeep row hrow), ?_, fun row hrow => ?_⟩
      · intro x hx
        rcases List.mem_cons.mp hx with rfl | hx
        · exact ⟨r', h1 r' hm, he⟩
        · exact h2 x hx
      · rcases h3 row hrow with hrow | ⟨x, hx, hxe⟩
        · rcases hnew row hrow with hrow | rfl
          · exact Or.inl hrow
          · exact Or.inr ⟨r, by simp, he⟩
        · exact Or.inr ⟨x, by simp [hx], hxe⟩

theorem downloadAndImportFile_ok {expectedKind : FileKind}
    (h : downloadAndImportFile now t b key expectedKind getOk = (t', .ok ())) :
    ∃ file, (key, file) ∈ b ∧ (∀ row ∈ t, row ∈ t') ∧
      (∀ r ∈ file.records, ∃ row ∈ t', recordsEqualForReplication row r) ∧
      ∀ row ∈ t', row ∈ t ∨ ∃ r ∈ file.records, recordsEqualForReplication row r := by
  unfold downloadAndImportFile at h
  cases hg : b.get key with
  | none => simp [hg] at h
  | some file =>
    simp only [hg] at h
    split_ifs at h
    · simp at h
    · simp at h
    · exact ⟨file, Bucket.get_eq_some.mp hg, importRecords_ok h⟩

theorem subset_importRecords {damagedAt : Option ℕ} {rs : List Record} {i : ℕ} (hrow : row ∈ t) :
    row ∈ (importRecords now damagedAt i rs t).1 := by
  induction rs generalizing i t with
  | nil => exact hrow
  | cons r rs ih =>
    unfold importRecords
    split_ifs
    · exact hrow
    cases hr : replicateRecord t now r with
    | error e => exact hrow
    | ok p =>
      obtain ⟨-, -, hkeep, -⟩ := replicateRecord_ok hr
      exact ih (hkeep row hrow)

theorem subset_downloadAndImportFile {expectedKind : FileKind} (hrow : row ∈ t) :
    row ∈ (downloadAndImportFile now t b key expectedKind getOk).1 := by
  unfold downloadAndImportFile
  split
  · exact hrow
  · split_ifs
    · exact hrow
    · exact hrow
    · exact subset_importRecords hrow

end Netsy.Datastore
