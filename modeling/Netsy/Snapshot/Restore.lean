import Netsy.CommonAPI.CompactedReads
import Netsy.Datafile.Import
import Netsy.Primary.VersionedStore

/-! # A snapshot and what is restored from it

A snapshot is a file of the rows up to a revision. The rows are read from the table, where the times
are texts, written as messages, read back and replayed into an empty table. What comes out is the
table as it was at the revision, but for the time at which a row was replicated. -/

namespace Netsy.Snapshot.Restore

open Proto Lib.SortedList Lib.WireFormat Datafile.Messages
open Datafile.ReadBack Datafile.RoundTrip Datafile.Import
open LocalDB.Schema LocalDB.Insert LocalDB.Replicate LocalDB.Compaction
open LocalDB.Find CommonAPI.RangeQuery CommonAPI.Range
open CommonAPI.CompactedReads (range_congr)
open Datastore (DataFile)
open Primary.VersionedStore (atRevision atRevision_latest)

/-! ### The worker -/

def findAllRecordsForSnapshot (x : TimeText) (t : Table) (upToRevision : ℤ) : List Record :=
  (upTo t upToRevision).map (selectRecord x)

def writeSnapshotFile (z : Codec) (now : Time) (records : List Record) (nodeID : NodeID) :
    Option Bytes :=
  writeRecords z
    (newWriter z now .snapshot records.length nodeID (defaultCompression .snapshot)) records

/-! ### The tables -/

/-- The tables that are built by the functions that write rows. A call that fails leaves the table
as it is. -/
inductive Built : Table → Prop
  | empty : Built Table.empty
  | insertRecord {t t' : Table} {now : Time} {r r' : Record} (h : Built t)
      (hok : insertRecord t now r = .ok (t', r')) : Built t'
  | replicateRecord {t t' : Table} {now : Time} {r r' : Record} (h : Built t)
      (hok : replicateRecord t now r = .ok (t', r')) : Built t'
  | executeCompaction {t : Table} {now : Time} {c : ℤ} (h : Built t) :
      Built (executeCompaction t now c)

/-- The row can go through a file: its numbers are those of Go, its times are in the years that have
a text, and it has at most 4 MiB. -/
structure Storable (z : Codec) (row : Record) : Prop where
  inRange : RecordInRange row
  createdAt : ∀ t ∈ row.createdAt, InYears t
  compactedAt : ∀ t ∈ row.compactedAt, InYears t
  replicatedAt : ∀ t ∈ row.replicatedAt, InYears t
  size : recordSize z row ≤ maxSize

/-- The revisions of the table are exactly 1 to `n`. -/
def Contiguous (t : Table) (n : ℤ) : Prop := ∀ k, (∃ r ∈ t, r.revision = k) ↔ 1 ≤ k ∧ k ≤ n

/-- The revision that a request reads at: its own, or the latest if it has none. -/
def readRevision (t : Table) (req : RangeRequest) : ℤ :=
  if 0 < req.revision then req.revision else t.latestRevision

/-- A row but for the time at which it was replicated. -/
def unreplicated (r : Record) : Record := { r with replicatedAt := none }

/-- **What is to be restored** of the table `t` at the revision. -/
structure Restored (t t' : Table) (revision : ℤ) : Prop where
  rows : t'.rows.map unreplicated = (upTo t revision).map unreplicated
  integrity : t'.verifyIntegrity = true
  compaction : deriveCompactionRevision t' = deriveCompactionRevision (atRevision t revision)
  answers : ∀ (req : RangeRequest) (committed : ℤ), readRevision t req ≤ revision →
    range t' req committed = range t req committed

variable {z : Codec} {x : TimeText} {t t' : Table} {now : Time} {row r r' : Record}
  {revision n : ℤ} {nodeID : NodeID} {req : RangeRequest} {committed : ℤ}

/-! ### The rows of a table -/

theorem replicateRecord_ok_row (h : replicateRecord t now r = .ok (t', r')) :
    r' = replicatedRow now r ∨ r' ∈ t := by
  rcases replicateRecord_cases h with ⟨-, hrow⟩ | ⟨-, hmem, -⟩
  · exact Or.inl hrow
  · exact Or.inr hmem

theorem Built.wellFormed (h : Built t) :
    ∀ row ∈ t, row.revision ≠ 0 ∧ row.key ≠ [] ∧ row.crc = 0 := by
  induction h with
  | empty => exact fun row hrow => absurd hrow List.not_mem_nil
  | @insertRecord t t' now r r' _ hok ih =>
    intro row hrow
    rcases (mem_insertRecord hok).mp hrow with rfl | hrow
    · obtain ⟨hvalid, hrow, -⟩ := insertRecord_ok hok
      simp only [validForInsert, Bool.and_eq_true, decide_eq_true_eq] at hvalid
      rw [hrow]
      simp only [insertedRow]
      refine ⟨?_, ?_, ?_⟩ <;> grind
    · exact ih row hrow
  | @replicateRecord t t' now r r' _ hok ih =>
    intro row hrow
    obtain ⟨-, -, -, hnew⟩ := replicateRecord_ok hok
    have haccepts : Accepts t r := exists_replicateRecord_ok_iff.mp ⟨_, hok⟩
    rcases hnew row hrow with hrow | rfl
    · exact ih row hrow
    · rcases replicateRecord_ok_row hok with rfl | hrow
      · exact ⟨haccepts.1, haccepts.2.1, rfl⟩
      · exact ih row hrow
  | @executeCompaction t now c _ ih =>
    intro row hrow
    obtain ⟨a, ha, hkept⟩ := mem_executeCompaction hrow
    obtain ⟨h0, hk, hcrc⟩ := ih a ha
    refine ⟨hkept.revision_eq ▸ h0, hkept.key_eq ▸ hk, ?_⟩
    rcases hkept with rfl | ⟨-, hkept⟩
    · exact hcrc
    · rw [hkept]
      exact hcrc

theorem selectRecord_eq (h : Storable z row) : selectRecord x row = row := by
  unfold selectRecord
  rw [x.reparse_eq h.createdAt, x.reparse_eq h.compactedAt, x.reparse_eq h.replicatedAt]

theorem findAllRecordsForSnapshot_eq (h : ∀ r ∈ t, Storable z r) :
    findAllRecordsForSnapshot x t revision = upTo t revision := by
  have hid : ∀ r ∈ upTo t revision, selectRecord x r = id r := fun r hr =>
    selectRecord_eq (h r (List.mem_of_mem_filter hr))
  rw [findAllRecordsForSnapshot, List.map_congr_left hid, List.map_id]

/-! ### Contiguous revisions -/

/-- The numbers from 1. -/
def oneTo (m : ℤ) : List ℤ := (List.range m.toNat).map fun i : ℕ => (i : ℤ) + 1

theorem mem_oneTo {m k : ℤ} : k ∈ oneTo m ↔ 1 ≤ k ∧ k ≤ m := by
  simp only [oneTo, List.mem_map, List.mem_range]
  constructor
  · rintro ⟨i, hi, rfl⟩
    omega
  · rintro ⟨h1, hk⟩
    exact ⟨(k - 1).toNat, by omega, by omega⟩

theorem ascending_oneTo (m : ℤ) : Ascending id (oneTo m) := by
  refine List.pairwise_map.mpr (List.pairwise_lt_range.imp fun {a b} hab => ?_)
  simp only [id]
  omega

theorem revisions_upTo (hc : Contiguous t n) (hle : revision ≤ n) :
    (upTo t revision).map Record.revision = oneTo revision := by
  have hasc : Ascending id ((upTo t revision).map Record.revision) :=
    List.pairwise_map.mpr (ascending_filter t.sorted _)
  refine ascending_ext hasc (ascending_oneTo revision) fun k => ?_
  rw [mem_oneTo, List.mem_map]
  constructor
  · rintro ⟨r, hr, rfl⟩
    obtain ⟨hmem, hle'⟩ := List.mem_filter.mp hr
    have := (hc r.revision).mp ⟨r, hmem, rfl⟩
    exact ⟨this.1, by simpa using hle'⟩
  · rintro ⟨h1, hk⟩
    obtain ⟨r, hr, hrev⟩ := (hc k).mpr ⟨h1, by omega⟩
    refine ⟨r, List.mem_filter.mpr ⟨hr, ?_⟩, hrev⟩
    simpa [hrev] using hk

theorem verifyIntegrity_of_revisions {m : ℤ} (h : t.rows.map Record.revision = oneTo m) :
    t.verifyIntegrity = true := by
  have hcount : t.rows.length = m.toNat := by
    have := congrArg List.length h
    simpa [oneTo] using this
  have hlatest : t.latestRevision = ((oneTo m).getLast?).getD 0 := by
    rw [← h, List.getLast?_map]
    rfl
  have hlast : ((oneTo m).getLast?).getD 0 = (m.toNat : ℤ) := by
    unfold oneTo
    cases m.toNat with
    | zero => rfl
    | succ k => simp [List.range_succ]
  unfold Table.verifyIntegrity Table.recordCount
  rw [hlatest, hlast, hcount]
  exact decide_eq_true rfl

/-! ### Tables that differ in what a node puts on its rows -/

/-- The table with bare rows. -/
def bareTable (t : Table) : Table := t.update bare (fun _ => rfl) fun _ => rfl

theorem bareTable_congr (h : t.rows.map bare = t'.rows.map bare) : bareTable t = bareTable t' := by
  unfold bareTable Table.update
  simp only [h]

theorem deriveCompactionRevision_bareTable :
    deriveCompactionRevision (bareTable t) = deriveCompactionRevision t := by
  have hfind : (bareTable t).rows.find? (fun r => r.compactedAt.isNone) =
      (t.rows.find? fun r => r.compactedAt.isNone).map bare := List.find?_map
  have hlatest : (bareTable t).latestRevision = t.latestRevision := by
    simp [Table.latestRevision, bareTable, Table.update, Function.comp_def, bare]
  unfold deriveCompactionRevision
  rw [hfind, hlatest]
  cases t.rows.find? fun r => r.compactedAt.isNone with
  | none => rfl
  | some r => rfl

theorem recordsToKeyValues_bare (rows : List Record) :
    recordsToKeyValues (rows.map bare) = recordsToKeyValues rows := by
  unfold recordsToKeyValues
  rw [List.any_map, List.map_map]
  rfl

theorem range_bareTable : range (bareTable t) req committed = range t req committed := by
  have hmem : ∀ a, a ∈ bareTable t ↔ ∃ b ∈ t, bare b = a := fun a => Table.mem_update
  have hfind : ∀ (w : Where) (limit : ℤ) (order : Order),
      findRecordsBy (bareTable t) w req.revision limit order =
        Prod.map (List.map bare) id (findRecordsBy t w req.revision limit order) := by
    intro w limit order
    refine findRecordsBy_map rfl (selected_of_mem_iff ?_ ?_ ?_ hmem)
    · exact fun b _ => rfl
    · exact fun b _ => rfl
    · exact fun b _ => rfl
  unfold range
  simp only [hfind, Prod.map_fst, Prod.map_snd, id, List.length_map, recordsToKeyValues_bare]

/-! ### The file -/

/-- What the bytes of the snapshot say. -/
def snapshotFile (now : Time) (records : List Record) (nodeID : NodeID) : DataFile where
  kind := .snapshot
  createdAt := now
  leaderId := nodeID
  compression := defaultCompression .snapshot
  records := records

theorem writeSnapshotFile_eq (records : List Record) :
    writeSnapshotFile z now records nodeID = writeFile z (snapshotFile now records nodeID) := rfl

theorem isInt64_of_inYears (h : InYears now) : IsInt64 (now / nanosPerSecond) := by
  have hseconds : ∀ a : ℤ, -62135596800 * 1000000000 ≤ a → a < 253402300800 * 1000000000 →
      IsInt64 (a / 1000000000) := by
    intro a hlower hupper
    unfold IsInt64
    omega
  exact hseconds now h.1 h.2

theorem length_upTo_lt (hc : Contiguous t n) (hle : revision ≤ n)
    (hrows : ∀ r ∈ t, RecordInRange r) : (upTo t revision).length < 2 ^ 63 := by
  have hlength : (upTo t revision).length = revision.toNat := by
    have := congrArg List.length (revisions_upTo hc hle)
    simpa [oneTo] using this
  rw [hlength]
  by_cases hpos : 1 ≤ revision
  · obtain ⟨r, hr, hrev⟩ := (hc revision).mpr ⟨hpos, hle⟩
    have hint := (hrows r hr).revision
    rw [hrev] at hint
    unfold IsInt64 at hint
    omega
  · omega

theorem fileInRange_snapshotFile (hlen : (upTo t revision).length < 2 ^ 63)
    (hrows : ∀ r ∈ t, Storable z r) (hnow : InYears now) (hnode : (utf8 nodeID).length ≤ 32) :
    FileInRange (snapshotFile now (upTo t revision) nodeID) := by
  refine ⟨isInt64_of_inYears hnow, ?_, ?_, ?_⟩
  · have hid : (utf8 (snapshotFile now (upTo t revision) nodeID).leaderId).length ≤ 32 := hnode
    omega
  · exact fun r hr => (hrows r (List.mem_of_mem_filter hr)).inRange
  · exact hlen

theorem importable_stamp (hbuilt : Built t) :
    Importable Table.empty ((upTo t revision).map (stamp z)) := by
  constructor
  · intro r hr
    obtain ⟨row, hrow, rfl⟩ := List.mem_map.mp hr
    obtain ⟨h0, hk, -⟩ := hbuilt.wellFormed row (List.mem_of_mem_filter hrow)
    exact ⟨h0, hk, fun b hb => absurd hb List.not_mem_nil⟩
  · have hboth := (t.sorted.and t.unique).filter fun r => decide (r.revision ≤ revision)
    refine List.pairwise_map.mpr (hboth.imp fun {a b} hab hclash => ?_)
    rcases hclash with hrev | hidx
    · exact absurd hrev hab.1.ne
    · exact absurd hidx hab.2

/-- A replayed record is inserted, whatever is read of its times, or it changes nothing. -/
theorem built_replayRecord (h : Built t) (hok : x.replicateRecord t now r = .ok (t', r')) :
    Built t' := by
  rcases TimeText.replicateRecord_cases hok with ⟨hinsert, -⟩ | ⟨rfl, -⟩
  · obtain ⟨h0, hk, -⟩ := TimeText.exists_replicateRecord_ok_iff.mp ⟨_, hok⟩
    have hplain : replicateRecord t now r = .ok (t', replicatedRow now r) := by
      simp [replicateRecord_eq, h0, hk, hinsert]
    exact h.replicateRecord hplain
  · exact h

theorem built_importAll {clock : ℕ → Time} {i : ℕ} {rs : List Record} (h : Built t) :
    Built (importAll x clock i rs t).1 := by
  induction rs generalizing i t with
  | nil => exact h
  | cons r rs ih =>
    unfold importAll
    cases hr : x.replicateRecord t (clock i) r with
    | error e => exact h
    | ok p => exact ih (built_replayRecord h hr)

theorem map_unreplicated (h : ∀ r ∈ t, r.crc = 0) :
    t.rows.map unreplicated = t.rows.map bare := by
  refine List.map_congr_left fun r hr => ?_
  have hcrc : r.crc = 0 := h r hr
  unfold unreplicated bare
  rw [hcrc]

/-! ### Restoring -/

theorem agreeUpTo_atRevision : AgreeUpTo revision t (atRevision t revision) := by
  simp [AgreeUpTo, upTo, atRevision, List.filter_filter]

theorem range_atRevision (h : readRevision t req ≤ revision) :
    range (atRevision t revision) req committed = range t req committed := by
  unfold readRevision at h
  split_ifs at h with hpos
  · exact range_congr fun w => (selected_congr agreeUpTo_atRevision hpos h).symm
  · rw [atRevision_latest h]

theorem restored_of_rows (hc : Contiguous t n) (hle : revision ≤ n) (hbuilt : Built t)
    (hbuilt' : Built t') (hrows : t'.rows.map bare = (upTo t revision).map bare) :
    Restored t t' revision := by
  have hold : (atRevision t revision).rows = upTo t revision := rfl
  have hsame : bareTable t' = bareTable (atRevision t revision) := bareTable_congr hrows
  refine ⟨?_, ?_, ?_, fun req committed hread => ?_⟩
  · have hcrc : ∀ r ∈ atRevision t revision, r.crc = 0 := fun r hr =>
      (hbuilt.wellFormed r (List.mem_of_mem_filter hr)).2.2
    rw [map_unreplicated fun r hr => (hbuilt'.wellFormed r hr).2.2, hrows, ← hold,
      map_unreplicated hcrc]
  · refine verifyIntegrity_of_revisions (m := revision) ?_
    have hrevs := congrArg (List.map Record.revision) hrows
    rw [List.map_map, List.map_map] at hrevs
    exact hrevs.trans (revisions_upTo hc hle)
  · rw [← deriveCompactionRevision_bareTable, hsame, deriveCompactionRevision_bareTable]
  · rw [← range_bareTable, hsame, range_bareTable, range_atRevision hread]

theorem rows_of_snapshot (x : TimeText) (clock : ℕ → Time) (hbuilt : Built t)
    (hrows : ∀ r ∈ t, Storable z r) (hlen : (upTo t revision).length < 2 ^ 63)
    (hnow : InYears now) (hnode : (utf8 nodeID).length ≤ 32) :
    ∃ bs t', writeSnapshotFile z now (findAllRecordsForSnapshot x t revision) nodeID = some bs ∧
      downloadAndImportFile z x clock Table.empty .snapshot (some bs) = (t', .ok ()) ∧
      Built t' ∧ t'.rows.map bare = (upTo t revision).map bare := by
  have hrange : FileInRange (snapshotFile now (upTo t revision) nodeID) :=
    fileInRange_snapshotFile hlen hrows hnow hnode
  have hfits : Fits z (snapshotFile now (upTo t revision) nodeID) := by
    refine ⟨headerSize_le_of_short hrange ?_, fun r hr => ?_⟩
    · have hid : (utf8 (snapshotFile now (upTo t revision) nodeID).leaderId).length ≤ 32 := hnode
      unfold maxSize
      omega
    · exact (hrows r (List.mem_of_mem_filter hr)).size
  obtain ⟨bs, hbs⟩ : ∃ bs, writeFile z (snapshotFile now (upTo t revision) nodeID) = some bs :=
    ⟨_, writeFile_eq⟩
  have hwritten : writeSnapshotFile z now (findAllRecordsForSnapshot x t revision) nodeID =
      some bs := by
    rw [findAllRecordsForSnapshot_eq hrows, writeSnapshotFile_eq, hbs]
  -- the file is read back, and its records are replayed one after the other
  have hscan : scan z .snapshot (some bs) = ((upTo t revision).map (stamp z), true) :=
    exists_readFile_iff.mp ⟨_, readFile_of_fits hrange hfits hbs⟩
  obtain ⟨htable, hok⟩ := downloadAndImportFile_eq z x clock Table.empty .snapshot (some bs)
  have himportable : Importable Table.empty ((upTo t revision).map (stamp z)) :=
    importable_stamp hbuilt
  rw [hscan] at htable hok
  have hasc : Ascending Record.revision ((upTo t revision).map (stamp z)) :=
    List.pairwise_map.mpr (ascending_filter t.sorted _)
  obtain ⟨hreplayed, hcopies⟩ :
      (importAll x clock 0 ((upTo t revision).map (stamp z)) Table.empty).2 = .ok () ∧ _ :=
    rows_importAll (fun row hrow => absurd hrow List.not_mem_nil) hasc himportable
  refine ⟨_, _, hwritten, Prod.ext htable (hok.mpr ⟨hreplayed, rfl⟩),
    built_importAll Built.empty, ?_⟩
  rw [hcopies, List.map_map]
  rfl

/-- **A snapshot and its import reproduce the table.** For a table with the revisions 1 to `n` that
was built by inserts, replication and compaction, and every revision up to `n`: the snapshot is
written, its import into an empty table succeeds, and the table at that revision is restored. -/
theorem restored_of_snapshot (z : Codec) (x : TimeText) (clock : ℕ → Time) (now : Time)
    (nodeID : NodeID) (t : Table) (n revision : ℤ) (hbuilt : Built t) (hc : Contiguous t n)
    (hrows : ∀ r ∈ t, Storable z r) (hnow : InYears now) (hnode : (utf8 nodeID).length ≤ 32)
    (hle : revision ≤ n) :
    ∃ bs t', writeSnapshotFile z now (findAllRecordsForSnapshot x t revision) nodeID = some bs ∧
      downloadAndImportFile z x clock Table.empty .snapshot (some bs) = (t', .ok ()) ∧
      Restored t t' revision := by
  have hlen := length_upTo_lt hc hle fun r hr => (hrows r hr).inRange
  obtain ⟨bs, t', hwritten, himported, hbuilt', hbare⟩ :=
    rows_of_snapshot x clock hbuilt hrows hlen hnow hnode
  exact ⟨bs, t', hwritten, himported, restored_of_rows hc hle hbuilt hbuilt' hbare⟩

/-! ### A key that was created, updated and compacted -/

def createA : Record :=
  { revision := 1, key := [97], created := true, value := [120], leaderId := "n1" }

def updateA : Record := { revision := 2, key := [97], prevRevision := 1, value := [121],
                          leaderId := "n1" }

def createdA : Table :=
  ⟨[{ createA with createRevision := 1, version := 1, createdAt := some 0 }], by decide, by decide⟩

def updatedA : Table :=
  ⟨[{ createA with createRevision := 1, version := 1, createdAt := some 0 },
    { updateA with createRevision := 1, version := 2, createdAt := some 0 }], by decide, by decide⟩

/-- Revision 1 is compacted. -/
def compactedA : Table := executeCompaction updatedA 0 1

theorem built_compactedA : Built compactedA := by
  have hcreate : insertRecord Table.empty 0 createA = .ok (createdA,
      { createA with createRevision := 1, version := 1, createdAt := some 0 }) := rfl
  have hupdate : insertRecord createdA 0 updateA = .ok (updatedA,
      { updateA with createRevision := 1, version := 2, createdAt := some 0 }) := rfl
  exact ((Built.empty.insertRecord hcreate).insertRecord hupdate).executeCompaction

theorem rows_compactedA : compactedA.rows =
    [{ createA with
        createRevision := 1, version := 1, createdAt := some 0, value := [],
        compactedAt := some 0 },
      { updateA with createRevision := 1, version := 2, createdAt := some 0 }] := rfl

theorem contiguous_compactedA : Contiguous compactedA 2 := by
  intro k
  have hrevision : (∃ r ∈ compactedA, r.revision = k) ↔ k = 1 ∨ k = 2 := by
    simp [Table.mem_def, rows_compactedA, createA, updateA, eq_comm]
  rw [hrevision]
  omega

theorem storable_compactedA : ∀ r ∈ compactedA, Storable z r := by
  have hyears : InYears 0 := by decide
  have hseconds : IsInt64 ((0 : Time) / nanosPerSecond) := by decide
  have hint : ∀ k : ℤ, 0 ≤ k → k ≤ 2 → IsInt64 k := by
    intro k h0 h2
    unfold IsInt64
    omega
  have hid : (utf8 "n1").length = 2 := by decide
  have hsmall : ∀ r : Record, RecordInRange r →
      r.key.length + r.value.length + (utf8 r.leaderId).length + 231 ≤ maxSize →
        recordSize z r ≤ maxSize := fun r hr hle =>
    (length_marshalRecord_le (recordInRange_stamp hr)).trans hle
  intro r hr
  rw [Table.mem_def, rows_compactedA] at hr
  have hrange : RecordInRange r := by
    rcases List.mem_pair.mp hr with rfl | rfl
    all_goals
      refine ⟨hint _ (by decide) (by decide), hint _ (by decide) (by decide),
        hint _ (by decide) (by decide), hint _ (by decide) (by decide),
        hint _ (by decide) (by decide), hint _ (by decide) (by decide), ?_, ?_, ?_, by decide⟩
      all_goals
        intro a ha
        cases ha
        try exact hseconds
  rcases List.mem_pair.mp hr with rfl | rfl
  all_goals
    refine ⟨hrange, ?_, ?_, ?_, hsmall _ hrange (by decide)⟩
    all_goals
      intro a ha
      cases ha
      try exact hyears

theorem restored_of_snapshot_compactedA :
    ∃ bs t',
      writeSnapshotFile default 0 (findAllRecordsForSnapshot default compactedA 1) "n1" = some bs ∧
      downloadAndImportFile default default (fun _ => 0) Table.empty .snapshot (some bs) =
        (t', .ok ()) ∧
      Restored compactedA t' 1 :=
  restored_of_snapshot default default (fun _ => 0) 0 "n1" compactedA 2 1 built_compactedA
    contiguous_compactedA storable_compactedA (by decide) (by decide) (by decide)

end Netsy.Snapshot.Restore
