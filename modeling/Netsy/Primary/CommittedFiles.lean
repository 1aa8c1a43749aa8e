import Netsy.Datafile.ReadBack
import Netsy.Primary.EtcdTxn

/-! # Committed transactions in data files

A request of at most 4 MiB, the limit of a gRPC server, is accepted and committed, and its record
goes into chunks and snapshots. The record has fields that the request does not have, so it may be
larger than the request, and a file with a record of more than 4 MiB is never read back. -/

namespace Netsy.Primary.CommittedFiles

open Proto Lib.WireFormat Datafile.Messages Datafile.ReadBack
open Datastore LocalDB.Schema LocalDB.Insert Primary.EtcdTxn
open CommonAPI.Range (SortOrder SortTarget)
open Primary.ParseTxn (CompareTarget CompareResult parseTxnRequest)

/-! ### The encoded size of a request -/

def resultNumber : CompareResult → ℕ
  | .equal => 0
  | .greater => 1
  | .less => 2
  | .notEqual => 3

def targetNumber : CompareTarget → ℕ
  | .version => 0
  | .create => 1
  | .mod => 2
  | .value => 3
  | .lease => 4

def sortOrderNumber : SortOrder → ℕ
  | .none => 0
  | .ascend => 1
  | .descend => 2

def sortTargetNumber : SortTarget → ℕ
  | .key => 0
  | .version => 1
  | .create => 2
  | .mod => 3
  | .value => 4

/-- A field of a oneof is there even if it is zero. -/
def targetUnionFields : TargetUnion → List Field
  | .version v => [⟨4, .varint (ofInt v)⟩]
  | .createRevision v => [⟨5, .varint (ofInt v)⟩]
  | .modRevision v => [⟨6, .varint (ofInt v)⟩]
  | .value v => [⟨7, .bytes v⟩]
  | .lease v => [⟨8, .varint (ofInt v)⟩]

def marshalCompare (c : Compare) : Bytes :=
  encode (uint 1 (resultNumber c.result) ++ (uint 2 (targetNumber c.target) ++ (blob 3 c.key ++
    ((c.targetUnion.map targetUnionFields).getD [] ++ blob 64 c.rangeEnd))))

def marshalPut (p : PutRequest) : Bytes :=
  encode (blob 1 p.key ++ (blob 2 p.value ++ (uint 3 (ofInt p.lease) ++ (uint 4 p.prevKv.toNat ++
    (uint 5 p.ignoreValue.toNat ++ uint 6 p.ignoreLease.toNat)))))

def marshalDeleteRange (d : DeleteRangeRequest) : Bytes :=
  encode (blob 1 d.key ++ (blob 2 d.rangeEnd ++ uint 3 d.prevKv.toNat))

def marshalRange (r : RangeRequest) : Bytes :=
  encode (blob 1 r.key ++ (blob 2 (r.rangeEnd.getD []) ++ (uint 3 (ofInt r.limit) ++
    (uint 4 (ofInt r.revision) ++ (uint 5 (sortOrderNumber r.sortOrder) ++
    (uint 6 (sortTargetNumber r.sortTarget) ++ (uint 7 r.serializable.toNat ++
    (uint 8 r.keysOnly.toNat ++ (uint 9 r.countOnly.toNat ++
    (uint 10 (ofInt r.minModRevision) ++ (uint 11 (ofInt r.maxModRevision) ++
    (uint 12 (ofInt r.minCreateRevision) ++ uint 13 (ofInt r.maxCreateRevision)))))))))))))

def marshalOp : RequestOp → Bytes
  | .range r => encode (sub 1 (marshalRange r))
  | .put p => encode (sub 2 (marshalPut p))
  | .deleteRange d => encode (sub 3 (marshalDeleteRange d))
  -- what it holds is not modelled, and `ParseTxnRequest` accepts no such operation
  | .txn => encode (sub 4 (some []))
  | .unset => []

def marshalTxn (r : TxnRequest) : Bytes :=
  encode (r.compare.flatMap (fun c => sub 1 (marshalCompare c)) ++
    (r.success.flatMap (fun op => sub 2 (marshalOp op)) ++
    r.failure.flatMap (fun op => sub 3 (marshalOp op))))

/-- The limit of a gRPC server that is given none. -/
def maxRequestSize : ℕ := 4 * 2 ^ 20

/-! ### Commits and files -/

/-- A request that the server accepted, at any revision of any table and on any node, and the row
that `LeaderTxn` committed for it. -/
structure Commit where
  request : TxnRequest
  size_le : (marshalTxn request).length ≤ maxRequestSize
  record : Record
  parsed : parseTxnRequest request.seen = .ok record
  table : Table
  revision : ℤ
  nodeID : NodeID
  now : Time
  row : Record
  inserted : ∃ table', insertRecord table now { record with revision, leaderId := nodeID } =
    .ok (table', row)

def writeSnapshotFile (now : Time) (records : List Record) (nodeID : NodeID) : DataFile where
  kind := .snapshot
  createdAt := now
  leaderId := nodeID
  compression := .zstd
  records := records.map written

/-- The files that the record goes into. -/
inductive FileOf (row : Record) : DataFile → Prop
  | chunk (now : Time) (nodeID : NodeID) : FileOf row (marshalChunk now row nodeID).2
  | batch {now : Time} {records : List Record} {nodeID : NodeID} {key : ObjectKey} {f : DataFile}
      (hmem : row ∈ records) (h : marshalChunkBatch now records nodeID = some (key, f)) :
      FileOf row f
  | snapshot (now : Time) {records : List Record} (nodeID : NodeID) (hmem : row ∈ records) :
      FileOf row (writeSnapshotFile now records nodeID)

variable {z : Codec} {c : Commit} {f : DataFile} {row : Record} {now : Time} {nodeID : NodeID}

theorem FileOf.mem (h : FileOf row f) : written row ∈ f.records := by
  cases h with
  | chunk now nodeID => exact List.mem_singleton_self _
  | batch hmem h =>
    obtain ⟨last, -, hlast⟩ := Option.map_eq_some_iff.mp h
    obtain ⟨-, rfl⟩ := Prod.mk.inj hlast
    exact List.mem_map_of_mem hmem
  | snapshot now nodeID hmem => exact List.mem_map_of_mem hmem

/-- **What is committed can be read back exactly if it keeps to the limit of the reader**: every
chunk and every snapshot with the record of a request is read without an error and yields the
record if and only if neither the header nor a record of the file has more than 4 MiB. -/
theorem committed_readsBack_iff (hfile : FileOf c.row f) (hrange : FileInRange f) :
    ReadsBack z f c.row ↔ Fits z f :=
  -- the checksum that a record carries so far does not matter
  readsBack_iff_fits (r := written c.row) hrange hfile.mem

/-! ### A create of any size -/

/-- The key `"a"` does not exist. -/
def absentA : Compare where
  target := .mod
  key := [97]
  targetUnion := some (.modRevision 0)

/-- The key `"a"` is to be created. -/
def creates (value : Bytes) : TxnRequest where
  compare := [absentA]
  success := [.put { key := [97], value }]

/-- A time in the year 2023. -/
def someTime : Time := 1700000000 * 1000000000

def createdRow (value : Bytes) : Record where
  revision := 1
  key := [97]
  created := true
  createRevision := 1
  version := 1
  value := value
  createdAt := some someTime
  leaderId := "n1"

theorem parse_creates (value : Bytes) :
    parseTxnRequest (creates value).seen = .ok { key := [97], created := true, value } := rfl

theorem insert_creates (value : Bytes) :
    ∃ table', insertRecord Table.empty someTime
      { key := [97], created := true, value, revision := 1, leaderId := "n1" } =
      .ok (table', createdRow value) := ⟨_, rfl⟩

variable {value : Bytes}

theorem length_marshalCompare_absentA : (marshalCompare absentA).length = 7 := by
  simp [absentA, marshalCompare, encode, uint, blob, Field.encode, Value.encode, Value.wireType,
    targetUnionFields, targetNumber, resultNumber, ofInt, varint_of_lt]

theorem length_marshalPut_le (hne : value ≠ []) (hlt : value.length + 13 < 128 ^ 4) :
    (marshalPut { key := [97], value }).length ≤ value.length + 8 := by
  have hkey : (encode (blob 1 [97])).length = 3 := by
    simp [encode, blob, Field.encode, Value.encode, Value.wireType, varint_of_lt]
  have hvalue := length_encode_blob_of_ne (k := 2) (by decide) hne
  have hsize := sizeOfBytes_le (k := 3) (b := value) (by omega)
  have hfields : marshalPut { key := [97], value } = encode (blob 1 [97] ++ blob 2 value) := by
    simp [marshalPut, uint, ofInt]
  rw [hfields, encode_append, List.length_append]
  omega

theorem length_marshalTxn_creates (hne : value ≠ []) (hlt : value.length + 13 < 128 ^ 4) :
    (marshalTxn (creates value)).length ≤ value.length + 27 := by
  have hput := length_marshalPut_le hne hlt
  have hop : (marshalOp (.put { key := [97], value })).length ≤ value.length + 13 := by
    have hsize := sizeOfBytes_le (k := 3) (b := marshalPut { key := [97], value }) (by omega)
    unfold marshalOp
    dsimp only
    rw [length_encode_sub (by decide)]
    omega
  have hcmp := length_marshalCompare_absentA
  have hsmall := sizeOfBytes_le (k := 0) (b := marshalCompare absentA) (by omega)
  have hsize := sizeOfBytes_le (k := 3) (b := marshalOp (.put { key := [97], value })) (by omega)
  unfold marshalTxn creates
  simp only [List.flatMap_cons, List.flatMap_nil, List.append_nil]
  rw [encode_append, List.length_append, length_encode_sub (by decide),
    length_encode_sub (by decide)]
  omega

theorem recordInRange_createdRow (hlt : value.length + 13 < 128 ^ 4) :
    RecordInRange (createdRow value) := by
  have hutf8 : (utf8 "n1").length = 2 := by decide
  have hzero : IsInt64 0 := by decide
  have hone : IsInt64 1 := by decide
  refine ⟨hone, hone, hzero, hone, hzero, hzero, ?_, ?_, ?_, ?_⟩
  · intro x hx
    cases hx
    decide
  · intro x hx
    cases hx
  · intro x hx
    cases hx
  · simp only [createdRow, hutf8, List.length_singleton]
    omega

def createCommit (value : Bytes) (hne : value ≠ []) (hsize : value.length + 27 ≤ maxRequestSize) :
    Commit where
  request := creates value
  size_le := (length_marshalTxn_creates hne (by unfold maxRequestSize at hsize; omega)).trans hsize
  record := { key := [97], created := true, value }
  parsed := parse_creates value
  table := Table.empty
  revision := 1
  nodeID := "n1"
  now := someTime
  row := createdRow value
  inserted := insert_creates value

def chunkOf (value : Bytes) : DataFile := (marshalChunk someTime (createdRow value) "n1").2

theorem fileInRange_chunkOf (hlt : value.length + 13 < 128 ^ 4) : FileInRange (chunkOf value) := by
  have htime : IsInt64 (someTime / nanosPerSecond) := by decide
  have hleader : (utf8 "n1").length < 2 ^ 63 := by decide
  refine ⟨htime, hleader, ?_, by simp [chunkOf, marshalChunk]⟩
  intro r hr
  obtain rfl := List.mem_singleton.mp hr
  exact recordInRange_createdRow hlt

theorem fileOf_chunkOf : FileOf (createdRow value) (chunkOf value) := .chunk someTime "n1"

theorem committed_readsBack_iff_oneByte :
    ReadsBack default (chunkOf [120]) (createCommit [120] (by decide) (by decide)).row := by
  have hrange : FileInRange (chunkOf [120]) := fileInRange_chunkOf (by decide)
  have hfits : Fits default (chunkOf [120]) := by
    refine fits_of_strings hrange (by decide) fun r hr => ?_
    obtain rfl := List.mem_singleton.mp hr
    decide
  exact (committed_readsBack_iff (c := createCommit [120] (by decide) (by decide))
    fileOf_chunkOf hrange).mpr hfits

/-! ### A create that is too large -/

theorem length_encode_one {k : ℕ} (hk : k < 16) : (encode (uint k 1)).length = 2 := by
  rw [length_encode_uint_of_ne hk one_ne_zero, varint_of_lt (by decide)]
  rfl

theorem le_length_createdAt :
    8 ≤ (encode (timestamp 12 (some (Timestamp.new someTime)))).length := by
  have hseconds : 5 ≤ (varint (ofInt (someTime / nanosPerSecond))).length :=
    le_length_varint (by decide)
  have htime : 6 ≤ (Timestamp.new someTime).marshal.length := by
    unfold Timestamp.marshal timestampFields
    rw [encode_append, List.length_append, List.length_append,
      length_encode_uint_of_ne (by decide) (by decide)]
    simp only [Timestamp.new]
    omega
  have hsize : 0 < (varint (Timestamp.new someTime).marshal.length).length :=
    List.length_pos_iff.mpr varint_ne_nil
  rw [timestamp, Option.map_some, length_encode_sub (by decide), sizeOfBytes]
  omega

/-- The record has the key once where the request has it twice, but it has more besides. -/
theorem le_recordSize_createdRow (hge : 128 ^ 3 ≤ value.length) :
    value.length + 28 ≤ recordSize z (createdRow value) := by
  have hne : value ≠ [] := by
    rintro rfl
    simp at hge
  have hint : ofInt 1 = 1 := by decide
  have hkey : (encode (blob 3 [97])).length = 3 := by
    simp [length_encode_blob_of_ne, sizeOfBytes, varint_of_lt]
  have hvalue : value.length + 5 ≤ (encode (blob 11 value)).length := by
    have := le_length_varint hge
    rw [length_encode_blob_of_ne (by decide) hne, sizeOfBytes]
    omega
  have hleader : (encode (blob 14 (utf8 "n1"))).length = 4 := by
    have hutf8 : utf8 "n1" = [110, 49] := by decide
    simp [hutf8, length_encode_blob_of_ne, sizeOfBytes, varint_of_lt]
  have hcreatedAt := le_length_createdAt
  simp only [recordSize, marshalRecord, recordFields, recordTimes, stamp, createdRow,
    Option.map_some, encode_append,
    List.length_append, hint, Bool.toNat_true, length_encode_one (k := 2) (by decide),
    length_encode_one (k := 4) (by decide), length_encode_one (k := 6) (by decide),
    length_encode_one (k := 8) (by decide), hkey, hleader]
  omega

/-- A value with which the request has just the size that is allowed. -/
def largeValue : Bytes := List.replicate (maxRequestSize - 27) 0

theorem length_largeValue : largeValue.length = 4194277 := List.length_replicate

theorem largeValue_ne_nil : largeValue ≠ [] := by
  intro h
  have := length_largeValue
  rw [h] at this
  cases this

/-- **A committed transaction is lost to recovery**: the request has no more than 4 MiB, it is
accepted and its record is inserted, and the chunk with the record is never read. -/
theorem committed_not_readsBack :
    ∃ c : Commit, FileOf c.row (chunkOf largeValue) ∧ FileInRange (chunkOf largeValue) ∧
      ∀ z : Codec, ¬ ReadsBack z (chunkOf largeValue) c.row := by
  have hlength := length_largeValue
  have hsize : largeValue.length + 27 ≤ maxRequestSize := by
    unfold maxRequestSize
    omega
  have hrange : FileInRange (chunkOf largeValue) := fileInRange_chunkOf (by omega)
  refine ⟨createCommit largeValue largeValue_ne_nil hsize, fileOf_chunkOf, hrange, ?_⟩
  intro z hread
  have hfits : Fits z (chunkOf largeValue) :=
    (readsBack_iff_fits (r := written (createdRow largeValue)) hrange fileOf_chunkOf.mem).mp hread
  have hle : recordSize z (createdRow largeValue) ≤ maxSize := hfits.2 _ fileOf_chunkOf.mem
  have hge : largeValue.length + 28 ≤ recordSize z (createdRow largeValue) :=
    le_recordSize_createdRow (by omega)
  unfold maxSize at hle
  omega

end Netsy.Primary.CommittedFiles
