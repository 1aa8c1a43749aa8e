import Netsy.Datafile.ReadBack

/-! # The round trip of a data file

The callers of the writer differ in the kind of the file and in how they choose its compression.
What each of them writes is read back record by record, and the reader reports the count and the
first and the last revision.

Two files are the exception. The reader takes no header above its limit, and the header carries the
leader's id, on which the writer has none. And both keep the first revision in a number that is 0
until it is set, so a file that begins with revision 0 reports the first revision that is not. -/

namespace Netsy.Datafile.RoundTrip

open Proto Lib.WireFormat Datafile.Messages Datafile.ReadBack Datastore

variable (z : Codec)

/-! ### The callers of the writer -/

/-- The compression of `NewWriter`, which forces none. -/
def defaultCompression : FileKind → FileCompression
  | .snapshot => .zstd
  | .chunk => .none

/-- The compression of `NewWriterWithSmartCompression`. -/
def smartCompression (kind : FileKind) (records : List Record) : FileCompression :=
  match kind with
  | .snapshot => .zstd
  | .chunk => if 4096 < estimatedSize records then .zstd else .none

/-- The loop of the callers: every record is written and the writer is closed. -/
def writeRecords (w : Writer) (records : List Record) : Option Bytes :=
  (records.foldl (Writer.write z) w).close z

/-- `MarshalChunk`, the bytes. -/
def marshalChunkBytes (now : Time) (record : Record) (nodeID : NodeID) : Option Bytes :=
  ((newWriter z now .chunk 1 nodeID (defaultCompression .chunk)).write z record).close z

/-- `MarshalChunkBatch`, the bytes; an empty set of records is refused. -/
def marshalChunkBatchBytes (now : Time) (records : List Record) (nodeID : NodeID) : Option Bytes :=
  if records.length = 0 then none
  else
    writeRecords z
      (newWriter z now .chunk records.length nodeID (smartCompression .chunk records)) records

/-- `recordToProto`: the record of the public package has no checksum. -/
def recordToProto (r : Record) : Record := { r with crc := 0 }

def writeChunk (now : Time) (records : List Record) (leaderID : NodeID) : Option Bytes :=
  let protoRecords := records.map recordToProto
  writeRecords z (newWriter z now .chunk protoRecords.length leaderID
    (smartCompression .chunk protoRecords)) protoRecords

/-- `WriteSnapshot`, uncompressed. -/
def writeSnapshot (now : Time) (records : List Record) (leaderID : NodeID) : Option Bytes :=
  writeRecords z (newWriter z now .snapshot records.length leaderID .none)
    (records.map recordToProto)

/-- The ways to a data file: the writer for a kind with a compression, and its callers. -/
inductive Producer
  | writer (kind : FileKind) (compression : FileCompression)
  | marshalChunk
  | marshalChunkBatch
  | writeChunk
  | writeSnapshot
deriving DecidableEq, Repr

namespace Producer

def kind : Producer → FileKind
  | writer kind _ => kind
  | marshalChunk | marshalChunkBatch | writeChunk => .chunk
  | writeSnapshot => .snapshot

def compression (records : List Record) : Producer → FileCompression
  | writer _ compression => compression
  | marshalChunk => defaultCompression .chunk
  | marshalChunkBatch | writeChunk => smartCompression .chunk records
  | writeSnapshot => .none

/-- `MarshalChunk` takes one record, `MarshalChunkBatch` one or more. -/
def Takes (records : List Record) : Producer → Prop
  | marshalChunk => records.length = 1
  | marshalChunkBatch => records.length ≠ 0
  | writer _ _ | writeChunk | writeSnapshot => True

/-- The bytes that are written. -/
def bytes (now : Time) (records : List Record) (leaderID : NodeID) : Producer → Option Bytes
  | writer kind compression =>
    writeRecords z (newWriter z now kind records.length leaderID compression) records
  | marshalChunk => records.head?.bind fun record => marshalChunkBytes z now record leaderID
  | marshalChunkBatch => marshalChunkBatchBytes z now records leaderID
  | writeChunk => RoundTrip.writeChunk z now records leaderID
  | writeSnapshot => RoundTrip.writeSnapshot z now records leaderID

/-- What the bytes say. -/
def file (p : Producer) (now : Time) (records : List Record) (leaderID : NodeID) : DataFile where
  kind := p.kind
  createdAt := now
  leaderId := leaderID
  compression := p.compression records
  records := records

end Producer

variable {z}
variable {p : Producer} {now : Time} {records : List Record} {leaderID : NodeID} {w : Writer}

theorem writeRecords_recordToProto :
    writeRecords z w (records.map recordToProto) = writeRecords z w records := by
  unfold writeRecords
  rw [List.foldl_map]
  rfl

theorem estimatedSize_recordToProto :
    estimatedSize (records.map recordToProto) = estimatedSize records := by
  unfold estimatedSize
  rw [List.map_map]
  rfl

theorem bytes_eq_writeFile (htakes : p.Takes records) :
    p.bytes z now records leaderID = writeFile z (p.file now records leaderID) := by
  cases p with
  | writer kind compression => rfl
  | marshalChunk =>
    obtain ⟨record, rfl⟩ := List.length_eq_one_iff.mp htakes
    rfl
  | marshalChunkBatch =>
    have hne : ¬ records.length = 0 := htakes
    simp only [Producer.bytes, marshalChunkBatchBytes, if_neg hne]
    rfl
  | writeChunk =>
    simp only [Producer.bytes, writeChunk, writeRecords_recordToProto, List.length_map,
      smartCompression, estimatedSize_recordToProto]
    rfl
  | writeSnapshot =>
    simp only [Producer.bytes, writeSnapshot, writeRecords_recordToProto]
    rfl

/-! ### What the reader reports -/

def firstRevisionOf (records : List Record) : ℤ := (records.head?.map Record.revision).getD 0

def lastRevisionOf (records : List Record) : ℤ := (records.getLast?.map Record.revision).getD 0

theorem lastRevision_tallyOf {t : Tally} :
    (tallyOf t records).lastRevision =
      (records.getLast?.map Record.revision).getD t.lastRevision := by
  induction records generalizing t with
  | nil => rfl
  | cons r rs ih =>
    have hcons : tallyOf t (r :: rs) = tallyOf (t.add r) rs := rfl
    rw [hcons, ih, List.getLast?_cons]
    cases rs.getLast? with
    | none => rfl
    | some a => rfl

theorem firstRevision_tallyOf_of_ne {t : Tally} (hne : t.firstRevision ≠ 0) :
    (tallyOf t records).firstRevision = t.firstRevision := by
  induction records generalizing t with
  | nil => rfl
  | cons r rs ih =>
    have hcons : tallyOf t (r :: rs) = tallyOf (t.add r) rs := rfl
    have hkept : (t.add r).firstRevision = t.firstRevision := if_neg hne
    rw [hcons, ih (hkept ▸ hne), hkept]

theorem firstRevision_tallyOf_eq_zero {t : Tally} (h0 : t.firstRevision = 0) :
    (tallyOf t records).firstRevision = 0 ↔ ∀ r ∈ records, r.revision = 0 := by
  induction records generalizing t with
  | nil => simpa [tallyOf] using h0
  | cons r rs ih =>
    have hcons : tallyOf t (r :: rs) = tallyOf (t.add r) rs := rfl
    have hset : (t.add r).firstRevision = r.revision := if_pos h0
    rw [hcons, List.forall_mem_cons]
    by_cases hr : r.revision = 0
    · rw [ih (hset.trans hr)]
      exact (and_iff_right hr).symm
    · have hne : (t.add r).firstRevision ≠ 0 := hset.trans_ne hr
      rw [firstRevision_tallyOf_of_ne hne]
      exact ⟨fun h => absurd h hne, fun h => absurd h.1 hr⟩

/-- The first revision is not 0, or all of them are. -/
def FirstRevisionSet (records : List Record) : Prop :=
  firstRevisionOf records = 0 → ∀ r ∈ records, r.revision = 0

instance (records : List Record) : Decidable (FirstRevisionSet records) :=
  inferInstanceAs (Decidable (_ → _))

/-- **The first revision reported** is that of the first record exactly if 0 does not hide it. -/
theorem firstRevision_tallyOf_iff :
    (tallyOf {} records).firstRevision = firstRevisionOf records ↔ FirstRevisionSet records := by
  have hzero : (tallyOf {} records).firstRevision = 0 ↔ ∀ r ∈ records, r.revision = 0 :=
    firstRevision_tallyOf_eq_zero rfl
  unfold FirstRevisionSet
  by_cases h0 : firstRevisionOf records = 0
  · rw [h0, hzero]
    exact ⟨fun h _ => h, fun h => h rfl⟩
  · refine iff_of_true ?_ fun h => absurd h h0
    cases records with
    | nil => rfl
    | cons r rs =>
      have hset : (Tally.add {} r).firstRevision = r.revision := rfl
      have hne : (Tally.add {} r).firstRevision ≠ 0 := hset.trans_ne h0
      exact (firstRevision_tallyOf_of_ne hne).trans hset

/-! ### The round trip -/

/-- The bytes are read back: with their own kind the records are returned in order and `Close`
reports them rightly, with another kind the reader fails. -/
structure RoundTrips (z : Codec) (kind : FileKind) (records : List Record) (bs : Bytes) :
    Prop where
  sameKind : readFile z (some (kindNumber kind)) bs = .ok (records.map (stamp z),
    ⟨kindNumber kind, records.length, firstRevisionOf records, lastRevisionOf records⟩)
  otherKind : ∀ other ≠ kind, ∃ e, readFile z (some (kindNumber other)) bs = .error e

theorem kindNumber_injective {k k' : FileKind} (h : kindNumber k = kindNumber k') : k = k' := by
  cases k <;> cases k' <;> first | rfl | exact absurd h (by decide)

theorem readFile_otherKind {f : DataFile} (hf : FileInRange f) {other : FileKind}
    (hne : other ≠ f.kind) {bs : Bytes} (hbs : writeFile z f = some bs) :
    ∃ e, readFile z (some (kindNumber other)) bs = .error e := by
  rw [writeFile_eq, Option.some.injEq] at hbs
  subst hbs
  have hround := unmarshal_marshalHeader (headerInRange (z := z) hf)
  have hread : unmarshalFrom unmarshalHeader
        (delimit (marshalHeader (headerFor z f)) ++ pack z f.compression (messagesOf z f)) =
      if maxSize < headerSize z f then .error (.delim (.sizeTooLarge (headerSize z f)))
      else .ok (⟨headerFor z f, marshalHeader { headerFor z f with crc := 0 }⟩,
        pack z f.compression (messagesOf z f)) :=
    unmarshalFrom_delimit hround (headerSize_lt hf)
  have hkind : kindNumber other ≠ (headerFor z f).kind := fun h => hne (kindNumber_injective h)
  unfold readFile newReader
  rw [hread]
  by_cases hlarge : maxSize < headerSize z f
  · simp [hlarge]
  · simp [hlarge, hkind, Option.filter]

theorem roundTrips_file_iff {f : DataFile} (hf : FileInRange f)
    (hsize : ∀ r ∈ f.records, recordSize z r ≤ maxSize) {bs : Bytes}
    (hbs : writeFile z f = some bs) :
    RoundTrips z f.kind f.records bs ↔
      headerSize z f ≤ maxSize ∧ FirstRevisionSet f.records := by
  constructor
  · intro hround
    have hheader : headerSize z f ≤ maxSize := by
      by_contra hlarge
      obtain ⟨e, he⟩ := readFile_of_not_fits hf (fun hfits => hlarge hfits.1) hbs
      have hok := hround.sameKind
      rw [he] at hok
      exact nomatch hok
    have hread := readFile_of_fits hf ⟨hheader, hsize⟩ hbs
    have hresults : resultsOf f = _ :=
      congrArg Prod.snd (Except.ok.inj (hread.symm.trans hround.sameKind))
    exact ⟨hheader, firstRevision_tallyOf_iff.mp (congrArg ReadResults.firstRevision hresults)⟩
  · rintro ⟨hheader, hset⟩
    have hlast : (tallyOf {} f.records).lastRevision = lastRevisionOf f.records :=
      lastRevision_tallyOf
    refine ⟨?_, fun other hne => readFile_otherKind hf hne hbs⟩
    rw [readFile_of_fits hf ⟨hheader, hsize⟩ hbs, resultsOf,
      firstRevision_tallyOf_iff.mpr hset, hlast]

/-- **The round trip of a data file.** What a caller of the writer writes is read back, and `Close`
reports it rightly, exactly if the header keeps to the limit of the reader and the first revision
is not a 0 before others. -/
theorem producer_roundTrips_iff (z : Codec) (p : Producer) (now : Time) (records : List Record)
    (leaderID : NodeID) (htakes : p.Takes records)
    (hrange : FileInRange (p.file now records leaderID))
    (hsize : ∀ r ∈ records, recordSize z r ≤ maxSize) :
    (∃ bs, p.bytes z now records leaderID = some bs ∧ RoundTrips z p.kind records bs) ↔
      headerSize z (p.file now records leaderID) ≤ maxSize ∧ FirstRevisionSet records := by
  have hbytes : p.bytes z now records leaderID = some _ :=
    (bytes_eq_writeFile htakes).trans writeFile_eq
  constructor
  · rintro ⟨bs, hbs, hround⟩
    obtain rfl := Option.some.inj (hbytes.symm.trans hbs)
    exact (roundTrips_file_iff hrange hsize writeFile_eq).mp hround
  · intro hfits
    exact ⟨_, hbytes, (roundTrips_file_iff hrange hsize writeFile_eq).mpr hfits⟩

/-! ### Two files -/

/-- A record of key `a`. -/
def plainRecord (revision : ℤ) : Record := { revision, key := [97], createRevision := revision }

theorem recordInRange_plainRecord {revision : ℤ} (h : IsInt64 revision) :
    RecordInRange (plainRecord revision) := by
  have hzero : IsInt64 0 := by decide
  have hmem : (utf8 "").length = 0 := by decide
  refine ⟨h, h, hzero, hzero, hzero, hzero, ?_, ?_, ?_, ?_⟩
  · intro x hx
    cases hx
  · intro x hx
    cases hx
  · intro x hx
    cases hx
  · simp [plainRecord, hmem]

theorem recordSize_plainRecord {revision : ℤ} (h : IsInt64 revision) :
    recordSize z (plainRecord revision) ≤ maxSize := by
  have hle := length_marshalRecord_le (recordInRange_stamp (z := z) (recordInRange_plainRecord h))
  refine hle.trans ?_
  have hmem : (utf8 "").length = 0 := by decide
  simp [stamp, plainRecord, hmem, maxSize]

theorem fileInRange_plain {p : Producer} {revisions : List ℤ} (h : ∀ x ∈ revisions, IsInt64 x)
    (hcount : revisions.length < 2 ^ 63) (hleader : (utf8 leaderID).length < 2 ^ 63) :
    FileInRange (p.file 0 (revisions.map plainRecord) leaderID) := by
  have htime : IsInt64 ((0 : Time) / nanosPerSecond) := by decide
  refine ⟨htime, hleader, ?_, by simpa [Producer.file] using hcount⟩
  intro r hr
  obtain ⟨x, hx, rfl⟩ := List.mem_map.mp hr
  exact recordInRange_plainRecord (h x hx)

theorem recordSize_plain {revisions : List ℤ} (h : ∀ x ∈ revisions, IsInt64 x) :
    ∀ r ∈ revisions.map plainRecord, recordSize z r ≤ maxSize := by
  intro r hr
  obtain ⟨x, hx, rfl⟩ := List.mem_map.mp hr
  exact recordSize_plainRecord (h x hx)

theorem headerSize_le_of_short {f : DataFile} (hf : FileInRange f)
    (hleader : (utf8 f.leaderId).length + 99 ≤ maxSize) : headerSize z f ≤ maxSize :=
  (length_marshalHeader_le (headerInRange hf)).trans hleader

theorem producer_roundTrips_iff_empty_and_two :
    (∃ bs, Producer.writeSnapshot.bytes default 0 [] "n1" = some bs ∧
        RoundTrips default .snapshot [] bs) ∧
      ∃ bs, Producer.marshalChunkBatch.bytes default 0 ([3, 4].map plainRecord) "n1" = some bs ∧
        RoundTrips default .chunk ([3, 4].map plainRecord) bs := by
  have hid : (utf8 "n1").length = 2 := by decide
  have hshort : (utf8 "n1").length + 99 ≤ maxSize := by decide
  have hlt : (utf8 "n1").length < 2 ^ 63 := by omega
  have hempty : FileInRange (Producer.writeSnapshot.file 0 (([] : List ℤ).map plainRecord) "n1") :=
    fileInRange_plain (by decide) (by decide) hlt
  have hrange : FileInRange (Producer.marshalChunkBatch.file 0 ([3, 4].map plainRecord) "n1") :=
    fileInRange_plain (by decide) (by decide) hlt
  exact ⟨(producer_roundTrips_iff default .writeSnapshot 0 [] "n1" trivial hempty (by simp)).mpr
      ⟨headerSize_le_of_short hempty hshort, by decide⟩,
    (producer_roundTrips_iff default .marshalChunkBatch 0 ([3, 4].map plainRecord) "n1"
      (by simp [Producer.Takes]) hrange (recordSize_plain (by decide))).mpr
      ⟨headerSize_le_of_short hrange hshort, by decide⟩⟩

/-- An id of the given length. -/
def longID : ℕ → NodeID
  | 0 => ""
  | n + 1 => longID n ++ "a"

theorem length_utf8_longID (n : ℕ) : (utf8 (longID n)).length = n := by
  induction n with
  | zero => decide
  | succ n ih =>
    have happend : utf8 (longID n ++ "a") = utf8 (longID n) ++ utf8 "a" := by
      simp [utf8, String.toByteArray_append]
    have hone : (utf8 "a").length = 1 := by decide
    rw [longID, happend, List.length_append, ih, hone]

theorem le_headerSize {f : DataFile} (hne : utf8 f.leaderId ≠ []) :
    (utf8 f.leaderId).length < headerSize z f := by
  have hid : (encode (blob 6 (utf8 f.leaderId))).length = sizeOfBytes (utf8 f.leaderId) :=
    length_encode_blob_of_ne (by decide) hne
  unfold sizeOfBytes at hid
  simp only [headerSize, marshalHeader, headerFields, headerFor, fileHeader, encode_append,
    List.length_append]
  omega

theorem not_roundTrips_of_long {bs : Bytes} (hge : maxSize ≤ (utf8 leaderID).length)
    (hlt : (utf8 leaderID).length < 2 ^ 63)
    (hbs : Producer.writeChunk.bytes z 0 ([1].map plainRecord) leaderID = some bs) :
    ¬ RoundTrips z .chunk ([1].map plainRecord) bs := by
  intro hround
  have hrange : FileInRange (Producer.writeChunk.file 0 ([1].map plainRecord) leaderID) :=
    fileInRange_plain (by decide) (by decide) hlt
  have hfile : writeFile z (Producer.writeChunk.file 0 ([1].map plainRecord) leaderID) =
      some bs := (bytes_eq_writeFile (p := .writeChunk) trivial).symm.trans hbs
  have hle := ((roundTrips_file_iff hrange (recordSize_plain (by decide)) hfile).mp hround).1
  have hne : utf8 leaderID ≠ [] := by
    intro h
    rw [h] at hge
    exact absurd hge (by decide)
  have hheader : (utf8 leaderID).length < headerSize z _ :=
    le_headerSize (f := Producer.writeChunk.file 0 ([1].map plainRecord) leaderID) hne
  omega

/-- **Two files that are not read back rightly**: one that begins with revision 0, of which the
reader reports another first revision, and one with an id of 4 MiB, of which it reads nothing. -/
theorem producer_not_roundTrips :
    (∀ bs, Producer.writeChunk.bytes default 0 ([0, 5].map plainRecord) "n1" = some bs →
        ¬ RoundTrips default .chunk ([0, 5].map plainRecord) bs) ∧
      ∀ bs, Producer.writeChunk.bytes default 0 ([1].map plainRecord) (longID maxSize) = some bs →
        ¬ RoundTrips default .chunk ([1].map plainRecord) bs := by
  constructor
  · intro bs hbs hround
    have hrange : FileInRange (Producer.writeChunk.file 0 ([0, 5].map plainRecord) "n1") := by
      have hid : (utf8 "n1").length = 2 := by decide
      exact fileInRange_plain (by decide) (by decide) (by omega)
    have hfile : writeFile default (Producer.writeChunk.file 0 ([0, 5].map plainRecord) "n1") =
        some bs := (bytes_eq_writeFile (p := .writeChunk) trivial).symm.trans hbs
    have hset := ((roundTrips_file_iff hrange (recordSize_plain (by decide)) hfile).mp hround).2
    exact absurd hset (by decide)
  · intro bs hbs
    have hlength := length_utf8_longID maxSize
    have hlt : maxSize < 2 ^ 63 := by decide
    exact not_roundTrips_of_long hlength.ge (hlength.trans_lt hlt) hbs

end Netsy.Datafile.RoundTrip
