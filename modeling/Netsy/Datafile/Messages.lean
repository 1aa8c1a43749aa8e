import Netsy.Lib.WireFormat
import Netsy.Proto

/-! # The messages of a data file

A data file is a header, its records and a footer, each one a message. A time is a message of its
own, with the seconds and the nanoseconds of the second.

The checksum of a message is that of the message written again without it. What is written again is
not always what was read: the fields come in the order of their numbers, numbers are cut to their
size, a time that comes twice is one time, and the fields that the message does not know go to the
end. So `unmarshal` gives a message together with these bytes. -/

namespace Netsy.Datafile.Messages

open Proto Lib.WireFormat

/-- `proto.FileHeader`. Both enumerations are open, any `int32` may arrive. -/
structure FileHeader where
  crc : UInt64 := 0
  schemaVersion : UInt32 := 0
  kind : ℤ := 0
  compression : ℤ := 0
  recordsCount : ℤ := 0
  leaderId : String := ""
  createdAt : Option Time := none
deriving DecidableEq, Repr

structure FileFooter where
  recordsCrc : UInt64 := 0
  firstRevision : ℤ := 0
  lastRevision : ℤ := 0
  crc : UInt64 := 0
deriving DecidableEq, Repr

/-- A message that was read, and `proto.Marshal` of its clone with checksum 0. -/
structure Unmarshalled (α : Type) where
  message : α
  body : Bytes
deriving DecidableEq, Repr

/-! ### Strings and times -/

def utf8 (s : String) : Bytes := s.toUTF8.data.toList

/-- A string that is not UTF-8 is refused. -/
def ofUtf8 (b : Bytes) : Option String := String.fromUTF8? ⟨b.toArray⟩

/-- The last string of this number; each of them is checked. -/
def stringOf (number : ℕ) (fs : List Field) : Option String :=
  ((blobs number fs).mapM ofUtf8).map fun ss => ss.getLast?.getD ""

/-- `timestamppb.Timestamp`, with the bytes of the fields that it does not know. -/
structure Timestamp where
  seconds : ℤ := 0
  nanos : ℤ := 0
  unknown : Bytes := []
deriving DecidableEq, Repr

def Timestamp.asTime (t : Timestamp) : Time := t.seconds * nanosPerSecond + t.nanos

def Timestamp.new (t : Time) : Timestamp :=
  { seconds := t / nanosPerSecond, nanos := t % nanosPerSecond }

def timestampFields (t : Timestamp) : List Field :=
  uint 1 (ofInt t.seconds) ++ uint 2 (ofInt t.nanos)

def timestampTypes : List (ℕ × ℕ) := [(1, 0), (2, 0)]

def Timestamp.marshal (t : Timestamp) : Bytes := encode (timestampFields t) ++ t.unknown

/-- The messages are merged: the fields of the later ones come after those of the earlier ones. -/
def unmarshalTimestamp (bs : List Bytes) : Option Timestamp :=
  (bs.mapM decode).map fun rss =>
    { seconds := toInt (uintOf 1 (known rss.flatten))
      nanos := toInt32 (uintOf 2 (known rss.flatten))
      unknown := unknown timestampTypes rss.flatten }

/-- The time of this number, which may be missing. -/
def timestampOf (number : ℕ) (fs : List Field) : Option (Option Timestamp) :=
  if blobs number fs = [] then some none
  else (unmarshalTimestamp (blobs number fs)).map some

/-- A time that may be missing. -/
def timestamp (number : ℕ) (t : Option Timestamp) : List Field :=
  sub number (t.map Timestamp.marshal)

/-! ### Messages -/

/-- The three times of a record. -/
structure RecordTimes where
  createdAt : Option Timestamp := none
  compactedAt : Option Timestamp := none
  replicatedAt : Option Timestamp := none
deriving DecidableEq, Repr

def recordTimes (r : Record) : RecordTimes where
  createdAt := r.createdAt.map Timestamp.new
  compactedAt := r.compactedAt.map Timestamp.new
  replicatedAt := r.replicatedAt.map Timestamp.new

/-- The fields of a record with these times. -/
def recordFields (ts : RecordTimes) (r : Record) : List Field :=
  uint 1 r.crc.toNat ++ (uint 2 (ofInt r.revision) ++ (blob 3 r.key ++ (uint 4 r.created.toNat ++
    (uint 5 r.deleted.toNat ++ (uint 6 (ofInt r.createRevision) ++
    (uint 7 (ofInt r.prevRevision) ++ (uint 8 (ofInt r.version) ++ (uint 9 (ofInt r.lease) ++
    (uint 10 (ofInt r.dek) ++ (blob 11 r.value ++ (timestamp 12 ts.createdAt ++
    (timestamp 13 ts.compactedAt ++ (blob 14 (utf8 r.leaderId) ++
    timestamp 15 ts.replicatedAt)))))))))))))

/-- The numbers of the fields, with 0 for a number and 2 for a string or a message. -/
def recordTypes : List (ℕ × ℕ) :=
  [(1, 0), (2, 0), (3, 2), (4, 0), (5, 0), (6, 0), (7, 0), (8, 0), (9, 0), (10, 0), (11, 2),
    (12, 2), (13, 2), (14, 2), (15, 2)]

/-- `proto.Marshal` of a record. -/
def marshalRecord (r : Record) : Bytes := encode (recordFields (recordTimes r) r)

def recordOf (rs : List RawField) : Option (Unmarshalled Record) := do
  let fs := known rs
  let createdAt ← timestampOf 12 fs
  let compactedAt ← timestampOf 13 fs
  let leaderId ← stringOf 14 fs
  let replicatedAt ← timestampOf 15 fs
  let record : Record := {
    crc := (uintOf 1 fs).toUInt64
    revision := toInt (uintOf 2 fs)
    key := blobOf 3 fs
    created := uintOf 4 fs != 0
    deleted := uintOf 5 fs != 0
    createRevision := toInt (uintOf 6 fs)
    prevRevision := toInt (uintOf 7 fs)
    version := toInt (uintOf 8 fs)
    lease := toInt (uintOf 9 fs)
    dek := toInt (uintOf 10 fs)
    value := blobOf 11 fs
    createdAt := createdAt.map Timestamp.asTime
    compactedAt := compactedAt.map Timestamp.asTime
    leaderId
    replicatedAt := replicatedAt.map Timestamp.asTime }
  return {
    message := record
    body :=
      encode (recordFields { createdAt, compactedAt, replicatedAt } { record with crc := 0 }) ++
        unknown recordTypes rs }

/-- `proto.Unmarshal` of a record. -/
def unmarshalRecord (b : Bytes) : Option (Unmarshalled Record) := (decode b).bind recordOf

/-- The fields of a header with this time. -/
def headerFields (createdAt : Option Timestamp) (h : FileHeader) : List Field :=
  uint 1 h.crc.toNat ++ (uint 2 h.schemaVersion.toNat ++ (uint 3 (ofInt h.kind) ++
    (uint 4 (ofInt h.compression) ++ (uint 5 (ofInt h.recordsCount) ++
    (blob 6 (utf8 h.leaderId) ++ timestamp 7 createdAt)))))

def headerTypes : List (ℕ × ℕ) := [(1, 0), (2, 0), (3, 0), (4, 0), (5, 0), (6, 2), (7, 2)]

def marshalHeader (h : FileHeader) : Bytes :=
  encode (headerFields (h.createdAt.map Timestamp.new) h)

def headerOf (rs : List RawField) : Option (Unmarshalled FileHeader) := do
  let fs := known rs
  let leaderId ← stringOf 6 fs
  let createdAt ← timestampOf 7 fs
  let header : FileHeader := {
    crc := (uintOf 1 fs).toUInt64
    schemaVersion := (uintOf 2 fs).toUInt32
    kind := toInt32 (uintOf 3 fs)
    compression := toInt32 (uintOf 4 fs)
    recordsCount := toInt (uintOf 5 fs)
    leaderId
    createdAt := createdAt.map Timestamp.asTime }
  return {
    message := header
    body := encode (headerFields createdAt { header with crc := 0 }) ++ unknown headerTypes rs }

def unmarshalHeader (b : Bytes) : Option (Unmarshalled FileHeader) := (decode b).bind headerOf

def footerFields (f : FileFooter) : List Field :=
  uint 2 f.recordsCrc.toNat ++ (uint 3 (ofInt f.firstRevision) ++ (uint 4 (ofInt f.lastRevision) ++
    uint 8 f.crc.toNat))

def footerTypes : List (ℕ × ℕ) := [(2, 0), (3, 0), (4, 0), (8, 0)]

def marshalFooter (f : FileFooter) : Bytes := encode (footerFields f)

def footerOf (rs : List RawField) : Unmarshalled FileFooter :=
  let fs := known rs
  let footer : FileFooter := {
    recordsCrc := (uintOf 2 fs).toUInt64
    firstRevision := toInt (uintOf 3 fs)
    lastRevision := toInt (uintOf 4 fs)
    crc := (uintOf 8 fs).toUInt64 }
  { message := footer
    body := encode (footerFields { footer with crc := 0 }) ++ unknown footerTypes rs }

def unmarshalFooter (b : Bytes) : Option (Unmarshalled FileFooter) := (decode b).map footerOf

/-! ### What the fields of Go hold -/

/-- The seconds are an `int64`. -/
def IsTime (t : Option Time) : Prop := ∀ x ∈ t, IsInt64 (x / nanosPerSecond)

/-- The numbers are `int64`s, and the strings are in memory at one time. -/
structure RecordInRange (r : Record) : Prop where
  revision : IsInt64 r.revision
  createRevision : IsInt64 r.createRevision
  prevRevision : IsInt64 r.prevRevision
  version : IsInt64 r.version
  lease : IsInt64 r.lease
  dek : IsInt64 r.dek
  createdAt : IsTime r.createdAt
  compactedAt : IsTime r.compactedAt
  replicatedAt : IsTime r.replicatedAt
  inMemory : r.key.length + r.value.length + (utf8 r.leaderId).length < 2 ^ 63

structure HeaderInRange (h : FileHeader) : Prop where
  kind : IsInt32 h.kind
  compression : IsInt32 h.compression
  recordsCount : IsInt64 h.recordsCount
  createdAt : IsTime h.createdAt
  inMemory : (utf8 h.leaderId).length < 2 ^ 63

structure FooterInRange (f : FileFooter) : Prop where
  firstRevision : IsInt64 f.firstRevision
  lastRevision : IsInt64 f.lastRevision

/-! ### Strings and times are read back -/

variable {s : String} {t : Time} {o : Option Time} {k : ℕ} {r : Record} {h : FileHeader}
  {f : FileFooter} {fs : List Field}

theorem ofUtf8_utf8 : ofUtf8 (utf8 s) = some s := by
  have hvalid : s.toByteArray.IsValidUTF8 := s.isValidUTF8
  simp [ofUtf8, utf8, String.fromUTF8?, String.fromUTF8, hvalid]

theorem eq_empty_of_utf8 (hs : utf8 s = []) : s = "" := by
  have hround := ofUtf8_utf8 (s := s)
  rw [hs] at hround
  have hempty := ofUtf8_utf8 (s := "")
  exact Option.some.inj (hround.symm.trans hempty)

theorem stringOf_of_blobs (hblobs : blobs k fs = if utf8 s = [] then [] else [utf8 s]) :
    stringOf k fs = some s := by
  unfold stringOf
  rw [hblobs]
  split_ifs with hs
  · rw [eq_empty_of_utf8 hs]
    rfl
  · simp [ofUtf8_utf8]

theorem asTime_new : (Timestamp.new t).asTime = t := Int.ediv_mul_add_emod t nanosPerSecond

theorem asTime_comp_new : Timestamp.asTime ∘ Timestamp.new = id := funext fun _ => asTime_new

theorem allFit_timestampFields {ts : Timestamp} : AllFit (timestampFields ts) :=
  (allFit_uint (by decide) ofInt_lt).append (allFit_uint (by decide) ofInt_lt)

theorem unmarshal_marshalTimestamp (ht : IsInt64 (t / nanosPerSecond)) :
    unmarshalTimestamp [(Timestamp.new t).marshal] = some (Timestamp.new t) := by
  have hnanos : IsInt32 (t % nanosPerSecond) := by
    unfold IsInt32 nanosPerSecond
    omega
  have hunknown : unknown timestampTypes ((timestampFields (Timestamp.new t)).map Field.raw) = [] :=
    unknown_raw ((typed_uint (by decide)).append (typed_uint (by decide)))
  have hmarshal : (Timestamp.new t).marshal = encode (timestampFields (Timestamp.new t)) :=
    List.append_nil _
  have hdecode : [(Timestamp.new t).marshal].mapM decode =
      some [(timestampFields (Timestamp.new t)).map Field.raw] := by
    simp [hmarshal, decode_encode allFit_timestampFields]
  unfold unmarshalTimestamp
  rw [hdecode, Option.map_some, List.flatten_singleton, hunknown, known_raw]
  simp [timestampFields, Timestamp.new, uintOf, toInt_ofInt ht, toInt32_ofInt hnanos]

theorem length_marshalTimestamp_le : (Timestamp.new t).marshal.length ≤ 22 := by
  have h1 := length_encode_uint_le (k := 1) (by decide) (ofInt_lt (x := t / nanosPerSecond))
  have h2 := length_encode_uint_le (k := 2) (by decide) (ofInt_lt (x := t % nanosPerSecond))
  unfold Timestamp.marshal timestampFields
  rw [encode_append]
  simp only [Timestamp.new, List.append_nil, List.length_append]
  omega

theorem allFit_timestamp (hk : 0 < k ∧ k < 2 ^ 29) :
    AllFit (timestamp k (o.map Timestamp.new)) := by
  apply allFit_sub hk
  intro b hb
  rw [Option.map_map] at hb
  obtain ⟨t, -, rfl⟩ := Option.map_eq_some_iff.mp hb
  have := length_marshalTimestamp_le (t := t)
  exact lt_of_le_of_lt this (by decide)

theorem timestampOf_of_blobs (ho : IsTime o)
    (hblobs : blobs k fs = ((o.map Timestamp.new).map Timestamp.marshal).toList) :
    timestampOf k fs = some (o.map Timestamp.new) := by
  unfold timestampOf
  rw [hblobs]
  cases o with
  | none => rfl
  | some t => simp [unmarshal_marshalTimestamp (ho t rfl)]

theorem length_encode_timestamp_le (hk : k < 16) :
    (encode (timestamp k (o.map Timestamp.new))).length ≤ 33 := by
  cases o with
  | none => simp [timestamp, sub, encode]
  | some t =>
    have hlen := length_marshalTimestamp_le (t := t)
    have hvarint := length_varint_le_ten (n := (Timestamp.new t).marshal.length) (by omega)
    have hsub : timestamp k ((some t).map Timestamp.new) =
        [⟨k, .bytes (Timestamp.new t).marshal⟩] := rfl
    rw [hsub, length_encode_bytes hk, sizeOfBytes]
    omega

/-! ### Messages are read back -/

theorem toNat_bool_lt (b : Bool) : b.toNat < 2 ^ 64 := by
  cases b <;> decide

theorem allFit_recordFields (hr : RecordInRange r) : AllFit (recordFields (recordTimes r) r) := by
  have hmem := hr.inMemory
  unfold recordFields
  refine .append (allFit_uint (by decide) r.crc.toNat_lt) ?_
  refine .append (allFit_uint (by decide) ofInt_lt) ?_
  refine .append (allFit_blob (by decide) (by omega)) ?_
  refine .append (allFit_uint (by decide) (toNat_bool_lt _)) ?_
  refine .append (allFit_uint (by decide) (toNat_bool_lt _)) ?_
  refine .append (allFit_uint (by decide) ofInt_lt) ?_
  refine .append (allFit_uint (by decide) ofInt_lt) ?_
  refine .append (allFit_uint (by decide) ofInt_lt) ?_
  refine .append (allFit_uint (by decide) ofInt_lt) ?_
  refine .append (allFit_uint (by decide) ofInt_lt) ?_
  refine .append (allFit_blob (by decide) (by omega)) ?_
  refine .append (allFit_timestamp (by decide)) ?_
  refine .append (allFit_timestamp (by decide)) ?_
  exact .append (allFit_blob (by decide) (by omega)) (allFit_timestamp (by decide))

theorem typed_recordFields {ts : RecordTimes} : Typed recordTypes (recordFields ts r) := by
  unfold recordFields
  refine .append (typed_uint (by decide)) (.append (typed_uint (by decide)) ?_)
  refine .append (typed_blob (by decide)) (.append (typed_uint (by decide)) ?_)
  refine .append (typed_uint (by decide)) (.append (typed_uint (by decide)) ?_)
  refine .append (typed_uint (by decide)) (.append (typed_uint (by decide)) ?_)
  refine .append (typed_uint (by decide)) (.append (typed_uint (by decide)) ?_)
  refine .append (typed_blob (by decide)) (.append (typed_sub (by decide)) ?_)
  refine .append (typed_sub (by decide)) (.append (typed_blob (by decide)) ?_)
  exact typed_sub (by decide)

theorem recordOf_recordFields (hr : RecordInRange r) :
    recordOf ((recordFields (recordTimes r) r).map Field.raw) =
      some ⟨r, marshalRecord { r with crc := 0 }⟩ := by
  have h12 : timestampOf 12 (recordFields (recordTimes r) r) = some (recordTimes r).createdAt :=
    timestampOf_of_blobs hr.createdAt (by simp [recordFields, recordTimes, timestamp])
  have h13 : timestampOf 13 (recordFields (recordTimes r) r) = some (recordTimes r).compactedAt :=
    timestampOf_of_blobs hr.compactedAt (by simp [recordFields, recordTimes, timestamp])
  have h14 : stringOf 14 (recordFields (recordTimes r) r) = some r.leaderId :=
    stringOf_of_blobs (by simp [recordFields, timestamp])
  have h15 : timestampOf 15 (recordFields (recordTimes r) r) = some (recordTimes r).replicatedAt :=
    timestampOf_of_blobs hr.replicatedAt (by simp [recordFields, recordTimes, timestamp])
  have h4 : (uintOf 4 (recordFields (recordTimes r) r) != 0) = r.created := by
    cases hc : r.created <;> simp [uintOf, recordFields, timestamp, hc]
  have h5 : (uintOf 5 (recordFields (recordTimes r) r) != 0) = r.deleted := by
    cases hd : r.deleted <;> simp [uintOf, recordFields, timestamp, hd]
  unfold recordOf
  simp only [known_raw, h4, h5, h12, h13, h14, h15, unknown_raw typed_recordFields]
  simp [uintOf, blobOf, subOf, recordFields, timestamp, toInt_ofInt, hr.revision,
    hr.createRevision, hr.prevRevision, hr.version, hr.lease, hr.dek, recordTimes,
    asTime_comp_new, marshalRecord]

theorem unmarshal_marshalRecord (hr : RecordInRange r) :
    unmarshalRecord (marshalRecord r) = some ⟨r, marshalRecord { r with crc := 0 }⟩ := by
  unfold unmarshalRecord
  rw [marshalRecord, decode_encode (allFit_recordFields hr), Option.bind_some,
    recordOf_recordFields hr]

theorem allFit_headerFields (hh : HeaderInRange h) :
    AllFit (headerFields (h.createdAt.map Timestamp.new) h) := by
  have hmem := hh.inMemory
  unfold headerFields
  refine .append (allFit_uint (by decide) h.crc.toNat_lt) ?_
  refine .append (allFit_uint (by decide) (h.schemaVersion.toNat_lt.trans (by decide))) ?_
  refine .append (allFit_uint (by decide) ofInt_lt) ?_
  refine .append (allFit_uint (by decide) ofInt_lt) ?_
  refine .append (allFit_uint (by decide) ofInt_lt) ?_
  exact .append (allFit_blob (by decide) (by omega)) (allFit_timestamp (by decide))

theorem typed_headerFields {ts : Option Timestamp} : Typed headerTypes (headerFields ts h) := by
  unfold headerFields
  refine .append (typed_uint (by decide)) (.append (typed_uint (by decide)) ?_)
  refine .append (typed_uint (by decide)) (.append (typed_uint (by decide)) ?_)
  refine .append (typed_uint (by decide)) (.append (typed_blob (by decide)) ?_)
  exact typed_sub (by decide)

theorem headerOf_headerFields (hh : HeaderInRange h) :
    headerOf ((headerFields (h.createdAt.map Timestamp.new) h).map Field.raw) =
      some ⟨h, marshalHeader { h with crc := 0 }⟩ := by
  have h6 : stringOf 6 (headerFields (h.createdAt.map Timestamp.new) h) = some h.leaderId :=
    stringOf_of_blobs (by simp [headerFields, timestamp])
  have h7 : timestampOf 7 (headerFields (h.createdAt.map Timestamp.new) h) =
      some (h.createdAt.map Timestamp.new) :=
    timestampOf_of_blobs hh.createdAt (by simp [headerFields, timestamp])
  unfold headerOf
  simp only [known_raw, h6, h7, unknown_raw typed_headerFields]
  simp [uintOf, headerFields, timestamp, toInt_ofInt, toInt32_ofInt, hh.recordsCount, hh.kind,
    hh.compression, asTime_comp_new, marshalHeader]

theorem unmarshal_marshalHeader (hh : HeaderInRange h) :
    unmarshalHeader (marshalHeader h) = some ⟨h, marshalHeader { h with crc := 0 }⟩ := by
  unfold unmarshalHeader
  rw [marshalHeader, decode_encode (allFit_headerFields hh), Option.bind_some,
    headerOf_headerFields hh]

theorem allFit_footerFields : AllFit (footerFields f) := by
  unfold footerFields
  refine .append (allFit_uint (by decide) f.recordsCrc.toNat_lt) ?_
  refine .append (allFit_uint (by decide) ofInt_lt) ?_
  exact .append (allFit_uint (by decide) ofInt_lt) (allFit_uint (by decide) f.crc.toNat_lt)

theorem typed_footerFields : Typed footerTypes (footerFields f) :=
  .append (typed_uint (by decide)) (.append (typed_uint (by decide))
    (.append (typed_uint (by decide)) (typed_uint (by decide))))

theorem unmarshal_marshalFooter (hf : FooterInRange f) :
    unmarshalFooter (marshalFooter f) = some ⟨f, marshalFooter { f with crc := 0 }⟩ := by
  unfold unmarshalFooter
  rw [marshalFooter, decode_encode allFit_footerFields, Option.map_some]
  simp only [footerOf, known_raw, unknown_raw typed_footerFields]
  simp [uintOf, footerFields, toInt_ofInt, hf.firstRevision, hf.lastRevision, marshalFooter]

/-! ### Sizes -/

theorem length_marshalRecord_le (hr : RecordInRange r) :
    (marshalRecord r).length ≤
      r.key.length + r.value.length + (utf8 r.leaderId).length + 231 := by
  have hmem := hr.inMemory
  have hkey : r.key.length < 2 ^ 64 := by omega
  have hvalue : r.value.length < 2 ^ 64 := by omega
  have hleader : (utf8 r.leaderId).length < 2 ^ 64 := by omega
  clear hmem
  refine (length_encode_append_le (length_encode_uint_le (by decide) r.crc.toNat_lt)
    (length_encode_append_le (length_encode_uint_le (by decide) ofInt_lt)
    (length_encode_append_le (length_encode_blob_le (by decide) hkey)
    (length_encode_append_le (length_encode_uint_le (by decide) (toNat_bool_lt _))
    (length_encode_append_le (length_encode_uint_le (by decide) (toNat_bool_lt _))
    (length_encode_append_le (length_encode_uint_le (by decide) ofInt_lt)
    (length_encode_append_le (length_encode_uint_le (by decide) ofInt_lt)
    (length_encode_append_le (length_encode_uint_le (by decide) ofInt_lt)
    (length_encode_append_le (length_encode_uint_le (by decide) ofInt_lt)
    (length_encode_append_le (length_encode_uint_le (by decide) ofInt_lt)
    (length_encode_append_le (length_encode_blob_le (by decide) hvalue)
    (length_encode_append_le (length_encode_timestamp_le (by decide))
    (length_encode_append_le (length_encode_timestamp_le (by decide))
    (length_encode_append_le (length_encode_blob_le (by decide) hleader)
    (length_encode_timestamp_le (by decide)))))))))))))))).trans ?_
  omega

theorem length_marshalHeader_le (hh : HeaderInRange h) :
    (marshalHeader h).length ≤ (utf8 h.leaderId).length + 99 := by
  have hmem := hh.inMemory
  refine (length_encode_append_le (length_encode_uint_le (by decide) h.crc.toNat_lt)
    (length_encode_append_le
      (length_encode_uint_le (by decide) (h.schemaVersion.toNat_lt.trans (by decide)))
    (length_encode_append_le (length_encode_uint_le (by decide) ofInt_lt)
    (length_encode_append_le (length_encode_uint_le (by decide) ofInt_lt)
    (length_encode_append_le (length_encode_uint_le (by decide) ofInt_lt)
    (length_encode_append_le (length_encode_blob_le (by decide) (by omega))
    (length_encode_timestamp_le (by decide)))))))).trans ?_
  omega

theorem length_marshalFooter_le : (marshalFooter f).length ≤ 44 :=
  length_encode_append_le (length_encode_uint_le (by decide) f.recordsCrc.toNat_lt)
    (length_encode_append_le (length_encode_uint_le (by decide) ofInt_lt)
    (length_encode_append_le (length_encode_uint_le (by decide) ofInt_lt)
    (length_encode_uint_le (by decide) f.crc.toNat_lt)))

end Netsy.Datafile.Messages
