import Netsy.Datafile.Messages
import Netsy.Datastore

/-! # Reading a data file back

The bytes that `Writer` makes of a data file and what `Reader` makes of them. The header is never
compressed, the records and the footer are compressed or not. Every message carries the checksum of
what it is without it, and the footer carries the one of all records.

The writer has no limit on the size of a message, and the reader has the one of `protodelim`: the
file is read back exactly if its header and its records keep to it. -/

namespace Netsy.Datafile.ReadBack

open Proto Lib.WireFormat Datafile.Messages Datastore

/-- `hash/crc64` and `zstd`. Of the checksum nothing is assumed. Decompressing gives what comes out
before the end or the first fault of a stream, `none` is an error before anything does. -/
structure Codec where
  crc64 : Bytes → UInt64
  compress : Bytes → Bytes
  decompress : Bytes → Option Bytes
  decompress_compress : ∀ b, decompress (compress b) = some b

def kindNumber : FileKind → ℤ
  | .snapshot => 1
  | .chunk => 2

/-- The number 0 is `COMPRESSION_UNKNOWN`. -/
def compressionNumber : FileCompression → ℤ
  | .none => 1
  | .zstd => 2

/-- The default of `protodelim`. -/
def maxSize : ℕ := 4 * 2 ^ 20

/-- What `Writer` and `Reader` keep of the records so far; the checksum of all records is the one
of `hashed`. -/
structure Tally where
  count : ℤ := 0
  firstRevision : ℤ := 0
  lastRevision : ℤ := 0
  hashed : Bytes := []
deriving DecidableEq, Repr

/-- A record of this revision, with the bytes that go into the checksum. -/
def Tally.next (t : Tally) (revision : ℤ) (data : Bytes) : Tally where
  count := t.count + 1
  firstRevision := if t.firstRevision = 0 then revision else t.firstRevision
  lastRevision := revision
  hashed := t.hashed ++ data

/-- A record that is written. -/
def Tally.add (t : Tally) (r : Record) : Tally :=
  t.next r.revision (marshalRecord { r with crc := 0 })

/-- The law of a codec can be met. -/
instance : Inhabited Codec := ⟨⟨fun _ => 0, id, some, fun _ => rfl⟩⟩

variable (z : Codec)

/-! ### The writer -/

def recordCrc (r : Record) : UInt64 := z.crc64 (marshalRecord { r with crc := 0 })

/-- `Writer.Write` puts the checksum on the record. -/
def stamp (r : Record) : Record := { r with crc := recordCrc z r }

def headerCrc (h : FileHeader) : UInt64 := z.crc64 (marshalHeader { h with crc := 0 })

def footerCrc (f : FileFooter) : UInt64 := z.crc64 (marshalFooter { f with crc := 0 })

/-- `body` has gone to the compressor, or to the buffer if there is none. -/
structure Writer where
  compression : FileCompression
  header : Bytes
  body : Bytes := []
  recordsCount : ℤ
  tally : Tally := {}
deriving DecidableEq, Repr

/-- The header of `NewWriterWithCompression`. -/
def fileHeader (now : Time) (kind : FileKind) (recordsCount : ℤ) (leaderID : NodeID)
    (compression : FileCompression) : FileHeader :=
  let h : FileHeader :=
    { kind := kindNumber kind, recordsCount, createdAt := some now, leaderId := leaderID,
      compression := compressionNumber compression }
  { h with crc := headerCrc z h }

/-- `NewWriterWithCompression`. -/
def newWriter (now : Time) (kind : FileKind) (recordsCount : ℤ) (leaderID : NodeID)
    (compression : FileCompression) : Writer where
  compression := compression
  header := delimit (marshalHeader (fileHeader z now kind recordsCount leaderID compression))
  recordsCount := recordsCount

def Writer.write (w : Writer) (r : Record) : Writer :=
  { w with
    body := w.body ++ delimit (marshalRecord (stamp z r))
    tally := w.tally.add r }

/-- The footer of `Writer.Close`. -/
def fileFooter (t : Tally) : FileFooter :=
  let f : FileFooter :=
    { firstRevision := t.firstRevision, lastRevision := t.lastRevision,
      recordsCrc := z.crc64 t.hashed }
  { f with crc := footerCrc z f }

def pack (compression : FileCompression) (b : Bytes) : Bytes :=
  match compression with
  | .none => b
  | .zstd => z.compress b

/-- `Writer.Close`; `none` is the error of a count that does not match. -/
def Writer.close (w : Writer) : Option Bytes :=
  if w.tally.count ≠ w.recordsCount then none
  else
    some (w.header ++
      pack z w.compression (w.body ++ delimit (marshalFooter (fileFooter z w.tally))))

/-- The bytes of a data file. -/
def writeFile (f : DataFile) : Option Bytes :=
  let w := newWriter z f.createdAt f.kind f.records.length f.leaderId f.compression
  (f.records.foldl (Writer.write z) w).close z

/-! ### The reader -/

/-- The errors of `protodelim.UnmarshalFrom`. -/
inductive UnmarshalError
  | delim (e : DelimError)
  | malformed
deriving DecidableEq, Repr

def unmarshalFrom {α : Type} (unmarshal : Bytes → Option α) (bs : Bytes) :
    Except UnmarshalError (α × Bytes) :=
  match readDelimited maxSize bs with
  | .error e => .error (.delim e)
  | .ok (m, rest) =>
    match unmarshal m with
    | none => .error .malformed
    | some a => .ok (a, rest)

inductive ReadError
  | header (e : UnmarshalError)
  | kindMismatch (expected got : ℤ)
  | unknownCompression
  | headerCrc (actual expected : UInt64)
  | decompressor
  | endOfFile
  | record (i : ℤ) (e : UnmarshalError)
  | recordCrc (i : ℤ) (actual expected : UInt64)
  | count (lastCount expected : ℤ)
  | footer (e : UnmarshalError)
  | footerCrc (actual expected : UInt64)
  | recordsCrc (actual expected : UInt64)
  | firstRevision (actual expected : ℤ)
  | lastRevision (actual expected : ℤ)
deriving DecidableEq, Repr

structure Reader where
  kind : ℤ
  rest : Bytes
  expectedRecordsCount : ℤ
  tally : Tally := {}
deriving DecidableEq, Repr

structure ReadResults where
  kind : ℤ
  recordsCount : ℤ
  firstRevision : ℤ
  lastRevision : ℤ
deriving DecidableEq, Repr

/-- The rest of the file behind the decompressor, if there is one. -/
def unpack (compression : ℤ) (b : Bytes) : Option Bytes :=
  if compression = compressionNumber .zstd then z.decompress b else some b

def newReader (expectKind : Option ℤ) (bs : Bytes) : Except ReadError Reader :=
  match unmarshalFrom unmarshalHeader bs with
  | .error e => .error (.header e)
  | .ok (⟨header, headerData⟩, rest) =>
    match expectKind.filter (· ≠ header.kind) with
    | some expected => .error (.kindMismatch expected header.kind)
    | none =>
      if header.compression = 0 then .error .unknownCompression
      else if header.crc ≠ z.crc64 headerData then
        .error (.headerCrc (z.crc64 headerData) header.crc)
      else
        match unpack z header.compression rest with
        | none => .error .decompressor
        | some rest => .ok ⟨header.kind, rest, header.recordsCount, {}⟩

def Reader.read (rd : Reader) : Except ReadError (Record × Reader) :=
  match unmarshalFrom unmarshalRecord rd.rest with
  | .error (.delim .eof) => .error .endOfFile
  | .error e => .error (.record rd.tally.count e)
  | .ok (⟨record, recordData⟩, rest) =>
    if record.crc ≠ z.crc64 recordData then
      .error (.recordCrc rd.tally.count (z.crc64 recordData) record.crc)
    else .ok (record, { rd with rest, tally := rd.tally.next record.revision recordData })

/-- The loop of `DownloadAndImportFile`. -/
def Reader.readAll : ℕ → Reader → Except ReadError (List Record × Reader)
  | 0, rd => .ok ([], rd)
  | n + 1, rd =>
    match rd.read z with
    | .error e => .error e
    | .ok (r, rd) => (Reader.readAll n rd).map fun (rs, rd) => (r :: rs, rd)

def Reader.close (rd : Reader) : Except ReadError ReadResults :=
  if rd.tally.count ≠ rd.expectedRecordsCount then
    .error (.count rd.tally.count rd.expectedRecordsCount)
  else
    match unmarshalFrom unmarshalFooter rd.rest with
    | .error e => .error (.footer e)
    | .ok (⟨footer, footerData⟩, _) =>
      if footer.crc ≠ z.crc64 footerData then .error (.footerCrc (z.crc64 footerData) footer.crc)
      else if footer.recordsCrc ≠ z.crc64 rd.tally.hashed then
        .error (.recordsCrc (z.crc64 rd.tally.hashed) footer.recordsCrc)
      else if rd.tally.firstRevision ≠ footer.firstRevision then
        .error (.firstRevision rd.tally.firstRevision footer.firstRevision)
      else if rd.tally.lastRevision ≠ footer.lastRevision then
        .error (.lastRevision rd.tally.lastRevision footer.lastRevision)
      else .ok ⟨rd.kind, rd.tally.count, rd.tally.firstRevision, rd.tally.lastRevision⟩

/-- A file read from its header to its footer. -/
def readFile (expectKind : Option ℤ) (bs : Bytes) : Except ReadError (List Record × ReadResults) :=
  match newReader z expectKind bs with
  | .error e => .error e
  | .ok rd =>
    match rd.readAll z rd.expectedRecordsCount.toNat with
    | .error e => .error e
    | .ok (rs, rd) => (rd.close z).map fun results => (rs, results)

/-! ### What a successful read did -/

def tallyOf (t : Tally) (rs : List Record) : Tally := rs.foldl Tally.add t

variable {z}
variable {f : DataFile} {r : Record} {rs : List Record} {t : Tally} {w : Writer}
  {rd rd' : Reader} {rest : Bytes}

section

variable {expectKind : Option ℤ} {bs : Bytes} {n : ℕ} {results : ReadResults}

theorem newReader_ok (h : newReader z expectKind bs = .ok rd) :
    ∃ header data rest, unmarshalFrom unmarshalHeader bs = .ok (⟨header, data⟩, rest) ∧
      unpack z header.compression rest = some rd.rest ∧
      rd.expectedRecordsCount = header.recordsCount ∧ rd.tally = {} := by
  unfold newReader at h
  cases hread : unmarshalFrom unmarshalHeader bs with
  | error e => simp [hread] at h
  | ok p =>
    obtain ⟨⟨header, data⟩, rest⟩ := p
    simp only [hread] at h
    cases hkind : expectKind.filter (· ≠ header.kind) with
    | some expected =>
      rw [hkind] at h
      cases h
    | none =>
      rw [hkind] at h
      dsimp only at h
      split_ifs at h
      cases hunpack : unpack z header.compression rest with
      | none => simp [hunpack] at h
      | some body =>
        simp only [hunpack] at h
        cases h
        exact ⟨header, data, rest, rfl, hunpack, rfl, rfl⟩

theorem read_ok (h : rd.read z = .ok (r, rd')) :
    ∃ data rest, unmarshalFrom unmarshalRecord rd.rest = .ok (⟨r, data⟩, rest) ∧
      r.crc = z.crc64 data ∧ rd' = { rd with rest, tally := rd.tally.next r.revision data } := by
  unfold Reader.read at h
  cases hread : unmarshalFrom unmarshalRecord rd.rest with
  | error e =>
    rw [hread] at h
    split at h <;> simp_all
  | ok p =>
    obtain ⟨⟨record, data⟩, rest⟩ := p
    simp only [hread] at h
    split_ifs at h with hcrc
    obtain ⟨rfl, rfl⟩ := Prod.mk.inj (Except.ok.inj h)
    exact ⟨data, rest, rfl, not_not.mp hcrc, rfl⟩

theorem close_ok (h : rd.close z = .ok results) :
    rd.tally.count = rd.expectedRecordsCount ∧
      results = ⟨rd.kind, rd.tally.count, rd.tally.firstRevision, rd.tally.lastRevision⟩ ∧
      ∃ footer data rest, unmarshalFrom unmarshalFooter rd.rest = .ok (⟨footer, data⟩, rest) ∧
        footer.recordsCrc = z.crc64 rd.tally.hashed ∧
        rd.tally.lastRevision = footer.lastRevision := by
  unfold Reader.close at h
  split_ifs at h with hcount
  cases hread : unmarshalFrom unmarshalFooter rd.rest with
  | error e => simp [hread] at h
  | ok p =>
    obtain ⟨⟨footer, data⟩, rest⟩ := p
    simp only [hread] at h
    split_ifs at h with _ hrecords _ hlast
    exact ⟨not_not.mp hcount, (Except.ok.inj h).symm, footer, data, rest, rfl,
      not_not.mp hrecords, not_not.mp hlast⟩

theorem readFile_ok {x : List Record × ReadResults} (h : readFile z expectKind bs = .ok x) :
    ∃ rd rd', newReader z expectKind bs = .ok rd ∧
      rd.readAll z rd.expectedRecordsCount.toNat = .ok (x.1, rd') ∧ rd'.close z = .ok x.2 := by
  unfold readFile at h
  cases hnew : newReader z expectKind bs with
  | error e => simp [hnew] at h
  | ok rd =>
    simp only [hnew] at h
    cases hall : rd.readAll z rd.expectedRecordsCount.toNat with
    | error e => simp [hall] at h
    | ok p =>
      simp only [hall] at h
      cases hclose : p.2.close z with
      | error e => simp [hclose, Except.map] at h
      | ok results =>
        simp only [hclose, Except.map, Except.ok.injEq] at h
        exact ⟨rd, p.2, rfl, by rw [hall, ← h], by rw [hclose, ← h]⟩

theorem readAll_succ_ok {x : List Record × Reader} (h : rd.readAll z (n + 1) = .ok x) :
    ∃ r rd₁ rs, rd.read z = .ok (r, rd₁) ∧ rd₁.readAll z n = .ok (rs, x.2) ∧ x.1 = r :: rs := by
  rw [Reader.readAll] at h
  cases hread : rd.read z with
  | error e => simp [hread] at h
  | ok p =>
    simp only [hread] at h
    cases hall : p.2.readAll z n with
    | error e => simp [hall, Except.map] at h
    | ok y =>
      simp only [hall, Except.map, Except.ok.injEq] at h
      exact ⟨p.1, p.2, y.1, rfl, by rw [hall, ← h], by rw [← h]⟩

theorem readAll_ok (h : rd.readAll z n = .ok (rs, rd')) :
    rd'.expectedRecordsCount = rd.expectedRecordsCount ∧
      rd'.tally.count = rd.tally.count + rs.length ∧
      rd'.tally.lastRevision =
        (rs.getLast?.map Record.revision).getD rd.tally.lastRevision := by
  induction n generalizing rd rs with
  | zero =>
    cases h
    exact ⟨rfl, (Int.add_zero _).symm, rfl⟩
  | succ n ih =>
    obtain ⟨r, rd₁, rs₁, hread, hall, rfl⟩ := readAll_succ_ok h
    obtain ⟨data, rest, -, -, rfl⟩ := read_ok hread
    obtain ⟨hexpected, hcount, hlast⟩ := ih hall
    refine ⟨hexpected, ?_, ?_⟩
    · rw [hcount, List.length_cons]
      simp only [Tally.next]
      omega
    · rw [hlast, List.getLast?_cons]
      cases rs₁.getLast? with
      | none => rfl
      | some a => rfl

end

/-! ### What is written -/

def headerFor (z : Codec) (f : DataFile) : FileHeader :=
  fileHeader z f.createdAt f.kind f.records.length f.leaderId f.compression

/-- The messages of the records. -/
def bodyOf (z : Codec) (rs : List Record) : Bytes :=
  rs.flatMap fun r => delimit (marshalRecord (stamp z r))

/-- The messages behind the header. -/
def messagesOf (z : Codec) (f : DataFile) : Bytes :=
  bodyOf z f.records ++ delimit (marshalFooter (fileFooter z (tallyOf {} f.records)))

theorem add_stamp :
    t.next (stamp z r).revision (marshalRecord { stamp z r with crc := 0 }) = t.add r := rfl

theorem recordCrc_stamp :
    z.crc64 (marshalRecord { stamp z r with crc := 0 }) = (stamp z r).crc := rfl

theorem foldl_write :
    rs.foldl (Writer.write z) w =
      { w with body := w.body ++ bodyOf z rs, tally := tallyOf w.tally rs } := by
  induction rs generalizing w with
  | nil => simp [bodyOf, tallyOf]
  | cons r rs ih =>
    rw [List.foldl_cons, ih]
    simp [Writer.write, bodyOf, tallyOf]

theorem count_tallyOf : (tallyOf t rs).count = t.count + rs.length := by
  induction rs generalizing t with
  | nil => simp [tallyOf]
  | cons r rs ih =>
    have hcons : tallyOf t (r :: rs) = tallyOf (t.add r) rs := rfl
    rw [hcons, ih, Tally.add, Tally.next, List.length_cons]
    push_cast
    omega

/-- Closing the writer does not fail, for it was told the number of the records. -/
theorem writeFile_eq :
    writeFile z f = some (delimit (marshalHeader (headerFor z f)) ++
      pack z f.compression (messagesOf z f)) := by
  have hcount : (tallyOf {} f.records).count = f.records.length := by
    rw [count_tallyOf]
    exact Int.zero_add _
  unfold writeFile Writer.close
  dsimp only
  rw [foldl_write]
  simp [newWriter, headerFor, messagesOf, hcount]

/-! ### What is read -/

/-- The fields hold what the fields of Go hold. -/
structure FileInRange (f : DataFile) : Prop where
  createdAt : IsInt64 (f.createdAt / nanosPerSecond)
  leaderId : (utf8 f.leaderId).length < 2 ^ 63
  records : ∀ r ∈ f.records, RecordInRange r
  count : f.records.length < 2 ^ 63

/-- The encoded size of a record in a file. -/
def recordSize (z : Codec) (r : Record) : ℕ := (marshalRecord (stamp z r)).length

/-- The encoded size of the header of a file. -/
def headerSize (z : Codec) (f : DataFile) : ℕ := (marshalHeader (headerFor z f)).length

/-- No message of the file is larger than the reader allows. -/
def Fits (z : Codec) (f : DataFile) : Prop :=
  headerSize z f ≤ maxSize ∧ ∀ r ∈ f.records, recordSize z r ≤ maxSize

theorem unmarshalFrom_delimit {α : Type} {unmarshal : Bytes → Option α} {m : Bytes} {a : α}
    (hm : unmarshal m = some a) (hlt : m.length < 2 ^ 64) :
    unmarshalFrom unmarshal (delimit m ++ rest) =
      if maxSize < m.length then .error (.delim (.sizeTooLarge m.length)) else .ok (a, rest) := by
  unfold unmarshalFrom
  rw [readDelimited_delimit hlt]
  by_cases hlarge : maxSize < m.length
  · simp [hlarge]
  · simp [hlarge, hm]

theorem recordInRange_stamp (hr : RecordInRange r) : RecordInRange (stamp z r) :=
  ⟨hr.revision, hr.createRevision, hr.prevRevision, hr.version, hr.lease, hr.dek, hr.createdAt,
    hr.compactedAt, hr.replicatedAt, hr.inMemory⟩

theorem recordSize_lt (hr : RecordInRange r) : recordSize z r < 2 ^ 64 := by
  have hle := length_marshalRecord_le (recordInRange_stamp (z := z) hr)
  have hmem := (recordInRange_stamp (z := z) hr).inMemory
  unfold recordSize
  omega

theorem read_delimit (hr : RecordInRange r)
    (hrest : rd.rest = delimit (marshalRecord (stamp z r)) ++ rest) :
    rd.read z =
      if maxSize < recordSize z r then
        .error (.record rd.tally.count (.delim (.sizeTooLarge (recordSize z r))))
      else .ok (stamp z r, { rd with rest, tally := rd.tally.add r }) := by
  have hround := unmarshal_marshalRecord (recordInRange_stamp (z := z) hr)
  have hread : unmarshalFrom unmarshalRecord (delimit (marshalRecord (stamp z r)) ++ rest) =
      if maxSize < recordSize z r then .error (.delim (.sizeTooLarge (recordSize z r)))
      else .ok (⟨stamp z r, marshalRecord { stamp z r with crc := 0 }⟩, rest) :=
    unmarshalFrom_delimit hround (recordSize_lt hr)
  unfold Reader.read
  rw [hrest, hread]
  by_cases hlarge : maxSize < recordSize z r
  · simp [hlarge]
  · simp [hlarge, recordCrc_stamp, add_stamp]

theorem readAll_bodyOf (hr : ∀ r ∈ rs, RecordInRange r)
    (hfits : ∀ r ∈ rs, recordSize z r ≤ maxSize) (hrest : rd.rest = bodyOf z rs ++ rest) :
    rd.readAll z rs.length =
      .ok (rs.map (stamp z), { rd with rest, tally := tallyOf rd.tally rs }) := by
  induction rs generalizing rd with
  | nil =>
    have : rd.rest = rest := hrest
    subst this
    rfl
  | cons r rs ih =>
    rw [List.forall_mem_cons] at hr hfits
    have hcons : rd.rest = delimit (marshalRecord (stamp z r)) ++ (bodyOf z rs ++ rest) := by
      rw [hrest]
      simp [bodyOf]
    rw [List.length_cons, Reader.readAll, read_delimit hr.1 hcons, if_neg (not_lt.mpr hfits.1)]
    dsimp only
    rw [ih hr.2 hfits.2 rfl]
    rfl

theorem readAll_tooLarge (hr : ∀ r ∈ rs, RecordInRange r)
    (hlarge : ∃ r ∈ rs, maxSize < recordSize z r) (hrest : rd.rest = bodyOf z rs ++ rest) :
    ∃ e, rd.readAll z rs.length = .error e := by
  induction rs generalizing rd with
  | nil =>
    obtain ⟨r, hmem, -⟩ := hlarge
    exact absurd hmem List.not_mem_nil
  | cons r rs ih =>
    rw [List.forall_mem_cons] at hr
    have hcons : rd.rest = delimit (marshalRecord (stamp z r)) ++ (bodyOf z rs ++ rest) := by
      rw [hrest]
      simp [bodyOf]
    rw [List.length_cons, Reader.readAll, read_delimit hr.1 hcons]
    by_cases h : maxSize < recordSize z r
    · rw [if_pos h]
      exact ⟨_, rfl⟩
    · have hlater : ∃ r ∈ rs, maxSize < recordSize z r := by
        obtain ⟨x, hmem, hx⟩ := hlarge
        rcases List.mem_cons.mp hmem with rfl | hmem
        · exact absurd hx h
        · exact ⟨x, hmem, hx⟩
      have hrun : ∃ e, Reader.readAll z rs.length
          { rd with rest := bodyOf z rs ++ rest, tally := rd.tally.add r } = .error e :=
        ih hr.2 hlater rfl
      obtain ⟨e, he⟩ := hrun
      rw [if_neg h]
      dsimp only
      rw [he]
      exact ⟨e, rfl⟩

/-! ### Header and footer -/

theorem unpack_pack {compression : FileCompression} {b : Bytes} :
    unpack z (compressionNumber compression) (pack z compression b) = some b := by
  cases compression with
  | none => rfl
  | zstd => simp [unpack, pack, z.decompress_compress]

theorem isInt32_kindNumber (kind : FileKind) : IsInt32 (kindNumber kind) := by
  cases kind <;> decide

theorem isInt32_compressionNumber (compression : FileCompression) :
    IsInt32 (compressionNumber compression) := by
  cases compression <;> decide

theorem headerInRange (hf : FileInRange f) : HeaderInRange (headerFor z f) := by
  have hcount := hf.count
  refine ⟨?_, ?_, ⟨?_, ?_⟩, ?_, hf.leaderId⟩
  · exact isInt32_kindNumber _
  · exact isInt32_compressionNumber _
  · simp only [headerFor, fileHeader]
    omega
  · simp only [headerFor, fileHeader]
    omega
  · intro x hx
    cases hx
    exact hf.createdAt

theorem headerSize_lt (hf : FileInRange f) : headerSize z f < 2 ^ 64 := by
  have hle := length_marshalHeader_le (headerInRange (z := z) hf)
  have hmem := (headerInRange (z := z) hf).inMemory
  unfold headerSize
  omega

/-- The reader of the file when its header has been read. -/
def opened (z : Codec) (f : DataFile) : Reader :=
  ⟨kindNumber f.kind, messagesOf z f, f.records.length, {}⟩

theorem newReader_of_header {h : FileHeader} {b m : Bytes} (hh : HeaderInRange h)
    (hcrc : h.crc = headerCrc z h) (hknown : h.compression ≠ 0)
    (hunpack : unpack z h.compression b = some m) (hlt : (marshalHeader h).length < 2 ^ 64) :
    newReader z (some h.kind) (delimit (marshalHeader h) ++ b) =
      if maxSize < (marshalHeader h).length then
        .error (.header (.delim (.sizeTooLarge (marshalHeader h).length)))
      else .ok ⟨h.kind, m, h.recordsCount, {}⟩ := by
  unfold newReader
  rw [unmarshalFrom_delimit (unmarshal_marshalHeader hh) hlt]
  by_cases hlarge : maxSize < (marshalHeader h).length
  · simp [hlarge]
  · have hvalid : h.crc = z.crc64 (marshalHeader { h with crc := 0 }) := hcrc
    simp [hlarge, hknown, ← hvalid, hunpack, Option.filter]

theorem compressionNumber_ne_zero {compression : FileCompression} :
    compressionNumber compression ≠ 0 := by
  cases compression <;> decide

theorem newReader_header (hf : FileInRange f) {m : Bytes} :
    newReader z (some (kindNumber f.kind))
        (delimit (marshalHeader (headerFor z f)) ++ pack z f.compression m) =
      if maxSize < headerSize z f then
        .error (.header (.delim (.sizeTooLarge (headerSize z f))))
      else .ok ⟨kindNumber f.kind, m, f.records.length, {}⟩ :=
  newReader_of_header (headerInRange hf) rfl compressionNumber_ne_zero unpack_pack
    (headerSize_lt hf)

theorem newReader_delimit (hf : FileInRange f) :
    newReader z (some (kindNumber f.kind))
        (delimit (marshalHeader (headerFor z f)) ++ pack z f.compression (messagesOf z f)) =
      if maxSize < headerSize z f then
        .error (.header (.delim (.sizeTooLarge (headerSize z f))))
      else .ok (opened z f) := newReader_header hf

theorem footerInRange_tallyOf (hr : ∀ r ∈ rs, RecordInRange r) (hfirst : IsInt64 t.firstRevision)
    (hlast : IsInt64 t.lastRevision) : FooterInRange (fileFooter z (tallyOf t rs)) := by
  induction rs generalizing t with
  | nil => exact ⟨hfirst, hlast⟩
  | cons r rs ih =>
    rw [List.forall_mem_cons] at hr
    have hstep : IsInt64 (t.add r).firstRevision := by
      unfold Tally.add Tally.next
      dsimp only
      split_ifs
      · exact hr.1.revision
      · exact hfirst
    exact ih (t := t.add r) hr.2 hstep hr.1.revision

theorem close_delimit (hfooter : FooterInRange (fileFooter z rd.tally))
    (hrest : rd.rest = delimit (marshalFooter (fileFooter z rd.tally)))
    (hcount : rd.tally.count = rd.expectedRecordsCount) :
    rd.close z =
      .ok ⟨rd.kind, rd.tally.count, rd.tally.firstRevision, rd.tally.lastRevision⟩ := by
  have hsize := length_marshalFooter_le (f := fileFooter z rd.tally)
  have hsmall : ¬ maxSize < (marshalFooter (fileFooter z rd.tally)).length := by
    unfold maxSize
    omega
  have hread := @unmarshalFrom_delimit [] _ _ _ _ (unmarshal_marshalFooter hfooter) (by omega)
  rw [if_neg hsmall, List.append_nil] at hread
  unfold Reader.close
  rw [hrest, hread]
  simp [hcount, fileFooter, footerCrc]

theorem fits_of_strings (hf : FileInRange f) (hleader : (utf8 f.leaderId).length + 99 ≤ maxSize)
    (hrecords : ∀ r ∈ f.records,
      r.key.length + r.value.length + (utf8 r.leaderId).length + 231 ≤ maxSize) : Fits z f :=
  ⟨(length_marshalHeader_le (headerInRange hf)).trans hleader, fun r hr =>
    (length_marshalRecord_le (recordInRange_stamp (hf.records r hr))).trans (hrecords r hr)⟩

/-! ### Files -/

/-- The file is read without an error and yields the record. -/
def ReadsBack (z : Codec) (f : DataFile) (row : Record) : Prop :=
  ∃ bs rs results, writeFile z f = some bs ∧
    readFile z (some (kindNumber f.kind)) bs = .ok (rs, results) ∧ stamp z row ∈ rs

/-- What the reader reports of the records that it has read. -/
def resultsOf (f : DataFile) : ReadResults where
  kind := kindNumber f.kind
  recordsCount := f.records.length
  firstRevision := (tallyOf {} f.records).firstRevision
  lastRevision := (tallyOf {} f.records).lastRevision

theorem readFile_of_fits (hf : FileInRange f) (hfits : Fits z f) {bs : Bytes}
    (hbs : writeFile z f = some bs) :
    readFile z (some (kindNumber f.kind)) bs = .ok (f.records.map (stamp z), resultsOf f) := by
  obtain ⟨hheader, hrecords⟩ := hfits
  rw [writeFile_eq, Option.some.injEq] at hbs
  subst hbs
  have hread := readAll_bodyOf hf.records hrecords (rfl : (opened z f).rest = messagesOf z f)
  have hcount : (tallyOf {} f.records).count = f.records.length := by
    rw [count_tallyOf]
    exact Int.zero_add _
  have hfooter : FooterInRange (fileFooter z (tallyOf {} f.records)) :=
    footerInRange_tallyOf hf.records isInt64_zero isInt64_zero
  have hexpected : (opened z f).expectedRecordsCount.toNat = f.records.length := by
    simp [opened]
  unfold readFile
  rw [newReader_delimit hf, if_neg (not_lt.mpr hheader)]
  dsimp only
  rw [hexpected, hread]
  dsimp only
  rw [close_delimit hfooter rfl hcount]
  simp only [Except.map, resultsOf, opened, hcount]

theorem readFile_of_not_fits (hf : FileInRange f) (hfits : ¬ Fits z f) {bs : Bytes}
    (hbs : writeFile z f = some bs) :
    ∃ e, readFile z (some (kindNumber f.kind)) bs = .error e := by
  rw [writeFile_eq, Option.some.injEq] at hbs
  subst hbs
  unfold readFile
  rw [newReader_delimit hf]
  by_cases hheader : maxSize < headerSize z f
  · rw [if_pos hheader]
    exact ⟨_, rfl⟩
  · have hlarge : ∃ r ∈ f.records, maxSize < recordSize z r := by
      by_contra hnone
      push Not at hnone
      exact hfits ⟨not_lt.mp hheader, hnone⟩
    obtain ⟨e, he⟩ := readAll_tooLarge hf.records hlarge
      (rfl : (opened z f).rest = messagesOf z f)
    have hexpected : (opened z f).expectedRecordsCount.toNat = f.records.length := by
      simp [opened]
    rw [if_neg hheader]
    dsimp only
    rw [hexpected, he]
    exact ⟨e, rfl⟩

theorem readsBack_iff_fits (hf : FileInRange f) (hmem : r ∈ f.records) :
    ReadsBack z f r ↔ Fits z f := by
  constructor
  · rintro ⟨bs, rs, results, hbs, hread, -⟩
    by_contra hfits
    obtain ⟨e, he⟩ := readFile_of_not_fits hf hfits hbs
    rw [he] at hread
    exact nomatch hread
  · intro hfits
    exact ⟨_, _, _, writeFile_eq, readFile_of_fits hf hfits writeFile_eq,
      List.mem_map_of_mem hmem⟩

end Netsy.Datafile.ReadBack
