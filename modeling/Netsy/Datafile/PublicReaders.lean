import Netsy.Datafile.RoundTrip

/-! # The readers of the public package

`ReadChunk` and `ReadSnapshot` reserve memory for as many records as the header announces before
they read the first one. The count is an `int64` that nothing has looked at but the checksum of the
header: a negative one makes `make` panic, and a large one reserves memory for records that the rest
of the input has no room for.

A record takes one byte at least, the one of its length, and an empty record takes no more. -/

namespace Netsy.Datafile.PublicReaders

open Proto Lib.WireFormat Datafile.Messages Datafile.ReadBack Datastore

/-- How a call ends. -/
inductive Outcome
  | returned (records : List Record)
  | failed (e : ReadError)
  | panicked (message : String)
deriving DecidableEq, Repr

/-- A call with the number of records it has reserved memory for. -/
structure Reading where
  outcome : Outcome
  reserved : ℕ := 0
deriving DecidableEq, Repr

/-- The size of a `*Record`. -/
def pointerSize : ℕ := 8

/-- `make([]T, 0, n)`: the capacity reserved; `none` is the panic of a capacity that is negative or
takes more than `maxAlloc` bytes. -/
def makeSlice (maxAlloc elemSize : ℕ) (n : ℤ) : Option ℕ :=
  if n < 0 ∨ maxAlloc < elemSize * n.toNat then none else some n.toNat

/-- `recordFromProto`: the record of the public package has no checksum. -/
def recordFromProto (r : Record) : Record := { r with crc := 0 }

variable (z : Codec) (maxAlloc : ℕ)

/-- The common body of `ReadChunk` and `ReadSnapshot`. -/
def readRecords (kind : FileKind) (bs : Bytes) : Reading :=
  match newReader z (some (kindNumber kind)) bs with
  | .error e => { outcome := .failed e }
  | .ok rd =>
    match makeSlice maxAlloc pointerSize rd.expectedRecordsCount with
    | none => { outcome := .panicked "runtime error: makeslice: cap out of range" }
    | some reserved =>
      match rd.readAll z rd.expectedRecordsCount.toNat with
      | .error e => { outcome := .failed e, reserved }
      | .ok (records, rd) =>
        match rd.close z with
        | .error e => { outcome := .failed e, reserved }
        | .ok _ => { outcome := .returned (records.map recordFromProto), reserved }

def readChunk (bs : Bytes) : Reading := readRecords z maxAlloc .chunk bs

def readSnapshot (bs : Bytes) : Reading := readRecords z maxAlloc .snapshot bs

/-- The number of bytes behind the header, and behind the decompressor if there is one. -/
def streamLength (kind : FileKind) (bs : Bytes) : ℕ :=
  match newReader z (some (kindNumber kind)) bs with
  | .error _ => 0
  | .ok rd => rd.rest.length

/-- A stream of so many bytes can contain so many records. -/
def CanContain (length n : ℕ) : Prop :=
  ∃ rd : Reader, rd.rest.length = length ∧ ∃ x, rd.readAll z n = .ok x

/-- The call returns records or an error, and it has not reserved memory for more records than the
stream can contain. -/
structure Safe (kind : FileKind) (bs : Bytes) (reading : Reading) : Prop where
  noPanic : ∀ message, reading.outcome ≠ .panicked message
  reserved : CanContain z (streamLength z kind bs) reading.reserved

/-- The count that the header announces is not negative, every record has a byte of the stream, and
`make` can give the memory. -/
def CountFits (kind : FileKind) (bs : Bytes) : Prop :=
  ∀ rd, newReader z (some (kindNumber kind)) bs = .ok rd →
    0 ≤ rd.expectedRecordsCount ∧ rd.expectedRecordsCount ≤ rd.rest.length ∧
      pointerSize * rd.expectedRecordsCount.toNat ≤ maxAlloc

variable {z maxAlloc}
variable {rd rd' : Reader} {r : Record} {kind : FileKind} {bs rest : Bytes} {n : ℕ}

/-! ### The records of a stream -/

theorem length_lt_of_read (h : rd.read z = .ok (r, rd')) : rd'.rest.length < rd.rest.length := by
  obtain ⟨data, rest, hread, -, rfl⟩ := read_ok h
  unfold unmarshalFrom at hread
  cases hmessage : readDelimited maxSize rd.rest with
  | error e => simp [hmessage] at hread
  | ok p =>
    simp only [hmessage] at hread
    cases hm : unmarshalRecord p.1 with
    | none => simp [hm] at hread
    | some a =>
      simp only [hm, Except.ok.injEq, Prod.mk.injEq] at hread
      obtain ⟨-, rfl⟩ := hread
      exact length_lt_of_readDelimited hmessage

theorem le_length_of_readAll {x : List Record × Reader} (h : rd.readAll z n = .ok x) :
    n ≤ rd.rest.length := by
  induction n generalizing rd x with
  | zero => exact Nat.zero_le _
  | succ n ih =>
    obtain ⟨r, rd₁, rs, hread, hall, -⟩ := readAll_succ_ok h
    have hshorter := length_lt_of_read hread
    have hle := ih hall
    omega

theorem read_zero (hcrc : z.crc64 [] = 0) (hrest : rd.rest = 0 :: rest) :
    rd.read z = .ok ({}, { rd with rest, tally := rd.tally.add {} }) := by
  have hempty : unmarshalFrom unmarshalRecord (0 :: rest) = .ok (⟨{}, []⟩, rest) := rfl
  have hbody : marshalRecord {} = [] := rfl
  unfold Reader.read
  rw [hrest, hempty]
  simp [hcrc, Tally.add, hbody]

theorem exists_readAll_zeros (hcrc : z.crc64 [] = 0)
    (hrest : rd.rest = List.replicate n 0 ++ rest) : ∃ x, rd.readAll z n = .ok x := by
  induction n generalizing rd with
  | zero => exact ⟨_, rfl⟩
  | succ n ih =>
    have hzeros : rd.rest = 0 :: (List.replicate n 0 ++ rest) := by
      rw [hrest, List.replicate_succ, List.cons_append]
    have hread := read_zero hcrc hzeros
    obtain ⟨x, hx⟩ : ∃ x, Reader.readAll z n
        { rd with rest := List.replicate n 0 ++ rest, tally := rd.tally.add {} } = .ok x := ih rfl
    refine ⟨({} :: x.1, x.2), ?_⟩
    rw [Reader.readAll, hread]
    dsimp only
    rw [hx]
    rfl

theorem canContain_iff (hcrc : z.crc64 [] = 0) {length : ℕ} :
    CanContain z length n ↔ n ≤ length := by
  constructor
  · rintro ⟨rd, rfl, x, hx⟩
    exact le_length_of_readAll hx
  · intro hle
    let zeros : Reader := ⟨0, List.replicate length 0, 0, {}⟩
    have hsplit : zeros.rest = List.replicate n 0 ++ List.replicate (length - n) 0 := by
      rw [List.replicate_append_replicate, Nat.add_sub_cancel' hle]
    exact ⟨zeros, List.length_replicate, exists_readAll_zeros hcrc hsplit⟩

/-! ### What the readers do -/

theorem readRecords_of_error {e : ReadError}
    (h : newReader z (some (kindNumber kind)) bs = .error e) :
    readRecords z maxAlloc kind bs = { outcome := .failed e } := by
  unfold readRecords
  rw [h]

theorem readRecords_panics (h : newReader z (some (kindNumber kind)) bs = .ok rd)
    (hmake : makeSlice maxAlloc pointerSize rd.expectedRecordsCount = none) :
    readRecords z maxAlloc kind bs =
      { outcome := .panicked "runtime error: makeslice: cap out of range" } := by
  unfold readRecords
  simp only [h, hmake]

theorem readRecords_reserves (h : newReader z (some (kindNumber kind)) bs = .ok rd)
    (hmake : makeSlice maxAlloc pointerSize rd.expectedRecordsCount = some n) :
    (readRecords z maxAlloc kind bs).reserved = n ∧
      ∀ message, (readRecords z maxAlloc kind bs).outcome ≠ .panicked message := by
  unfold readRecords
  simp only [h, hmake]
  cases rd.readAll z rd.expectedRecordsCount.toNat with
  | error e => simp
  | ok p =>
    dsimp only
    cases p.2.close z with
    | error e => simp
    | ok results => simp

theorem makeSlice_eq_none {elemSize : ℕ} {c : ℤ} :
    makeSlice maxAlloc elemSize c = none ↔ c < 0 ∨ maxAlloc < elemSize * c.toNat := by
  unfold makeSlice
  split_ifs with h
  · simp [h]
  · simp [h]

theorem makeSlice_eq_some {elemSize : ℕ} {c : ℤ} :
    makeSlice maxAlloc elemSize c = some n ↔
      0 ≤ c ∧ elemSize * c.toNat ≤ maxAlloc ∧ n = c.toNat := by
  unfold makeSlice
  split_ifs with h
  · refine iff_of_false nofun ?_
    omega
  · rw [Option.some.injEq]
    omega

theorem readRecords_safe_iff (hcrc : z.crc64 [] = 0) :
    Safe z kind bs (readRecords z maxAlloc kind bs) ↔ CountFits z maxAlloc kind bs := by
  cases hnew : newReader z (some (kindNumber kind)) bs with
  | error e =>
    have hfits : CountFits z maxAlloc kind bs := by
      intro rd hrd
      rw [hnew] at hrd
      cases hrd
    refine iff_of_true ?_ hfits
    rw [readRecords_of_error hnew]
    exact ⟨nofun, (canContain_iff hcrc).mpr (Nat.zero_le _)⟩
  | ok rd =>
    have hlength : streamLength z kind bs = rd.rest.length := by
      unfold streamLength
      rw [hnew]
    have hfits : CountFits z maxAlloc kind bs ↔
        0 ≤ rd.expectedRecordsCount ∧ rd.expectedRecordsCount ≤ rd.rest.length ∧
          pointerSize * rd.expectedRecordsCount.toNat ≤ maxAlloc := by
      unfold CountFits
      rw [hnew]
      simp
    rw [hfits]
    cases hmake : makeSlice maxAlloc pointerSize rd.expectedRecordsCount with
    | none =>
      have hpanics := readRecords_panics hnew hmake
      rw [makeSlice_eq_none] at hmake
      refine iff_of_false (fun hsafe => ?_) (by omega)
      exact hsafe.noPanic _ (congrArg Reading.outcome hpanics)
    | some reserved =>
      obtain ⟨hreserved, hnoPanic⟩ := readRecords_reserves hnew hmake
      obtain ⟨hpos, halloc, hcount⟩ := makeSlice_eq_some.mp hmake
      constructor
      · intro hsafe
        have hle := (canContain_iff hcrc).mp hsafe.reserved
        rw [hreserved, hlength] at hle
        omega
      · rintro ⟨-, hle, -⟩
        refine ⟨hnoPanic, (canContain_iff hcrc).mpr ?_⟩
        rw [hreserved, hlength]
        omega

/-- **Readers never panic** and reserve no memory for records that are not there, exactly if the
header of the input, should it be read at all, announces a count that its stream has room for. The
checksum of no bytes is 0. -/
theorem public_readers_safe_iff (z : Codec) (maxAlloc : ℕ) (hcrc : z.crc64 [] = 0) (bs : Bytes) :
    (Safe z .chunk bs (readChunk z maxAlloc bs) ↔ CountFits z maxAlloc .chunk bs) ∧
      (Safe z .snapshot bs (readSnapshot z maxAlloc bs) ↔ CountFits z maxAlloc .snapshot bs) :=
  ⟨readRecords_safe_iff hcrc, readRecords_safe_iff hcrc⟩

/-! ### A header and nothing else -/

/-- A snapshot that announces so many records and ends there. -/
def announcing (count : ℤ) : Bytes :=
  delimit (marshalHeader (fileHeader default 0 .snapshot count "n1" .none))

theorem newReader_announcing {count : ℤ} (hcount : IsInt64 count) :
    newReader default (some (kindNumber .snapshot)) (announcing count) =
      .ok ⟨kindNumber .snapshot, [], count, {}⟩ := by
  have hid : (utf8 "n1").length = 2 := by decide
  have hrange : HeaderInRange (fileHeader default 0 .snapshot count "n1" .none) := by
    refine ⟨?_, ?_, hcount, ?_, ?_⟩
    · exact isInt32_kindNumber .snapshot
    · exact isInt32_compressionNumber .none
    · intro x hx
      cases hx
      decide
    · exact hid.trans_lt (by decide)
  have hsize := length_marshalHeader_le hrange
  have hleader : (fileHeader default 0 .snapshot count "n1" .none).leaderId = "n1" := rfl
  rw [hleader, hid] at hsize
  have hknown : compressionNumber .none ≠ 0 := compressionNumber_ne_zero
  have hread := newReader_of_header (z := default) (b := []) (m := []) hrange rfl hknown rfl
    (by omega)
  rw [List.append_nil, if_neg (by unfold maxSize; omega)] at hread
  exact hread

/-- A snapshot without records: the header announces none. -/
theorem public_readers_safe_iff_empty :
    (default : Codec).crc64 [] = 0 ∧ CountFits default (2 ^ 48) .snapshot (announcing 0) ∧
      Safe default .snapshot (announcing 0) (readSnapshot default (2 ^ 48) (announcing 0)) := by
  have hfits : CountFits default (2 ^ 48) .snapshot (announcing 0) := by
    intro rd hrd
    rw [newReader_announcing (by decide)] at hrd
    cases hrd
    decide
  exact ⟨rfl, hfits, (public_readers_safe_iff default (2 ^ 48) rfl (announcing 0)).2.mpr hfits⟩

/-- **Two headers with right checksums.** One announces -1 records and makes `ReadSnapshot` panic,
the other announces 2⁴⁰ and makes it reserve memory for all of them, with no byte behind it. -/
theorem readSnapshot_panics_and_reserves :
    (readSnapshot default (2 ^ 48) (announcing (-1))).outcome =
        .panicked "runtime error: makeslice: cap out of range" ∧
      (readSnapshot default (2 ^ 48) (announcing (2 ^ 40))).reserved = 2 ^ 40 ∧
      streamLength default .snapshot (announcing (2 ^ 40)) = 0 ∧
      ¬ Safe default .snapshot (announcing (-1))
        (readSnapshot default (2 ^ 48) (announcing (-1))) ∧
      ¬ Safe default .snapshot (announcing (2 ^ 40))
        (readSnapshot default (2 ^ 48) (announcing (2 ^ 40))) := by
  have hnegative := @newReader_announcing (-1) (by decide)
  have hhuge := @newReader_announcing (2 ^ 40) (by decide)
  have hpanics : readSnapshot default (2 ^ 48) (announcing (-1)) = _ :=
    readRecords_panics hnegative (by decide)
  have hreserves : (readSnapshot default (2 ^ 48) (announcing (2 ^ 40))).reserved = 2 ^ 40 :=
    (readRecords_reserves hhuge (by decide)).1
  have hlength : streamLength default .snapshot (announcing (2 ^ 40)) = 0 := by
    unfold streamLength
    rw [hhuge]
    rfl
  refine ⟨congrArg Reading.outcome hpanics, hreserves, hlength, fun hsafe => ?_, fun hsafe => ?_⟩
  · exact hsafe.noPanic _ (congrArg Reading.outcome hpanics)
  · have hle := (canContain_iff (z := default) rfl).mp hsafe.reserved
    rw [hreserves, hlength] at hle
    exact absurd hle (by decide)

end Netsy.Datafile.PublicReaders
