import Netsy.Datafile.RoundTrip

/-! # Damaged data files

What the reader makes of an uncompressed file that was cut off, that lost some of its records or
that has other records in their place.

The reader takes one message after the other from the front and never looks behind what it takes.
So a file that is cut off is read as the whole file is, up to the cut, where a message is missing.
A file without some of its records has fewer messages than the header makes the reader take: the
footer is then taken for a record, and there is none left for `Close`. Other records in the place
of the old ones are all read, and `Close` compares them with the footer. -/

namespace Netsy.Datafile.Damage

open Proto Lib.WireFormat Datafile.Messages Datafile.ReadBack Datafile.RoundTrip Datastore

/-- The full read fails. -/
def Rejected (z : Codec) (expectKind : Option ℤ) (bs : Bytes) : Prop :=
  ∃ e, readFile z expectKind bs = .error e

/-- The footer of a file. -/
def footerFor (z : Codec) (f : DataFile) : FileFooter := fileFooter z (tallyOf {} f.records)

/-- The header and the footer of a file with these record messages between them. -/
def withRecords (z : Codec) (f : DataFile) (rs : List Record) : Bytes :=
  delimit (marshalHeader (headerFor z f)) ++
    ((rs.flatMap fun r => delimit (marshalRecord r)) ++ delimit (marshalFooter (footerFor z f)))

/-- The encodings of the records that the checksum of all records is made of. -/
def recordEncodings (rs : List Record) : Bytes :=
  rs.flatMap fun r => marshalRecord { r with crc := 0 }

variable {z : Codec} {f : DataFile} {rs : List Record} {r : Record} {rd rd' : Reader}
  {expectKind : Option ℤ} {bs q rest : Bytes} {n : ℕ}

theorem rejected_iff : Rejected z expectKind bs ↔ ∀ x, readFile z expectKind bs ≠ .ok x := by
  unfold Rejected
  cases readFile z expectKind bs with
  | error e => simp
  | ok x => simp

theorem writeFile_eq_withRecords (hnone : f.compression = .none) :
    writeFile z f = some (withRecords z f (f.records.map (stamp z))) := by
  rw [writeFile_eq, hnone]
  simp [withRecords, messagesOf, bodyOf, footerFor, pack, List.flatMap_map]

/-! ### Bytes behind what is read -/

theorem unmarshalFrom_append {α : Type} {unmarshal : Bytes → Option α} {a : α}
    (h : unmarshalFrom unmarshal bs = .ok (a, rest)) :
    unmarshalFrom unmarshal (bs ++ q) = .ok (a, rest ++ q) := by
  unfold unmarshalFrom at h ⊢
  cases hread : readDelimited maxSize bs with
  | error e => simp [hread] at h
  | ok p =>
    obtain ⟨m, after⟩ := p
    simp only [hread] at h
    cases hm : unmarshal m with
    | none => simp [hm] at h
    | some b =>
      simp only [hm, Except.ok.injEq, Prod.mk.injEq] at h
      obtain ⟨rfl, rfl⟩ := h
      rw [readDelimited_append hread]
      simp only [hm]

/-- The reader of a longer stream. -/
def extend (rd : Reader) (q : Bytes) : Reader := { rd with rest := rd.rest ++ q }

theorem read_extend (h : rd.read z = .ok (r, rd')) :
    (extend rd q).read z = .ok (r, extend rd' q) := by
  obtain ⟨data, rest, hread, hcrc, rfl⟩ := read_ok h
  have hlonger : unmarshalFrom unmarshalRecord (extend rd q).rest = .ok (⟨r, data⟩, rest ++ q) :=
    unmarshalFrom_append hread
  unfold Reader.read
  rw [hlonger]
  simp [hcrc, extend]

theorem readAll_extend (h : rd.readAll z n = .ok (rs, rd')) :
    (extend rd q).readAll z n = .ok (rs, extend rd' q) := by
  induction n generalizing rd rs with
  | zero =>
    cases h
    rfl
  | succ n ih =>
    obtain ⟨r, rd₁, rs₁, hread, hall, rfl⟩ := readAll_succ_ok h
    rw [Reader.readAll, read_extend hread]
    dsimp only
    rw [ih hall]
    rfl

/-! ### A file that is cut off -/

theorem unmarshalFrom_header (hf : FileInRange f) {header : FileHeader} {data : Bytes}
    (h : unmarshalFrom unmarshalHeader (delimit (marshalHeader (headerFor z f)) ++ bs) =
      .ok (⟨header, data⟩, rest)) : header = headerFor z f ∧ rest = bs := by
  have hread := @unmarshalFrom_delimit bs _ _ _ _
    (unmarshal_marshalHeader (headerInRange (z := z) hf)) (headerSize_lt hf)
  rw [hread] at h
  split_ifs at h
  cases h
  exact ⟨rfl, rfl⟩

theorem reader_of_readAll_bodyOf (hr : ∀ r ∈ rs, RecordInRange r)
    (hrest : rd.rest = bodyOf z rs ++ rest) {rs' : List Record}
    (h : rd.readAll z rs.length = .ok (rs', rd')) :
    rd' = { rd with rest, tally := tallyOf rd.tally rs } := by
  by_cases hfits : ∀ r ∈ rs, recordSize z r ≤ maxSize
  · rw [readAll_bodyOf hr hfits hrest] at h
    exact (Prod.mk.inj (Except.ok.inj h)).2.symm
  · push Not at hfits
    obtain ⟨e, he⟩ := readAll_tooLarge hr hfits hrest
    rw [he] at h
    cases h

theorem unmarshalFrom_footer {footer g : FileFooter} {data : Bytes} (hg : FooterInRange g)
    (h : unmarshalFrom unmarshalFooter (delimit (marshalFooter g)) = .ok (⟨footer, data⟩, rest)) :
    footer = g ∧ rest = [] := by
  have hsize := length_marshalFooter_le (f := g)
  have hread := @unmarshalFrom_delimit [] _ _ _ _ (unmarshal_marshalFooter hg) (by omega)
  rw [List.append_nil] at hread
  rw [hread] at h
  split_ifs at h
  cases h
  exact ⟨rfl, rfl⟩

theorem footerInRange_footerFor (hf : FileInRange f) : FooterInRange (footerFor z f) :=
  footerInRange_tallyOf hf.records isInt64_zero isInt64_zero

theorem unpack_headerFor (hnone : f.compression = .none) :
    unpack z (headerFor z f).compression bs = some bs := by
  have hcompression : (headerFor z f).compression = compressionNumber .none := by
    rw [← hnone]
    rfl
  rw [hcompression]
  rfl

theorem rest_newReader (hf : FileInRange f) (hnone : f.compression = .none)
    (h : newReader z expectKind (delimit (marshalHeader (headerFor z f)) ++ bs) = .ok rd) :
    rd.rest = bs ∧ rd.expectedRecordsCount = f.records.length ∧ rd.tally = {} := by
  obtain ⟨header, data, rest, hread, hunpack, hcount, htally⟩ := newReader_ok h
  obtain ⟨rfl, rfl⟩ := unmarshalFrom_header hf hread
  rw [unpack_headerFor hnone, Option.some.injEq] at hunpack
  exact ⟨hunpack.symm, hcount, htally⟩

theorem rejected_of_cut (hf : FileInRange f) (hnone : f.compression = .none)
    (hcut : bs ++ q = withRecords z f (f.records.map (stamp z))) (hq : q ≠ []) :
    Rejected z expectKind bs := by
  rw [rejected_iff]
  intro x hok
  obtain ⟨rd, rd', hnew, hall, hclose⟩ := readFile_ok hok
  obtain ⟨header, data, rest, hread, hunpack, hcount, -⟩ := newReader_ok hnew
  -- the header is that of the file, and what is left of both streams differs by the cut only
  have hheader := unmarshalFrom_append (q := q) hread
  rw [hcut] at hheader
  obtain ⟨rfl, hrest⟩ := unmarshalFrom_header hf hheader
  rw [unpack_headerFor hnone, Option.some.injEq] at hunpack
  have hlength : rd.expectedRecordsCount.toNat = f.records.length := by
    rw [hcount]
    simp [headerFor, fileHeader]
  have hbody : (extend rd q).rest =
      bodyOf z f.records ++ delimit (marshalFooter (footerFor z f)) := by
    rw [extend, ← hunpack, hrest]
    simp [bodyOf, List.flatMap_map]
  -- so are the footers, and the one that was cut off is not complete
  have hlonger := readAll_extend (q := q) hall
  rw [hlength] at hlonger
  have hfooter : rd'.rest ++ q = delimit (marshalFooter (footerFor z f)) :=
    congrArg Reader.rest (reader_of_readAll_bodyOf hf.records hbody hlonger)
  obtain ⟨-, -, footer, data, after, hlast, -⟩ := close_ok hclose
  have hwhole := unmarshalFrom_append (q := q) hlast
  rw [hfooter] at hwhole
  obtain ⟨-, hnil⟩ := unmarshalFrom_footer (footerInRange_footerFor hf) hwhole
  exact hq (List.append_eq_nil_iff.mp hnil).2

/-! ### A file without some of its records -/

/-- The stream of these messages. -/
def streamOf (ms : List Bytes) : Bytes := ms.flatMap delimit

variable {ms : List Bytes}

theorem unmarshalFrom_streamOf {α : Type} {unmarshal : Bytes → Option α} {a : α}
    (hlt : ∀ m ∈ ms, m.length < 2 ^ 64)
    (h : unmarshalFrom unmarshal (streamOf ms) = .ok (a, rest)) :
    ms ≠ [] ∧ rest = streamOf ms.tail := by
  cases ms with
  | nil => cases h
  | cons m ms =>
    have hcons : streamOf (m :: ms) = delimit m ++ streamOf ms := List.flatMap_cons
    unfold unmarshalFrom at h
    rw [hcons, readDelimited_delimit (hlt m List.mem_cons_self)] at h
    split_ifs at h
    dsimp only at h
    cases hm : unmarshal m with
    | none => simp [hm] at h
    | some b =>
      simp only [hm, Except.ok.injEq, Prod.mk.injEq] at h
      exact ⟨List.cons_ne_nil m ms, h.2.symm⟩

theorem readAll_streamOf (hlt : ∀ m ∈ ms, m.length < 2 ^ 64) (hrest : rd.rest = streamOf ms)
    (h : rd.readAll z n = .ok (rs, rd')) : n ≤ ms.length ∧ rd'.rest = streamOf (ms.drop n) := by
  induction n generalizing rd rs ms with
  | zero =>
    cases h
    exact ⟨Nat.zero_le _, hrest⟩
  | succ n ih =>
    obtain ⟨r, rd₁, rs₁, hread, hall, -⟩ := readAll_succ_ok h
    obtain ⟨data, rest, hmessage, -, rfl⟩ := read_ok hread
    rw [hrest] at hmessage
    obtain ⟨hne, hafter⟩ := unmarshalFrom_streamOf hlt hmessage
    obtain ⟨m, ms, rfl⟩ := List.exists_cons_of_ne_nil hne
    obtain ⟨hle, hdrop⟩ :=
      ih (fun x hx => hlt x (List.mem_cons_of_mem m hx)) hafter hall
    exact ⟨Nat.succ_le_succ hle, hdrop⟩

/-- The messages of a file behind its header. -/
def messages (z : Codec) (f : DataFile) (rs : List Record) : List Bytes :=
  rs.map marshalRecord ++ [marshalFooter (footerFor z f)]

theorem withRecords_eq :
    withRecords z f rs = delimit (marshalHeader (headerFor z f)) ++ streamOf (messages z f rs) := by
  simp [withRecords, streamOf, messages, List.flatMap_map]

theorem length_lt_of_mem_messages (hr : ∀ r ∈ rs, RecordInRange r) :
    ∀ m ∈ messages z f rs, m.length < 2 ^ 64 := by
  intro m hm
  rcases List.mem_append.mp hm with hm | hm
  · obtain ⟨r, hmem, rfl⟩ := List.mem_map.mp hm
    have hle := length_marshalRecord_le (hr r hmem)
    have hmemory := (hr r hmem).inMemory
    omega
  · rw [List.mem_singleton.mp hm]
    have hle := length_marshalFooter_le (f := footerFor z f)
    omega

/-- **A file with fewer records than its header says is rejected**: after so many messages there is
none left for the footer. -/
theorem rejected_of_fewer (hf : FileInRange f) (hnone : f.compression = .none)
    (hr : ∀ r ∈ rs, RecordInRange r) (hlt : rs.length < f.records.length) :
    Rejected z expectKind (withRecords z f rs) := by
  rw [rejected_iff]
  intro x hok
  obtain ⟨rd, rd', hnew, hall, hclose⟩ := readFile_ok hok
  rw [withRecords_eq] at hnew
  obtain ⟨hrest, hcount, -⟩ := rest_newReader hf hnone hnew
  have hlength : rd.expectedRecordsCount.toNat = f.records.length := by
    rw [hcount]
    rfl
  rw [hlength] at hall
  obtain ⟨hle, hleft⟩ := readAll_streamOf (length_lt_of_mem_messages hr) hrest hall
  have hmessages : (messages z f rs).length = rs.length + 1 := by simp [messages]
  have hnil : (messages z f rs).drop f.records.length = [] :=
    List.drop_eq_nil_iff.mpr (by omega)
  obtain ⟨-, -, footer, data, rest, hread, -⟩ := close_ok hclose
  rw [hleft, hnil] at hread
  cases hread

/-! ### A file with other records -/

theorem hashed_tallyOf {t : Tally} :
    (tallyOf t rs).hashed = t.hashed ++ recordEncodings rs := by
  induction rs generalizing t with
  | nil => simp [tallyOf, recordEncodings]
  | cons r rs ih =>
    have hcons : tallyOf t (r :: rs) = tallyOf (t.add r) rs := rfl
    rw [hcons, ih]
    simp [Tally.add, Tally.next, recordEncodings]

theorem stamp_eq_self (hcrc : r.crc = recordCrc z r) : stamp z r = r := by
  unfold stamp
  rw [← hcrc]

theorem bodyOf_eq_of_valid (hcrc : ∀ r ∈ rs, r.crc = recordCrc z r) :
    (rs.flatMap fun r => delimit (marshalRecord r)) = bodyOf z rs := by
  unfold bodyOf
  rw [List.flatMap_congr]
  intro r hr
  rw [stamp_eq_self (hcrc r hr)]

theorem rejected_of_other (hf : FileInRange f) (hnone : f.compression = .none)
    (hr : ∀ r ∈ rs, RecordInRange r) (hcrc : ∀ r ∈ rs, r.crc = recordCrc z r)
    (hlength : rs.length = f.records.length)
    (hdiffers : z.crc64 (recordEncodings rs) ≠ z.crc64 (recordEncodings f.records) ∨
      lastRevisionOf rs ≠ lastRevisionOf f.records) :
    Rejected z expectKind (withRecords z f rs) := by
  rw [rejected_iff]
  intro x hok
  obtain ⟨rd, rd', hnew, hall, hclose⟩ := readFile_ok hok
  obtain ⟨hrest, hcount, htally⟩ := rest_newReader hf hnone hnew
  have hrounds : rd.expectedRecordsCount.toNat = rs.length := by
    rw [hcount, hlength]
    rfl
  rw [hrounds] at hall
  rw [bodyOf_eq_of_valid hcrc] at hrest
  have hend := reader_of_readAll_bodyOf hr hrest hall
  obtain ⟨-, -, footer, data, after, hread, hrecords, hlast⟩ := close_ok hclose
  rw [hend] at hread hrecords hlast
  obtain ⟨rfl, -⟩ := unmarshalFrom_footer (footerInRange_footerFor hf) hread
  have hhashed : z.crc64 (recordEncodings f.records) = z.crc64 (recordEncodings rs) := by
    simpa [footerFor, fileFooter, htally, hashed_tallyOf] using hrecords
  have hrevision : lastRevisionOf rs = lastRevisionOf f.records := by
    simpa [footerFor, fileFooter, htally, lastRevision_tallyOf, lastRevisionOf] using hlast
  rcases hdiffers with hne | hne
  · exact hne hhashed.symm
  · exact hne hrevision

/-! ### Damaged files are rejected -/

/-- **Damaged record sequences are rejected.** Of every uncompressed file that the writer makes:
every strict prefix; the file without one or more of its records; and the file with as many other
records with right checksums, if the checksum of all of them or the last revision differs. -/
theorem damaged_rejected (z : Codec) (f : DataFile) (hf : FileInRange f)
    (hnone : f.compression = .none) (expectKind : Option ℤ) :
    ∃ bs, writeFile z f = some bs ∧
      (∀ p, p <+: bs → p ≠ bs → Rejected z expectKind p) ∧
      (∀ kept, kept.Sublist f.records → kept ≠ f.records →
        Rejected z expectKind (withRecords z f (kept.map (stamp z)))) ∧
      ∀ rs, rs.length = f.records.length →
        (∀ r ∈ rs, RecordInRange r ∧ r.crc = recordCrc z r) →
        z.crc64 (recordEncodings rs) ≠ z.crc64 (recordEncodings f.records) ∨
          lastRevisionOf rs ≠ lastRevisionOf f.records →
        Rejected z expectKind (withRecords z f rs) := by
  refine ⟨_, writeFile_eq_withRecords hnone, ?_, ?_, ?_⟩
  · rintro p ⟨q, hq⟩ hne
    refine rejected_of_cut hf hnone hq fun hnil => hne ?_
    rw [← hq, hnil, List.append_nil]
  · intro kept hsub hne
    have hlt : (kept.map (stamp z)).length < f.records.length := by
      rw [List.length_map]
      exact lt_of_le_of_ne hsub.length_le fun h => hne (hsub.eq_of_length h)
    refine rejected_of_fewer hf hnone (fun r hr => ?_) hlt
    obtain ⟨r, hmem, rfl⟩ := List.mem_map.mp hr
    exact recordInRange_stamp (hf.records r (hsub.subset hmem))
  · intro rs hlength hvalid hdiffers
    exact rejected_of_other hf hnone (fun r hr => (hvalid r hr).1) (fun r hr => (hvalid r hr).2)
      hlength hdiffers

/-- A chunk with the revisions 3 and 4. -/
def twoPlain : DataFile := Producer.writeChunk.file 0 ([3, 4].map plainRecord) "n1"

theorem fileInRange_twoPlain : FileInRange twoPlain := by
  have hid : (utf8 "n1").length = 2 := by decide
  exact fileInRange_plain (by decide) (by decide) (by omega)

/-- The chunk with nothing left of it, without its first record, and with its records the other way
round. -/
theorem damaged_rejected_two :
    FileInRange twoPlain ∧ twoPlain.compression = .none ∧ Rejected default none [] ∧
      Rejected default none
        (withRecords default twoPlain ([plainRecord 4].map (stamp default))) ∧
      Rejected default none
        (withRecords default twoPlain ([plainRecord 4, plainRecord 3].map (stamp default))) := by
  have hnone : twoPlain.compression = .none := by decide
  have hrange : ∀ r ∈ [plainRecord 4, plainRecord 3].map (stamp default),
      RecordInRange r ∧ r.crc = recordCrc default r := by
    have h3 : RecordInRange (plainRecord 3) := recordInRange_plainRecord (by decide)
    have h4 : RecordInRange (plainRecord 4) := recordInRange_plainRecord (by decide)
    simp only [List.map_cons, List.map_nil, List.forall_mem_cons]
    exact ⟨⟨recordInRange_stamp h4, rfl⟩, ⟨recordInRange_stamp h3, rfl⟩, by simp⟩
  obtain ⟨bs, hbs, hcut, hfewer, hother⟩ :=
    damaged_rejected default twoPlain fileInRange_twoPlain hnone none
  refine ⟨fileInRange_twoPlain, hnone, hcut [] List.nil_prefix ?_, ?_, ?_⟩
  · rintro rfl
    rw [writeFile_eq_withRecords hnone, Option.some.injEq] at hbs
    simp [withRecords, delimit, varint_ne_nil] at hbs
  · exact hfewer [plainRecord 4] (by decide) (by decide)
  · exact hother _ rfl hrange (Or.inr (by decide))

end Netsy.Datafile.Damage
