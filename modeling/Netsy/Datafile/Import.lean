import Netsy.Datafile.RoundTrip

/-! # Importing a data file

`DownloadAndImportFile` replays every record as soon as it has read it. The next record may be
damaged or in conflict with a row, and the count, the footer and the checksum of all records are
looked at when the last one is in the table. So an import that fails after the first new record
leaves a part of the file behind.

Of the decompressor nothing is assumed but that it inverts the compressor: what it gives for a
damaged stream is what it has delivered before it finds the fault. A file may hold a time that the
table has no text for. Its record is imported, and the row is read without the time. -/

namespace Netsy.Datafile.Import

open Proto Lib.WireFormat Datafile.Messages Datafile.ReadBack
open Datafile.RoundTrip LocalDB.Schema LocalDB.Replicate Lib.SortedList
open Datastore (FileKind DataFile estimatedSize)

inductive ImportError
  | download
  | newReader (e : ReadError)
  | readRecord (i : ℕ) (e : ReadError)
  | replicate (i : ℕ) (e : ReplicateError)
  | close (e : ReadError)
deriving DecidableEq, Repr

variable (z : Codec) (x : TimeText) (clock : ℕ → Time)

/-- The loop of `DownloadAndImportFile` from record `i` on, with `n` records to go. The clock says
when a record is replayed. -/
def importLoop : ℕ → ℕ → Reader → Table → Table × Except ImportError Reader
  | 0, _, rd, t => (t, .ok rd)
  | n + 1, i, rd, t =>
    match rd.read z with
    | .error e => (t, .error (.readRecord i e))
    | .ok (record, rd) =>
      match x.replicateRecord t (clock i) record with
      | .error e => (t, .error (.replicate i e))
      | .ok (t, _) => importLoop n (i + 1) rd t

/-- `DownloadAndImportFile`; an object that cannot be read is `none`. -/
def downloadAndImportFile (t : Table) (expectedKind : FileKind) (object : Option Bytes) :
    Table × Except ImportError Unit :=
  match object with
  | none => (t, .error .download)
  | some bs =>
    match newReader z (some (kindNumber expectedKind)) bs with
    | .error e => (t, .error (.newReader e))
    | .ok rd =>
      match importLoop z x clock rd.expectedRecordsCount.toNat 0 rd t with
      | (t, .error e) => (t, .error e)
      | (t, .ok rd) =>
        match rd.close z with
        | .error e => (t, .error (.close e))
        | .ok _ => (t, .ok ())

/-! ### Reading and replaying taken apart -/

/-- The records that are read before the first fault, and how the reading ends. -/
def scanRecords : ℕ → Reader → List Record × Except ReadError Reader
  | 0, rd => ([], .ok rd)
  | n + 1, rd =>
    match rd.read z with
    | .error e => ([], .error e)
    | .ok (record, rd) => (record :: (scanRecords n rd).1, (scanRecords n rd).2)

/-- The records of an object that are read before the first fault, and whether there is none. -/
def scan (expectedKind : FileKind) (object : Option Bytes) : List Record × Bool :=
  match object with
  | none => ([], false)
  | some bs =>
    match newReader z (some (kindNumber expectedKind)) bs with
    | .error _ => ([], false)
    | .ok rd =>
      match scanRecords z rd.expectedRecordsCount.toNat rd with
      | (rs, .error _) => (rs, false)
      | (rs, .ok rd) =>
        match rd.close z with
        | .error _ => (rs, false)
        | .ok _ => (rs, true)

/-- The records are replayed one after the other until one is refused. -/
def importAll : ℕ → List Record → Table → Table × Except ImportError Unit
  | _, [], t => (t, .ok ())
  | i, r :: rs, t =>
    match x.replicateRecord t (clock i) r with
    | .error e => (t, .error (.replicate i e))
    | .ok (t, _) => importAll (i + 1) rs t

variable {z x clock}
variable {t t' u : Table} {r r' y row : Record} {rs : List Record} {i n : ℕ} {rd rd' : Reader}
  {expectedKind : FileKind} {object : Option Bytes} {now : Time}

theorem importLoop_fst : (importLoop z x clock n i rd t).1 =
    (importAll x clock i (scanRecords z n rd).1 t).1 := by
  induction n generalizing i rd t with
  | zero => rfl
  | succ n ih =>
    unfold importLoop scanRecords
    cases hread : rd.read z with
    | error e => rfl
    | ok p =>
      dsimp only
      unfold importAll
      cases hr : x.replicateRecord t (clock i) p.1 with
      | error e => rfl
      | ok q => exact ih

theorem importLoop_ok_iff : (importLoop z x clock n i rd t).2 = .ok rd' ↔
    (importAll x clock i (scanRecords z n rd).1 t).2 = .ok () ∧
      (scanRecords z n rd).2 = .ok rd' := by
  induction n generalizing i rd t with
  | zero => simp [importLoop, scanRecords, importAll]
  | succ n ih =>
    unfold importLoop scanRecords
    cases hread : rd.read z with
    | error e => simp
    | ok p =>
      dsimp only
      unfold importAll
      cases hr : x.replicateRecord t (clock i) p.1 with
      | error e => simp
      | ok q => exact ih

theorem downloadAndImportFile_of_opened {bs : Bytes}
    (h : newReader z (some (kindNumber expectedKind)) bs = .ok rd) :
    (downloadAndImportFile z x clock t expectedKind (some bs)).1 =
        (importLoop z x clock rd.expectedRecordsCount.toNat 0 rd t).1 ∧
      ((downloadAndImportFile z x clock t expectedKind (some bs)).2 = .ok () ↔
        ∃ rd' results, (importLoop z x clock rd.expectedRecordsCount.toNat 0 rd t).2 = .ok rd' ∧
          rd'.close z = .ok results) := by
  unfold downloadAndImportFile
  simp only [h]
  rcases importLoop z x clock rd.expectedRecordsCount.toNat 0 rd t with ⟨t₁, e | rd₁⟩
  · simp
  · cases hclose : rd₁.close z with
    | error e => simp [hclose]
    | ok results => simp [hclose]

theorem scan_of_opened {bs : Bytes}
    (h : newReader z (some (kindNumber expectedKind)) bs = .ok rd) :
    (scan z expectedKind (some bs)).1 = (scanRecords z rd.expectedRecordsCount.toNat rd).1 ∧
      ((scan z expectedKind (some bs)).2 = true ↔
        ∃ rd' results, (scanRecords z rd.expectedRecordsCount.toNat rd).2 = .ok rd' ∧
          rd'.close z = .ok results) := by
  unfold scan
  simp only [h]
  rcases scanRecords z rd.expectedRecordsCount.toNat rd with ⟨rs, e | rd₁⟩
  · simp
  · cases hclose : rd₁.close z with
    | error e => simp [hclose]
    | ok results => simp [hclose]

/-- **An import** leaves the table of the records that were read, and it succeeds exactly if they
were all replayed and the file has no fault. -/
theorem downloadAndImportFile_eq (z : Codec) (x : TimeText) (clock : ℕ → Time) (t : Table)
    (expectedKind : FileKind) (object : Option Bytes) :
    (downloadAndImportFile z x clock t expectedKind object).1 =
        (importAll x clock 0 (scan z expectedKind object).1 t).1 ∧
      ((downloadAndImportFile z x clock t expectedKind object).2 = .ok () ↔
        (importAll x clock 0 (scan z expectedKind object).1 t).2 = .ok () ∧
          (scan z expectedKind object).2 = true) := by
  cases object with
  | none => simp [downloadAndImportFile, scan, importAll]
  | some bs =>
    cases h : newReader z (some (kindNumber expectedKind)) bs with
    | error e => simp [downloadAndImportFile, scan, importAll, h]
    | ok rd =>
      obtain ⟨htable, hok⟩ : (downloadAndImportFile z x clock t expectedKind (some bs)).1 = _ ∧
          (_ ↔ _) := downloadAndImportFile_of_opened h
      obtain ⟨hread, hintact⟩ := scan_of_opened h
      refine ⟨?_, ?_⟩
      · rw [htable, hread, importLoop_fst]
      · rw [hok, hintact, hread]
        simp only [importLoop_ok_iff, and_assoc, exists_and_left]

theorem readAll_eq (z : Codec) (n : ℕ) (rd : Reader) :
    rd.readAll z n = (scanRecords z n rd).2.map fun rd' => ((scanRecords z n rd).1, rd') := by
  induction n generalizing rd with
  | zero => rfl
  | succ n ih =>
    unfold Reader.readAll scanRecords
    cases hread : rd.read z with
    | error e => rfl
    | ok p =>
      dsimp only
      rw [ih]
      cases (scanRecords z n p.2).2 with
      | error e => rfl
      | ok rd' => rfl

theorem exists_readFile_iff {bs : Bytes} :
    (∃ results, readFile z (some (kindNumber expectedKind)) bs = .ok (rs, results)) ↔
      scan z expectedKind (some bs) = (rs, true) := by
  unfold readFile scan
  dsimp only
  cases newReader z (some (kindNumber expectedKind)) bs with
  | error e => simp
  | ok rd =>
    dsimp only
    rw [readAll_eq]
    rcases scanRecords z rd.expectedRecordsCount.toNat rd with ⟨rs', e | rd'⟩
    · simp [Except.map]
    · cases hclose : rd'.close z with
      | error e => simp [Except.map, hclose]
      | ok results => simp [Except.map, hclose]

/-! ### Replaying a list of records -/

/-- Every record is accepted by the table, and no two of them stand in each other's way. -/
def Importable (t : Table) (rs : List Record) : Prop :=
  (∀ r ∈ rs, Accepts t r) ∧ rs.Pairwise Agrees

/-- The record is accepted because it has its row already. -/
def Stored (t : Table) (r : Record) : Prop :=
  Accepts t r ∧ ∃ b ∈ t, recordsEqualForReplication b r

instance (t : Table) (r : Record) : Decidable (Stored t r) := inferInstanceAs (Decidable (_ ∧ _))

/-- The first record that is not stored, if there is one, is refused. -/
def StopsBeforeNew (t : Table) (rs : List Record) : Prop :=
  ∀ r ∈ rs.find? fun r => ¬ Stored t r, ¬ Accepts t r

/-- A row is read as a copy of the record. -/
def Contains (x : TimeText) (t : Table) (r : Record) : Prop :=
  ∃ row ∈ asRead x t, recordsEqualForReplication row r

/-- The record is read back once it is imported. -/
def Regained (x : TimeText) (t : Table) (r : Record) : Prop := Stored (asRead x t) r ∨ Readable x r

theorem agrees_congr (h : recordsEqualForReplication r' r) : Agrees r' y ↔ Agrees r y := by
  obtain ⟨h1, h2, h3⟩ := recordsEqualForReplication_iff.mp h
  have hrev := (sameRecord_of_recordsEqual h).revision_eq
  have hidx := indexKey_eq_of_recordsEqual h
  unfold Agrees
  rw [recordsEqualForReplication_iff, recordsEqualForReplication_iff, hrev, hidx, h1, h2, h3]

/-- A record without what a node or a file puts on its copy. -/
def bare (r : Record) : Record := { r with replicatedAt := none, crc := 0 }

theorem recordsEqual_iff_bare {a b : Record} :
    recordsEqualForReplication a b ↔ bare a = bare b := by
  rw [recordsEqualForReplication_iff]
  cases a
  cases b
  simp only [Record.identity, bare, Record.mk.injEq]
  tauto

theorem revision_eq_of_bare {a b : Record} (h : bare a = bare b) : a.revision = b.revision :=
  (congrArg Record.revision h :)

theorem readable_congr (h : recordsEqualForReplication r y) : Readable x r ↔ Readable x y := by
  have hbare := recordsEqual_iff_bare.mp h
  have hcreated : r.createdAt = y.createdAt := (congrArg Record.createdAt hbare :)
  have hcompacted : r.compactedAt = y.compactedAt := (congrArg Record.compactedAt hbare :)
  unfold Readable
  rw [hcreated, hcompacted]

theorem recordsEqual_replicatedRow_iff :
    recordsEqualForReplication (selectRecord x (replicatedRow now r)) r ↔ Readable x r := by
  have hrow : recordsEqualForReplication (selectRecord x (replicatedRow now r)) r ↔
      bare (selectRecord x r) = bare r := recordsEqual_iff_bare
  rw [hrow]
  cases r
  simp [bare, selectRecord, Readable]

theorem subset_replicateRecord (h : x.replicateRecord t now r = .ok (u, r')) (hrow : row ∈ t) :
    row ∈ u := by
  rcases TimeText.replicateRecord_cases h with ⟨hu, -⟩ | ⟨rfl, -⟩
  · exact (Table.mem_insert hu).mpr (Or.inr hrow)
  · exact hrow

theorem subset_asRead (h : ∀ b ∈ t, b ∈ u) (hrow : row ∈ asRead x t) : row ∈ asRead x u := by
  obtain ⟨b, hb, rfl⟩ := mem_asRead.mp hrow
  exact mem_asRead.mpr ⟨b, h b hb, rfl⟩

theorem replicateRecord_of_regained (h : x.replicateRecord t now r = .ok (u, r'))
    (hr : Regained x t r) : ∃ v ∈ asRead x u, recordsEqualForReplication v r ∧
      ∀ b ∈ asRead x u, b ∈ asRead x t ∨ b = v := by
  rcases TimeText.replicateRecord_cases h with ⟨hu, -⟩ | ⟨rfl, hmem, heq⟩
  · have hfits : t.Fits (replicatedRow now r) := by
      by_contra hn
      rw [Table.insert_eq_none.mpr hn] at hu
      cases hu
    have hreadable : Readable x r := by
      refine hr.resolve_left fun ⟨_, b, hb, heq⟩ => ?_
      exact (fits_asRead.mpr hfits).1 b hb (sameRecord_of_recordsEqual heq).revision_eq
    refine ⟨selectRecord x (replicatedRow now r), ?_,
      recordsEqual_replicatedRow_iff.mpr hreadable, fun b hb => ?_⟩
    · exact mem_asRead.mpr ⟨_, (Table.mem_insert hu).mpr (Or.inl rfl), rfl⟩
    · obtain ⟨a, ha, rfl⟩ := mem_asRead.mp hb
      rcases (Table.mem_insert hu).mp ha with rfl | ha
      · exact Or.inr rfl
      · exact Or.inl (mem_asRead.mpr ⟨a, ha, rfl⟩)
  · exact ⟨r', hmem, heq, fun b hb => Or.inl hb⟩

theorem accepts_replicateRecord (h : x.replicateRecord t now r = .ok (u, r'))
    (hr : Regained x t r) :
    Accepts (asRead x u) y ↔ Accepts (asRead x t) y ∧ Agrees r y := by
  obtain ⟨v, hv, heq, hnew⟩ := replicateRecord_of_regained h hr
  rw [← agrees_congr heq]
  constructor
  · intro hu
    exact ⟨hu.mono fun b hb => subset_asRead (fun _ => subset_replicateRecord h) hb,
      hu.2.2 v hv⟩
  · rintro ⟨⟨h0, hk, hall⟩, hagrees⟩
    refine ⟨h0, hk, fun b hb => ?_⟩
    rcases hnew b hb with hb | rfl
    · exact hall b hb
    · exact hagrees

theorem regained_replicateRecord (h : x.replicateRecord t now r = .ok (u, r'))
    (hr : Regained x t r) (hy : Accepts (asRead x u) y) : Regained x u y ↔ Regained x t y := by
  obtain ⟨v, hv, heq, hnew⟩ := replicateRecord_of_regained h hr
  have hkeep : ∀ b ∈ asRead x t, b ∈ asRead x u := fun b hb =>
    subset_asRead (fun _ => subset_replicateRecord h) hb
  constructor
  · rintro (⟨-, b, hb, hby⟩ | hreadable)
    · rcases hnew b hb with hb | rfl
      · exact Or.inl ⟨hy.mono hkeep, b, hb, hby⟩
      · -- the record is the one before it once more
        rw [recordsEqual_iff_bare] at heq hby
        have hry : recordsEqualForReplication r y := recordsEqual_iff_bare.mpr (heq.symm.trans hby)
        rcases hr with ⟨-, a, ha, har⟩ | hreadable
        · rw [recordsEqual_iff_bare] at har hry
          exact Or.inl ⟨hy.mono hkeep, a, ha, recordsEqual_iff_bare.mpr (har.trans hry)⟩
        · exact Or.inr ((readable_congr hry).mp hreadable)
    · exact Or.inr hreadable
  · rintro (⟨-, b, hb, hby⟩ | hreadable)
    · exact Or.inl ⟨hy, b, hkeep b hb, hby⟩
    · exact Or.inr hreadable

theorem not_accepts_of_error {e : ReplicateError} (h : x.replicateRecord t now r = .error e) :
    ¬ Accepts (asRead x t) r := by
  intro haccepts
  obtain ⟨p, hp⟩ : ∃ p, x.replicateRecord t now r = .ok p :=
    TimeText.exists_replicateRecord_ok_iff.mpr haccepts
  rw [h] at hp
  cases hp

theorem subset_importAll (hrow : row ∈ t) : row ∈ (importAll x clock i rs t).1 := by
  induction rs generalizing i t with
  | nil => exact hrow
  | cons r rs ih =>
    unfold importAll
    cases hr : x.replicateRecord t (clock i) r with
    | error e => exact hrow
    | ok p => exact ih (subset_replicateRecord hr hrow)

/-- A record is read back from the table that it was imported into, and from every larger one. -/
theorem contains_iff_regained (h : x.replicateRecord t now r = .ok (u, r'))
    (hkeep : ∀ b ∈ u, b ∈ t') : Contains x t' r ↔ Regained x t r := by
  constructor
  · rintro ⟨v, hv, heq⟩
    rcases TimeText.replicateRecord_cases h with ⟨hu, -⟩ | ⟨rfl, hmem, heq'⟩
    · have hnew : selectRecord x (replicatedRow now r) ∈ asRead x t' :=
        mem_asRead.mpr ⟨_, hkeep _ ((Table.mem_insert hu).mpr (Or.inl rfl)), rfl⟩
      -- the revision has one row, the one that was inserted
      have hrow : v = selectRecord x (replicatedRow now r) :=
        Table.eq_of_revision_eq hv hnew (sameRecord_of_recordsEqual heq).revision_eq
      exact Or.inr (recordsEqual_replicatedRow_iff.mp (hrow ▸ heq))
    · exact Or.inl ⟨TimeText.exists_replicateRecord_ok_iff.mp ⟨_, h⟩, r', hmem, heq'⟩
  · intro hr
    obtain ⟨v, hv, heq, -⟩ := replicateRecord_of_regained h hr
    exact ⟨v, subset_asRead hkeep hv, heq⟩

theorem importAll_ok_iff :
    ((importAll x clock i rs t).2 = .ok () ∧
        ∀ r ∈ rs, Contains x (importAll x clock i rs t).1 r) ↔
      Importable (asRead x t) rs ∧ ∀ r ∈ rs, Regained x t r := by
  induction rs generalizing i t with
  | nil => simp [importAll, Importable]
  | cons r rs ih =>
    unfold importAll
    cases hr : x.replicateRecord t (clock i) r with
    | error e =>
      have hrefused : ¬ Accepts (asRead x t) r := not_accepts_of_error hr
      simp [Importable, hrefused]
    | ok p =>
      have haccepted : Accepts (asRead x t) r := TimeText.exists_replicateRecord_ok_iff.mp ⟨p, hr⟩
      have hcontains : Contains x (importAll x clock (i + 1) rs p.1).1 r ↔ Regained x t r :=
        contains_iff_regained hr fun b => subset_importAll
      dsimp only
      rw [List.forall_mem_cons, List.forall_mem_cons, hcontains, and_left_comm, ih]
      unfold Importable
      rw [List.forall_mem_cons, List.pairwise_cons, and_iff_right haccepted]
      constructor
      · rintro ⟨hback, ⟨haccepts, hpairs⟩, hbacks⟩
        have hboth := fun y hy => (accepts_replicateRecord hr hback).mp (haccepts y hy)
        exact ⟨⟨fun y hy => (hboth y hy).1, fun y hy => (hboth y hy).2, hpairs⟩, hback,
          fun y hy => (regained_replicateRecord hr hback (haccepts y hy)).mp (hbacks y hy)⟩
      · rintro ⟨⟨haccepts, hagrees, hpairs⟩, hback, hbacks⟩
        have hlater : ∀ y ∈ rs, Accepts (asRead x p.1) y := fun y hy =>
          (accepts_replicateRecord hr hback).mpr ⟨haccepts y hy, hagrees y hy⟩
        exact ⟨hback, ⟨hlater, hpairs⟩, fun y hy =>
          (regained_replicateRecord hr hback (hlater y hy)).mpr (hbacks y hy)⟩

theorem accepts_of_importAll_ok (h : (importAll x clock i rs t).2 = .ok ()) :
    ∀ r ∈ rs, Accepts (asRead x t) r := by
  induction rs generalizing i t with
  | nil => exact fun r hr => absurd hr List.not_mem_nil
  | cons r rs ih =>
    unfold importAll at h
    cases hr : x.replicateRecord t (clock i) r with
    | error e => simp [hr] at h
    | ok p =>
      simp only [hr] at h
      refine List.forall_mem_cons.mpr
        ⟨TimeText.exists_replicateRecord_ok_iff.mp ⟨p, hr⟩, fun y hy => (ih h y hy).mono ?_⟩
      exact fun b hb => subset_asRead (fun _ => subset_replicateRecord hr) hb

/-- Records in ascending order stay above the table when the first of them is inserted. -/
theorem above_insert (hlt : ∀ row ∈ t, ∀ y ∈ r :: rs, row.revision < y.revision)
    (hbefore : ∀ y ∈ rs, r.revision < y.revision)
    (hu : t.insert (replicatedRow now r) = some u) :
    ∀ row ∈ u, ∀ y ∈ rs, row.revision < y.revision := by
  intro row hrow y hy
  rcases (Table.mem_insert hu).mp hrow with rfl | hrow
  · exact hbefore y hy
  · exact hlt row hrow y (List.mem_cons_of_mem r hy)

theorem rows_importAll (hlt : ∀ row ∈ t, ∀ r ∈ rs, row.revision < r.revision)
    (hasc : Ascending Record.revision rs) (hall : Importable t rs) :
    (importAll x clock i rs t).2 = .ok () ∧
      (importAll x clock i rs t).1.rows.map bare = t.rows.map bare ++ rs.map bare := by
  induction rs generalizing i t with
  | nil => simp [importAll]
  | cons r rs ih =>
    obtain ⟨hbefore, hasc⟩ := List.pairwise_cons.mp hasc
    have haccepts : Accepts t r := hall.1 r List.mem_cons_self
    have hbelow : ∀ row ∈ t, row.revision < r.revision := fun row hrow =>
      hlt row hrow r List.mem_cons_self
    have hfits : t.Fits (replicatedRow (clock i) r) := by
      refine ⟨fun b hb => (hbelow b hb).ne, fun b hb hidx => ?_⟩
      have heq := haccepts.2.2 b hb (Or.inr hidx.symm)
      exact (hbelow b hb).ne (sameRecord_of_recordsEqual heq).revision_eq
    obtain ⟨u, hu⟩ :=
      Option.ne_none_iff_exists'.mp (mt Table.insert_eq_none.mp (not_not.mpr hfits))
    have hok : x.replicateRecord t (clock i) r =
        .ok (u, selectRecord x (replicatedRow (clock i) r)) := by
      simp [TimeText.replicateRecord, haccepts.1, haccepts.2.1, hu]
    have hrows : u.rows = t.rows ++ [replicatedRow (clock i) r] := Table.rows_insert hu hbelow
    have hlater := above_insert hlt hbefore hu
    have hnext : Importable u rs := by
      obtain ⟨hagrees, hpairs⟩ := List.pairwise_cons.mp hall.2
      refine ⟨fun y hy => ?_, hpairs⟩
      obtain ⟨h0, hk, hold⟩ := hall.1 y (List.mem_cons_of_mem r hy)
      refine ⟨h0, hk, fun b hb => ?_⟩
      rcases (Table.mem_insert hu).mp hb with rfl | hb
      · exact (agrees_congr (recordsEqualForReplication_replicatedRow _ r)).mpr (hagrees y hy)
      · exact hold b hb
    have hstep : importAll x clock i (r :: rs) t = importAll x clock (i + 1) rs u := by
      rw [importAll, hok]
    obtain ⟨hreplayed, hcopies⟩ := ih (i := i + 1) hlater hasc hnext
    rw [hstep]
    refine ⟨hreplayed, ?_⟩
    rw [hcopies, hrows]
    simp [bare, replicatedRow]

/-- **New records that are all replayed** can be imported: as none of them has a row, no time
matters. -/
theorem importable_of_importAll_ok (hlt : ∀ row ∈ t, ∀ r ∈ rs, row.revision < r.revision)
    (hasc : Ascending Record.revision rs) (h : (importAll x clock i rs t).2 = .ok ()) :
    Importable t rs := by
  induction rs generalizing i t with
  | nil => simp [Importable]
  | cons r rs ih =>
    obtain ⟨hbefore, hasc⟩ := List.pairwise_cons.mp hasc
    unfold importAll at h
    cases hr : x.replicateRecord t (clock i) r with
    | error e => simp [hr] at h
    | ok p =>
      simp only [hr] at h
      have hbelow : ∀ row ∈ asRead x t, row.revision < r.revision := by
        intro row hrow
        obtain ⟨b, hb, rfl⟩ := mem_asRead.mp hrow
        exact hlt b hb r List.mem_cons_self
      obtain ⟨hu, -⟩ : t.insert (replicatedRow (clock i) r) = some p.1 ∧ _ := by
        refine (TimeText.replicateRecord_cases hr).resolve_right fun ⟨_, hmem, heq⟩ => ?_
        exact (hbelow _ hmem).ne (sameRecord_of_recordsEqual heq).revision_eq
      obtain ⟨haccepts, hpairs⟩ := ih (above_insert hlt hbefore hu) hasc h
      obtain ⟨h0, hk, hagrees⟩ := TimeText.exists_replicateRecord_ok_iff.mp ⟨p, hr⟩
      refine ⟨List.forall_mem_cons.mpr ⟨⟨h0, hk, fun b hb hclash => ?_⟩, fun y hy => ?_⟩,
        List.pairwise_cons.mpr ⟨fun y hy => ?_, hpairs⟩⟩
      · have hmem : selectRecord x b ∈ asRead x t := mem_asRead.mpr ⟨b, hb, rfl⟩
        have heq := hagrees _ hmem hclash
        exact absurd (sameRecord_of_recordsEqual heq).revision_eq (hbelow _ hmem).ne
      · exact (haccepts y hy).mono fun b hb => (Table.mem_insert hu).mpr (Or.inr hb)
      · have hrow := (haccepts y hy).2.2 _ ((Table.mem_insert hu).mpr (Or.inl rfl))
        exact (agrees_congr (recordsEqualForReplication_replicatedRow _ r)).mp hrow

theorem importAll_eq_iff :
    (importAll x clock i rs t).1 = t ↔ StopsBeforeNew (asRead x t) rs := by
  induction rs generalizing i with
  | nil => simp [importAll, StopsBeforeNew]
  | cons r rs ih =>
    unfold importAll
    by_cases hstored : Stored (asRead x t) r
    · obtain ⟨b, hb, heq⟩ := hstored.2
      have hskip : StopsBeforeNew (asRead x t) (r :: rs) ↔ StopsBeforeNew (asRead x t) rs := by
        simp [StopsBeforeNew, hstored]
      rw [TimeText.replicateRecord_of_copy hstored.1.1 hstored.1.2.1 hb heq, hskip]
      exact ih
    · have hfirst : StopsBeforeNew (asRead x t) (r :: rs) ↔ ¬ Accepts (asRead x t) r := by
        simp [StopsBeforeNew, hstored]
      rw [hfirst]
      cases hr : x.replicateRecord t (clock i) r with
      | error e => exact iff_of_true rfl (not_accepts_of_error hr)
      | ok p =>
        have haccepted : Accepts (asRead x t) r :=
          TimeText.exists_replicateRecord_ok_iff.mp ⟨p, hr⟩
        obtain ⟨hu, -⟩ : t.insert (replicatedRow (clock i) r) = some p.1 ∧ _ :=
          (TimeText.replicateRecord_cases hr).resolve_right fun ⟨_, hmem, heq⟩ =>
            hstored ⟨haccepted, _, hmem, heq⟩
        have hkept : replicatedRow (clock i) r ∈ (importAll x clock (i + 1) rs p.1).1 :=
          subset_importAll ((Table.mem_insert hu).mpr (Or.inl rfl))
        refine iff_of_false (fun hsame => ?_) (not_not.mpr haccepted)
        dsimp only at hsame
        rw [hsame] at hkept
        -- the row would have been there before
        have htaken : ¬ t.Fits (replicatedRow (clock i) r) := fun hfits => hfits.1 _ hkept rfl
        rw [Table.insert_eq_none.mpr htaken] at hu
        cases hu

/-! ### All or nothing -/

/-- An import that fails leaves the table as it was; one that succeeds leaves its rows, and every
record that is read from the object is in the table. -/
structure AllOrNothing (z : Codec) (x : TimeText) (clock : ℕ → Time) (t : Table)
    (expectedKind : FileKind) (object : Option Bytes) : Prop where
  failed : ∀ e, (downloadAndImportFile z x clock t expectedKind object).2 = .error e →
    (downloadAndImportFile z x clock t expectedKind object).1 = t
  imported : (downloadAndImportFile z x clock t expectedKind object).2 = .ok () →
    (∀ row ∈ t, row ∈ (downloadAndImportFile z x clock t expectedKind object).1) ∧
      ∃ bs rs results, object = some bs ∧
        readFile z (some (kindNumber expectedKind)) bs = .ok (rs, results) ∧
        ∀ r ∈ rs, Contains x (downloadAndImportFile z x clock t expectedKind object).1 r

theorem exists_readFile_of_ok
    (h : (downloadAndImportFile z x clock t expectedKind object).2 = .ok ()) :
    ∃ bs results, object = some bs ∧
      readFile z (some (kindNumber expectedKind)) bs =
        .ok ((scan z expectedKind object).1, results) := by
  obtain ⟨-, hok⟩ := downloadAndImportFile_eq z x clock t expectedKind object
  obtain ⟨-, hintact⟩ := hok.mp h
  cases object with
  | none => simp [scan] at hintact
  | some bs =>
    obtain ⟨results, hread⟩ := exists_readFile_iff.mpr (Prod.ext rfl hintact)
    exact ⟨bs, results, rfl, hread⟩

theorem StopsBeforeNew.stored (h : StopsBeforeNew t rs) (haccepts : ∀ r ∈ rs, Accepts t r) :
    ∀ r ∈ rs, Stored t r := by
  by_contra hnone
  push Not at hnone
  obtain ⟨r, hr, hnew⟩ := hnone
  cases hfind : rs.find? fun r => ¬ Stored t r with
  | none => exact hnew (by simpa using List.find?_eq_none.mp hfind r hr)
  | some y => exact h y hfind (haccepts y (List.mem_of_find?_eq_some hfind))

/-- **Imports are all or nothing** exactly if the file has no fault, its records can be imported and
their times can be read, or the first of its records that the table does not have is refused before
anything is replayed. -/
theorem allOrNothing_iff (z : Codec) (x : TimeText) (clock : ℕ → Time) (t : Table)
    (expectedKind : FileKind) (object : Option Bytes) :
    AllOrNothing z x clock t expectedKind object ↔
      ((scan z expectedKind object).2 = true ∧
          Importable (asRead x t) (scan z expectedKind object).1 ∧
          ∀ r ∈ (scan z expectedKind object).1, Regained x t r) ∨
        StopsBeforeNew (asRead x t) (scan z expectedKind object).1 := by
  obtain ⟨htable, hok⟩ := downloadAndImportFile_eq z x clock t expectedKind object
  constructor
  · intro hall
    cases hresult : (downloadAndImportFile z x clock t expectedKind object).2 with
    | ok _ =>
      obtain ⟨hreplayed, hintact⟩ := hok.mp hresult
      obtain ⟨-, bs, rs, results, rfl, hread, hcontains⟩ := hall.imported hresult
      have hscan := exists_readFile_iff.mp ⟨results, hread⟩
      rw [htable] at hcontains
      simp only [hscan] at hreplayed hcontains ⊢
      exact Or.inl ⟨trivial, importAll_ok_iff.mp ⟨hreplayed, hcontains⟩⟩
    | error e =>
      have hsame := hall.failed e hresult
      rw [htable] at hsame
      exact Or.inr (importAll_eq_iff.mp hsame)
  · rintro (⟨hintact, himportable⟩ | hstops)
    · obtain ⟨hreplayed, hcontains⟩ := importAll_ok_iff.mpr himportable
      have hsuccess := hok.mpr ⟨hreplayed, hintact⟩
      refine ⟨fun e he => ?_, fun h => ⟨fun row hrow => ?_, ?_⟩⟩
      · rw [hsuccess] at he
        cases he
      · rw [htable]
        exact subset_importAll hrow
      · obtain ⟨bs, results, hobject, hread⟩ := exists_readFile_of_ok h
        rw [htable]
        exact ⟨bs, _, results, hobject, hread, hcontains⟩
    · have hsame : (downloadAndImportFile z x clock t expectedKind object).1 = t := by
        rw [htable]
        exact importAll_eq_iff.mpr hstops
      refine ⟨fun e _ => hsame, fun h => ?_⟩
      obtain ⟨bs, results, hobject, hread⟩ := exists_readFile_of_ok h
      have hstored := hstops.stored (accepts_of_importAll_ok (hok.mp h).1)
      rw [hsame]
      exact ⟨fun row hrow => hrow, bs, _, results, hobject, hread, fun r hr => (hstored r hr).2⟩

/-! ### A chunk that is cut off -/

/-- A chunk with the revisions 1 and 2. -/
def twoRecords : DataFile := RoundTrip.Producer.writeChunk.file 0 ([1, 2].map plainRecord) "n1"

/-- Its header and its first record. -/
def firstHalf : Bytes :=
  delimit (marshalHeader (headerFor default twoRecords)) ++
    delimit (marshalRecord (stamp default (plainRecord 1)))

theorem exists_firstHalf_append :
    ∃ rest, writeFile default twoRecords = some (firstHalf ++ rest) := by
  refine ⟨delimit (marshalRecord (stamp default (plainRecord 2))) ++
    delimit (marshalFooter (fileFooter default (tallyOf {} twoRecords.records))), ?_⟩
  rw [writeFile_eq]
  simp [firstHalf, messagesOf, bodyOf, twoRecords, Producer.file, Producer.compression,
    smartCompression, estimatedSize, plainRecord, pack]

theorem fileInRange_twoRecords : FileInRange twoRecords := by
  have hid : (utf8 "n1").length = 2 := by decide
  exact fileInRange_plain (by decide) (by decide) (by omega)

/-- The table with the first record only. -/
def firstRow : Table := ⟨[replicatedRow 7 (plainRecord 1)], by decide, by decide⟩

/-- **An import that fails leaves a part of the file**: the chunk ends after its first record, and
the record is in the table. -/
theorem not_allOrNothing_firstHalf :
    (∃ rest, writeFile default twoRecords = some (firstHalf ++ rest)) ∧
      (downloadAndImportFile default default (fun _ => 7) Table.empty .chunk (some firstHalf)).2 =
        .error (.readRecord 1 .endOfFile) ∧
      (downloadAndImportFile default default (fun _ => 7) Table.empty .chunk
        (some firstHalf)).1.rows.map Record.revision = [1] ∧
      ¬ AllOrNothing default default (fun _ => 7) Table.empty .chunk (some firstHalf) := by
  have hopen : newReader default (some (kindNumber .chunk)) firstHalf = .ok
      ⟨kindNumber .chunk, delimit (marshalRecord (stamp default (plainRecord 1))), 2, {}⟩ := by
    have hheader : headerSize default twoRecords ≤ maxSize :=
      headerSize_le_of_short fileInRange_twoRecords (by decide)
    have hread := newReader_header (z := default) fileInRange_twoRecords
      (m := delimit (marshalRecord (stamp default (plainRecord 1))))
    rw [if_neg (not_lt.mpr hheader)] at hread
    exact hread
  have hone : IsInt64 1 := by decide
  have hfirst : Reader.read default
      ⟨kindNumber .chunk, delimit (marshalRecord (stamp default (plainRecord 1))), 2, {}⟩ =
        .ok (stamp default (plainRecord 1),
          ⟨kindNumber .chunk, [], 2, Tally.add {} (plainRecord 1)⟩) := by
    rw [read_delimit (recordInRange_plainRecord hone) (List.append_nil _).symm,
      if_neg (not_lt.mpr (recordSize_plainRecord hone))]
  have hsecond : Reader.read default
      ⟨kindNumber .chunk, [], 2, Tally.add {} (plainRecord 1)⟩ = .error .endOfFile := rfl
  have hresult : downloadAndImportFile default default (fun _ => 7) Table.empty .chunk
      (some firstHalf) = (firstRow, .error (.readRecord 1 .endOfFile)) := by
    have hreplay : TimeText.replicateRecord default Table.empty 7
        (stamp default (plainRecord 1)) = .ok (firstRow, replicatedRow 7 (plainRecord 1)) := rfl
    have hcount : Int.toNat 2 = 2 := rfl
    unfold downloadAndImportFile
    simp only [hopen, hcount, importLoop, hfirst, hreplay, hsecond]
  rw [hresult]
  refine ⟨exists_firstHalf_append, rfl, rfl, fun h => ?_⟩
  have hsame := h.failed (.readRecord 1 .endOfFile) (by rw [hresult])
  rw [hresult] at hsame
  exact absurd hsame (by decide)

end Netsy.Datafile.Import
