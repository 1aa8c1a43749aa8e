import Netsy.Datafile.Import
import Netsy.LocalDB.History

/-! # Seeding a cluster

`validateBootstrapSnapshot` decides whether the operator's `bootstrap.netsy` becomes the first
snapshot of a cluster. It accepts exactly the snapshots whose revisions count up from 1 and whose
first key is Netsy's own. What else the rows say of the history of their keys it does not look at,
and the table that the nodes import relies on it: two records with one entry of the unique index
cannot both be imported, and a row with the wrong revisions is in the way of a later insert. -/

namespace Netsy.Bootstrap.Seed

open Proto Lib.WireFormat Lib.SortedList Datafile.Messages
open Datafile.ReadBack Datafile.RoundTrip Datafile.Import
open LocalDB.Schema LocalDB.Insert LocalDB.Replicate LocalDB.History
open Datastore (FileKind DataFile)

/-- `bootstrapInitialRecordKey`, `"_netsy"`. -/
def bootstrapInitialRecordKey : Bytes := [95, 110, 101, 116, 115, 121]

inductive SeedError
  | newReader (e : ReadError)
  | empty
  | readRecord (i : ℕ) (e : ReadError)
  | revision (i : ℕ) (revision previousRevision : ℤ)
  | initialKey (i : ℕ) (key : Bytes)
  | close (e : ReadError)
  | count (count lastRevision : ℤ)
deriving DecidableEq, Repr

variable (z : Codec)

/-- The loop of `validateBootstrapSnapshot` from record `i` on, with `n` records to go. -/
def validateRecords : ℕ → ℕ → ℤ → Reader → Except SeedError Reader
  | 0, _, _, rd => .ok rd
  | n + 1, i, previousRevision, rd =>
    match rd.read z with
    | .error e => .error (.readRecord i e)
    | .ok (record, rd) =>
      if record.revision ≠ previousRevision + 1 then
        .error (.revision i record.revision previousRevision)
      else if i = 0 ∧ record.key ≠ bootstrapInitialRecordKey then .error (.initialKey i record.key)
      else validateRecords n (i + 1) record.revision rd

def validateBootstrapSnapshot (bs : Bytes) : Except SeedError ℤ :=
  match newReader z (some (kindNumber .snapshot)) bs with
  | .error e => .error (.newReader e)
  | .ok rd =>
    if rd.expectedRecordsCount = 0 then .error .empty
    else
      match validateRecords z rd.expectedRecordsCount.toNat 0 0 rd with
      | .error e => .error e
      | .ok rd' =>
        match rd'.close z with
        | .error e => .error (.close e)
        | .ok results =>
          if results.lastRevision ≠ rd.expectedRecordsCount then
            .error (.count rd.expectedRecordsCount results.lastRevision)
          else .ok results.lastRevision

variable {z}
variable {bs : Bytes} {n : ℤ} {k i : ℕ} {p : ℤ} {r : Record} {rs : List Record} {rd rd' : Reader}
  {results : ReadResults} {x : TimeText} {clock : ℕ → Time} {t : Table}

/-! ### What is accepted -/

/-- The revisions count up. -/
def Contiguous : ℤ → List Record → Prop
  | _, [] => True
  | p, r :: rs => r.revision = p + 1 ∧ Contiguous (p + 1) rs

/-- What the validator demands of the records. -/
structure Seedable (rs : List Record) : Prop where
  nonempty : rs ≠ []
  contiguous : Contiguous 0 rs
  initialKey : ∀ r ∈ rs.head?, r.key = bootstrapInitialRecordKey

theorem validateRecords_eq_ok : validateRecords z k i p rd = .ok rd' ↔
    ∃ rs, rd.readAll z k = .ok (rs, rd') ∧ Contiguous p rs ∧
      (i = 0 → ∀ r ∈ rs.head?, r.key = bootstrapInitialRecordKey) := by
  induction k generalizing i p rd with
  | zero => simp [validateRecords, Reader.readAll, Contiguous]
  | succ k ih =>
    unfold validateRecords Reader.readAll
    cases hread : rd.read z with
    | error e => simp
    | ok x =>
      obtain ⟨record, rd₁⟩ := x
      dsimp only
      constructor
      · intro h
        split_ifs at h with hrevision hkey
        obtain ⟨rs, hall, hcontiguous, -⟩ := ih.mp h
        rw [not_not] at hrevision
        refine ⟨record :: rs, by rw [hall]; rfl, ⟨hrevision, hrevision ▸ hcontiguous⟩, ?_⟩
        intro hi r hr
        cases hr
        exact not_not.mp fun hne => hkey ⟨hi, hne⟩
      · rintro ⟨rs, hall, hcontiguous, hkey⟩
        cases hrest : rd₁.readAll z k with
        | error e => simp [hrest, Except.map] at hall
        | ok y =>
          simp only [hrest, Except.map, Except.ok.injEq, Prod.mk.injEq] at hall
          obtain ⟨rfl, rfl⟩ := hall
          obtain ⟨hrevision, hcontiguous⟩ := hcontiguous
          have hinitial : ¬ (i = 0 ∧ record.key ≠ bootstrapInitialRecordKey) := fun hi =>
            hi.2 (hkey hi.1 record rfl)
          rw [if_neg (not_not.mpr hrevision), if_neg hinitial]
          exact ih.mpr ⟨y.1, hrest, hrevision.symm ▸ hcontiguous,
            fun hi => absurd hi (Nat.succ_ne_zero i)⟩

theorem lastRevision_of_contiguous (h : Contiguous p rs) :
    (rs.getLast?.map Record.revision).getD p = p + rs.length := by
  induction rs generalizing p with
  | nil => simp
  | cons r rs ih =>
    obtain ⟨hr, hrest⟩ := h
    have hlast := ih hrest
    rw [List.getLast?_cons, List.length_cons]
    cases hl : rs.getLast? with
    | none =>
      obtain rfl := List.getLast?_eq_none_iff.mp hl
      simpa using hr
    | some a =>
      rw [hl] at hlast
      simp only [Option.map_some, Option.getD_some] at hlast ⊢
      push_cast
      omega

theorem count_and_lastRevision (hnew : newReader z (some (kindNumber .snapshot)) bs = .ok rd)
    (hall : rd.readAll z k = .ok (rs, rd')) (hclose : rd'.close z = .ok results) :
    rd.expectedRecordsCount = rs.length ∧
      results.lastRevision = (rs.getLast?.map Record.revision).getD 0 := by
  obtain ⟨-, -, -, -, -, -, hempty⟩ := newReader_ok hnew
  obtain ⟨hexpected, hread, hlast⟩ := readAll_ok hall
  obtain ⟨hcount, rfl, -⟩ := close_ok hclose
  rw [hempty] at hread hlast
  refine ⟨?_, hlast⟩
  rw [← hexpected, ← hcount, hread]
  exact Int.zero_add _

/-- **What `validateBootstrapSnapshot` accepts**: the snapshots that are read and that count up from
1, with the number of their records as the result. -/
theorem validateBootstrapSnapshot_eq_ok : validateBootstrapSnapshot z bs = .ok n ↔
    ∃ rs results, readFile z (some (kindNumber .snapshot)) bs = .ok (rs, results) ∧
      Seedable rs ∧ n = rs.length := by
  constructor
  · intro h
    unfold validateBootstrapSnapshot at h
    cases hnew : newReader z (some (kindNumber .snapshot)) bs with
    | error e => simp [hnew] at h
    | ok rd =>
      simp only [hnew] at h
      split_ifs at h with hcount
      cases hloop : validateRecords z rd.expectedRecordsCount.toNat 0 0 rd with
      | error e => simp [hloop] at h
      | ok rd' =>
        simp only [hloop] at h
        cases hclose : rd'.close z with
        | error e => simp [hclose] at h
        | ok results =>
          simp only [hclose] at h
          split_ifs at h with hlast
          obtain ⟨rs, hall, hcontiguous, hkey⟩ := validateRecords_eq_ok.mp hloop
          obtain ⟨hlength, -⟩ := count_and_lastRevision hnew hall hclose
          refine ⟨rs, results, ?_, ⟨?_, hcontiguous, hkey rfl⟩, ?_⟩
          · unfold readFile
            simp only [hnew, hall, hclose, Except.map]
          · rintro rfl
            exact hcount hlength
          · rw [← Except.ok.inj h, not_not.mp hlast, hlength]
  · rintro ⟨rs, results, hread, ⟨hnonempty, hcontiguous, hkey⟩, rfl⟩
    obtain ⟨rd, rd', hnew, hall, hclose⟩ := readFile_ok hread
    dsimp only at hall hclose
    obtain ⟨hlength, hlast⟩ := count_and_lastRevision hnew hall hclose
    rw [lastRevision_of_contiguous hcontiguous, Int.zero_add] at hlast
    have hcount : rd.expectedRecordsCount ≠ 0 := by
      rw [hlength]
      exact Int.natCast_ne_zero.mpr (mt List.length_eq_zero_iff.mp hnonempty)
    have hloop : validateRecords z rd.expectedRecordsCount.toNat 0 0 rd = .ok rd' :=
      validateRecords_eq_ok.mpr ⟨rs, hall, hcontiguous, fun _ => hkey⟩
    unfold validateBootstrapSnapshot
    simp only [hnew, if_neg hcount, hloop, hclose]
    rw [if_neg (not_not.mpr (hlast.trans hlength.symm)), hlast]

theorem pos_of_contiguous (h : Contiguous p rs) : ∀ r ∈ rs, p < r.revision := by
  induction rs generalizing p with
  | nil => exact fun r hr => absurd hr List.not_mem_nil
  | cons r rs ih =>
    obtain ⟨hr, hrest⟩ := h
    rw [List.forall_mem_cons]
    refine ⟨by omega, fun x hx => ?_⟩
    have := ih hrest x hx
    omega

theorem ascending_of_contiguous (h : Contiguous p rs) : Ascending Record.revision rs := by
  induction rs generalizing p with
  | nil => exact List.Pairwise.nil
  | cons r rs ih =>
    obtain ⟨hr, hrest⟩ := h
    refine List.pairwise_cons.mpr ⟨fun x hx => ?_, ih hrest⟩
    have := pos_of_contiguous hrest x hx
    omega

/-! ### Histories of copies -/

/-- The rows of every key split into generations. -/
def HasHistory (l : List Record) : Prop :=
  ∀ key, ∃ gens, gens.flatten = (l.filter fun r => r.key = key) ∧ Generations gens

theorem generations_map_bare {gens : List (List Record)} :
    Generations (gens.map (List.map bare)) ↔ Generations gens := by
  have heach : ∀ g : List Record, Generation (g.map bare) ↔ Generation g := by
    intro g
    constructor
    · rintro ⟨⟨r, hr, hstart⟩, hchain⟩
      rw [List.head?_map] at hr
      obtain ⟨x, hx, rfl⟩ := Option.map_eq_some_iff.mp hr
      exact ⟨⟨x, hx, hstart⟩, (List.isChain_map bare).mp hchain⟩
    · rintro ⟨⟨r, hr, hstart⟩, hchain⟩
      exact ⟨⟨bare r, by rw [List.head?_map, hr]; rfl, hstart⟩, (List.isChain_map bare).mpr hchain⟩
  have hended : ∀ g : List Record, Ended (g.map bare) ↔ Ended g := by
    intro g
    constructor
    · rintro ⟨r, hr, hdeleted⟩
      rw [List.getLast?_map] at hr
      obtain ⟨x, hx, rfl⟩ := Option.map_eq_some_iff.mp hr
      exact ⟨x, hx, hdeleted⟩
    · rintro ⟨r, hr, hdeleted⟩
      exact ⟨bare r, by rw [List.getLast?_map, hr]; rfl, hdeleted⟩
  constructor
  · rintro ⟨h, hchain⟩
    refine ⟨fun g hg => (heach g).mp (h _ (List.mem_map_of_mem hg)), ?_⟩
    exact ((List.isChain_map _).mp hchain).imp fun g _ => (hended g).mp
  · rintro ⟨h, hchain⟩
    refine ⟨fun g hg => ?_, ?_⟩
    · obtain ⟨g, hmem, rfl⟩ := List.mem_map.mp hg
      exact (heach g).mpr (h g hmem)
    · exact (List.isChain_map _).mpr (hchain.imp fun g _ => (hended g).mpr)

theorem exists_pieces {gens : List (List Record)} {l : List Record}
    (h : gens.flatten = l.map bare) :
    ∃ gens' : List (List Record), gens'.flatten = l ∧ gens'.map (List.map bare) = gens := by
  induction gens generalizing l with
  | nil =>
    have hnil : l = [] := List.map_eq_nil_iff.mp h.symm
    exact ⟨[], hnil.symm, rfl⟩
  | cons g gens ih =>
    rw [List.flatten_cons] at h
    obtain ⟨l₁, l₂, rfl, rfl, hrest⟩ := List.map_eq_append_iff.mp h.symm
    obtain ⟨gens', rfl, rfl⟩ := ih hrest.symm
    exact ⟨l₁ :: gens', rfl, rfl⟩

theorem HasHistory.of_copies {l l' : List Record} (hcopies : l.map bare = l'.map bare)
    (h : HasHistory l) : HasHistory l' := by
  intro key
  obtain ⟨gens, hflat, hgens⟩ := h key
  have hfilter : ∀ m : List Record,
      (m.filter fun r => r.key = key).map bare = (m.map bare).filter fun r => r.key = key :=
    fun m => by
      rw [List.filter_map]
      rfl
  have hbare : (gens.map (List.map bare)).flatten =
      (l'.filter fun r => r.key = key).map bare := by
    rw [← List.map_flatten, hflat, hfilter, hfilter, hcopies]
  obtain ⟨gens', hflat', heq⟩ := exists_pieces hbare
  refine ⟨gens', hflat', generations_map_bare.mp ?_⟩
  rw [heq]
  exact generations_map_bare.mpr hgens

/-! ### Importing a history -/

/-- The records of a file that can be imported. -/
structure MvccHistory (rs : List Record) : Prop where
  keys : ∀ r ∈ rs, r.key ≠ []
  history : HasHistory rs

theorem pairwise_indexKey (hcontiguous : Contiguous 0 rs) (h : HasHistory rs) :
    rs.Pairwise fun a b => indexKey a ≠ indexKey b := by
  rw [List.pairwise_iff_forall_sublist]
  intro a b hab he
  have hkey : b.key = a.key := (congrArg Prod.fst he).symm
  have hasc := ascending_filter (ascending_of_contiguous hcontiguous) fun r => r.key = a.key
  have hpos : ∀ r ∈ rs.filter fun r => r.key = a.key, 0 < r.revision := fun r hr =>
    pos_of_contiguous hcontiguous r (List.mem_of_mem_filter hr)
  have hpairs := (ordered_of_generations hasc hpos (h a.key)).2
  have hboth : [a, b].Sublist (rs.filter fun r => r.key = a.key) := by
    have := hab.filter fun r => r.key = a.key
    simpa [hkey] using this
  exact List.pairwise_iff_forall_sublist.mp hpairs hboth he

theorem importable_of_history (hcontiguous : Contiguous 0 rs) (h : MvccHistory rs) :
    Importable Table.empty rs := by
  have hpos := pos_of_contiguous hcontiguous
  refine ⟨fun r hr => ⟨(hpos r hr).ne', h.keys r hr, ?_⟩, ?_⟩
  · intro b hb
    cases hb
  · have hpairs := (ascending_of_contiguous hcontiguous).and
      (pairwise_indexKey hcontiguous h.history)
    exact hpairs.imp fun hab hclash => absurd hclash (not_or.mpr ⟨hab.1.ne, hab.2⟩)

/-- The table after the import. -/
def seeded (z : Codec) (x : TimeText) (clock : ℕ → Time) (bs : Bytes) : Table :=
  (downloadAndImportFile z x clock Table.empty .snapshot (some bs)).1

/-- The records of the file. -/
def seedRecords (z : Codec) (bs : Bytes) : List Record := (scan z .snapshot (some bs)).1

theorem latestRevision_of_copies (hcontiguous : Contiguous 0 rs)
    (hcopies : t.rows.map bare = rs.map bare) : t.latestRevision = rs.length := by
  have hlast : t.rows.getLast?.map bare = rs.getLast?.map bare := by
    rw [← List.getLast?_map, ← List.getLast?_map, hcopies]
  have hrevision : t.rows.getLast?.map Record.revision = rs.getLast?.map Record.revision := by
    have := congrArg (Option.map Record.revision) hlast
    simpa [Option.map_map, Function.comp_def, bare] using this
  unfold Table.latestRevision
  rw [hrevision, lastRevision_of_contiguous hcontiguous, Int.zero_add]

theorem ordered_of_copies (hcontiguous : Contiguous 0 rs)
    (hcopies : t.rows.map bare = rs.map bare) (h : HasHistory t.rows) : Ordered t := by
  have hpos : ∀ r ∈ t, 0 < r.revision := by
    intro r hr
    have hmem : bare r ∈ rs.map bare := hcopies ▸ List.mem_map_of_mem hr
    obtain ⟨x, hx, he⟩ := List.mem_map.mp hmem
    have hrevision : (bare x).revision = (bare r).revision := congrArg Record.revision he
    exact (pos_of_contiguous hcontiguous x hx).trans_eq hrevision
  intro r hr
  have hrows := (ordered_of_generations (ascending_filter t.sorted fun x => x.key = r.key)
    (fun x hx => hpos x (List.mem_of_mem_filter hx)) (h r.key)).1
  exact ⟨hpos r hr, hrows r (List.mem_filter.mpr ⟨hr, by simp⟩)⟩

/-! ### Seeding -/

/-- The file seeds a cluster: it is imported into an empty table, `VerifyIntegrity` passes, the
latest revision is the one reported, the rows of every key split into generations, and a create, an
update or a delete whose compare holds is inserted. -/
structure Seeds (z : Codec) (x : TimeText) (clock : ℕ → Time) (bs : Bytes) (n : ℤ) : Prop where
  imported : (downloadAndImportFile z x clock Table.empty .snapshot (some bs)).2 = .ok ()
  integrity : (seeded z x clock bs).verifyIntegrity = true
  latest : (seeded z x clock bs).latestRevision = n
  history : ∀ key, ∃ gens, gens.flatten = rowsOf (seeded z x clock bs) key ∧ Generations gens
  inserts : ∀ now r, Requested (seeded z x clock bs) r → validForInsert r = true →
    currentModRevision (seeded z x clock bs) r.key = r.prevRevision →
    ∃ res, insertRecord (seeded z x clock bs) now r = .ok res

theorem rows_seeded (hread : readFile z (some (kindNumber .snapshot)) bs = .ok (rs, results))
    (hcontiguous : Contiguous 0 rs) (hall : Importable Table.empty rs) :
    (seeded z x clock bs).rows.map bare = rs.map bare := by
  have hscan : scan z .snapshot (some bs) = (rs, true) := exists_readFile_iff.mp ⟨results, hread⟩
  obtain ⟨htable, -⟩ := downloadAndImportFile_eq z x clock Table.empty .snapshot (some bs)
  have hbelow : ∀ row ∈ Table.empty, ∀ r ∈ rs, row.revision < r.revision := fun row hrow =>
    absurd hrow List.not_mem_nil
  unfold seeded
  rw [htable, hscan]
  exact (rows_importAll hbelow (ascending_of_contiguous hcontiguous) hall).2

/-- **An accepted bootstrap snapshot can seed a cluster** exactly if its records have keys and are
the history of them. -/
theorem seeds_iff (z : Codec) (x : TimeText) (clock : ℕ → Time) (bs : Bytes) (n : ℤ)
    (haccepted : validateBootstrapSnapshot z bs = .ok n) :
    Seeds z x clock bs n ↔ MvccHistory (seedRecords z bs) := by
  obtain ⟨rs, results, hread, ⟨-, hcontiguous, -⟩, rfl⟩ :=
    validateBootstrapSnapshot_eq_ok.mp haccepted
  have hscan : scan z .snapshot (some bs) = (rs, true) := exists_readFile_iff.mp ⟨results, hread⟩
  obtain ⟨-, hok⟩ := downloadAndImportFile_eq z x clock Table.empty .snapshot (some bs)
  rw [hscan, and_iff_left rfl] at hok
  have hrecords : seedRecords z bs = rs := congrArg Prod.fst hscan
  have hbelow : ∀ row ∈ Table.empty, ∀ r ∈ rs, row.revision < r.revision := fun row hrow =>
    absurd hrow List.not_mem_nil
  rw [hrecords]
  constructor
  · intro hseeds
    have hall : Importable Table.empty rs :=
      importable_of_importAll_ok hbelow (ascending_of_contiguous hcontiguous)
        (hok.mp hseeds.imported)
    exact ⟨fun r hr => (hall.1 r hr).2.1,
      HasHistory.of_copies (rows_seeded hread hcontiguous hall) hseeds.history⟩
  · intro h
    have hall : Importable Table.empty rs := importable_of_history hcontiguous h
    have hcopies : (seeded z x clock bs).rows.map bare = rs.map bare :=
      rows_seeded hread hcontiguous hall
    have hhistory : HasHistory (seeded z x clock bs).rows := h.history.of_copies hcopies.symm
    have hlatest := latestRevision_of_copies hcontiguous hcopies
    have hcount : (seeded z x clock bs).rows.length = rs.length := by
      simpa using congrArg List.length hcopies
    have hreplayed : (importAll x clock 0 rs Table.empty).2 = .ok () :=
      (rows_importAll hbelow (ascending_of_contiguous hcontiguous) hall).1
    refine ⟨hok.mpr hreplayed, ?_, hlatest, hhistory, fun now r hreq hvalid hcompare => ?_⟩
    · simp [Table.verifyIntegrity, Table.recordCount, hlatest, hcount]
    · exact (insertRecord_ok_iff (ordered_of_copies hcontiguous hcopies hhistory) hreq).mpr
        ⟨hvalid, hcompare⟩

/-! ### Two files that are accepted -/

/-- The bytes of a snapshot with the records. -/
def seedFile (rs : List Record) : Bytes :=
  (writeFile default (Producer.writeSnapshot.file 0 rs "n1")).getD []

theorem seedFile_accepted (hrange : ∀ r ∈ rs, RecordInRange r ∧
      r.key.length + r.value.length + (utf8 r.leaderId).length + 231 ≤ maxSize)
    (hcount : rs.length < 2 ^ 63) (hcrc : rs.map (stamp default) = rs) (hseedable : Seedable rs) :
    validateBootstrapSnapshot default (seedFile rs) = .ok rs.length ∧
      scan default .snapshot (some (seedFile rs)) = (rs, true) := by
  have hid : (utf8 "n1").length = 2 := by decide
  have hfile : FileInRange (Producer.writeSnapshot.file 0 rs "n1") :=
    ⟨(by decide : IsInt64 ((0 : Time) / nanosPerSecond)),
      (by omega : (utf8 "n1").length < 2 ^ 63), fun r hr => (hrange r hr).1, hcount⟩
  have hfits : Fits default (Producer.writeSnapshot.file 0 rs "n1") :=
    fits_of_strings hfile (by decide : (utf8 "n1").length + 99 ≤ maxSize) fun r hr =>
      (hrange r hr).2
  have hbytes : writeFile default (Producer.writeSnapshot.file 0 rs "n1") =
      some (seedFile rs) := by
    unfold seedFile
    rw [writeFile_eq, Option.getD_some]
  have hread := readFile_of_fits hfile hfits hbytes
  rw [show (Producer.writeSnapshot.file 0 rs "n1").records = rs from rfl, hcrc] at hread
  exact ⟨validateBootstrapSnapshot_eq_ok.mpr ⟨rs, _, hread, hseedable, rfl⟩,
    exists_readFile_iff.mp ⟨_, hread⟩⟩

/-- A row of a first version. -/
def seedRow (revision : ℤ) (key : Bytes) (createRevision prevRevision : ℤ) : Record :=
  { revision, key, created := true, createRevision, prevRevision, version := 1 }

/-- The record that stands first. -/
def initialRecord : Record := seedRow 1 bootstrapInitialRecordKey 1 0

/-- A second row with the first row's entry of the unique index. -/
def twinRecord : Record := seedRow 2 bootstrapInitialRecordKey 1 0

/-- A first row of key `a` that says it goes on after itself. -/
def misnumberedRecord : Record := seedRow 2 [97] 3 2

/-- The update of key `a` that compares with its revision. -/
def nextUpdate : Record := { revision := 3, key := [97], prevRevision := 2, leaderId := "n1" }

theorem seedRow_in_range {revision createRevision prevRevision : ℤ} {key : Bytes}
    (hrevision : IsInt64 revision) (hcreate : IsInt64 createRevision)
    (hprev : IsInt64 prevRevision) (hkey : key.length ≤ 6) :
    RecordInRange (seedRow revision key createRevision prevRevision) ∧
      key.length + 0 + (utf8 "").length + 231 ≤ maxSize := by
  have hzero : IsInt64 0 := by decide
  have hone : IsInt64 1 := by decide
  have hid : (utf8 "").length = 0 := by decide
  refine ⟨⟨hrevision, hcreate, hprev, hone, hzero, hzero, nofun, nofun, nofun, ?_⟩, ?_⟩
  · change key.length + 0 + (utf8 "").length < 2 ^ 63
    omega
  · unfold maxSize
    omega

theorem initialRecord_in_range : RecordInRange initialRecord ∧
    initialRecord.key.length + initialRecord.value.length +
      (utf8 initialRecord.leaderId).length + 231 ≤ maxSize :=
  seedRow_in_range (by decide) (by decide) (by decide) (by decide)

/-- A file with the initial record only. -/
theorem seeds_iff_initial :
    validateBootstrapSnapshot default (seedFile [initialRecord]) = .ok 1 ∧
      MvccHistory (seedRecords default (seedFile [initialRecord])) ∧
      Seeds default default (fun _ => 7) (seedFile [initialRecord]) 1 := by
  obtain ⟨haccepted, hscan⟩ := @seedFile_accepted [initialRecord]
    (List.forall_mem_singleton.mpr initialRecord_in_range) (by decide) rfl
    ⟨by simp, ⟨rfl, trivial⟩, fun r hr => by cases hr; rfl⟩
  have hhistory : MvccHistory (seedRecords default (seedFile [initialRecord])) := by
    unfold seedRecords
    rw [hscan]
    refine ⟨by decide, fun key => ?_⟩
    by_cases hkey : initialRecord.key = key
    · refine ⟨[[initialRecord]], by simp [hkey], ?_, by simp⟩
      intro g hg
      rw [List.mem_singleton.mp hg]
      exact ⟨⟨initialRecord, rfl, rfl, rfl, rfl, rfl, rfl⟩, by simp⟩
    · exact ⟨[], by simp [hkey], generations_nil⟩
  exact ⟨haccepted, hhistory, (seeds_iff default default (fun _ => 7) _ 1 haccepted).mpr hhistory⟩

theorem twoRows_accepted (hrevision : r.revision = 2) (hcrc : r.crc = 0)
    (hrange : RecordInRange r ∧
      r.key.length + r.value.length + (utf8 r.leaderId).length + 231 ≤ maxSize) :
    validateBootstrapSnapshot default (seedFile [initialRecord, r]) = .ok 2 ∧
      scan default .snapshot (some (seedFile [initialRecord, r])) = ([initialRecord, r], true) := by
  have hstamp : stamp default r = r := by
    cases r
    cases hcrc
    rfl
  have hseedable : Seedable [initialRecord, r] :=
    ⟨by simp, ⟨rfl, hrevision, trivial⟩, fun x hx => by cases hx; rfl⟩
  exact seedFile_accepted
    (List.forall_mem_cons.mpr ⟨initialRecord_in_range, List.forall_mem_singleton.mpr hrange⟩)
    (by simp) (by rw [List.map_cons, List.map_singleton, hstamp]; rfl) hseedable

/-- **Two accepted files that do not seed a cluster.** The second record of the first file cannot be
imported beside the first record. The second file is imported, and the update of its key that
compares with the right revision is refused. -/
theorem not_seeds_twin_and_misnumbered :
    (validateBootstrapSnapshot default (seedFile [initialRecord, twinRecord]) = .ok 2 ∧
        (downloadAndImportFile default default (fun _ => 7) Table.empty .snapshot
          (some (seedFile [initialRecord, twinRecord]))).2 ≠ .ok ()) ∧
      validateBootstrapSnapshot default (seedFile [initialRecord, misnumberedRecord]) = .ok 2 ∧
      (downloadAndImportFile default default (fun _ => 7) Table.empty .snapshot
        (some (seedFile [initialRecord, misnumberedRecord]))).2 = .ok () ∧
      currentModRevision (seeded default default (fun _ => 7)
        (seedFile [initialRecord, misnumberedRecord])) [97] = 2 ∧
      insertRecord (seeded default default (fun _ => 7)
        (seedFile [initialRecord, misnumberedRecord])) 8 nextUpdate =
          .error .uniqueConstraint := by
  obtain ⟨haccepted₁, hscan₁⟩ := twoRows_accepted (r := twinRecord) rfl rfl
    (seedRow_in_range (by decide) (by decide) (by decide) (by decide))
  obtain ⟨haccepted₂, hscan₂⟩ := twoRows_accepted (r := misnumberedRecord) rfl rfl
    (seedRow_in_range (by decide) (by decide) (by decide) (by decide))
  obtain ⟨-, himport₁⟩ := downloadAndImportFile_eq default default (fun _ => 7) Table.empty
    .snapshot (some (seedFile [initialRecord, twinRecord]))
  obtain ⟨htable₂, himport₂⟩ := downloadAndImportFile_eq default default (fun _ => 7) Table.empty
    .snapshot (some (seedFile [initialRecord, misnumberedRecord]))
  rw [hscan₁] at himport₁
  rw [hscan₂] at himport₂ htable₂
  refine ⟨⟨haccepted₁, mt himport₁.mp (by decide +kernel)⟩, haccepted₂,
    himport₂.mpr (by decide +kernel), ?_, ?_⟩
  · unfold seeded
    rw [htable₂]
    decide +kernel
  · unfold seeded
    rw [htable₂]
    decide +kernel

end Netsy.Bootstrap.Seed
