import Netsy.Bootstrap.Loader

/-! # What a loaded node has

A node that was loaded has every revision up to the largest one it started from or imported:
`VerifyIntegrity` finds every gap below it. It cannot find what is missing above: the snapshot that
a database with rows does not get, and the chunks that are cleaned up before they are listed. -/

namespace Netsy.Bootstrap.Completeness

open Proto Datastore Lib.ObjectStore Lib.SortedList Lib.StateError
open LocalDB.Schema LocalDB.Replicate Bootstrap.Loader

/-- The records of a file of object storage. -/
def recordsOf (b : ObjectStorage) (key : ObjectKey) : List Record :=
  (b.get key).elim [] DataFile.records

/-- The records of the chunks that an attempt replays. -/
def chunkRecords (env : Env) (attempt : ℕ) (fromRevision : ℤ) : List Record :=
  (listChunks (env.store (.listChunks attempt)) fromRevision).flatMap fun revision =>
    recordsOf (env.store (.chunk attempt revision)) (.chunk revision)

/-- The records of the snapshot that an attempt imports. -/
def snapshotRecords (env : Env) (attempt : ℕ) (latestSnapshot : Option ℤ) : List Record :=
  latestSnapshot.elim [] fun revision =>
    recordsOf (env.store (.snapshot attempt)) (.snapshot revision)

/-- The records that an attempt imports into a database. -/
def imports (env : Env) (latestSnapshot : Option ℤ) (attempt : ℕ) (db : Table) : List Record :=
  if 0 < db.recordCount then chunkRecords env attempt db.latestRevision
  else snapshotRecords env attempt latestSnapshot ++
    chunkRecords env attempt (latestSnapshot.getD 0)

/-- Every attempt but the first one starts from an empty database. -/
def startTable (db : Table) (attempt : ℕ) : Table := if attempt = 1 then db else Table.empty

/-! ### Imports -/

/-- The table has its old rows, a copy of every record, and nothing else. -/
structure Imported (t : Table) (rs : List Record) (t' : Table) : Prop where
  kept : ∀ row ∈ t, row ∈ t'
  copied : ∀ r ∈ rs, ∃ row ∈ t', row.revision = r.revision
  new : ∀ row ∈ t', row ∈ t ∨ ∃ r ∈ rs, row.revision = r.revision

variable {env : Env} {n n' : Node} {t t' t'' : Table} {rs rs' : List Record} {attempt : ℕ}
  {latestSnapshot : Option ℤ} {fromRevision : ℤ}

theorem imported_nil (t : Table) : Imported t [] t := ⟨fun _ h => h, by simp, fun _ h => Or.inl h⟩

theorem Imported.append (h : Imported t rs t') (h' : Imported t' rs' t'') :
    Imported t (rs ++ rs') t'' := by
  refine ⟨fun row hrow => h'.kept row (h.kept row hrow), fun r hr => ?_, fun row hrow => ?_⟩
  · rcases List.mem_append.mp hr with hr | hr
    · obtain ⟨row, hrow, he⟩ := h.copied r hr
      exact ⟨row, h'.kept row hrow, he⟩
    · exact h'.copied r hr
  · rcases h'.new row hrow with hrow | ⟨r, hr, he⟩
    · exact (h.new row hrow).imp_right fun ⟨r, hr, he⟩ => ⟨r, List.mem_append_left _ hr, he⟩
    · exact Or.inr ⟨r, List.mem_append_right _ hr, he⟩

theorem Imported.revision_iff (h : Imported t rs t') {k : ℤ} :
    (∃ row ∈ t', row.revision = k) ↔ ∃ r ∈ t.rows ++ rs, r.revision = k := by
  constructor
  · rintro ⟨row, hrow, rfl⟩
    rcases h.new row hrow with hrow | ⟨r, hr, he⟩
    · exact ⟨row, List.mem_append_left _ hrow, rfl⟩
    · exact ⟨r, List.mem_append_right _ hr, he.symm⟩
  · rintro ⟨r, hr, rfl⟩
    rcases List.mem_append.mp hr with hr | hr
    · exact ⟨r, h.kept r hr, rfl⟩
    · exact h.copied r hr

theorem imported_of_download {b : ObjectStorage} {now : Time} {key : ObjectKey} {kind : FileKind}
    {getOk : Bool} (h : downloadAndImportFile now t b key kind getOk = (t', .ok ())) :
    Imported t (recordsOf b key) t' := by
  obtain ⟨file, hfile, hkept, hcopied, hnew⟩ := downloadAndImportFile_ok h
  have hrec : recordsOf b key = file.records := by
    rw [recordsOf, Bucket.get_eq_some.mpr hfile]
    rfl
  have hrev : ∀ {row r}, recordsEqualForReplication row r = true → row.revision = r.revision :=
    fun he => (sameRecord_of_recordsEqual he).revision_eq
  rw [hrec]
  refine ⟨hkept, fun r hr => ?_, fun row hrow => ?_⟩
  · obtain ⟨row, hrow, he⟩ := hcopied r hr
    exact ⟨row, hrow, hrev he⟩
  · exact (hnew row hrow).imp_right fun ⟨r, hr, he⟩ => ⟨r, hr, hrev he⟩

/-! ### What the parts of `Run` do -/

theorem returns_check_bind {α : Type} {op : Op} {e : BootstrapError} {f : Unit → Boot α} {x : α}
    (h : Returns (check env attempt op e >>= f) n x n') : Returns (f ()) n x n' :=
  returns_guard_bind h

theorem db_seedCompaction {after : Bool} {u : PUnit}
    (h : Returns (seedCompactionFromLocalDB env attempt after) n u n') : n'.db = n.db := by
  have h1 := returns_get_bind.mp (returns_check_bind h)
  dsimp only at h1
  split_ifs at h1
  · rw [returns_set.mp h1]
  · rw [returns_set.mp (returns_check_bind (returns_check_bind h1))]

theorem imported_of_importFile {read : Read} {key : ObjectKey} {kind : FileKind} {getOk : Bool}
    {fail : ImportError → BootstrapError} {u : PUnit}
    (h : Returns (importFile env read key kind getOk fail) n u n') :
    Imported n.db (recordsOf (env.store read) key) n'.db := by
  unfold importFile at h
  have h1 := returns_get_bind.mp h
  have h2 := returns_set_bind.mp h1
  split at h2
  · rename_i hok
    obtain ⟨-, rfl⟩ := returns_pure.mp h2
    exact imported_of_download (Prod.ext rfl hok)
  · exact absurd h2 not_returns_throw

theorem imported_of_importLatestSnapshot {u : PUnit}
    (h : Returns (importLatestSnapshot env attempt latestSnapshot) n u n') :
    Imported n.db (snapshotRecords env attempt latestSnapshot) n'.db := by
  cases latestSnapshot with
  | none =>
    obtain ⟨-, rfl⟩ := returns_pure.mp h
    exact imported_nil _
  | some revision => exact imported_of_importFile h

theorem imported_of_backfillChunks {u : PUnit}
    (h : Returns (backfillChunksFromRevision env attempt fromRevision) n u n') :
    Imported n.db (chunkRecords env attempt fromRevision) n'.db := by
  have h1 := returns_check_bind h
  refine returns_forM (I := fun done m => Imported n.db (done.flatMap fun revision =>
    recordsOf (env.store (.chunk attempt revision)) (.chunk revision)) m.db)
    (fun done revision m m' hm hc => ?_) _ [] n (imported_nil _) h1
  rw [List.flatMap_append, List.flatMap_singleton]
  exact hm.append (imported_of_importFile hc)

theorem returns_prepareLocalState
    (h : Returns (prepareLocalState env attempt latestSnapshot) n fromRevision n') :
    (0 < n.db.recordCount ∧ fromRevision = n.db.latestRevision ∧ n'.db = n.db) ∨
      (¬ 0 < n.db.recordCount ∧ fromRevision = latestSnapshot.getD 0 ∧
        Imported n.db (snapshotRecords env attempt latestSnapshot) n'.db) := by
  obtain ⟨_, n1, h1, h2⟩ := returns_bind.mp h
  have hdb := db_seedCompaction h1
  have h3 := returns_get_bind.mp (returns_check_bind h2)
  rw [← hdb]
  split_ifs at h3 with hcount
  · have h4 := returns_check_bind h3
    obtain ⟨rfl, rfl⟩ := returns_pure.mp h4
    exact Or.inl ⟨hcount, rfl, rfl⟩
  · obtain ⟨_, n2, h4, h5⟩ := returns_bind.mp h3
    obtain ⟨_, n3, h6, h7⟩ := returns_bind.mp h5
    obtain ⟨rfl, rfl⟩ := returns_pure.mp h7
    refine Or.inr ⟨hcount, rfl, ?_⟩
    rw [db_seedCompaction h6]
    exact imported_of_importLatestSnapshot h4

theorem imported_of_attempt {n1 : Node} {u : PUnit}
    (h1 : Returns (prepareLocalState env attempt latestSnapshot) n fromRevision n1)
    (h2 : Returns (backfillChunksFromRevision env attempt fromRevision) n1 u n') :
    Imported n.db (imports env latestSnapshot attempt n.db) n'.db := by
  have hchunks := imported_of_backfillChunks h2
  unfold imports
  rcases returns_prepareLocalState h1 with ⟨hcount, rfl, hdb⟩ | ⟨hcount, rfl, hsnap⟩
  · rw [if_pos hcount]
    rwa [hdb] at hchunks
  · rw [if_neg hcount]
    exact hsnap.append hchunks

theorem db_rebuild {u : PUnit} (h : Returns (rebuild env attempt) n u n') :
    n'.db = if 1 < attempt then Table.empty else n.db := by
  unfold rebuild at h
  split_ifs at h ⊢
  · rw [returns_set.mp (returns_check_bind h)]
  · rw [(returns_pure.mp h).2]

theorem startTable_of_rebuild {u : PUnit} (hattempt : 1 ≤ attempt)
    (h : Returns (rebuild env attempt) n u n') : startTable n.db attempt = n'.db := by
  rw [db_rebuild h]
  unfold startTable
  by_cases hk : attempt = 1
  · rw [if_pos hk, if_neg (by omega)]
  · rw [if_neg hk, if_pos (by omega)]

theorem imported_of_backfill {k : ℕ} :
    ∀ {fuel attempt : ℕ} {n : Node}, 1 ≤ attempt →
      Returns (backfill env latestSnapshot fuel attempt) n k n' →
      n'.db.verifyIntegrity = true ∧ attempt ≤ k ∧
        Imported (startTable n.db k) (imports env latestSnapshot k (startTable n.db k)) n'.db
  | 0, _, _, _, h => absurd h not_returns_throw
  | fuel + 1, attempt, n, hattempt, h => by
    obtain ⟨_, n1, h1, h2⟩ := returns_bind.mp h
    obtain ⟨fromRevision, n2, h3, h4⟩ := returns_bind.mp h2
    obtain ⟨_, n3, h5, h6⟩ := returns_bind.mp h4
    have h7 := returns_get_bind.mp h6
    split_ifs at h7 with hverify
    · obtain ⟨rfl, rfl⟩ := returns_pure.mp h7
      refine ⟨(Bool.and_eq_true_iff.mp hverify).2, le_refl _, ?_⟩
      rw [startTable_of_rebuild hattempt h1]
      exact imported_of_attempt h3 h5
    · obtain ⟨hver, hle, himp⟩ := imported_of_backfill (by omega) h7
      refine ⟨hver, by omega, ?_⟩
      unfold startTable at himp ⊢
      rw [if_neg (by omega)] at himp ⊢
      exact himp

/-! ### Completeness -/

/-- The highest revision of a list of records. -/
def highest (rs : List Record) : ℤ := (rs.map Record.revision).foldr max 0

/-- The table has exactly one row for every revision up to `d`. -/
def Complete (t : Table) (d : ℤ) : Prop := ∀ k, 1 ≤ k → k ≤ d → ∃! row, row ∈ t ∧ row.revision = k

theorem highest_cons (r : Record) (rs : List Record) :
    highest (r :: rs) = max r.revision (highest rs) := rfl

theorem le_highest {r : Record} (h : r ∈ rs) : r.revision ≤ highest rs := by
  induction rs with
  | nil => cases h
  | cons r' rs ih =>
    rw [highest_cons]
    rcases List.mem_cons.mp h with rfl | h
    · omega
    · have := ih h
      omega

theorem exists_of_le_highest {k : ℤ} (hk : 1 ≤ k) (h : k ≤ highest rs) :
    ∃ r ∈ rs, k ≤ r.revision := by
  induction rs with
  | nil => exact absurd (hk.trans h) (by decide)
  | cons r rs ih =>
    rw [highest_cons] at h
    by_cases hr : k ≤ r.revision
    · exact ⟨r, List.mem_cons_self, hr⟩
    · obtain ⟨r', hr', h'⟩ := ih (by omega)
      exact ⟨r', List.mem_cons_of_mem _ hr', h'⟩

theorem highest_nonneg (rs : List Record) : 0 ≤ highest rs := by
  induction rs with
  | nil => exact le_refl _
  | cons r rs ih =>
    rw [highest_cons]
    omega

theorem complete_iff {d : ℤ} :
    Complete t d ↔ ∀ k, 1 ≤ k → k ≤ d → ∃ row ∈ t, row.revision = k := by
  constructor
  · intro h k h1 hk
    obtain ⟨row, hrow, -⟩ := h k h1 hk
    exact ⟨row, hrow⟩
  · intro h k h1 hk
    obtain ⟨row, hrow, he⟩ := h k h1 hk
    refine ⟨row, ⟨hrow, he⟩, fun row' hrow' => ?_⟩
    exact Table.eq_of_revision_eq hrow'.1 hrow (hrow'.2.trans he.symm)

theorem complete_iff_le_highest (h : Imported t rs t') (hver : t'.verifyIntegrity = true)
    (hpos : ∀ r ∈ t.rows ++ rs, 0 < r.revision) {d : ℤ} (hd : 0 ≤ d) :
    Complete t' d ↔ d ≤ highest (t.rows ++ rs) := by
  rw [complete_iff]
  constructor
  · intro hall
    by_cases h1 : 1 ≤ d
    · obtain ⟨r, hr, he⟩ := h.revision_iff.mp (hall d h1 (le_refl d))
      exact he.symm.le.trans (le_highest hr)
    · have := highest_nonneg (t.rows ++ rs)
      omega
  · intro hle k h1 hk
    obtain ⟨r, hr, hkr⟩ := exists_of_le_highest h1 (hk.trans hle)
    obtain ⟨row, hrow, he⟩ := h.revision_iff.mpr ⟨r, hr, rfl⟩
    have hlatest := Table.revision_le_latestRevision hrow
    refine Table.exists_of_verifyIntegrity hver (fun row hrow => ?_) h1 (by omega)
    obtain ⟨r', hr', he'⟩ := h.revision_iff.mp ⟨row, hrow, rfl⟩
    exact he' ▸ hpos r' hr'

theorem returns_run {res : Result} (h : Returns (run env) n res n') :
    n'.db.verifyIntegrity = true ∧ ∃ attempt, Imported (startTable n.db attempt)
      (imports env (getLatestSnapshot (env.store .latestSnapshot)) attempt
        (startTable n.db attempt)) n'.db := by
  have h1 := returns_check_bind h
  obtain ⟨attempt, n1, h2, h3⟩ := returns_bind.mp h1
  have h4 := returns_get_bind.mp (returns_check_bind h3)
  have h5 := returns_check_bind (returns_set_bind.mp h4)
  obtain ⟨-, rfl⟩ := returns_pure.mp h5
  obtain ⟨hver, -, himp⟩ := imported_of_backfill (le_refl 1) h2
  exact ⟨hver, attempt, himp⟩

/-- The revision of the snapshot that `Run` looks up, 0 if there is none. -/
def snapshotRevision (env : Env) : ℤ := (getLatestSnapshot (env.store .latestSnapshot)).getD 0

/-- **Loads that miss nothing**, for a node with the local database `db` and object storage that was
`start` when `Run` began. -/
structure Covered (env : Env) (db : Table) (start : ObjectStorage) : Prop where
  /-- The local database is empty, or not behind the snapshot that is looked up. -/
  notBehind : db.recordCount = 0 ∨ snapshotRevision env ≤ db.latestRevision
  /-- The snapshots of the start are not above the one that is looked up. -/
  newest : ∀ rev, start.Has (.snapshot rev) → rev ≤ snapshotRevision env
  /-- No chunk above it is cleaned up before it is listed and read. -/
  kept : ∀ attempt rev file, start.get (.chunk rev) = some file → snapshotRevision env < rev →
    (env.store (.listChunks attempt)).Has (.chunk rev) ∧
      (env.store (.chunk attempt rev)).get (.chunk rev) = some file
  /-- Files are named by their last revision. -/
  named : ∀ o ∈ start, ∀ r ∈ o.2.records, r.revision ≤ o.1.revision
  /-- The snapshot has the revision that it is named by. -/
  reached : ∀ attempt rev, getLatestSnapshot (env.store .latestSnapshot) = some rev →
    ∃ r ∈ recordsOf (env.store (.snapshot attempt)) (.snapshot rev), r.revision = rev
  /-- Revisions are positive. -/
  localPositive : ∀ row ∈ db, 0 < row.revision
  positive : ∀ read, ∀ o ∈ env.store read, ∀ r ∈ o.2.records, 0 < r.revision

theorem mem_recordsOf {b : ObjectStorage} {key : ObjectKey} {r : Record} :
    r ∈ recordsOf b key ↔ ∃ file, b.get key = some file ∧ r ∈ file.records := by
  unfold recordsOf
  cases b.get key with
  | none => simp
  | some file => simp

theorem Covered.pos_of_mem_recordsOf {start : ObjectStorage} {db : Table} {read : Read}
    {key : ObjectKey} {r : Record} (h : Covered env db start)
    (hr : r ∈ recordsOf (env.store read) key) : 0 < r.revision := by
  obtain ⟨file, hfile, hmem⟩ := mem_recordsOf.mp hr
  exact h.positive read _ (Bucket.get_eq_some.mp hfile) r hmem

theorem Covered.pos_of_mem_imports {start : ObjectStorage} {db : Table} {r : Record}
    (h : Covered env db start) (hr : r ∈ imports env latestSnapshot attempt t) :
    0 < r.revision := by
  have hchunks : ∀ fromRevision, r ∈ chunkRecords env attempt fromRevision → 0 < r.revision := by
    intro fromRevision hr
    obtain ⟨rev, -, hr⟩ := List.mem_flatMap.mp hr
    exact h.pos_of_mem_recordsOf hr
  unfold imports at hr
  split_ifs at hr
  · exact hchunks _ hr
  · rcases List.mem_append.mp hr with hr | hr
    · cases latestSnapshot with
      | none => cases hr
      | some rev => exact h.pos_of_mem_recordsOf hr
    · exact hchunks _ hr

/-- The revision above which an attempt lists the chunks. -/
def listedFrom (env : Env) (t : Table) : ℤ :=
  if 0 < t.recordCount then t.latestRevision else snapshotRevision env

theorem mem_imports_of_chunk {r : Record} {rev : ℤ} (hlt : listedFrom env t < rev)
    (hlisted : (env.store (.listChunks attempt)).Has (.chunk rev))
    (hr : r ∈ recordsOf (env.store (.chunk attempt rev)) (.chunk rev)) :
    r ∈ imports env (getLatestSnapshot (env.store .latestSnapshot)) attempt t := by
  have hchunk : r ∈ chunkRecords env attempt (listedFrom env t) :=
    List.mem_flatMap.mpr ⟨rev, mem_listChunks.mpr ⟨hlt, hlisted⟩, hr⟩
  unfold listedFrom snapshotRevision at hchunk
  unfold imports
  split_ifs at hchunk ⊢
  · exact hchunk
  · exact List.mem_append_right _ hchunk

theorem Covered.listedFrom_le {start : ObjectStorage} {db : Table} (h : Covered env db start)
    (attempt : ℕ) :
    snapshotRevision env ≤ listedFrom env (startTable db attempt) ∧
      listedFrom env (startTable db attempt) ≤ highest ((startTable db attempt).rows ++
        imports env (getLatestSnapshot (env.store .latestSnapshot)) attempt
          (startTable db attempt)) := by
  unfold listedFrom
  by_cases hcount : 0 < (startTable db attempt).recordCount
  · have hdb : startTable db attempt = db := by
      unfold startTable at hcount ⊢
      split_ifs at hcount ⊢
      · rfl
      · exact absurd hcount (by decide)
    rw [if_pos hcount]
    rw [hdb] at hcount ⊢
    refine ⟨h.notBehind.resolve_left hcount.ne', ?_⟩
    have hne : db.rows ≠ [] := by
      rintro hnil
      simp [Table.recordCount, hnil] at hcount
    obtain ⟨first, hfirst⟩ := List.exists_mem_of_ne_nil _ hne
    obtain ⟨row, hrow, hlatest⟩ := Table.exists_latestRevision hfirst
    rw [← hlatest]
    exact le_highest (List.mem_append_left _ hrow)
  · rw [if_neg hcount]
    refine ⟨le_rfl, ?_⟩
    unfold snapshotRevision
    cases hsnapshot : getLatestSnapshot (env.store .latestSnapshot) with
    | none => exact highest_nonneg _
    | some rev =>
      obtain ⟨r, hr, hrev⟩ := h.reached attempt rev hsnapshot
      have hmem : r ∈ imports env (some rev) attempt (startTable db attempt) := by
        unfold imports
        rw [if_neg hcount]
        exact List.mem_append_left _ hr
      have hle := le_highest (List.mem_append_right (startTable db attempt).rows hmem)
      rwa [hrev] at hle

/-- **A load that misses nothing is complete**: it has exactly one row for every revision that was
durable when `Run` began. -/
theorem loaded_complete {res : Result} (start : ObjectStorage) (hcovered : Covered env n.db start)
    (h : Returns (run env) n res n') : Complete n'.db (highest (durableRecords start)) := by
  obtain ⟨hver, attempt, himp⟩ := returns_run h
  obtain ⟨hfrom, hreached⟩ := hcovered.listedFrom_le attempt
  refine (complete_iff_le_highest himp hver (fun r hr => ?_) (highest_nonneg _)).mpr ?_
  · rcases List.mem_append.mp hr with hr | hr
    · unfold startTable at hr
      split_ifs at hr
      · exact hcovered.localPositive r hr
      · cases hr
    · exact hcovered.pos_of_mem_imports hr
  · by_cases hpos : 1 ≤ highest (durableRecords start)
    · obtain ⟨r, hr, hle⟩ := exists_of_le_highest hpos le_rfl
      obtain ⟨⟨key, file⟩, ho, -, hmem⟩ := mem_durableRecords.mp hr
      have hnamed := hcovered.named _ ho r hmem
      refine hle.trans ?_
      cases key with
      | snapshot rev =>
        have hnewest := hcovered.newest rev (Bucket.has_iff.mpr ⟨file, ho⟩)
        exact hnamed.trans ((hnewest.trans hfrom).trans hreached)
      | chunk rev =>
        by_cases hlt : listedFrom env (startTable n.db attempt) < rev
        · obtain ⟨hlisted, hget⟩ := hcovered.kept attempt rev file (Bucket.get_eq_some.mpr ho)
            (hfrom.trans_lt hlt)
          have hread := mem_imports_of_chunk hlt hlisted (mem_recordsOf.mpr ⟨file, hget, hmem⟩)
          exact le_highest (List.mem_append_right _ hread)
        · exact hnamed.trans ((not_lt.mp hlt).trans hreached)
    · have := highest_nonneg ((startTable n.db attempt).rows ++
        imports env (getLatestSnapshot (env.store .latestSnapshot)) attempt
          (startTable n.db attempt))
      omega

/-! ### An interrupted import -/

def recordAt (revision : ℤ) (key : UInt8) : Record :=
  { revision := revision, key := [key], created := true, createRevision := revision, version := 1,
    createdAt := some 1, leaderId := "p" }

/-- Object storage after a snapshot at revision 2 and the cleanup of the chunks below it. -/
def snapshotOnly : ObjectStorage :=
  Bucket.empty.create (.snapshot 2)
    { kind := .snapshot, createdAt := 1, leaderId := "p", compression := .none,
      records := [recordAt 1 97, recordAt 2 98] }

def quiet (b : ObjectStorage) : Env := { now := 1, works := fun _ _ => true, store := fun _ => b }

def emptyNode : Node := { db := .empty, compactions := [], committed := 0, compaction := 0 }

/-- The node of a process that stopped after the first record of the snapshot. -/
def interrupted : Node :=
  { emptyNode with db := ⟨[replicatedRow 1 (recordAt 1 97)], by decide, by decide⟩ }

theorem mem_snapshotOnly {o : ObjectKey × DataFile} (h : o ∈ snapshotOnly) :
    o.1 = .snapshot 2 ∧ o.2.records = [recordAt 1 97, recordAt 2 98] := by
  rcases Bucket.mem_create.mp h with hold | ⟨rfl, -⟩
  · cases hold
  · exact ⟨rfl, rfl⟩

theorem covered_emptyNode : Covered (quiet snapshotOnly) emptyNode.db snapshotOnly where
  notBehind := Or.inl rfl
  newest := fun rev hrev => by
    obtain ⟨file, hfile⟩ := Bucket.has_iff.mp hrev
    cases (mem_snapshotOnly hfile).1
    decide
  kept := fun _ rev file hget => by
    cases (mem_snapshotOnly (Bucket.get_eq_some.mp hget)).1
  named := fun o ho => by
    obtain ⟨hkey, hrecords⟩ := mem_snapshotOnly ho
    rw [hkey, hrecords]
    decide
  reached := fun _ rev hrev => by
    have htwo : getLatestSnapshot snapshotOnly = some 2 := by decide
    cases htwo.symm.trans hrev
    have hmem : recordAt 2 98 ∈ recordsOf snapshotOnly (.snapshot 2) := by decide
    exact ⟨_, hmem, rfl⟩
  localPositive := fun _ hrow => absurd hrow List.not_mem_nil
  positive := fun _ o ho => by
    rw [(mem_snapshotOnly ho).2]
    decide

theorem loaded_complete_empty :
    ∃ n', Returns (run (quiet snapshotOnly)) emptyNode ⟨some 2⟩ n' ∧
      highest (durableRecords snapshotOnly) = 2 ∧ Complete n'.db 2 := by
  refine ⟨_, rfl, by decide, ?_⟩
  exact loaded_complete snapshotOnly covered_emptyNode
    (rfl : Returns (run (quiet snapshotOnly)) emptyNode ⟨some 2⟩ _)

theorem interrupted_import_incomplete :
    ∃ n', Returns (run (quiet snapshotOnly)) interrupted ⟨some 2⟩ n' ∧
      highest (durableRecords snapshotOnly) = 2 ∧ ¬ Complete n'.db 2 := by
  refine ⟨_, rfl, by decide, fun h => ?_⟩
  obtain ⟨row, hrow, he⟩ := complete_iff.mp h 2 (by decide) (by decide)
  revert row
  decide

end Netsy.Bootstrap.Completeness
