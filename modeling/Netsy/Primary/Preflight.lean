import Netsy.Lib.StateError
import Netsy.LocalDB.Compaction
import Netsy.LocalDB.Insert
import Netsy.Primary.WriteRecord

/-! # Primary preflight

`runPreflightPass` is what an elected node does before it becomes Active: it replays the chunks
above its latest local revision, uploads the local records above the highest durable revision, and
takes its latest revision as the committed one. -/

namespace Netsy.Primary.Preflight

open Proto Datastore Lib.ObjectStore Lib.StateError
open LocalDB.Schema LocalDB.Insert LocalDB.Replicate LocalDB.Compaction Primary.WriteRecord

/-- What a pass reads and writes. -/
structure Node where
  db : Table
  compactions : Compactions
  bucket : ObjectStorage
  committed : ℤ
  compaction : ℤ
  nextRevisionID : ℤ
  /-- The messages broadcast to the Replicas so far. -/
  broadcast : List PrimaryMessage
deriving DecidableEq

inductive PreflightError
  | readLocalRevision
  | getLatestSnapshot
  | behindSnapshot (latestLocalRevision snapshotRevision : ℤ)
  | listChunks
  | stopped
  | importChunk (revision : ℤ) (e : ImportError)
  | insertInitial (e : InsertError)
  | listLocalRecords (durableRevision : ℤ)
  | writeRecord (revision : ℤ) (e : PutError)
  | readCompaction
  | deriveCompaction
  | persistCompaction
  | readLatestRevision
deriving DecidableEq, Repr

/-- The points of a pass at which the environment can make it fail. -/
inductive Op
  | readLocalRevision | getLatestSnapshot | listChunks | beforeChunk (revision : ℤ)
  | download (revision : ℤ) | listLocalRecords | beforeRecord (revision : ℤ) | readCompaction
  | deriveCompaction | persistCompaction | readLatestRevision
deriving DecidableEq, Repr

/-- What the environment decides during a pass. -/
structure Env where
  now : Time
  works : Op → Bool
  /-- How the upload of the record with this revision ends. -/
  put : ℤ → Delivery
  /-- Whether an existing chunk with this revision can be read back. -/
  get : ℤ → Bool

abbrev Pass := Prog Node PreflightError

def check (env : Env) (op : Op) (e : PreflightError) : Pass Unit :=
  if env.works op then pure () else throw e

/-- The body of the loop over the chunks. Before each chunk the pass stops if the context is
cancelled or the node has left Starting. -/
def importChunk (env : Env) (latestLocalRevision chunk : ℤ) : Pass PUnit := do
  check env (.beforeChunk chunk) .stopped
  if chunk ≤ latestLocalRevision then pure ()
  else
    let n ← get
    let res := downloadAndImportFile env.now n.db n.bucket (.chunk chunk) .chunk
      (env.works (.download chunk))
    set { n with db := res.1 }
    match res.2 with
    | .ok () => pure ()
    | .error e => throw (.importChunk chunk e)

/-- `"_netsy"`. -/
def initialRecordKey : Bytes := [95, 110, 101, 116, 115, 121]

/-- The first record of a cluster, at revision 1 as in etcd. -/
def initialRecord (nodeID : NodeID) : Record :=
  { revision := 1, key := initialRecordKey, created := true, leaderId := nodeID }

/-- Inserts the initial record if the cluster is empty. -/
def insertInitial (env : Env) (nodeID : NodeID) (durableRevision latestLocalRevision : ℤ) :
    Pass PUnit :=
  if durableRevision = 0 ∧ latestLocalRevision = 0 then do
    let n ← get
    match insertRecord n.db env.now (initialRecord nodeID) with
    | .ok (db, _) => set { n with db := db }
    | .error e => throw (.insertInitial e)
  else pure ()

/-- The body of the loop over the records: `writeRecordIfMissing`, then `BroadcastRecord`. -/
def uploadRecord (env : Env) (nodeID : NodeID) (record : Record) : Pass PUnit := do
  check env (.beforeRecord record.revision) .stopped
  let n ← get
  let res := writeRecordIfMissing n.bucket env.now record nodeID (env.put record.revision)
    (env.get record.revision)
  set { n with bucket := res.1 }
  match res.2 with
  | .ok () =>
    set { n with bucket := res.1, broadcast := n.broadcast ++ [PrimaryMessage.record record] }
  | .error e => throw (.writeRecord record.revision e)

/-- Reads the compaction revision, or derives and persists it. -/
def seedCompaction (env : Env) : Pass Unit := do
  check env .readCompaction .readCompaction
  let n ← get
  let current := latestCompactionRevision n.compactions
  if current = 0 then
    check env .deriveCompaction .deriveCompaction
    let derived := deriveCompactionRevision n.db
    check env .persistCompaction .persistCompaction
    set { n with
      compactions := persistCompactionRevision n.compactions derived, compaction := derived }
  else set { n with compaction := current }

/-- The highest revision that a file key names. -/
def durableRevision (b : ObjectStorage) : ℤ :=
  (listChunks b 0).foldl (fun d c => if d < c then c else d) ((getLatestSnapshot b).getD 0)

/-- Fails if the latest snapshot is ahead of the local database. -/
def requireSnapshot (latestLocalRevision : ℤ) : Option ℤ → Pass PUnit
  | some rev =>
    if latestLocalRevision < rev then throw (.behindSnapshot latestLocalRevision rev) else pure ()
  | none => pure ()

/-- Uploads the local records above the durable revision. -/
def uploadRecords (env : Env) (nodeID : NodeID) (durableRevision : ℤ) : Pass PUnit := do
  check env .listLocalRecords (.listLocalRecords durableRevision)
  let n ← get
  (n.db.findRecordsAfterRevision durableRevision).forM (uploadRecord env nodeID)

/-- Takes the latest local revision as the committed one. -/
def setCommitted (env : Env) : Pass PUnit := do
  check env .readLatestRevision .readLatestRevision
  let n ← get
  let latest := n.db.latestRevision
  set { n with
    committed := latest
    nextRevisionID := latest + 1
    broadcast := n.broadcast ++ [PrimaryMessage.commit latest] }

def runPreflightPass (env : Env) (nodeID : NodeID) : Pass PUnit := do
  check env .readLocalRevision .readLocalRevision
  let start ← get
  check env .getLatestSnapshot .getLatestSnapshot
  requireSnapshot start.db.latestRevision (getLatestSnapshot start.bucket)
  check env .listChunks .listChunks
  (listChunks start.bucket 0).forM (importChunk env start.db.latestRevision)
  insertInitial env nodeID (durableRevision start.bucket) start.db.latestRevision
  uploadRecords env nodeID (durableRevision start.bucket)
  seedCompaction env
  setCommitted env

/-! ### What the parts of a pass do -/

variable {env : Env} {nodeID : NodeID} {n n' : Node} {l : ℤ} {u : PUnit} {r row : Record}

theorem returns_check_bind {op : Op} {e : PreflightError} {f : Unit → Pass PUnit}
    (h : Returns (check env op e >>= f) n u n') : Returns (f ()) n u n' :=
  returns_guard_bind h

theorem returns_importChunk {chunk : ℤ} (h : Returns (importChunk env l chunk) n u n') :
    (chunk ≤ l ∧ n' = n) ∨ (l < chunk ∧ ∃ db, n' = { n with db := db } ∧
      downloadAndImportFile env.now n.db n.bucket (.chunk chunk) .chunk
        (env.works (.download chunk)) = (db, .ok ())) := by
  have h1 := returns_check_bind h
  split_ifs at h1 with hl
  · exact Or.inl ⟨hl, (returns_pure.mp h1).2⟩
  · have hg := returns_get_bind.mp h1
    have h2 := returns_set_bind.mp hg
    refine Or.inr ⟨not_le.mp hl, _, ?_, Prod.ext rfl ?_⟩
    · split at h2
      · exact (returns_pure.mp h2).2
      · exact absurd h2 not_returns_throw
    · split at h2
      · assumption
      · exact absurd h2 not_returns_throw

/-- **The replay loop**: it adds the rows of the chunks above `l`. -/
structure Replayed (n : Node) (l : ℤ) (chunks : List ℤ) (n' : Node) : Prop where
  bucket : n'.bucket = n.bucket
  kept : ∀ row ∈ n.db, row ∈ n'.db
  replayed : ∀ c ∈ chunks, l < c → ∀ file, (.chunk c, file) ∈ n.bucket → ∀ r ∈ file.records,
    ∃ row ∈ n'.db, recordsEqualForReplication row r
  new : ∀ row ∈ n'.db, row ∈ n.db ∨ ∃ c ∈ chunks, l < c ∧ ∃ file, (.chunk c, file) ∈ n.bucket ∧
    ∃ r ∈ file.records, recordsEqualForReplication row r

theorem replayed_of_returns {chunks : List ℤ}
    (h : Returns (chunks.forM (importChunk env l)) n u n') : Replayed n l chunks n' := by
  refine returns_forM (I := fun done m => Replayed n l done m) (fun done c m m' hm hc => ?_)
    chunks [] n ⟨rfl, fun _ hr => hr, by simp, fun _ hr => Or.inl hr⟩ h
  rcases returns_importChunk hc with ⟨hle, rfl⟩ | ⟨hlt, db, rfl, hdb⟩
  · refine ⟨hm.bucket, hm.kept, fun c' hc' hl => ?_, fun row hrow => ?_⟩
    · rcases List.mem_append.mp hc' with hc' | hc'
      · exact hm.replayed c' hc' hl
      · rw [List.mem_singleton.mp hc'] at hl
        omega
    · exact (hm.new row hrow).imp_right fun ⟨c', hc', h'⟩ => ⟨c', by simp [hc'], h'⟩
  · obtain ⟨file, hfile, h1, h2, h3⟩ := downloadAndImportFile_ok hdb
    rw [hm.bucket] at hfile
    refine ⟨hm.bucket, fun row hrow => h1 row (hm.kept row hrow), fun c' hc' hl f hf r hr => ?_,
      fun row hrow => ?_⟩
    · rcases List.mem_append.mp hc' with hc' | hc'
      · obtain ⟨row, hrow, he⟩ := hm.replayed c' hc' hl f hf r hr
        exact ⟨row, h1 row hrow, he⟩
      · rw [List.mem_singleton.mp hc'] at hf
        rw [Bucket.eq_of_mem hf hfile] at hr
        exact h2 r hr
    · rcases h3 row hrow with hrow | ⟨r, hr, he⟩
      · exact (hm.new row hrow).imp_right fun ⟨c', hc', h'⟩ => ⟨c', by simp [hc'], h'⟩
      · exact Or.inr ⟨c, by simp, hlt, file, hfile, r, hr, he⟩

theorem returns_uploadRecord (h : Returns (uploadRecord env nodeID r) n u n') :
    ∃ res, res = writeRecordIfMissing n.bucket env.now r nodeID (env.put r.revision)
        (env.get r.revision) ∧ res.2 = .ok () ∧ n'.db = n.db ∧ n'.bucket = res.1 := by
  have hc := returns_check_bind h
  have hg := returns_get_bind.mp hc
  have h1 := returns_set_bind.mp hg
  refine ⟨_, rfl, ?_⟩
  split at h1
  · obtain rfl := returns_set.mp h1
    exact ⟨by assumption, rfl, rfl⟩
  · exact absurd h1 not_returns_throw

/-- **The upload loop**: it stores a chunk for every record. -/
structure Uploaded (env : Env) (nodeID : NodeID) (n : Node) (rs : List Record) (n' : Node) :
    Prop where
  db : n'.db = n.db
  kept : ∀ o ∈ n.bucket, o ∈ n'.bucket
  uploaded : ∀ r ∈ rs, marshalChunk env.now r nodeID ∈ n'.bucket
  new : ∀ o ∈ n'.bucket, o ∈ n.bucket ∨ ∃ r ∈ rs, o = marshalChunk env.now r nodeID
  snapshot : getLatestSnapshot n'.bucket = getLatestSnapshot n.bucket

theorem uploaded_of_returns {rs : List Record}
    (h : Returns (rs.forM (uploadRecord env nodeID)) n u n') : Uploaded env nodeID n rs n' := by
  refine returns_forM (I := fun done m => Uploaded env nodeID n done m)
    (fun done r m m' hm hr => ?_) rs [] n
    ⟨rfl, fun _ ho => ho, by simp, fun _ ho => Or.inl ho, rfl⟩ h
  obtain ⟨res, hres, hok, hdb, hb⟩ := returns_uploadRecord hr
  rw [hres] at hok
  have hmem := mem_of_writeRecordIfMissing_ok hok
  rw [← hres, ← hb] at hmem
  have hfst : m'.bucket = _ := hb.trans ((congrArg Prod.fst hres).trans writeRecordIfMissing_fst)
  have hkept : ∀ o ∈ m.bucket, o ∈ m'.bucket := fun o ho => by
    rw [hfst]
    exact Bucket.mem_putIfMatch_of_mem ho
  refine ⟨hdb.trans hm.db, fun o ho => hkept o (hm.kept o ho), fun r' hr' => ?_, fun o ho => ?_, ?_⟩
  · rcases List.mem_append.mp hr' with hr' | hr'
    · exact hkept _ (hm.uploaded r' hr')
    · rw [List.mem_singleton.mp hr']
      exact hmem
  · rw [hfst] at ho
    rcases Bucket.mem_putIfMatch ho with ho | ⟨rfl, -⟩
    · exact (hm.new o ho).imp_right fun ⟨r', hr', h'⟩ => ⟨r', by simp [hr'], h'⟩
    · exact Or.inr ⟨r, by simp, rfl⟩
  · rw [hfst, ← hm.snapshot]
    cases env.put r.revision with
    | answered => exact getLatestSnapshot_create_chunk
    | failed => rfl

/-! ### A pass that returns -/

/-- **What a pass that returns nil did.** -/
structure Passed (env : Env) (nodeID : NodeID) (n n' : Node) : Prop where
  kept : ∀ row ∈ n.db, row ∈ n'.db
  replayed : ∀ c, 0 < c → n.db.latestRevision < c → ∀ file, (.chunk c, file) ∈ n.bucket →
    ∀ r ∈ file.records, ∃ row ∈ n'.db, recordsEqualForReplication row r
  new : ∀ row ∈ n'.db, row ∈ n.db ∨
    (∃ c, n.db.latestRevision < c ∧ ∃ file, (.chunk c, file) ∈ n.bucket ∧
      ∃ r ∈ file.records, recordsEqualForReplication row r) ∨
    (durableRevision n.bucket = 0 ∧ n.db.latestRevision = 0 ∧ row.revision = 1)
  keptObjects : ∀ o ∈ n.bucket, o ∈ n'.bucket
  uploaded : ∀ row ∈ n'.db, durableRevision n.bucket < row.revision →
    marshalChunk env.now row nodeID ∈ n'.bucket
  newObjects : ∀ o ∈ n'.bucket, o ∈ n.bucket ∨
    ∃ row ∈ n'.db, durableRevision n.bucket < row.revision ∧ o = marshalChunk env.now row nodeID
  snapshot : getLatestSnapshot n'.bucket = getLatestSnapshot n.bucket
  committed : n'.committed = n'.db.latestRevision

theorem returns_requireSnapshot {snapshot : Option ℤ}
    (h : Returns (requireSnapshot l snapshot) n u n') : n' = n := by
  unfold requireSnapshot at h
  split at h
  · split_ifs at h
    · exact absurd h not_returns_throw
    · exact (returns_pure.mp h).2
  · exact (returns_pure.mp h).2

theorem returns_insertInitial {d : ℤ} (h : Returns (insertInitial env nodeID d l) n u n') :
    n'.bucket = n.bucket ∧ (∀ row ∈ n.db, row ∈ n'.db) ∧
      ∀ row ∈ n'.db, row ∈ n.db ∨ (d = 0 ∧ l = 0 ∧ row.revision = 1) := by
  unfold insertInitial at h
  split_ifs at h with hd
  · have hg := returns_get_bind.mp h
    split at hg
    · next db r hi =>
      obtain rfl := returns_set.mp hg
      refine ⟨rfl, fun row hrow => (mem_insertRecord hi).mpr (Or.inr hrow), fun row hrow => ?_⟩
      rcases (mem_insertRecord hi).mp hrow with rfl | hrow
      · exact Or.inr ⟨hd.1, hd.2, revision_insertRecord hi⟩
      · exact Or.inl hrow
    · exact absurd hg not_returns_throw
  · obtain ⟨-, rfl⟩ := returns_pure.mp h
    exact ⟨rfl, fun _ hr => hr, fun _ hr => Or.inl hr⟩

theorem returns_seedCompaction (h : Returns (seedCompaction env) n u n') :
    n'.db = n.db ∧ n'.bucket = n.bucket := by
  have hc := returns_check_bind h
  have hg := returns_get_bind.mp hc
  dsimp only at hg
  split_ifs at hg
  · have h1 := returns_check_bind hg
    have h2 := returns_check_bind h1
    obtain rfl := returns_set.mp h2
    exact ⟨rfl, rfl⟩
  · obtain rfl := returns_set.mp hg
    exact ⟨rfl, rfl⟩

theorem passed_of_returns (h : Returns (runPreflightPass env nodeID) n u n') :
    Passed env nodeID n n' := by
  have hc := returns_check_bind h
  have hg := returns_get_bind.mp hc
  have hs := returns_check_bind hg
  obtain ⟨_, n1, h1, hs⟩ := returns_bind.mp hs
  obtain rfl := returns_requireSnapshot h1
  have hl := returns_check_bind hs
  obtain ⟨_, n2, h2, hl⟩ := returns_bind.mp hl
  obtain ⟨_, n3, h3, hl⟩ := returns_bind.mp hl
  obtain ⟨_, n4, h4, hl⟩ := returns_bind.mp hl
  obtain ⟨_, n5, h5, hl⟩ := returns_bind.mp hl
  have hrep := replayed_of_returns h2
  obtain ⟨hb3, hk3, hn3⟩ := returns_insertInitial h3
  have hu := returns_check_bind h4
  have hu := returns_get_bind.mp hu
  have hup := uploaded_of_returns hu
  obtain ⟨hd5, hb5⟩ := returns_seedCompaction h5
  have he := returns_check_bind hl
  have he := returns_get_bind.mp he
  have hn' := returns_set.mp he
  have hdb : n'.db = n3.db := by rw [hn', ← hup.db, ← hd5]
  have hbk : n'.bucket = n4.bucket := by rw [hn', ← hb5]
  have hb1 : n3.bucket = n1.bucket := hb3.trans hrep.bucket
  refine ⟨fun row hrow => ?_, fun c hc0 hlt file hfile r hr => ?_, fun row hrow => ?_,
    fun o ho => ?_, fun row hrow hlt => ?_, fun o ho => ?_, ?_, ?_⟩
  · rw [hdb]
    exact hk3 row (hrep.kept row hrow)
  · have hlist : c ∈ listChunks n1.bucket 0 :=
      mem_listChunks.mpr ⟨hc0, Bucket.has_iff.mpr ⟨file, hfile⟩⟩
    obtain ⟨row, hrow, he⟩ := hrep.replayed c hlist hlt file hfile r hr
    exact ⟨row, hdb ▸ hk3 row hrow, he⟩
  · rw [hdb] at hrow
    rcases hn3 row hrow with hrow | hinit
    · rcases hrep.new row hrow with hrow | ⟨c, -, hc⟩
      · exact Or.inl hrow
      · exact Or.inr (Or.inl ⟨c, hc⟩)
    · exact Or.inr (Or.inr hinit)
  · rw [hbk]
    exact hup.kept o (hb1 ▸ ho)
  · rw [hdb] at hrow
    rw [hbk]
    exact hup.uploaded row (Table.mem_findRecordsAfterRevision.mpr ⟨hrow, hlt⟩)
  · rw [hbk] at ho
    rcases hup.new o ho with ho | ⟨r, hr, rfl⟩
    · exact Or.inl (hb1 ▸ ho)
    · obtain ⟨hr, hlt⟩ := Table.mem_findRecordsAfterRevision.mp hr
      exact Or.inr ⟨r, hdb ▸ hr, hlt, rfl⟩
  · rw [hbk, hup.snapshot, hb1]
  · rw [hn']

/-- A pass that returns has taken the latest local revision as the committed one. -/
theorem numbered_of_returns (h : Returns (runPreflightPass env nodeID) n u n') :
    n'.committed = n'.db.latestRevision ∧ n'.nextRevisionID = n'.db.latestRevision + 1 := by
  have h1 := returns_check_bind (returns_get_bind.mp (returns_check_bind h))
  obtain ⟨_, n1, -, h2⟩ := returns_bind.mp h1
  obtain ⟨_, n2, -, h3⟩ := returns_bind.mp (returns_check_bind h2)
  obtain ⟨_, n3, -, h4⟩ := returns_bind.mp h3
  obtain ⟨_, n4, -, h5⟩ := returns_bind.mp h4
  obtain ⟨_, n5, -, h6⟩ := returns_bind.mp h5
  obtain rfl := returns_set.mp (returns_get_bind.mp (returns_check_bind h6))
  exact ⟨rfl, rfl⟩

/-! ### A pass that returns or fails -/

theorem leaves_check_bind {I : Node → Prop} {op : Op} {e : PreflightError} {α : Type}
    {f : Unit → Pass α} (h : I n) (hf : I (leaves (f ()) n)) :
    I (leaves (check env op e >>= f) n) := by
  unfold check
  split_ifs
  · exact hf
  · exact h

theorem leaves_runPreflightPass {I : Node → Prop} (h : I n)
    (hchunk : ∀ c ∈ listChunks n.bucket 0, ∀ m, I m →
      I (leaves (importChunk env n.db.latestRevision c) m))
    (hinit : ∀ m, I m →
      I (leaves (insertInitial env nodeID (durableRevision n.bucket) n.db.latestRevision) m))
    (hupload : ∀ m bucket broadcast, I m → I { m with bucket := bucket, broadcast := broadcast })
    (hseed : ∀ m compactions compaction, I m →
      I { m with compactions := compactions, compaction := compaction })
    (hset : ∀ m broadcast, I m →
      I { m with
        committed := m.db.latestRevision, nextRevisionID := m.db.latestRevision + 1
        broadcast := broadcast }) :
    I (leaves (runPreflightPass env nodeID) n) := by
  refine leaves_check_bind h ?_
  rw [leaves_get_bind]
  refine leaves_check_bind h (leaves_bind ?_ fun _ n1 h1 => leaves_check_bind h1 (leaves_bind
    (leaves_forM _ _ hchunk h1) fun _ n2 h2 => leaves_bind (hinit n2 h2) fun _ n3 h3 =>
      leaves_bind ?_ fun _ n4 h4 => leaves_bind ?_ fun _ n5 h5 => ?_))
  · unfold requireSnapshot
    split
    · split_ifs <;> exact h
    · exact h
  · refine leaves_check_bind h3 ?_
    rw [leaves_get_bind]
    refine leaves_forM _ _ (fun r _ m hm => leaves_check_bind hm ?_) h3
    rw [leaves_get_bind, leaves_set_bind]
    split
    · exact hupload m _ _ hm
    · exact hupload m _ m.broadcast hm
  · refine leaves_check_bind h4 ?_
    rw [leaves_get_bind]
    dsimp only
    split_ifs
    · exact leaves_check_bind h4 (leaves_check_bind h4 (hseed n4 _ _ h4))
    · exact hseed n4 n4.compactions _ h4
  · exact leaves_check_bind h5 (hset n5 _ h5)

/-- Object storage has no chunk above the local revision, the cluster is not empty, and everything
local is committed. -/
def NothingNew (n : Node) : Prop :=
  n.committed = n.db.latestRevision ∧ (∀ c ∈ listChunks n.bucket 0, c ≤ n.db.latestRevision) ∧
    ¬ (durableRevision n.bucket = 0 ∧ n.db.latestRevision = 0)

instance (n : Node) : Decidable (NothingNew n) := inferInstanceAs (Decidable (_ ∧ _ ∧ _))

/-- A pass that finds nothing new leaves the records and the committed revision. -/
theorem leaves_of_nothingNew (h : NothingNew n) :
    (leaves (runPreflightPass env nodeID) n).db = n.db ∧
      (leaves (runPreflightPass env nodeID) n).committed = n.committed := by
  obtain ⟨hcomm, hchunks, hinit⟩ := h
  refine leaves_runPreflightPass (I := fun m => m.db = n.db ∧ m.committed = n.committed)
    ⟨rfl, rfl⟩ (fun c hc m hm => ?_) (fun m hm => ?_) (fun _ _ _ hm => hm) (fun _ _ _ hm => hm)
    fun m _ hm => ⟨hm.1, ?_⟩
  · refine leaves_check_bind (I := fun m => m.db = n.db ∧ m.committed = n.committed) hm ?_
    rw [if_pos (hchunks c hc)]
    exact hm
  · unfold insertInitial
    rw [if_neg hinit]
    exact hm
  · rw [hcomm, ← hm.1]

theorem le_committed_leaves {k : ℤ} (hrow : row ∈ n.db) (hk : k ≤ row.revision)
    (hcomm : k ≤ n.committed) : k ≤ (leaves (runPreflightPass env nodeID) n).committed := by
  have hinv : row ∈ (leaves (runPreflightPass env nodeID) n).db ∧
      k ≤ (leaves (runPreflightPass env nodeID) n).committed := by
    refine leaves_runPreflightPass (I := fun m => row ∈ m.db ∧ k ≤ m.committed) ⟨hrow, hcomm⟩
      (fun c hc m hm => ?_) (fun m hm => ?_) (fun _ _ _ hm => hm) (fun _ _ _ hm => hm)
      fun m _ hm => ⟨hm.1, hk.trans (Table.revision_le_latestRevision hm.1)⟩
    · refine leaves_check_bind (I := fun m => row ∈ m.db ∧ k ≤ m.committed) hm ?_
      split_ifs
      · exact hm
      · rw [leaves_get_bind, leaves_set_bind]
        split
        · exact ⟨subset_downloadAndImportFile hm.1, hm.2⟩
        · exact ⟨subset_downloadAndImportFile hm.1, hm.2⟩
    · unfold insertInitial
      split_ifs
      · rw [leaves_get_bind]
        split
        · next db r hi => exact ⟨(mem_insertRecord hi).mpr (Or.inr hm.1), hm.2⟩
        · exact hm
      · exact hm
  exact hinv.2

end Netsy.Primary.Preflight
