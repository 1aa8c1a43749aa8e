import Netsy.Datastore
import Netsy.Lib.StateError
import Netsy.LocalDB.Compaction

/-! # Loading a node

`Run` fills the local database of a node that knows no Primary from object storage: an empty
database gets the latest snapshot, then the chunks above the revision reached are replayed. If
`VerifyIntegrity` fails, a second attempt starts from an empty database. The objects may change
between the reads, so every read has its own store. -/

namespace Netsy.Bootstrap.Loader

open Proto Datastore Lib.StateError LocalDB.Schema LocalDB.Compaction

/-- What `Run` reads and writes of the node. -/
structure Node where
  db : Table
  compactions : Compactions
  committed : ℤ
  compaction : ℤ
deriving DecidableEq

inductive BootstrapError
  | getLatestSnapshot
  | truncate
  | readCompaction
  | deriveCompaction
  | persistCompaction
  | countLocalRecords
  | localRevision
  | importSnapshot (e : ImportError)
  | listChunks
  | importChunk (revision : ℤ) (e : ImportError)
  | verifyIntegrity
  | latestRevision
  | setHealth
deriving DecidableEq, Repr

/-- The points at which the environment can make `Run` fail. The compaction revision is read before
and after the import of a snapshot. -/
inductive Op
  | getLatestSnapshot | truncate | readCompaction (after : Bool) | deriveCompaction (after : Bool)
  | persistCompaction (after : Bool) | countLocalRecords | localRevision | downloadSnapshot
  | listChunks | downloadChunk (revision : ℤ) | verifyIntegrity | latestRevision | setHealth
deriving DecidableEq, Repr

/-- The reads of object storage. -/
inductive Read
  | latestSnapshot
  | snapshot (attempt : ℕ)
  | listChunks (attempt : ℕ)
  | chunk (attempt : ℕ) (revision : ℤ)
deriving DecidableEq, Repr

/-- What the environment decides: the time, the failures, and what object storage holds at each
read. -/
structure Env where
  now : Time
  works : ℕ → Op → Bool
  store : Read → ObjectStorage

abbrev Boot := Prog Node BootstrapError

def check (env : Env) (attempt : ℕ) (op : Op) (e : BootstrapError) : Boot Unit :=
  if env.works attempt op then pure () else throw e

def maxIntegrityAttempts : ℕ := 2

def seedCompactionFromLocalDB (env : Env) (attempt : ℕ) (after : Bool) : Boot PUnit := do
  check env attempt (.readCompaction after) .readCompaction
  let n ← get
  let current := latestCompactionRevision n.compactions
  if 0 < current then set { n with compaction := current }
  else
    check env attempt (.deriveCompaction after) .deriveCompaction
    let derived := deriveCompactionRevision n.db
    check env attempt (.persistCompaction after) .persistCompaction
    set { n with
      compactions := persistCompactionRevision n.compactions derived, compaction := derived }

/-- `DownloadAndImportFile` into the database of the node. What was imported before an error stays
there. -/
def importFile (env : Env) (read : Read) (key : ObjectKey) (kind : FileKind) (getOk : Bool)
    (fail : ImportError → BootstrapError) : Boot PUnit := do
  let n ← get
  let res := downloadAndImportFile env.now n.db (env.store read) key kind getOk
  set { n with db := res.1 }
  match res.2 with
  | .ok () => pure ()
  | .error e => throw (fail e)

/-- `importLatestSnapshot`; `none` is `Found: false`. -/
def importLatestSnapshot (env : Env) (attempt : ℕ) : Option ℤ → Boot PUnit
  | none => pure ()
  | some revision =>
    importFile env (.snapshot attempt) (.snapshot revision) .snapshot
      (env.works attempt .downloadSnapshot) .importSnapshot

/-- `prepareLocalState`: the revision above which chunks are replayed. -/
def prepareLocalState (env : Env) (attempt : ℕ) (latestSnapshot : Option ℤ) : Boot ℤ := do
  seedCompactionFromLocalDB env attempt false
  check env attempt .countLocalRecords .countLocalRecords
  let n ← get
  if 0 < n.db.recordCount then
    check env attempt .localRevision .localRevision
    pure n.db.latestRevision
  else
    importLatestSnapshot env attempt latestSnapshot
    seedCompactionFromLocalDB env attempt true
    pure (latestSnapshot.getD 0)

def backfillChunksFromRevision (env : Env) (attempt : ℕ) (fromRevision : ℤ) : Boot PUnit := do
  check env attempt .listChunks .listChunks
  (listChunks (env.store (.listChunks attempt)) fromRevision).forM fun revision =>
    importFile env (.chunk attempt revision) (.chunk revision) .chunk
      (env.works attempt (.downloadChunk revision)) (.importChunk revision)

/-- What precedes every attempt but the first one: `Truncate`, and the node state that goes with
it. -/
def rebuild (env : Env) (attempt : ℕ) : Boot PUnit :=
  if 1 < attempt then do
    check env attempt .truncate .truncate
    set ({ db := Table.empty, compactions := [], committed := 0, compaction := 0 } : Node)
  else pure ⟨⟩

/-- The loop over the attempts. It returns the attempt that passed the integrity check. -/
def backfill (env : Env) (latestSnapshot : Option ℤ) : ℕ → ℕ → Boot ℕ
  | 0, _ => throw .verifyIntegrity
  | fuel + 1, attempt => do
    rebuild env attempt
    let fromRevision ← prepareLocalState env attempt latestSnapshot
    backfillChunksFromRevision env attempt fromRevision
    let n ← get
    if env.works attempt .verifyIntegrity && n.db.verifyIntegrity then pure attempt
    else backfill env latestSnapshot fuel (attempt + 1)

/-- The result of `Run`. -/
structure Result where
  latestSnapshot : Option ℤ
deriving DecidableEq, Repr

/-- `Run` from the registration on, with no Primary known. -/
def run (env : Env) : Boot Result := do
  check env 0 .getLatestSnapshot .getLatestSnapshot
  let latestSnapshot := getLatestSnapshot (env.store .latestSnapshot)
  let _ ← backfill env latestSnapshot maxIntegrityAttempts 1
  check env 0 .latestRevision .latestRevision
  let n ← get
  set { n with committed := n.db.latestRevision }
  check env 0 .setHealth .setHealth
  pure ⟨latestSnapshot⟩

end Netsy.Bootstrap.Loader
