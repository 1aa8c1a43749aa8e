import Netsy.Primary.Outcomes
import Netsy.Primary.Preflight
import Netsy.Replication.ProcessStream
import Netsy.Watch.Hub

/-! # A node and its watches

A node as its watches see it: the calls of `ApplyTxn` that it serves as Primary, the messages that
it follows as Replica, its preflight passes in between, and the watch manager, which all of these
hand the committed records to. The log observes the run: it has the committed records at the start
and then every record that becomes committed, with the contents it has at that moment. -/

namespace Netsy.Watch.System

open Proto NodeState LocalDB.Schema LocalDB.Compaction
open Primary.LeaderTxn (Config Server)
open Primary.Outcomes (View view)
open Primary.Preflight (runPreflightPass)
open Replication.ProcessStream (Follower processMessage)
open Watch.Hub

structure Node where
  server : Server
  compactions : Compactions
  /-- The variable `inserted` of the call of `LeaderTxn` at the gate. -/
  inserted : Option Record
  /-- The records of the calls of `ApplyTxn` between `LeaderTxn` and `Distribute`. -/
  returned : List Record
  /-- The map `pending` of the manager. -/
  pending : List ℤ
  /-- The revisions that `AdvanceCommittedRevision` has not distributed yet. -/
  ready : List ℤ
  manager : Manager
  log : List Record

namespace Node

def env (n : Node) : Hub.Env :=
  { committed := n.server.committed, compaction := n.server.peers.compaction, db := n.server.db,
    log := n.log.length }

def txOpen (n : Node) : Bool := Primary.Outcomes.txOpen n.server

/-- The goroutine of the follower is in a call of `Distribute`. -/
def following (n : Node) : Bool := n.manager.dists.any fun d => d.caller = .follower

/-- The rows that become committed between two states. -/
def newlyCommitted (n n' : Node) : List Record :=
  n'.server.db.rows.filter fun r =>
    n.server.committed < r.revision && r.revision ≤ n'.server.committed

/-! ### The Primary -/

/-- The variable `inserted` after a step of the call at the gate. -/
def insertedAfter (inserted : Option Record) (v v' : View) : Option Record :=
  match v.stage, v'.stage with
  | none, some _ => none
  | some .begun, some (.inserted tx) => some tx.record
  | _, _ => inserted

/-- The record that the call returns by a step. -/
def returnedBy (inserted : Option Record) (v v' : View) : List Record :=
  match v.stage, v'.stage with
  | some .advanced, none => inserted.toList
  | _, _ => []

def txn (c : Config) (n : Node) (a : Primary.LeaderTxn.Action) : Option Node :=
  (Primary.LeaderTxn.step c n.server a).map fun s =>
    { n with
      server := s
      inserted := insertedAfter n.inserted (view n.server) (view s)
      returned := n.returned ++ returnedBy n.inserted (view n.server) (view s) }

/-- The previous record of a record, if it can be read. -/
def findPrev (db : Table) (record : Record) (readOk : Bool) : Option Record :=
  if !record.created ∧ 0 < record.prevRevision ∧ readOk then db.findRecordByRev record.prevRevision
  else none

/-- `ApplyTxn` after its `LeaderTxn`. -/
def distribute (n : Node) (i : ℕ) (prevOk : Bool) : Option Node :=
  n.returned[i]?.map fun r =>
    { n with
      returned := n.returned.eraseIdx i
      manager := n.manager.distribute .applyTxn ⟨r, findPrev n.server.db r prevOk⟩ }

/-- `ApplyClusterState` when the node is elected. -/
def elected (n : Node) : Option Node :=
  if n.server.primary = .replica then some { n with server := n.server.setPrimary .starting }
  else none

/-- `ApplyClusterState` when another node is elected meanwhile. -/
def dismissed (n : Node) : Option Node :=
  if n.server.primary = .starting then some { n with server := n.server.setPrimary .replica }
  else none

/-- What a preflight pass sees of the node. -/
def preflightNode (n : Node) : Primary.Preflight.Node :=
  { db := n.server.db, compactions := n.compactions, bucket := n.server.bucket,
    committed := n.server.committed, compaction := n.server.peers.compaction,
    nextRevisionID := n.server.nextRevisionID, broadcast := [] }

/-- The node after a preflight pass, whether it succeeded or not. -/
def afterPass (n : Node) (p : Primary.Preflight.Node) : Node :=
  { n with
    server := { n.server with
      db := p.db, bucket := p.bucket, committed := p.committed, nextRevisionID := p.nextRevisionID
      peers := p.broadcast.foldl (fun ps msg => ps.broadcast msg)
        { n.server.peers with compaction := p.compaction } }
    compactions := p.compactions }

/-- A pass of `runPreflight`, and `SetPrimary(Active)` if it succeeds. -/
def preflight (c : Config) (n : Node) (env : Primary.Preflight.Env) : Option Node :=
  if n.server.primary ≠ .starting ∨ n.txOpen then none
  else
    let out := (ExceptT.run (runPreflightPass env c.nodeID)).run n.preflightNode
    match out.1 with
    | .ok _ =>
      some { n.afterPass out.2 with server := (n.afterPass out.2).server.setPrimary .active }
    | .error _ => some (n.afterPass out.2)

/-! ### The Replica -/

/-- `ResetPending`, when a new stream is established. -/
def connect (n : Node) : Option Node :=
  if n.ready ≠ [] ∨ n.following then none else some { n with pending := [] }

def enqueueWatchRevision (n : Node) (revision : ℤ) : Node :=
  if revision ≤ 0 ∨ revision ∈ n.pending then n else { n with pending := n.pending ++ [revision] }

/-- The pending revisions up to `rev`, in ascending order. -/
def readyFor (n : Node) (rev : ℤ) : List ℤ := (n.pending.filter (· ≤ rev)).insertionSort (· ≤ ·)

/-- `AdvanceCommittedRevision` up to its loop of `distributeFromDB`. -/
def advanceCommittedRevision (n : Node) (rev : ℤ) : Node :=
  { n with pending := n.pending.filter (rev < ·), ready := n.readyFor rev }

/-- The part of the node that `processStream` sees. The compactions it starts may run at any time
later. -/
def follower (n : Node) : Follower :=
  { db := n.server.db, compactions := n.compactions, committed := n.server.committed,
    compaction := n.server.peers.compaction, compacting := [] }

def setFollower (n : Node) (f : Follower) : Node :=
  { n with
    server := { n.server with
      db := f.db, committed := f.committed
      peers := { n.server.peers with compaction := f.compaction } }
    compactions := f.compactions }

/-- The handler of the message writes to the database. -/
def writesDB : PrimaryMessage → Bool
  | .commit _ => false
  | _ => true

/-- One round of `processStream`. -/
def message (n : Node) (now : Time) (msg : PrimaryMessage) : Option Node :=
  if n.ready ≠ [] ∨ n.following ∨ (n.txOpen ∧ writesDB msg) then none
  else
    let res := processMessage n.follower now msg
    let n' := n.setFollower res.1
    match msg, res.2 with
    | .record r, .ok _ => some (n'.enqueueWatchRevision r.revision)
    | .initial committed _, .ok _ => some (n'.advanceCommittedRevision committed)
    | .commit committed, .ok _ => some (n'.advanceCommittedRevision committed)
    | _, _ => some n'

/-- `distributeFromDB` for the next revision. -/
def distributeFromDB (n : Node) (readOk prevOk : Bool) : Option Node :=
  match n.ready with
  | [] => none
  | revision :: rest =>
    if n.following then none
    else
      match if readOk then n.server.db.findRecordByRev revision else none with
      | none => some { n with ready := rest }
      | some r =>
        some { n with
          ready := rest
          manager := n.manager.distribute .follower ⟨r, findPrev n.server.db r prevOk⟩ }

/-- A goroutine executes a compaction. -/
def compact (n : Node) (now : Time) (revision : ℤ) : Option Node :=
  if n.txOpen then none
  else some { n with server := { n.server with db := executeCompaction n.server.db now revision } }

end Node

/-! ### The machine -/

inductive Action
  | txn (a : Primary.LeaderTxn.Action)
  | distribute (i : ℕ) (prevOk : Bool)
  | elected
  | dismissed
  | preflight (env : Primary.Preflight.Env)
  | connect
  | message (now : Time) (msg : PrimaryMessage)
  | distributeFromDB (readOk prevOk : Bool)
  | compact (now : Time) (revision : ℤ)
  | watch (a : Hub.Action)

def move (c : Config) (n : Node) : Action → Option Node
  | .txn a => n.txn c a
  | .distribute i prevOk => n.distribute i prevOk
  | .elected => n.elected
  | .dismissed => n.dismissed
  | .preflight env => n.preflight c env
  | .connect => n.connect
  | .message now msg => n.message now msg
  | .distributeFromDB readOk prevOk => n.distributeFromDB readOk prevOk
  | .compact now revision => n.compact now revision
  | .watch a => (Hub.step n.env n.manager a).map fun m => { n with manager := m }

/-- A step of the node, with what it adds to the log. -/
def step (c : Config) (n : Node) (a : Action) : Option Node :=
  (move c n a).map fun n' => { n' with log := n.log ++ n.newlyCommitted n' }

/-- A node that serves no call and no watch. -/
def Node.start (s : Server) (compactions : Compactions) : Node :=
  { server := s, compactions := compactions, inserted := none, returned := [], pending := [],
    ready := [], manager := .new, log := s.db.rows.filter fun r => r.revision ≤ s.committed }

/-! ### Parts of runs -/

/-- A request to watch the keys from `a` up to `d`. -/
def keysRequest (startRevision : ℤ) (progressNotify : Bool) : WatchCreateRequest :=
  { key := [97], rangeEnd := [100], startRevision := startRevision
    progressNotify := progressNotify }

/-- The first watcher of the node is registered and creates a watch, with the ID 1. -/
def watchKeys (startRevision : ℤ) (progressNotify : Bool) : List Action :=
  [.watch .register, .watch (.receive 1 (keysRequest startRevision progressNotify)),
    .watch (.accept 1), .watch (.lookup 1 none), .watch (.add 1), .watch (.ack 1 none)]

/-- That watch, if one record is committed when it is added. -/
def keysWatch (startRevision : ℤ) (progressNotify : Bool) : Subscription where
  id := 1
  entry := Manager.watchData (keysRequest startRevision progressNotify)
  since := 1
  first := 0

/-- A call of `ApplyTxn` that creates a key and commits to object storage, up to `Distribute`. -/
def commitKey (key : UInt8) (now : Time) : List Action :=
  [.txn (.requireActivePrimary (Primary.Gate.createRequest [key] [1])), .txn (.acquire 0),
    .txn (.beginTx now true), .txn (.upload .answered), .txn (.commitSync true),
    .txn .broadcastRecord, .txn .setCommitted, .txn .broadcastCommit]

/-- The only call of `Distribute` sends its event to the watch 1 and returns. -/
def deliver : List Action :=
  [.watch (.enter 0 1), .watch (.offer 0 1), .watch (.leave 0), .watch (.unlock 0),
    .watch (.finish 0)]

end Netsy.Watch.System
