import Netsy.Lib.Run
import Netsy.LocalDB.Insert
import Netsy.Primary.ChunkBuffer
import Netsy.Primary.Follow
import Netsy.Primary.ParseTxn
import Netsy.Primary.WriteRecord

/-! # The Primary as a state machine

One reign of a Primary, from the moment it is Active: the calls of `LeaderTxn` at the gate, the one
that holds it on either commit path, the chunk buffer and its flushes, the recovery goroutines of
failed uploads, `GracefulDrain` and `ResignLeadership`, and the object storage. Each action is one
atomic piece of one goroutine; everything the environment decides (times, failures, the next
goroutine) is in the action. -/

namespace Netsy.Primary.LeaderTxn

open Proto NodeState Datastore Lib.ObjectStore LocalDB.Schema
open LocalDB.Insert Primary.ChunkBuffer Primary.Follow Primary.ParseTxn
open Primary.Quorum Primary.ReplicaTracker Primary.WriteRecord

structure Config where
  nodeID : NodeID
  quorum : ℤ
  /-- The size threshold of the chunk buffer; 0 disables it. -/
  thresholdBytes : ℤ
  /-- `googlepb.Size`. -/
  size : Record → ℤ

/-- A call of `LeaderTxn` that waits at the gate. -/
structure Call where
  request : TxnRequest
  /-- The node has left Active since the call was admitted. -/
  leftActive : Bool
deriving DecidableEq

/-- An open SQLite transaction: the table inside it and the row it inserted. -/
structure Tx where
  table : Table
  record : Record
deriving DecidableEq

/-- Where the call that holds the gate stands. -/
inductive Phase
  | acquired (request : TxnRequest)
  /-- Path 1, `executeObjectStorageTxn`. -/
  | uploading (tx : Tx) (file : ObjectKey × DataFile) (retried : Bool)
  | uploaded (tx : Tx)
  | syncCommitted (record : Record)
  | syncBroadcast (record : Record)
  | syncAdvanced (record : Record)
  /-- Path 2, `executeQuorumTxn`. -/
  | quorumStart (tx : Tx) (required : ℕ)
  | collecting (tx : Tx)
  | awaiting (tx : Tx)
  | quorumCommitted (record : Record)
  | quorumAdvanced (record : Record)
  | quorumNotified (record : Record)
  | bufferFull
  | flushing
  | flushFailed
deriving DecidableEq

/-- The call that holds the gate, with the state of the node when it took it. -/
structure Holder where
  acquiredIn : PrimaryState
  phase : Phase
deriving DecidableEq

/-- The goroutine of `startObjectStorageRecovery`. -/
structure Recovery where
  record : Record
  uploaded : Bool
deriving DecidableEq

/-- Where a call of `GracefulDrain` stands. -/
inductive DrainPhase
  | setDraining | flush | flushing
deriving DecidableEq

structure Server where
  primary : PrimaryState
  committed : ℤ
  db : Table
  nextRevisionID : ℤ
  peers : Peers
  waiting : List Call
  gate : Option Holder
  buffer : Buffer
  flush : Option Flush
  recoveries : List Recovery
  drain : Option DrainPhase
  bucket : ObjectStorage
deriving DecidableEq

/-! ### The gate -/

/-- `SetPrimary`, if the transition is valid. -/
def Server.setPrimary (s : Server) (p : PrimaryState) : Server :=
  let p' := trySetPrimary s.primary p
  { s with
    primary := p'
    waiting :=
      if p' = .active then s.waiting else s.waiting.map fun c => { c with leftActive := true } }

/-- `SetPrimary(Draining)` of an Active Primary. -/
def Server.drainIfActive (s : Server) : Server :=
  if s.primary = .active then s.setPrimary .draining else s

def Server.releaseGate (s : Server) : Server := { s with gate := none }

/-- `executeQuorumTxn` returns. -/
def Server.finishQuorum (s : Server) : Server :=
  { s with gate := none, peers := s.peers.clearReceiptCollector }

/-- `requireActivePrimary` at the start of `LeaderTxn`. -/
def requireActivePrimary (s : Server) (request : TxnRequest) : Option Server :=
  if s.primary = .active then
    some { s with waiting := s.waiting ++ [{ request := request, leftActive := false }] }
  else none

/-- The context of a waiting call ends. -/
def giveUp (s : Server) (i : ℕ) : Option Server :=
  if i < s.waiting.length then some { s with waiting := s.waiting.eraseIdx i } else none

/-- A waiting call takes the gate. The state of the node is not checked again. -/
def acquire (s : Server) (i : ℕ) : Option Server :=
  match s.gate, s.waiting[i]? with
  | none, some call =>
    some { s with
      waiting := s.waiting.eraseIdx i
      gate := some { acquiredIn := s.primary, phase := .acquired call.request } }
  | _, _ => none

/-- The strategy of the next transaction. -/
def strategy (c : Config) (s : Server) : TxnStrategy :=
  selectTxnStrategy c.quorum s.peers.nodeCount (healthyForQuorumCount s.peers.replicas)

/-- The record that `LeaderTxn` inserts. -/
def newRecord (c : Config) (s : Server) (request : TxnRequest) : Except ParseError Record :=
  (parseTxnRequest request).map fun r =>
    { r with leaderId := c.nodeID, revision := s.nextRevisionID }

/-- The path of a transaction whose row is inserted. -/
def pathOf (c : Config) (s : Server) (now : Time) (tx : Tx) : Phase :=
  if (strategy c s).useQuorum then .quorumStart tx (strategy c s).requiredReceipts
  else .uploading tx (marshalChunk now tx.record c.nodeID) false

/-- `LeaderTxn` from the parsed request to the inserted record. Every error, a failed comparison
among them, ends the call without effect. -/
def beginTx (c : Config) (s : Server) (now : Time) (txOk : Bool) : Option Server :=
  match s.gate with
  | some ⟨acquiredIn, .acquired request⟩ =>
    match newRecord c s request with
    | .error _ => some s.releaseGate
    | .ok record =>
      if !txOk then some s.releaseGate
      else
        match insertRecord s.db now record with
        | .error _ => some s.releaseGate
        | .ok (table, row) =>
          some { s with gate := some ⟨acquiredIn, pathOf c s now ⟨table, row⟩⟩ }
  | _ => none

/-! ### Path 1 -/

/-- An attempt of `writeRecord`. After the second failure the transaction is rolled back and
`startObjectStorageRecovery` takes the record. -/
def upload (s : Server) (dv : Delivery) : Option Server :=
  match s.gate with
  | some ⟨acquiredIn, .uploading tx file retried⟩ =>
    let put := attempt s.bucket file retried dv
    let s' : Server := { s with bucket := put.1 }
    match put.2 with
    | .written => some { s' with gate := some ⟨acquiredIn, .uploaded tx⟩ }
    | .retry => some { s' with gate := some ⟨acquiredIn, .uploading tx file true⟩ }
    | .failed _ =>
      let recovery : Recovery := { record := tx.record, uploaded := false }
      some { s' with recoveries := s.recoveries ++ [recovery] }.releaseGate.drainIfActive
  | _ => none

/-- `tx.Commit` and the revision counter. A failed commit is ambiguous and leads to Draining. -/
def commitSync (s : Server) (ok : Bool) : Option Server :=
  match s.gate with
  | some ⟨acquiredIn, .uploaded tx⟩ =>
    if ok then
      some { s with
        db := tx.table
        nextRevisionID := s.nextRevisionID + 1
        gate := some ⟨acquiredIn, .syncCommitted tx.record⟩ }
    else some (s.releaseGate.setPrimary .draining)
  | _ => none

/-! ### Path 2 -/

/-- `setReceiptCollector`. -/
def startCollecting (s : Server) : Option Server :=
  match s.gate with
  | some ⟨acquiredIn, .quorumStart tx required⟩ =>
    some { s with
      peers := { s.peers with
        receiptCollector := some (newReceiptCollector tx.record.revision required) }
      gate := some ⟨acquiredIn, .collecting tx⟩ }
  | _ => none

/-- The collector of the running transaction has its receipts. -/
def quorumMet (s : Server) : Bool := s.peers.receiptCollector.any ReceiptCollector.done

/-- `collector.wait` returns true, then `tx.Commit` and the revision counter. -/
def commitQuorum (s : Server) (ok : Bool) : Option Server :=
  match s.gate with
  | some ⟨acquiredIn, .awaiting tx⟩ =>
    if !quorumMet s then none
    else if ok then
      some { s with
        db := tx.table
        nextRevisionID := s.nextRevisionID + 1
        gate := some ⟨acquiredIn, .quorumCommitted tx.record⟩ }
    else some s.finishQuorum
  | _ => none

/-- `collector.wait` returns false: the transaction is rolled back. The flush it starts is a
`flush .background`. -/
def quorumTimeout (s : Server) : Option Server :=
  match s.gate with
  | some ⟨_, .awaiting _⟩ => some { s with peers := s.peers.degradeTimedOut }.finishQuorum
  | _ => none

/-- The append of `chunkBuffer.bufferRecord`. -/
def bufferRecord (c : Config) (s : Server) : Option Server :=
  match s.gate with
  | some ⟨acquiredIn, .quorumNotified record⟩ =>
    let s' := { s with buffer := s.buffer.append c.size record }
    if s'.buffer.full c.thresholdBytes then some { s' with gate := some ⟨acquiredIn, .bufferFull⟩ }
    else some s'.finishQuorum
  | _ => none

/-- `bufferRecord` after a failed flush. -/
def checkFull (c : Config) (s : Server) : Option Server :=
  match s.gate with
  | some ⟨_, .flushFailed⟩ =>
    if s.buffer.full c.thresholdBytes then some s.finishQuorum.drainIfActive
    else some s.finishQuorum
  | _ => none

/-! ### Both paths -/

/-- `BroadcastRecord`: after the commit on Path 1, before it on Path 2. -/
def broadcastRecord (s : Server) : Option Server :=
  match s.gate with
  | some ⟨acquiredIn, .syncCommitted record⟩ =>
    some { s with
      peers := s.peers.broadcast (.record record)
      gate := some ⟨acquiredIn, .syncBroadcast record⟩ }
  | some ⟨acquiredIn, .collecting tx⟩ =>
    some { s with
      peers := s.peers.broadcast (.record tx.record)
      gate := some ⟨acquiredIn, .awaiting tx⟩ }
  | _ => none

def setCommitted (s : Server) : Option Server :=
  match s.gate with
  | some ⟨acquiredIn, .syncBroadcast record⟩ =>
    some { s with committed := record.revision, gate := some ⟨acquiredIn, .syncAdvanced record⟩ }
  | some ⟨acquiredIn, .quorumCommitted record⟩ =>
    some { s with committed := record.revision, gate := some ⟨acquiredIn, .quorumAdvanced record⟩ }
  | _ => none

/-- `BroadcastCommit`, the last step of Path 1. -/
def broadcastCommit (s : Server) : Option Server :=
  match s.gate with
  | some ⟨_, .syncAdvanced record⟩ =>
    some { s with peers := s.peers.broadcast (.commit record.revision) }.releaseGate
  | some ⟨acquiredIn, .quorumAdvanced record⟩ =>
    some { s with
      peers := s.peers.broadcast (.commit record.revision)
      gate := some ⟨acquiredIn, .quorumNotified record⟩ }
  | _ => none

/-! ### Flushes -/

/-- The owner is where it calls `flush`. The loop and the rollbacks may call it at any time. -/
def flushCalled (s : Server) : FlushOwner → Bool
  | .background => true
  | .txn => s.gate.any fun h => h.phase = .bufferFull
  | .drain => s.drain = some .flush

/-- The owner waits for its flush. -/
def Server.flushWaits (s : Server) : FlushOwner → Server
  | .background => s
  | .txn => { s with gate := s.gate.map fun h => { h with phase := .flushing } }
  | .drain => { s with drain := some .flushing }

/-- The owner goes on with the result of its flush. -/
def Server.flushReturns (s : Server) : FlushOwner → Except PutError Unit → Server
  | .background, _ => s
  | .txn, .ok () => s.finishQuorum
  | .txn, .error _ => { s with gate := s.gate.map fun h => { h with phase := .flushFailed } }
  | .drain, _ => { s with drain := none }

/-- `flush` up to its upload. -/
def flush (c : Config) (s : Server) (owner : FlushOwner) (now : Time) : Option Server :=
  if !flushCalled s owner then none
  else
    match s.buffer.startFlush c.nodeID owner now with
    | none => some (s.flushReturns owner (.ok ()))
    | some (b, f) => some ({ s with buffer := b, flush := some f }.flushWaits owner)

/-- The upload of the flush. -/
def flushPut (s : Server) (dv : Delivery) (getOk : Bool) : Option Server :=
  match s.flush with
  | some f =>
    if f.result.isSome then none
    else
      let put := putIfAbsent s.bucket f.file.1 f.file.2 dv getOk
      some { s with bucket := put.1, flush := some { f with result := some put.2 } }
  | none => none

/-- The flush ends after its upload. -/
def flushEnd (s : Server) : Option Server :=
  match s.flush with
  | some f =>
    f.result.map fun r =>
      { s with buffer := s.buffer.endFlush f r, flush := none }.flushReturns f.owner r
  | none => none

/-! ### Recovery and drain -/

/-- One round of the recovery goroutine. -/
def recoveryPut (c : Config) (s : Server) (i : ℕ) (now : Time) (dv : Delivery) (getOk : Bool) :
    Option Server :=
  match s.recoveries[i]? with
  | some r =>
    if r.uploaded then none
    else
      let put := writeRecordIfMissing s.bucket now r.record c.nodeID dv getOk
      match put.2 with
      | .ok () =>
        some { s with
          bucket := put.1
          recoveries := s.recoveries.set i { r with uploaded := true } }
      | .error _ => some { s with bucket := put.1 }
  | none => none

/-- The recovery goroutine gives up leadership after its upload. It does not look at the buffer. -/
def recoveryResign (s : Server) (i : ℕ) : Option Server :=
  match s.recoveries[i]? with
  | some r =>
    if r.uploaded then
      some { s.setPrimary .replica with recoveries := s.recoveries.eraseIdx i }
    else none
  | none => none

/-- `GracefulDrain` reads the state of the node. -/
def gracefulDrain (s : Server) : Option Server :=
  if s.drain.isSome then none
  else
    match s.primary with
    | .replica => some s
    | .active | .starting => some { s with drain := some .setDraining }
    | .draining => some { s with drain := some .flush }

/-- `GracefulDrain` sets Draining; an invalid transition ends it with an error. -/
def drainSet (s : Server) : Option Server :=
  if s.drain = some .setDraining then
    if validPrimaryTransition s.primary .draining then
      some { s.setPrimary .draining with drain := some .flush }
    else some { s with drain := none }
  else none

def resignLeadership (s : Server) : Option Server :=
  if s.primary = .draining then
    some { s.setPrimary .replica with peers := s.peers.reset }
  else none

/-! ### The machine -/

inductive Action
  | requireActivePrimary (request : TxnRequest)
  | giveUp (i : ℕ)
  | acquire (i : ℕ)
  | beginTx (now : Time) (txOk : Bool)
  | upload (dv : Delivery)
  | commitSync (ok : Bool)
  | startCollecting
  | commitQuorum (ok : Bool)
  | quorumTimeout
  | broadcastRecord
  | setCommitted
  | broadcastCommit
  | bufferRecord
  | checkFull
  | flush (owner : FlushOwner) (now : Time)
  | flushPut (dv : Delivery) (getOk : Bool)
  | flushEnd
  | recoveryPut (i : ℕ) (now : Time) (dv : Delivery) (getOk : Bool)
  | recoveryResign (i : ℕ)
  | gracefulDrain
  | drainSet
  | resignLeadership
  /-- A write that was not answered reaches the store. -/
  | land (i : ℕ)
  | peer (a : PeerAction)

def step (c : Config) (s : Server) : Action → Option Server
  | .requireActivePrimary request => requireActivePrimary s request
  | .giveUp i => giveUp s i
  | .acquire i => acquire s i
  | .beginTx now txOk => beginTx c s now txOk
  | .upload dv => upload s dv
  | .commitSync ok => commitSync s ok
  | .startCollecting => startCollecting s
  | .commitQuorum ok => commitQuorum s ok
  | .quorumTimeout => quorumTimeout s
  | .broadcastRecord => broadcastRecord s
  | .setCommitted => setCommitted s
  | .broadcastCommit => broadcastCommit s
  | .bufferRecord => bufferRecord c s
  | .checkFull => checkFull c s
  | .flush owner now => flush c s owner now
  | .flushPut dv getOk => flushPut s dv getOk
  | .flushEnd => flushEnd s
  | .recoveryPut i now dv getOk => recoveryPut c s i now dv getOk
  | .recoveryResign i => recoveryResign s i
  | .gracefulDrain => gracefulDrain s
  | .drainSet => drainSet s
  | .resignLeadership => resignLeadership s
  | .land i => (s.bucket.land i).map fun b => { s with bucket := b }
  | .peer a => (s.peers.act s.primary a).map fun p => { s with peers := p }

/-- The Primary at the start of its reign: preflight has set the revision counter and made the
committed revision the latest one. -/
def Server.start (db : Table) (bucket : ObjectStorage) (peers : Peers) : Server :=
  { primary := .active, committed := db.latestRevision, db := db,
    nextRevisionID := db.latestRevision + 1, peers := peers, waiting := [], gate := none,
    buffer := .empty, flush := none, recoveries := [], drain := none, bucket := bucket }

end Netsy.Primary.LeaderTxn
