import Netsy.Primary.ReplicaTracker

/-! # Follow streams

The Primary's side of the replication streams: a session per stream with a bounded channel, the
tracker of the Replicas and the collector of the running quorum transaction. A message that finds
the channel of a session full is dropped for that session. -/

namespace Netsy.Primary.Follow

open Proto NodeState Primary.Quorum Primary.ReplicaTracker

def streamBufferSize : ℕ := 256

/-- `followSession`. The open sessions are those in `followStreams`; the channel of another one is
closed, and its send loop may still drain it. -/
structure Session where
  nodeID : NodeID
  isOpen : Bool
  sendCh : List PrimaryMessage
deriving DecidableEq

/-- What the Primary keeps about the other nodes. A session is named by its position. -/
structure Peers where
  /-- `ClusterState.NodeCount`. -/
  nodeCount : ℕ
  /-- `state.Compaction`. -/
  compaction : ℤ
  replicas : Replicas
  sessions : List Session
  receiptCollector : Option ReceiptCollector
deriving DecidableEq

/-- `ReplicaMessage`: a receipt, or with revision 0 a heartbeat. -/
structure ReplicaMessage where
  revision : ℤ
  heartbeat : Option Heartbeat
deriving DecidableEq, Repr

/-- One session in the loop of `broadcastToFollowers`. -/
def Session.enqueue (s : Session) (msg : PrimaryMessage) : Session :=
  if s.isOpen ∧ s.sendCh.length < streamBufferSize then { s with sendCh := s.sendCh ++ [msg] }
  else s

def Session.close (s : Session) : Session := { s with isOpen := false }

namespace Peers

/-- `broadcastToFollowers`. -/
def broadcast (p : Peers) (msg : PrimaryMessage) : Peers :=
  { p with sessions := p.sessions.map fun s => s.enqueue msg }

/-- `Follow` registers the node: `Replicas.Add` and `addFollowStream`, which closes an older
session of the node. -/
def addFollowStream (p : Peers) (nodeID : NodeID) (now : Time) : Peers :=
  { p with
    replicas := addReplica p.replicas nodeID now
    sessions := (p.sessions.map fun s => if s.nodeID = nodeID then s.close else s) ++
      [{ nodeID := nodeID, isOpen := true, sendCh := [] }] }

/-- The handler of session `i` ends: `removeFollowStream` and `Replicas.Remove`, which forgets the
node even if it has a newer session. -/
def removeFollowStream (p : Peers) (i : ℕ) : Peers :=
  match p.sessions[i]? with
  | some s =>
    { p with
      replicas := p.replicas.remove s.nodeID
      sessions := p.sessions.modify i Session.close }
  | none => p

/-- `resetFollowStreams` and `Replicas.Reset`. -/
def reset (p : Peers) : Peers :=
  { p with replicas := .empty, sessions := p.sessions.map Session.close }

/-- `followSendLoop` takes a message from the channel of session `i`. -/
def takeMessage (p : Peers) (i : ℕ) : Option (PrimaryMessage × Peers) :=
  match p.sessions[i]? with
  | some s =>
    match s.sendCh with
    | msg :: rest => some (msg, { p with sessions := p.sessions.set i { s with sendCh := rest } })
    | [] => none
  | none => none

def collectReceipt (p : Peers) (nodeID : NodeID) (revision : ℤ) : Peers :=
  { p with
    receiptCollector := p.receiptCollector.map fun c =>
      if c.revision = revision then c.collectReceipt nodeID else c }

/-- One round of `followRecvLoop` for a stream of the node; `none` is the error that ends it. -/
def followRecv (p : Peers) (nodeID : NodeID) (now : Time) (msg : ReplicaMessage) : Option Peers :=
  match msg.heartbeat with
  | none => some p
  | some hb =>
    if hb.nodeID ≠ nodeID then none
    else if 0 < msg.revision then
      some
        ({ p with replicas := updateReceipt p.replicas now hb }.collectReceipt nodeID msg.revision)
    else some { p with replicas := updateHeartbeat p.replicas now hb }

/-- The rollback of a quorum transaction degrades the Replicas that did not receipt. -/
def degradeTimedOut (p : Peers) : Peers :=
  match p.receiptCollector with
  | some c => { p with replicas := degradeUnacked p.replicas c }
  | none => p

def clearReceiptCollector (p : Peers) : Peers := { p with receiptCollector := none }

end Peers

def requirePrimary (s : PrimaryState) : Bool := s ≠ .replica

/-- What the other nodes, and the Primary's loops about them, do. -/
inductive PeerAction
  | follow (nodeID : NodeID) (now : Time)
  | unfollow (i : ℕ)
  | send (i : ℕ)
  | recv (i : ℕ) (now : Time) (msg : ReplicaMessage)
  /-- `SendHeartbeat`. -/
  | heartbeat (now : Time) (hb : Heartbeat)
  | checkDegradation (deadline : ℤ) (now : Time)
  /-- A cluster state arrives. -/
  | clusterState (nodeCount : ℕ)
  /-- `runCompactionProtocol` ends with the consent of all nodes. -/
  | compact (compactionRevision : ℤ)
  /-- `StopServices`, by the callback of a role change. -/
  | stopServices

def Peers.act (p : Peers) (primary : PrimaryState) : PeerAction → Option Peers
  | .follow nodeID now =>
    if requirePrimary primary then some (p.addFollowStream nodeID now) else none
  | .unfollow i => some (p.removeFollowStream i)
  | .send i => (p.takeMessage i).map Prod.snd
  | .recv i now msg => p.sessions[i]?.bind fun s => p.followRecv s.nodeID now msg
  | .heartbeat now hb =>
    if requirePrimary primary then some { p with replicas := updateHeartbeat p.replicas now hb }
    else none
  | .checkDegradation deadline now =>
    some { p with replicas := ReplicaTracker.checkDegradation p.replicas deadline now }
  | .clusterState nodeCount => some { p with nodeCount := nodeCount }
  | .compact rev => some ({ p with compaction := rev }.broadcast (.compact rev))
  | .stopServices => some p.reset

end Netsy.Primary.Follow
