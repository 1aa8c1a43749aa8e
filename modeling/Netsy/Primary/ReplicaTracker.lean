import Netsy.Lib.Keyed
import Netsy.Primary.Quorum

/-! # The Primary's view of its Replicas

The health that the connected Replicas report with their heartbeats and receipts. -/

namespace Netsy.Primary.ReplicaTracker

open Proto NodeState Lib.Keyed Primary.Quorum

structure Replica where
  nodeID : NodeID
  lastHeartbeat : Time
  lastReceipt : Time := 0
  receiptCount : ℕ := 0
  health : HealthState := .loading
  primary : PrimaryState := .replica
  latestRevision : ℤ := 0
deriving DecidableEq, Repr

abbrev Replicas := KeyedMap Replica.nodeID

/-- The state that a node reports of itself. -/
structure Heartbeat where
  nodeID : NodeID
  health : HealthState
  primary : PrimaryState
  latestRevision : ℤ
deriving DecidableEq, Repr

/-- `Replicas.Add`. -/
def addReplica (m : Replicas) (nodeID : NodeID) (now : Time) : Replicas :=
  m.add { nodeID := nodeID, lastHeartbeat := now }

/-- The Replica counts toward a quorum. -/
def healthyForQuorum (r : Replica) : Bool := r.health = .healthy && r.receiptCount ≠ 0

def healthyForQuorumCount (m : Replicas) : ℕ := (m.entries.filter healthyForQuorum).length

/-- `UpdateHeartbeat`; a node that is not in the map is ignored. -/
def updateHeartbeat (m : Replicas) (now : Time) (hb : Heartbeat) : Replicas :=
  m.modifyKey hb.nodeID
    (fun r =>
      { r with
        lastHeartbeat := now, health := hb.health, primary := hb.primary,
        latestRevision := hb.latestRevision })
    (fun _ => rfl)

def updateReceipt (m : Replicas) (now : Time) (hb : Heartbeat) : Replicas :=
  m.modifyKey hb.nodeID
    (fun r =>
      { r with
        lastHeartbeat := now, health := hb.health, primary := hb.primary,
        latestRevision := hb.latestRevision, lastReceipt := now,
        receiptCount := r.receiptCount + 1 })
    (fun _ => rfl)

theorem keys_updateHeartbeat (m : Replicas) (now : Time) (hb : Heartbeat) :
    (updateHeartbeat m now hb).keys = m.keys :=
  KeyedMap.keys_modifyKey _ _

theorem keys_updateReceipt (m : Replicas) (now : Time) (hb : Heartbeat) :
    (updateReceipt m now hb).keys = m.keys :=
  KeyedMap.keys_modifyKey _ _

def checkDegradation (m : Replicas) (deadline : ℤ) (now : Time) : Replicas :=
  m.modify
    (fun r =>
      if r.health ≠ .degraded ∧ deadline ≤ now - r.lastHeartbeat then { r with health := .degraded }
      else r)
    (fun r => by split_ifs <;> rfl)

theorem keys_checkDegradation (m : Replicas) (deadline : ℤ) (now : Time) :
    (checkDegradation m deadline now).keys = m.keys :=
  KeyedMap.keys_modify _ _

/-- `unackedQuorumNodeIDs` names the Replica. -/
def unacked (c : ReceiptCollector) (r : Replica) : Bool := r.nodeID ∉ c.acked && healthyForQuorum r

/-- Degrades the Replicas that `unackedQuorumNodeIDs` names. -/
def degradeUnacked (m : Replicas) (c : ReceiptCollector) : Replicas :=
  m.modify (fun r => if unacked c r then { r with health := .degraded } else r)
    (fun r => by split_ifs <;> rfl)

end Netsy.Primary.ReplicaTracker
