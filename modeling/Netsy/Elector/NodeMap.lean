import Netsy.Lib.Keyed
import Netsy.NodeState
import Netsy.Proto

/-! # The Elector's node map

The registered nodes with the state they last reported. -/

namespace Netsy.Elector.NodeMap

open Proto NodeState Lib.Keyed

structure NodeInfo where
  nodeID : NodeID
  memberID : ℕ
  peerAdvertiseAddr : String
deriving DecidableEq, Repr

/-- `NodeEntry`. `degradedAt := none` is the zero time. -/
structure NodeEntry where
  nodeID : NodeID
  memberID : ℕ
  clientAdvertiseAddress : String
  peerAdvertiseAddress : String
  lastHeartbeat : Time
  degradedAt : Option Time := none
  healthState : HealthState := .loading
  primaryState : PrimaryState := .replica
  latestRevision : ℤ := 0
  startTime : ℤ := 0
deriving DecidableEq, Repr

/-- The nodes of a `NodeMap`. -/
abbrev Nodes := KeyedMap NodeEntry.nodeID

/-- `UpdateHeartbeat`; the time at which the node was degraded stays. -/
def updateHeartbeat (m : Nodes) (nodeID : NodeID) (t : Time) (health : HealthState)
    (primary : PrimaryState) (latestRevision startTime : ℤ) : Nodes :=
  m.modifyKey nodeID
    (fun e =>
      { e with
        lastHeartbeat := t, healthState := health, primaryState := primary,
        latestRevision := latestRevision, startTime := startTime })
    (fun _ => rfl)

/-- `SetHealthState` changes the entry. -/
def NodeEntry.setHealthState (e : NodeEntry) (health : HealthState) (now : Time) : NodeEntry :=
  { e with healthState := health, degradedAt := if health = .degraded then some now else none }

def setHealthState (m : Nodes) (nodeID : NodeID) (health : HealthState) (now : Time) : Nodes :=
  m.modifyKey nodeID (fun e => e.setHealthState health now) (fun _ => rfl)

/-- `checkNodeHealth` degrades the entry: it has missed its heartbeats. -/
def missedHeartbeats (deadline : ℤ) (now : Time) (e : NodeEntry) : Bool :=
  e.healthState ≠ .degraded && deadline ≤ now - e.lastHeartbeat

/-- `checkNodeHealth` removes the entry: it has been Degraded for too long. -/
def degradedTooLong (deregTimeout : ℤ) (now : Time) (e : NodeEntry) : Bool :=
  e.healthState = .degraded && 0 < deregTimeout &&
    e.degradedAt.any fun since => deregTimeout ≤ now - since

/-- The node map after `checkNodeHealth`. -/
def checkNodeHealth (m : Nodes) (deadline deregTimeout : ℤ) (now : Time) : Nodes :=
  (m.filter fun e => !degradedTooLong deregTimeout now e).modify
    (fun e =>
      if missedHeartbeats deadline now e then
        { e with healthState := .degraded, degradedAt := some now }
      else e)
    (fun e => by split_ifs <;> rfl)

theorem get_setHealthState (m : Nodes) (nodeID : NodeID) (health : HealthState) (now : Time)
    (n : NodeID) :
    (setHealthState m nodeID health now).get n =
      if n = nodeID then (m.get nodeID).map (fun e => e.setHealthState health now) else m.get n :=
  KeyedMap.get_modifyKey _ _

theorem get_updateHeartbeat (m : Nodes) (nodeID : NodeID) (t : Time) (health : HealthState)
    (primary : PrimaryState) (latestRevision startTime : ℤ) (n : NodeID) :
    (updateHeartbeat m nodeID t health primary latestRevision startTime).get n =
      if n = nodeID then
        (m.get nodeID).map fun e =>
          { e with
            lastHeartbeat := t, healthState := health, primaryState := primary,
            latestRevision := latestRevision, startTime := startTime }
      else m.get n :=
  KeyedMap.get_modifyKey _ _

/-- What `checkNodeHealth` does to an entry that it keeps. -/
def NodeEntry.check (e : NodeEntry) (deadline : ℤ) (now : Time) : NodeEntry :=
  if missedHeartbeats deadline now e then e.setHealthState .degraded now else e

theorem get_checkNodeHealth (m : Nodes) (deadline deregTimeout : ℤ) (now : Time) (n : NodeID) :
    (checkNodeHealth m deadline deregTimeout now).get n =
      ((m.get n).filter fun e => !degradedTooLong deregTimeout now e).map
        fun e => e.check deadline now := by
  unfold checkNodeHealth
  rw [KeyedMap.get_modify, KeyedMap.get_filter]
  rfl

/-- The nodes that `checkNodeHealth` is to degrade. -/
def toDegraded (m : Nodes) (deadline : ℤ) (now : Time) : List NodeID :=
  (m.entries.filter (missedHeartbeats deadline now)).map NodeEntry.nodeID

/-- The nodes that `checkNodeHealth` is to remove. -/
def toDeregistered (m : Nodes) (deregTimeout : ℤ) (now : Time) : List NodeID :=
  (m.entries.filter (degradedTooLong deregTimeout now)).map NodeEntry.nodeID

theorem get_foldl_setHealthState (l : List NodeID) (m : Nodes) (now : Time) (n : NodeID) :
    (l.foldl (fun m nodeID => setHealthState m nodeID .degraded now) m).get n =
      if n ∈ l then (m.get n).map (fun e => e.setHealthState .degraded now) else m.get n := by
  induction l generalizing m with
  | nil => rfl
  | cons k l ih =>
    rw [List.foldl_cons, ih, get_setHealthState]
    by_cases hk : n = k
    · subst hk
      simp [NodeEntry.setHealthState, Function.comp_def]
    · simp [hk]

theorem get_foldl_remove (l : List NodeID) (m : Nodes) (n : NodeID) :
    (l.foldl KeyedMap.remove m).get n = if n ∈ l then none else m.get n := by
  induction l generalizing m with
  | nil => rfl
  | cons k l ih =>
    rw [List.foldl_cons, ih, KeyedMap.get_remove]
    by_cases hk : n = k <;> simp [hk]

theorem mem_map_filter_iff {m : Nodes} {p : NodeEntry → Bool} {n : NodeID} :
    n ∈ (m.entries.filter p).map NodeEntry.nodeID ↔ (m.get n).any p = true := by
  simp only [List.mem_map, List.mem_filter, Option.any_eq_true, KeyedMap.get_eq_some]
  constructor
  · rintro ⟨e, ⟨he, hp⟩, rfl⟩
    exact ⟨e, ⟨he, rfl⟩, hp⟩
  · rintro ⟨e, ⟨he, rfl⟩, hp⟩
    exact ⟨e, ⟨he, hp⟩, rfl⟩

theorem get_checkNodeHealth_loops (m : Nodes) (deadline deregTimeout : ℤ) (now : Time)
    (n : NodeID) :
    ((toDeregistered m deregTimeout now).foldl KeyedMap.remove
        ((toDegraded m deadline now).foldl
          (fun m nodeID => setHealthState m nodeID .degraded now) m)).get n =
      (checkNodeHealth m deadline deregTimeout now).get n := by
  rw [get_foldl_remove, get_foldl_setHealthState, get_checkNodeHealth]
  simp only [toDegraded, toDeregistered, mem_map_filter_iff]
  cases hn : m.get n with
  | none => simp
  | some e =>
    by_cases hd : degradedTooLong deregTimeout now e = true
    · simp [hd]
    · by_cases hm : missedHeartbeats deadline now e = true <;> simp [hd, hm, NodeEntry.check]

theorem keys_updateHeartbeat (m : Nodes) (nodeID : NodeID) (t : Time) (health : HealthState)
    (primary : PrimaryState) (latestRevision startTime : ℤ) :
    (updateHeartbeat m nodeID t health primary latestRevision startTime).keys = m.keys :=
  KeyedMap.keys_modifyKey _ _

theorem keys_setHealthState (m : Nodes) (nodeID : NodeID) (health : HealthState) (now : Time) :
    (setHealthState m nodeID health now).keys = m.keys :=
  KeyedMap.keys_modifyKey _ _

end Netsy.Elector.NodeMap
