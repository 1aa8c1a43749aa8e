import Netsy.Elector.Membership
import Netsy.Primary.Follow

/-! # Who a peer speaks for

Every call of a peer is authenticated by a certificate that names a node. `Follow` takes the node
from the certificate and compares the heartbeats on the stream with it. The other calls take the
node from their message and do not look at the certificate. -/

namespace Netsy.Node.PeerIdentity

open Proto NodeState Lib.Keyed Lib.Run Elector.NodeMap
open Elector.PrimaryElection (NodeReply)
open Elector.Membership (newEntry)
open Primary.ReplicaTracker (Replica Heartbeat Replicas)
open Primary.Follow (Peers Session ReplicaMessage requirePrimary)

/-! ### The handlers -/

/-- What the calls of the peers read and write of a node that may be the Elector, the Primary or
both. -/
structure Server where
  localNodeID : NodeID
  /-- The node is the Elector. -/
  leader : Bool
  /-- Its node map is loaded. -/
  ready : Bool
  nodes : Nodes
  deregistered : List NodeID
  /-- `ClusterState.Primary`. -/
  primary : Option NodeInfo
  /-- A `HeartbeatForwarder` is set. -/
  forwarder : Bool
  primaryState : PrimaryState
  peers : Peers
deriving DecidableEq

/-- The errors of the handlers. -/
inductive RpcError
  | notElector | incompleteRegistration | bootstrapping | allocateMemberID | nodeIDRequired
  | notRegistered (nodeID : NodeID) | notPrimary | notConnected (nodeID : NodeID)
  | streamIdentity (heartbeat stream : NodeID)
deriving DecidableEq, Repr

/-- The error text; what follows an allocation error is left out. -/
def RpcError.message : RpcError → String
  | .notElector => "this node is not the elector"
  | .incompleteRegistration =>
    "node_id, client_advertise_address, and peer_advertise_address are required"
  | .bootstrapping => "elector is still bootstrapping"
  | .allocateMemberID => "failed to allocate member_id"
  | .nodeIDRequired => "node_id is required"
  | .notRegistered nodeID => s!"node {nodeID} is not registered"
  -- the other states are accepted
  | .notPrimary => "this node is not the primary (state: replica)"
  | .notConnected nodeID => s!"replica {nodeID} is not connected"
  | .streamIdentity heartbeat stream =>
    "heartbeat node_id " ++ heartbeat.quote ++ " does not match stream identity " ++ stream.quote

/-- The Primary is this node. -/
def Server.isPrimary (s : Server) (n : NodeID) : Bool := s.primary.any fun p => p.nodeID = n

/-- `RegisterNode`; `memberID` is what `allocateOrReuseMemberID` returns, `none` for an error. -/
def registerNode (s : Server) (nodeID clientAddr peerAddr : String) (memberID : Option ℕ)
    (now : Time) : Server × Except RpcError ℕ :=
  if !s.leader then (s, .error .notElector)
  else if nodeID = "" ∨ clientAddr = "" ∨ peerAddr = "" then (s, .error .incompleteRegistration)
  else if !s.ready then (s, .error .bootstrapping)
  else
    match memberID with
    | none => (s, .error .allocateMemberID)
    | some id =>
      ({ s with nodes := s.nodes.add (newEntry nodeID id clientAddr peerAddr now) }, .ok id)

def deregisterNode (s : Server) (nodeID : NodeID) : Server × Except RpcError Unit :=
  if !s.leader then (s, .error .notElector)
  else if nodeID = "" then (s, .error .nodeIDRequired)
  else
    ({ s with
        deregistered := nodeID :: s.deregistered
        nodes := s.nodes.remove nodeID
        primary := if s.isPrimary nodeID then none else s.primary }, .ok ())

/-- `SendHeartbeat` of the Primary. -/
def primarySendHeartbeat (s : Server) (hb : Heartbeat) (now : Time) :
    Server × Except RpcError Unit :=
  if !requirePrimary s.primaryState then (s, .error .notPrimary)
  else if hb.nodeID = "" then (s, .error .nodeIDRequired)
  else if (s.peers.replicas.get hb.nodeID).isNone then (s, .error (.notConnected hb.nodeID))
  else
    ({ s with
        peers := { s.peers with
          replicas := Primary.ReplicaTracker.updateHeartbeat s.peers.replicas now hb } }, .ok ())

/-- The heartbeat that is forwarded. -/
def toHeartbeat (nodeID : NodeID) (st : NodeReply) : Heartbeat where
  nodeID := nodeID
  health := st.healthState
  primary := st.primaryState
  latestRevision := st.latestRevision

/-- `SendHeartbeat` of the Elector, which forwards the heartbeat to a Primary in its own process;
an error of that is ignored. -/
def electorSendHeartbeat (s : Server) (nodeID : NodeID) (st : NodeReply) (now forwarded : Time) :
    Server × Except RpcError Unit :=
  if !s.leader then (s, .error .notElector)
  else if nodeID = "" then (s, .error .nodeIDRequired)
  else if (s.nodes.get nodeID).isNone then (s, .error (.notRegistered nodeID))
  else
    let s := { s with
      nodes := updateHeartbeat s.nodes nodeID now st.healthState st.primaryState
        st.latestRevision st.startTime }
    if s.forwarder && nodeID ≠ s.localNodeID then
      ((primarySendHeartbeat s (toHeartbeat nodeID st) forwarded).1, .ok ())
    else (s, .ok ())

/-- `Follow` opens a stream for the node of the certificate. -/
def follow (s : Server) (cert : NodeID) (now : Time) : Server × Except RpcError Unit :=
  if !requirePrimary s.primaryState then (s, .error .notPrimary)
  else ({ s with peers := s.peers.addFollowStream cert now }, .ok ())

/-- `followRecvLoop` gets a message on stream `i`; an error ends the stream. -/
def receive (s : Server) (cert : NodeID) (i : ℕ) (msg : ReplicaMessage) (now : Time) :
    Server × Except RpcError Unit :=
  match s.peers.followRecv cert now msg with
  | some peers => ({ s with peers := peers }, .ok ())
  | none =>
    ({ s with peers := s.peers.removeFollowStream i },
      .error (.streamIdentity ((msg.heartbeat.map Heartbeat.nodeID).getD "") cert))

/-- The calls of a peer. -/
inductive Rpc
  | registerNode (nodeID clientAddr peerAddr : String) (memberID : Option ℕ) (now : Time)
  | deregisterNode (nodeID : NodeID)
  | electorSendHeartbeat (nodeID : NodeID) (st : NodeReply) (now forwarded : Time)
  | primarySendHeartbeat (hb : Heartbeat) (now : Time)
  | follow (now : Time)
  /-- A message on the stream `i` of the peer. -/
  | receive (i : ℕ) (msg : ReplicaMessage) (now : Time)
  /-- The stream `i` of the peer ends. -/
  | endFollow (i : ℕ)

/-- Stream `i` was opened with the certificate. -/
def streamOf (s : Server) (cert : NodeID) (i : ℕ) : Bool :=
  s.peers.sessions[i]?.any fun x => x.nodeID = cert

/-- A call with a certificate. -/
def handle (s : Server) (cert : NodeID) : Rpc → Option Server
  | .registerNode nodeID clientAddr peerAddr memberID now =>
    some (registerNode s nodeID clientAddr peerAddr memberID now).1
  | .deregisterNode nodeID => some (deregisterNode s nodeID).1
  | .electorSendHeartbeat nodeID st now forwarded =>
    some (electorSendHeartbeat s nodeID st now forwarded).1
  | .primarySendHeartbeat hb now => some (primarySendHeartbeat s hb now).1
  | .follow now => some (follow s cert now).1
  | .receive i msg now => if streamOf s cert i then some (receive s cert i msg now).1 else none
  | .endFollow i =>
    if streamOf s cert i then some { s with peers := s.peers.removeFollowStream i } else none

inductive Action
  | call (cert : NodeID) (rpc : Rpc)
  /-- Anything that the node does itself. -/
  | other (s : Server)

def step (s : Server) : Action → Option Server
  | .call cert rpc => handle s cert rpc
  | .other s' => some s'

/-! ### What belongs to a node -/

/-- The receipt of the node is counted. -/
def counted (s : Server) (n : NodeID) : Bool := s.peers.receiptCollector.any fun c => n ∈ c.acked

/-- What is kept of the node is the same: its entry in the node map and in the tracker, its
sessions, and its receipt. -/
structure SameFor (n : NodeID) (s s' : Server) : Prop where
  entry : s'.nodes.get n = s.nodes.get n
  replica : s'.peers.replicas.get n = s.peers.replicas.get n
  sessions : (s'.peers.sessions.filter fun x => x.nodeID = n) =
    s.peers.sessions.filter fun x => x.nodeID = n
  receipt : counted s' n = counted s n

/-- Only what is kept of the node has changed, and the Primary is cleared only if it is the node. -/
structure OnlyFor (cert : NodeID) (s s' : Server) : Prop where
  others : ∀ n, n ≠ cert → SameFor n s s'
  primary : s'.primary = s.primary ∨ (s'.primary = none ∧ s.isPrimary cert = true)

/-- The call changes nothing of a node other than that of the certificate. -/
def Confined (s : Server) : Action → Prop
  | .call cert rpc => ∀ s' ∈ handle s cert rpc, OnlyFor cert s s'
  | .other _ => True

/-! ### The condition -/

/-- The entry has what a heartbeat would set. -/
def Reports (e : NodeEntry) (st : NodeReply) (now : Time) : Prop :=
  e.lastHeartbeat = now ∧ e.healthState = st.healthState ∧ e.primaryState = st.primaryState ∧
    e.latestRevision = st.latestRevision ∧ e.startTime = st.startTime

/-- The Replica has what a heartbeat would set. -/
def ReplicaReports (r : Replica) (hb : Heartbeat) (now : Time) : Prop :=
  r.lastHeartbeat = now ∧ r.health = hb.health ∧ r.primary = hb.primary ∧
    r.latestRevision = hb.latestRevision

/-- The Primary refuses the heartbeat or has what it would set. -/
def HeartbeatIdle (s : Server) (hb : Heartbeat) (now : Time) : Prop :=
  requirePrimary s.primaryState = false ∨ hb.nodeID = "" ∨
    ∀ r ∈ s.peers.replicas.get hb.nodeID, ReplicaReports r hb now

/-- **The calls that speak for their sender only**: the message names the node of the certificate,
or the call is refused or changes nothing. -/
def Own (s : Server) : Action → Prop
  | .call cert (.registerNode nodeID clientAddr peerAddr memberID now) =>
    nodeID = cert ∨ s.leader = false ∨ nodeID = "" ∨ clientAddr = "" ∨ peerAddr = "" ∨
      s.ready = false ∨
      ∀ id ∈ memberID, s.nodes.get nodeID = some (newEntry nodeID id clientAddr peerAddr now)
  | .call cert (.deregisterNode nodeID) =>
    nodeID = cert ∨ s.leader = false ∨ nodeID = "" ∨
      (s.nodes.get nodeID = none ∧ s.isPrimary nodeID = false)
  | .call cert (.electorSendHeartbeat nodeID st now forwarded) =>
    nodeID = cert ∨ s.leader = false ∨ nodeID = "" ∨ s.nodes.get nodeID = none ∨
      ((∀ e ∈ s.nodes.get nodeID, Reports e st now) ∧
        (s.forwarder = false ∨ nodeID = s.localNodeID ∨
          HeartbeatIdle s (toHeartbeat nodeID st) forwarded))
  | .call cert (.primarySendHeartbeat hb now) => hb.nodeID = cert ∨ HeartbeatIdle s hb now
  | .call _ (.follow _) | .call _ (.receive ..) | .call _ (.endFollow _) | .other _ => True

variable {s s' : Server} {n cert nodeID : NodeID} {hb : Heartbeat} {st : NodeReply} {i : ℕ}
  {now forwarded : Time} {p p' : Peers} {rpc : Rpc} {a : Action} {as : List Action}

/-! ### One node -/

theorem SameFor.refl (n : NodeID) (s : Server) : SameFor n s s := ⟨rfl, rfl, rfl, rfl⟩

theorem OnlyFor.refl (cert : NodeID) (s : Server) : OnlyFor cert s s :=
  ⟨fun n _ => SameFor.refl n s, Or.inl rfl⟩

/-- **What was done for one node is done for another** only if it was nothing. -/
theorem OnlyFor.iff (h : OnlyFor nodeID s s') :
    OnlyFor cert s s' ↔ nodeID = cert ∨ (SameFor nodeID s s' ∧ s'.primary = s.primary) := by
  constructor
  · intro hc
    by_cases he : nodeID = cert
    · exact Or.inl he
    · refine Or.inr ⟨hc.others nodeID he, ?_⟩
      rcases h.primary with hp | ⟨hnone, hp⟩
      · exact hp
      rcases hc.primary with hp' | ⟨-, hp'⟩
      · exact hp'
      · -- the Primary cannot be both
        unfold Server.isPrimary at hp hp'
        obtain ⟨info, hinfo, hn⟩ := (Option.any_eq_true _ _).mp hp
        rw [hinfo, Option.any_some, decide_eq_true_eq] at hp'
        exact absurd ((of_decide_eq_true hn).symm.trans hp') he
  · rintro (rfl | ⟨hsame, hp⟩)
    · exact h
    · refine ⟨fun n hn => ?_, Or.inl hp⟩
      by_cases he : n = nodeID
      · rw [he]
        exact hsame
      · exact h.others n he

/-! ### The handlers that trust their message -/

theorem onlyFor_registerNode (nodeID clientAddr peerAddr : String) (memberID : Option ℕ) :
    OnlyFor nodeID s (registerNode s nodeID clientAddr peerAddr memberID now).1 := by
  unfold registerNode
  split_ifs
  · exact OnlyFor.refl nodeID s
  · exact OnlyFor.refl nodeID s
  · exact OnlyFor.refl nodeID s
  · cases memberID with
    | none => exact OnlyFor.refl nodeID s
    | some id =>
      refine ⟨fun n hn => ⟨?_, rfl, rfl, rfl⟩, Or.inl rfl⟩
      exact KeyedMap.get_add.trans (if_neg hn)

theorem registerNode_confined_iff (nodeID clientAddr peerAddr : String) (memberID : Option ℕ) :
    OnlyFor cert s (registerNode s nodeID clientAddr peerAddr memberID now).1 ↔
      Own s (.call cert (.registerNode nodeID clientAddr peerAddr memberID now)) := by
  rw [(onlyFor_registerNode nodeID clientAddr peerAddr memberID).iff]
  unfold Own registerNode
  refine or_congr Iff.rfl ?_
  by_cases hleader : s.leader = false
  · simp [hleader, SameFor.refl]
  by_cases hargs : nodeID = "" ∨ clientAddr = "" ∨ peerAddr = ""
  · rw [if_neg (by simpa using hleader), if_pos hargs]
    exact iff_of_true ⟨SameFor.refl nodeID s, rfl⟩ (by tauto)
  by_cases hready : s.ready = false
  · simp [hleader, hargs, hready, SameFor.refl]
  have hrest : (s.leader = false ∨ nodeID = "" ∨ clientAddr = "" ∨ peerAddr = "" ∨
      s.ready = false ∨ ∀ id ∈ memberID, s.nodes.get nodeID =
        some (newEntry nodeID id clientAddr peerAddr now)) ↔
      ∀ id ∈ memberID, s.nodes.get nodeID =
        some (newEntry nodeID id clientAddr peerAddr now) := by
    tauto
  rw [hrest, if_neg (by simpa using hleader), if_neg hargs, if_neg (by simpa using hready)]
  cases memberID with
  | none => exact iff_of_true ⟨SameFor.refl nodeID s, rfl⟩ nofun
  | some id =>
    have hget : (s.nodes.add (newEntry nodeID id clientAddr peerAddr now)).get nodeID =
        some (newEntry nodeID id clientAddr peerAddr now) :=
      KeyedMap.get_add.trans (if_pos rfl)
    constructor
    · rintro ⟨hsame, -⟩ _ ⟨⟩
      exact hsame.entry.symm.trans hget
    · intro h
      exact ⟨⟨hget.trans (h id rfl).symm, rfl, rfl, rfl⟩, rfl⟩

theorem onlyFor_deregisterNode (nodeID : NodeID) :
    OnlyFor nodeID s (deregisterNode s nodeID).1 := by
  unfold deregisterNode
  split_ifs with hleader hid hprimary
  · exact OnlyFor.refl nodeID s
  · exact OnlyFor.refl nodeID s
  · exact ⟨fun n hn => ⟨KeyedMap.get_remove.trans (if_neg hn), rfl, rfl, rfl⟩,
      Or.inr ⟨rfl, hprimary⟩⟩
  · exact ⟨fun n hn => ⟨KeyedMap.get_remove.trans (if_neg hn), rfl, rfl, rfl⟩, Or.inl rfl⟩

theorem deregisterNode_confined_iff (nodeID : NodeID) :
    OnlyFor cert s (deregisterNode s nodeID).1 ↔ Own s (.call cert (.deregisterNode nodeID)) := by
  rw [(onlyFor_deregisterNode nodeID).iff]
  unfold Own deregisterNode
  refine or_congr Iff.rfl ?_
  by_cases hleader : s.leader = false
  · simp [hleader, SameFor.refl]
  by_cases hid : nodeID = ""
  · simp [hleader, hid, SameFor.refl]
  have hget : (s.nodes.remove nodeID).get nodeID = none := KeyedMap.get_remove.trans (if_pos rfl)
  have hprimary : (if s.isPrimary nodeID = true then none else s.primary) = s.primary ↔
      s.isPrimary nodeID = false := by
    unfold Server.isPrimary
    cases s.primary with
    | none => simp
    | some info => by_cases hn : info.nodeID = nodeID <;> simp [hn]
  rw [if_neg (by simpa using hleader), if_neg hid]
  dsimp only
  rw [hprimary]
  constructor
  · rintro ⟨hsame, hp⟩
    exact Or.inr (Or.inr ⟨hsame.entry.symm.trans hget, hp⟩)
  · rintro (h | h | ⟨hnone, hp⟩)
    · exact absurd h hleader
    · exact absurd h hid
    · exact ⟨⟨hget.trans hnone.symm, rfl, rfl, rfl⟩, hp⟩

theorem SameFor.trans {s'' : Server} (h : SameFor n s s') (h' : SameFor n s' s'') :
    SameFor n s s'' :=
  ⟨h'.entry.trans h.entry, h'.replica.trans h.replica, h'.sessions.trans h.sessions,
    h'.receipt.trans h.receipt⟩

theorem primarySendHeartbeat_eq (s : Server) (hb : Heartbeat) (now : Time) :
    (primarySendHeartbeat s hb now).1 = s ∨ (primarySendHeartbeat s hb now).1 =
      { s with
        peers := { s.peers with
          replicas := Primary.ReplicaTracker.updateHeartbeat s.peers.replicas now hb } } := by
  unfold primarySendHeartbeat
  split_ifs
  · exact Or.inl rfl
  · exact Or.inl rfl
  · exact Or.inl rfl
  · exact Or.inr rfl

theorem get_replicas_updateHeartbeat (m : Replicas) (n : NodeID) :
    (Primary.ReplicaTracker.updateHeartbeat m now hb).get n =
      if n = hb.nodeID then
        (m.get hb.nodeID).map fun r =>
          { r with
            lastHeartbeat := now, health := hb.health, primary := hb.primary,
            latestRevision := hb.latestRevision }
      else m.get n :=
  KeyedMap.get_modifyKey _ _

theorem get_updateReceipt_of_ne (m : Replicas) (hn : n ≠ hb.nodeID) :
    (Primary.ReplicaTracker.updateReceipt m now hb).get n = m.get n :=
  (KeyedMap.get_modifyKey _ _).trans (if_neg hn)

theorem onlyFor_primarySendHeartbeat (hb : Heartbeat) :
    OnlyFor hb.nodeID s (primarySendHeartbeat s hb now).1 := by
  rcases primarySendHeartbeat_eq s hb now with h | h
  · rw [h]
    exact OnlyFor.refl hb.nodeID s
  · rw [h]
    refine ⟨fun n hn => ⟨rfl, ?_, rfl, rfl⟩, Or.inl rfl⟩
    exact (get_replicas_updateHeartbeat s.peers.replicas n).trans (if_neg hn)

theorem replicaReports_iff {r : Replica} :
    ({ r with
      lastHeartbeat := now, health := hb.health, primary := hb.primary,
      latestRevision := hb.latestRevision } : Replica) = r ↔ ReplicaReports r hb now := by
  cases r
  simp only [ReplicaReports, Replica.mk.injEq, true_and]
  constructor
  · rintro ⟨rfl, rfl, rfl, rfl⟩
    exact ⟨rfl, rfl, rfl, rfl⟩
  · rintro ⟨rfl, rfl, rfl, rfl⟩
    exact ⟨rfl, rfl, rfl, rfl⟩

theorem sameFor_primarySendHeartbeat_iff (hb : Heartbeat) :
    SameFor hb.nodeID s (primarySendHeartbeat s hb now).1 ↔ HeartbeatIdle s hb now := by
  unfold HeartbeatIdle primarySendHeartbeat
  by_cases hstate : requirePrimary s.primaryState = false
  · simp [hstate, SameFor.refl]
  by_cases hid : hb.nodeID = ""
  · rw [if_neg (by simpa using hstate), if_pos hid]
    exact iff_of_true (SameFor.refl _ s) (Or.inr (Or.inl hid))
  cases hget : s.peers.replicas.get hb.nodeID with
  | none =>
    rw [if_neg (by simpa using hstate), if_neg hid, if_pos Option.isNone_none]
    exact iff_of_true (SameFor.refl _ s) (Or.inr (Or.inr nofun))
  | some r =>
    rw [if_neg (by simpa using hstate), if_neg hid, if_neg (by simp)]
    have hafter : (Primary.ReplicaTracker.updateHeartbeat s.peers.replicas now hb).get hb.nodeID =
        some { r with
          lastHeartbeat := now, health := hb.health, primary := hb.primary,
          latestRevision := hb.latestRevision } := by
      rw [get_replicas_updateHeartbeat, if_pos rfl, hget]
      rfl
    constructor
    · intro hsame
      have heq := hafter.symm.trans (hsame.replica.trans hget)
      refine Or.inr (Or.inr ?_)
      rintro _ ⟨⟩
      exact replicaReports_iff.mp (Option.some.inj heq)
    · rintro (h | h | h)
      · exact absurd h hstate
      · exact absurd h hid
      · refine ⟨rfl, hafter.trans ?_, rfl, rfl⟩
        rw [replicaReports_iff.mpr (h r rfl), hget]

theorem primary_primarySendHeartbeat (s : Server) (hb : Heartbeat) (now : Time) :
    (primarySendHeartbeat s hb now).1.primary = s.primary := by
  rcases primarySendHeartbeat_eq s hb now with h | h
  · rw [h]
  · rw [h]

theorem primarySendHeartbeat_confined_iff (hb : Heartbeat) :
    OnlyFor cert s (primarySendHeartbeat s hb now).1 ↔
      Own s (.call cert (.primarySendHeartbeat hb now)) := by
  rw [(onlyFor_primarySendHeartbeat hb).iff, sameFor_primarySendHeartbeat_iff]
  exact or_congr Iff.rfl (and_iff_left (primary_primarySendHeartbeat s hb now))

/-! ### The heartbeat of the Elector -/

/-- What the Elector keeps of a heartbeat. -/
def beat (s : Server) (nodeID : NodeID) (st : NodeReply) (now : Time) : Server :=
  { s with
    nodes := updateHeartbeat s.nodes nodeID now st.healthState st.primaryState st.latestRevision
      st.startTime }

theorem reports_iff {e : NodeEntry} :
    ({ e with
      lastHeartbeat := now, healthState := st.healthState, primaryState := st.primaryState,
      latestRevision := st.latestRevision, startTime := st.startTime } : NodeEntry) = e ↔
      Reports e st now := by
  cases e
  simp only [Reports, NodeEntry.mk.injEq, true_and]
  constructor
  · rintro ⟨rfl, rfl, rfl, rfl, rfl⟩
    exact ⟨rfl, rfl, rfl, rfl, rfl⟩
  · rintro ⟨rfl, rfl, rfl, rfl, rfl⟩
    exact ⟨rfl, rfl, rfl, rfl, rfl⟩

theorem sameFor_beat_iff : SameFor nodeID s (beat s nodeID st now) ↔
    ∀ e ∈ s.nodes.get nodeID, Reports e st now := by
  have hafter := get_updateHeartbeat s.nodes nodeID now st.healthState st.primaryState
    st.latestRevision st.startTime nodeID
  rw [if_pos rfl] at hafter
  have hiff : SameFor nodeID s (beat s nodeID st now) ↔
      (beat s nodeID st now).nodes.get nodeID = s.nodes.get nodeID :=
    ⟨fun h => h.entry, fun h => ⟨h, rfl, rfl, rfl⟩⟩
  rw [hiff]
  unfold beat
  rw [hafter]
  cases s.nodes.get nodeID with
  | none => exact iff_of_true rfl nofun
  | some e =>
    rw [Option.map_some, Option.some.injEq, reports_iff]
    simp

theorem onlyFor_beat (nodeID : NodeID) : OnlyFor nodeID s (beat s nodeID st now) := by
  refine ⟨fun n hn => ⟨?_, rfl, rfl, rfl⟩, Or.inl rfl⟩
  exact (get_updateHeartbeat ..).trans (if_neg hn)

theorem sameFor_forwarded_iff :
    SameFor n s (primarySendHeartbeat (beat s nodeID st now) hb forwarded).1 ↔
      SameFor n s (beat s nodeID st now) ∧
        SameFor n (beat s nodeID st now)
          (primarySendHeartbeat (beat s nodeID st now) hb forwarded).1 := by
  constructor
  · intro h
    rcases primarySendHeartbeat_eq (beat s nodeID st now) hb forwarded with he | he
    · rw [he] at h ⊢
      exact ⟨h, SameFor.refl n _⟩
    · rw [he] at h ⊢
      exact ⟨⟨h.entry, rfl, rfl, rfl⟩, ⟨rfl, h.replica, rfl, rfl⟩⟩
  · rintro ⟨h, h'⟩
    exact h.trans h'

theorem onlyFor_forwarded (s : Server) (nodeID : NodeID) (st : NodeReply)
    (now forwarded : Time) :
    OnlyFor nodeID s
      (primarySendHeartbeat (beat s nodeID st now) (toHeartbeat nodeID st) forwarded).1 := by
  have hbeat : OnlyFor nodeID s (beat s nodeID st now) := onlyFor_beat nodeID
  have hforward : OnlyFor nodeID (beat s nodeID st now)
      (primarySendHeartbeat (beat s nodeID st now) (toHeartbeat nodeID st) forwarded).1 :=
    onlyFor_primarySendHeartbeat (toHeartbeat nodeID st)
  refine ⟨fun n hn => (hbeat.others n hn).trans (hforward.others n hn), Or.inl ?_⟩
  exact primary_primarySendHeartbeat (beat s nodeID st now) _ forwarded

theorem electorSendHeartbeat_confined_iff (nodeID : NodeID) (st : NodeReply) :
    OnlyFor cert s (electorSendHeartbeat s nodeID st now forwarded).1 ↔
      Own s (.call cert (.electorSendHeartbeat nodeID st now forwarded)) := by
  unfold Own
  by_cases hleader : s.leader = false
  · simp [electorSendHeartbeat, hleader, OnlyFor.refl]
  by_cases hid : nodeID = ""
  · simp [electorSendHeartbeat, hleader, hid, OnlyFor.refl]
  by_cases hnone : s.nodes.get nodeID = none
  · simp [electorSendHeartbeat, hleader, hid, hnone, OnlyFor.refl]
  simp only [hleader, hid, hnone, Bool.true_eq_false, false_or]
  by_cases hforward : s.forwarder = true ∧ nodeID ≠ s.localNodeID
  · have heq : (electorSendHeartbeat s nodeID st now forwarded).1 =
        (primarySendHeartbeat (beat s nodeID st now) (toHeartbeat nodeID st) forwarded).1 := by
      simp [electorSendHeartbeat, hleader, hid, hnone, hforward, beat]
    have honly := onlyFor_forwarded s nodeID st now forwarded
    -- the Primary's part reads nothing that the Elector's part writes
    have hidle : HeartbeatIdle (beat s nodeID st now) (toHeartbeat nodeID st) forwarded ↔
        (s.forwarder = false ∨ nodeID = s.localNodeID ∨
          HeartbeatIdle s (toHeartbeat nodeID st) forwarded) := by
      simp only [hforward.1, hforward.2, Bool.true_eq_false, false_or]
      exact Iff.rfl
    have hprimary : (primarySendHeartbeat (beat s nodeID st now) (toHeartbeat nodeID st)
        forwarded).1.primary = s.primary := primary_primarySendHeartbeat ..
    rw [heq, honly.iff, sameFor_forwarded_iff, sameFor_beat_iff, and_iff_left hprimary, ← hidle]
    exact or_congr Iff.rfl
      (and_congr Iff.rfl (sameFor_primarySendHeartbeat_iff (toHeartbeat nodeID st)))
  · have heq : (electorSendHeartbeat s nodeID st now forwarded).1 = beat s nodeID st now := by
      simp [electorSendHeartbeat, hleader, hid, hnone, hforward, beat]
    have hlocal : s.forwarder = false ∨ nodeID = s.localNodeID ∨
        HeartbeatIdle s (toHeartbeat nodeID st) forwarded := by
      rw [not_and_or, Bool.not_eq_true, not_not] at hforward
      exact hforward.imp_right Or.inl
    have hprimary : (beat s nodeID st now).primary = s.primary := rfl
    rw [heq, (onlyFor_beat nodeID).iff, sameFor_beat_iff, and_iff_left hlocal,
      and_iff_left hprimary]

/-! ### The stream of the certificate -/

theorem filter_close_sessions (ss : List Session) (hn : n ≠ cert) :
    (ss.map fun x => if x.nodeID = cert then x.close else x).filter (fun x => x.nodeID = n) =
      ss.filter fun x => x.nodeID = n := by
  induction ss with
  | nil => rfl
  | cons x ss ih =>
    by_cases hx : x.nodeID = cert
    · simp [hx, Session.close, hn.symm, ← ih]
    · simp [hx, List.filter_cons, ← ih]

theorem filter_close_session (ss : List Session) {x : Session} (hi : ss[i]? = some x)
    (hn : n ≠ x.nodeID) :
    (ss.modify i Session.close).filter (fun x => x.nodeID = n) =
      ss.filter fun x => x.nodeID = n := by
  induction ss generalizing i with
  | nil => cases hi
  | cons y ss ih =>
    cases i with
    | zero =>
      obtain rfl : y = x := by simpa using hi
      simp [Session.close, hn.symm]
    | succ i =>
      have htail := ih (i := i) (by simpa using hi)
      simp [List.filter_cons, htail]

theorem onlyFor_follow (s : Server) (cert : NodeID) (now : Time) :
    OnlyFor cert s (follow s cert now).1 := by
  unfold follow
  split_ifs
  · exact OnlyFor.refl cert s
  · refine ⟨fun n hn => ⟨rfl, KeyedMap.get_add.trans (if_neg hn), ?_, rfl⟩, Or.inl rfl⟩
    have hnew : ([{ nodeID := cert, isOpen := true, sendCh := [] }] : List Session).filter
        (fun x => x.nodeID = n) = [] := by
      simp [hn.symm]
    change List.filter _ (_ ++ _) = _
    rw [List.filter_append, hnew, List.append_nil, filter_close_sessions _ hn]

theorem exists_of_streamOf (h : streamOf s cert i = true) :
    ∃ x, s.peers.sessions[i]? = some x ∧ x.nodeID = cert := by
  obtain ⟨x, hx, hid⟩ := (Option.any_eq_true _ _).mp h
  exact ⟨x, hx, of_decide_eq_true hid⟩

theorem onlyFor_endFollow (h : streamOf s cert i = true) :
    OnlyFor cert s { s with peers := s.peers.removeFollowStream i } := by
  obtain ⟨x, hx, rfl⟩ := exists_of_streamOf h
  simp only [Peers.removeFollowStream, hx]
  refine ⟨fun n hn => ⟨rfl, KeyedMap.get_remove.trans (if_neg hn), ?_, rfl⟩, Or.inl rfl⟩
  exact filter_close_session _ hx hn

theorem mem_acked_collectReceipt {c : Primary.Quorum.ReceiptCollector} (hn : n ≠ cert) :
    n ∈ (c.collectReceipt cert).acked ↔ n ∈ c.acked := by
  unfold Primary.Quorum.ReceiptCollector.collectReceipt
  split_ifs
  · exact Iff.rfl
  · exact Finset.mem_insert.trans (or_iff_right hn)

theorem counted_collectReceipt (p : Peers) (revision : ℤ) (hn : n ≠ cert) :
    ((p.collectReceipt cert revision).receiptCollector.any fun c => n ∈ c.acked) =
      p.receiptCollector.any fun c => n ∈ c.acked := by
  unfold Peers.collectReceipt
  cases p.receiptCollector with
  | none => rfl
  | some c =>
    simp only [Option.map_some, Option.any_some]
    split_ifs
    · exact decide_eq_decide.mpr (mem_acked_collectReceipt hn)
    · rfl

theorem onlyFor_receive (msg : ReplicaMessage) (h : streamOf s cert i = true) :
    OnlyFor cert s (receive s cert i msg now).1 := by
  unfold receive Peers.followRecv
  cases hmsg : msg.heartbeat with
  | none => exact OnlyFor.refl cert s
  | some hb =>
    by_cases hid : hb.nodeID = cert
    · subst hid
      simp only [ne_eq, not_true_eq_false, if_false]
      by_cases hrev : 0 < msg.revision
      · rw [if_pos hrev]
        refine ⟨fun n hn => ⟨rfl, ?_, rfl, ?_⟩, Or.inl rfl⟩
        · exact get_updateReceipt_of_ne s.peers.replicas hn
        · exact counted_collectReceipt _ msg.revision hn
      · rw [if_neg hrev]
        refine ⟨fun n hn => ⟨rfl, ?_, rfl, rfl⟩, Or.inl rfl⟩
        exact (get_replicas_updateHeartbeat s.peers.replicas n).trans (if_neg hn)
    · simp only [ne_eq, hid, not_false_eq_true, if_true]
      exact onlyFor_endFollow h

/-! ### Every call, every run -/

theorem confined_iff (s : Server) (a : Action) : Confined s a ↔ Own s a := by
  cases a with
  | other => exact Iff.rfl
  | call cert rpc =>
    have hsome : ∀ t : Server, (∀ s' ∈ some t, OnlyFor cert s s') ↔ OnlyFor cert s t := by
      intro t
      simp only [Option.mem_some_iff, forall_eq']
    cases rpc with
    | registerNode nodeID clientAddr peerAddr memberID now =>
      exact (hsome _).trans (registerNode_confined_iff nodeID clientAddr peerAddr memberID)
    | deregisterNode nodeID => exact (hsome _).trans (deregisterNode_confined_iff nodeID)
    | electorSendHeartbeat nodeID st now forwarded =>
      exact (hsome _).trans (electorSendHeartbeat_confined_iff nodeID st)
    | primarySendHeartbeat hb now =>
      exact (hsome _).trans (primarySendHeartbeat_confined_iff hb)
    | follow now => exact iff_of_true ((hsome _).mpr (onlyFor_follow s cert now)) trivial
    | receive i msg now =>
      refine iff_of_true (fun s' hs' => ?_) trivial
      obtain ⟨hstream, ⟨⟩⟩ := Option.ite_none_right_eq_some.mp hs'
      exact onlyFor_receive msg hstream
    | endFollow i =>
      refine iff_of_true (fun s' hs' => ?_) trivial
      obtain ⟨hstream, ⟨⟩⟩ := Option.ite_none_right_eq_some.mp hs'
      exact onlyFor_endFollow hstream

/-- **A peer speaks for itself**: in a run of calls, every call changes only what is kept of the
node of its certificate exactly if every call names that node, is refused or changes nothing. -/
theorem speaksForItself_iff (s : Server) (as : List Action) :
    Meets step Confined s as ↔ Meets step Own s as :=
  meets_congr confined_iff

/-! ### A peer that names another node -/

/-- An Elector that has loaded its map, before the nodes register. -/
def emptyElector : Server where
  localNodeID := "e"
  leader := true
  ready := true
  nodes := .empty
  deregistered := []
  primary := some ⟨"b", 2, "b:2381"⟩
  forwarder := false
  primaryState := .replica
  peers := ⟨3, 0, .empty, [], none⟩

/-- A Primary without Replicas. -/
def emptyPrimary : Server :=
  { emptyElector with
    localNodeID := "p", leader := false, primary := some ⟨"p", 1, "p:2381"⟩,
    primaryState := .active }

/-- **Not only for itself.** Node `b` registers, and node `a` deregisters it: its entry is gone and
the Primary is cleared. Node `b` follows the Primary, and node `a` reports it as degraded. -/
theorem deregisters_and_degrades_other :
    (¬ Meets step Confined emptyElector
      [.call "b" (.registerNode "b" "b:2379" "b:2381" (some 2) 1),
        .call "a" (.deregisterNode "b")]) ∧
    (∃ s, exec step emptyElector
        [.call "b" (.registerNode "b" "b:2379" "b:2381" (some 2) 1),
          .call "a" (.deregisterNode "b")] = some s ∧
      s.nodes.get "b" = none ∧ s.primary = none) ∧
    (¬ Meets step Confined emptyPrimary
      [.call "b" (.follow 1),
        .call "a" (.primarySendHeartbeat ⟨"b", .degraded, .replica, 0⟩ 2)]) ∧
    (∃ s, exec step emptyPrimary
        [.call "b" (.follow 1),
          .call "a" (.primarySendHeartbeat ⟨"b", .degraded, .replica, 0⟩ 2)] = some s ∧
      (s.peers.replicas.get "b").map Replica.health = some .degraded) := by
  refine ⟨fun h => ?_, ?_, fun h => ?_, ?_⟩
  · have hcall := ((h.2 _ rfl).1 _ rfl).others "b" (by decide)
    exact absurd hcall.entry (by decide +kernel)
  · exact exists_exec_of_any step _ _ _ (by decide +kernel)
  · have hcall := ((h.2 _ rfl).1 _ rfl).others "b" (by decide)
    exact absurd hcall.replica (by decide +kernel)
  · exact exists_exec_of_any step _ _ _ (by decide +kernel)

end Netsy.Node.PeerIdentity
