import Netsy.Primary.ReplicatedLog
import Netsy.Replication.ProcessStream
import Mathlib.Logic.Function.Basic

/-! # A Primary and its Replicas

The Primary of one reign, the other nodes and the Follow streams between them. A stream is named by
the position of its session at the Primary. What one side has sent waits on the stream, in order,
until the other side receives it; either side may end the stream at any time, and a node may open a
new one afterwards. -/

namespace Netsy.Replication.Streams

open Proto NodeState Lib.Run Primary.Follow Primary.ReplicaTracker
open Primary.LeaderTxn (Config Server)
open Primary.FlushOwned (Owned owned_start owned_step)
open Primary.ReplicatedLog (Log Ok log offStream log_step ok_start ok_step)
open Replication.ProcessStream (Follower processMessage runCompaction)

/-- A Follow stream. -/
structure Conn where
  /-- The handler `Follow` of the Primary has not returned. -/
  serving : Bool
  initialSent : Bool
  /-- Sent by the Primary and not received. -/
  wire : List PrimaryMessage
  /-- Sent by the Replica and not received. -/
  receipts : List ReplicaMessage
deriving DecidableEq

/-- A position that no stream has. -/
def Conn.unused : Conn := { serving := false, initialSent := false, wire := [], receipts := [] }

def Conn.opened : Conn := { serving := true, initialSent := false, wire := [], receipts := [] }

structure Node where
  follower : Follower
  /-- The stream that `processStream` reads. -/
  stream : Option ℕ
deriving DecidableEq

structure Cluster where
  server : Server
  conns : ℕ → Conn
  nodes : NodeID → Node

namespace Cluster

def setConn (s : Cluster) (i : ℕ) (k : Conn) : Cluster :=
  { s with conns := Function.update s.conns i k }

def setNode (s : Cluster) (n : NodeID) (node : Node) : Cluster :=
  { s with nodes := Function.update s.nodes n node }

def setPeers (s : Cluster) (p : Peers) : Cluster :=
  { s with server := { s.server with peers := p } }

variable {s : Cluster} {i j : ℕ} {k : Conn} {n m : NodeID} {node : Node} {p : Peers}

@[simp] theorem conns_setConn_self : (s.setConn i k).conns i = k := by simp [setConn]

theorem conns_setConn_of_ne (h : j ≠ i) : (s.setConn i k).conns j = s.conns j := by
  simp [setConn, h]

@[simp] theorem nodes_setNode_self : (s.setNode n node).nodes n = node := by
  simp [setNode]

theorem nodes_setNode_of_ne (h : m ≠ n) : (s.setNode n node).nodes m = s.nodes m := by
  simp [setNode, h]

@[simp] theorem nodes_setConn : (s.setConn i k).nodes = s.nodes := rfl

@[simp] theorem server_setConn : (s.setConn i k).server = s.server := rfl

@[simp] theorem conns_setNode : (s.setNode n node).conns = s.conns := rfl

@[simp] theorem server_setNode : (s.setNode n node).server = s.server := rfl

@[simp] theorem conns_setPeers : (s.setPeers p).conns = s.conns := rfl

@[simp] theorem nodes_setPeers : (s.setPeers p).nodes = s.nodes := rfl

@[simp] theorem peers_setPeers : (s.setPeers p).server.peers = p := rfl

end Cluster

/-! ### The Primary's side -/

/-- A step of the Primary that is on no stream. -/
def primary (c : Config) (s : Cluster) (a : Primary.LeaderTxn.Action) : Option Cluster :=
  if offStream a then
    (Primary.LeaderTxn.step c s.server a).map fun server => { s with server := server }
  else none

/-- `connectAndFollow` of a node whose last stream has ended, and `Follow` up to
`addFollowStream`. A node does not follow itself. -/
def connect (c : Config) (s : Cluster) (n : NodeID) (now : Time) : Option Cluster :=
  if n = c.nodeID ∨ (s.nodes n).stream.isSome ∨ !requirePrimary s.server.primary then none
  else
    let i := s.server.peers.sessions.length
    some (((s.setPeers (s.server.peers.addFollowStream n now)).setConn i .opened).setNode n
      { s.nodes n with stream := some i })

/-- `Follow` sends the Initial with the current revisions. -/
def sendInitial (s : Cluster) (i : ℕ) : Option Cluster :=
  let k := s.conns i
  if k.serving && !k.initialSent then
    some (s.setConn i { k with
      initialSent := true
      wire := k.wire ++ [.initial s.server.committed s.server.peers.compaction] })
  else none

/-- One round of `followSendLoop`. -/
def sendLoop (s : Cluster) (i : ℕ) : Option Cluster :=
  let k := s.conns i
  if k.serving && k.initialSent then
    (s.server.peers.takeMessage i).map fun p =>
      (s.setPeers p.2).setConn i { k with wire := k.wire ++ [p.1] }
  else none

/-- The handler `Follow` of the stream returns. -/
def handlerEnds (s : Cluster) (i : ℕ) : Option Cluster :=
  let k := s.conns i
  if k.serving then
    some ((s.setPeers (s.server.peers.removeFollowStream i)).setConn i { k with serving := false })
  else none

/-- One round of `followRecvLoop`; an error ends the handler. -/
def recvLoop (s : Cluster) (i : ℕ) (now : Time) : Option Cluster :=
  let k := s.conns i
  match s.server.peers.sessions[i]?, k.receipts with
  | some session, msg :: rest =>
    if k.serving && k.initialSent then
      match s.server.peers.followRecv session.nodeID now msg with
      | some p => some ((s.setPeers p).setConn i { k with receipts := rest })
      | none => handlerEnds s i
    else none
  | _, _ => none

/-! ### A Replica's side -/

def buildNodeState (n : NodeID) (f : Follower) (health : HealthState) (primary : PrimaryState) :
    Heartbeat :=
  { nodeID := n, health := health, primary := primary, latestRevision := f.db.latestRevision }

/-- One round of `processStream`: a message, and the receipt if there is one. An error, also that
of the second attempt to send the receipt, ends the stream. -/
def processStream (s : Cluster) (n : NodeID) (now : Time) (health : HealthState)
    (primary : PrimaryState) (sendOk : Bool) : Option Cluster :=
  match (s.nodes n).stream with
  | none => none
  | some i =>
    let k := s.conns i
    match k.wire with
    | [] => none
    | msg :: rest =>
      let res := processMessage (s.nodes n).follower now msg
      let received : Conn := { k with wire := rest }
      match res.2 with
      | .ok none => some ((s.setConn i received).setNode n { follower := res.1, stream := some i })
      | .ok (some revision) =>
        if sendOk then
          let receipt : ReplicaMessage :=
            { revision := revision, heartbeat := some (buildNodeState n res.1 health primary) }
          some ((s.setConn i { received with receipts := k.receipts ++ [receipt] }).setNode n
            { follower := res.1, stream := some i })
        else some ((s.setConn i received).setNode n { follower := res.1, stream := none })
      | .error _ => some ((s.setConn i received).setNode n { follower := res.1, stream := none })

/-- The stream ends at the Replica. -/
def disconnect (s : Cluster) (n : NodeID) : Option Cluster :=
  if (s.nodes n).stream.isSome then some (s.setNode n { s.nodes n with stream := none }) else none

/-- The goroutine of a compaction runs at a Replica. -/
def compaction (s : Cluster) (n : NodeID) (now : Time) (j : ℕ) : Cluster :=
  s.setNode n { s.nodes n with follower := runCompaction (s.nodes n).follower now j }

/-! ### The system -/

inductive Action
  | primary (a : Primary.LeaderTxn.Action)
  | connect (n : NodeID) (now : Time)
  | sendInitial (i : ℕ)
  | sendLoop (i : ℕ)
  | recvLoop (i : ℕ) (now : Time)
  | handlerEnds (i : ℕ)
  | processStream (n : NodeID) (now : Time) (health : HealthState) (primary : PrimaryState)
      (sendOk : Bool)
  | disconnect (n : NodeID)
  | compaction (n : NodeID) (now : Time) (j : ℕ)

def step (c : Config) (s : Cluster) : Action → Option Cluster
  | .primary a => primary c s a
  | .connect n now => connect c s n now
  | .sendInitial i => sendInitial s i
  | .sendLoop i => sendLoop s i
  | .recvLoop i now => recvLoop s i now
  | .handlerEnds i => handlerEnds s i
  | .processStream n now health primary sendOk => processStream s n now health primary sendOk
  | .disconnect n => disconnect s n
  | .compaction n now j => some (compaction s n now j)

/-- The start of a reign: no node follows yet. -/
def Cluster.start (server : Server) (followers : NodeID → Follower) : Cluster :=
  { server := server, conns := fun _ => .unused
    nodes := fun n => { follower := followers n, stream := none } }

/-! ### The sessions by position -/

def owner (ss : List Session) (i : ℕ) : Option NodeID := ss[i]?.map Session.nodeID

def channel (ss : List Session) (i : ℕ) : List PrimaryMessage := (ss[i]?.map Session.sendCh).getD []

def isOpen (ss : List Session) (i : ℕ) : Bool := (ss[i]?.map Session.isOpen).getD false

/-- What the stream will still bring to its Replica. -/
def pending (s : Cluster) (i : ℕ) : List PrimaryMessage :=
  (s.conns i).wire ++ channel s.server.peers.sessions i

variable {ss : List Session} {msg : PrimaryMessage} {i j : ℕ} {p p' : Peers} {n m : NodeID}
  {now : Time}

theorem lt_of_owner (h : owner ss i = some n) : i < ss.length := by
  obtain ⟨session, hi, -⟩ := Option.map_eq_some_iff.mp h
  exact (List.getElem?_eq_some_iff.mp hi).1

theorem owner_map {g : Session → Session} (hg : ∀ s, (g s).nodeID = s.nodeID) :
    owner (ss.map g) i = owner ss i := by
  unfold owner
  rw [List.getElem?_map, Option.map_map]
  exact congrArg (fun f => ss[i]?.map f) (funext hg)

@[simp] theorem owner_close : owner (ss.map Session.close) i = owner ss i := owner_map fun _ => rfl

@[simp] theorem channel_close : channel (ss.map Session.close) i = channel ss i := by
  unfold channel
  rw [List.getElem?_map, Option.map_map]
  rfl

@[simp] theorem isOpen_close : isOpen (ss.map Session.close) i = false := by
  unfold isOpen
  rw [List.getElem?_map, Option.map_map]
  cases ss[i]? <;> rfl

theorem nodeID_enqueue (s : Session) (msg : PrimaryMessage) :
    (s.enqueue msg).nodeID = s.nodeID := by
  unfold Session.enqueue
  split_ifs <;> rfl

theorem session_isOpen_enqueue (s : Session) (msg : PrimaryMessage) :
    (s.enqueue msg).isOpen = s.isOpen := by
  unfold Session.enqueue
  split_ifs <;> rfl

@[simp] theorem owner_enqueue : owner (ss.map fun s => s.enqueue msg) i = owner ss i :=
  owner_map fun s => nodeID_enqueue s msg

@[simp] theorem isOpen_enqueue : isOpen (ss.map fun s => s.enqueue msg) i = isOpen ss i := by
  unfold isOpen
  rw [List.getElem?_map, Option.map_map]
  exact congrArg (fun f => (ss[i]?.map f).getD false) (funext fun s => session_isOpen_enqueue s msg)

theorem channel_enqueue : channel (ss.map fun s => s.enqueue msg) i =
    if isOpen ss i ∧ (channel ss i).length < streamBufferSize then channel ss i ++ [msg]
    else channel ss i := by
  unfold channel isOpen
  rw [List.getElem?_map]
  cases ss[i]? with
  | none => rfl
  | some s =>
    simp only [Option.map_some, Option.getD_some, Session.enqueue]
    split_ifs <;> rfl

theorem mem_channel_enqueue {x : PrimaryMessage}
    (h : x ∈ channel (ss.map fun s => s.enqueue msg) i) : x ∈ channel ss i ∨ x = msg := by
  rw [channel_enqueue] at h
  split_ifs at h
  · simpa using h
  · exact Or.inl h

theorem addFollowStream_sessions (p : Peers) (n : NodeID) (now : Time) :
    owner (p.addFollowStream n now).sessions p.sessions.length = some n ∧
      channel (p.addFollowStream n now).sessions p.sessions.length = [] ∧
      ∀ i < p.sessions.length,
        owner (p.addFollowStream n now).sessions i = owner p.sessions i ∧
        channel (p.addFollowStream n now).sessions i = channel p.sessions i ∧
        (isOpen (p.addFollowStream n now).sessions i = true → isOpen p.sessions i = true) := by
  refine ⟨by simp [owner, Peers.addFollowStream], by simp [channel, Peers.addFollowStream],
    fun i hi => ?_⟩
  have he : (p.addFollowStream n now).sessions[i]? =
      p.sessions[i]?.map fun s => if s.nodeID = n then s.close else s := by
    simp [Peers.addFollowStream, List.getElem?_append_left, hi]
  unfold owner channel isOpen
  rw [he, List.getElem?_eq_getElem hi]
  simp only [Option.map_some, Option.getD_some]
  split_ifs
  · exact ⟨rfl, rfl, fun h => (by cases h)⟩
  · exact ⟨rfl, rfl, id⟩

theorem takeMessage_eq_some (h : p.takeMessage i = some (msg, p')) :
    p'.receiptCollector = p.receiptCollector ∧
      channel p.sessions i = msg :: channel p'.sessions i ∧
      (∀ j ≠ i, channel p'.sessions j = channel p.sessions j) ∧
      ∀ j, owner p'.sessions j = owner p.sessions j ∧
        isOpen p'.sessions j = isOpen p.sessions j := by
  unfold Peers.takeMessage at h
  split at h
  · rename_i s hs
    split at h
    · rename_i m rest hm
      cases h
      obtain ⟨hlt, rfl⟩ := List.getElem?_eq_some_iff.mp hs
      refine ⟨rfl, by simp [channel, hm, hlt], fun j hj => ?_, fun j => ?_⟩
      · simp [channel, List.getElem?_set_ne hj.symm]
      · rcases eq_or_ne i j with rfl | hj
        · simp [owner, isOpen, hlt]
        · simp [owner, isOpen, List.getElem?_set_ne hj]
    · cases h
  · cases h

theorem removeFollowStream_sessions (p : Peers) (i j : ℕ) :
    owner (p.removeFollowStream i).sessions j = owner p.sessions j ∧
      channel (p.removeFollowStream i).sessions j = channel p.sessions j ∧
      (isOpen (p.removeFollowStream i).sessions j = true → isOpen p.sessions j = true) := by
  unfold Peers.removeFollowStream
  split
  · rename_i s hs
    simp only [owner, channel, isOpen, List.getElem?_modify]
    split_ifs with hj
    · subst hj
      rw [hs]
      exact ⟨rfl, rfl, fun h => (by cases h)⟩
    · simp
  · exact ⟨rfl, rfl, id⟩

theorem removeFollowStream_collector (p : Peers) (i : ℕ) :
    (p.removeFollowStream i).receiptCollector = p.receiptCollector := by
  unfold Peers.removeFollowStream
  split <;> rfl

theorem followRecv_eq_some {msg : ReplicaMessage} (h : p.followRecv n now msg = some p') :
    p'.sessions = p.sessions ∧ (p'.receiptCollector = p.receiptCollector ∨
      p'.receiptCollector = p.receiptCollector.map fun c =>
        if c.revision = msg.revision then c.collectReceipt n else c) := by
  unfold Peers.followRecv at h
  split at h
  · cases h
    exact ⟨rfl, Or.inl rfl⟩
  · split_ifs at h
    · cases h
      exact ⟨rfl, Or.inr rfl⟩
    · cases h
      exact ⟨rfl, Or.inl rfl⟩

/-! ### What each action does -/

variable {c : Config} {s s' : Cluster} {health : HealthState} {state : PrimaryState} {sendOk : Bool}

theorem primary_eq_some {a : Primary.LeaderTxn.Action} (h : primary c s a = some s') :
    offStream a = true ∧ ∃ server, Primary.LeaderTxn.step c s.server a = some server ∧
      s' = { s with server := server } := by
  unfold primary at h
  split_ifs at h with ha
  obtain ⟨server, hs, rfl⟩ := Option.map_eq_some_iff.mp h
  exact ⟨ha, server, hs, rfl⟩

theorem connect_eq_some (h : connect c s n now = some s') :
    (s.nodes n).stream = none ∧
      s' = ((s.setPeers (s.server.peers.addFollowStream n now)).setConn
        s.server.peers.sessions.length .opened).setNode n
          { s.nodes n with stream := some s.server.peers.sessions.length } := by
  unfold connect at h
  split_ifs at h with hc
  have hst : ¬ (s.nodes n).stream.isSome := fun hh => hc (Or.inr (Or.inl hh))
  exact ⟨by simpa using hst, (Option.some.inj h).symm⟩

theorem sendInitial_eq_some (h : sendInitial s i = some s') :
    (s.conns i).initialSent = false ∧ s' = s.setConn i { s.conns i with
      initialSent := true
      wire := (s.conns i).wire ++ [.initial s.server.committed s.server.peers.compaction] } := by
  unfold sendInitial at h
  dsimp only at h
  split_ifs at h with hk
  simp only [Bool.and_eq_true, Bool.not_eq_true'] at hk
  exact ⟨hk.2, (Option.some.inj h).symm⟩

theorem sendLoop_eq_some (h : sendLoop s i = some s') :
    (s.conns i).initialSent = true ∧ ∃ msg p, s.server.peers.takeMessage i = some (msg, p) ∧
      s' = (s.setPeers p).setConn i { s.conns i with wire := (s.conns i).wire ++ [msg] } := by
  unfold sendLoop at h
  dsimp only at h
  split_ifs at h with hk
  obtain ⟨⟨msg, p⟩, hp, rfl⟩ := Option.map_eq_some_iff.mp h
  exact ⟨(by simpa using hk : _ ∧ _).2, msg, p, hp, rfl⟩

theorem handlerEnds_eq_some (h : handlerEnds s i = some s') :
    s' = (s.setPeers (s.server.peers.removeFollowStream i)).setConn i
      { s.conns i with serving := false } := by
  unfold handlerEnds at h
  dsimp only at h
  split_ifs at h
  exact (Option.some.inj h).symm

theorem recvLoop_eq_some (h : recvLoop s i now = some s') :
    (∃ n msg rest p, owner s.server.peers.sessions i = some n ∧ (s.conns i).serving = true ∧
      (s.conns i).receipts = msg :: rest ∧ s.server.peers.followRecv n now msg = some p ∧
      s' = (s.setPeers p).setConn i { s.conns i with receipts := rest }) ∨
      handlerEnds s i = some s' := by
  unfold recvLoop at h
  dsimp only at h
  split at h
  · rename_i session msg rest hs hr
    split_ifs at h with hk
    simp only [Bool.and_eq_true] at hk
    split at h
    · rename_i p hp
      exact Or.inl ⟨session.nodeID, msg, rest, p, by simp [owner, hs], hk.1, hr, hp,
        (Option.some.inj h).symm⟩
    · exact Or.inr h
  · cases h

theorem processStream_eq_some (h : processStream s n now health state sendOk = some s') :
    ∃ i msg rest stream receipts, (s.nodes n).stream = some i ∧ (s.conns i).wire = msg :: rest ∧
      s' = (s.setConn i { s.conns i with wire := rest, receipts := receipts }).setNode n
        { follower := (processMessage (s.nodes n).follower now msg).1, stream := stream } ∧
      ((stream = none ∧ receipts = (s.conns i).receipts) ∨
        (stream = some i ∧ ∃ receipt,
          (processMessage (s.nodes n).follower now msg).2 = .ok receipt ∧
          ((receipt = none ∧ receipts = (s.conns i).receipts) ∨
            ∃ r hb, receipt = some r ∧
              receipts = (s.conns i).receipts ++ [{ revision := r, heartbeat := hb }]))) := by
  unfold processStream at h
  split at h
  · cases h
  · rename_i i hi
    dsimp only at h
    split at h
    · cases h
    · rename_i msg rest hw
      split at h
      · rename_i hok
        exact ⟨i, msg, rest, some i, _, hi, hw, (Option.some.inj h).symm,
          Or.inr ⟨rfl, none, hok, Or.inl ⟨rfl, rfl⟩⟩⟩
      · rename_i r hok
        split_ifs at h
        · exact ⟨i, msg, rest, some i, _, hi, hw, (Option.some.inj h).symm,
            Or.inr ⟨rfl, some r, hok, Or.inr ⟨r, _, rfl, rfl⟩⟩⟩
        · exact ⟨i, msg, rest, none, _, hi, hw, (Option.some.inj h).symm, Or.inl ⟨rfl, rfl⟩⟩
      · exact ⟨i, msg, rest, none, _, hi, hw, (Option.some.inj h).symm, Or.inl ⟨rfl, rfl⟩⟩

theorem disconnect_eq_some (h : disconnect s n = some s') :
    s' = s.setNode n { s.nodes n with stream := none } := by
  unfold disconnect at h
  split_ifs at h
  exact (Option.some.inj h).symm

theorem pending_sendLoop {p : Peers} (hp : s.server.peers.takeMessage i = some (msg, p)) (j : ℕ) :
    pending ((s.setPeers p).setConn i { s.conns i with wire := (s.conns i).wire ++ [msg] }) j =
      pending s j := by
  obtain ⟨-, hi, hne, -⟩ := takeMessage_eq_some hp
  unfold pending
  rcases eq_or_ne j i with rfl | hj
  · simp [hi]
  · rw [Cluster.conns_setConn_of_ne hj]
    exact congrArg _ (hne j hj)

theorem pending_setConn {p : Peers} {k : Conn} (hw : k.wire = (s.conns i).wire) (j : ℕ)
    (hch : channel p.sessions j = channel s.server.peers.sessions j) :
    pending ((s.setPeers p).setConn i k) j = pending s j := by
  unfold pending
  rcases eq_or_ne j i with rfl | hj
  · rw [Cluster.conns_setConn_self, hw]
    exact congrArg _ hch
  · rw [Cluster.conns_setConn_of_ne hj]
    exact congrArg _ hch

/-- The streams change nothing at the Primary but what it keeps about the other nodes, and leave
how many receipts it waits for. -/
theorem server_of_stream {a : Action} (ha : ∀ b, a ≠ .primary b) (hs : step c s a = some s') :
    ∃ p, s'.server = { s.server with peers := p } ∧
      ∀ k, s.server.peers.receiptCollector = some k →
        ∃ k', p.receiptCollector = some k' ∧ k'.required = k.required := by
  have hends : ∀ i, handlerEnds s i = some s' → ∃ p, s'.server = { s.server with peers := p } ∧
      ∀ k, s.server.peers.receiptCollector = some k →
        ∃ k', p.receiptCollector = some k' ∧ k'.required = k.required := by
    intro i hs
    refine ⟨_, by rw [handlerEnds_eq_some hs]; rfl, fun k hk => ⟨k, ?_, rfl⟩⟩
    rw [removeFollowStream_collector, hk]
  cases a with
  | primary a => exact absurd rfl (ha a)
  | connect n now =>
    obtain ⟨-, rfl⟩ := connect_eq_some hs
    exact ⟨_, rfl, fun k hk => ⟨k, hk, rfl⟩⟩
  | sendInitial i =>
    obtain ⟨-, rfl⟩ := sendInitial_eq_some hs
    exact ⟨_, rfl, fun k hk => ⟨k, hk, rfl⟩⟩
  | sendLoop i =>
    obtain ⟨-, msg, p, hp, rfl⟩ := sendLoop_eq_some hs
    exact ⟨p, rfl, fun k hk => ⟨k, (takeMessage_eq_some hp).1.trans hk, rfl⟩⟩
  | recvLoop i now =>
    rcases recvLoop_eq_some hs with ⟨n, msg, rest, p, -, -, -, hp, rfl⟩ | hs
    · refine ⟨p, rfl, fun k hk => ?_⟩
      rcases (followRecv_eq_some hp).2 with he | he <;> rw [he, hk]
      · exact ⟨k, rfl, rfl⟩
      · refine ⟨_, rfl, ?_⟩
        dsimp only
        split_ifs
        · exact k.required_collectReceipt n
        · rfl
    · exact hends i hs
  | handlerEnds i => exact hends i hs
  | processStream n now health primary sendOk =>
    obtain ⟨_, _, _, _, _, -, -, rfl, -⟩ := processStream_eq_some hs
    exact ⟨_, rfl, fun k hk => ⟨k, hk, rfl⟩⟩
  | disconnect n =>
    rw [disconnect_eq_some hs]
    exact ⟨_, rfl, fun k hk => ⟨k, hk, rfl⟩⟩
  | compaction n now j =>
    cases hs
    exact ⟨_, rfl, fun k hk => ⟨k, hk, rfl⟩⟩

/-- The node that takes the step. -/
def Action.node : Action → Option NodeID
  | .connect n _ | .processStream n _ _ _ _ | .disconnect n | .compaction n _ _ => some n
  | _ => none

theorem nodes_of_ne {a : Action} (ha : a.node ≠ some n) (hs : step c s a = some s') :
    s'.nodes n = s.nodes n := by
  have hne : ∀ {m}, some m ≠ some n → n ≠ m := fun h he => h (congrArg some he.symm)
  cases a with
  | primary a =>
    obtain ⟨-, _, -, rfl⟩ := primary_eq_some hs
    rfl
  | connect m now =>
    obtain ⟨-, rfl⟩ := connect_eq_some hs
    exact Cluster.nodes_setNode_of_ne (hne ha)
  | sendInitial i =>
    obtain ⟨-, rfl⟩ := sendInitial_eq_some hs
    rfl
  | sendLoop i =>
    obtain ⟨-, _, _, -, rfl⟩ := sendLoop_eq_some hs
    rfl
  | recvLoop i now =>
    rcases recvLoop_eq_some hs with ⟨_, _, _, _, -, -, -, -, rfl⟩ | hs
    · rfl
    · rw [handlerEnds_eq_some hs]
      rfl
  | handlerEnds i =>
    rw [handlerEnds_eq_some hs]
    rfl
  | processStream m now health primary sendOk =>
    obtain ⟨_, _, _, _, _, -, -, rfl, -⟩ := processStream_eq_some hs
    exact Cluster.nodes_setNode_of_ne (hne ha)
  | disconnect m =>
    rw [disconnect_eq_some hs]
    exact Cluster.nodes_setNode_of_ne (hne ha)
  | compaction m now j =>
    cases hs
    exact Cluster.nodes_setNode_of_ne (hne ha)

theorem nodes_run_of_ne {as : List Action} (has : ∀ a ∈ as, a.node ≠ some n)
    (hrun : exec (step c) s as = some s') : s'.nodes n = s.nodes n := by
  refine exec_invariant (I := fun t => t.nodes n = s.nodes n) ?_ rfl (meets_of_forall has) hrun
  exact fun _ _ _ hi ha hs => (nodes_of_ne ha hs).trans hi

/-! ### Every stream belongs to one Replica -/

/-- The Primary is in order, a node reads only streams that it opened, and the Initial is the first
message of a stream. -/
structure Linked (s : Cluster) : Prop where
  owned : Owned s.server
  log : Ok (log s.server)
  stream : ∀ n i, (s.nodes n).stream = some i → owner s.server.peers.sessions i = some n
  wire : ∀ i, (s.conns i).initialSent = false → (s.conns i).wire = []

theorem owner_log_step {a : Primary.LeaderTxn.Action} {l l' : Log}
    (h : Primary.ReplicatedLog.Step a l l') : owner l'.sessions i = owner l.sessions i := by
  cases h with
  | close => exact owner_close
  | compact rev => exact owner_enqueue
  | send _ => exact owner_enqueue
  | announce _ => exact owner_enqueue
  | _ => rfl

theorem Linked.setPeers (h : Linked s)
    (hp : ∀ i, owner p.sessions i = owner s.server.peers.sessions i) : Linked (s.setPeers p) :=
  ⟨h.owned.of_eq rfl rfl rfl rfl, ⟨h.log.rows, h.log.stage⟩,
    fun n i hi => (hp i).trans (h.stream n i hi), h.wire⟩

theorem Linked.setConn {k : Conn} (h : Linked s) (hk : k.initialSent = false → k.wire = []) :
    Linked (s.setConn i k) := by
  refine ⟨h.owned, h.log, h.stream, fun j hj => ?_⟩
  rcases eq_or_ne j i with rfl | hne
  · rw [Cluster.conns_setConn_self] at hj ⊢
    exact hk hj
  · rw [Cluster.conns_setConn_of_ne hne] at hj ⊢
    exact h.wire j hj

theorem Linked.setNode {node : Node} (h : Linked s)
    (hst : ∀ i, node.stream = some i → owner s.server.peers.sessions i = some n) :
    Linked (s.setNode n node) := by
  refine ⟨h.owned, h.log, fun m i hi => ?_, h.wire⟩
  rcases eq_or_ne m n with rfl | hm
  · exact hst i (by simpa using hi)
  · exact h.stream m i (by rwa [Cluster.nodes_setNode_of_ne hm] at hi)

theorem Linked.stream_ne (h : Linked s) (hn : (s.nodes n).stream = some i)
    (hm : (s.nodes m).stream = some j) (hne : n ≠ m) : i ≠ j := by
  rintro rfl
  exact hne (Option.some.inj ((h.stream n i hn).symm.trans (h.stream m i hm)))

theorem linked_start {db bucket peers followers} :
    Linked (Cluster.start (Server.start db bucket peers) followers) :=
  ⟨owned_start, ok_start db bucket peers, fun _ _ hi => (by cases hi), fun _ _ => rfl⟩

theorem linked_handlerEnds (h : Linked s) (hs : handlerEnds s i = some s') : Linked s' := by
  rw [handlerEnds_eq_some hs]
  exact (h.setPeers fun j => (removeFollowStream_sessions _ i j).1).setConn (h.wire i)

theorem linked_step {a : Action} (h : Linked s) (hs : step c s a = some s') : Linked s' := by
  cases a with
  | primary a =>
    obtain ⟨ha, server, hstep, rfl⟩ := primary_eq_some hs
    have hlog := log_step h.owned ha hstep
    exact ⟨owned_step h.owned hstep, ok_step h.log hlog,
      fun n i hi => (owner_log_step hlog).trans (h.stream n i hi), h.wire⟩
  | connect n now =>
    obtain ⟨-, rfl⟩ := connect_eq_some hs
    obtain ⟨hnew, -, hold⟩ := addFollowStream_sessions s.server.peers n now
    refine Linked.setNode (Linked.setConn ⟨h.owned.of_eq rfl rfl rfl rfl,
      ⟨h.log.rows, h.log.stage⟩, fun m i hi => ?_, h.wire⟩ fun _ => rfl) fun i hi => ?_
    · have ho := h.stream m i hi
      exact (hold i (lt_of_owner ho)).1.trans ho
    · cases hi
      exact hnew
  | sendInitial i =>
    obtain ⟨-, rfl⟩ := sendInitial_eq_some hs
    exact h.setConn fun hk => (by cases hk)
  | sendLoop i =>
    obtain ⟨hsent, msg, p, hp, rfl⟩ := sendLoop_eq_some hs
    exact (h.setPeers fun j => ((takeMessage_eq_some hp).2.2.2 j).1).setConn
      fun hk => absurd hsent (by simp [show (s.conns i).initialSent = false from hk])
  | recvLoop i now =>
    rcases recvLoop_eq_some hs with ⟨n, msg, rest, p, -, -, -, hp, rfl⟩ | hs
    · exact (h.setPeers fun j => by rw [(followRecv_eq_some hp).1]).setConn (h.wire i)
    · exact linked_handlerEnds h hs
  | handlerEnds i => exact linked_handlerEnds h hs
  | processStream n now health primary sendOk =>
    obtain ⟨i, msg, rest, stream, receipts, hi, hw, rfl, hcases⟩ := processStream_eq_some hs
    refine (h.setConn fun hk => ?_).setNode fun j hj => ?_
    · cases hw.symm.trans (h.wire i hk)
    · rcases hcases with ⟨rfl, -⟩ | ⟨rfl, -⟩
      · cases hj
      · exact h.stream n j (hi.trans hj)
  | disconnect n =>
    rw [disconnect_eq_some hs]
    exact h.setNode fun i hi => (by cases hi)
  | compaction n now j =>
    cases hs
    exact h.setNode fun i hi => h.stream n i hi

end Netsy.Replication.Streams
