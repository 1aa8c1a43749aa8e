import Netsy.Elector.PrimaryElection
import Netsy.Lib.Run

/-! # Quorum commits and elections while the members change

The Primary counts receipts against the `NodeCount` of the last cluster state it received, an
election counts contacts against the Elector's node map. The node map changes with every
registration and deregistration, the Primary's count only when a cluster state is pushed to it. -/

namespace Netsy.Elector.Membership

open Proto Elector.NodeMap Elector.PrimaryElection Lib.Keyed Lib.Quorum Lib.Run
open Primary.Quorum (requiredReceipts majority_requiredReceipts)

/-- A quorum-committed record that is not in object storage, with the nodes that hold it. -/
structure Pending where
  revision : ℤ
  holders : Finset NodeID
deriving DecidableEq

structure Cluster where
  nodeMap : Nodes
  /-- The Elector has loaded its node map. -/
  ready : Bool
  primary : NodeID
  /-- `ClusterState.NodeCount` as the Primary last received it. -/
  nodeCount : ℕ
  pending : List Pending
deriving DecidableEq

inductive Action
  | registerNode (nodeID : NodeID) (memberID : ℕ) (clientAddr peerAddr : String) (now : Time)
  | deregisterNode (nodeID : NodeID)
  | sendHeartbeat (nodeID : NodeID) (now : Time) (state : NodeReply)
  | checkNodeHealth (deadline deregTimeout : ℤ) (now : Time)
  /-- `pushClusterState` reaches the Primary. -/
  | pushClusterState
  /-- `executeQuorumTxn` commits with these receipts. -/
  | quorumCommit (revision : ℤ) (receipts : Finset NodeID)
  /-- The `i`-th pending record reaches object storage. -/
  | stored (i : ℕ)
  /-- An election succeeds; the winner acts as Primary. -/
  | elect (e : Server) (polls : List Poll) (reply : NodeID → Option NodeReply)

/-- The entry that `RegisterNode` adds. -/
def newEntry (nodeID : NodeID) (memberID : ℕ) (clientAddr peerAddr : String) (now : Time) :
    NodeEntry :=
  { nodeID := nodeID, memberID := memberID, clientAdvertiseAddress := clientAddr,
    peerAdvertiseAddress := peerAddr, lastHeartbeat := now }

def step (s : Cluster) : Action → Option Cluster
  | .registerNode nodeID memberID clientAddr peerAddr now =>
    if nodeID = "" ∨ clientAddr = "" ∨ peerAddr = "" ∨ !s.ready then none
    else
      some { s with nodeMap := s.nodeMap.add (newEntry nodeID memberID clientAddr peerAddr now) }
  | .deregisterNode nodeID =>
    if nodeID = "" then none else some { s with nodeMap := s.nodeMap.remove nodeID }
  | .sendHeartbeat nodeID now st =>
    some { s with
      nodeMap := updateHeartbeat s.nodeMap nodeID now st.healthState st.primaryState
        st.latestRevision st.startTime }
  | .checkNodeHealth deadline deregTimeout now =>
    if s.ready then some { s with nodeMap := checkNodeHealth s.nodeMap deadline deregTimeout now }
    else none
  | .pushClusterState => some { s with nodeCount := s.nodeMap.count }
  | .quorumCommit revision receipts =>
    let required := requiredReceipts (-1) s.nodeCount
    if 0 < required ∧ required ≤ receipts.card ∧ s.primary ∉ receipts then
      some { s with
        pending := { revision := revision, holders := insert s.primary receipts } :: s.pending }
    else none
  | .stored i => some { s with pending := s.pending.eraseIdx i }
  | .elect e polls reply =>
    if e.nodeMap = s.nodeMap ∧ e.quorum = -1 then
      match electPrimaryOnce e polls reply with
      | .ok info => some { s with primary := info.nodeID }
      | .error _ => none
    else none

/-- No holder of the record leaves, or the members that stay hold it with enough receipts for their
number. -/
def MayLeave (m : Nodes) (out : Finset NodeID) (p : Pending) : Prop :=
  Disjoint out p.holders ∨
    requiredReceipts (-1) (m.keys \ out).card < (p.holders ∩ (m.keys \ out)).card

instance (m : Nodes) (out : Finset NodeID) (p : Pending) : Decidable (MayLeave m out p) :=
  inferInstanceAs (Decidable (_ ∨ _))

/-- **The steps that keep the records electable.** A commit is counted against the current number
of members and made by members. While a record is pending, a node joins only if the members that
hold it meet the number of receipts that one node more requires, and its holders stay. -/
def Counted (s : Cluster) : Action → Prop
  | .registerNode nodeID _ _ _ _ =>
    nodeID ∈ s.nodeMap.keys ∨ ∀ p ∈ s.pending,
      requiredReceipts (-1) (s.nodeMap.count + 1) < (p.holders ∩ s.nodeMap.keys).card
  | .deregisterNode nodeID => ∀ p ∈ s.pending, MayLeave s.nodeMap {nodeID} p
  | .checkNodeHealth _ deregTimeout now =>
    ∀ p ∈ s.pending, MayLeave s.nodeMap (toDeregistered s.nodeMap deregTimeout now).toFinset p
  | .quorumCommit _ receipts =>
    s.nodeCount = s.nodeMap.count ∧ insert s.primary receipts ⊆ s.nodeMap.keys
  | _ => True

instance (s : Cluster) : (a : Action) → Decidable (Counted s a)
  | .registerNode .. => inferInstanceAs (Decidable (_ ∨ ∀ p ∈ s.pending, _))
  | .deregisterNode _ => inferInstanceAs (Decidable (∀ p ∈ s.pending, MayLeave ..))
  | .checkNodeHealth .. => inferInstanceAs (Decidable (∀ p ∈ s.pending, MayLeave ..))
  | .quorumCommit .. => inferInstanceAs (Decidable (_ ∧ _))
  | .sendHeartbeat .. | .pushClusterState | .stored _ | .elect .. => .isTrue trivial

variable {s s' : Cluster} {a : Action} {as : List Action} {m m' : Nodes} {out : Finset NodeID}
  {p : Pending}

/-! ### Enough holders -/

/-- The members that hold the record are its Primary and as many as their number requires. -/
def Backed (m : Nodes) (p : Pending) : Prop :=
  requiredReceipts (-1) m.keys.card < (p.holders ∩ m.keys).card

theorem requiredReceipts_mono {n n' : ℕ} (h : n ≤ n') :
    requiredReceipts (-1) n ≤ requiredReceipts (-1) n' := by
  have heq : ∀ k, requiredReceipts (-1) k = if k ≤ 1 then 0 else k / 2 := fun _ => rfl
  rw [heq, heq]
  split_ifs <;> omega

theorem Backed.covers (h : Backed m p) : Covers m.keys (m.count / 2 + 1) p.holders := by
  have hmajority := majority_requiredReceipts m.count
  unfold Backed at h
  unfold Covers
  rw [KeyedMap.card_keys] at h ⊢
  omega

theorem Backed.of_keys (h : Backed m p) (hkeys : m'.keys = m.keys) : Backed m' p := by
  unfold Backed
  rw [hkeys]
  exact h

theorem Backed.add {e : NodeEntry}
    (h : requiredReceipts (-1) (m.count + 1) < (p.holders ∩ m.keys).card) : Backed (m.add e) p := by
  have hcard : (m.add e).keys.card ≤ m.count + 1 := by
    have hle : (m.remove e.nodeID).entries.length ≤ m.entries.length := List.length_filter_le _ _
    rw [KeyedMap.card_keys]
    exact Nat.succ_le_succ hle
  have hkept : (p.holders ∩ m.keys).card ≤ (p.holders ∩ (m.add e).keys).card :=
    Finset.card_le_card
      (Finset.inter_subset_inter_left fun n hn => KeyedMap.mem_keys_add.mpr (Or.inr hn))
  exact (requiredReceipts_mono hcard).trans_lt (h.trans_le hkept)

/-- Nodes leave: without a holder among them, the record was backed before and fewer receipts are
required now. -/
theorem Backed.leave (h : Backed m p) (hleave : MayLeave m out p)
    (hkeys : m'.keys = m.keys \ out) : Backed m' p := by
  unfold Backed
  rw [hkeys]
  rcases hleave with hdisjoint | henough
  · have hsame : p.holders ∩ (m.keys \ out) = p.holders ∩ m.keys := by
      rw [← Finset.inter_sdiff_assoc, Finset.sdiff_eq_self_iff_disjoint]
      exact (hdisjoint.mono_right Finset.inter_subset_left).symm
    rw [hsame]
    exact (requiredReceipts_mono (Finset.card_le_card Finset.sdiff_subset)).trans_lt h
  · exact henough

/-! ### Runs -/

/-- Every pending record is backed. -/
def AllBacked (s : Cluster) : Prop := ∀ p ∈ s.pending, Backed s.nodeMap p

theorem keys_add_of_mem {e : NodeEntry} (h : e.nodeID ∈ m.keys) : (m.add e).keys = m.keys := by
  ext n
  rw [KeyedMap.mem_keys_add]
  exact ⟨fun hn => hn.elim (fun he => he ▸ h) id, Or.inr⟩

theorem keys_remove (nodeID : NodeID) : (m.remove nodeID).keys = m.keys \ {nodeID} := by
  ext n
  rw [KeyedMap.mem_keys_remove, Finset.mem_sdiff, Finset.mem_singleton]

theorem keys_checkNodeHealth (deadline deregTimeout : ℤ) (now : Time) :
    (checkNodeHealth m deadline deregTimeout now).keys =
      m.keys \ (toDeregistered m deregTimeout now).toFinset := by
  ext n
  rw [Finset.mem_sdiff, List.mem_toFinset, toDeregistered, mem_map_filter_iff,
    ← not_iff_not, ← KeyedMap.get_eq_none, get_checkNodeHealth, not_and, ← not_imp_not, not_not,
    ← KeyedMap.get_eq_none]
  cases m.get n with
  | none => simp
  | some e => simp

theorem allBacked_step (hs : AllBacked s) (hok : Counted s a) (h : step s a = some s') :
    AllBacked s' := by
  cases a with
  | registerNode nodeID memberID clientAddr peerAddr now =>
    simp only [step] at h
    split_ifs at h
    cases h
    intro p hp
    rcases hok with hmem | henough
    · exact (hs p hp).of_keys (keys_add_of_mem hmem)
    · exact Backed.add (henough p hp)
  | deregisterNode nodeID =>
    simp only [step] at h
    split_ifs at h
    cases h
    exact fun p hp => (hs p hp).leave (hok p hp) (keys_remove nodeID)
  | sendHeartbeat nodeID now st =>
    cases h
    exact fun p hp => (hs p hp).of_keys (keys_updateHeartbeat ..)
  | checkNodeHealth deadline deregTimeout now =>
    simp only [step] at h
    split_ifs at h
    cases h
    exact fun p hp => (hs p hp).leave (hok p hp) (keys_checkNodeHealth deadline deregTimeout now)
  | pushClusterState =>
    cases h
    exact hs
  | quorumCommit revision receipts =>
    obtain ⟨hcount, hsub⟩ := hok
    simp only [step] at h
    split_ifs at h with hc
    cases h
    intro p hp
    rcases List.mem_cons.mp hp with rfl | hp
    · -- the Primary and its receipts are members, and they were counted against all of them
      unfold Backed
      rw [Finset.inter_eq_left.mpr hsub, Finset.card_insert_of_notMem hc.2.2, KeyedMap.card_keys,
        ← hcount]
      exact Nat.lt_succ_of_le hc.2.1
    · exact hs p hp
  | stored i =>
    cases h
    exact fun p hp => hs p (List.mem_of_mem_eraseIdx hp)
  | elect e polls reply =>
    simp only [step] at h
    split_ifs at h
    split at h
    · cases h
      exact hs
    · cases h

/-- **Every set of nodes an election accepts includes a holder of every pending record**, in every
state of a run whose steps are all counted. -/
theorem election_contacts_holder (h0 : s.pending = []) (hok : Meets step Counted s as)
    (hrun : exec step s as = some s') :
    ∀ p ∈ s'.pending, ∀ (e : Server) (reply : NodeID → Option NodeReply) (cs : List Candidate),
      e.nodeMap = s'.nodeMap → e.quorum = -1 → collectNodeStates e reply = .ok cs →
        ∃ c ∈ cs, c.info.nodeID ∈ p.holders ∧ c.info.nodeID ∈ s'.nodeMap.keys := by
  have hinv : AllBacked s' := exec_invariant (I := AllBacked) (fun _ _ _ => allBacked_step)
    (fun p hp => by simp [h0] at hp) hok hrun
  intro p hp e reply cs hmap hq hcs
  obtain ⟨hids, -, hmajority⟩ := collectNodeStates_ok (by omega) hcs
  rw [hmap] at hids hmajority
  obtain ⟨n, hn, hh⟩ := covers_iff.mp (hinv p hp).covers (contactedIDs cs) hids (hmajority hq)
  obtain ⟨c, hc, rfl⟩ := List.mem_map.mp (List.mem_toFinset.mp hn)
  exact ⟨c, hc, Finset.mem_inter.mp hh⟩

/-- A cluster whose members are the given nodes. -/
def clusterOf (nodes : List NodeID) (h : nodes.Nodup) (primary : NodeID) : Cluster :=
  { nodeMap :=
      { entries := nodes.map fun n => newEntry n 1 n n 0,
        nodup := by rw [List.map_map]; exact h.map fun _ _ h => h },
    ready := true, primary := primary, nodeCount := nodes.length, pending := [] }

/-- An Elector on `"c"` with this node map. -/
def electorOn (m : Nodes) : Server :=
  { localNodeID := "c", localStartTime := 3, localHealth := .healthy, localPrimary := .replica,
    localRevision := some 4, quorum := -1, nodeMap := m, previousPrimary := none }

/-- The nodes that answer, all Healthy at revision 4. -/
def answering (nodes : List NodeID) : NodeID → Option NodeReply := fun n =>
  if n ∈ nodes then
    some { healthState := .healthy, primaryState := .replica, latestRevision := 4, startTime := 1 }
  else none

/-- Two nodes join, the count is pushed, the commit needs two receipts, and a node that does not
hold the record leaves. -/
def countedJoins : List Action :=
  [.registerNode "d" 1 "d" "d" 10, .registerNode "e" 1 "e" "e" 11, .pushClusterState,
    .quorumCommit 5 {"b", "d"}, .deregisterNode "e"]

/-- The cluster after these steps. -/
def joined : Cluster :=
  (exec step (clusterOf ["a", "b", "c"] (by decide) "a") countedJoins).getD
    (clusterOf [] (by decide) "a")

theorem election_contacts_holder_joined :
    joined.pending = [{ revision := 5, holders := {"a", "b", "d"} }] ∧
      ∃ cs, collectNodeStates (electorOn joined.nodeMap) (answering ["b", "d"]) = .ok cs ∧
        ∃ c ∈ cs, c.info.nodeID ∈ ({"a", "b", "d"} : Finset NodeID) ∧
          c.info.nodeID ∈ joined.nodeMap.keys := by
  have hok : Meets step Counted (clusterOf ["a", "b", "c"] (by decide) "a") countedJoins := by
    decide
  have hrun : exec step (clusterOf ["a", "b", "c"] (by decide) "a") countedJoins = some joined :=
    rfl
  refine ⟨by decide, _, rfl, ?_⟩
  exact election_contacts_holder rfl hok hrun { revision := 5, holders := {"a", "b", "d"} }
    (by decide) (electorOn joined.nodeMap) (answering ["b", "d"]) _ rfl rfl rfl

/-- **A commit counted against a stale number of members.** Three nodes join a cluster of two; the
Primary is not told and commits with one receipt; an election that contacts the three new nodes
is accepted and meets no holder. -/
theorem election_misses_holders_of_stale_count :
    ∃ s', exec step (clusterOf ["a", "b"] (by decide) "a")
        [.registerNode "c" 1 "c" "c" 10, .registerNode "d" 1 "d" "d" 11,
          .registerNode "e" 1 "e" "e" 12, .quorumCommit 5 {"b"}] = some s' ∧
      s'.pending = [{ revision := 5, holders := {"a", "b"} }] ∧
      ({"a", "b"} : Finset NodeID) ⊆ s'.nodeMap.keys ∧
      ∃ cs, collectNodeStates (electorOn s'.nodeMap) (answering ["d", "e"]) = .ok cs ∧
        ∀ c ∈ cs, c.info.nodeID ∉ ({"a", "b"} : Finset NodeID) :=
  ⟨_, rfl, by decide, by decide, _, rfl, by decide⟩

end Netsy.Elector.Membership
