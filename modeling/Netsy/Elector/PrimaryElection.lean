import Netsy.Elector.NodeMap
import Netsy.Lib.Quorum
import Netsy.Primary.Quorum
import Mathlib.Data.List.Sort

/-! # Electing a Primary

`electPrimaryOnce`: wait for the previous Primary, collect the states of the registered nodes by the
rules of the quorum setting, keep a single Active Primary, and otherwise take the Healthy node with
the highest revision. -/

namespace Netsy.Elector.PrimaryElection

open Proto NodeState Elector.NodeMap Lib.Keyed Lib.Quorum
open Primary.Quorum (requiredReceipts majority_requiredReceipts)

/-- The reply of a node to `GetNodeState`. -/
structure NodeReply where
  healthState : HealthState
  primaryState : PrimaryState
  latestRevision : ℤ
  startTime : ℤ
deriving DecidableEq, Repr

/-- `electionCandidate`. -/
structure Candidate where
  info : NodeInfo
  healthState : HealthState
  primaryState : PrimaryState
  latestRevision : ℤ
  startTime : ℤ
deriving DecidableEq, Repr

inductive ElectionError
  | cancelled
  | previousPrimaryActive (nodeID : NodeID)
  | localNode (state : PrimaryState)
  | noRegisteredNodes
  | staticQuorum (total contacted : ℕ)
  | majorityQuorum (majority total contacted : ℕ)
  | nonReplica (nodeID : NodeID) (state : PrimaryState)
  | noHealthyCandidates
deriving DecidableEq, Repr

/-- What an election reads of the Elector and of the node it runs on. -/
structure Server where
  localNodeID : NodeID
  localStartTime : ℤ
  localHealth : HealthState
  localPrimary : PrimaryState
  /-- `localDB.LatestRevision`, if it can be read. -/
  localRevision : Option ℤ
  quorum : ℤ
  nodeMap : Nodes
  previousPrimary : Option NodeInfo
deriving DecidableEq

/-! ### The previous Primary -/

/-- One round of the loop of `checkPreviousPrimary`. -/
inductive Poll
  | unreachable | replied (state : PrimaryState) | cancelled
deriving DecidableEq, Repr

/-- The loop of `checkPreviousPrimary`, over the rounds before the deadline. -/
def pollPreviousPrimary (nodeID : NodeID) : List Poll → Except ElectionError Unit
  | [] => .ok ()
  | .unreachable :: polls => pollPreviousPrimary nodeID polls
  | .replied .replica :: _ => .ok ()
  | .replied .active :: _ => .error (.previousPrimaryActive nodeID)
  | .replied .draining :: polls => pollPreviousPrimary nodeID polls
  | .replied .starting :: polls => pollPreviousPrimary nodeID polls
  | .cancelled :: _ => .error .cancelled

def checkLocalPreviousPrimary (e : Server) : Except ElectionError Unit :=
  if e.localPrimary = .replica then .ok () else .error (.localNode e.localPrimary)

/-- `checkPreviousPrimary`. Every success also clears the stored previous Primary. -/
def checkPreviousPrimary (e : Server) (polls : List Poll) : Except ElectionError Unit :=
  match e.previousPrimary with
  | none => .ok ()
  | some prev =>
    if prev.nodeID = e.localNodeID then checkLocalPreviousPrimary e
    else pollPreviousPrimary prev.nodeID polls

/-! ### The states of the nodes -/

def entryInfo (entry : NodeEntry) : NodeInfo :=
  { nodeID := entry.nodeID, memberID := entry.memberID,
    peerAdvertiseAddr := entry.peerAdvertiseAddress }

/-- One element of `candidatesFromNodeMap`. -/
def nodeMapCandidate (entry : NodeEntry) : Candidate :=
  { info := entryInfo entry, healthState := entry.healthState, primaryState := entry.primaryState,
    latestRevision := entry.latestRevision, startTime := entry.startTime }

def localCandidate (e : Server) (entry : NodeEntry) : Candidate :=
  { info := entryInfo entry, healthState := e.localHealth, primaryState := e.localPrimary,
    latestRevision := e.localRevision.getD entry.latestRevision, startTime := e.localStartTime }

def remoteCandidate (entry : NodeEntry) (reply : NodeReply) : Candidate :=
  { info := entryInfo entry, healthState := reply.healthState, primaryState := reply.primaryState,
    latestRevision := reply.latestRevision, startTime := reply.startTime }

/-- The candidate of an entry, if its node answers. -/
def contact (e : Server) (reply : NodeID → Option NodeReply) (entry : NodeEntry) :
    Option Candidate :=
  if entry.nodeID = e.localNodeID then some (localCandidate e entry)
  else (reply entry.nodeID).map (remoteCandidate entry)

def collectNodeStates (e : Server) (reply : NodeID → Option NodeReply) :
    Except ElectionError (List Candidate) :=
  let entries := e.nodeMap.entries
  let candidates := entries.filterMap (contact e reply)
  let total := entries.length
  let contacted := candidates.length
  if entries = [] then .error .noRegisteredNodes
  else if e.quorum = 0 then .ok (entries.map nodeMapCandidate)
  else if 0 < e.quorum ∧ contacted < total then .error (.staticQuorum total contacted)
  else if e.quorum = -1 ∧ contacted < total / 2 + 1 then
    .error (.majorityQuorum (total / 2 + 1) total contacted)
  else .ok candidates

/-! ### The winner -/

def findActivePrimary (candidates : List Candidate) : Option NodeInfo :=
  match candidates.filter fun c => c.primaryState = .active with
  | [c] => some c.info
  | _ => none

def checkNonReplicaStates (candidates : List Candidate) : Except ElectionError Unit :=
  match candidates.find? fun c => c.healthState ≠ .degraded && c.primaryState ≠ .replica with
  | some c => .error (.nonReplica c.info.nodeID c.primaryState)
  | none => .ok ()

def filterHealthy (candidates : List Candidate) : List Candidate :=
  candidates.filter fun c => c.healthState = .healthy

/-- `a` is not behind `b`: the higher revision first, then the later start. -/
def NotBehind (a b : Candidate) : Prop :=
  b.latestRevision < a.latestRevision ∨
    (a.latestRevision = b.latestRevision ∧ b.startTime ≤ a.startTime)

instance : DecidableRel NotBehind := fun _ _ => inferInstanceAs (Decidable (_ ∨ _))

instance : Std.Total NotBehind := ⟨fun a b => by unfold NotBehind; omega⟩

instance : IsTrans Candidate NotBehind := ⟨fun a b c => by unfold NotBehind; omega⟩

/-- What the language leaves open: the order in which Go iterates over the node map, and the result
of `sort.Slice`, which may leave elements that tie in any order. -/
structure Choices where
  listed : List Candidate → List Candidate
  sorted : List Candidate → List Candidate
  perm_listed : ∀ cs, (listed cs).Perm cs
  perm_sorted : ∀ cs, (sorted cs).Perm cs
  pairwise_sorted : ∀ cs, (sorted cs).Pairwise NotBehind

/-- `electPrimaryOnce` from the call of `findActivePrimary` on. -/
def selectPrimary (sorted : List Candidate → List Candidate) (states : List Candidate) :
    Except ElectionError NodeInfo :=
  match findActivePrimary states with
  | some elected => pure elected
  | none => do
    checkNonReplicaStates states
    match sorted (filterHealthy states) with
    | [] => throw .noHealthyCandidates
    | winner :: _ => pure winner.info

/-- `electPrimaryOnce` with the choices of the language, and with the state of the Elector at the
check of the previous Primary and at the collection of the states. -/
def electPrimary (g : Choices) (e e' : Server) (polls : List Poll)
    (reply : NodeID → Option NodeReply) : Except ElectionError NodeInfo := do
  checkPreviousPrimary e polls
  let states ← collectNodeStates e' reply
  selectPrimary g.sorted (g.listed states)

/-- The candidates in the order of the entries, and a stable sort. -/
def stable : Choices where
  listed := id
  sorted := List.insertionSort NotBehind
  perm_listed := fun _ => List.Perm.refl _
  perm_sorted := fun cs => List.perm_insertionSort NotBehind cs
  pairwise_sorted := fun cs => List.pairwise_insertionSort NotBehind cs

/-- `electPrimaryOnce` in which the Elector's state stays and ties are left in the order of the
entries. -/
def electPrimaryOnce (e : Server) (polls : List Poll) (reply : NodeID → Option NodeReply) :
    Except ElectionError NodeInfo :=
  electPrimary stable e e polls reply

variable {e e' : Server} {polls : List Poll} {reply : NodeID → Option NodeReply} {g : Choices}
  {cs : List Candidate} {c : Candidate} {info : NodeInfo} {holders : Finset NodeID} {r : ℤ}

theorem electPrimary_eq (hprev : checkPreviousPrimary e polls = .ok ())
    (hcs : collectNodeStates e' reply = .ok cs) :
    electPrimary g e e' polls reply = selectPrimary g.sorted (g.listed cs) := by
  unfold electPrimary
  rw [hprev, hcs]
  rfl

theorem electPrimary_eq_ok :
    electPrimary g e e' polls reply = .ok info ↔
      checkPreviousPrimary e polls = .ok () ∧ ∃ cs, collectNodeStates e' reply = .ok cs ∧
        selectPrimary g.sorted (g.listed cs) = .ok info := by
  cases hprev : checkPreviousPrimary e polls with
  | error err => simp [electPrimary, hprev, bind, Except.bind]
  | ok u =>
    cases hcs : collectNodeStates e' reply with
    | error err => simp [electPrimary, hprev, hcs, bind, Except.bind]
    | ok cs => simp [electPrimary_eq hprev hcs]

/-! ### The contacted nodes -/

/-- The nodes that answered. -/
def contactedIDs (cs : List Candidate) : Finset NodeID := (cs.map fun c => c.info.nodeID).toFinset

theorem nodeID_of_contact {entry : NodeEntry} (h : contact e reply entry = some c) :
    c.info.nodeID = entry.nodeID := by
  unfold contact at h
  split_ifs at h
  · cases h
    rfl
  · obtain ⟨x, -, rfl⟩ := Option.map_eq_some_iff.mp h
    rfl

theorem nodup_contacted :
    ((e.nodeMap.entries.filterMap (contact e reply)).map fun c => c.info.nodeID).Nodup := by
  have hsub : ∀ entries : List NodeEntry,
      ((entries.filterMap (contact e reply)).map fun c => c.info.nodeID).Sublist
        (entries.map NodeEntry.nodeID) := by
    intro entries
    induction entries with
    | nil => exact List.Sublist.slnil
    | cons x xs ih =>
      cases hc : contact e reply x with
      | none => simpa [List.filterMap_cons, hc] using ih.cons _
      | some c =>
        simpa [List.filterMap_cons, hc, nodeID_of_contact hc] using ih
  exact e.nodeMap.nodup.sublist (hsub _)

theorem contactedIDs_subset (h : cs = e.nodeMap.entries.filterMap (contact e reply)) :
    contactedIDs cs ⊆ e.nodeMap.keys := by
  intro n hn
  obtain ⟨c, hc, rfl⟩ := List.mem_map.mp (List.mem_toFinset.mp hn)
  rw [h] at hc
  obtain ⟨entry, hentry, hce⟩ := List.mem_filterMap.mp hc
  exact KeyedMap.mem_keys.mpr ⟨entry, hentry, (nodeID_of_contact hce).symm⟩

theorem card_contactedIDs (h : cs = e.nodeMap.entries.filterMap (contact e reply)) :
    (contactedIDs cs).card = cs.length := by
  rw [h, contactedIDs, List.toFinset_card_of_nodup nodup_contacted, List.length_map]

theorem collectNodeStates_ok (hq : e.quorum ≠ 0) (h : collectNodeStates e reply = .ok cs) :
    contactedIDs cs ⊆ e.nodeMap.keys ∧
      (0 < e.quorum → e.nodeMap.count ≤ (contactedIDs cs).card) ∧
      (e.quorum = -1 → e.nodeMap.count / 2 + 1 ≤ (contactedIDs cs).card) := by
  unfold collectNodeStates at h
  dsimp only at h
  split_ifs at h with h1 h2 h3
  have hcs := (Except.ok.inj h).symm
  rw [card_contactedIDs hcs, hcs]
  refine ⟨contactedIDs_subset rfl, fun hp => ?_, fun hm => ?_⟩
  · exact not_lt.mp fun hlt => h2 ⟨hp, hlt⟩
  · exact not_lt.mp fun hlt => h3 ⟨hm, hlt⟩

/-! ### The selected candidate -/

theorem electPrimaryOnce_selects (hcs : collectNodeStates e reply = .ok cs)
    (hactive : findActivePrimary cs = none) (h : electPrimaryOnce e polls reply = .ok info) :
    ∃ w ∈ cs, w.info = info ∧ w.healthState = .healthy ∧
      ∀ c ∈ cs, c.healthState = .healthy → c.latestRevision ≤ w.latestRevision := by
  obtain ⟨-, cs', hcs', hselect⟩ := electPrimary_eq_ok.mp h
  obtain rfl : cs = cs' := Except.ok.inj (hcs.symm.trans hcs')
  unfold selectPrimary at hselect
  simp only [stable, id, hactive] at hselect
  cases hn : checkNonReplicaStates cs with
  | error err => simp [hn, bind, Except.bind] at hselect
  | ok v =>
    cases hs : (filterHealthy cs).insertionSort NotBehind with
    | nil =>
      simp [hn, hs, bind, Except.bind, throw, throwThe, MonadExceptOf.throw] at hselect
    | cons w ws =>
      simp only [hn, hs, bind, Except.bind, pure, Except.pure, Except.ok.injEq] at hselect
      have hmem : ∀ c, c ∈ w :: ws ↔ c ∈ cs ∧ c.healthState = .healthy := fun c => by
        rw [← hs, List.mem_insertionSort]
        simp [filterHealthy]
      have hsorted : (w :: ws).Pairwise NotBehind := hs ▸ List.pairwise_insertionSort NotBehind _
      obtain ⟨hw, hh⟩ := (hmem w).mp (by simp)
      refine ⟨w, hw, hselect, hh, fun c hc hch => ?_⟩
      rcases List.mem_cons.mp ((hmem c).mpr ⟨hc, hch⟩) with rfl | hc'
      · exact le_refl _
      · have hb := (List.pairwise_cons.mp hsorted).1 c hc'
        unfold NotBehind at hb
        omega

/-! ### A committed record in the next election -/

theorem exists_contacted_holder (hq : e.quorum = -1 ∨ 0 < e.quorum)
    (hsub : holders ⊆ e.nodeMap.keys)
    (hcard : requiredReceipts e.quorum e.nodeMap.count + 1 ≤ holders.card)
    (hcs : collectNodeStates e reply = .ok cs) : ∃ c ∈ cs, c.info.nodeID ∈ holders := by
  have hq0 : e.quorum ≠ 0 := by omega
  obtain ⟨hids, hstatic, hmajority⟩ := collectNodeStates_ok hq0 hcs
  have hmeet : ∃ n ∈ contactedIDs cs, n ∈ holders := by
    rcases hq with hm | hp
    · rw [hm] at hcard
      have hmaj := majority_requiredReceipts e.nodeMap.count
      have hcov : Covers e.nodeMap.keys (e.nodeMap.keys.card / 2 + 1) holders :=
        covers_of_majorities hsub (by rw [KeyedMap.card_keys]; omega)
      obtain ⟨n, hn, hh⟩ := covers_iff.mp hcov (contactedIDs cs) hids (by
        rw [KeyedMap.card_keys]
        exact hmajority hm)
      exact ⟨n, hn, (Finset.mem_inter.mp hh).1⟩
    · -- a static quorum contacts every node
      have hall : contactedIDs cs = e.nodeMap.keys :=
        Finset.eq_of_subset_of_card_le hids (by rw [KeyedMap.card_keys]; exact hstatic hp)
      obtain ⟨n, hn⟩ := Finset.card_pos.mp (show 0 < holders.card by omega)
      exact ⟨n, hall ▸ hsub hn, hn⟩
  obtain ⟨n, hn, hh⟩ := hmeet
  obtain ⟨c, hc, rfl⟩ := List.mem_map.mp (List.mem_toFinset.mp hn)
  exact ⟨c, hc, hh⟩

/-- **An election among fixed members contacts a holder of every quorum-committed record, and its
winner has the revision of the record if one of the contacted holders is Healthy.** -/
theorem elected_not_behind_committed (hq : e.quorum = -1 ∨ 0 < e.quorum)
    (hsub : holders ⊆ e.nodeMap.keys)
    (hcard : requiredReceipts e.quorum e.nodeMap.count + 1 ≤ holders.card)
    (hcs : collectNodeStates e reply = .ok cs)
    (hrev : ∀ c ∈ cs, c.info.nodeID ∈ holders → r ≤ c.latestRevision)
    (hactive : findActivePrimary cs = none) (h : electPrimaryOnce e polls reply = .ok info) :
    (∃ c ∈ cs, c.info.nodeID ∈ holders ∧ r ≤ c.latestRevision) ∧
      ∃ w ∈ cs, w.info = info ∧
        ((∃ c ∈ cs, c.info.nodeID ∈ holders ∧ c.healthState = .healthy) →
          r ≤ w.latestRevision) := by
  obtain ⟨c, hc, hh⟩ := exists_contacted_holder hq hsub hcard hcs
  obtain ⟨w, hw, hinfo, -, hmax⟩ := electPrimaryOnce_selects hcs hactive h
  refine ⟨⟨c, hc, hh, hrev c hc hh⟩, w, hw, hinfo, ?_⟩
  rintro ⟨c', hc', hh', hhealthy⟩
  exact (hrev c' hc' hh').trans (hmax c' hc' hhealthy)

/-- Three registered nodes; the Elector runs on `"c"`. -/
def threeNodes (localHealth : HealthState) (localRevision : ℤ) : Server :=
  { localNodeID := "c", localStartTime := 3, localHealth := localHealth, localPrimary := .replica,
    localRevision := some localRevision, quorum := -1,
    nodeMap :=
      { entries := ["a", "b", "c"].map fun n =>
          { nodeID := n, memberID := 1, clientAdvertiseAddress := n, peerAdvertiseAddress := n,
            lastHeartbeat := 0 },
        nodup := by decide },
    previousPrimary := none }

/-- Only `"b"` answers. -/
def onlyB (health : HealthState) (revision : ℤ) : NodeID → Option NodeReply := fun n =>
  if n = "b" then
    some { healthState := health, primaryState := .replica, latestRevision := revision,
           startTime := 2 }
  else none

/-- The node that an election between `"b"` and `"c"` can take. -/
def infoOf (n : NodeID) : NodeInfo := { nodeID := n, memberID := 1, peerAdvertiseAddr := n }

/-- The candidates of an election that only `"b"` answers. -/
def contactedBC (e : Server) (health : HealthState) (revision : ℤ) : List Candidate :=
  e.nodeMap.entries.filterMap (contact e (onlyB health revision))

/-- The Primary `"a"` is gone; the other holder of the revision 5 answers and is Healthy. -/
theorem elected_not_behind_committed_healthy :
    electPrimaryOnce (threeNodes .healthy 4) [] (onlyB .healthy 5) = .ok (infoOf "b") ∧
      ∃ w ∈ contactedBC (threeNodes .healthy 4) .healthy 5, w.info = infoOf "b" ∧
        5 ≤ w.latestRevision := by
  have hsub : ({"a", "b"} : Finset NodeID) ⊆ (threeNodes .healthy 4).nodeMap.keys := by decide
  have hcs : collectNodeStates (threeNodes .healthy 4) (onlyB .healthy 5) =
    .ok (contactedBC (threeNodes .healthy 4) .healthy 5) := rfl
  have hrev : ∀ c ∈ contactedBC (threeNodes .healthy 4) .healthy 5,
    c.info.nodeID ∈ ({"a", "b"} : Finset NodeID) → 5 ≤ c.latestRevision := by decide
  have h : electPrimaryOnce (threeNodes .healthy 4) [] (onlyB .healthy 5) = .ok (infoOf "b") := by
    decide
  obtain ⟨-, w, hw, hinfo, hr⟩ :=
    elected_not_behind_committed (Or.inl rfl) hsub (by decide) hcs hrev (by decide) h
  exact ⟨h, w, hw, hinfo, hr (by decide)⟩

/-- **A Degraded holder is passed over.** The Primary `"a"` is gone, the other holder of the
revision 5 answers but is Degraded, and `"c"`, which has only the revision 4, is elected. -/
theorem election_passes_over_degraded_holder :
    ({"a", "b"} : Finset NodeID) ⊆ (threeNodes .healthy 4).nodeMap.keys ∧
      requiredReceipts (-1) (threeNodes .healthy 4).nodeMap.count + 1 = 2 ∧
      collectNodeStates (threeNodes .healthy 4) (onlyB .degraded 5) =
        .ok (contactedBC (threeNodes .healthy 4) .degraded 5) ∧
      findActivePrimary (contactedBC (threeNodes .healthy 4) .degraded 5) = none ∧
      electPrimaryOnce (threeNodes .healthy 4) [] (onlyB .degraded 5) = .ok (infoOf "c") ∧
      ∀ c ∈ contactedBC (threeNodes .healthy 4) .degraded 5,
        (c.info.nodeID = "b" → c.latestRevision = 5) ∧
        (c.info = infoOf "c" → c.latestRevision = 4) := by
  decide

end Netsy.Elector.PrimaryElection
