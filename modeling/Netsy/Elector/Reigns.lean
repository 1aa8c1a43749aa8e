import Netsy.Elector.MemberIDs
import Netsy.Elector.NodeMap

/-! # The reigns of an Elector

A node that acquires the leadership begins a bootstrap, which fills the node map step by step. When
it loses the leadership, it cancels the context of the bootstrap and resets the map, but it does not
wait for the bootstrap to return: its remaining steps may come after the reset, and in a later
reign. `RegisterNode`, `DeregisterNode`, heartbeats and the health check change the same map, and
other Electors write `members.json`. -/

namespace Netsy.Elector.Reigns

open Proto NodeState Lib.Keyed Lib.ObjectStore Lib.Run Elector.NodeMap
open Elector.MemberIDs (Members Extends Grows Outcome findMemberID allocateMemberID readAttempt
  writeAttempt readAttempt_cases writeAttempt_eq_returns findMemberID_eq_some
  mem_allocate extends_allocate)

/-! ### The bootstrap -/

/-- `NodeRegistration`: what a registration file holds, and what a node sends to `RegisterNode`. -/
structure NodeRegistration where
  nodeID : NodeID
  clientAdvertiseAddress : String
  peerAdvertiseAddress : String
deriving DecidableEq, Repr

/-- The entry that is added for a registration. -/
def NodeRegistration.entry (reg : NodeRegistration) (memberID : ℕ) (now : Time) : NodeEntry :=
  { nodeID := reg.nodeID, memberID := memberID,
    clientAdvertiseAddress := reg.clientAdvertiseAddress,
    peerAdvertiseAddress := reg.peerAdvertiseAddress, lastHeartbeat := now }

/-- What the loop of a bootstrap works on. -/
structure Load where
  /-- `members.json` as it was read; the first Elector finds none. -/
  base : Option Members
  mf : Members
  /-- The first Elector writes in any case. -/
  needsWrite : Bool
  /-- The registrations that are left. -/
  regs : List NodeRegistration
deriving DecidableEq

def Load.put (l : Load) : ConditionalPut Members := ⟨l.base, l.mf⟩

/-- What a run of `Bootstrap` is about to do. -/
inductive Phase
  | reading
  | listing (base : Option Members)
  /-- `bootstrapFirstElector` promotes a bootstrap snapshot. -/
  | promoting (regs : List NodeRegistration)
  | checking (l : Load)
  /-- `bootstrapExisting` looks the node up in the map. -/
  | looking (reg : NodeRegistration) (l : Load)
  | adding (reg : NodeRegistration) (memberID : ℕ) (l : Load)
  | writing (l : Load)
  | clearing
  | settingReady
  | returned (ok : Bool)
deriving DecidableEq

/-- The node gets a new id. -/
def Load.allocate (l : Load) (reg : NodeRegistration) : Phase :=
  .adding reg (allocateMemberID l.mf)
    { l with mf := MemberIDs.allocate l.mf reg.nodeID, needsWrite := true }

namespace Phase

/-- `ReadMembersFile`. -/
def read (file : Option Members) (ok : Bool) : Phase → Option Phase
  | .reading => some (if ok then .listing file else .returned false)
  | _ => none

/-- `ListNodeRegistrations`. -/
def list (ok : Bool) (regs : List NodeRegistration) : Phase → Option Phase
  | .listing none => some (if ok then .promoting regs else .returned false)
  | .listing (some mf) =>
    some (if ok then .checking { base := some mf, mf := mf, needsWrite := false, regs := regs }
      else .returned false)
  | _ => none

/-- `PromoteBootstrapSnapshot`. -/
def promote (ok : Bool) : Phase → Option Phase
  | .promoting regs =>
    some (if ok then
        .checking { base := none, mf := KeyedMap.empty, needsWrite := true, regs := regs }
      else .returned false)
  | _ => none

/-- The head of the loops, with `IsDeregistered`. -/
def check (deregistered : List NodeID) : Phase → Option Phase
  | .checking l =>
    match l.regs with
    | [] => some (if l.needsWrite then .writing l else .clearing)
    | reg :: regs =>
      if reg.nodeID ∈ deregistered then some (.checking { l with regs := regs })
      else if l.base.isSome then some (.looking reg { l with regs := regs })
      else some (Load.allocate { l with regs := regs } reg)
  | _ => none

/-- `Get`, and the member id of a node that is not in the map. -/
def look (nodes : Nodes) : Phase → Option Phase
  | .looking reg l =>
    if (nodes.get reg.nodeID).isSome then some (.checking l)
    else
      match findMemberID l.mf reg.nodeID with
      | some memberID => some (.adding reg memberID l)
      | none => some (l.allocate reg)
  | _ => none

end Phase

/-! ### The Elector -/

/-- A call of `RegisterNode`. -/
inductive Registering
  /-- It has not looked whether the map is ready. -/
  | called (reg : NodeRegistration)
  | reading (reg : NodeRegistration) (attempts : ℕ)
  | writing (reg : NodeRegistration) (attempts newID : ℕ) (put : ConditionalPut Members)
  | adding (reg : NodeRegistration) (memberID : ℕ)
deriving DecidableEq

def Registering.nodeID : Registering → NodeID
  | .called reg | .reading reg _ | .writing reg _ _ _ | .adding reg _ => reg.nodeID

/-- Where a call of `DeregisterNode` stands. -/
inductive Stage
  | marking
  | removing
  /-- It has removed the node. -/
  | returning
deriving DecidableEq, Repr

structure Deregistering where
  nodeID : NodeID
  stage : Stage
deriving DecidableEq, Repr

/-- Where `onLoseLeadership` stands. -/
inductive Losing
  | idle | resetting | settingFollower
deriving DecidableEq, Repr

structure Runner where
  nodes : Nodes := KeyedMap.empty
  ready : Bool := false
  deregistered : List NodeID := []
  /-- The elector state of the node is `ElectorLeader`. -/
  leader : Bool := false
  /-- The bootstrap that `leaderCancel` cancels. The contexts of the others are done. -/
  leaderCancel : Option ℕ := none
  losing : Losing := .idle
  /-- The number of the reign, until the map is reset. -/
  reign : Option ℕ := none
  /-- The bootstraps, each with the number of its reign as its place. -/
  bootstraps : List Phase := []
  registrations : List Registering := []
  deregistrations : List Deregistering := []
  /-- The nodes whose `DeregisterNode` has returned in this reign, and for which `RegisterNode` was
  not called after that. -/
  out : List NodeID := []
  /-- `members.json`. -/
  file : Option Members := none
  /-- The writes whose error was reported and that may still take effect. -/
  inflight : List (ConditionalPut Members) := []

inductive Action
  | onAcquireLeadership
  /-- It cancels the context. -/
  | onLoseLeadership
  | reset
  | setFollower
  | read (i : ℕ) (ok : Bool)
  | list (i : ℕ) (ok : Bool) (regs : List NodeRegistration)
  | promote (i : ℕ) (ok : Bool)
  | check (i : ℕ)
  | look (i : ℕ)
  | add (i : ℕ) (now : Time)
  | write (i : ℕ) (outcome : Outcome)
  | clearDeregistered (i : ℕ)
  | setReady (i : ℕ)
  | registerNode (reg : NodeRegistration)
  | registerReady (i : ℕ)
  | registerRead (i : ℕ) (ok : Bool)
  | registerWrite (i : ℕ) (outcome : Outcome)
  | registerAdd (i : ℕ) (now : Time)
  | deregisterNode (nodeID : NodeID)
  | markDeregistered (i : ℕ)
  | remove (i : ℕ)
  /-- The call returns; it may have cleared the Primary before. -/
  | deregisterReturn (i : ℕ)
  | sendHeartbeat (nodeID : NodeID) (now : Time) (health : HealthState) (primary : PrimaryState)
      (latestRevision startTime : ℤ)
  /-- The health check degrades a node. -/
  | setHealthState (nodeID : NodeID) (health : HealthState) (now : Time)
  /-- The health check removes a node. -/
  | removeDegraded (nodeID : NodeID)
  /-- Another Elector writes `members.json`; nobody takes an id away. -/
  | otherElector (mf : Members)
  | land (i : ℕ)

instance (mf mf' : Members) : Decidable (Extends mf mf') :=
  inferInstanceAs (Decidable (∀ e ∈ mf.entries, e ∈ mf'.entries))

namespace Runner

def setPhase (s : Runner) (i : ℕ) (ph : Phase) : Runner :=
  { s with bootstraps := s.bootstraps.set i ph }

/-- A bootstrap goes on and leaves the map. -/
def advance (s : Runner) (i : ℕ) (f : Phase → Option Phase) : Option Runner :=
  s.bootstraps[i]?.bind fun ph => (f ph).map (s.setPhase i)

def onAcquireLeadership (s : Runner) : Runner :=
  if s.leader then s
  else
    { s with
      leader := true
      leaderCancel := some s.bootstraps.length
      reign := some s.bootstraps.length
      bootstraps := s.bootstraps ++ [.reading]
      out := [] }

def reset (s : Runner) : Runner :=
  { s with
    nodes := KeyedMap.empty, deregistered := [], ready := false
    reign := none, losing := .settingFollower }

def add (s : Runner) (i : ℕ) (now : Time) : Option Runner :=
  match s.bootstraps[i]? with
  | some (.adding reg memberID l) =>
    some { s.setPhase i (.checking l) with nodes := s.nodes.add (reg.entry memberID now) }
  | _ => none

def write (s : Runner) (i : ℕ) (outcome : Outcome) : Option Runner :=
  match s.bootstraps[i]?, outcome with
  | some (.writing l), .answered =>
    if s.file = l.base then some { s.setPhase i .clearing with file := some l.mf }
    else some (s.setPhase i (.returned false))
  | some (.writing l), .failed _ =>
    some { s.setPhase i (.returned false) with inflight := l.put :: s.inflight }
  | _, _ => none

def clearDeregistered (s : Runner) (i : ℕ) : Option Runner :=
  match s.bootstraps[i]? with
  | some .clearing => some { s.setPhase i .settingReady with deregistered := [] }
  | _ => none

def setReady (s : Runner) (i : ℕ) : Option Runner :=
  match s.bootstraps[i]? with
  | some .settingReady => some { s.setPhase i (.returned true) with ready := true }
  | _ => none

/-! #### `RegisterNode` -/

def registerNode (s : Runner) (reg : NodeRegistration) : Option Runner :=
  if s.leader ∧ reg.nodeID ≠ "" ∧ reg.clientAdvertiseAddress ≠ "" ∧
      reg.peerAdvertiseAddress ≠ "" then
    some { s with
      registrations := s.registrations ++ [.called reg]
      out := s.out.filter (· ≠ reg.nodeID) }
  else none

def endRegistration (s : Runner) (i : ℕ) : Runner :=
  { s with registrations := s.registrations.eraseIdx i }

def setRegistration (s : Runner) (i : ℕ) (c : Registering) : Runner :=
  { s with registrations := s.registrations.set i c }

def registerReady (s : Runner) (i : ℕ) : Option Runner :=
  match s.registrations[i]? with
  | some (.called reg) =>
    some (if s.ready then s.setRegistration i (.reading reg 0) else s.endRegistration i)
  | _ => none

/-- A write whose error is reported may still take effect. -/
def sent (s : Runner) (put : ConditionalPut Members) : Outcome → Runner
  | .answered => s
  | .failed _ => { s with inflight := put :: s.inflight }

def registerRead (s : Runner) (i : ℕ) (ok : Bool) : Option Runner :=
  match s.registrations[i]? with
  | some (.reading reg attempts) =>
    match readAttempt s.file reg.nodeID ok with
    | .fails => some (s.endRegistration i)
    | .reuses memberID => some (s.setRegistration i (.adding reg memberID))
    | .allocates newID put => some (s.setRegistration i (.writing reg attempts newID put))
  | _ => none

def registerWrite (s : Runner) (i : ℕ) (outcome : Outcome) : Option Runner :=
  match s.registrations[i]? with
  | some (.writing reg attempts newID put) =>
    let s := s.sent put outcome
    match writeAttempt s.file put attempts outcome with
    | .returns => some { s.setRegistration i (.adding reg newID) with file := put.apply s.file }
    | .retries attempts => some (s.setRegistration i (.reading reg attempts))
    | .fails => some (s.endRegistration i)
  | _ => none

def registerAdd (s : Runner) (i : ℕ) (now : Time) : Option Runner :=
  match s.registrations[i]? with
  | some (.adding reg memberID) =>
    some { s.endRegistration i with nodes := s.nodes.add (reg.entry memberID now) }
  | _ => none

/-! #### `DeregisterNode` -/

def deregisterNode (s : Runner) (nodeID : NodeID) : Option Runner :=
  if s.leader ∧ nodeID ≠ "" then
    some { s with deregistrations := s.deregistrations ++ [⟨nodeID, .marking⟩] }
  else none

def markDeregistered (s : Runner) (i : ℕ) : Option Runner :=
  match s.deregistrations[i]? with
  | some ⟨nodeID, .marking⟩ =>
    some { s with
      deregistrations := s.deregistrations.set i ⟨nodeID, .removing⟩
      deregistered := nodeID :: s.deregistered }
  | _ => none

def remove (s : Runner) (i : ℕ) : Option Runner :=
  match s.deregistrations[i]? with
  | some ⟨nodeID, .removing⟩ =>
    some { s with
      deregistrations := s.deregistrations.set i ⟨nodeID, .returning⟩
      nodes := s.nodes.remove nodeID }
  | _ => none

def deregisterReturn (s : Runner) (i : ℕ) : Option Runner :=
  match s.deregistrations[i]? with
  | some ⟨nodeID, .returning⟩ =>
    some { s with deregistrations := s.deregistrations.eraseIdx i, out := nodeID :: s.out }
  | _ => none

end Runner

def step (s : Runner) : Action → Option Runner
  | .onAcquireLeadership => if s.losing = .idle then some s.onAcquireLeadership else none
  | .onLoseLeadership =>
    if s.losing = .idle then some { s with leaderCancel := none, losing := .resetting } else none
  | .reset => if s.losing = .resetting then some s.reset else none
  | .setFollower =>
    if s.losing = .settingFollower then some { s with leader := false, losing := .idle } else none
  | .read i ok => s.advance i (Phase.read s.file ok)
  | .list i ok regs => s.advance i (Phase.list ok regs)
  | .promote i ok => s.advance i (Phase.promote ok)
  | .check i => s.advance i (Phase.check s.deregistered)
  | .look i => s.advance i (Phase.look s.nodes)
  | .add i now => s.add i now
  | .write i outcome => s.write i outcome
  | .clearDeregistered i => s.clearDeregistered i
  | .setReady i => s.setReady i
  | .registerNode reg => s.registerNode reg
  | .registerReady i => s.registerReady i
  | .registerRead i ok => s.registerRead i ok
  | .registerWrite i outcome => s.registerWrite i outcome
  | .registerAdd i now => s.registerAdd i now
  | .deregisterNode nodeID => s.deregisterNode nodeID
  | .markDeregistered i => s.markDeregistered i
  | .remove i => s.remove i
  | .deregisterReturn i => s.deregisterReturn i
  | .sendHeartbeat nodeID now health primary latestRevision startTime =>
    some { s with
      nodes := updateHeartbeat s.nodes nodeID now health primary latestRevision startTime }
  | .setHealthState nodeID health now =>
    some { s with nodes := setHealthState s.nodes nodeID health now }
  | .removeDegraded nodeID => some { s with nodes := s.nodes.remove nodeID }
  | .otherElector mf =>
    if ∀ x ∈ s.file, Extends x mf then some { s with file := some mf } else none
  | .land i =>
    s.inflight[i]?.map fun put =>
      { s with file := put.apply s.file, inflight := s.inflight.eraseIdx i }

/-! ### What a reign leaves to the next -/

/-- A map that is ready was loaded in this reign, and its member ids are those of `members.json`. -/
structure Isolated (s : Runner) : Prop where
  loaded : s.ready = true → ∃ k, s.reign = some k ∧ s.bootstraps[k]? = some (.returned true)
  stored : s.ready = true → ∀ e ∈ s.nodes.entries,
    ∃ mf ∈ s.file, findMemberID mf e.nodeID = some e.memberID

/-- The bootstrap that adds an entry or declares the map ready. -/
def Action.fills : Action → Option ℕ
  | .add i _ | .setReady i => some i
  | _ => none

/-- A bootstrap whose context is done adds nothing and does not declare the map ready. -/
def Uncancelled (s : Runner) (a : Action) : Prop := ∀ i ∈ a.fills, s.leaderCancel = some i

instance (s : Runner) (a : Action) : Decidable (Uncancelled s a) :=
  inferInstanceAs (Decidable (∀ i ∈ a.fills, s.leaderCancel = some i))

variable {s s' : Runner} {a : Action} {as : List Action} {i k : ℕ} {ph ph' : Phase} {l : Load}
  {reg : NodeRegistration} {regs : List NodeRegistration} {e : NodeEntry} {nodes nodes' : Nodes}
  {mf : Members} {file file' : Option Members} {put : ConditionalPut Members} {ok : Bool}

/-! #### What the steps do -/

theorem advance_eq_some {f : Phase → Option Phase} (h : s.advance i f = some s') :
    ∃ ph ph', s.bootstraps[i]? = some ph ∧ f ph = some ph' ∧ s' = s.setPhase i ph' := by
  obtain ⟨ph, hi, hmap⟩ := Option.bind_eq_some_iff.mp h
  obtain ⟨ph', hph', rfl⟩ := Option.map_eq_some_iff.mp hmap
  exact ⟨ph, ph', hi, hph', rfl⟩

theorem add_eq_some {now : Time} (h : s.add i now = some s') :
    ∃ reg memberID l, s.bootstraps[i]? = some (.adding reg memberID l) ∧
      s' = { s.setPhase i (.checking l) with nodes := s.nodes.add (reg.entry memberID now) } := by
  unfold Runner.add at h
  split at h
  · rename_i reg memberID l hi
    exact ⟨reg, memberID, l, hi, (Option.some.inj h).symm⟩
  · cases h

theorem write_eq_some {outcome : Outcome} (h : s.write i outcome = some s') :
    ∃ l, s.bootstraps[i]? = some (.writing l) ∧
      (s.file = l.base ∧ s' = { s.setPhase i .clearing with file := some l.mf } ∨
        s' = s.setPhase i (.returned false) ∨
        s' = { s.setPhase i (.returned false) with inflight := l.put :: s.inflight }) := by
  unfold Runner.write at h
  split at h
  · rename_i l hi
    refine ⟨l, hi, ?_⟩
    split_ifs at h with hmatch <;> cases h
    · exact Or.inl ⟨hmatch, rfl⟩
    · exact Or.inr (Or.inl rfl)
  · rename_i l precondition hi
    cases h
    exact ⟨l, hi, Or.inr (Or.inr rfl)⟩
  · cases h

theorem clearDeregistered_eq_some (h : s.clearDeregistered i = some s') :
    s.bootstraps[i]? = some .clearing ∧
      s' = { s.setPhase i .settingReady with deregistered := [] } := by
  unfold Runner.clearDeregistered at h
  split at h
  · rename_i hi
    exact ⟨hi, (Option.some.inj h).symm⟩
  · cases h

theorem setReady_eq_some (h : s.setReady i = some s') :
    s.bootstraps[i]? = some .settingReady ∧
      s' = { s.setPhase i (.returned true) with ready := true } := by
  unfold Runner.setReady at h
  split at h
  · rename_i hi
    exact ⟨hi, (Option.some.inj h).symm⟩
  · cases h

theorem registerNode_eq_some (h : s.registerNode reg = some s') :
    s' = { s with
      registrations := s.registrations ++ [.called reg]
      out := s.out.filter (· ≠ reg.nodeID) } := by
  unfold Runner.registerNode at h
  split_ifs at h
  exact (Option.some.inj h).symm

theorem registerReady_eq_some (h : s.registerReady i = some s') :
    ∃ reg, s.registrations[i]? = some (.called reg) ∧
      (s' = s.setRegistration i (.reading reg 0) ∨ s' = s.endRegistration i) := by
  unfold Runner.registerReady at h
  split at h
  · rename_i reg hi
    refine ⟨reg, hi, ?_⟩
    split_ifs at h <;> cases h
    · exact Or.inl rfl
    · exact Or.inr rfl
  · cases h

theorem registerRead_eq_some (h : s.registerRead i ok = some s') :
    ∃ reg attempts, s.registrations[i]? = some (.reading reg attempts) ∧
      (s' = s.endRegistration i ∨ ∃ mf ∈ s.file,
        (∃ memberID, findMemberID mf reg.nodeID = some memberID ∧
          s' = s.setRegistration i (.adding reg memberID)) ∨
        findMemberID mf reg.nodeID = none ∧
          s' = s.setRegistration i (.writing reg attempts (allocateMemberID mf)
            ⟨some mf, MemberIDs.allocate mf reg.nodeID⟩)) := by
  unfold Runner.registerRead at h
  split at h
  swap
  · cases h
  rename_i reg attempts hi
  refine ⟨reg, attempts, hi, ?_⟩
  obtain hread | ⟨mf, hmf, ⟨id, hfind, hread⟩ | ⟨hfind, hread⟩⟩ :=
    readAttempt_cases s.file reg.nodeID ok
  · rw [hread] at h
    cases h
    exact Or.inl rfl
  · rw [hread] at h
    cases h
    exact Or.inr ⟨mf, hmf, Or.inl ⟨id, hfind, rfl⟩⟩
  · rw [hread] at h
    cases h
    exact Or.inr ⟨mf, hmf, Or.inr ⟨hfind, rfl⟩⟩

theorem registerWrite_eq_some {outcome : Outcome} (h : s.registerWrite i outcome = some s') :
    ∃ reg attempts newID put, s.registrations[i]? = some (.writing reg attempts newID put) ∧
      (s.file = put.expected ∧
          s' = { s.setRegistration i (.adding reg newID) with file := put.apply s.file } ∨
        (∃ attempts, s' = (s.sent put outcome).setRegistration i (.reading reg attempts)) ∨
        s' = (s.sent put outcome).endRegistration i) := by
  unfold Runner.registerWrite at h
  split at h
  swap
  · cases h
  rename_i reg attempts newID put hi
  refine ⟨reg, attempts, newID, put, hi, ?_⟩
  dsimp only at h
  split at h
  · next hreturns =>
    obtain ⟨rfl, hmatch⟩ := writeAttempt_eq_returns hreturns
    cases h
    exact Or.inl ⟨hmatch, rfl⟩
  · cases h
    exact Or.inr (Or.inl ⟨_, rfl⟩)
  · cases h
    exact Or.inr (Or.inr rfl)

theorem registerAdd_eq_some {now : Time} (h : s.registerAdd i now = some s') :
    ∃ reg memberID, s.registrations[i]? = some (.adding reg memberID) ∧
      s' = { s.endRegistration i with nodes := s.nodes.add (reg.entry memberID now) } := by
  unfold Runner.registerAdd at h
  split at h
  · rename_i reg memberID hi
    exact ⟨reg, memberID, hi, (Option.some.inj h).symm⟩
  · cases h

theorem deregisterNode_eq_some {nodeID : NodeID} (h : s.deregisterNode nodeID = some s') :
    s' = { s with deregistrations := s.deregistrations ++ [⟨nodeID, .marking⟩] } := by
  unfold Runner.deregisterNode at h
  split_ifs at h
  exact (Option.some.inj h).symm

theorem markDeregistered_eq_some (h : s.markDeregistered i = some s') :
    ∃ nodeID, s.deregistrations[i]? = some ⟨nodeID, .marking⟩ ∧
      s' = { s with
        deregistrations := s.deregistrations.set i ⟨nodeID, .removing⟩
        deregistered := nodeID :: s.deregistered } := by
  unfold Runner.markDeregistered at h
  split at h
  · rename_i nodeID hi
    exact ⟨nodeID, hi, (Option.some.inj h).symm⟩
  · cases h

theorem remove_eq_some (h : s.remove i = some s') :
    ∃ nodeID, s.deregistrations[i]? = some ⟨nodeID, .removing⟩ ∧
      s' = { s with
        deregistrations := s.deregistrations.set i ⟨nodeID, .returning⟩
        nodes := s.nodes.remove nodeID } := by
  unfold Runner.remove at h
  split at h
  · rename_i nodeID hi
    exact ⟨nodeID, hi, (Option.some.inj h).symm⟩
  · cases h

theorem deregisterReturn_eq_some (h : s.deregisterReturn i = some s') :
    ∃ nodeID, s.deregistrations[i]? = some ⟨nodeID, .returning⟩ ∧
      s' = { s with deregistrations := s.deregistrations.eraseIdx i, out := nodeID :: s.out } := by
  unfold Runner.deregisterReturn at h
  split at h
  · rename_i nodeID hi
    exact ⟨nodeID, hi, (Option.some.inj h).symm⟩
  · cases h

/-! #### Entries and files -/

def InFile (file : Option Members) (e : NodeEntry) : Prop :=
  ∃ mf ∈ file, (e.nodeID, e.memberID) ∈ mf.entries

def AllIn (file : Option Members) (nodes : Nodes) : Prop := ∀ e ∈ nodes.entries, InFile file e

/-- A write that takes no id away. -/
def Adds (put : ConditionalPut Members) : Prop := ∀ mf ∈ put.expected, Extends mf put.data

theorem InFile.grows (h : InFile file e) (hgrows : Grows file file') : InFile file' e := by
  obtain ⟨mf, hmf, he⟩ := h
  obtain ⟨mf', hmf', hext⟩ := hgrows mf hmf
  exact ⟨mf', hmf', hext _ he⟩

theorem Adds.grows (h : Adds put) : Grows put.expected (some put.data) :=
  fun mf hmf => ⟨put.data, rfl, h mf hmf⟩

theorem Adds.grows_apply (h : Adds put) : Grows file (put.apply file) :=
  ConditionalPut.apply_rel (Grows.refl file) h.grows

/-- What changes of entries keep: their ids. -/
def SameIDs (nodes nodes' : Nodes) : Prop :=
  ∀ e' ∈ nodes'.entries, ∃ e ∈ nodes.entries, e.nodeID = e'.nodeID ∧ e.memberID = e'.memberID

theorem sameIDs_remove (n : NodeID) : SameIDs nodes (nodes.remove n) :=
  fun e he => ⟨e, List.mem_of_mem_filter he, rfl, rfl⟩

theorem sameIDs_modifyKey {n : NodeID} {f : NodeEntry → NodeEntry}
    (hf : ∀ e, (f e).nodeID = e.nodeID) (hid : ∀ e, (f e).memberID = e.memberID) :
    SameIDs nodes (nodes.modifyKey n f hf) := by
  intro e' he'
  obtain ⟨e, he, rfl⟩ := List.mem_map.mp he'
  refine ⟨e, he, ?_⟩
  split_ifs
  · exact ⟨(hf e).symm, (hid e).symm⟩
  · exact ⟨rfl, rfl⟩

theorem mem_add {new : NodeEntry} (h : e ∈ (nodes.add new).entries) :
    e = new ∨ e ∈ nodes.entries ∧ e.nodeID ≠ new.nodeID := by
  rcases List.mem_cons.mp h with rfl | h
  · exact Or.inl rfl
  · obtain ⟨hmem, hne⟩ := List.mem_filter.mp h
    exact Or.inr ⟨hmem, by simpa using hne⟩

/-! #### The bootstrap -/

/-- What a loop has in hand: its file adds to the one it read, which was `members.json` once. -/
structure LoadOk (file : Option Members) (l : Load) : Prop where
  adds : Adds l.put
  older : Grows l.base file
  unchanged : l.needsWrite = false → l.base = some l.mf

def Phase.Sound (file : Option Members) : Phase → Prop
  | .listing base => Grows base file
  | .checking l | .looking _ l | .writing l => LoadOk file l
  | .adding reg memberID l => LoadOk file l ∧ (reg.nodeID, memberID) ∈ l.mf.entries
  | _ => True

/-- The id of the entry is in `members.json`, or in what the bootstrap is to write. -/
def Load.Has (file : Option Members) (l : Load) (e : NodeEntry) : Prop :=
  InFile file e ∨ (e.nodeID, e.memberID) ∈ l.mf.entries

/-- The entries of the map while the bootstrap of the reign stands there. A bootstrap that failed
leaves entries of any kind, but then the map does not become ready. -/
def Phase.Allows (file : Option Members) (e : NodeEntry) : Phase → Prop
  | .checking l | .looking _ l | .writing l => l.Has file e
  | .adding reg _ l => e.nodeID ≠ reg.nodeID → l.Has file e
  | .returned false => True
  | _ => InFile file e

theorem LoadOk.grows (h : LoadOk file l) (hgrows : Grows file file') : LoadOk file' l :=
  ⟨h.adds, h.older.trans hgrows, h.unchanged⟩

theorem LoadOk.next (h : LoadOk file l) : LoadOk file { l with regs := regs } :=
  ⟨h.adds, h.older, h.unchanged⟩

theorem Phase.Sound.grows (h : ph.Sound file) (hgrows : Grows file file') : ph.Sound file' := by
  cases ph with
  | listing base => exact Grows.trans h hgrows
  | checking l => exact LoadOk.grows h hgrows
  | looking reg l => exact LoadOk.grows h hgrows
  | adding reg memberID l => exact ⟨h.1.grows hgrows, h.2⟩
  | writing l => exact LoadOk.grows h hgrows
  | _ => trivial

theorem allows_of_inFile (h : InFile file e) : ph.Allows file e := by
  cases ph with
  | checking l => exact Or.inl h
  | looking reg l => exact Or.inl h
  | adding reg memberID l => exact fun _ => Or.inl h
  | writing l => exact Or.inl h
  | returned ok =>
    cases ok with
    | false => trivial
    | true => exact h
  | _ => exact h

/-- What is allowed stays so when the file grows, and depends on the ids of the entry only. -/
theorem Phase.Allows.mono {e' : NodeEntry} (h : ph.Allows file e) (hgrows : Grows file file')
    (hnode : e.nodeID = e'.nodeID) (hmember : e.memberID = e'.memberID) : ph.Allows file' e' := by
  have hin : InFile file e → InFile file' e' := by
    intro hin
    have hgrown := hin.grows hgrows
    unfold InFile at hgrown ⊢
    rwa [← hnode, ← hmember]
  have hhas : ∀ l : Load, l.Has file e → l.Has file' e' := by
    rintro l (hold | hnew)
    · exact Or.inl (hin hold)
    · exact Or.inr (by rwa [← hnode, ← hmember])
  cases ph with
  | checking l => exact hhas l h
  | looking reg l => exact hhas l h
  | adding reg memberID l => exact fun hne => hhas l (h (by rwa [hnode]))
  | writing l => exact hhas l h
  | returned ok =>
    cases ok with
    | false => trivial
    | true => exact hin h
  | _ => exact hin h

/-- **What a step of the bootstrap keeps** while it leaves the map and the file. -/
structure Keeps (file : Option Members) (ph ph' : Phase) : Prop where
  unfinished : ph ≠ .returned true
  sound : ph.Sound file → ph'.Sound file
  allows : ∀ e, ph.Sound file → ph.Allows file e → ph'.Allows file e

theorem keeps_failed (h : ph ≠ .returned true) : Keeps file ph (.returned false) :=
  ⟨h, fun _ => trivial, fun _ _ _ => trivial⟩

theorem keeps_read (h : Phase.read file ok ph = some ph') : Keeps file ph ph' := by
  cases ph with
  | reading =>
    cases h
    cases ok with
    | false => exact keeps_failed nofun
    | true => exact ⟨nofun, fun _ => Grows.refl file, fun _ _ he => he⟩
  | _ => cases h

theorem keeps_list (h : Phase.list ok regs ph = some ph') : Keeps file ph ph' := by
  cases ph with
  | listing base =>
    cases base with
    | none =>
      cases h
      cases ok with
      | false => exact keeps_failed nofun
      | true => exact ⟨nofun, fun _ => trivial, fun _ _ he => he⟩
    | some mf =>
      cases h
      cases ok with
      | false => exact keeps_failed nofun
      | true =>
        refine ⟨nofun, fun holder => ⟨?_, holder, fun _ => rfl⟩, fun _ _ he => Or.inl he⟩
        rintro _ ⟨⟩
        exact fun _ he => he
  | _ => cases h

theorem keeps_promote (h : Phase.promote ok ph = some ph') : Keeps file ph ph' := by
  cases ph with
  | promoting regs =>
    cases h
    cases ok with
    | false => exact keeps_failed nofun
    | true =>
      refine ⟨nofun, fun _ => ⟨fun _ h => (nomatch h), fun _ h => (nomatch h), nofun⟩, ?_⟩
      exact fun _ _ he => Or.inl he
  | _ => cases h

theorem LoadOk.allocate (h : LoadOk file l)
    (hnew : l.base = none ∨ findMemberID l.mf reg.nodeID = none) : (l.allocate reg).Sound file := by
  refine ⟨⟨fun mf hmf => ?_, h.older, nofun⟩, mem_allocate.mpr (Or.inl rfl)⟩
  rcases hnew with hnone | hnone
  · rw [show l.base = some mf from hmf] at hnone
    cases hnone
  · exact (h.adds mf hmf).trans (extends_allocate hnone)

theorem Load.Has.allocate (h : l.Has file e) : (l.allocate reg).Allows file e := by
  intro hne
  exact h.imp_right fun hmem => mem_allocate.mpr (Or.inr ⟨hmem, hne⟩)

/-- **The head of the loop.** A loop that wrote nothing has given ids of `members.json`. -/
theorem keeps_check {deregistered : List NodeID} (h : Phase.check deregistered ph = some ph') :
    Keeps file ph ph' := by
  cases ph with
  | checking l =>
    simp only [Phase.check] at h
    split at h
    · cases h
      split_ifs with hwrite
      · exact ⟨nofun, fun hok => hok, fun _ _ he => he⟩
      · refine ⟨nofun, fun _ => trivial, fun e hok he => ?_⟩
        have hok : LoadOk file l := hok
        rcases he with hin | hmem
        · exact hin
        · have hbase := hok.unchanged (by simpa using hwrite)
          exact InFile.grows ⟨l.mf, hbase, hmem⟩ hok.older
    · split_ifs at h with hskip hbase
      · cases h
        exact ⟨nofun, LoadOk.next, fun _ _ he => he⟩
      · cases h
        exact ⟨nofun, LoadOk.next, fun _ _ he => he⟩
      · cases h
        have hnone : l.base = none := by simpa using hbase
        exact ⟨nofun, fun hok => (LoadOk.next hok).allocate (Or.inl hnone),
          fun _ _ he => Load.Has.allocate he⟩
  | _ => cases h

theorem keeps_look (h : Phase.look nodes ph = some ph') : Keeps file ph ph' := by
  cases ph with
  | looking reg l =>
    have hne : Phase.looking reg l ≠ .returned true := by simp
    simp only [Phase.look] at h
    split_ifs at h
    · cases h
      exact ⟨hne, fun hok => hok, fun _ _ he => he⟩
    · split at h
      · rename_i memberID hfind
        cases h
        exact ⟨hne, fun hok => ⟨hok, findMemberID_eq_some.mp hfind⟩, fun _ _ he _ => he⟩
      · rename_i hfind
        cases h
        exact ⟨hne, fun hok => LoadOk.allocate hok (Or.inr hfind),
          fun _ _ he => Load.Has.allocate he⟩
  | _ => cases h

/-! #### The invariant -/

/-- The reign, its bootstrap and the callbacks of the election. -/
structure Control (leaderCancel reign : Option ℕ) (leader : Bool) (losing : Losing) : Prop where
  cancel : ∀ k, leaderCancel = some k → reign = some k ∧ losing = .idle
  reign : reign ≠ none → leader = true ∧ losing ≠ .settingFollower

namespace Control

variable {leaderCancel reign : Option ℕ} {leader : Bool} {losing : Losing}

theorem reign_eq_none (h : Control leaderCancel reign leader losing) (hleader : ¬ leader = true) :
    reign = none := by
  by_contra hne
  exact hleader (h.reign hne).1

theorem leaderCancel_eq_none (h : Control leaderCancel reign leader losing)
    (hlosing : losing ≠ .idle) : leaderCancel = none := by
  by_contra hne
  obtain ⟨k, hk⟩ := Option.ne_none_iff_exists'.mp hne
  exact hlosing (h.cancel k hk).2

theorem acquire (n : ℕ) : Control (some n) (some n) true .idle :=
  ⟨fun _ hk => ⟨hk, rfl⟩, fun _ => ⟨rfl, nofun⟩⟩

theorem lose (h : Control leaderCancel reign leader losing) :
    Control none reign leader .resetting :=
  ⟨nofun, fun hne => ⟨(h.reign hne).1, nofun⟩⟩

theorem reset (h : Control leaderCancel reign leader .resetting) :
    Control leaderCancel none leader .settingFollower := by
  rw [h.leaderCancel_eq_none nofun]
  exact ⟨nofun, fun hne => absurd rfl hne⟩

theorem setFollower (h : Control leaderCancel reign leader .settingFollower) :
    Control leaderCancel reign false .idle := by
  rw [h.leaderCancel_eq_none nofun]
  exact ⟨nofun, fun hne => absurd rfl (h.reign hne).2⟩

end Control

/-- What a call of `RegisterNode` has in hand. -/
def Registering.Sound (file : Option Members) : Registering → Prop
  | .called _ | .reading _ _ => True
  | .writing reg _ newID put => Adds put ∧ (reg.nodeID, newID) ∈ put.data.entries
  | .adding reg memberID => ∃ mf ∈ file, (reg.nodeID, memberID) ∈ mf.entries

structure Inv (s : Runner) : Prop where
  control : Control s.leaderCancel s.reign s.leader s.losing
  sound : ∀ ph ∈ s.bootstraps, ph.Sound s.file
  live : ∀ k ph, s.leaderCancel = some k → s.bootstraps[k]? = some ph →
    ∀ e ∈ s.nodes.entries, ph.Allows s.file e
  loaded : s.ready = true → ∃ k, s.reign = some k ∧ s.bootstraps[k]? = some (.returned true)
  stored : s.ready = true ∨ s.reign = none → AllIn s.file s.nodes
  puts : ∀ put ∈ s.inflight, Adds put
  calls : ∀ c ∈ s.registrations, c.Sound s.file

theorem allIn_empty : AllIn file KeyedMap.empty := fun _ he => absurd he List.not_mem_nil

theorem inv_new : Inv {} where
  control := ⟨nofun, fun h => absurd rfl h⟩
  sound _ hph := absurd hph List.not_mem_nil
  live _ _ hk := nomatch hk
  loaded := nofun
  stored _ := allIn_empty
  puts _ hput := absurd hput List.not_mem_nil
  calls _ hc := absurd hc List.not_mem_nil

theorem Inv.isolated (h : Inv s) : Isolated s := by
  refine ⟨h.loaded, fun hready e he => ?_⟩
  obtain ⟨mf, hmf, hmem⟩ := h.stored (Or.inl hready) e he
  exact ⟨mf, hmf, findMemberID_eq_some.mpr hmem⟩

theorem Inv.setFile (h : Inv s) (hgrows : Grows s.file file) : Inv { s with file := file } where
  control := h.control
  sound ph hph := (h.sound ph hph).grows hgrows
  live k ph hk hph e he := (h.live k ph hk hph e he).mono hgrows rfl rfl
  loaded := h.loaded
  stored hor e he := (h.stored hor e he).grows hgrows
  puts := h.puts
  calls c hc := by
    have hold := h.calls c hc
    cases c with
    | adding reg memberID =>
      obtain ⟨mf, hmf, hmem⟩ := hold
      obtain ⟨mf', hmf', hext⟩ := hgrows mf hmf
      exact ⟨mf', hmf', hext _ hmem⟩
    | _ => exact hold

theorem Inv.setNodes (h : Inv s)
    (hnodes : ∀ e' ∈ nodes.entries, InFile s.file e' ∨
      ∃ e ∈ s.nodes.entries, e.nodeID = e'.nodeID ∧ e.memberID = e'.memberID) :
    Inv { s with nodes := nodes } where
  control := h.control
  sound := h.sound
  live k ph hk hph e' he' := by
    rcases hnodes e' he' with hin | ⟨e, he, hnode, hmember⟩
    · exact allows_of_inFile hin
    · exact (h.live k ph hk hph e he).mono (Grows.refl s.file) hnode hmember
  loaded := h.loaded
  stored hor e' he' := by
    rcases hnodes e' he' with hin | ⟨e, he, hnode, hmember⟩
    · exact hin
    · have hold := h.stored hor e he
      unfold InFile at hold ⊢
      rwa [← hnode, ← hmember]
  puts := h.puts
  calls := h.calls

theorem Inv.sameIDs (h : Inv s) (hsame : SameIDs s.nodes nodes) : Inv { s with nodes := nodes } :=
  h.setNodes fun e' he' => Or.inr (hsame e' he')

theorem Inv.setRegistrations {cs : List Registering} (h : Inv s)
    (hcs : ∀ c ∈ cs, c.Sound s.file) : Inv { s with registrations := cs } :=
  ⟨h.control, h.sound, h.live, h.loaded, h.stored, h.puts, hcs⟩

theorem Inv.send (h : Inv s) (hput : Adds put) : Inv { s with inflight := put :: s.inflight } :=
  ⟨h.control, h.sound, h.live, h.loaded, h.stored, List.forall_mem_cons.mpr ⟨hput, h.puts⟩, h.calls⟩

theorem Inv.sent (h : Inv s) (hput : Adds put) (outcome : Outcome) : Inv (s.sent put outcome) := by
  cases outcome with
  | answered => exact h
  | failed precondition => exact h.send hput

theorem getElem?_setPhase (hi : s.bootstraps[i]? = some ph) :
    (s.setPhase i ph').bootstraps[k]? = if k = i then some ph' else s.bootstraps[k]? :=
  getElem?_set_process hi

theorem Inv.setPhase (h : Inv s) (hi : s.bootstraps[i]? = some ph) (hne : ph ≠ .returned true)
    (hsound : ph'.Sound s.file)
    (hallows : s.leaderCancel = some i → ∀ e ∈ s.nodes.entries, ph'.Allows s.file e) :
    Inv (s.setPhase i ph') where
  control := h.control
  sound x hx := (List.mem_or_eq_of_mem_set hx).elim (h.sound x) fun he => he ▸ hsound
  live k x hk hx := by
    rw [getElem?_setPhase hi] at hx
    split_ifs at hx with hki
    · cases hx
      exact hallows (hki ▸ hk)
    · exact h.live k x hk hx
  loaded hready := by
    obtain ⟨k, hk, hret⟩ := h.loaded hready
    refine ⟨k, hk, ?_⟩
    have hki : k ≠ i := by
      rintro rfl
      exact hne (Option.some.inj (hi.symm.trans hret))
    rw [getElem?_setPhase hi, if_neg hki, hret]
  stored := h.stored
  puts := h.puts
  calls := h.calls

theorem Inv.advance {f : Phase → Option Phase} (h : Inv s)
    (hf : ∀ ph ph', f ph = some ph' → Keeps s.file ph ph') (hs : s.advance i f = some s') :
    Inv s' := by
  obtain ⟨ph, ph', hi, hph', rfl⟩ := advance_eq_some hs
  have hkeeps := hf ph ph' hph'
  have hsound := h.sound ph (List.mem_of_getElem? hi)
  exact h.setPhase hi hkeeps.unfinished (hkeeps.sound hsound) fun hlive e he =>
    hkeeps.allows e hsound (h.live i ph hlive hi e he)

theorem Inv.not_ready (h : Inv s) (hlive : s.leaderCancel = some i)
    (hi : s.bootstraps[i]? = some ph) (hne : ph ≠ .returned true) : s.ready ≠ true := by
  intro hready
  obtain ⟨k, hk, hret⟩ := h.loaded hready
  have hreign := (h.control.cancel i hlive).1
  obtain rfl : k = i := Option.some.inj (hk.symm.trans hreign)
  exact hne (Option.some.inj (hi.symm.trans hret))

theorem Inv.add {now : Time} (h : Inv s) (hlive : s.leaderCancel = some i)
    (hs : s.add i now = some s') : Inv s' := by
  obtain ⟨reg, memberID, l, hi, rfl⟩ := add_eq_some hs
  have hsound : LoadOk s.file l ∧ _ := h.sound _ (List.mem_of_getElem? hi)
  have hentries : ∀ e ∈ (s.nodes.add (reg.entry memberID now)).entries, l.Has s.file e := by
    intro e he
    rcases mem_add he with rfl | ⟨he, hne⟩
    · exact Or.inr hsound.2
    · exact h.live i _ hlive hi e he hne
  have hready := h.not_ready hlive hi nofun
  have hreign := (h.control.cancel i hlive).1
  refine ⟨h.control, fun x hx => ?_, fun k x hk hx => ?_, fun hr => absurd hr hready, ?_, h.puts,
    h.calls⟩
  · rcases List.mem_or_eq_of_mem_set hx with hx | rfl
    · exact h.sound x hx
    · exact hsound.1
  · obtain rfl : k = i := Option.some.inj (hk.symm.trans hlive)
    change (s.setPhase k (.checking l)).bootstraps[k]? = some x at hx
    rw [getElem?_setPhase hi, if_pos rfl] at hx
    cases hx
    exact hentries
  · rintro (hr | hnone)
    · exact absurd hr hready
    · rw [show s.reign = none from hnone] at hreign
      cases hreign

theorem Inv.write {outcome : Outcome} (h : Inv s) (hs : s.write i outcome = some s') : Inv s' := by
  obtain ⟨l, hi, hcases⟩ := write_eq_some hs
  have hsound : LoadOk s.file l := h.sound _ (List.mem_of_getElem? hi)
  rcases hcases with ⟨hmatch, rfl⟩ | rfl | rfl
  · have hgrows : Grows s.file (some l.mf) := by
      rw [hmatch]
      exact hsound.adds.grows
    have hgrown := h.setFile hgrows
    refine hgrown.setPhase hi nofun trivial fun hlive e he => ?_
    rcases hgrown.live i _ hlive hi e he with hin | hmem
    · exact hin
    · exact ⟨l.mf, rfl, hmem⟩
  · exact h.setPhase hi nofun trivial fun _ _ _ => trivial
  · exact (h.send hsound.adds).setPhase hi nofun trivial fun _ _ _ => trivial

theorem Inv.clearDeregistered (h : Inv s) (hs : s.clearDeregistered i = some s') : Inv s' := by
  obtain ⟨hi, rfl⟩ := clearDeregistered_eq_some hs
  have hnext : Inv (s.setPhase i .settingReady) :=
    h.setPhase hi nofun trivial fun hlive e he => h.live i _ hlive hi e he
  exact ⟨hnext.control, hnext.sound, hnext.live, hnext.loaded, hnext.stored, hnext.puts,
    hnext.calls⟩

theorem Inv.setReady (h : Inv s) (hlive : s.leaderCancel = some i)
    (hs : s.setReady i = some s') : Inv s' := by
  obtain ⟨hi, rfl⟩ := setReady_eq_some hs
  have hall : AllIn s.file s.nodes := fun e he => h.live i _ hlive hi e he
  have hnext : Inv (s.setPhase i (.returned true)) :=
    h.setPhase hi nofun trivial fun _ => hall
  refine ⟨hnext.control, hnext.sound, hnext.live, fun _ => ⟨i, ?_, ?_⟩, fun _ => hall, hnext.puts,
    hnext.calls⟩
  · exact (h.control.cancel i hlive).1
  · exact (getElem?_setPhase hi).trans (if_pos rfl)

/-! #### The callbacks of the election -/

theorem Inv.onAcquireLeadership (h : Inv s) (hidle : s.losing = .idle) :
    Inv s.onAcquireLeadership := by
  unfold Runner.onAcquireLeadership
  split_ifs with hleader
  · exact h
  · have hnone := h.control.reign_eq_none hleader
    have hall := h.stored (Or.inr hnone)
    have hready : s.ready ≠ true := by
      intro hready
      obtain ⟨k, hk, -⟩ := h.loaded hready
      rw [hnone] at hk
      cases hk
    refine ⟨?_, ?_, fun k ph hk hph => ?_, fun hr => absurd hr hready, fun _ => hall, h.puts,
      h.calls⟩
    · change Control _ _ true s.losing
      rw [hidle]
      exact Control.acquire _
    · intro ph hph
      rcases List.mem_append.mp hph with hold | hnew
      · exact h.sound ph hold
      · rw [List.mem_singleton.mp hnew]
        trivial
    · cases hk
      rw [List.getElem?_concat_length] at hph
      cases hph
      exact hall

theorem Inv.onLoseLeadership (h : Inv s) :
    Inv { s with leaderCancel := none, losing := .resetting } :=
  ⟨h.control.lose, h.sound, fun _ _ hk => (nomatch hk), h.loaded, h.stored, h.puts, h.calls⟩

theorem Inv.reset (h : Inv s) (hlosing : s.losing = .resetting) : Inv s.reset := by
  have hcontrol := h.control
  rw [hlosing] at hcontrol
  refine ⟨hcontrol.reset, h.sound, fun k ph hk => ?_, nofun, fun _ => allIn_empty, h.puts,
    h.calls⟩
  rw [show s.leaderCancel = some k from hk] at hcontrol
  cases hcontrol.leaderCancel_eq_none nofun

theorem Inv.setFollower (h : Inv s) (hlosing : s.losing = .settingFollower) :
    Inv { s with leader := false, losing := .idle } := by
  have hcontrol := h.control
  rw [hlosing] at hcontrol
  exact ⟨hcontrol.setFollower, h.sound, h.live, h.loaded, h.stored, h.puts, h.calls⟩

/-! #### The calls -/

theorem Inv.endRegistration (h : Inv s) : Inv (s.endRegistration i) :=
  h.setRegistrations fun c hc => h.calls c (List.mem_of_mem_eraseIdx hc)

theorem Inv.setRegistration {c : Registering} (h : Inv s) (hc : c.Sound s.file) :
    Inv (s.setRegistration i c) :=
  h.setRegistrations fun x hx =>
    (List.mem_or_eq_of_mem_set hx).elim (h.calls x) fun he => he ▸ hc

theorem Inv.registerNode (h : Inv s) (hs : s.registerNode reg = some s') : Inv s' := by
  obtain rfl := registerNode_eq_some hs
  refine ⟨h.control, h.sound, h.live, h.loaded, h.stored, h.puts, fun c hc => ?_⟩
  rcases List.mem_append.mp hc with hold | hnew
  · exact h.calls c hold
  · rw [List.mem_singleton.mp hnew]
    trivial

theorem Inv.registerReady (h : Inv s) (hs : s.registerReady i = some s') : Inv s' := by
  obtain ⟨reg, -, rfl | rfl⟩ := registerReady_eq_some hs
  · exact h.setRegistration trivial
  · exact h.endRegistration

theorem Inv.registerRead (h : Inv s) (hs : s.registerRead i ok = some s') : Inv s' := by
  obtain ⟨reg, attempts, -, rfl | ⟨mf, hmf, ⟨memberID, hfind, rfl⟩ | ⟨hfind, rfl⟩⟩⟩ :=
    registerRead_eq_some hs
  · exact h.endRegistration
  · exact h.setRegistration ⟨mf, hmf, findMemberID_eq_some.mp hfind⟩
  · refine h.setRegistration ⟨?_, mem_allocate.mpr (Or.inl rfl)⟩
    rintro _ ⟨⟩
    exact extends_allocate hfind

theorem Inv.registerWrite {outcome : Outcome} (h : Inv s)
    (hs : s.registerWrite i outcome = some s') : Inv s' := by
  obtain ⟨reg, attempts, newID, put, hi, hcases⟩ := registerWrite_eq_some hs
  have hcall : Adds put ∧ _ := h.calls _ (List.mem_of_getElem? hi)
  rcases hcases with ⟨hmatch, rfl⟩ | ⟨attempts', rfl⟩ | rfl
  · have hfile : put.apply s.file = some put.data := ConditionalPut.apply_of_eq hmatch
    have hgrows : Grows s.file (some put.data) := by
      rw [hmatch]
      exact hcall.1.grows
    rw [hfile]
    exact (h.setFile hgrows).setRegistration ⟨put.data, rfl, hcall.2⟩
  · exact (h.sent hcall.1 outcome).setRegistration trivial
  · exact (h.sent hcall.1 outcome).endRegistration

/-- `Add` of `RegisterNode`, at any time: its id is in `members.json`. -/
theorem Inv.registerAdd {now : Time} (h : Inv s) (hs : s.registerAdd i now = some s') :
    Inv s' := by
  obtain ⟨reg, memberID, hi, rfl⟩ := registerAdd_eq_some hs
  have hcall : ∃ mf ∈ s.file, _ := h.calls _ (List.mem_of_getElem? hi)
  refine (h.endRegistration (i := i)).setNodes fun e he => ?_
  rcases mem_add he with rfl | ⟨he, -⟩
  · exact Or.inl hcall
  · exact Or.inr ⟨e, he, rfl, rfl⟩

/-- The calls of `DeregisterNode` and the marks do not matter here. -/
theorem Inv.setDeregistrations {ds : List Deregistering} {marks out : List NodeID} (h : Inv s) :
    Inv { s with deregistrations := ds, deregistered := marks, out := out } :=
  ⟨h.control, h.sound, h.live, h.loaded, h.stored, h.puts, h.calls⟩

/-! ### Runs -/

theorem inv_step (h : Inv s) (hok : Uncancelled s a) (hs : step s a = some s') : Inv s' := by
  cases a with
  | onAcquireLeadership =>
    dsimp only [step] at hs
    split_ifs at hs with hidle
    cases hs
    exact h.onAcquireLeadership hidle
  | onLoseLeadership =>
    dsimp only [step] at hs
    split_ifs at hs
    cases hs
    exact h.onLoseLeadership
  | reset =>
    dsimp only [step] at hs
    split_ifs at hs with hlosing
    cases hs
    exact h.reset hlosing
  | setFollower =>
    dsimp only [step] at hs
    split_ifs at hs with hlosing
    cases hs
    exact h.setFollower hlosing
  | read i ok => exact h.advance (fun _ _ => keeps_read) hs
  | list i ok regs => exact h.advance (fun _ _ => keeps_list) hs
  | promote i ok => exact h.advance (fun _ _ => keeps_promote) hs
  | check i => exact h.advance (fun _ _ => keeps_check) hs
  | look i => exact h.advance (fun _ _ => keeps_look) hs
  | add i now => exact h.add (hok i rfl) hs
  | write i outcome => exact h.write hs
  | clearDeregistered i => exact h.clearDeregistered hs
  | setReady i => exact h.setReady (hok i rfl) hs
  | registerNode reg => exact h.registerNode hs
  | registerReady i => exact h.registerReady hs
  | registerRead i ok => exact h.registerRead hs
  | registerWrite i outcome => exact h.registerWrite hs
  | registerAdd i now => exact h.registerAdd hs
  | deregisterNode nodeID =>
    obtain rfl := deregisterNode_eq_some hs
    exact h.setDeregistrations
  | markDeregistered i =>
    obtain ⟨_, -, rfl⟩ := markDeregistered_eq_some hs
    exact h.setDeregistrations
  | remove i =>
    obtain ⟨_, -, rfl⟩ := remove_eq_some hs
    exact (h.sameIDs (sameIDs_remove _)).setDeregistrations
  | deregisterReturn i =>
    obtain ⟨_, -, rfl⟩ := deregisterReturn_eq_some hs
    exact h.setDeregistrations
  | sendHeartbeat nodeID now health primary latestRevision startTime =>
    cases hs
    exact h.sameIDs (sameIDs_modifyKey _ fun _ => rfl)
  | setHealthState nodeID health now =>
    cases hs
    exact h.sameIDs (sameIDs_modifyKey _ fun _ => rfl)
  | removeDegraded nodeID =>
    cases hs
    exact h.sameIDs (sameIDs_remove _)
  | otherElector mf =>
    dsimp only [step] at hs
    split_ifs at hs with hext
    cases hs
    exact h.setFile fun x hx => ⟨mf, rfl, hext x hx⟩
  | land i =>
    obtain ⟨put, hput, rfl⟩ := Option.map_eq_some_iff.mp hs
    have hland := h.setFile (h.puts put (List.mem_of_getElem? hput)).grows_apply
    exact ⟨hland.control, hland.sound, hland.live, hland.loaded, hland.stored,
      fun x hx => h.puts x (List.mem_of_mem_eraseIdx hx), hland.calls⟩

/-- **Reigns are isolated** in every run in which a bootstrap whose context is done adds no entry
and does not declare the map ready: a map that is ready was loaded by the bootstrap of the reign,
and the member id of every entry is the one in `members.json`. -/
theorem reigns_isolated (as : List Action) (s : Runner) (hok : Meets step Uncancelled {} as)
    (hrun : exec step {} as = some s) : Isolated s :=
  (exec_invariant (fun _ _ _ h hok hs => inv_step h hok hs) inv_new hok hrun).isolated

/-- A registration of the node. -/
def registrationOf (nodeID : NodeID) : NodeRegistration := ⟨nodeID, nodeID, nodeID⟩

/-- The node loses the leadership and acquires it again. -/
def newReign : List Action := [.onLoseLeadership, .reset, .setFollower, .onAcquireLeadership]

/-- The steps before the last ones of the bootstrap of a first Elector. -/
def firstBootstrap : List Action :=
  [.onAcquireLeadership, .read 0 true, .list 0 true [registrationOf "a"], .promote 0 true,
    .check 0, .add 0 1, .check 0, .write 0 .answered]

/-- The last steps of the `i`-th bootstrap. -/
def lastSteps (i : ℕ) : List Action := [.clearDeregistered i, .setReady i]

/-- The second bootstrap finds a new node. -/
def secondBootstrap : List Action :=
  [.read 1 true, .list 1 true [registrationOf "a", registrationOf "c"], .check 1, .look 1,
    .add 1 3, .check 1, .look 1, .add 1 4, .check 1, .write 1 .answered]

/-- Each bootstrap ends in its reign. -/
def twoReigns : List Action :=
  firstBootstrap ++ lastSteps 0 ++ newReign ++ secondBootstrap ++ lastSteps 1

theorem reigns_isolated_two : ∃ s, exec step {} twoReigns = some s ∧ s.ready = true ∧
    s.nodes.entries.map (fun e => (e.nodeID, e.memberID)) = [("c", 2), ("a", 1)] ∧
    Meets step Uncancelled {} twoReigns ∧ Isolated s := by
  have hok : Meets step Uncancelled {} twoReigns := by decide +kernel
  obtain ⟨s, hrun, hready, hids⟩ := exists_exec_of_any step {} twoReigns
    (fun s => s.ready = true ∧
      s.nodes.entries.map (fun e => (e.nodeID, e.memberID)) = [("c", 2), ("a", 1)])
    (by decide +kernel)
  exact ⟨s, hrun, hready, hids, hok, reigns_isolated twoReigns s hok hrun⟩

/-- The bootstrap of the first reign ends in the second. -/
def staleReady : List Action := firstBootstrap ++ newReign ++ lastSteps 0

/-- A bootstrap that found no `members.json` has given the node the id 1. -/
def beforeAdd : List Action :=
  [.onAcquireLeadership, .read 0 true, .list 0 true [registrationOf "a"], .promote 0 true,
    .check 0]

/-- The second bootstrap loads the id that another Elector has given the node, and then the first
one adds it with its own. -/
def loadedThenAdded : List Action :=
  [.otherElector ⟨[("b", 1), ("a", 2)], by decide⟩, .read 1 true,
    .list 1 true [registrationOf "a"], .check 1, .look 1, .add 1 2, .check 1, .clearDeregistered 1,
    .setReady 1, .add 0 3]

def staleAdd : List Action := beforeAdd ++ newReign ++ loadedThenAdded

/-- **A map that is ready, empty and not loaded; and an entry with the id of another node.** -/
theorem stale_bootstrap_readies_and_adds :
    (∃ s, exec step {} staleReady = some s ∧ s.ready = true ∧ s.reign = some 1 ∧
        s.bootstraps[1]? = some .reading ∧ s.nodes.entries = [] ∧ ¬ Isolated s) ∧
      ∃ s, exec step {} staleAdd = some s ∧ s.ready = true ∧ s.reign = some 1 ∧
        s.nodes.entries.map (fun e => (e.nodeID, e.memberID)) = [("a", 1)] ∧
        s.file.map KeyedMap.entries = some [("b", 1), ("a", 2)] ∧ ¬ Isolated s := by
  constructor
  · obtain ⟨s, hrun, hready, hreign, hphase, hempty⟩ := exists_exec_of_any step {} staleReady
      (fun s => s.ready = true ∧ s.reign = some 1 ∧ s.bootstraps[1]? = some .reading ∧
        s.nodes.entries = []) (by decide +kernel)
    refine ⟨s, hrun, hready, hreign, hphase, hempty, fun h => ?_⟩
    obtain ⟨k, hk, hret⟩ := h.loaded hready
    obtain rfl : 1 = k := Option.some.inj (hreign.symm.trans hk)
    cases hphase.symm.trans hret
  · obtain ⟨s, hrun, hready, hreign, hids, hfile⟩ := exists_exec_of_any step {} staleAdd
      (fun s => s.ready = true ∧ s.reign = some 1 ∧
        s.nodes.entries.map (fun e => (e.nodeID, e.memberID)) = [("a", 1)] ∧
        s.file.map KeyedMap.entries = some [("b", 1), ("a", 2)]) (by decide +kernel)
    refine ⟨s, hrun, hready, hreign, hids, hfile, fun h => ?_⟩
    obtain ⟨e, he, hid⟩ : ∃ e ∈ s.nodes.entries, (e.nodeID, e.memberID) = ("a", 1) :=
      List.mem_map.mp (by rw [hids]; exact List.mem_cons_self ..)
    obtain ⟨mf, hmf, hfind⟩ := h.stored hready e he
    rw [show s.file = some mf from hmf, Option.map_some, Option.some.injEq] at hfile
    have hmem := findMemberID_eq_some.mp hfind
    rw [hid, hfile] at hmem
    revert hmem
    decide

end Netsy.Elector.Reigns
