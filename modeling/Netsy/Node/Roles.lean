import Netsy.Lib.Run
import Netsy.Primary.Handover
import Netsy.Primary.PreflightStages

/-! # The role of a node

`ApplyClusterState` stores the cluster state and then moves the role of the node, the goroutines of
`runPreflight` make it Active, drains and recoveries take it back, and an Elector that loses its
leadership clears its view of the Primary. Each takes the lock of `nodestate.State` for one read or
one write only, so between a check and what follows from it the others may move: every such read or
write is a step of its own here. -/

namespace Netsy.Node.Roles

open Proto NodeState Lib.Run Primary.Preflight Primary.PreflightStages

/-! ### The goroutine of `runPreflight` -/

inductive Place
  /-- Before the state is looked at at the head of the loop. -/
  | top
  | pass (stage : Stage)
  /-- The pass has returned nil, `SetPrimary(Active)` is next. -/
  | passed
  /-- After an error, before the next round. -/
  | waiting
  /-- Before the deferred function. -/
  | returning
  | over
deriving DecidableEq, Repr

structure Preflight where
  place : Place := .top
  /-- Its context is cancelled. -/
  cancelled : Bool := false
  /-- When the steps of the pass were made. -/
  times : List ℕ := []
deriving DecidableEq, Repr

/-- One step of the goroutine: what becomes of it, of the role and of the data. After an error the
timer and the context decide, and so does the error if it is that of the context: that is what
`choice` stands for. -/
def Preflight.go (nodeID : NodeID) (env : Env) (choice : Bool) (clock : ℕ) (primary : PrimaryState)
    (data : Node) (p : Preflight) : Option (Preflight × PrimaryState × Node) :=
  match p.place with
  | .top =>
    if primary = .starting then
      some ({ p with place := .pass .readLocalRevision, times := [] }, primary, data)
    else some ({ p with place := .returning }, primary, data)
  | .pass stage =>
    match (ExceptT.run (stage.pass env nodeID p.cancelled primary)).run data with
    | (.ok (some next), data') =>
      some ({ p with place := .pass next, times := p.times ++ [clock] }, primary, data')
    | (.ok none, data') =>
      some ({ p with place := .passed, times := p.times ++ [clock] }, primary, data')
    | (.error e, data') =>
      let place := if e = .stopped || (choice && p.cancelled) then .returning else .waiting
      some ({ p with place := place }, primary, data')
  | .passed => some ({ p with place := .returning }, trySetPrimary primary .active, data)
  | .waiting =>
    if choice then some ({ p with place := .top }, primary, data)
    else if p.cancelled then some ({ p with place := .returning }, primary, data)
    else none
  | .returning => some ({ p with place := .over }, primary, data)
  | .over => none

/-! ### The node -/

/-- Where a call of `ApplyClusterState` stands, with the Primary of the state before it. -/
inductive Stand
  | readOld
  | setClusterState (old : NodeID)
  | checkReplica (old : NodeID)
  | setStarting (old : NodeID)
  | checkStarting (old : NodeID)
  | setReplica (old : NodeID)
  | notify (old : NodeID)
deriving DecidableEq, Repr

/-- The call is about to store the cluster state. -/
def Stand.stores : Stand → Bool
  | .setClusterState _ => true
  | _ => false

/-- The call is about to set Starting. -/
def Stand.starts : Stand → Bool
  | .setStarting _ => true
  | _ => false

/-- A call of `ApplyClusterState` for a cluster state with this Primary, `""` for none. -/
structure Call where
  primary : NodeID
  stand : Stand := .readOld
deriving DecidableEq, Repr

/-- Where a call of `ResignLeadership` stands. -/
inductive Resigning
  | setReplica | stopServices
deriving DecidableEq, Repr

structure State where
  primary : PrimaryState := .replica
  /-- `ClusterState().Primary.NodeID`. -/
  clusterPrimary : NodeID := ""
  /-- The call that has `applyMu`. -/
  applying : Option Call := none
  /-- The role change callback is set. -/
  wired : Bool := false
  /-- `svcCancel` is set. -/
  services : Bool := false
  /-- The preflight that `preflightCancel` cancels. -/
  preflightCancel : Option ℕ := none
  /-- Those started so far; their number is `preflightID`. -/
  preflights : List Preflight := []
  data : Node
  /-- How many transactions have been accepted and not been answered. -/
  txns : ℕ := 0
  /-- How many goroutines of `startObjectStorageRecovery` run. -/
  recoveries : ℕ := 0
  resigning : Option Resigning := none
  /-- The number of the next step. -/
  clock : ℕ := 1
  /-- When the node entered Starting the last time. -/
  entered : ℕ := 0
deriving DecidableEq

/-- A node that has just started. -/
def State.start (data : Node) : State := { data := data }

/-- `startPreflightLocked`. -/
def State.startPreflight (s : State) : State :=
  if s.preflightCancel.isSome then s
  else if s.primary ≠ .starting then s
  else
    { s with
      preflightCancel := some s.preflights.length, preflights := s.preflights ++ [{}] }

def State.startServices (s : State) : State :=
  if s.services then s else { s with services := true }.startPreflight

def Preflight.cancel (p : Preflight) : Preflight := { p with cancelled := true }

def State.stopPreflight (s : State) : State :=
  match s.preflightCancel with
  | none => s
  | some i => { s with preflightCancel := none, preflights := s.preflights.modify i .cancel }

/-- `StopServices`. The contexts of the preflights descend from that of the services. -/
def State.stopServices (s : State) : State :=
  let s := s.stopPreflight
  if s.services then { s with services := false, preflights := s.preflights.map .cancel } else s

/-- The callback on a change of the Primary. The Follower is not part of the role. -/
def State.onPrimaryChange (s : State) (isPrimary : Bool) : State :=
  if !s.wired then s else if isPrimary then s.startServices else s.stopServices

def State.requireActivePrimary (s : State) : Bool := s.primary = .active

/-- The running call of `ApplyClusterState` goes on. -/
def State.applyNext (nodeID : NodeID) (s : State) (c : Call) : State :=
  let isPrimary := c.primary == nodeID
  let goTo (s : State) (stand : Stand) : State := { s with applying := some { c with stand } }
  match c.stand with
  | .readOld => goTo s (.setClusterState s.clusterPrimary)
  | .setClusterState old => goTo { s with clusterPrimary := c.primary } (.checkReplica old)
  | .checkReplica old =>
    goTo s (if isPrimary && s.primary == .replica then .setStarting old else .checkStarting old)
  | .setStarting old =>
    goTo { s with primary := trySetPrimary s.primary .starting } (.checkStarting old)
  | .checkStarting old =>
    goTo s (if !isPrimary && s.primary == .starting then .setReplica old else .notify old)
  | .setReplica old => goTo { s with primary := trySetPrimary s.primary .replica } (.notify old)
  | .notify old =>
    let wasPrimary := old == nodeID
    let remotePrimaryAppeared := old == "" && c.primary != "" && !isPrimary
    let s := if wasPrimary != isPrimary || remotePrimaryAppeared then s.onPrimaryChange isPrimary
      else s
    { s with applying := none }

/-- The goroutine of the preflight `i` goes on. -/
def State.goPreflight (nodeID : NodeID) (s : State) (i : ℕ) (env : Env) (choice : Bool) :
    Option State :=
  (s.preflights[i]?).bind fun p =>
    (p.go nodeID env choice s.clock s.primary s.data).map fun (p', primary, data) =>
      { s with
        primary, data
        preflights := s.preflights.set i p'
        -- the deferred function of the last one clears `preflightCancel`
        preflightCancel :=
          if p.place = .returning ∧ i + 1 = s.preflights.length then none else s.preflightCancel }

inductive Action
  /-- `PushClusterState`, `pushClusterState` or the bootstrap takes `applyMu`. -/
  | apply (primary : NodeID)
  | applyNext
  /-- `SetPrimaryChangeFunc`, and the services of a node that is the Primary already. -/
  | wire
  /-- `onLoseLeadership`. -/
  | loseLeadership
  | preflight (i : ℕ) (env : Env) (choice : Bool)
  /-- `SetPrimary(Draining)`, by `GracefulDrain`, the chunk buffer or a failed commit. -/
  | drain
  /-- `LeaderTxn` comes past `requireActivePrimary`. -/
  | acceptTxn
  /-- A transaction is answered, or its upload fails and `startObjectStorageRecovery` is called. -/
  | answerTxn (uploadFailed : Bool)
  /-- The upload of a recovery succeeds. -/
  | recover
  | resignLeadership
  /-- The rest of the node and the rest of the cluster change the data. -/
  | others (data : Node)

def act (nodeID : NodeID) (s : State) : Action → Option State
  | .apply primary =>
    if s.applying.isSome then none else some { s with applying := some { primary } }
  | .applyNext => s.applying.map (s.applyNext nodeID)
  | .wire =>
    if s.wired then none
    else
      some (if s.clusterPrimary = nodeID then { s with wired := true }.startServices
        else { s with wired := true })
  | .loseLeadership => some { s with clusterPrimary := "" }
  | .preflight i env choice => s.goPreflight nodeID i env choice
  | .drain => some { s with primary := trySetPrimary s.primary .draining }
  | .acceptTxn => if s.requireActivePrimary then some { s with txns := s.txns + 1 } else none
  | .answerTxn uploadFailed =>
    if s.txns = 0 then none
    else if uploadFailed then
      some { s with
        txns := s.txns - 1, recoveries := s.recoveries + 1
        primary := if s.primary = .active then .draining else s.primary }
    else some { s with txns := s.txns - 1 }
  | .recover =>
    if s.recoveries = 0 then none
    else
      some { s with
        recoveries := s.recoveries - 1, primary := trySetPrimary s.primary .replica }
  | .resignLeadership =>
    match s.resigning with
    | none => if s.primary = .draining then some { s with resigning := some .setReplica } else none
    | some .setReplica =>
      some { s with
        primary := trySetPrimary s.primary .replica
        resigning := (setPrimary s.primary .replica).map fun _ => .stopServices }
    | some .stopServices => some { s.stopServices with resigning := none }
  | .others data => some { s with data }

/-- An action, with its time and the time of the last entry into Starting. -/
def step (nodeID : NodeID) (s : State) (a : Action) : Option State :=
  (act nodeID s a).map fun s' =>
    { s' with
      clock := s.clock + 1
      entered := if s.primary ≠ .starting ∧ s'.primary = .starting then s.clock else s.entered }

variable {nodeID : NodeID} {s s' : State} {a : Action} {as : List Action} {data : Node}
variable {env : Env} {choice : Bool} {i : ℕ} {p p' : Preflight} {c : Call}

/-! ### The services leave the role -/

/-- What the steps of the services and the data do not touch. -/
def State.role (s : State) : PrimaryState × NodeID × Option Call :=
  (s.primary, s.clusterPrimary, s.applying)

theorem primary_of_role (h : s'.role = s.role) : s'.primary = s.primary := congrArg Prod.fst h

theorem role_startServices : s.startServices.role = s.role := by
  unfold State.startServices State.startPreflight
  split_ifs <;> rfl

theorem role_stopServices : s.stopServices.role = s.role := by
  unfold State.stopServices State.stopPreflight
  dsimp only
  split <;> split_ifs <;> rfl

theorem role_onPrimaryChange {isPrimary : Bool} : (s.onPrimaryChange isPrimary).role = s.role := by
  unfold State.onPrimaryChange
  split_ifs
  · rfl
  · exact role_startServices
  · exact role_stopServices

theorem role_goPreflight (hs : s.goPreflight nodeID i env choice = some s') :
    s'.role = s.role ∨ (∃ p, s.preflights[i]? = some p ∧ p.place = .passed) ∧
      s.primary = .starting ∧ s'.role = (.active, s.clusterPrimary, s.applying) := by
  obtain ⟨p, hp, hs⟩ := Option.bind_eq_some_iff.mp hs
  obtain ⟨⟨p', primary, data⟩, hgo, rfl⟩ := Option.map_eq_some_iff.mp hs
  unfold Preflight.go at hgo
  split at hgo
  · split_ifs at hgo <;> cases hgo <;> exact Or.inl rfl
  · split at hgo <;> cases hgo <;> exact Or.inl rfl
  · next hplace =>
    cases hgo
    unfold State.role
    dsimp only
    rw [trySetPrimary_active]
    split_ifs with hstarting
    · exact Or.inr ⟨⟨p, hp, hplace⟩, hstarting, rfl⟩
    · exact Or.inl rfl
  · split_ifs at hgo <;> cases hgo <;> exact Or.inl rfl
  · cases hgo
    exact Or.inl rfl
  · cases hgo

/-! ### The preflights that the services start and cancel -/

def Served (ps ps' : List Preflight) : Prop :=
  ∀ p' ∈ ps', p' ∈ ps ∨ p' = {} ∨ ∃ p ∈ ps, p' = p.cancel

theorem Served.refl (ps : List Preflight) : Served ps ps := fun _ hp => Or.inl hp

theorem served_startServices : Served s.preflights s.startServices.preflights := by
  unfold State.startServices State.startPreflight
  split_ifs
  · exact Served.refl _
  · exact Served.refl _
  · exact Served.refl _
  · intro p hp
    rcases List.mem_append.mp hp with hp | hp
    · exact Or.inl hp
    · exact Or.inr (Or.inl (List.mem_singleton.mp hp))

theorem served_stopServices : Served s.preflights s.stopServices.preflights := by
  have hstop : ∀ p ∈ s.stopPreflight.preflights, p ∈ s.preflights ∨
      ∃ q ∈ s.preflights, p = q.cancel := by
    unfold State.stopPreflight
    split
    · exact fun p hp => Or.inl hp
    · intro p hp
      obtain ⟨j, hj⟩ := List.mem_iff_getElem?.mp hp
      rw [List.getElem?_modify] at hj
      obtain ⟨q, hq, rfl⟩ := Option.map_eq_some_iff.mp hj
      have hmem := List.mem_of_getElem? hq
      split_ifs
      · exact Or.inr ⟨q, hmem, rfl⟩
      · exact Or.inl hmem
  unfold State.stopServices
  dsimp only
  split_ifs
  · intro p hp
    obtain ⟨q, hq, rfl⟩ := List.mem_map.mp hp
    rcases hstop q hq with hq | ⟨q', hq', rfl⟩
    · exact Or.inr (Or.inr ⟨q, hq, rfl⟩)
    · exact Or.inr (Or.inr ⟨q', hq', rfl⟩)
  · intro p hp
    exact (hstop p hp).imp_right Or.inr

theorem served_onPrimaryChange {isPrimary : Bool} :
    Served s.preflights (s.onPrimaryChange isPrimary).preflights := by
  unfold State.onPrimaryChange
  split_ifs
  · exact Served.refl _
  · exact served_startServices
  · exact served_stopServices

theorem served_applyNext : Served s.preflights (s.applyNext nodeID c).preflights := by
  unfold State.applyNext
  dsimp only
  split
  case h_7 =>
    split_ifs
    · exact served_onPrimaryChange
    · exact Served.refl _
  all_goals exact Served.refl _

/-! ### What an action does -/

inductive Effect (nodeID : NodeID) (s s' : State) : Action → Prop
  | keep {a : Action} : s'.role = s.role → Served s.preflights s'.preflights → Effect nodeID s s' a
  /-- The node becomes a Replica or starts to drain. -/
  | giveUp {a : Action} {q : PrimaryState} : q = .replica ∨ q = .draining →
    s'.role = (q, s.clusterPrimary, s.applying) → s'.preflights = s.preflights →
    Effect nodeID s s' a
  | call {primary : NodeID} : s.applying = none →
    s'.role = (s.primary, s.clusterPrimary, some { primary }) → s'.preflights = s.preflights →
    Effect nodeID s s' (.apply primary)
  | next {c : Call} : s.applying = some c → s' = s.applyNext nodeID c →
    Effect nodeID s s' .applyNext
  | forget : s'.role = (s.primary, "", s.applying) → s'.preflights = s.preflights →
    Effect nodeID s s' .loseLeadership
  | go {i : ℕ} {env : Env} {choice : Bool} : s.goPreflight nodeID i env choice = some s' →
    Effect nodeID s s' (.preflight i env choice)

theorem effect_trySet {q : PrimaryState} (hq : q = .replica ∨ q = .draining)
    (hr : s'.role = (trySetPrimary s.primary q, s.clusterPrimary, s.applying))
    (hp : s'.preflights = s.preflights) : Effect nodeID s s' a := by
  rcases trySetPrimary_eq_or s.primary q with he | he <;> rw [he] at hr
  · exact .keep hr (hp ▸ Served.refl _)
  · exact .giveUp hq hr hp

theorem effect_of_act (hact : act nodeID s a = some s') : Effect nodeID s s' a := by
  have hrefl := Served.refl s.preflights
  cases a with
  | apply primary =>
    simp only [act] at hact
    split_ifs at hact with hidle
    cases hact
    exact .call (Option.not_isSome_iff_eq_none.mp hidle) rfl rfl
  | applyNext =>
    obtain ⟨c, hc, rfl⟩ := Option.map_eq_some_iff.mp hact
    exact .next hc rfl
  | wire =>
    simp only [act] at hact
    split_ifs at hact <;> cases hact
    · exact .keep role_startServices served_startServices
    · exact .keep rfl hrefl
  | loseLeadership =>
    cases hact
    exact .forget rfl rfl
  | preflight i env choice => exact .go hact
  | drain =>
    cases hact
    exact effect_trySet (Or.inr rfl) rfl rfl
  | acceptTxn =>
    simp only [act] at hact
    split_ifs at hact
    cases hact
    exact .keep rfl hrefl
  | answerTxn uploadFailed =>
    simp only [act] at hact
    split_ifs at hact <;> cases hact
    · exact .giveUp (Or.inr rfl) rfl rfl
    · exact .keep rfl hrefl
    · exact .keep rfl hrefl
  | recover =>
    simp only [act] at hact
    split_ifs at hact
    cases hact
    exact effect_trySet (Or.inl rfl) rfl rfl
  | resignLeadership =>
    simp only [act] at hact
    split at hact
    · split_ifs at hact
      cases hact
      exact .keep rfl hrefl
    · cases hact
      exact effect_trySet (Or.inl rfl) rfl rfl
    · cases hact
      exact .keep role_stopServices served_stopServices
  | others data =>
    cases hact
    exact .keep rfl hrefl

/-! ### How the role moves -/

inductive Moves (s s' : State) (a : Action) : Prop
  | keep : s'.primary = s.primary → Moves s s' a
  | giveUp : s'.primary = .replica ∨ s'.primary = .draining → Moves s s' a
  /-- `ApplyClusterState` sets Starting. -/
  | enter {c : Call} : a = .applyNext → s.applying = some c → c.stand.starts = true →
    s.primary = .replica → s'.preflights = s.preflights → s'.primary = .starting → Moves s s' a
  /-- A preflight sets Active. -/
  | activate {i : ℕ} {env : Env} {choice : Bool} {p : Preflight} : a = .preflight i env choice →
    s.preflights[i]? = some p → p.place = .passed → s.primary = .starting →
    s'.primary = .active → Moves s s' a

theorem moves_applyNext (hc : s.applying = some c) :
    Moves s (s.applyNext nodeID c) .applyNext := by
  obtain ⟨next, stand⟩ := c
  cases stand with
  | setStarting old =>
    by_cases hreplica : s.primary = .replica
    · have hp : trySetPrimary s.primary .starting = .starting := by rw [hreplica]; rfl
      exact .enter rfl hc rfl hreplica rfl hp
    · have hp : trySetPrimary s.primary .starting = s.primary :=
        (trySetPrimary_starting _).trans (if_neg hreplica)
      exact .keep hp
  | setReplica old =>
    rcases trySetPrimary_eq_or s.primary .replica with he | he
    · exact .keep he
    · exact .giveUp (Or.inl he)
  | notify old =>
    refine .keep ?_
    simp only [State.applyNext]
    split_ifs
    · exact primary_of_role role_onPrimaryChange
    · rfl
  | _ => exact .keep rfl

theorem moves_of_act (hact : act nodeID s a = some s') : Moves s s' a := by
  cases effect_of_act hact with
  | keep hr _ => exact .keep (primary_of_role hr)
  | giveUp hq hr _ =>
    have hp : s'.primary = _ := congrArg Prod.fst hr
    exact .giveUp (hp ▸ hq)
  | call _ hr _ => exact .keep (congrArg Prod.fst hr)
  | next hc hs =>
    subst hs
    exact moves_applyNext hc
  | forget hr _ => exact .keep (congrArg Prod.fst hr)
  | go hs =>
    rcases role_goPreflight hs with hr | ⟨⟨p, hp, hplace⟩, hstarting, hr⟩
    · exact .keep (primary_of_role hr)
    · exact .activate rfl hp hplace hstarting (congrArg Prod.fst hr)

/-! ### One role, one view -/

/-- Starting or Active. -/
def Leads (p : PrimaryState) : Prop := p = .starting ∨ p = .active

instance (p : PrimaryState) : Decidable (Leads p) := inferInstanceAs (Decidable (_ ∨ _))

/-- A node that leads is the Primary of its own view, or a running call is about to see to it. -/
def Agrees (nodeID : NodeID) (primary : PrimaryState) (clusterPrimary : NodeID) :
    Option Call → Prop
  | some ⟨next, .checkReplica _⟩ | some ⟨next, .checkStarting _⟩ =>
    if next = nodeID then clusterPrimary = nodeID else primary ≠ .active
  | some ⟨next, .setStarting _⟩ => next = nodeID ∧ clusterPrimary = nodeID
  | some ⟨next, .setReplica _⟩ => next ≠ nodeID ∧ primary ≠ .active
  | _ => Leads primary → clusterPrimary = nodeID

/-- The node is not Active when it is told of another Primary, no preflight makes it Active during a
call that tells it so, and the Elector on the node loses its leadership when the node does not lead
and is not being told to. -/
def Yields (nodeID : NodeID) (s : State) : Action → Prop
  | .applyNext => ∀ c ∈ s.applying, c.stand.stores = true → c.primary ≠ nodeID →
      s.primary ≠ .active
  | .preflight i _ _ => ∀ p ∈ s.preflights[i]?, p.place = .passed → s.primary = .starting →
      ∀ c ∈ s.applying, c.primary = nodeID
  | .loseLeadership => ¬ Leads s.primary ∧ ∀ c ∈ s.applying, c.primary ≠ nodeID
  | _ => True

instance (nodeID : NodeID) (s : State) : ∀ a, Decidable (Yields nodeID s a) := by
  intro a
  unfold Yields
  split <;> infer_instance

variable {primary primary' : PrimaryState} {view : NodeID} {call : Option Call}

theorem Agrees.giveUp (h : Agrees nodeID primary view call) (hp : ¬ Leads primary') :
    Agrees nodeID primary' view call := by
  have hactive : primary' ≠ .active := fun h => hp (Or.inr h)
  unfold Agrees at h ⊢
  split
  · split_ifs with hn
    · exact (if_pos hn).mp h
    · exact hactive
  · split_ifs with hn
    · exact (if_pos hn).mp h
    · exact hactive
  · exact h
  · exact ⟨h.1, hactive⟩
  · exact fun hl => absurd hl hp

theorem Agrees.forget (h : Agrees nodeID primary view call) (hp : ¬ Leads primary)
    (hc : ∀ c ∈ call, c.primary ≠ nodeID) {view' : NodeID} :
    Agrees nodeID primary view' call := by
  have hactive : primary ≠ .active := fun h => hp (Or.inr h)
  unfold Agrees at h ⊢
  split
  · exact (if_neg (hc _ rfl)).mpr hactive
  · exact (if_neg (hc _ rfl)).mpr hactive
  · exact absurd h.1 (hc _ rfl)
  · exact h
  · exact fun hl => absurd hl hp

/-- A Starting node that is not being told of another Primary may become Active. -/
theorem Agrees.activate (h : Agrees nodeID .starting view call)
    (hc : ∀ c ∈ call, c.primary = nodeID) : Agrees nodeID .active view call := by
  rcases call with _ | ⟨next, stand⟩
  · exact fun _ => h (Or.inl rfl)
  have hn : next = nodeID := hc _ rfl
  cases stand with
  | checkReplica old => exact (if_pos hn).mpr ((if_pos hn).mp h)
  | checkStarting old => exact (if_pos hn).mpr ((if_pos hn).mp h)
  | setStarting old => exact h
  | setReplica old => exact absurd hn h.1
  | _ => exact fun _ => h (Or.inl rfl)

theorem agrees_of_role (h : Agrees nodeID primary view call) (hr : s.role = (primary, view, call)) :
    Agrees nodeID s.primary s.clusterPrimary s.applying := by
  obtain ⟨rfl, rfl, rfl⟩ : s.primary = primary ∧ s.clusterPrimary = view ∧ s.applying = call := by
    simpa [State.role] using hr
  exact h

theorem agrees_applyNext (h : Agrees nodeID s.primary s.clusterPrimary (some c))
    (hok : c.stand.stores = true → c.primary ≠ nodeID → s.primary ≠ .active) :
    Agrees nodeID (s.applyNext nodeID c).primary (s.applyNext nodeID c).clusterPrimary
      (s.applyNext nodeID c).applying := by
  obtain ⟨next, stand⟩ := c
  cases stand with
  | readOld => exact h
  | setClusterState old =>
    by_cases hn : next = nodeID
    · exact (if_pos hn).mpr hn
    · exact (if_neg hn).mpr (hok rfl hn)
  | checkReplica old =>
    by_cases hc : (next == nodeID && s.primary == .replica) = true
    · have hn : next = nodeID := by simpa using (Bool.and_eq_true_iff.mp hc).1
      have hview : s.clusterPrimary = nodeID := (if_pos hn).mp h
      simp only [State.applyNext, hc, if_true]
      exact ⟨hn, hview⟩
    · simp only [State.applyNext, if_neg hc]
      exact h
  | setStarting old => exact (if_pos h.1).mpr h.2
  | checkStarting old =>
    by_cases hn : next = nodeID
    · have hview : s.clusterPrimary = nodeID := (if_pos hn).mp h
      simp only [State.applyNext, hn, beq_self_eq_true, Bool.not_true, Bool.false_and,
        Bool.false_eq_true, if_false]
      exact fun _ => hview
    · have hactive : s.primary ≠ .active := (if_neg hn).mp h
      by_cases hstarting : s.primary = .starting
      · simp only [State.applyNext, beq_eq_false_iff_ne.mpr hn, hstarting, beq_self_eq_true,
          Bool.not_false, Bool.and_self, if_true]
        exact ⟨hn, by decide⟩
      · simp only [State.applyNext, beq_eq_false_iff_ne.mpr hstarting, Bool.and_false,
          Bool.false_eq_true, if_false]
        exact fun hl => absurd hl (not_or.mpr ⟨hstarting, hactive⟩)
  | setReplica old =>
    obtain ⟨-, hactive⟩ := h
    have hgiven : ¬ Leads (trySetPrimary s.primary .replica) := by
      cases hp : s.primary with
      | active => exact absurd hp hactive
      | _ => decide
    exact fun hl => absurd hl hgiven
  | notify old =>
    have hrole : ∀ isPrimary, (s.onPrimaryChange isPrimary).role = s.role := fun _ =>
      role_onPrimaryChange
    simp only [State.role, Prod.mk.injEq] at hrole
    simp only [State.applyNext]
    split_ifs
    · rw [(hrole _).1, (hrole _).2.1]
      exact h
    · exact h

theorem agrees_step (h : Agrees nodeID s.primary s.clusterPrimary s.applying)
    (hok : Yields nodeID s a) (hs : step nodeID s a = some s') :
    Agrees nodeID s'.primary s'.clusterPrimary s'.applying := by
  obtain ⟨s1, hact, rfl⟩ := Option.map_eq_some_iff.mp hs
  change Agrees nodeID s1.primary s1.clusterPrimary s1.applying
  cases effect_of_act hact with
  | keep hr _ => exact agrees_of_role h hr
  | giveUp hq hr _ =>
    refine agrees_of_role (h.giveUp ?_) hr
    rcases hq with rfl | rfl <;> decide
  | call hidle hr _ =>
    rw [hidle] at h
    have hcalled : ∀ next, Agrees nodeID s.primary s.clusterPrimary (some ⟨next, .readOld⟩) :=
      fun _ => h
    exact agrees_of_role (hcalled _) hr
  | next hc hnext =>
    subst hnext
    rw [hc] at h
    exact agrees_applyNext h (hok _ hc)
  | forget hr _ => exact agrees_of_role (h.forget hok.1 hok.2) hr
  | go hgo =>
    rcases role_goPreflight hgo with hr | ⟨⟨p, hp, hplace⟩, hstarting, hr⟩
    · exact agrees_of_role h hr
    · rw [hstarting] at h
      exact agrees_of_role (h.activate (hok p hp hplace hstarting)) hr

/-- **One role, one view**: whenever no call of `ApplyClusterState` runs, a node that is Starting or
Active has itself as the Primary, so one that has not accepts no transaction. -/
theorem one_role_one_view (hok : Meets (step nodeID) (Yields nodeID) (.start data) as)
    (hrun : exec (step nodeID) (.start data) as = some s) (hidle : s.applying = none) :
    (Leads s.primary → s.clusterPrimary = nodeID) ∧
      (s.clusterPrimary ≠ nodeID → step nodeID s .acceptTxn = none) := by
  have hstart : Agrees nodeID (State.start data).primary (State.start data).clusterPrimary
      (State.start data).applying := fun hl => absurd hl (by decide : ¬ Leads .replica)
  have hinv := exec_invariant (fun _ _ _ h hok hs => agrees_step h hok hs) hstart hok hrun
  rw [hidle] at hinv
  refine ⟨hinv, fun hview => ?_⟩
  have hactive : s.requireActivePrimary = false :=
    decide_eq_false fun h => hview (hinv (Or.inr h))
  simp [step, act, hactive]

/-! ### Runs -/

/-- A call of `ApplyClusterState` that nothing interrupts, in `rounds` steps. -/
def applies (primary : NodeID) (rounds : ℕ) : List Action :=
  .apply primary :: List.replicate rounds .applyNext

/-- The next steps of the preflight `i`. -/
def goes (i rounds : ℕ) : List Action :=
  List.replicate rounds (.preflight i (Primary.Handover.faultless 10) true)

/-- A node with one record and an empty object storage. -/
def oneRecord : Node :=
  Primary.Handover.nodeWith
    ⟨[{ revision := 1, key := [97], created := true }], by decide, by decide⟩ .empty

/-- The node `"n1"` is elected, superseded during its preflight, elected again and Active. -/
def reelected : List Action :=
  .wire :: applies "n1" 6 ++ goes 0 4 ++ applies "n2" 6 ++ applies "n1" 6 ++ goes 1 17

theorem one_role_one_view_reelected : ∃ s,
    exec (step "n1") (.start oneRecord) reelected = some s ∧ s.primary = .active ∧
      s.clusterPrimary = "n1" := by
  have hok : Meets (step "n1") (Yields "n1") (.start oneRecord) reelected := by decide +kernel
  obtain ⟨s, hrun, hidle, hactive⟩ := exists_exec_of_any (step "n1") (.start oneRecord) reelected
    (fun s => s.applying = none ∧ s.primary = .active) (by decide +kernel)
  exact ⟨s, hrun, hactive, (one_role_one_view hok hrun hidle).1 (Or.inr hactive)⟩

/-- An Active node is told that `"n2"` is the Primary, and goes on accepting transactions; so does
one whose Elector loses its leadership, and one that became Active between the check of
`ApplyClusterState` and its `SetPrimary(Replica)`. -/
theorem superseded_node_stays_active :
    (∃ s, exec (step "n1") (.start oneRecord)
        (.wire :: applies "n1" 6 ++ goes 0 17 ++ applies "n2" 5) = some s ∧ s.applying = none ∧
      s.primary = .active ∧ s.clusterPrimary = "n2" ∧ (step "n1" s .acceptTxn).isSome) ∧
    (∃ s, exec (step "n1") (.start oneRecord)
        (.wire :: applies "n1" 6 ++ goes 0 17 ++ [.loseLeadership]) = some s ∧
      s.applying = none ∧ s.primary = .active ∧ s.clusterPrimary = "" ∧
      (step "n1" s .acceptTxn).isSome) ∧
    ∃ s, exec (step "n1") (.start oneRecord)
        (.wire :: applies "n1" 6 ++ goes 0 16 ++ applies "n2" 4 ++ goes 0 1 ++
          [.applyNext, .applyNext]) = some s ∧
      s.applying = none ∧ s.primary = .active ∧ s.clusterPrimary = "n2" ∧
      (step "n1" s .acceptTxn).isSome := by
  refine ⟨?_, ?_, ?_⟩
  · exact exists_exec_of_any (step "n1") (.start oneRecord) _ (fun s => s.applying = none ∧
      s.primary = .active ∧ s.clusterPrimary = "n2" ∧ (step "n1" s .acceptTxn).isSome)
      (by decide +kernel)
  · exact exists_exec_of_any (step "n1") (.start oneRecord) _ (fun s => s.applying = none ∧
      s.primary = .active ∧ s.clusterPrimary = "" ∧ (step "n1" s .acceptTxn).isSome)
      (by decide +kernel)
  · exact exists_exec_of_any (step "n1") (.start oneRecord) _ (fun s => s.applying = none ∧
      s.primary = .active ∧ s.clusterPrimary = "n2" ∧ (step "n1" s .acceptTxn).isSome)
      (by decide +kernel)

end Netsy.Node.Roles
