import Netsy.Node.Roles

/-! # The services of a role

The callback on a change of the Primary starts and stops the Follower and the services of a Primary.
`ApplyClusterState` calls it when the Primary it stores and the Primary before it tell the node
different things, whatever the role of the node is. The callback is set at the end of the startup:
before that the bootstrap looks at the Primary to start the Follower, and after it the Primary is
looked at once more to start its services. -/

namespace Netsy.Node.RoleServices

open Proto NodeState Lib.Run Primary.Preflight Primary.PreflightStages Node.Roles

def needsFollowStream (nodeID clusterPrimary : NodeID) : Bool :=
  clusterPrimary != "" && clusterPrimary != nodeID

/-- How far the startup has come. -/
inductive Wiring
  | loading
  /-- The bootstrap has looked at the Primary. -/
  | decided (follow : Bool)
  /-- The Follower has been started or stopped accordingly. -/
  | followed
  /-- `SetPrimaryChangeFunc` has returned. -/
  | callbackSet
  /-- The last check has found the node to be the Primary. -/
  | starting
  | complete
deriving DecidableEq, Repr

/-- The callback is set. -/
def Wiring.wired : Wiring → Bool
  | .loading => false
  | .decided _ => false
  | .followed => false
  | _ => true

/-- The bootstrap has looked at the Primary and the startup is not complete. -/
def Wiring.settles : Wiring → Bool
  | .loading => false
  | .complete => false
  | _ => true

structure State where
  node : Roles.State
  /-- The loop of the Follower runs. -/
  follower : Bool := false
  wiring : Wiring := .loading
  /-- How many preflights had been started when the node entered Starting the last time. -/
  before : ℕ := 0
deriving DecidableEq

def State.start (data : Node) : State := { node := .start data }

inductive Action
  /-- The role of the node and all that moves it. -/
  | role (a : Roles.Action)
  /-- The bootstrap looks at the Primary, -/
  | needsFollowStream
  /-- starts or stops the Follower, -/
  | follow
  /-- and does it all over if the local database is not intact. -/
  | integrityFailed
  | setPrimaryChangeFunc
  /-- The last check of the startup -/
  | checkPrimary
  /-- and what follows from it. -/
  | startPrimary

/-- The callback is called if the Primary changes in this way. -/
def changes (nodeID old primary : NodeID) : Bool :=
  (old == nodeID) != (primary == nodeID) || (old == "" && primary != "" && !(primary == nodeID))

/-- The argument of the callback, if the action calls it. -/
def called (nodeID : NodeID) (n : Roles.State) : Roles.Action → Option Bool
  | .applyNext =>
    match n.applying with
    | some ⟨primary, .notify old⟩ =>
      if n.wired && changes nodeID old primary then some (primary == nodeID) else none
    | _ => none
  | _ => none

/-- A new reign begins. -/
def enters (n n' : Roles.State) : Prop := n.primary ≠ .starting ∧ n'.primary = .starting

instance (n n' : Roles.State) : Decidable (enters n n') := inferInstanceAs (Decidable (_ ∧ _))

def step (nodeID : NodeID) (s : State) : Action → Option State
  -- the steps below take its place
  | .role .wire => none
  | .role a =>
    (Roles.step nodeID s.node a).map fun n =>
      { s with
        node := n
        -- the Follower is stopped for a Primary and started for any other node
        follower := (called nodeID s.node a).elim s.follower (!·)
        before := if enters s.node n then s.node.preflights.length else s.before }
  | .needsFollowStream =>
    if s.wiring = .loading then
      some { s with wiring := .decided (needsFollowStream nodeID s.node.clusterPrimary) }
    else none
  | .follow =>
    match s.wiring with
    | .decided follow => some { s with follower := follow, wiring := .followed }
    | _ => none
  | .integrityFailed =>
    if s.wiring = .followed then some { s with follower := false, wiring := .loading } else none
  | .setPrimaryChangeFunc =>
    if s.wiring = .followed then
      some { s with node := { s.node with wired := true }, wiring := .callbackSet }
    else none
  | .checkPrimary =>
    if s.wiring = .callbackSet then
      some { s with wiring := if s.node.clusterPrimary = nodeID then .starting else .complete }
    else none
  | .startPrimary =>
    if s.wiring = .starting then
      some { s with node := s.node.startServices, wiring := .complete }
    else none

/-- The goroutine is not cancelled and will not return by itself while the node is Starting. -/
def Runs (p : Preflight) : Prop := p.cancelled = false ∧ p.place ≠ .returning ∧ p.place ≠ .over

instance (p : Preflight) : Decidable (Runs p) := inferInstanceAs (Decidable (_ ∧ _))

/-- A preflight of the current reign runs. -/
def Running (before : ℕ) (ps : List Preflight) : Prop := ∃ p ∈ ps.drop before, Runs p

/-- The Primary that a call has read before it stores another one. -/
def oldPrimary : Stand → NodeID
  | .readOld => ""
  | .setClusterState old => old
  | .checkReplica old => old
  | .setStarting old => old
  | .checkStarting old => old
  | .setReplica old => old
  | .notify old => old

/-- **The steps that leave nothing behind.** No cluster state is applied between the look of the
bootstrap at the Primary and the end of the startup, and no Elector on the node takes a Primary
back before that end which is this node. Afterwards the node enters Starting only if it was not the
Primary before and the services of an earlier reign have been stopped, and a resignation does not
stop the services of a reign that has begun since. -/
def Orderly (nodeID : NodeID) (s : State) : Action → Prop
  | .needsFollowStream => s.node.applying = none
  | .role (.apply _) => s.wiring.settles = false
  | .role .applyNext =>
    s.wiring = .complete → s.node.primary = .replica → ∀ c ∈ s.node.applying,
      c.stand.starts = true → oldPrimary c.stand ≠ nodeID ∧ s.node.services = false
  | .role .loseLeadership =>
    s.wiring = .complete ∨ ¬ Leads s.node.primary ∧ ∀ c ∈ s.node.applying, c.primary ≠ nodeID
  | .role .resignLeadership => s.node.resigning = some .stopServices → s.node.primary ≠ .starting
  | _ => True

instance (nodeID : NodeID) (s : State) : ∀ a, Decidable (Orderly nodeID s a) := by
  intro a
  unfold Orderly
  split <;> infer_instance

variable {nodeID : NodeID} {s s' : State} {a : Action} {as : List Action} {data data' : Node}
variable {n n' : Roles.State} {b : Roles.Action} {ps : List Preflight} {p p' : Preflight} {c : Call}
variable {env : Env} {choice : Bool} {i clock before : ℕ} {primary' : PrimaryState}

/-! ### One preflight -/

theorem Runs.go (h : Runs p)
    (hgo : p.go nodeID env choice clock .starting data = some (p', primary', data')) :
    Runs p' ∨ primary' ≠ .starting := by
  obtain ⟨hlive, hreturning, hover⟩ := h
  unfold Preflight.go at hgo
  split at hgo
  · rw [if_pos rfl] at hgo
    cases hgo
    exact Or.inl ⟨hlive, by simp, by simp⟩
  · next stage hplace =>
    split at hgo
    · cases hgo
      exact Or.inl ⟨hlive, by simp, by simp⟩
    · cases hgo
      exact Or.inl ⟨hlive, by simp, by simp⟩
    · next e data1 hrun =>
      cases hgo
      rw [hlive] at hrun
      have hne : e ≠ .stopped := by
        rintro rfl
        exact avoids_pass _ _ hrun
      refine Or.inl ⟨hlive, ?_, ?_⟩ <;> simp [hne, hlive]
  · cases hgo
    exact Or.inr (by decide)
  · split_ifs at hgo with _ hcancelled
    · cases hgo
      exact Or.inl ⟨hlive, by simp, by simp⟩
    · exact absurd (hlive.symm.trans hcancelled) Bool.false_ne_true
  · exact absurd ‹_› hreturning
  · cases hgo

theorem running_iff : Running before ps ↔ ∃ j p, ps[before + j]? = some p ∧ Runs p := by
  unfold Running
  constructor
  · rintro ⟨p, hp, hruns⟩
    obtain ⟨j, hj⟩ := List.mem_iff_getElem?.mp hp
    exact ⟨j, p, List.getElem?_drop ▸ hj, hruns⟩
  · rintro ⟨j, p, hj, hruns⟩
    exact ⟨p, List.mem_of_getElem? (List.getElem?_drop.trans hj), hruns⟩

theorem running_append (hle : before ≤ ps.length) : Running before (ps ++ [({} : Preflight)]) := by
  refine ⟨({} : Preflight), ?_, by decide⟩
  rw [List.drop_append_of_le_length hle]
  exact List.mem_append_right _ List.mem_cons_self

theorem Running.set (h : Running before ps) (hp : ps[i]? = some p) (hnew : Runs p → Runs p') :
    Running before (ps.set i p') := by
  obtain ⟨j, q, hj, hruns⟩ := running_iff.mp h
  refine running_iff.mpr ?_
  by_cases hij : i = before + j
  · subst hij
    obtain rfl := Option.some.inj (hp.symm.trans hj)
    have hlt := (List.getElem?_eq_some_iff.mp hj).1
    exact ⟨j, p', List.getElem?_set_self hlt, hnew hruns⟩
  · exact ⟨j, q, (List.getElem?_set_ne hij).trans hj, hruns⟩

/-! ### What an action does to the services -/

/-- The callback, the services, their preflights and the running call. -/
def services (n : Roles.State) : Bool × Bool × Option ℕ × List Preflight × Option Call :=
  (n.wired, n.services, n.preflightCancel, n.preflights, n.applying)

inductive Does (nodeID : NodeID) (n n' : Roles.State) : Roles.Action → Prop
  | keep {b : Roles.Action} : services n' = services n → (n'.primary = .starting →
    n.primary = .starting) → Does nodeID n n' b
  | call {primary : NodeID} : n.applying = none → n' = { n with applying := some { primary } } →
    Does nodeID n n' (.apply primary)
  | next {c : Call} : n.applying = some c → n' = n.applyNext nodeID c → Does nodeID n n' .applyNext
  | go {i : ℕ} {env : Env} {choice : Bool} : n.goPreflight nodeID i env choice = some n' →
    Does nodeID n n' (.preflight i env choice)
  | stop : n.resigning = some .stopServices → n' = { n.stopServices with resigning := none } →
    Does nodeID n n' .resignLeadership

theorem starting_of_trySet {q q' : PrimaryState} (hq : q' = .replica ∨ q' = .draining)
    (h : trySetPrimary q q' = .starting) : q = .starting := by
  rcases trySetPrimary_eq_or q q' with he | he
  · exact he ▸ h
  · rw [he] at h
    rcases hq with rfl | rfl <;> cases h

theorem does_of_act (hact : act nodeID n b = some n') (hb : b ≠ .wire) : Does nodeID n n' b := by
  cases b with
  | apply primary =>
    simp only [act] at hact
    split_ifs at hact with hidle
    cases hact
    exact .call (Option.not_isSome_iff_eq_none.mp hidle) rfl
  | applyNext =>
    obtain ⟨c, hc, rfl⟩ := Option.map_eq_some_iff.mp hact
    exact .next hc rfl
  | wire => exact absurd rfl hb
  | loseLeadership =>
    cases hact
    exact .keep rfl id
  | preflight i env choice => exact .go hact
  | drain =>
    cases hact
    exact .keep rfl (starting_of_trySet (Or.inr rfl))
  | acceptTxn =>
    simp only [act] at hact
    split_ifs at hact
    cases hact
    exact .keep rfl id
  | answerTxn uploadFailed =>
    simp only [act] at hact
    split_ifs at hact <;> cases hact
    · refine .keep rfl fun hstarting => ?_
      cases hstarting
    · exact .keep rfl id
    · exact .keep rfl id
  | recover =>
    simp only [act] at hact
    split_ifs at hact
    cases hact
    exact .keep rfl (starting_of_trySet (Or.inl rfl))
  | resignLeadership =>
    simp only [act] at hact
    split at hact
    · split_ifs at hact
      cases hact
      exact .keep rfl id
    · cases hact
      exact .keep rfl (starting_of_trySet (Or.inl rfl))
    · next hresigning =>
      cases hact
      exact .stop hresigning rfl
  | others data =>
    cases hact
    exact .keep rfl id

theorem applyNext_notify {primary old : NodeID} :
    n.applyNext nodeID ⟨primary, .notify old⟩ =
      { (if changes nodeID old primary then n.onPrimaryChange (primary == nodeID) else n) with
        applying := none } := rfl

theorem step_role (h : step nodeID s (.role b) = some s') : b ≠ .wire ∧ ∃ n,
    act nodeID s.node b = some n ∧ Roles.step nodeID s.node b = some s'.node ∧
      services s'.node = services n ∧ s'.node.primary = n.primary ∧
      s'.node.clusterPrimary = n.clusterPrimary ∧
      s'.follower = (called nodeID s.node b).elim s.follower (!·) ∧ s'.wiring = s.wiring ∧
      s'.before = if enters s.node n then s.node.preflights.length else s.before := by
  have hb : b ≠ .wire := by
    rintro rfl
    cases h
  have hstep : (Roles.step nodeID s.node b).map (fun n =>
      { s with
        node := n
        follower := (called nodeID s.node b).elim s.follower (!·)
        before := if enters s.node n then s.node.preflights.length else s.before }) = some s' := by
    cases b <;> first | exact absurd rfl hb | exact h
  obtain ⟨n1, hroles, rfl⟩ := Option.map_eq_some_iff.mp hstep
  obtain ⟨n, hact, rfl⟩ := Option.map_eq_some_iff.mp hroles
  exact ⟨hb, n, hact, hroles, rfl, rfl, rfl, rfl, rfl, rfl⟩

/-- The end of a startup that nothing interrupts is the one step that the role sees of it. -/
theorem exists_exec_wire (hw : s.wiring = .followed) (hn : s.node.wired = false) :
    ∃ as s', exec (step nodeID) s as = some s' ∧ s'.wiring = .complete ∧
      act nodeID s.node .wire = some s'.node := by
  by_cases hself : s.node.clusterPrimary = nodeID
  · refine ⟨[.setPrimaryChangeFunc, .checkPrimary, .startPrimary],
      { s with node := { s.node with wired := true }.startServices, wiring := .complete }, ?_, rfl,
      ?_⟩
    · simp [exec, step, hw, hself]
    · simp [act, hn, hself]
  · refine ⟨[.setPrimaryChangeFunc, .checkPrimary],
      { s with node := { s.node with wired := true }, wiring := .complete }, ?_, rfl, ?_⟩
    · simp [exec, step, hw, hself]
    · simp [act, hn, hself]

/-! ### Until the startup is complete -/

/-- There are no services yet, and a Starting node is the Primary. -/
structure Early (nodeID : NodeID) (n : Roles.State) (before : ℕ) : Prop where
  agrees : Agrees nodeID n.primary n.clusterPrimary n.applying
  notActive : n.primary ≠ .active
  noServices : n.services = false
  noCancel : n.preflightCancel = none
  noPreflights : n.preflights = []
  before_eq : before = 0

theorem services_stopServices (hs : n.services = false) (hc : n.preflightCancel = none) :
    n.stopServices = n := by
  unfold State.stopServices State.stopPreflight
  simp [hs, hc]

theorem services_applyNext (hw : n.wired = false) :
    (n.applyNext nodeID c).services = n.services ∧
      (n.applyNext nodeID c).preflightCancel = n.preflightCancel ∧
      (n.applyNext nodeID c).preflights = n.preflights := by
  unfold State.applyNext State.onPrimaryChange
  simp only [hw, Bool.not_false, if_true, ite_self]
  split <;> exact ⟨rfl, rfl, rfl⟩

theorem early_role (hs : Early nodeID s.node s.before) (hw : s.node.applying ≠ none →
    s.node.wired = false) (hc : s.wiring ≠ .complete) (hok : Orderly nodeID s (.role b))
    (h : step nodeID s (.role b) = some s') : Early nodeID s'.node s'.before := by
  obtain ⟨hb, n, hact, hroles, hsame, hprimary, -, -, -, hbefore⟩ := step_role h
  have hnone : ∀ i : ℕ, s.node.preflights[i]? = none := fun i => by rw [hs.noPreflights]; rfl
  have hyields : Yields nodeID s.node b := by
    cases b with
    | applyNext => exact fun _ _ _ _ => hs.notActive
    | preflight i env choice => exact fun p hp => absurd hp (by simp [hnone])
    | loseLeadership => exact hok.resolve_left hc
    | _ => trivial
  have hnotActive : s'.node.primary ≠ .active := by
    rw [hprimary]
    cases moves_of_act hact with
    | keep he => exact he ▸ hs.notActive
    | giveUp he => rcases he with he | he <;> rw [he] <;> decide
    | enter _ _ _ _ _ he => rw [he]; decide
    | activate _ hp _ _ _ => exact absurd hp (by simp [hnone])
  have hkept : n.services = s.node.services ∧ n.preflightCancel = s.node.preflightCancel ∧
      n.preflights = s.node.preflights := by
    cases does_of_act hact hb with
    | keep he _ =>
      simp only [services, Prod.mk.injEq] at he
      exact ⟨he.2.1, he.2.2.1, he.2.2.2.1⟩
    | call _ he => exact he ▸ ⟨rfl, rfl, rfl⟩
    | next hcall he =>
      have hidle : s.node.applying ≠ none := by simp [hcall]
      exact he ▸ services_applyNext (hw hidle)
    | go hgo =>
      obtain ⟨p, hp, -⟩ := Option.bind_eq_some_iff.mp hgo
      exact absurd hp (by simp [hnone])
    | stop _ he =>
      rw [services_stopServices hs.noServices hs.noCancel] at he
      exact he ▸ ⟨rfl, rfl, rfl⟩
  simp only [services, Prod.mk.injEq] at hsame
  refine ⟨agrees_step hs.agrees hyields hroles, hnotActive,
    hsame.2.1.trans (hkept.1.trans hs.noServices),
    hsame.2.2.1.trans (hkept.2.1.trans hs.noCancel),
    hsame.2.2.2.1.trans (hkept.2.2.trans hs.noPreflights), ?_⟩
  rw [hbefore, hs.noPreflights, hs.before_eq]
  exact ite_self 0

/-! ### After the startup -/

/-- The call has made the node Starting and is going to call back. -/
def Pending (nodeID : NodeID) (c : Call) : Prop :=
  c.primary = nodeID ∧ oldPrimary c.stand ≠ nodeID ∧
    ((∃ old, c.stand = .checkStarting old) ∨ ∃ old, c.stand = .notify old)

structure Late (nodeID : NodeID) (n : Roles.State) (before : ℕ) : Prop where
  wired : n.wired = true
  cancel : n.services = false → n.preflightCancel = none
  before_le : before ≤ n.preflights.length
  starts : ∀ c ∈ n.applying, c.stand.starts = true → c.primary = nodeID
  /-- A node that is told of another Primary is not Starting when it is called back. -/
  told : ∀ c ∈ n.applying, (∃ old, c.stand = .notify old) → c.primary ≠ nodeID →
    n.primary ≠ .starting
  running : n.primary = .starting → Running before n.preflights ∨
    n.services = false ∧ ∃ c ∈ n.applying, Pending nodeID c

theorem Late.call (hs : Late nodeID n before) {call : Option Call}
    (hv : services n' = services { n with applying := call })
    (hp : n'.primary = .starting → n.primary = .starting)
    (hstarts : ∀ c ∈ call, c.stand.starts = true → c.primary = nodeID)
    (htold : ∀ c ∈ call, (∃ old, c.stand = .notify old) → c.primary ≠ nodeID →
      n'.primary ≠ .starting)
    (hpending : ∀ c ∈ n.applying, Pending nodeID c → ∃ c' ∈ call, Pending nodeID c') :
    Late nodeID n' (if enters n n' then n.preflights.length else before) := by
  simp only [services, Prod.mk.injEq] at hv
  obtain ⟨hwired, hservices, hcancel, hpreflights, happlying⟩ := hv
  rw [if_neg fun h => h.1 (hp h.2)]
  refine ⟨hwired.trans hs.wired, ?_, ?_, ?_, ?_, ?_⟩
  · rw [hservices, hcancel]
    exact hs.cancel
  · rw [hpreflights]
    exact hs.before_le
  · rw [happlying]
    exact hstarts
  · rw [happlying]
    exact htold
  · intro hstarting
    rw [hpreflights, hservices, happlying]
    refine (hs.running (hp hstarting)).imp_right ?_
    rintro ⟨hoff, c, hc, hpend⟩
    exact ⟨hoff, hpending c hc hpend⟩

theorem Late.congr (hs : Late nodeID n before) (hv : services n' = services n)
    (hp : n'.primary = n.primary) : Late nodeID n' before := by
  have hcall := hs.call hv (fun h => hp ▸ h) hs.starts
    (fun c hc hnotify hne => by rw [hp]; exact hs.told c hc hnotify hne) fun c hc h => ⟨c, hc, h⟩
  rwa [if_neg fun h => h.1 (hp ▸ h.2)] at hcall

theorem wired_startServices : n.startServices.wired = n.wired := by
  unfold State.startServices State.startPreflight
  split_ifs <;> rfl

theorem services_startServices : n.startServices.services = true := by
  unfold State.startServices State.startPreflight
  split_ifs with h <;> first | exact h | rfl

theorem length_startServices : n.preflights.length ≤ n.startServices.preflights.length := by
  unfold State.startServices State.startPreflight
  split_ifs
  · exact le_rfl
  · exact le_rfl
  · exact le_rfl
  · simp

theorem running_startServices (hstarting : n.primary = .starting)
    (hcancel : n.services = false → n.preflightCancel = none) (hle : before ≤ n.preflights.length)
    (h : Running before n.preflights ∨ n.services = false) :
    Running before n.startServices.preflights := by
  unfold State.startServices State.startPreflight
  by_cases hservices : n.services = true
  · rw [if_pos hservices]
    exact h.resolve_right (by simp [hservices])
  · have hoff : n.services = false := Bool.eq_false_iff.mpr hservices
    simp only [hoff, hcancel hoff, hstarting, Bool.false_eq_true, if_false, Option.isSome_none,
      ne_eq, not_true_eq_false]
    exact running_append hle

theorem stopServices_eqs : n.stopServices.wired = n.wired ∧ n.stopServices.services = false ∧
    n.stopServices.preflightCancel = none ∧
    n.stopServices.preflights.length = n.preflights.length := by
  unfold State.stopServices State.stopPreflight
  cases hservices : n.services <;> cases hcancel : n.preflightCancel <;>
    simp [hservices, hcancel]

theorem Late.stop (hs : Late nodeID n before) (hne : n.primary ≠ .starting)
    (hv : services n' = services { n.stopServices with applying := n'.applying })
    (hp : n'.primary = n.primary) (hcall : n'.applying = none ∨ n'.applying = n.applying) :
    Late nodeID n' before := by
  obtain ⟨hwired, hservices, hcancel, hlength⟩ := stopServices_eqs (n := n)
  simp only [services, Prod.mk.injEq] at hv
  obtain ⟨hwired', hservices', hcancel', hpreflights', -⟩ := hv
  have hmem : ∀ c ∈ n'.applying, c ∈ n.applying := by
    intro c hc
    rcases hcall with he | he
    · rw [he] at hc
      cases hc
    · exact he ▸ hc
  refine ⟨hwired'.trans (hwired.trans hs.wired), fun _ => hcancel'.trans hcancel, ?_,
    fun c hc => hs.starts c (hmem c hc), fun c hc => hp ▸ hs.told c (hmem c hc), ?_⟩
  · rw [hpreflights', hlength]
    exact hs.before_le
  · exact fun h => absurd (hp ▸ h) hne

theorem late_notify {next old : NodeID} (hs : Late nodeID n before)
    (hc : n.applying = some ⟨next, .notify old⟩) :
    Late nodeID (n.applyNext nodeID ⟨next, .notify old⟩)
      (if enters n (n.applyNext nodeID ⟨next, .notify old⟩) then n.preflights.length
        else before) := by
  rw [applyNext_notify]
  by_cases hchanges : changes nodeID old next = true
  · have hfires : n.onPrimaryChange (next == nodeID) =
        if next == nodeID then n.startServices else n.stopServices := by
      unfold State.onPrimaryChange
      rw [hs.wired]
      rfl
    rw [if_pos hchanges, hfires]
    by_cases hself : next = nodeID
    · rw [if_pos (beq_iff_eq.mpr hself)]
      have hprimary : n.startServices.primary = n.primary := primary_of_role role_startServices
      rw [if_neg fun h => h.1 (hprimary ▸ h.2)]
      refine ⟨wired_startServices.trans hs.wired, fun h => ?_,
        hs.before_le.trans length_startServices, by simp, by simp, fun h => Or.inl ?_⟩
      · exact absurd (services_startServices.symm.trans h) (by decide)
      · have hstarting : n.primary = .starting := hprimary ▸ h
        exact running_startServices hstarting hs.cancel hs.before_le
          ((hs.running hstarting).imp_right And.left)
    · rw [if_neg fun h => hself (beq_iff_eq.mp h)]
      have hprimary : n.stopServices.primary = n.primary := primary_of_role role_stopServices
      have hne : n.primary ≠ .starting := hs.told _ hc ⟨old, rfl⟩ hself
      rw [if_neg fun h => hne (hprimary ▸ h.2)]
      exact hs.stop hne rfl hprimary (Or.inl rfl)
  · rw [if_neg hchanges]
    refine hs.call rfl id (by simp) (by simp) ?_
    intro c hcall hpending
    obtain rfl : c = ⟨next, .notify old⟩ := Option.some.inj (hcall.symm.trans hc)
    obtain ⟨hself, hold, -⟩ := hpending
    have hself : next = nodeID := hself
    have hold : old ≠ nodeID := hold
    exact absurd (by simp [changes, hself, hold]) hchanges

theorem late_setStarting {next old : NodeID} (hs : Late nodeID n before)
    (hc : n.applying = some ⟨next, .setStarting old⟩)
    (hentry : n.primary = .replica → old ≠ nodeID ∧ n.services = false) :
    Late nodeID (n.applyNext nodeID ⟨next, .setStarting old⟩)
      (if enters n (n.applyNext nodeID ⟨next, .setStarting old⟩) then n.preflights.length
        else before) := by
  have hstarts : ∀ c ∈ some (Call.mk next (.checkStarting old)), c.stand.starts = true →
      c.primary = nodeID := by
    rintro c ⟨⟩ h
    cases h
  have htold : ∀ q : PrimaryState, ∀ c ∈ some (Call.mk next (.checkStarting old)),
      (∃ old, c.stand = .notify old) → c.primary ≠ nodeID → q ≠ .starting := by
    rintro q c ⟨⟩ ⟨old', he⟩
    cases he
  by_cases hreplica : n.primary = .replica
  · have hstarting : trySetPrimary n.primary .starting = .starting := by rw [hreplica]; rfl
    have henters : enters n (n.applyNext nodeID ⟨next, .setStarting old⟩) :=
      ⟨by rw [hreplica]; decide, hstarting⟩
    obtain ⟨hold, hoff⟩ := hentry hreplica
    have hself : next = nodeID := hs.starts _ hc rfl
    rw [if_pos henters]
    exact ⟨hs.wired, hs.cancel, le_rfl, hstarts, htold _,
      fun _ => Or.inr ⟨hoff, _, rfl, hself, hold, Or.inl ⟨old, rfl⟩⟩⟩
  · have hkeep : trySetPrimary n.primary .starting = n.primary :=
      (trySetPrimary_starting _).trans (if_neg hreplica)
    refine hs.call rfl (fun h => hkeep.symm.trans h) hstarts (htold _) fun c hcall hpending => ?_
    obtain rfl : c = ⟨next, .setStarting old⟩ := Option.some.inj (hcall.symm.trans hc)
    obtain ⟨-, -, ⟨old', he⟩ | ⟨old', he⟩⟩ := hpending
    · cases he
    · cases he

theorem late_applyNext (hs : Late nodeID n before) (hc : n.applying = some c)
    (hentry : n.primary = .replica → c.stand.starts = true →
      oldPrimary c.stand ≠ nodeID ∧ n.services = false) :
    Late nodeID (n.applyNext nodeID c)
      (if enters n (n.applyNext nodeID c) then n.preflights.length else before) := by
  obtain ⟨next, stand⟩ := c
  have hpend : ∀ c ∈ n.applying, Pending nodeID c → Pending nodeID ⟨next, stand⟩ := by
    rintro c hcall hpending
    rw [hc] at hcall
    cases hcall
    exact hpending
  have hnot : ((∀ old, stand ≠ .checkStarting old) ∧ ∀ old, stand ≠ .notify old) →
      ∀ call : Option Call, ∀ c ∈ n.applying, Pending nodeID c →
        ∃ c' ∈ call, Pending nodeID c' := by
    rintro ⟨hcheck, hnotify⟩ call c hcall hpending
    obtain ⟨-, -, ⟨old, he⟩ | ⟨old, he⟩⟩ := hpend c hcall hpending
    · exact absurd he (hcheck old)
    · exact absurd he (hnotify old)
  -- a stand from which the call neither sets Starting nor calls back
  have hplain : ∀ stand' : Stand, stand'.starts = false → (∀ old, stand' ≠ .notify old) →
      (∀ c ∈ some (Call.mk next stand'), c.stand.starts = true → c.primary = nodeID) ∧
      ∀ q : PrimaryState, ∀ c ∈ some (Call.mk next stand'), (∃ old, c.stand = .notify old) →
        c.primary ≠ nodeID → q ≠ .starting := by
    intro stand' hstarts hnotify
    constructor
    · rintro c ⟨⟩ h
      exact absurd (hstarts.symm.trans h) Bool.false_ne_true
    · rintro q c ⟨⟩ ⟨old, he⟩
      exact absurd he (hnotify old)
  cases stand with
  | readOld =>
    obtain ⟨hstarts, htold⟩ := hplain (.setClusterState n.clusterPrimary) rfl (by simp)
    exact hs.call rfl id hstarts (htold _) (hnot ⟨by simp, by simp⟩ _)
  | setClusterState old =>
    obtain ⟨hstarts, htold⟩ := hplain (.checkReplica old) rfl (by simp)
    exact hs.call rfl id hstarts (htold _) (hnot ⟨by simp, by simp⟩ _)
  | checkReplica old =>
    refine hs.call rfl id ?_ ?_ (hnot ⟨by simp, by simp⟩ _)
    · rintro c ⟨⟩ hstarts
      by_contra hne
      simp [beq_eq_false_iff_ne.mpr hne, Stand.starts] at hstarts
    · rintro c ⟨⟩ ⟨old', he⟩
      dsimp only at he
      split_ifs at he
  | setStarting old => exact late_setStarting hs hc fun hreplica => hentry hreplica rfl
  | checkStarting old =>
    refine hs.call rfl id ?_ ?_ ?_
    · rintro c ⟨⟩ hstarts
      dsimp only at hstarts
      split_ifs at hstarts <;> cases hstarts
    · rintro c ⟨⟩ ⟨old', he⟩ hne hstarting
      simp [beq_eq_false_iff_ne.mpr hne, show n.primary = .starting from hstarting] at he
    · intro c hcall hpending
      obtain ⟨hself, hold, -⟩ := hpend c hcall hpending
      refine ⟨_, rfl, hself, ?_, Or.inr ⟨old, ?_⟩⟩ <;> simp [show next = nodeID from hself]
      exact hold
  | setReplica old =>
    have hgiven : trySetPrimary n.primary .replica ≠ .starting := by
      cases n.primary <;> decide
    refine hs.call rfl (fun h => absurd h hgiven) ?_ (fun _ _ _ _ => hgiven)
      (hnot ⟨by simp, by simp⟩ _)
    rintro c ⟨⟩ hstarts
    cases hstarts
  | notify old => exact late_notify hs hc

theorem late_act (hs : Late nodeID n before) (hact : act nodeID n b = some n') (hb : b ≠ .wire)
    (hentry : b = .applyNext → n.primary = .replica → ∀ c ∈ n.applying, c.stand.starts = true →
      oldPrimary c.stand ≠ nodeID ∧ n.services = false)
    (hstop : b = .resignLeadership → n.resigning = some .stopServices → n.primary ≠ .starting) :
    Late nodeID n' (if enters n n' then n.preflights.length else before) := by
  cases does_of_act hact hb with
  | keep hv hp =>
    exact hs.call hv hp hs.starts (fun c hc ho hn h => hs.told c hc ho hn (hp h))
      fun c hc hpending => ⟨c, hc, hpending⟩
  | call hidle he =>
    subst he
    refine hs.call rfl id ?_ ?_ ?_
    · rintro c ⟨⟩ hstarts
      cases hstarts
    · rintro c ⟨⟩ ⟨old, he⟩
      cases he
    · intro c hc
      rw [hidle] at hc
      cases hc
  | next hc he =>
    subst he
    exact late_applyNext hs hc fun hreplica => hentry rfl hreplica _ hc
  | go hgo =>
    have hstill : n'.primary = .starting → n.primary = .starting := by
      intro hstarting
      rcases role_goPreflight hgo with hr | ⟨-, hold, -⟩
      · exact (primary_of_role hr).symm.trans hstarting
      · exact hold
    rw [if_neg fun h => h.1 (hstill h.2)]
    obtain ⟨p, hp, hnext⟩ := Option.bind_eq_some_iff.mp hgo
    obtain ⟨⟨p', primary', data'⟩, hwent, rfl⟩ := Option.map_eq_some_iff.mp hnext
    refine ⟨hs.wired, fun hoff => ?_, ?_, hs.starts,
      fun c hc ho hn h => hs.told c hc ho hn (hstill h), fun hstarting => ?_⟩
    · dsimp only
      rw [hs.cancel hoff]
      exact ite_self none
    · simpa using hs.before_le
    · have hold := hstill hstarting
      refine (hs.running hold).imp_left fun hrunning => ?_
      rw [hold] at hwent
      exact hrunning.set hp fun hruns => (hruns.go hwent).resolve_right (not_not_intro hstarting)
  | stop hresigning he =>
    subst he
    have hne := hstop rfl hresigning
    have hprimary : n.stopServices.primary = n.primary := primary_of_role role_stopServices
    have hcall : n.stopServices.applying = n.applying := congrArg (·.2.2) role_stopServices
    rw [if_neg fun h => hne (hprimary ▸ h.2)]
    exact hs.stop hne rfl hprimary (Or.inr hcall)

/-! ### The Follower -/

/-- The Follower of a node whose Primary is another node runs, or the running call is about to start
it: it has read no other node before. -/
def Follows (nodeID view : NodeID) (follower : Bool) : Option Call → Prop
  | none => needsFollowStream nodeID view = true → follower = true
  | some ⟨_, .readOld⟩ => needsFollowStream nodeID view = true → follower = true
  | some ⟨_, .setClusterState old⟩ =>
    (needsFollowStream nodeID view = true → follower = true) ∧
      (needsFollowStream nodeID old = true → follower = true)
  | some ⟨primary, stand⟩ =>
    (view = primary ∨ view = "") ∧
      (needsFollowStream nodeID primary = true →
        needsFollowStream nodeID (oldPrimary stand) = true → follower = true)

variable {view : NodeID} {call : Option Call} {follower : Bool}

theorem not_needsFollowStream_empty : needsFollowStream nodeID "" ≠ true := by
  simp [needsFollowStream]

theorem Follows.forget (h : Follows nodeID view follower call) :
    Follows nodeID "" follower call := by
  have hno : needsFollowStream nodeID "" = true → follower = true := fun h =>
    absurd h not_needsFollowStream_empty
  rcases call with _ | ⟨next, stand⟩
  · exact hno
  · cases stand with
    | readOld => exact hno
    | setClusterState old => exact ⟨hno, h.2⟩
    | _ => exact ⟨Or.inr rfl, h.2⟩

/-- A change that does not call back leaves a node with the Follower it had. -/
theorem needsFollowStream_of_not_changes {old primary : NodeID}
    (h : ¬ changes nodeID old primary = true) (hp : needsFollowStream nodeID primary = true) :
    needsFollowStream nodeID old = true := by
  simp only [needsFollowStream, changes, Bool.and_eq_true, bne_iff_ne, ne_eq, Bool.or_eq_true,
    Bool.not_eq_true', beq_eq_false_iff_ne, beq_iff_eq, not_or, not_and, not_not] at h hp ⊢
  obtain ⟨hsame, happeared⟩ := h
  refine ⟨fun hold => hp.2 (happeared ⟨hold, hp.1⟩), fun hold => ?_⟩
  rw [beq_iff_eq.mpr hold, beq_eq_false_iff_ne.mpr hp.2] at hsame
  cases hsame

theorem follows_applyNext (hw : n.wired = true) (hc : n.applying = some c)
    (h : Follows nodeID n.clusterPrimary follower (some c)) :
    Follows nodeID (n.applyNext nodeID c).clusterPrimary
      ((called nodeID n .applyNext).elim follower (!·)) (n.applyNext nodeID c).applying := by
  obtain ⟨next, stand⟩ := c
  cases stand with
  | readOld =>
    simp only [called, hc]
    exact ⟨h, h⟩
  | setClusterState old =>
    simp only [called, hc]
    exact ⟨Or.inl rfl, fun _ => h.2⟩
  | checkReplica old =>
    simp only [called, hc, State.applyNext]
    split_ifs
    · exact h
    · exact h
  | setStarting old =>
    simp only [called, hc]
    exact h
  | checkStarting old =>
    simp only [called, hc, State.applyNext]
    split_ifs
    · exact h
    · exact h
  | setReplica old =>
    simp only [called, hc]
    exact h
  | notify old =>
    obtain ⟨hview, hfollower⟩ := h
    have hnext : needsFollowStream nodeID n.clusterPrimary = true →
        needsFollowStream nodeID next = true := by
      intro hneeds
      rcases hview with he | he
      · exact he ▸ hneeds
      · exact absurd (he ▸ hneeds) not_needsFollowStream_empty
    rw [applyNext_notify]
    simp only [called, hc, hw, Bool.true_and]
    by_cases hchanges : changes nodeID old next = true
    · rw [if_pos hchanges, if_pos hchanges]
      have hrole : (n.onPrimaryChange (next == nodeID)).clusterPrimary = n.clusterPrimary :=
        congrArg (·.2.1) role_onPrimaryChange
      intro hneeds
      have hother := hnext (hrole ▸ hneeds)
      simp only [needsFollowStream, Bool.and_eq_true, bne_iff_ne] at hother
      simp [hother.2]
    · rw [if_neg hchanges, if_neg hchanges]
      intro hneeds
      have hother := hnext hneeds
      exact hfollower hother (needsFollowStream_of_not_changes hchanges hother)

theorem follows_act (hw : n.wired = true) (h : Follows nodeID n.clusterPrimary follower n.applying)
    (hact : act nodeID n b = some n') :
    Follows nodeID n'.clusterPrimary ((called nodeID n b).elim follower (!·)) n'.applying := by
  have hquiet : b ≠ .applyNext → called nodeID n b = none := by
    cases b <;> first | exact fun _ => rfl | exact fun h => absurd rfl h
  have hkept : ∀ {q : PrimaryState}, n'.role = (q, n.clusterPrimary, n.applying) →
      Follows nodeID n'.clusterPrimary follower n'.applying := by
    intro q hr
    simp only [State.role, Prod.mk.injEq] at hr
    rw [hr.2.1, hr.2.2]
    exact h
  by_cases hb : b = .applyNext
  · subst hb
    obtain ⟨c, hc, rfl⟩ := Option.map_eq_some_iff.mp hact
    rw [hc] at h
    exact follows_applyNext hw hc h
  · rw [hquiet hb]
    cases effect_of_act hact with
    | keep hr _ => exact hkept hr
    | giveUp _ hr _ => exact hkept hr
    | call hidle hr _ =>
      simp only [State.role, Prod.mk.injEq] at hr
      rw [hidle] at h
      rw [hr.2.1, hr.2.2]
      exact h
    | next => exact absurd rfl hb
    | forget hr _ =>
      simp only [State.role, Prod.mk.injEq] at hr
      rw [hr.2.1, hr.2.2]
      exact h.forget
    | go hgo =>
      rcases role_goPreflight hgo with hr | ⟨-, -, hr⟩
      · exact hkept hr
      · exact hkept hr

/-- What the startup has made of the Follower. -/
def Settled (nodeID : NodeID) (s : State) : Prop :=
  match s.wiring with
  | .loading => True
  | .decided follow => needsFollowStream nodeID s.node.clusterPrimary = true → follow = true
  | .complete => Follows nodeID s.node.clusterPrimary s.follower s.node.applying
  | _ => needsFollowStream nodeID s.node.clusterPrimary = true → s.follower = true

/-! ### The whole node -/

structure Inv (nodeID : NodeID) (s : State) : Prop where
  wired : s.node.wired = s.wiring.wired
  idle : s.wiring.settles = true → s.node.applying = none
  early : s.wiring ≠ .complete → Early nodeID s.node s.before
  late : s.wiring = .complete → Late nodeID s.node s.before
  settled : Settled nodeID s

theorem inv_start : Inv nodeID (.start data) where
  wired := rfl
  idle := fun h => nomatch h
  early := fun _ => ⟨fun h => absurd h (by decide : ¬ Leads .replica), by simp [State.start,
    Roles.State.start], rfl, rfl, rfl, rfl⟩
  late := fun h => nomatch h
  settled := trivial

theorem wired_of_act (hact : act nodeID n b = some n') (hb : b ≠ .wire) : n'.wired = n.wired := by
  cases does_of_act hact hb with
  | keep hv _ => exact congrArg Prod.fst hv
  | call _ he => exact he ▸ rfl
  | next _ he =>
    subst he
    unfold State.applyNext State.onPrimaryChange
    dsimp only
    split
    case h_7 =>
      split_ifs
      · rfl
      · exact wired_startServices
      · exact stopServices_eqs.1
      · rfl
    all_goals rfl
  | go hgo =>
    obtain ⟨p, -, hnext⟩ := Option.bind_eq_some_iff.mp hgo
    obtain ⟨_, -, rfl⟩ := Option.map_eq_some_iff.mp hnext
    rfl
  | stop _ he => exact he ▸ stopServices_eqs.1

theorem idle_of_act (hidle : n.applying = none) (hb : ∀ primary, b ≠ .apply primary)
    (hact : act nodeID n b = some n') :
    n'.applying = none ∧ (n'.clusterPrimary = n.clusterPrimary ∨ n'.clusterPrimary = "") := by
  have hkept : ∀ {q : PrimaryState} {view : NodeID}, n'.role = (q, view, n.applying) →
      n'.applying = none ∧ n'.clusterPrimary = view := by
    intro q view hr
    simp only [State.role, Prod.mk.injEq] at hr
    exact ⟨hr.2.2.trans hidle, hr.2.1⟩
  cases effect_of_act hact with
  | keep hr _ => exact (hkept hr).imp_right Or.inl
  | giveUp _ hr _ => exact (hkept hr).imp_right Or.inl
  | call => exact absurd rfl (hb _)
  | next hc _ => exact absurd (hidle.symm.trans hc) (by simp)
  | forget hr _ => exact (hkept hr).imp_right Or.inr
  | go hgo =>
    rcases role_goPreflight hgo with hr | ⟨-, -, hr⟩
    · exact (hkept hr).imp_right Or.inl
    · exact (hkept hr).imp_right Or.inl

theorem inv_role (hs : Inv nodeID s) (hok : Orderly nodeID s (.role b))
    (h : step nodeID s (.role b) = some s') : Inv nodeID s' := by
  obtain ⟨hb, n, hact, -, hsame, hprimary, hview, hfollower, hwiring, hbefore⟩ := step_role h
  have happlying : s'.node.applying = n.applying := congrArg (·.2.2.2.2) hsame
  have hwired : s'.node.wired = s.node.wired :=
    (congrArg Prod.fst hsame).trans (wired_of_act hact hb)
  -- between the look at the Primary and the end of the startup
  have hsettling : s.wiring.settles = true → n.applying = none ∧
      (n.clusterPrimary = s.node.clusterPrimary ∨ n.clusterPrimary = "") := by
    intro hsettles
    refine idle_of_act (hs.idle hsettles) ?_ hact
    rintro primary rfl
    exact absurd (hsettles.symm.trans hok) (by decide)
  have hneeds : s.wiring.settles = true → needsFollowStream nodeID s'.node.clusterPrimary = true →
      needsFollowStream nodeID s.node.clusterPrimary = true := by
    intro hsettles hneeds
    rw [hview] at hneeds
    rcases (hsettling hsettles).2 with he | he
    · exact he ▸ hneeds
    · exact absurd (he ▸ hneeds) not_needsFollowStream_empty
  have hquiet : s.wiring.settles = true → s'.follower = s.follower := by
    intro hsettles
    rw [hfollower]
    cases b with
    | applyNext =>
      have hnone : called nodeID s.node .applyNext = none := by
        simp only [called, hs.idle hsettles]
      rw [hnone]
      rfl
    | _ => rfl
  constructor
  · rw [hwired, hwiring]
    exact hs.wired
  · rw [hwiring, happlying]
    exact fun hsettles => (hsettling hsettles).1
  · intro hc
    rw [hwiring] at hc
    refine early_role (hs.early hc) (fun hcall => ?_) hc hok h
    rw [hs.wired]
    cases hw : s.wiring with
    | loading => rfl
    | complete => exact absurd hw hc
    | _ => exact absurd (hs.idle (by rw [hw]; rfl)) hcall
  · intro hc
    rw [hwiring] at hc
    rw [hbefore]
    refine Late.congr (late_act (hs.late hc) hact hb ?_ ?_) hsame hprimary
    · rintro rfl
      exact hok hc
    · rintro rfl
      exact hok
  · have hsettled := hs.settled
    unfold Settled at hsettled ⊢
    rw [hwiring]
    cases hw : s.wiring with
    | loading => trivial
    | decided follow =>
      rw [hw] at hsettled
      exact fun h => hsettled (hneeds (by rw [hw]; rfl) h)
    | complete =>
      rw [hw] at hsettled
      have hcallback : s.node.wired = true := by rw [hs.wired, hw]; rfl
      dsimp only
      rw [hview, hfollower, happlying]
      exact follows_act hcallback hsettled hact
    | _ =>
      rw [hw] at hsettled
      intro h
      rw [hquiet (by rw [hw]; rfl)]
      exact hsettled (hneeds (by rw [hw]; rfl) h)

theorem Early.late (h : Early nodeID n before) (hw : n.wired = true) (hidle : n.applying = none)
    (hne : n.primary ≠ .starting) : Late nodeID n before where
  wired := hw
  cancel := fun _ => h.noCancel
  before_le := h.before_eq ▸ Nat.zero_le _
  starts := by simp [hidle]
  told := by simp [hidle]
  running := fun hstarting => absurd hstarting hne

theorem inv_step (hs : Inv nodeID s) (hok : Orderly nodeID s a) (h : step nodeID s a = some s') :
    Inv nodeID s' := by
  have hwired := hs.wired
  have hsettled := hs.settled
  unfold Settled at hsettled
  cases a with
  | role b => exact inv_role hs hok h
  | needsFollowStream =>
    simp only [step] at h
    split_ifs at h with hw
    cases h
    rw [hw] at hwired
    exact ⟨hwired, fun _ => hok, fun _ => hs.early (by rw [hw]; decide), fun h => (by cases h), id⟩
  | follow =>
    simp only [step] at h
    split at h
    · next follow hw =>
      cases h
      rw [hw] at hwired hsettled
      exact ⟨hwired, fun _ => hs.idle (by rw [hw]; rfl), fun _ => hs.early (by simp [hw]),
        fun h => (by cases h), hsettled⟩
    · cases h
  | integrityFailed =>
    simp only [step] at h
    split_ifs at h with hw
    cases h
    rw [hw] at hwired
    exact ⟨hwired, fun h => (by cases h), fun _ => hs.early (by simp [hw]),
      fun h => (by cases h), trivial⟩
  | setPrimaryChangeFunc =>
    simp only [step] at h
    split_ifs at h with hw
    cases h
    rw [hw] at hsettled
    obtain ⟨hagrees, hactive, hservices, hcancel, hpreflights, hbefore⟩ := hs.early (by simp [hw])
    exact ⟨rfl, fun _ => hs.idle (by rw [hw]; rfl),
      fun _ => ⟨hagrees, hactive, hservices, hcancel, hpreflights, hbefore⟩,
      fun h => (by cases h), hsettled⟩
  | checkPrimary =>
    obtain ⟨hw, h⟩ : s.wiring = .callbackSet ∧
        s' = { s with
          wiring := if s.node.clusterPrimary = nodeID then .starting else .complete } := by
      simpa [step, eq_comm] using h
    subst h
    have hidle := hs.idle (by rw [hw]; rfl)
    have hearly := hs.early (by simp [hw])
    rw [hw] at hwired hsettled
    by_cases hself : s.node.clusterPrimary = nodeID
    · rw [if_pos hself]
      exact ⟨hwired, fun _ => hidle, fun _ => hearly, fun h => (by cases h), hsettled⟩
    · rw [if_neg hself]
      have hagrees := hearly.agrees
      rw [hidle] at hagrees
      have hlate := hearly.late hwired hidle fun h => hself (hagrees (Or.inl h))
      refine ⟨hwired, fun h => (by cases h), fun h => absurd rfl h, fun _ => hlate, ?_⟩
      unfold Settled
      dsimp only
      rw [hidle]
      exact hsettled
  | startPrimary =>
    simp only [step] at h
    split_ifs at h with hw
    cases h
    have hidle := hs.idle (by rw [hw]; rfl)
    have hearly := hs.early (by simp [hw])
    rw [hw] at hwired hsettled
    have hrole := role_startServices (s := s.node)
    simp only [State.role, Prod.mk.injEq] at hrole
    obtain ⟨hprimary, hview, hcall⟩ := hrole
    have hwired' : s.node.startServices.wired = true := wired_startServices.trans hwired
    refine ⟨hwired', fun h => (by cases h), fun h => absurd rfl h, fun _ => ?_, ?_⟩
    · have hbefore := hearly.before_eq
      refine ⟨hwired', fun h => ?_, by simp [hbefore], by simp [hcall, hidle],
        by simp [hcall, hidle], fun hstarting => Or.inl ?_⟩
      · exact absurd (services_startServices.symm.trans h) (by decide)
      · exact running_startServices (hprimary ▸ hstarting) (fun _ => hearly.noCancel)
          (by simp [hbefore]) (Or.inr hearly.noServices)
    · unfold Settled
      dsimp only
      rw [hcall, hidle, hview]
      exact hsettled

/-- **Role services follow the role**, if every step is orderly: once the startup is complete and
no call of `ApplyClusterState` runs, a Starting node has a preflight of its reign that runs, and a
node whose Primary is another node has a Follower that runs. -/
theorem services_follow_role (hok : Meets (step nodeID) (Orderly nodeID) (.start data) as)
    (h : exec (step nodeID) (.start data) as = some s) (hcomplete : s.wiring = .complete)
    (hidle : s.node.applying = none) :
    (s.node.primary = .starting → Running s.before s.node.preflights) ∧
      (needsFollowStream nodeID s.node.clusterPrimary = true → s.follower = true) := by
  have hinv := exec_invariant (fun _ _ _ hs hok hstep => inv_step hs hok hstep) inv_start hok h
  constructor
  · intro hstarting
    rcases (hinv.late hcomplete).running hstarting with hrunning | ⟨-, c, hc, -⟩
    · exact hrunning
    · rw [hidle] at hc
      cases hc
  · have hsettled := hinv.settled
    unfold Settled at hsettled
    rw [hcomplete, hidle] at hsettled
    exact hsettled

/-! ### Runs -/

/-- The startup after the bootstrap, which finds the cluster without a Primary. -/
def startsUp : List Action :=
  [.needsFollowStream, .follow, .setPrimaryChangeFunc, .checkPrimary]

def roles (as : List Roles.Action) : List Action := as.map .role

/-- The node is elected, superseded, and elected again. -/
def electedTwice : List Action :=
  startsUp ++ roles (applies "n1" 6 ++ goes 0 4 ++ applies "n2" 6)

theorem services_follow_role_electedTwice :
    (∃ s, exec (step "n1") (.start oneRecord) (electedTwice ++ roles (applies "n1" 6)) = some s ∧
      s.node.primary = .starting ∧ Running s.before s.node.preflights) ∧
    ∃ s, exec (step "n1") (.start oneRecord) electedTwice = some s ∧
      s.node.clusterPrimary = "n2" ∧ s.follower = true := by
  constructor
  · obtain ⟨s, hs, hcomplete, hidle, hstarting⟩ := exists_exec_of_any (step "n1")
      (.start oneRecord) (electedTwice ++ roles (applies "n1" 6))
      (fun s => s.wiring = .complete ∧ s.node.applying = none ∧ s.node.primary = .starting)
      (by decide +kernel)
    have hok : Meets (step "n1") (Orderly "n1") (.start oneRecord)
        (electedTwice ++ roles (applies "n1" 6)) := by decide +kernel
    exact ⟨s, hs, hstarting, (services_follow_role hok hs hcomplete hidle).1 hstarting⟩
  · obtain ⟨s, hs, hcomplete, hidle, hview⟩ := exists_exec_of_any (step "n1")
      (.start oneRecord) electedTwice
      (fun s => s.wiring = .complete ∧ s.node.applying = none ∧ s.node.clusterPrimary = "n2")
      (by decide +kernel)
    have hok : Meets (step "n1") (Orderly "n1") (.start oneRecord) electedTwice := by
      decide +kernel
    have hfollower := (services_follow_role hok hs hcomplete hidle).2 (by rw [hview]; decide)
    exact ⟨s, hs, hview, hfollower⟩

/-- The node becomes Active, the upload of a transaction fails, and the recovery makes the node a
Replica again. -/
def recovers : List Roles.Action :=
  applies "n1" 6 ++ goes 0 17 ++ [.acceptTxn, .answerTxn true, .recover]

/-- **A node whose recovery has made it a Replica is pushed its own election again: it is Starting
and no preflight runs.** And the Primary that appears before the callback is set is never
followed. -/
theorem services_left_behind :
    (∃ s, exec (step "n1") (.start oneRecord)
        (startsUp ++ roles (recovers ++ applies "n1" 6)) = some s ∧
      s.wiring = .complete ∧ s.node.applying = none ∧ s.node.primary = .starting ∧
      ∀ p ∈ s.node.preflights, ¬ Runs p) ∧
    ∃ s, exec (step "n1") (.start oneRecord)
        ([.needsFollowStream, .follow] ++ roles (applies "n2" 5) ++
          [.setPrimaryChangeFunc, .checkPrimary]) = some s ∧
      s.wiring = .complete ∧ s.node.applying = none ∧ s.node.clusterPrimary = "n2" ∧
      s.follower = false :=
  ⟨exists_exec_of_any (step "n1") _ _ _ (by decide +kernel),
    exists_exec_of_any (step "n1") _ _ _ (by decide +kernel)⟩

end Netsy.Node.RoleServices
