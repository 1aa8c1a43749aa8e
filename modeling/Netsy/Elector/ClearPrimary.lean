import Netsy.Elector.Degradation

/-! # Clearing an unusable Primary

A Ready Elector clears `ClusterState.Primary` when a pass of the health check degrades or
deregisters the Primary itself, and when the Primary deregisters. What a heartbeat says about the
Primary, and what happens to a node between its election and the push of the result, is not looked
at. -/

namespace Netsy.Elector.ClearPrimary

open Proto NodeState Elector.NodeMap Elector.PrimaryElection Lib.Keyed Lib.Run
open Elector.Membership (newEntry)
open Elector.Degradation (Config seconds)

structure State where
  nodes : Nodes
  /-- `ClusterState.Primary`. -/
  primary : Option NodeInfo
  /-- The result of an election that has not been pushed yet. -/
  elected : Option NodeInfo
  /-- What the Primary reported of its role since it became Primary, the latest report first. -/
  reports : List PrimaryState
deriving DecidableEq

/-- A Ready Elector: the node map that it loaded, and the Primary that it knows of. -/
def State.boot (m : Nodes) (p : Option NodeInfo) : State :=
  { nodes := m, primary := p, elected := none, reports := [] }

def needsPrimaryElection (s : State) : Bool := s.primary.isNone

def State.clearPrimary (s : State) : State := { s with primary := none, reports := [] }

inductive Action
  | registerNode (nodeID : NodeID) (memberID : ℕ) (clientAddr peerAddr : String) (now : Time)
  | deregisterNode (nodeID : NodeID)
  | sendHeartbeat (nodeID : NodeID) (now : Time) (st : NodeReply)
  | checkNodeHealth (now : Time)
  /-- `electPrimaryOnce` returns. -/
  | elect (e : Server) (polls : List Poll) (reply : NodeID → Option NodeReply)
  /-- `pushClusterState` with its result. -/
  | pushClusterState

/-- The Primary is this node. -/
def State.isPrimary (s : State) (n : NodeID) : Bool := s.primary.any fun p => p.nodeID = n

def step (c : Config) (s : State) : Action → Option State
  | .registerNode nodeID memberID clientAddr peerAddr now =>
    if nodeID = "" ∨ clientAddr = "" ∨ peerAddr = "" then none
    else some { s with nodes := s.nodes.add (newEntry nodeID memberID clientAddr peerAddr now) }
  | .deregisterNode nodeID =>
    if nodeID = "" then none
    else
      let s' := { s with nodes := s.nodes.remove nodeID }
      some (if s.isPrimary nodeID then s'.clearPrimary else s')
  | .sendHeartbeat nodeID now st =>
    -- `NotFound` for a node that is not registered
    if (s.nodes.get nodeID).isNone then some s
    else
      some { s with
        nodes := updateHeartbeat s.nodes nodeID now st.healthState st.primaryState
          st.latestRevision st.startTime
        reports := if s.isPrimary nodeID then st.primaryState :: s.reports else s.reports }
  | .checkNodeHealth now =>
    let s' :=
      { s with nodes := checkNodeHealth s.nodes c.degradationDeadline c.deregTimeout now }
    let changed := toDegraded s.nodes c.degradationDeadline now ++
      toDeregistered s.nodes c.deregTimeout now
    some (if changed.any s.isPrimary then s'.clearPrimary else s')
  | .elect e polls reply =>
    if needsPrimaryElection s ∧ s.elected = none ∧ e.nodeMap = s.nodes then
      match electPrimaryOnce e polls reply with
      | .ok info => some { s with elected := some info }
      | .error _ => some s
    else none
  | .pushClusterState =>
    s.elected.map fun info => { s with primary := some info, elected := none, reports := [] }

/-- The Primary reported Active and then Replica. -/
def gaveUp : List PrimaryState → Bool
  | .replica :: earlier => .active ∈ earlier
  | _ => false

/-- The Primary, if there is one, is registered, not Degraded, and has not given up. -/
def Usable (s : State) : Prop :=
  ∀ p ∈ s.primary, ∃ e, s.nodes.get p.nodeID = some e ∧ e.healthState ≠ .degraded ∧
    gaveUp s.reports = false

/-- **The steps that leave the Elector with a usable Primary.** The Primary reports itself neither
Degraded nor, after Active, as Replica, and the elected node is still registered and not Degraded
when the result is pushed. -/
def Sound (s : State) : Action → Prop
  | .sendHeartbeat nodeID _ st =>
    s.isPrimary nodeID = true →
      st.healthState ≠ .degraded ∧ (st.primaryState = .replica → .active ∉ s.reports)
  | .pushClusterState =>
    ∀ info ∈ s.elected, ∃ e, s.nodes.get info.nodeID = some e ∧ e.healthState ≠ .degraded
  | _ => True

instance (s : State) : ∀ a, Decidable (Sound s a)
  | .sendHeartbeat nodeID _ st =>
    inferInstanceAs (Decidable (s.isPrimary nodeID = true →
      st.healthState ≠ .degraded ∧ (st.primaryState = .replica → .active ∉ s.reports)))
  | .pushClusterState =>
    match h : s.elected with
    | none => .isTrue (by simp [Sound, h])
    | some info =>
      decidable_of_iff ((s.nodes.get info.nodeID).any fun e => e.healthState ≠ .degraded)
        (by simp [Sound, h, Option.any_eq_true])
  | .registerNode .. | .deregisterNode _ | .checkNodeHealth _ | .elect .. => .isTrue trivial

variable {c : Config} {s s' : State} {a : Action} {as : List Action} {p : NodeInfo} {n : NodeID}
  {e : NodeEntry} {now : Time}

theorem isPrimary_iff : s.isPrimary n = true ↔ ∃ p, s.primary = some p ∧ p.nodeID = n := by
  simp [State.isPrimary, Option.any_eq_true]

theorem usable_clearPrimary : Usable s.clearPrimary := fun _ h => nomatch h

theorem usable_of_get (hs : Usable s) (hp : s'.primary = s.primary)
    (hget : ∀ p e, s.primary = some p → s.nodes.get p.nodeID = some e →
      e.healthState ≠ .degraded →
      ∃ e', s'.nodes.get p.nodeID = some e' ∧ e'.healthState ≠ .degraded)
    (hr : ∀ p, s.primary = some p → gaveUp s.reports = false → gaveUp s'.reports = false) :
    Usable s' := by
  intro p hp'
  rw [hp] at hp'
  obtain ⟨e, he, hd, hg⟩ := hs p hp'
  obtain ⟨e', he', hd'⟩ := hget p e hp' he hd
  exact ⟨e', he', hd', hr p hp' hg⟩

theorem gaveUp_cons {r : PrimaryState} {l : List PrimaryState}
    (h : r = .replica → .active ∉ l) : gaveUp (r :: l) = false := by
  cases r with
  | replica => simpa [gaveUp] using h rfl
  | _ => rfl

theorem usable_checkNodeHealth (hs : Usable s) (h : step c s (.checkNodeHealth now) = some s') :
    Usable s' := by
  simp only [step, Option.some.injEq] at h
  subst h
  split_ifs with hchanged
  · exact usable_clearPrimary
  · refine usable_of_get hs rfl (fun p e hp he hd => ?_) (fun _ _ hg => hg)
    have hkept : p.nodeID ∉ toDegraded s.nodes c.degradationDeadline now ++
        toDeregistered s.nodes c.deregTimeout now := fun hmem =>
      hchanged (List.any_eq_true.mpr ⟨_, hmem, isPrimary_iff.mpr ⟨p, hp, rfl⟩⟩)
    simp only [List.mem_append, not_or, toDegraded, toDeregistered, mem_map_filter_iff, he,
      Option.any_some] at hkept
    refine ⟨e, ?_, hd⟩
    simp [get_checkNodeHealth, he, NodeEntry.check, hkept.1, hkept.2]

theorem usable_step (hs : Usable s) (hok : Sound s a) (h : step c s a = some s') : Usable s' := by
  cases a with
  | registerNode nodeID memberID clientAddr peerAddr now =>
    simp only [step] at h
    split_ifs at h
    cases h
    refine usable_of_get hs rfl (fun p e _ he hd => ?_) (fun _ _ hg => hg)
    rw [KeyedMap.get_add]
    split_ifs
    · exact ⟨_, rfl, by simp [newEntry]⟩
    · exact ⟨e, he, hd⟩
  | deregisterNode nodeID =>
    simp only [step] at h
    split_ifs at h with hempty hprimary
    · cases h
      exact usable_clearPrimary
    · cases h
      refine usable_of_get hs rfl (fun p e hp he hd => ⟨e, ?_, hd⟩) (fun _ _ hg => hg)
      rw [KeyedMap.get_remove, if_neg]
      · exact he
      · exact fun hn => hprimary (isPrimary_iff.mpr ⟨p, hp, hn⟩)
  | sendHeartbeat nodeID now st =>
    simp only [step] at h
    split_ifs at h with hnone hprimary
    · cases h
      exact hs
    · -- the heartbeat is the Primary's
      cases h
      obtain ⟨hd', hr⟩ := hok hprimary
      refine usable_of_get hs rfl (fun p e hp he _ => ?_) (fun _ _ _ => gaveUp_cons hr)
      obtain ⟨q, hq, rfl⟩ := isPrimary_iff.mp hprimary
      obtain rfl : p = q := Option.some.inj (hp.symm.trans hq)
      rw [get_updateHeartbeat, if_pos rfl, he]
      exact ⟨_, rfl, hd'⟩
    · cases h
      refine usable_of_get hs rfl (fun p e hp he hd => ⟨e, ?_, hd⟩) (fun _ _ hg => hg)
      rw [get_updateHeartbeat, if_neg]
      · exact he
      · exact fun hn => hprimary (isPrimary_iff.mpr ⟨p, hp, hn⟩)
  | checkNodeHealth now => exact usable_checkNodeHealth hs h
  | elect e polls reply =>
    simp only [step] at h
    split_ifs at h
    split at h
    · cases h
      exact hs
    · cases h
      exact hs
  | pushClusterState =>
    obtain ⟨info, hinfo, rfl⟩ := Option.map_eq_some_iff.mp h
    intro p hp
    obtain rfl : info = p := Option.some.inj hp
    obtain ⟨e, he, hd⟩ := hok info hinfo
    exact ⟨e, he, hd, rfl⟩

/-- **After a pass the Primary is usable or cleared**, in every run whose steps are sound. -/
theorem primary_usable_after_pass (c : Config) (m : Nodes) (known : Option NodeInfo)
    (hknown : ∀ p ∈ known, ∃ e, m.get p.nodeID = some e ∧ e.healthState ≠ .degraded)
    (hok : Meets (step c) Sound (.boot m known) as)
    (h : exec (step c) (.boot m known) as = some s)
    (hpass : step c s (.checkNodeHealth now) = some s') :
    needsPrimaryElection s' = true ∨
      ∃ p e, s'.primary = some p ∧ s'.nodes.get p.nodeID = some e ∧ e.healthState ≠ .degraded ∧
        gaveUp s'.reports = false := by
  have hboot : Usable (.boot m known) := fun p hp => by
    obtain ⟨e, he, hd⟩ := hknown p hp
    exact ⟨e, he, hd, rfl⟩
  have hs : Usable s := exec_invariant (fun _ _ _ => usable_step) hboot hok h
  have hs' := usable_checkNodeHealth hs hpass
  cases hp : s'.primary with
  | none => exact Or.inl (by simp [needsPrimaryElection, hp])
  | some p =>
    obtain ⟨e, he, hd, hg⟩ := hs' p hp
    exact Or.inr ⟨p, e, rfl, he, hd, hg⟩

/-- The Elector of three nodes with no Primary elects `"b"`. -/
def electsB : List Action := [.elect (threeNodes .healthy 4) [] (onlyB .healthy 5)]

def threeNodeBoot : State := .boot (threeNodes .healthy 4).nodeMap none

/-- The node reports this about itself. -/
def reports (n : NodeID) (now : Time) (health : HealthState) (primary : PrimaryState) : Action :=
  .sendHeartbeat n now
    { healthState := health, primaryState := primary, latestRevision := 5, startTime := 2 }

/-- `"b"` is told and becomes Active. -/
def becomesActive : List Action :=
  electsB ++ [.pushClusterState, reports "b" 1 .healthy .starting, reports "b" 2 .healthy .active]

theorem primary_usable_after_pass_becomesActive :
    ∃ s s', exec (step seconds) threeNodeBoot becomesActive = some s ∧
      step seconds s (.checkNodeHealth 12) = some s' ∧
      (needsPrimaryElection s' = true ∨
        ∃ p e, s'.primary = some p ∧ s'.nodes.get p.nodeID = some e ∧ e.healthState ≠ .degraded ∧
          gaveUp s'.reports = false) := by
  obtain ⟨s, hs, -⟩ := exists_exec_of_any (step seconds) threeNodeBoot becomesActive
    (fun s => s.isPrimary "b" = true) (by decide +kernel)
  exact ⟨s, _, hs, rfl, primary_usable_after_pass seconds _ none (fun _ h => nomatch h)
    (by decide +kernel) hs rfl⟩

/-- **An unusable Primary stays**: one that reports itself Degraded, one that has given up, and one
that deregistered between its election and the push. -/
theorem unusable_primary_stays :
    (∃ s, exec (step seconds) threeNodeBoot
        (becomesActive ++ [reports "b" 4 .degraded .draining, .checkNodeHealth 5]) = some s ∧
      s.isPrimary "b" = true ∧
      (s.nodes.get "b").any (fun e => e.healthState = .degraded) = true) ∧
    (∃ s, exec (step seconds) threeNodeBoot
        (becomesActive ++ [reports "b" 4 .healthy .replica, .checkNodeHealth 5]) = some s ∧
      s.isPrimary "b" = true ∧ gaveUp s.reports = true) ∧
    ∃ s, exec (step seconds) threeNodeBoot
        (electsB ++ [.deregisterNode "b", .pushClusterState, .checkNodeHealth 5]) = some s ∧
      s.isPrimary "b" = true ∧ s.nodes.get "b" = none :=
  ⟨exists_exec_of_any (step seconds) _ _ _ (by decide +kernel),
    exists_exec_of_any (step seconds) _ _ _ (by decide +kernel),
    exists_exec_of_any (step seconds) _ _ _ (by decide +kernel)⟩

end Netsy.Elector.ClearPrimary
