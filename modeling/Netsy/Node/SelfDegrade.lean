import Netsy.Node.Roles

/-! # A Primary that degrades

A node degrades itself when its heartbeats fail (`Sender.degradeSelf`) and when it lags behind or
cannot send receipts (`Follower.degradeSelf`). The first of the two reads the role before it sets
the health, and calls back if the node was not a Replica then; the callback starts the shutdown, and
with it the drain. The role moves on its own meanwhile. -/

namespace Netsy.Node.SelfDegrade

open Proto NodeState Lib.Run Primary.Preflight Node.Roles

/-- Where a call of `degradeSelf` stands, past its check of the health. -/
inductive Stand
  | senderChecked
  /-- `wasPrimary` has been read. -/
  | senderRead (wasPrimary : Bool)
  | followerChecked
  | returned
deriving DecidableEq, Repr

structure State where
  node : Roles.State
  health : HealthState := .loading
  /-- The calls of `degradeSelf`. -/
  calls : List Stand := []
  /-- The callback has been called since the node last left Replica. -/
  notified : Bool := false
deriving DecidableEq

def State.start (data : Node) : State := { node := .start data }

inductive Action
  /-- The role of the node and all that moves it. -/
  | role (a : Roles.Action)
  /-- The bootstrap sets Healthy at its end. -/
  | loaded
  /-- A heartbeat fails after its retry. -/
  | heartbeatFailed
  /-- The lag is still there after the grace period, or a receipt cannot be sent. -/
  | replicaFailed
  /-- The call `i` of `degradeSelf` goes on. -/
  | degradeSelf (i : ℕ)

/-- The health is checked; a Degraded node is left alone. -/
def State.check (s : State) (stand : Stand) : State :=
  if s.health = .degraded then s else { s with calls := s.calls ++ [stand] }

/-- `SetHealth(Degraded)` and the callback for a Primary, which follows at once: the moment between
the two is not a state. -/
def State.degrade (s : State) (i : ℕ) (wasPrimary : Bool) : State :=
  let s := { s with calls := s.calls.set i .returned }
  match setHealth s.health .degraded with
  | none => s
  | some health => { s with health := health, notified := s.notified || wasPrimary }

def step (nodeID : NodeID) (s : State) : Action → Option State
  | .role a =>
    (Roles.step nodeID s.node a).map fun node =>
      { s with
        node := node
        notified :=
          if s.node.primary = .replica ∧ node.primary ≠ .replica then false else s.notified }
  | .loaded => (setHealth s.health .healthy).map fun health => { s with health := health }
  | .heartbeatFailed => some (s.check .senderChecked)
  | .replicaFailed => some (s.check .followerChecked)
  | .degradeSelf i =>
    (s.calls[i]?).bind fun
      | .senderChecked =>
        some { s with calls := s.calls.set i (.senderRead (s.node.primary ≠ .replica)) }
      | .senderRead wasPrimary => some (s.degrade i wasPrimary)
      | .followerChecked => some (s.degrade i false)
      | .returned => none

/-- The call sets the health and does not call back. -/
def Stand.silent : Stand → Bool
  | .senderRead wasPrimary => !wasPrimary
  | .followerChecked => true
  | _ => false

/-- **The steps that degrade no Primary in silence.** A Degraded node does not become Starting, and
a call that does not call back degrades no node that is Starting or Active. -/
def Loud (s : State) : Action → Prop
  | .role .applyNext =>
    s.health = .degraded → s.node.primary = .replica →
      ∀ c ∈ s.node.applying, c.stand.starts = false
  | .degradeSelf i =>
    ∀ stand ∈ s.calls[i]?, stand.silent = true → s.health ≠ .degraded → ¬ Leads s.node.primary
  | _ => True

instance (s : State) : ∀ a, Decidable (Loud s a) := by
  intro a
  unfold Loud
  split <;> infer_instance

variable {nodeID : NodeID} {s s' : State} {a : Action} {as : List Action} {data : Node} {i : ℕ}

/-- A Degraded node that is Starting or Active has called back. -/
def Notified (s : State) : Prop :=
  Leads s.node.primary → s.health = .degraded → s.notified = true

theorem degrade_cases (s : State) (i : ℕ) (wasPrimary : Bool) :
    (s.degrade i wasPrimary).node = s.node ∧
      (s.health = .degraded ∧ (s.degrade i wasPrimary).health = .degraded ∧
          (s.degrade i wasPrimary).notified = s.notified ∨
        s.health ≠ .degraded ∧ (s.degrade i wasPrimary).notified = (s.notified || wasPrimary)) := by
  unfold State.degrade
  dsimp only
  rw [setHealth_degraded]
  by_cases hd : s.health = .degraded
  · simp [hd]
  · simp [hd]

theorem notified_degrade (hs : Notified s) {wasPrimary : Bool}
    (hok : wasPrimary = false → s.health ≠ .degraded → ¬ Leads s.node.primary) :
    Notified (s.degrade i wasPrimary) := by
  obtain ⟨hnode, ⟨hd, -, hnot⟩ | ⟨hd, hnot⟩⟩ := degrade_cases s i wasPrimary
  · intro hl _
    rw [hnot]
    exact hs (hnode ▸ hl) hd
  · intro hl _
    rw [hnot]
    cases wasPrimary with
    | true => exact Bool.or_true _
    | false =>
      exact absurd (hnode ▸ hl) (hok rfl hd)

theorem notified_step (hs : Notified s) (hok : Loud s a) (h : step nodeID s a = some s') :
    Notified s' := by
  cases a with
  | role b =>
    obtain ⟨node, hnode, rfl⟩ := Option.map_eq_some_iff.mp h
    obtain ⟨node', hact, rfl⟩ := Option.map_eq_some_iff.mp hnode
    intro hl hd
    cases moves_of_act hact with
    | keep he =>
      have hl' : Leads s.node.primary := he ▸ hl
      have hne : s.node.primary ≠ .replica := by
        rintro hr
        rw [hr] at hl'
        exact absurd hl' (by decide)
      simp only [hne, false_and, if_false]
      exact hs hl' hd
    | giveUp he =>
      have hno : ¬ Leads node'.primary := by
        rcases he with he | he <;> rw [he] <;> decide
      exact absurd hl hno
    | enter ha hc hstarts hr _ _ =>
      -- a Degraded node does not enter
      subst ha
      exact absurd hstarts (by simp [hok hd hr _ hc])
    | activate ha _ _ hstarting _ =>
      simp only [hstarting, reduceCtorEq, false_and, if_false]
      exact hs (Or.inl hstarting) hd
  | loaded =>
    obtain ⟨health, hset, rfl⟩ := Option.map_eq_some_iff.mp h
    unfold setHealth at hset
    split_ifs at hset
    cases hset
    exact fun _ hd => nomatch hd
  | heartbeatFailed =>
    cases h
    unfold State.check
    split_ifs
    · exact hs
    · exact hs
  | replicaFailed =>
    cases h
    unfold State.check
    split_ifs
    · exact hs
    · exact hs
  | degradeSelf i =>
    obtain ⟨stand, hstand, hnext⟩ := Option.bind_eq_some_iff.mp h
    have hquiet := hok stand hstand
    cases stand with
    | senderChecked =>
      cases hnext
      exact hs
    | senderRead wasPrimary =>
      cases hnext
      exact notified_degrade hs fun hw => hquiet (by simp [Stand.silent, hw])
    | followerChecked =>
      cases hnext
      exact notified_degrade hs fun _ => hquiet rfl
    | returned => cases hnext

/-- **An Active node that is Degraded has called back since it left Replica**, if every step is
loud. -/
theorem active_degraded_notified (hok : Meets (step nodeID) Loud (.start data) as)
    (h : exec (step nodeID) (.start data) as = some s) (hactive : s.node.primary = .active)
    (hd : s.health = .degraded) : s.notified = true := by
  have hstart : Notified (.start data) := fun hl => absurd hl (by decide : ¬ Leads .replica)
  exact exec_invariant (fun _ _ _ hs hok hstep => notified_step hs hok hstep) hstart hok h
    (Or.inr hactive) hd

/-- The node is elected and becomes Active. -/
def becomesActive : List Action := (.wire :: applies "n1" 6 ++ goes 0 17).map .role

/-- The node becomes Active, and then its heartbeats fail. -/
def failsAsPrimary : List Action :=
  .loaded :: becomesActive ++ [.heartbeatFailed, .degradeSelf 0, .degradeSelf 0]

theorem active_degraded_notified_failsAsPrimary :
    ∃ s, exec (step "n1") (.start oneRecord) failsAsPrimary = some s ∧
      s.node.primary = .active ∧ s.health = .degraded ∧ s.notified = true := by
  have hok : Meets (step "n1") Loud (.start oneRecord) failsAsPrimary := by decide +kernel
  obtain ⟨s, hs, hactive, hd⟩ := exists_exec_of_any (step "n1") (.start oneRecord) failsAsPrimary
    (fun s => s.node.primary = .active ∧ s.health = .degraded) (by decide +kernel)
  exact ⟨s, hs, hactive, hd, active_degraded_notified hok hs hactive hd⟩

/-- **A node that degrades as a Replica, or as its heartbeat finds it a Replica, becomes an Active
Primary that never calls back**, and its later failures return early. -/
theorem active_and_silently_degraded :
    (∃ s, exec (step "n1") (.start oneRecord)
        (.loaded :: .replicaFailed :: .degradeSelf 0 :: becomesActive ++ [.heartbeatFailed]) =
          some s ∧ s.node.primary = .active ∧ s.health = .degraded ∧ s.notified = false) ∧
    ∃ s, exec (step "n1") (.start oneRecord)
        (.loaded :: .heartbeatFailed :: .degradeSelf 0 :: becomesActive ++
          [.degradeSelf 0, .heartbeatFailed]) = some s ∧
      s.node.primary = .active ∧ s.health = .degraded ∧ s.notified = false :=
  ⟨exists_exec_of_any (step "n1") _ _ _ (by decide +kernel),
    exists_exec_of_any (step "n1") _ _ _ (by decide +kernel)⟩

end Netsy.Node.SelfDegrade
