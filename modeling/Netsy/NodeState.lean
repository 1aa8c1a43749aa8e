import Mathlib.Tactic.Common

/-! # The state of a node

The health of a node and its role relative to the Primary, with the transitions
`nodestate.State` allows. -/

namespace Netsy.NodeState

inductive HealthState
  | loading | healthy | degraded
deriving DecidableEq, Repr

inductive PrimaryState
  | replica | starting | active | draining
deriving DecidableEq, Repr

def validHealthTransitions : HealthState → List HealthState
  | .loading => [.healthy, .degraded]
  | .healthy => [.degraded]
  | .degraded => [.loading, .healthy]

/-- `State.SetHealth`; `none` is the error of an invalid transition. -/
def setHealth (old new : HealthState) : Option HealthState :=
  if new ∈ validHealthTransitions old then some new else none

theorem setHealth_degraded (old : HealthState) :
    setHealth old .degraded = if old = .degraded then none else some .degraded := by
  cases old <;> rfl

def validPrimaryTransitions : PrimaryState → List PrimaryState
  | .replica => [.starting]
  | .starting => [.active, .replica, .draining]
  | .active => [.draining]
  | .draining => [.replica]

def validPrimaryTransition (old new : PrimaryState) : Bool := new ∈ validPrimaryTransitions old

/-- `State.SetPrimary`; `none` is the error of an invalid transition. -/
def setPrimary (old new : PrimaryState) : Option PrimaryState :=
  if validPrimaryTransition old new then some new else none

/-- `SetPrimary` by a caller that only logs the error. -/
def trySetPrimary (old new : PrimaryState) : PrimaryState := (setPrimary old new).getD old

theorem trySetPrimary_ne {old new p : PrimaryState} (h : old ≠ p) (hn : new ≠ p) :
    trySetPrimary old new ≠ p := by
  unfold trySetPrimary setPrimary
  split_ifs
  · exact hn
  · exact h

theorem trySetPrimary_eq_or (old new : PrimaryState) :
    trySetPrimary old new = old ∨ trySetPrimary old new = new := by
  unfold trySetPrimary setPrimary
  split_ifs
  · exact Or.inr rfl
  · exact Or.inl rfl

theorem trySetPrimary_starting (old : PrimaryState) :
    trySetPrimary old .starting = if old = .replica then .starting else old := by
  cases old <;> rfl

theorem trySetPrimary_active (old : PrimaryState) :
    trySetPrimary old .active = if old = .starting then .active else old := by
  cases old <;> rfl

theorem trySetPrimary_draining_ne_active (old : PrimaryState) :
    trySetPrimary old .draining ≠ .active := by
  cases old <;> decide

end Netsy.NodeState
