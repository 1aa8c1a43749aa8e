import Netsy.Elector.Membership

/-! # Since when a node is Degraded

`DegradedAt` is written by `SetHealthState`; a heartbeat writes the health that the node reports and
leaves `DegradedAt` as it is. An observer notes for every entry the time of its latest change to
Degraded, whichever step made it. -/

namespace Netsy.Elector.Degradation

open Proto NodeState Elector.NodeMap Lib.Keyed Lib.Run
open Elector.Membership (newEntry)

/-- The settings of the health check. -/
structure Config where
  degradationDeadline : ℤ
  deregTimeout : ℤ
deriving DecidableEq, Repr

inductive Action
  | registerNode (nodeID : NodeID) (memberID : ℕ) (clientAddr peerAddr : String)
  | updateHeartbeat (nodeID : NodeID) (health : HealthState) (primary : PrimaryState)
      (latestRevision startTime : ℤ)
  | setHealthState (nodeID : NodeID) (health : HealthState)
  | checkNodeHealth
deriving DecidableEq, Repr

/-- The node map after the action at this time. -/
def act (c : Config) (m : Nodes) (now : Time) : Action → Option Nodes
  | .registerNode nodeID memberID clientAddr peerAddr =>
    if nodeID = "" ∨ clientAddr = "" ∨ peerAddr = "" then none
    else some (m.add (newEntry nodeID memberID clientAddr peerAddr now))
  | .updateHeartbeat nodeID health primary latestRevision startTime =>
    some (updateHeartbeat m nodeID now health primary latestRevision startTime)
  | .setHealthState nodeID health => some (setHealthState m nodeID health now)
  | .checkNodeHealth => some (checkNodeHealth m c.degradationDeadline c.deregTimeout now)

/-- The node is registered and Degraded. -/
def degraded (m : Nodes) (n : NodeID) : Bool := (m.get n).any fun e => e.healthState = .degraded

structure State where
  nodes : Nodes
  clock : Time
  /-- The time of the latest change to Degraded of a node that is Degraded. -/
  degradedSince : NodeID → Option Time

def State.start : State := { nodes := .empty, clock := 0, degradedSince := fun _ => none }

/-- The observer compares the map before a step with the one after it. -/
def observe (m m' : Nodes) (now : Time) (since : NodeID → Option Time) (n : NodeID) :
    Option Time :=
  if degraded m' n then (if degraded m n then since n else some now) else none

/-- An action at a time that is not before the last one. -/
def step (c : Config) (s : State) (a : Time × Action) : Option State :=
  if a.1 < s.clock then none
  else
    (act c s.nodes a.1 a.2).map fun m =>
      { nodes := m, clock := a.1, degradedSince := observe s.nodes m a.1 s.degradedSince }

/-- What the map is to say about its Degraded entries. -/
structure Kept (c : Config) (s : State) : Prop where
  /-- `DegradedAt` is set exactly on the Degraded entries. -/
  stamped : ∀ n e, s.nodes.get n = some e → (e.degradedAt ≠ none ↔ e.healthState = .degraded)
  /-- It is the time of the latest change to Degraded. -/
  latest : ∀ n e, s.nodes.get n = some e → e.healthState = .degraded →
    e.degradedAt = s.degradedSince n
  /-- A pass removes exactly the nodes that have been Degraded for the timeout. -/
  deregisters : ∀ n e now, s.nodes.get n = some e → s.clock ≤ now →
    ((checkNodeHealth s.nodes c.degradationDeadline c.deregTimeout now).get n = none ↔
      e.healthState = .degraded ∧ 0 < c.deregTimeout ∧
        ∃ since, s.degradedSince n = some since ∧ c.deregTimeout ≤ now - since)

/-- **The steps that keep the timestamps.** A heartbeat reports a Degraded node as Degraded and
another one as not Degraded; `SetHealthState` does not degrade a Degraded node again later. -/
def Stamps (s : State) (a : Time × Action) : Prop :=
  match a.2 with
  | .updateHeartbeat nodeID health _ _ _ =>
    ∀ e ∈ s.nodes.get nodeID, (health = .degraded ↔ e.healthState = .degraded)
  | .setHealthState nodeID health =>
    ∀ e ∈ s.nodes.get nodeID, health = .degraded → e.healthState = .degraded →
      e.degradedAt = some a.1
  | _ => True

instance (s : State) : ∀ a, Decidable (Stamps s a)
  | (_, .updateHeartbeat nodeID _ _ _ _) =>
    match h : s.nodes.get nodeID with
    | none => .isTrue (by simp [Stamps, h])
    | some e => decidable_of_iff (_ ↔ e.healthState = .degraded) (by simp [Stamps, h]; rfl)
  | (now, .setHealthState nodeID health) =>
    match h : s.nodes.get nodeID with
    | none => .isTrue (by simp [Stamps, h])
    | some e =>
      decidable_of_iff
        (health = .degraded → e.healthState = .degraded → e.degradedAt = some now)
        (by simp [Stamps, h])
  | (_, .registerNode ..) | (_, .checkNodeHealth) => .isTrue trivial

variable {c : Config} {s s' : State} {a : Time × Action} {as : List (Time × Action)}
  {m m' : Nodes} {n : NodeID} {e : NodeEntry} {now : Time}

/-- The observer has a time for the Degraded nodes only. -/
def Observed (s : State) : Prop := ∀ n, (s.degradedSince n).isSome = degraded s.nodes n

/-- `DegradedAt` is what the observer has. -/
def Exact (s : State) : Prop := ∀ n e, s.nodes.get n = some e → e.degradedAt = s.degradedSince n

theorem degraded_of_get (h : m.get n = some e) :
    degraded m n = decide (e.healthState = .degraded) := by
  simp [degraded, h]

theorem observe_eq (hs : Observed s) (h : degraded m' n = degraded s.nodes n) :
    observe s.nodes m' now s.degradedSince n = s.degradedSince n := by
  unfold observe
  rw [h]
  split_ifs with hd
  · rfl
  · have hnone := hs n
    rw [Bool.eq_false_iff.mpr hd, Option.isSome_eq_false_iff, Option.isNone_iff_eq_none] at hnone
    exact hnone.symm

theorem degradedSince_eq_none (hs : Observed s) (h : s.nodes.get n = some e)
    (hd : e.healthState ≠ .degraded) : s.degradedSince n = none := by
  have hnone := hs n
  rwa [degraded_of_get h, decide_eq_false hd, Option.isSome_eq_false_iff,
    Option.isNone_iff_eq_none] at hnone

theorem degradedSince_ne_none (hs : Observed s) (h : s.nodes.get n = some e)
    (hd : e.healthState = .degraded) : s.degradedSince n ≠ none := by
  have hsome := hs n
  rw [degraded_of_get h, decide_eq_true hd] at hsome
  exact Option.isSome_iff_ne_none.mp hsome

theorem step_eq_some (h : step c s a = some s') :
    s.clock ≤ a.1 ∧ act c s.nodes a.1 a.2 = some s'.nodes ∧ s'.clock = a.1 ∧
      s'.degradedSince = observe s.nodes s'.nodes a.1 s.degradedSince := by
  unfold step at h
  split_ifs at h with ht
  obtain ⟨m, hm, rfl⟩ := Option.map_eq_some_iff.mp h
  exact ⟨not_lt.mp ht, hm, rfl, rfl⟩

theorem observed_step (hs : Observed s) (h : step c s a = some s') : Observed s' := by
  obtain ⟨-, -, -, hsince⟩ := step_eq_some h
  intro n
  rw [hsince, observe]
  split_ifs with h1 h2
  · rw [hs n, h1, h2]
  · rw [h1, Option.isSome_some]
  · rw [Bool.eq_false_iff.mpr h1, Option.isSome_none]

theorem kept_iff_exact (hs : Observed s) : Kept c s ↔ Exact s := by
  constructor
  · intro hk n e he
    by_cases hd : e.healthState = .degraded
    · exact hk.latest n e he hd
    · rw [degradedSince_eq_none hs he hd]
      exact not_not.mp fun hne => hd ((hk.stamped n e he).mp hne)
  · intro hx
    refine ⟨fun n e he => ?_, fun n e he _ => hx n e he, fun n e now he _ => ?_⟩
    · rw [hx n e he]
      constructor
      · intro hne
        by_contra hd
        exact hne (degradedSince_eq_none hs he hd)
      · exact degradedSince_ne_none hs he
    · rw [get_checkNodeHealth, he, Option.map_eq_none_iff, Option.filter_eq_none_iff]
      simp [degradedTooLong, hx n e he, Option.any_eq_true, and_assoc]

theorem observe_of_get {since : NodeID → Option Time} {e' : NodeEntry} (h : m.get n = some e)
    (h' : m'.get n = some e') :
    observe m m' now since n =
      if e'.healthState = .degraded then
        (if e.healthState = .degraded then since n else some now)
      else none := by
  simp [observe, degraded, h, h']

theorem exact_of_one (hs : Observed s) (hx : Exact s) (k : NodeID)
    (hother : ∀ n ≠ k, s'.nodes.get n = s.nodes.get n)
    (hsince : s'.degradedSince = observe s.nodes s'.nodes now s.degradedSince) :
    Exact s' ↔
      ∀ e ∈ s'.nodes.get k, e.degradedAt = observe s.nodes s'.nodes now s.degradedSince k := by
  constructor
  · intro h e he
    rw [← hsince]
    exact h k e he
  · intro h n e he
    rw [hsince]
    by_cases hn : n = k
    · subst hn
      exact h e he
    · have hget := hother n hn
      rw [observe_eq hs (by simp only [degraded, hget])]
      exact hx n e (hget ▸ he)

theorem exact_of_modified {f : NodeEntry → NodeEntry} (hs : Observed s) (hx : Exact s) (k : NodeID)
    (hget : ∀ n, s'.nodes.get n = if n = k then (s.nodes.get k).map f else s.nodes.get n)
    (hsince : s'.degradedSince = observe s.nodes s'.nodes now s.degradedSince) :
    Exact s' ↔ ∀ e ∈ s.nodes.get k, (f e).degradedAt =
      if (f e).healthState = .degraded then
        (if e.healthState = .degraded then s.degradedSince k else some now)
      else none := by
  refine (exact_of_one hs hx k (fun n hn => (hget n).trans (if_neg hn)) hsince).trans ?_
  have hk := hget k
  rw [if_pos rfl] at hk
  cases he : s.nodes.get k with
  | none =>
    rw [he] at hk
    simp [hk]
  | some e =>
    rw [he, Option.map_some] at hk
    simp [hk, observe_of_get he hk]

theorem heartbeat_exact (hs : Observed s) (hx : Exact s) (he : s.nodes.get n = some e)
    (health : HealthState) :
    (e.degradedAt =
        if health = .degraded then
          (if e.healthState = .degraded then s.degradedSince n else some now)
        else none) ↔
      (health = .degraded ↔ e.healthState = .degraded) := by
  rw [hx n e he]
  by_cases hd : e.healthState = .degraded
  · have hne := degradedSince_ne_none hs he hd
    by_cases hh : health = .degraded <;> simp [hd, hh, hne]
  · have hnone := degradedSince_eq_none hs he hd
    by_cases hh : health = .degraded <;> simp [hd, hh, hnone]

theorem exact_step (hs : Observed s) (hx : Exact s) (h : step c s a = some s') :
    Exact s' ↔ Stamps s a := by
  obtain ⟨-, hact, -, hsince⟩ := step_eq_some h
  obtain ⟨now, a⟩ := a
  cases a with
  | registerNode nodeID memberID clientAddr peerAddr =>
    simp only [act] at hact
    split_ifs at hact
    have hget : ∀ n, s'.nodes.get n =
        if n = nodeID then some (newEntry nodeID memberID clientAddr peerAddr now)
        else s.nodes.get n := fun n => by
      rw [← Option.some.inj hact, KeyedMap.get_add]
      rfl
    refine (exact_of_one hs hx nodeID (fun n hn => (hget n).trans (if_neg hn)) hsince).trans
      (iff_of_true (fun e he => ?_) trivial)
    -- the new entry is Loading
    rw [hget, if_pos rfl] at he
    cases he
    simp [observe, degraded, hget, newEntry]
  | updateHeartbeat nodeID health primary latestRevision startTime =>
    have hget := get_updateHeartbeat s.nodes nodeID now health primary latestRevision startTime
    rw [Option.some.inj hact] at hget
    exact (exact_of_modified hs hx nodeID hget hsince).trans
      (forall₂_congr fun e he => heartbeat_exact hs hx he health)
  | setHealthState nodeID health =>
    have hget := get_setHealthState s.nodes nodeID health now
    rw [Option.some.inj hact] at hget
    refine (exact_of_modified hs hx nodeID hget hsince).trans (forall₂_congr fun e he => ?_)
    have hdeg := hx nodeID e he
    by_cases hh : health = .degraded
    · by_cases hd : e.healthState = .degraded
      · simpa [NodeEntry.setHealthState, hh, hd, hdeg] using eq_comm
      · simp [NodeEntry.setHealthState, hh, hd]
    · simp [NodeEntry.setHealthState, hh]
  | checkNodeHealth =>
    have hget := get_checkNodeHealth s.nodes c.degradationDeadline c.deregTimeout now
    rw [Option.some.inj hact] at hget
    refine iff_of_true (fun n e' he' => ?_) trivial
    have hcheck := hget n
    rw [he', eq_comm, Option.map_eq_some_iff] at hcheck
    obtain ⟨e, hfilter, rfl⟩ := hcheck
    have he : s.nodes.get n = some e := (Option.filter_eq_some_iff.mp hfilter).1
    rw [hsince, observe_of_get he he']
    have hdeg := hx n e he
    unfold NodeEntry.check
    by_cases hm : missedHeartbeats c.degradationDeadline now e = true
    · -- it was not Degraded, and is so from now on
      have hne : e.healthState ≠ .degraded := by simp_all [missedHeartbeats]
      simp [hm, NodeEntry.setHealthState, hne]
    · by_cases hd : e.healthState = .degraded
      · simp [hm, hd, hdeg]
      · simp [hm, hd, hdeg, degradedSince_eq_none hs he hd]

theorem observed_start : Observed .start := fun _ => rfl

theorem exact_start : Exact .start := fun _ _ h => nomatch h

/-- **The node map keeps its Degraded entries exactly in the runs that keep the timestamps.** -/
theorem degradation_kept_iff (c : Config) (as : List (Time × Action)) (s : State)
    (h : exec (step c) .start as = some s) :
    Always (step c) (Kept c) .start as ↔ Meets (step c) Stamps .start as := by
  refine always_iff_meets (I := Observed) (fun _ _ _ hs h => observed_step hs h)
    (fun s a s' hs hk h => ?_) observed_start ((kept_iff_exact observed_start).mpr exact_start) h
  rw [kept_iff_exact (observed_step hs h)]
  exact exact_step hs ((kept_iff_exact hs).mp hk) h

def seconds : Config := { degradationDeadline := 10, deregTimeout := 30 }

/-- The Elector degrades a node, which then reports that it is Degraded, and is set to Loading. -/
def detected : List (Time × Action) :=
  [(0, .registerNode "b" 2 "b:2378" "b:2381"), (10, .checkNodeHealth),
    (12, .updateHeartbeat "b" .degraded .replica 4 0), (15, .setHealthState "b" .loading),
    (17, .updateHeartbeat "b" .healthy .replica 4 0)]

theorem degradation_kept_detected : Always (step seconds) (Kept seconds) .start detected := by
  obtain ⟨s, hs, -⟩ :=
    exists_exec_of_any (step seconds) .start detected (fun _ => True) (by decide +kernel)
  exact (degradation_kept_iff seconds detected s hs).mpr (by decide +kernel)

/-- A node misses its heartbeats, comes back, and much later degrades itself. -/
def comesBack : List (Time × Action) :=
  [(0, .registerNode "b" 2 "b:2378" "b:2381"), (10, .checkNodeHealth),
    (12, .updateHeartbeat "b" .healthy .replica 4 0),
    (100, .updateHeartbeat "b" .degraded .replica 9 0)]

/-- A node degrades itself and goes on sending heartbeats. -/
def degradesItself : List (Time × Action) :=
  [(0, .registerNode "b" 2 "b:2378" "b:2381"), (5, .updateHeartbeat "b" .degraded .replica 4 0)]

/-- **Health and timestamp part ways at a heartbeat.** A node that has been Degraded for a second is
deregistered by the time of an older degradation, and one that reported itself Degraded has no time
and is kept for ever. -/
theorem timestamps_stale_and_missing :
    (∃ s, exec (step seconds) .start comesBack = some s ∧ s.degradedSince "b" = some 100 ∧
      (s.nodes.get "b").bind NodeEntry.degradedAt = some 10 ∧
      (checkNodeHealth s.nodes 10 30 101).get "b" = none) ∧
    ∃ s, exec (step seconds) .start degradesItself = some s ∧ degraded s.nodes "b" = true ∧
      (s.nodes.get "b").bind NodeEntry.degradedAt = none ∧
      (checkNodeHealth s.nodes 10 30 1000).get "b" ≠ none :=
  ⟨exists_exec_of_any (step seconds) .start _ _ (by decide +kernel),
    exists_exec_of_any (step seconds) .start _ _ (by decide +kernel)⟩

end Netsy.Elector.Degradation
