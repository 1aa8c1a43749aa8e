import Netsy.Elector.NodeMap
import Netsy.Lib.Run
import Mathlib.Algebra.Group.Int.Defs
import Mathlib.Algebra.Group.Nat.Defs
import Mathlib.Data.List.Perm.Basic

/-! # The push of the cluster state

One call of `pushClusterState`, for a node map that does not change meanwhile: the state is applied
to the local node, pushed to the Primary, and then to all other nodes in parallel. The pushes run
in goroutines of their own, in any order, and a push may fail. The call returns early if the map
has at most one entry, which it takes for the local node. -/

namespace Netsy.Elector.ClusterPush

open Proto Lib.Keyed Lib.Run Elector.NodeMap

structure ClusterState where
  elector : NodeInfo
  primary : NodeInfo
  nodeCount : ℤ
deriving DecidableEq, Repr

/-- `proto.ClusterState`. -/
structure ProtoClusterState where
  elector : NodeInfo
  primary : Option NodeInfo
  nodeCount : ℤ
deriving DecidableEq, Repr

/-- A Primary without a node ID is none. -/
def primaryOf (primary : NodeInfo) : Option NodeInfo :=
  if primary.nodeID = "" then none else some primary

/-- `ClusterStateToProto`; the node count becomes an `int32`. -/
def clusterStateToProto (cs : ClusterState) : ProtoClusterState where
  elector := cs.elector
  primary := primaryOf cs.primary
  nodeCount := cs.nodeCount.bmod (2 ^ 32)

/-- What a call of `pushClusterState` reads: `elector` is the Elector of the state that the node
has, `primary` the argument of the call. -/
structure Call where
  nodeMap : Nodes
  localNodeID : NodeID
  elector : NodeInfo
  primary : NodeInfo
deriving DecidableEq

namespace Call

variable (c : Call)

def clusterState : ClusterState where
  elector := c.elector
  primary := c.primary
  nodeCount := c.nodeMap.count

def protoCS : ProtoClusterState := clusterStateToProto c.clusterState

/-- The entries without the local node. -/
def remote : List NodeEntry := c.nodeMap.entries.filter fun e => e.nodeID ≠ c.localNodeID

end Call

inductive Event
  | applied (cs : ClusterState)
  /-- `PushClusterStateTo` is called, for the peer address of the entry. -/
  | started (e : NodeEntry) (cs : ProtoClusterState)
  /-- It returns. -/
  | finished (e : NodeEntry) (ok : Bool)
deriving DecidableEq

/-- Where a call stands; `todo` is what a loop over the remote entries has not come to. -/
inductive Stage
  | called
  | applied
  | findingPrimary (todo : List NodeEntry)
  | pushingPrimary (e : NodeEntry)
  | spawning (todo : List NodeEntry)
  | waiting
  | returned
deriving DecidableEq

/-- The call with its goroutines, those whose push is still to start and those whose push runs, and
with what has happened so far. -/
structure State where
  stage : Stage
  spawned : List NodeEntry
  running : List NodeEntry
  log : List Event
deriving DecidableEq

def State.new : State := { stage := .called, spawned := [], running := [], log := [] }

inductive Action
  /-- The call goes on. -/
  | next
  /-- The push to the Primary returns. -/
  | finishPrimary (ok : Bool)
  | start (e : NodeEntry)
  | finish (e : NodeEntry) (ok : Bool)
deriving DecidableEq

/-- `pushClusterState` up to the next call it makes or the next round of a loop. -/
def next (c : Call) (s : State) : Option State :=
  match s.stage with
  | .called => some { s with stage := .applied, log := s.log ++ [.applied c.clusterState] }
  | .applied =>
    some { s with
      stage := if c.nodeMap.count ≤ 1 then .returned else .findingPrimary c.remote }
  | .findingPrimary [] => some { s with stage := .spawning c.remote }
  | .findingPrimary (e :: todo) =>
    if e.nodeID = c.primary.nodeID then
      some { s with stage := .pushingPrimary e, log := s.log ++ [.started e c.protoCS] }
    else some { s with stage := .findingPrimary todo }
  | .pushingPrimary _ => none
  | .spawning [] => some { s with stage := .waiting }
  | .spawning (e :: todo) =>
    if e.nodeID = c.primary.nodeID then some { s with stage := .spawning todo }
    else some { s with stage := .spawning todo, spawned := s.spawned ++ [e] }
  -- `wg.Wait`
  | .waiting =>
    if s.spawned = [] ∧ s.running = [] then some { s with stage := .returned } else none
  | .returned => none

def step (c : Call) (s : State) : Action → Option State
  | .next => next c s
  | .finishPrimary ok =>
    match s.stage with
    | .pushingPrimary e =>
      some { s with stage := .spawning c.remote, log := s.log ++ [.finished e ok] }
    | _ => none
  | .start e =>
    if e ∈ s.spawned then
      some { s with
        spawned := s.spawned.erase e, running := e :: s.running
        log := s.log ++ [.started e c.protoCS] }
    else none
  | .finish e ok =>
    if e ∈ s.running then
      some { s with running := s.running.erase e, log := s.log ++ [.finished e ok] }
    else none

/-! ### What the call is for -/

/-- The entries to which a push was started. -/
def started (log : List Event) : List NodeEntry :=
  log.filterMap fun
    | .started e _ => some e
    | _ => none

/-- The push to the Primary, if it is registered and not the local node, has returned before any
other push is started. -/
def PrimaryFirst (c : Call) (log : List Event) : Prop :=
  ∀ p ∈ c.remote, p.nodeID = c.primary.nodeID →
    ∀ (i : ℕ) (e : NodeEntry) (cs : ProtoClusterState), log[i]? = some (Event.started e cs) →
      e.nodeID ≠ c.primary.nodeID → ∃ j < i, ∃ ok, log[j]? = some (Event.finished p ok)

/-- **Every registered node is told**: the state is applied once, and first; a push is started once
to each node of the map but the local one, and to no other; it carries the Primary and the node
count. -/
structure Told (c : Call) (log : List Event) : Prop where
  applied : ∃ rest, log = .applied c.clusterState :: rest ∧ ∀ cs, .applied cs ∉ rest
  entries : ∀ e ∈ started log, e ∈ c.nodeMap.entries
  once : ∀ n, (started log).countP (fun e => e.nodeID = n) =
    if n ∈ c.nodeMap.keys ∧ n ≠ c.localNodeID then 1 else 0
  carried : ∀ e cs, .started e cs ∈ log →
    cs.primary = primaryOf c.primary ∧ cs.nodeCount = (c.nodeMap.count : ℤ)
  primaryFirst : PrimaryFirst c log

/-- The one entry of a map with one entry is the local node, and the node count is an `int32`. -/
structure Covered (c : Call) : Prop where
  early : c.nodeMap.count = 1 → c.localNodeID ∈ c.nodeMap.keys
  int32 : c.nodeMap.count < 2 ^ 31

/-! ### The call returns -/

/-- A bound on the steps that are left. -/
def Stage.work (c : Call) : Stage → ℕ
  | .called => 6 + 4 * c.remote.length
  | .applied => 5 + 4 * c.remote.length
  | .findingPrimary todo => 4 + todo.length + 3 * c.remote.length
  | .pushingPrimary _ => 3 + 3 * c.remote.length
  | .spawning todo => 2 + 3 * todo.length
  | .waiting => 1
  | .returned => 0

def State.work (c : Call) (s : State) : ℕ :=
  s.stage.work c + 2 * s.spawned.length + s.running.length

variable {c : Call} {s s' : State} {a : Action} {e : NodeEntry} {log : List Event} {ok : Bool}
variable {todo spawned running : List NodeEntry}

theorem work_next (h : next c s = some s') : s'.work c < s.work c := by
  unfold next at h
  split at h
  all_goals rename_i hstage
  · cases h
    simp only [State.work, hstage, Stage.work]
    omega
  · cases h
    simp only [State.work, hstage]
    split_ifs <;> simp only [Stage.work] <;> omega
  · cases h
    simp only [State.work, hstage, Stage.work, List.length_nil]
    omega
  · split_ifs at h <;> cases h <;>
      simp only [State.work, hstage, Stage.work, List.length_cons] <;> omega
  · cases h
  · cases h
    simp only [State.work, hstage, Stage.work]
    omega
  · split_ifs at h <;> cases h <;>
      simp only [State.work, hstage, Stage.work, List.length_cons, List.length_append,
        List.length_nil] <;> omega
  · split_ifs at h
    cases h
    simp only [State.work, hstage, Stage.work]
    omega
  · cases h

theorem work_step (s : State) (a : Action) (s' : State) (h : step c s a = some s') :
    s'.work c < s.work c := by
  cases a with
  | next => exact work_next h
  | finishPrimary ok =>
    simp only [step] at h
    split at h
    · rename_i e hstage
      cases h
      simp only [State.work, hstage, Stage.work]
      omega
    · cases h
  | start e =>
    simp only [step] at h
    split_ifs at h with hmem
    cases h
    have hlen := List.length_erase_of_mem hmem
    have hpos := List.length_pos_of_mem hmem
    simp only [State.work, List.length_cons, hlen]
    omega
  | finish e ok =>
    simp only [step] at h
    split_ifs at h with hmem
    cases h
    have hlen := List.length_erase_of_mem hmem
    have hpos := List.length_pos_of_mem hmem
    simp only [State.work, hlen]
    omega

theorem exists_step (c : Call) (s : State) (h : s.stage ≠ .returned) :
    ∃ a s', step c s a = some s' := by
  obtain ⟨stage, spawned, running, log⟩ := s
  cases stage with
  | called => exact ⟨.next, _, rfl⟩
  | applied => exact ⟨.next, _, rfl⟩
  | findingPrimary todo =>
    cases todo with
    | nil => exact ⟨.next, _, rfl⟩
    | cons e todo =>
      refine ⟨.next, ?_⟩
      simp only [step, next]
      split_ifs <;> exact ⟨_, rfl⟩
  | pushingPrimary e => exact ⟨.finishPrimary true, _, rfl⟩
  | spawning todo =>
    cases todo with
    | nil => exact ⟨.next, _, rfl⟩
    | cons e todo =>
      refine ⟨.next, ?_⟩
      simp only [step, next]
      split_ifs <;> exact ⟨_, rfl⟩
  | waiting =>
    cases spawned with
    | cons e spawned => exact ⟨.start e, _, if_pos List.mem_cons_self⟩
    | nil =>
      cases running with
      | cons e running => exact ⟨.finish e true, _, if_pos List.mem_cons_self⟩
      | nil => exact ⟨.next, _, rfl⟩
  | returned => exact absurd rfl h

/-! ### The pushes -/

/-- The push to the Primary, if there is to be one, has returned. -/
def PrimaryDone (c : Call) (log : List Event) : Prop :=
  ∀ p ∈ c.remote, p.nodeID = c.primary.nodeID → ∃ ok, Event.finished p ok ∈ log

/-- The second loop, with what it has not come to: what was started, what is spawned and what is to
come are together the remote entries. -/
structure Spawning (c : Call) (todo spawned : List NodeEntry) (log : List Event) : Prop where
  applied : ∃ rest, log = .applied c.clusterState :: rest ∧ ∀ cs, .applied cs ∉ rest
  targets : (started log ++ spawned ++
    todo.filter fun e => e.nodeID ≠ c.primary.nodeID).Perm c.remote
  carried : ∀ e cs, .started e cs ∈ log → cs = c.protoCS
  done : PrimaryDone c log
  primaryFirst : PrimaryFirst c log

/-- What holds at each stage. -/
inductive Inv (c : Call) : State → Prop
  | called : Inv c ⟨.called, [], [], []⟩
  | applied : Inv c ⟨.applied, [], [], [.applied c.clusterState]⟩
  | findingPrimary {todo : List NodeEntry} (htodo : ∀ e ∈ todo, e ∈ c.remote)
      (hfind : ∀ p ∈ c.remote, p.nodeID = c.primary.nodeID → p ∈ todo) :
      Inv c ⟨.findingPrimary todo, [], [], [.applied c.clusterState]⟩
  | pushingPrimary {e : NodeEntry} (he : e ∈ c.remote) (hid : e.nodeID = c.primary.nodeID) :
      Inv c ⟨.pushingPrimary e, [], [], [.applied c.clusterState, .started e c.protoCS]⟩
  | spawning {todo spawned running : List NodeEntry} {log : List Event}
      (h : Spawning c todo spawned log) : Inv c ⟨.spawning todo, spawned, running, log⟩
  | waiting {spawned running : List NodeEntry} {log : List Event}
      (h : Spawning c [] spawned log) : Inv c ⟨.waiting, spawned, running, log⟩
  | early (h : c.nodeMap.count ≤ 1) : Inv c ⟨.returned, [], [], [.applied c.clusterState]⟩
  | returned {log : List Event} (h : Spawning c [] [] log) : Inv c ⟨.returned, [], [], log⟩

theorem mem_remote : e ∈ c.remote ↔ e ∈ c.nodeMap.entries ∧ e.nodeID ≠ c.localNodeID := by
  simp [Call.remote]

theorem nodup_remote (c : Call) : (c.remote.map NodeEntry.nodeID).Nodup :=
  (c.nodeMap.filter fun e => e.nodeID ≠ c.localNodeID).nodup

theorem started_append (log log' : List Event) :
    started (log ++ log') = started log ++ started log' :=
  List.filterMap_append

theorem exists_of_mem_started (h : e ∈ started log) : ∃ cs, Event.started e cs ∈ log := by
  obtain ⟨event, hmem, hevent⟩ := List.mem_filterMap.mp h
  cases event with
  | started e' cs =>
    cases hevent
    exact ⟨cs, hmem⟩
  | applied cs => cases hevent
  | finished e' ok => cases hevent

theorem PrimaryFirst.append {event : Event} (h : PrimaryFirst c log)
    (hdone : PrimaryDone c log) : PrimaryFirst c (log ++ [event]) := by
  intro p hp hid i e cs hi hne
  rcases getElem?_concat_process hi with hold | ⟨rfl, -⟩
  · obtain ⟨j, hj, ok, hget⟩ := h p hp hid i e cs hold hne
    have hlt := (List.getElem?_eq_some_iff.mp hget).1
    exact ⟨j, hj, ok, by rwa [List.getElem?_append_left hlt]⟩
  · obtain ⟨ok, hmem⟩ := hdone p hp hid
    obtain ⟨j, hget⟩ := List.mem_iff_getElem?.mp hmem
    have hlt := (List.getElem?_eq_some_iff.mp hget).1
    exact ⟨j, hlt, ok, by rwa [List.getElem?_append_left hlt]⟩

theorem Spawning.of_no_primary (h : ∀ p ∈ c.remote, p.nodeID ≠ c.primary.nodeID) :
    Spawning c c.remote [] [.applied c.clusterState] := by
  refine ⟨⟨[], rfl, by simp⟩, ?_, by simp, fun p hp hid => absurd hid (h p hp), ?_⟩
  · have hall : (c.remote.filter fun e => e.nodeID ≠ c.primary.nodeID) = c.remote :=
      List.filter_eq_self.mpr fun p hp => decide_eq_true (h p hp)
    rw [hall]
    exact .refl _
  · intro p hp hid
    exact absurd hid (h p hp)

theorem Spawning.of_primary (he : e ∈ c.remote) (hid : e.nodeID = c.primary.nodeID) (ok : Bool) :
    Spawning c c.remote []
      ([.applied c.clusterState, .started e c.protoCS] ++ [.finished e ok]) := by
  have hunique : ∀ p ∈ c.remote, p.nodeID = c.primary.nodeID → p = e := fun p hp hp' =>
    List.inj_on_of_nodup_map (nodup_remote c) hp he (hp'.trans hid.symm)
  refine ⟨⟨_, rfl, by simp⟩, ?_, by simp, fun p hp hp' => ⟨ok, ?_⟩,
    fun p hp hp' i e' cs hi hne => ?_⟩
  · have hremote : c.remote.Nodup := List.Nodup.of_map _ (nodup_remote c)
    have hnodup : (e :: c.remote.filter fun e => e.nodeID ≠ c.primary.nodeID).Nodup :=
      List.nodup_cons.mpr ⟨by simp [hid], hremote.filter _⟩
    refine (List.perm_ext_iff_of_nodup hnodup hremote).mpr fun p => ?_
    simp only [List.mem_cons, List.mem_filter, decide_eq_true_eq]
    constructor
    · rintro (rfl | ⟨hp, -⟩)
      · exact he
      · exact hp
    · intro hp
      by_cases hp' : p.nodeID = c.primary.nodeID
      · exact Or.inl (hunique p hp hp')
      · exact Or.inr ⟨hp, hp'⟩
  · rw [hunique p hp hp']
    simp
  · -- the only push so far is the one to the Primary
    obtain ⟨rfl, -⟩ : e' = e ∧ cs = c.protoCS := by simpa using List.mem_of_getElem? hi
    exact absurd hid hne

theorem Spawning.spawn (h : Spawning c (e :: todo) spawned log)
    (he : e.nodeID ≠ c.primary.nodeID) : Spawning c todo (spawned ++ [e]) log := by
  refine { h with targets := ?_ }
  have htargets := h.targets
  rw [List.filter_cons_of_pos (by simpa using he)] at htargets
  simpa using htargets

theorem Spawning.skip (h : Spawning c (e :: todo) spawned log)
    (he : e.nodeID = c.primary.nodeID) : Spawning c todo spawned log := by
  refine { h with targets := ?_ }
  have htargets := h.targets
  rwa [List.filter_cons_of_neg (by simpa using he)] at htargets

theorem Spawning.append {spawned' : List NodeEntry} {event : Event}
    (h : Spawning c todo spawned log) (happlied : ∀ cs, event ≠ .applied cs)
    (hcarried : ∀ e cs, event = .started e cs → cs = c.protoCS)
    (htargets : (started (log ++ [event]) ++ spawned' ++
      todo.filter fun e => e.nodeID ≠ c.primary.nodeID).Perm c.remote) :
    Spawning c todo spawned' (log ++ [event]) := by
  obtain ⟨rest, hlog, hrest⟩ := h.applied
  refine ⟨⟨rest ++ [event], by rw [hlog, List.cons_append], fun cs hcs => ?_⟩, htargets,
    fun e cs hcs => ?_, fun p hp hid => ?_, h.primaryFirst.append h.done⟩
  · rcases List.mem_append.mp hcs with hcs | hcs
    · exact hrest cs hcs
    · exact happlied cs (List.mem_singleton.mp hcs).symm
  · rcases List.mem_append.mp hcs with hcs | hcs
    · exact h.carried e cs hcs
    · exact hcarried e cs (List.mem_singleton.mp hcs).symm
  · obtain ⟨ok, hok⟩ := h.done p hp hid
    exact ⟨ok, List.mem_append_left _ hok⟩

theorem Spawning.finish (h : Spawning c todo spawned log) (e : NodeEntry) (ok : Bool) :
    Spawning c todo spawned (log ++ [.finished e ok]) := by
  refine h.append (by simp) (by simp) ?_
  have hsame : started (log ++ [.finished e ok]) = started log := by
    rw [started_append]
    exact List.append_nil _
  rw [hsame]
  exact h.targets

theorem Spawning.start (h : Spawning c todo spawned log) (he : e ∈ spawned) :
    Spawning c todo (spawned.erase e) (log ++ [.started e c.protoCS]) := by
  refine h.append (by simp) (by simp) ?_
  have hmore : started (log ++ [.started e c.protoCS]) ++ spawned.erase e =
      started log ++ e :: spawned.erase e := by
    rw [started_append]
    exact List.append_assoc _ _ _
  rw [hmore]
  exact (((List.perm_cons_erase he).symm.append_left _).append_right _).trans h.targets

theorem inv_next (h : Inv c s) (hstep : next c s = some s') : Inv c s' := by
  cases h with
  | called =>
    cases hstep
    exact .applied
  | applied =>
    cases hstep
    dsimp only
    split_ifs with hcount
    · exact .early hcount
    · exact .findingPrimary (fun e he => he) fun p hp _ => hp
  | @findingPrimary todo htodo hfind =>
    cases todo with
    | nil =>
      cases hstep
      exact .spawning (.of_no_primary fun p hp hid => absurd (hfind p hp hid) List.not_mem_nil)
    | cons e todo =>
      simp only [next] at hstep
      split_ifs at hstep with hid <;> cases hstep
      · exact .pushingPrimary (htodo e List.mem_cons_self) hid
      · refine .findingPrimary (fun p hp => htodo p (List.mem_cons_of_mem e hp)) fun p hp hp' => ?_
        rcases List.mem_cons.mp (hfind p hp hp') with rfl | hmem
        · exact absurd hp' hid
        · exact hmem
  | pushingPrimary he hid => cases hstep
  | @spawning todo _ _ _ h =>
    cases todo with
    | nil =>
      cases hstep
      exact .waiting h
    | cons e todo =>
      simp only [next] at hstep
      split_ifs at hstep with hid <;> cases hstep
      · exact .spawning (h.skip hid)
      · exact .spawning (h.spawn hid)
  | waiting h =>
    simp only [next] at hstep
    split_ifs at hstep with hempty
    cases hstep
    obtain ⟨rfl, rfl⟩ := hempty
    exact .returned h
  | early => cases hstep
  | returned h => cases hstep

theorem inv_step (h : Inv c s) (hstep : step c s a = some s') : Inv c s' := by
  cases a with
  | next => exact inv_next h hstep
  | finishPrimary ok =>
    cases h with
    | pushingPrimary he hid =>
      cases hstep
      exact .spawning (.of_primary he hid ok)
    | _ => cases hstep
  | start e =>
    simp only [step] at hstep
    split_ifs at hstep with hmem
    cases hstep
    cases h with
    | spawning h => exact .spawning (h.start hmem)
    | waiting h => exact .waiting (h.start hmem)
    | _ => exact absurd hmem List.not_mem_nil
  | finish e ok =>
    simp only [step] at hstep
    split_ifs at hstep with hmem
    cases hstep
    cases h with
    | spawning h => exact .spawning (h.finish e ok)
    | waiting h => exact .waiting (h.finish e ok)
    | _ => exact absurd hmem List.not_mem_nil

theorem inv_exec {as : List Action} (hrun : exec (step c) .new as = some s) : Inv c s := by
  have hok : Meets (step c) (fun _ _ => True) .new as := meets_of_forall fun _ _ => trivial
  exact exec_invariant (fun _ _ _ h _ hstep => inv_step h hstep) .called hok hrun

theorem mem_map_remote {n : NodeID} :
    n ∈ c.remote.map NodeEntry.nodeID ↔ n ∈ c.nodeMap.keys ∧ n ≠ c.localNodeID := by
  simp only [List.mem_map, mem_remote, KeyedMap.mem_keys]
  constructor
  · rintro ⟨e, ⟨he, hne⟩, rfl⟩
    exact ⟨⟨e, he, rfl⟩, hne⟩
  · rintro ⟨⟨e, he, rfl⟩, hne⟩
    exact ⟨e, ⟨he, hne⟩, rfl⟩

theorem countP_remote (n : NodeID) :
    c.remote.countP (fun e => e.nodeID = n) =
      if n ∈ c.nodeMap.keys ∧ n ≠ c.localNodeID then 1 else 0 := by
  have hcount : c.remote.countP (fun e => e.nodeID = n) =
      (c.remote.map NodeEntry.nodeID).count n := by
    rw [List.count, List.countP_map]
    rfl
  rw [hcount, (nodup_remote c).count]
  simp only [mem_map_remote]

theorem nodeCount_protoCS (h : c.nodeMap.count < 2 ^ 31) :
    c.protoCS.nodeCount = (c.nodeMap.count : ℤ) := by
  simp only [Call.protoCS, clusterStateToProto, Call.clusterState]
  exact Int.bmod_eq_of_le (by omega) (by omega)

theorem nodeCount_protoCS_lt (c : Call) : c.protoCS.nodeCount < 2 ^ 31 := by
  have hlt := Int.bmod_lt (x := c.clusterState.nodeCount) (m := 2 ^ 32) (Nat.two_pow_pos 32)
  simp only [Call.protoCS, clusterStateToProto]
  omega

theorem Spawning.told (h : Spawning c [] [] log) (hcount : c.nodeMap.count < 2 ^ 31) :
    Told c log := by
  have hperm : (started log).Perm c.remote := by simpa using h.targets
  refine ⟨h.applied, fun e he => ?_, fun n => ?_, fun e cs hcs => ?_, h.primaryFirst⟩
  · exact (mem_remote.mp (hperm.mem_iff.mp he)).1
  · rw [hperm.countP_eq, countP_remote]
  · rw [h.carried e cs hcs]
    exact ⟨rfl, nodeCount_protoCS hcount⟩

theorem told_early (h : c.nodeMap.count ≤ 1) (hc : Covered c) :
    Told c [.applied c.clusterState] := by
  refine ⟨⟨[], rfl, by simp⟩, fun e he => absurd he List.not_mem_nil, fun n => ?_, by simp,
    fun p _ _ i e cs hi => ?_⟩
  · have hnone : ¬ (n ∈ c.nodeMap.keys ∧ n ≠ c.localNodeID) := by
      rintro ⟨hn, hne⟩
      have hcard : c.nodeMap.keys.card ≤ 1 := by rwa [KeyedMap.card_keys]
      have hpos : 0 < c.nodeMap.count := by
        rw [← KeyedMap.card_keys]
        exact Finset.card_pos.mpr ⟨n, hn⟩
      have hlocal := hc.early (by omega)
      exact hne (Finset.card_le_one.mp hcard n hn _ hlocal)
    rw [if_neg hnone]
    rfl
  · have hmem := List.mem_of_getElem? hi
    simp at hmem

theorem exists_completed (c : Call) :
    ∃ as s, exec (step c) .new as = some s ∧ s.stage = .returned :=
  exists_exec_done work_step (exists_step c) .new

section

variable (htold : ∀ as s, exec (step c) .new as = some s → s.stage = .returned → Told c s.log)
include htold

theorem early_of_told (hcount : c.nodeMap.count = 1) : c.localNodeID ∈ c.nodeMap.keys := by
  by_contra hlocal
  have hrun : exec (step c) .new [.next, .next] =
      some ⟨.returned, [], [], [.applied c.clusterState]⟩ := by
    simp [exec, step, next, State.new, hcount]
  obtain ⟨n, hn⟩ : c.nodeMap.keys.Nonempty := by
    rw [← Finset.card_pos, KeyedMap.card_keys]
    omega
  have honce := (htold _ _ hrun rfl).once n
  rw [if_pos ⟨hn, fun h => hlocal (h ▸ hn)⟩] at honce
  cases honce

theorem int32_of_told : c.nodeMap.count < 2 ^ 31 := by
  by_contra hcount
  obtain ⟨n, hn, hne⟩ : ∃ n ∈ c.nodeMap.keys, n ≠ c.localNodeID := by
    refine Finset.exists_mem_ne ?_ _
    rw [KeyedMap.card_keys]
    omega
  obtain ⟨as, s, hrun, hs⟩ := exists_completed c
  have ht := htold as s hrun hs
  have hpos : 0 < (started s.log).countP fun e => e.nodeID = n := by
    rw [ht.once n, if_pos ⟨hn, hne⟩]
    exact Nat.one_pos
  obtain ⟨e, he, -⟩ := List.countP_pos_iff.mp hpos
  obtain ⟨cs, hcs⟩ := exists_of_mem_started he
  have hcarried : cs = c.protoCS := by
    cases inv_exec hrun with
    | early h => omega
    | returned h => exact h.carried e cs hcs
    | _ => cases hs
  have heq := (ht.carried e cs hcs).2
  have hlt := nodeCount_protoCS_lt c
  rw [hcarried] at heq
  omega

end

/-- **Every registered node is told** exactly under the two conditions. The call returns in any
case: every run of it can be completed, and none is longer than a bound. -/
theorem every_node_told_iff (c : Call) :
    (∀ as s, exec (step c) .new as = some s →
      as.length ≤ 6 + 4 * c.remote.length ∧
        ∃ bs s', exec (step c) s bs = some s' ∧ s'.stage = .returned) ∧
    ((∀ as s, exec (step c) .new as = some s → s.stage = .returned → Told c s.log) ↔
      Covered c) := by
  refine ⟨fun as s hrun => ⟨?_, exists_exec_done work_step (exists_step c) s⟩,
    fun htold => ⟨early_of_told htold, int32_of_told htold⟩, fun hc as s hrun hs => ?_⟩
  · have hle := length_add_work_le work_step hrun
    have hnew : State.new.work c = 6 + 4 * c.remote.length := rfl
    omega
  · cases inv_exec hrun with
    | early h => exact told_early h hc
    | returned h => exact h.told hc.int32
    | _ => cases hs

/-- An entry of a node that has just registered. -/
def registered (nodeID : NodeID) (memberID : ℕ) : NodeEntry :=
  { nodeID := nodeID, memberID := memberID, clientAdvertiseAddress := nodeID ++ ":2379"
    peerAdvertiseAddress := nodeID ++ ":2381", lastHeartbeat := 0 }

/-- Two nodes: the Elector `a`, and `b`. -/
def twoNodes : Nodes := (KeyedMap.empty.add (registered "a" 1)).add (registered "b" 2)

/-- `b` is elected as the Primary of three nodes. -/
def electedB : Call where
  nodeMap := twoNodes.add (registered "c" 3)
  localNodeID := "a"
  elector := ⟨"a", 1, "a:2381"⟩
  primary := ⟨"b", 2, "b:2381"⟩

/-- The push to `b` fails, the one to `c` comes after it. -/
theorem every_node_told_iff_electedB :
    ∃ s, exec (step electedB) .new
        [.next, .next, .next, .next, .finishPrimary false, .next, .next, .next,
          .start (registered "c" 3), .finish (registered "c" 3) true, .next] = some s ∧
      (started s.log).map NodeEntry.nodeID = ["b", "c"] ∧ Told electedB s.log := by
  obtain ⟨s, hrun, hs, hstarted⟩ := exists_exec_of_any (step electedB) .new
    [.next, .next, .next, .next, .finishPrimary false, .next, .next, .next,
      .start (registered "c" 3), .finish (registered "c" 3) true, .next]
    (fun s => s.stage = .returned ∧ (started s.log).map NodeEntry.nodeID = ["b", "c"])
    (by decide +kernel)
  have hcovered : Covered electedB := ⟨by decide, by decide⟩
  exact ⟨s, hrun, hstarted, (every_node_told_iff electedB).2.mpr hcovered _ s hrun hs⟩

/-- `a` was the Primary and has left: `DeregisterNode` has removed it from the map, and
`clearPrimary` tells the others that there is no Primary. -/
def afterDeregistration : Call where
  nodeMap := twoNodes.remove "a"
  localNodeID := "a"
  elector := ⟨"a", 1, "a:2381"⟩
  primary := ⟨"", 0, ""⟩

/-- **The other node is not told**: the call returns, and no push was started. -/
theorem remaining_node_not_told :
    ∃ s, exec (step afterDeregistration) .new [.next, .next] = some s ∧ s.stage = .returned ∧
      started s.log = [] ∧ "b" ∈ afterDeregistration.nodeMap.keys ∧
      ¬ Told afterDeregistration s.log := by
  refine ⟨⟨.returned, [], [], [.applied afterDeregistration.clusterState]⟩, by decide, rfl, rfl,
    by decide, fun h => ?_⟩
  have honce := h.once "b"
  rw [if_pos (by decide)] at honce
  cases honce

end Netsy.Elector.ClusterPush
