import Netsy.Lib.Run
import Netsy.Primary.Follow

/-! # Sessions and tracking

`Follow` enters a Replica into the tracker and then opens its session; when it returns it closes the
session, if the session is still the current one of the node, and takes the node out of the tracker
in any case. `StopServices` closes all sessions and then empties the tracker. The two maps have
locks of their own, so each of these is two steps, and the calls of `Follow` go on meanwhile. -/

namespace Netsy.Primary.FollowSessions

open Proto NodeState Lib.Run Lib.Keyed Primary.Follow Primary.ReplicaTracker

/-! ### The two maps -/

/-- `Replicas.Add`. -/
def track (p : Peers) (nodeID : NodeID) (now : Time) : Peers :=
  { p with replicas := addReplica p.replicas nodeID now }

/-- `addFollowStream`. -/
def openSession (p : Peers) (nodeID : NodeID) : Peers :=
  { p with
    sessions := (p.sessions.map fun s => if s.nodeID = nodeID then s.close else s) ++
      [{ nodeID := nodeID, isOpen := true, sendCh := [] }] }

/-- `removeFollowStream`; the session of another one is not the current one and stays closed. -/
def closeSession (p : Peers) (i : ℕ) : Peers :=
  { p with sessions := p.sessions.modify i Session.close }

/-- `Replicas.Remove`. -/
def untrack (p : Peers) (nodeID : NodeID) : Peers :=
  { p with replicas := p.replicas.remove nodeID }

def resetFollowStreams (p : Peers) : Peers := { p with sessions := p.sessions.map Session.close }

/-- `Replicas.Reset`. -/
def resetReplicas (p : Peers) : Peers := { p with replicas := .empty }

theorem addFollowStream_eq (p : Peers) (nodeID : NodeID) (now : Time) :
    p.addFollowStream nodeID now = openSession (track p nodeID now) nodeID := rfl

theorem removeFollowStream_eq {p : Peers} {i : ℕ} {s : Session} (h : p.sessions[i]? = some s) :
    p.removeFollowStream i = untrack (closeSession p i) s.nodeID := by
  unfold Peers.removeFollowStream
  rw [h]
  rfl

theorem reset_eq (p : Peers) : p.reset = resetReplicas (resetFollowStreams p) := rfl

/-! ### The calls -/

/-- Where a call of `Follow` stands. -/
inductive Stand
  /-- `requirePrimary` has returned nil. -/
  | checked
  /-- The node is in the tracker, the session is not open yet. -/
  | tracked
  /-- The session has this position. -/
  | serving (i : ℕ)
  /-- The deferred function has closed the session, the node is to be taken out of the tracker. -/
  | closed
  | returned
deriving DecidableEq, Repr

/-- The call has changed one of the two maps and is about to change the other. -/
def Stand.halfDone : Stand → Bool
  | .tracked | .closed => true
  | _ => false

structure Call where
  nodeID : NodeID
  stand : Stand
deriving DecidableEq, Repr

structure State where
  primary : PrimaryState
  peers : Peers
  /-- `svcCancel` is set. -/
  services : Bool
  /-- `StopServices` has closed the sessions and is about to empty the tracker. -/
  stopping : Bool
  calls : List Call
deriving DecidableEq

/-- `NewServer`. -/
def State.start : State :=
  { primary := .replica
    peers := { nodeCount := 0, compaction := 0, replicas := .empty, sessions := [],
               receiptCollector := none }
    services := false, stopping := false, calls := [] }

def State.goTo (s : State) (j : ℕ) (c : Call) (stand : Stand) (peers : Peers) : State :=
  { s with peers := peers, calls := s.calls.set j { c with stand := stand } }

/-- The next step of the call `j` of `Follow`; a serving one returns. -/
def follow (s : State) (j : ℕ) (now : Time) : Option State :=
  (s.calls[j]?).bind fun c =>
    match c.stand with
    | .checked => some (s.goTo j c .tracked (track s.peers c.nodeID now))
    | .tracked =>
      some (s.goTo j c (.serving s.peers.sessions.length) (openSession s.peers c.nodeID))
    | .serving i => some (s.goTo j c .closed (closeSession s.peers i))
    | .closed => some (s.goTo j c .returned (untrack s.peers c.nodeID))
    | .returned => none

/-- What the streams and the loops of the Primary do between: no stream opens or ends. -/
def between : PeerAction → Bool
  | .follow .. | .unfollow _ | .stopServices => false
  | _ => true

inductive Action
  /-- The role of the node changes. -/
  | setPrimary (p : PrimaryState)
  | startServices
  /-- `StopServices` up to `resetFollowStreams`. -/
  | stopServices
  /-- `StopServices` from there on. -/
  | resetReplicas
  /-- A stream of the node comes in and passes `requirePrimary`. -/
  | requirePrimary (nodeID : NodeID)
  | follow (j : ℕ) (now : Time)
  | peer (a : PeerAction)

def step (s : State) : Action → Option State
  | .setPrimary p => some { s with primary := p }
  | .startServices => if s.stopping then none else some { s with services := true }
  | .stopServices =>
    if s.stopping then none
    else if s.services then
      some { s with services := false, stopping := true, peers := resetFollowStreams s.peers }
    else some s
  | .resetReplicas =>
    if s.stopping then some { s with stopping := false, peers := resetReplicas s.peers } else none
  | .requirePrimary nodeID =>
    if requirePrimary s.primary then
      some { s with calls := s.calls ++ [{ nodeID := nodeID, stand := .checked }] }
    else none
  | .follow j now => follow s j now
  | .peer a =>
    if between a then (s.peers.act s.primary a).map fun p => { s with peers := p } else none

/-! ### What a step does to the two maps -/

/-- The node has a current session. -/
def Current (p : Peers) (n : NodeID) : Prop := ∃ x ∈ p.sessions, x.nodeID = n ∧ x.isOpen = true

instance (p : Peers) (n : NodeID) : Decidable (Current p n) :=
  inferInstanceAs (Decidable (∃ x ∈ p.sessions, _))

/-- The nodes that the sessions are of, by position. -/
def names (p : Peers) : List NodeID := p.sessions.map Session.nodeID

/-- The nodes in the tracker. -/
def trackedNodes (p : Peers) : Finset NodeID := p.replicas.keys

variable {s s' : State} {a : Action} {as : List Action} {p p' : Peers} {c : Call} {n m : NodeID}
  {i j : ℕ} {now : Time}

@[simp] theorem trackedNodes_track :
    n ∈ trackedNodes (track p m now) ↔ n = m ∨ n ∈ trackedNodes p :=
  KeyedMap.mem_keys_add

@[simp] theorem trackedNodes_untrack :
    n ∈ trackedNodes (untrack p m) ↔ n ∈ trackedNodes p ∧ n ≠ m :=
  KeyedMap.mem_keys_remove

@[simp] theorem names_openSession : names (openSession p m) = names p ++ [m] := by
  have hclose : ∀ x : Session, (if x.nodeID = m then x.close else x).nodeID = x.nodeID :=
    fun x => by split_ifs <;> rfl
  simp [names, openSession, hclose]

@[simp] theorem names_closeSession : names (closeSession p i) = names p := by
  refine List.ext_getElem? fun j => ?_
  simp only [names, closeSession, List.getElem?_map, List.getElem?_modify]
  cases p.sessions[j]? with
  | none => rfl
  | some x => by_cases hij : i = j <;> simp [hij, Session.close]

@[simp] theorem current_openSession : Current (openSession p m) n ↔ n = m ∨ Current p n := by
  simp only [Current, openSession, List.mem_append, List.mem_map, List.mem_singleton]
  constructor
  · rintro ⟨x, ⟨y, hy, rfl⟩ | rfl, hn, hopen⟩
    · split_ifs at hn hopen with he
      · cases hopen
      · exact Or.inr ⟨y, hy, hn, hopen⟩
    · exact Or.inl hn.symm
  · rintro (rfl | ⟨y, hy, hn, hopen⟩)
    · exact ⟨_, Or.inr rfl, rfl, rfl⟩
    · by_cases he : n = m
      · exact ⟨_, Or.inr rfl, he.symm, rfl⟩
      · exact ⟨y, Or.inl ⟨y, hy, if_neg fun h => he (hn.symm.trans h)⟩, hn, hopen⟩

theorem current_of_closeSession (h : Current (closeSession p i) n) : Current p n := by
  obtain ⟨x, hx, hn, hopen⟩ := h
  obtain ⟨j, hj⟩ := List.mem_iff_getElem?.mp hx
  rw [show (closeSession p i).sessions = p.sessions.modify i Session.close from rfl,
    List.getElem?_modify] at hj
  obtain ⟨y, hy, rfl⟩ := Option.map_eq_some_iff.mp hj
  have hmem : y ∈ p.sessions := List.mem_of_getElem? hy
  split_ifs at hn hopen
  · cases hopen
  · exact ⟨y, hmem, hn, hopen⟩

theorem current_closeSession (h : Current p n) (hi : (names p)[i]? ≠ some n) :
    Current (closeSession p i) n := by
  obtain ⟨x, hx, hn, hopen⟩ := h
  obtain ⟨j, hj⟩ := List.mem_iff_getElem?.mp hx
  have hne : i ≠ j := by
    rintro rfl
    exact hi (by simp [names, hj, hn])
  have hget : (p.sessions.modify i Session.close)[j]? = some x := by
    simp [hj, hne]
  exact ⟨x, List.mem_of_getElem? hget, hn, hopen⟩

@[simp] theorem not_current_resetFollowStreams : ¬ Current (resetFollowStreams p) n := by
  rintro ⟨x, hx, -, hopen⟩
  obtain ⟨y, -, rfl⟩ := List.mem_map.mp hx
  cases hopen

theorem current_and_names_of_map_eq
    (h : p'.sessions.map (fun x => (x.nodeID, x.isOpen)) =
      p.sessions.map fun x => (x.nodeID, x.isOpen)) :
    (∀ n, Current p' n ↔ Current p n) ∧ names p' = names p := by
  have hcurrent : ∀ q : Peers, ∀ n,
      Current q n ↔ (n, true) ∈ q.sessions.map fun x => (x.nodeID, x.isOpen) := by
    simp [Current]
  have hnames : ∀ q : Peers,
      names q = (q.sessions.map fun x => (x.nodeID, x.isOpen)).map Prod.fst := by
    simp [names]
  exact ⟨fun n => by rw [hcurrent, hcurrent, h], by rw [hnames, hnames, h]⟩

theorem act_between {b : PeerAction} {q : PrimaryState} (hb : between b = true)
    (h : p.act q b = some p') :
    trackedNodes p' = trackedNodes p ∧ (∀ n, Current p' n ↔ Current p n) ∧ names p' = names p := by
  cases b with
  | follow | unfollow | stopServices => cases hb
  | send i =>
    obtain ⟨⟨msg, p1⟩, h1, rfl⟩ := Option.map_eq_some_iff.mp h
    unfold Peers.takeMessage at h1
    split at h1
    · rename_i x hx
      split at h1
      · cases h1
        refine ⟨rfl, current_and_names_of_map_eq ?_⟩
        obtain ⟨hlt, rfl⟩ := List.getElem?_eq_some_iff.mp hx
        rw [List.map_set]
        exact (congrArg (List.set _ i) (List.getElem_map _).symm).trans
          (List.set_getElem_self (by simpa using hlt))
      · cases h1
    · cases h1
  | recv i now msg =>
    obtain ⟨x, -, h1⟩ := Option.bind_eq_some_iff.mp h
    unfold Peers.followRecv at h1
    split at h1
    · cases h1
      exact ⟨rfl, fun n => Iff.rfl, rfl⟩
    · split_ifs at h1
      · cases h1
        exact ⟨keys_updateReceipt _ _ _, fun n => Iff.rfl, rfl⟩
      · cases h1
        exact ⟨keys_updateHeartbeat _ _ _, fun n => Iff.rfl, rfl⟩
  | heartbeat now hb =>
    simp only [Peers.act] at h
    split_ifs at h
    cases h
    exact ⟨keys_updateHeartbeat _ _ _, fun n => Iff.rfl, rfl⟩
  | checkDegradation deadline now =>
    cases h
    exact ⟨keys_checkDegradation _ _ _, fun n => Iff.rfl, rfl⟩
  | clusterState nodeCount =>
    cases h
    exact ⟨rfl, fun n => Iff.rfl, rfl⟩
  | compact rev =>
    cases h
    have henqueue : ∀ x : Session,
        ((x.enqueue (.compact rev)).nodeID, (x.enqueue (.compact rev)).isOpen) =
          (x.nodeID, x.isOpen) := fun x => by unfold Session.enqueue; split_ifs <;> rfl
    refine ⟨rfl, current_and_names_of_map_eq ?_⟩
    simp [Peers.broadcast, henqueue]

/-! ### Every run -/

/-- No opening and no end of a stream, and no `StopServices`, has changed only one of the maps. -/
def Quiet (s : State) : Prop := s.stopping = false ∧ ∀ c ∈ s.calls, c.stand.halfDone = false

instance (s : State) : Decidable (Quiet s) := inferInstanceAs (Decidable (_ ∧ _))

/-- The steps that do not undo another's half: a session is opened for a node that is still in the
tracker, a node is taken out of it when it has no newer session, and the tracker is emptied when no
session was opened since the sessions were closed. -/
def Timely (s : State) : Action → Prop
  | .follow j _ =>
    ∀ c ∈ s.calls[j]?,
      (c.stand = .tracked → c.nodeID ∈ trackedNodes s.peers) ∧
        (c.stand = .closed → ¬ Current s.peers c.nodeID)
  | .resetReplicas => ∀ x ∈ s.peers.sessions, x.isOpen = false
  | _ => True

instance : ∀ (s : State) (a : Action), Decidable (Timely s a)
  | s, .follow j _ =>
    match h : s.calls[j]? with
    | none => .isTrue (by simp [Timely, h])
    | some c =>
      decidable_of_iff
        ((c.stand = .tracked → c.nodeID ∈ trackedNodes s.peers) ∧
          (c.stand = .closed → ¬ Current s.peers c.nodeID))
        (by simp [Timely, h])
  | s, .resetReplicas => inferInstanceAs (Decidable (∀ x ∈ s.peers.sessions, _))
  | _, .setPrimary _ | _, .startServices | _, .stopServices | _, .requirePrimary _ | _, .peer _ =>
    .isTrue trivial

/-- The node has a session, or some call or `StopServices` is about to change one of its entries. -/
def Placed (s : State) (n : NodeID) : Prop :=
  Current s.peers n ∨ s.stopping = true ∨ ∃ c ∈ s.calls, c.nodeID = n ∧ c.stand.halfDone = true

/-- What holds whatever the order of the steps. -/
structure Accounts (s : State) : Prop where
  /-- A call ends its own session. -/
  own : ∀ c ∈ s.calls, ∀ i, c.stand = .serving i → (names s.peers)[i]? = some c.nodeID
  tracked : ∀ n ∈ trackedNodes s.peers, Placed s n

/-- A node with a session is in the tracker. -/
def Covered (s : State) : Prop := ∀ n, Current s.peers n → n ∈ trackedNodes s.peers

theorem follow_eq_some (h : follow s j now = some s') :
    ∃ c, s.calls[j]? = some c ∧
      ((c.stand = .checked ∧ s' = s.goTo j c .tracked (track s.peers c.nodeID now)) ∨
       (c.stand = .tracked ∧
          s' = s.goTo j c (.serving s.peers.sessions.length) (openSession s.peers c.nodeID)) ∨
       (∃ i, c.stand = .serving i ∧ s' = s.goTo j c .closed (closeSession s.peers i)) ∨
       (c.stand = .closed ∧ s' = s.goTo j c .returned (untrack s.peers c.nodeID))) := by
  obtain ⟨c, hc, h1⟩ := Option.bind_eq_some_iff.mp h
  refine ⟨c, hc, ?_⟩
  cases hst : c.stand with
  | checked => simp_all
  | tracked => simp_all
  | serving i => simp_all
  | closed => simp_all
  | returned => simp [hst] at h1

theorem mem_calls_goTo {stand : Stand} (hc : s.calls[j]? = some c) :
    { c with stand := stand } ∈ (s.goTo j c stand p).calls := by
  obtain ⟨hlt, -⟩ := List.getElem?_eq_some_iff.mp hc
  exact List.mem_set hlt _

/-- A node keeps its place over a step of a call if its session does, and if the step is that of the
call it was on its way with. -/
theorem placed_goTo {stand : Stand} (hc : s.calls[j]? = some c) (h : Placed s n)
    (hcurrent : Current s.peers n → Placed (s.goTo j c stand p) n)
    (hown : c.nodeID = n → c.stand.halfDone = true → Placed (s.goTo j c stand p) n) :
    Placed (s.goTo j c stand p) n := by
  rcases h with h | h | ⟨e, he, hn, hhalf⟩
  · exact hcurrent h
  · exact Or.inr (Or.inl h)
  · obtain ⟨k, hk⟩ := List.mem_iff_getElem?.mp he
    by_cases hjk : j = k
    · subst hjk
      obtain rfl : c = e := Option.some.inj (hc.symm.trans hk)
      exact hown hn hhalf
    · refine Or.inr (Or.inr ⟨e, ?_, hn, hhalf⟩)
      exact List.mem_of_getElem? ((List.getElem?_set_ne hjk).trans hk)

theorem own_goTo {stand : Stand} (hs : Accounts s)
    (hkeep : ∀ (i : ℕ) m, (names s.peers)[i]? = some m → (names p)[i]? = some m)
    (hnew : ∀ i, stand = .serving i → (names p)[i]? = some c.nodeID) :
    ∀ d ∈ (s.goTo j c stand p).calls, ∀ i, d.stand = .serving i →
      (names p)[i]? = some d.nodeID := by
  intro d hd i hi
  rcases List.mem_or_eq_of_mem_set hd with hd | rfl
  · exact hkeep i d.nodeID (hs.own d hd i hi)
  · exact hnew i hi

theorem accounts_follow (hs : Accounts s) (h : follow s j now = some s') : Accounts s' := by
  obtain ⟨c, hc, hcase⟩ := follow_eq_some h
  rcases hcase with ⟨hst, rfl⟩ | ⟨hst, rfl⟩ | ⟨i, hst, rfl⟩ | ⟨hst, rfl⟩
  · -- `Replicas.Add`: the call itself is on its way
    refine ⟨own_goTo hs (fun _ _ h => h) (fun _ h => nomatch h), fun n hn => ?_⟩
    rcases trackedNodes_track.mp hn with rfl | hn
    · exact Or.inr (Or.inr ⟨_, mem_calls_goTo hc, rfl, rfl⟩)
    · exact placed_goTo hc (hs.tracked n hn) Or.inl fun _ h => by simp [hst, Stand.halfDone] at h
  · -- `addFollowStream`: the node has a session now
    refine ⟨own_goTo hs (fun i m h => ?_) (fun i h => ?_), fun n hn => ?_⟩
    · rw [names_openSession]
      obtain ⟨hlt, -⟩ := List.getElem?_eq_some_iff.mp h
      exact (List.getElem?_append_left hlt).trans h
    · cases h
      rw [names_openSession]
      simp [names]
    · refine placed_goTo hc (hs.tracked n hn) (fun h => ?_) fun h _ => ?_
      · exact Or.inl (current_openSession.mpr (Or.inr h))
      · exact Or.inl (current_openSession.mpr (Or.inl h.symm))
  · -- `removeFollowStream`: the session is the call's own, and the call is on its way
    refine ⟨own_goTo hs (fun i m h => ?_) (fun _ h => nomatch h), fun n hn => ?_⟩
    · rwa [names_closeSession]
    · by_cases hne : c.nodeID = n
      · exact Or.inr (Or.inr ⟨_, mem_calls_goTo hc, hne, rfl⟩)
      · refine placed_goTo hc (hs.tracked n hn) (fun h => ?_) fun h _ => absurd h hne
        refine Or.inl (current_closeSession h fun he => hne ?_)
        exact Option.some.inj ((hs.own c (List.mem_of_getElem? hc) i hst).symm.trans he)
  · -- `Replicas.Remove`: its node is out
    refine ⟨own_goTo hs (fun _ _ h => h) (fun _ h => nomatch h), fun n hn => ?_⟩
    obtain ⟨hn, hne⟩ := trackedNodes_untrack.mp hn
    exact placed_goTo hc (hs.tracked n hn) Or.inl fun h _ => absurd h.symm hne

theorem accounts_step (hs : Accounts s) (h : step s a = some s') : Accounts s' := by
  cases a with
  | setPrimary q =>
    cases h
    exact ⟨hs.own, hs.tracked⟩
  | startServices =>
    simp only [step] at h
    split_ifs at h
    cases h
    exact ⟨hs.own, hs.tracked⟩
  | stopServices =>
    simp only [step] at h
    split_ifs at h
    · cases h
      refine ⟨fun c hc i hi => ?_, fun n _ => Or.inr (Or.inl rfl)⟩
      simpa [names, resetFollowStreams, Session.close, Function.comp_def] using hs.own c hc i hi
    · cases h
      exact hs
  | resetReplicas =>
    simp only [step] at h
    split_ifs at h
    cases h
    exact ⟨hs.own, fun n hn => by simp [trackedNodes, resetReplicas, KeyedMap.empty] at hn⟩
  | requirePrimary nodeID =>
    simp only [step] at h
    split_ifs at h
    cases h
    refine ⟨fun c hc i hi => ?_, fun n hn => ?_⟩
    · rcases List.mem_append.mp hc with hc | hc
      · exact hs.own c hc i hi
      · obtain rfl := List.mem_singleton.mp hc
        cases hi
    · refine (hs.tracked n hn).imp_right (Or.imp_right ?_)
      rintro ⟨c, hc, hcn⟩
      exact ⟨c, List.mem_append_left _ hc, hcn⟩
  | follow j now => exact accounts_follow hs h
  | peer b =>
    simp only [step] at h
    split_ifs at h with hb
    obtain ⟨p, hp, rfl⟩ := Option.map_eq_some_iff.mp h
    obtain ⟨htracked, hcurrent, hnames⟩ := act_between hb hp
    refine ⟨fun c hc i hi => hnames ▸ hs.own c hc i hi, fun n hn => ?_⟩
    rw [htracked] at hn
    exact (hs.tracked n hn).imp_left (hcurrent n).mpr

theorem covered_step (hs : Covered s) (hok : Timely s a) (h : step s a = some s') : Covered s' := by
  cases a with
  | setPrimary q =>
    cases h
    exact hs
  | startServices =>
    simp only [step] at h
    split_ifs at h
    cases h
    exact hs
  | stopServices =>
    simp only [step] at h
    split_ifs at h
    · cases h
      exact fun n hn => absurd hn not_current_resetFollowStreams
    · cases h
      exact hs
  | resetReplicas =>
    simp only [step] at h
    split_ifs at h
    cases h
    rintro n ⟨x, hx, -, hopen⟩
    exact absurd hopen (by simp [hok x hx])
  | requirePrimary nodeID =>
    simp only [step] at h
    split_ifs at h
    cases h
    exact hs
  | follow j now =>
    obtain ⟨c, hc, hcase⟩ := follow_eq_some h
    obtain ⟨hopen, hremove⟩ := hok c hc
    rcases hcase with ⟨hst, rfl⟩ | ⟨hst, rfl⟩ | ⟨i, hst, rfl⟩ | ⟨hst, rfl⟩
    · exact fun n hn => trackedNodes_track.mpr (Or.inr (hs n hn))
    · intro n hn
      rcases current_openSession.mp hn with rfl | hn
      · exact hopen hst
      · exact hs n hn
    · exact fun n hn => hs n (current_of_closeSession hn)
    · refine fun n hn => trackedNodes_untrack.mpr ⟨hs n hn, ?_⟩
      rintro rfl
      exact hremove hst hn
  | peer b =>
    simp only [step] at h
    split_ifs at h with hb
    obtain ⟨p, hp, rfl⟩ := Option.map_eq_some_iff.mp h
    obtain ⟨htracked, hcurrent, -⟩ := act_between hb hp
    exact fun n hn => htracked ▸ hs n ((hcurrent n).mp hn)

theorem accounts_start : Accounts .start := ⟨fun _ h => (nomatch h), fun _ h => (nomatch h)⟩

theorem covered_start : Covered .start := fun _ ⟨_, h, _⟩ => nomatch h

theorem accounts_exec (h : exec step .start as = some s) : Accounts s :=
  exec_invariant (fun _ _ _ hs _ hstep => accounts_step hs hstep) accounts_start
    (meets_of_forall fun _ _ => trivial) h

/-- **Sessions and tracking are in step if every step is timely.** -/
theorem tracked_iff_current (hok : Meets step Timely .start as)
    (h : exec step .start as = some s) (hquiet : Quiet s) (n : NodeID) :
    n ∈ s.peers.replicas.keys ↔ Current s.peers n := by
  have hcovered : Covered s :=
    exec_invariant (fun _ _ _ hs hok hstep => covered_step hs hok hstep) covered_start hok h
  refine ⟨fun hn => ?_, hcovered n⟩
  rcases (accounts_exec h).tracked n hn with hcurrent | hstop | ⟨c, hc, -, hhalf⟩
  · exact hcurrent
  · exact absurd hstop (by simp [hquiet.1])
  · exact absurd hhalf (by simp [hquiet.2 c hc])

/-- A Replica opens a stream, and opens another one, which replaces the first. -/
def reconnect : List Action :=
  [.setPrimary .active, .startServices, .requirePrimary "b", .follow 0 1, .follow 0 1,
    .requirePrimary "b", .follow 1 2, .follow 1 2]

/-- The first stream ends before the Replica opens another one, and the services are stopped and
started while a stream comes in. -/
def reconnectLate : List Action :=
  [.setPrimary .active, .startServices, .requirePrimary "b", .follow 0 1, .follow 0 1, .follow 0 2,
    .follow 0 2, .requirePrimary "b", .follow 1 3, .follow 1 3, .stopServices, .resetReplicas,
    .startServices, .requirePrimary "c", .follow 2 4, .follow 2 4]

theorem tracked_iff_current_reconnectLate :
    ∃ s, exec step .start reconnectLate = some s ∧ Quiet s ∧
      ("c" ∈ s.peers.replicas.keys ↔ Current s.peers "c") ∧
      ("b" ∈ s.peers.replicas.keys ↔ Current s.peers "b") := by
  obtain ⟨s, hs, hq⟩ := exists_exec_of_any step .start reconnectLate Quiet (by decide +kernel)
  have hok : Meets step Timely .start reconnectLate := by decide +kernel
  exact ⟨s, hs, hq, tracked_iff_current hok hs hq "c", tracked_iff_current hok hs hq "b"⟩

/-- **The end of a replaced stream takes the node of the newer one out of the tracker.** The first
call finds that its session is not the current one, and calls `Replicas.Remove` all the same. -/
theorem untracked_after_reconnect :
    ∃ s, exec step .start (reconnect ++ [.follow 0 3, .follow 0 3]) = some s ∧ Quiet s ∧
      Current s.peers "b" ∧ "b" ∉ s.peers.replicas.keys :=
  exists_exec_of_any step .start _ _ (by decide +kernel)

end Netsy.Primary.FollowSessions
