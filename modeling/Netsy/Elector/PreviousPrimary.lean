import Netsy.Elector.Winner

/-! # The previous Primary in an election

An election waits for the previous Primary up to a deadline, and later sees it again only if it is
registered, answers, and is not Degraded. The states are collected after the wait, so every answer
can differ from the ones before. -/

namespace Netsy.Elector.PreviousPrimary

open Proto NodeState Elector.NodeMap Elector.PrimaryElection Elector.Winner

/-! ### What the previous Primary said last -/

/-- The last reply that the loop of `checkPreviousPrimary` takes. -/
def lastPolled : List Poll → Option PrimaryState
  | [] => none
  | .unreachable :: polls => lastPolled polls
  | .replied .replica :: _ => some .replica
  | .replied .active :: _ => some .active
  | .replied .draining :: polls => (lastPolled polls).or (some .draining)
  | .replied .starting :: polls => (lastPolled polls).or (some .starting)
  | .cancelled :: _ => none

/-- What the node says when the states are collected, if it is asked and answers. -/
def collected (e : Server) (reply : NodeID → Option NodeReply) (n : NodeID) :
    Option PrimaryState :=
  if e.quorum ≠ 0 ∧ n ∈ e.nodeMap.keys then
    (if n = e.localNodeID then some e.localPrimary else (reply n).map NodeReply.primaryState)
  else none

/-- The last reply of the previous Primary in the round. The Elector asks its own node by reading
the state. -/
def lastReply (e e' : Server) (polls : List Poll) (reply : NodeID → Option NodeReply)
    (n : NodeID) : Option PrimaryState :=
  (collected e' reply n).or
    (if n = e.localNodeID then some e.localPrimary else lastPolled polls)

/-- Active, Starting or Draining. -/
def leading (s : Option PrimaryState) : Bool :=
  s = some .active || s = some .starting || s = some .draining

/-! ### The answers -/

/-- The states that an election looks at: the last heartbeats if the quorum is disabled, and
otherwise the answers. -/
def answers (e : Server) (reply : NodeID → Option NodeReply) : List Candidate :=
  if e.quorum = 0 then e.nodeMap.entries.map nodeMapCandidate
  else e.nodeMap.entries.filterMap (contact e reply)

/-- Enough nodes answer for the quorum setting. -/
structure Enough (e : Server) (reply : NodeID → Option NodeReply) : Prop where
  registered : e.nodeMap.entries ≠ []
  static : 0 < e.quorum → e.nodeMap.count ≤ (answers e reply).length
  majority : e.quorum = -1 → e.nodeMap.count / 2 + 1 ≤ (answers e reply).length

variable {e e' : Server} {polls : List Poll} {reply : NodeID → Option NodeReply}
  {cs : List Candidate} {p : NodeInfo} {n : NodeID}

theorem collectNodeStates_eq_ok :
    collectNodeStates e reply = .ok cs ↔ Enough e reply ∧ cs = answers e reply := by
  unfold collectNodeStates
  dsimp only
  by_cases hq : e.quorum = 0
  · have hok : Enough e reply ↔ e.nodeMap.entries ≠ [] :=
      ⟨Enough.registered, fun h => ⟨h, fun hp => by omega, fun hm => by omega⟩⟩
    by_cases hempty : e.nodeMap.entries = []
    · simp [hok, hempty]
    · simp [hok, hempty, hq, answers, eq_comm]
  · have hans : answers e reply = e.nodeMap.entries.filterMap (contact e reply) := if_neg hq
    split_ifs with h1 h2 h3
    · exact iff_of_false (by simp) fun h => h.1.registered h1
    · refine iff_of_false (by simp) fun h => ?_
      have := h.1.static h2.1
      rw [hans] at this
      exact absurd h2.2 (not_lt.mpr this)
    · refine iff_of_false (by simp) fun h => ?_
      have := h.1.majority h3.1
      rw [hans] at this
      exact absurd h3.2 (not_lt.mpr this)
    · rw [Except.ok.injEq, eq_comm, hans]
      refine (and_iff_right ⟨h1, fun hp => ?_, fun hm => ?_⟩).symm
      · rw [hans]
        exact not_lt.mp fun hlt => h2 ⟨hp, hlt⟩
      · rw [hans]
        exact not_lt.mp fun hlt => h3 ⟨hm, hlt⟩

/-! ### The wait for the previous Primary -/

theorem leading_iff {st : Option PrimaryState} :
    leading st = true ↔ st ≠ none ∧ st ≠ some .replica := by
  cases st with
  | none => simp [leading]
  | some st => cases st <;> simp [leading]

/-- A round after which the loop goes on. -/
def waits (q : Poll) : Bool :=
  q = .unreachable || q = .replied .draining || q = .replied .starting

/-- The deadline passed while the previous Primary, as far as it could be reached, was Draining or
Starting. -/
def RanOut (polls : List Poll) : Prop :=
  (∀ q ∈ polls, waits q = true) ∧ (.replied .draining ∈ polls ∨ .replied .starting ∈ polls)

/-- The rounds let the election go on: the previous Primary says that it is a Replica before it says
that it is Active, or the deadline passes. -/
def Released (polls : List Poll) : Prop :=
  (∀ q ∈ polls, waits q = true) ∨
    ∃ before after, polls = before ++ .replied .replica :: after ∧ ∀ q ∈ before, waits q = true

/-- What the node says to the check of the previous Primary lets the election go on. -/
def Passes (e : Server) (polls : List Poll) (n : NodeID) : Prop :=
  if n = e.localNodeID then e.localPrimary = .replica else Released polls

theorem released_cons {q : Poll} :
    Released (q :: polls) ↔ q = .replied .replica ∨ (waits q = true ∧ Released polls) := by
  constructor
  · rintro (hall | ⟨before, after, heq, hbefore⟩)
    · obtain ⟨hq, hrest⟩ := List.forall_mem_cons.mp hall
      exact Or.inr ⟨hq, Or.inl hrest⟩
    · cases before with
      | nil => exact Or.inl (List.cons.inj heq).1
      | cons x before =>
        obtain ⟨rfl, rfl⟩ := List.cons.inj heq
        obtain ⟨hq, hbefore⟩ := List.forall_mem_cons.mp hbefore
        exact Or.inr ⟨hq, Or.inr ⟨before, after, rfl, hbefore⟩⟩
  · rintro (rfl | ⟨hq, hall | ⟨before, after, rfl, hbefore⟩⟩)
    · exact Or.inr ⟨[], polls, rfl, by simp⟩
    · exact Or.inl (List.forall_mem_cons.mpr ⟨hq, hall⟩)
    · exact Or.inr ⟨q :: before, after, rfl, List.forall_mem_cons.mpr ⟨hq, hbefore⟩⟩

theorem pollPreviousPrimary_eq_ok : pollPreviousPrimary n polls = .ok () ↔ Released polls := by
  induction polls with
  | nil => exact iff_of_true rfl (Or.inl (by simp))
  | cons q polls ih =>
    rw [released_cons, ← ih]
    cases q with
    | unreachable => simp [pollPreviousPrimary, waits]
    | cancelled => simp [pollPreviousPrimary, waits]
    | replied st => cases st <;> simp [pollPreviousPrimary, waits]

theorem checkPreviousPrimary_eq_ok (hp : e.previousPrimary = some p) :
    checkPreviousPrimary e polls = .ok () ↔ Passes e polls p.nodeID := by
  unfold checkPreviousPrimary Passes
  simp only [hp]
  split_ifs
  · unfold checkLocalPreviousPrimary
    split_ifs with h
    · simp [h]
    · simp [h]
  · exact pollPreviousPrimary_eq_ok

theorem pollPreviousPrimary_ok_iff :
    pollPreviousPrimary n polls = .ok () ∧ lastPolled polls ≠ some .replica ↔
      ∀ q ∈ polls, waits q = true := by
  induction polls with
  | nil => simp [pollPreviousPrimary, lastPolled]
  | cons q polls ih =>
    rw [List.forall_mem_cons, ← ih]
    cases q with
    | unreachable => simp [pollPreviousPrimary, lastPolled, waits]
    | cancelled => simp [pollPreviousPrimary, waits]
    | replied st =>
      cases st with
      | replica => simp [lastPolled, waits]
      | active => simp [pollPreviousPrimary, waits]
      | draining =>
        cases hl : lastPolled polls <;> simp [pollPreviousPrimary, lastPolled, waits, hl]
      | starting =>
        cases hl : lastPolled polls <;> simp [pollPreviousPrimary, lastPolled, waits, hl]

theorem lastPolled_ne_none_iff (h : ∀ q ∈ polls, waits q = true) :
    lastPolled polls ≠ none ↔ .replied .draining ∈ polls ∨ .replied .starting ∈ polls := by
  induction polls with
  | nil => simp [lastPolled]
  | cons q polls ih =>
    obtain ⟨hq, hrest⟩ := List.forall_mem_cons.mp h
    cases q with
    | unreachable => simpa [lastPolled] using ih hrest
    | cancelled => cases hq
    | replied st =>
      cases st with
      | replica => cases hq
      | active => cases hq
      | draining => simp [lastPolled]
      | starting => simp [lastPolled]

theorem ranOut_iff :
    pollPreviousPrimary n polls = .ok () ∧ leading (lastPolled polls) = true ↔ RanOut polls := by
  rw [leading_iff]
  constructor
  · rintro ⟨hok, hsome, hne⟩
    have hwaits := pollPreviousPrimary_ok_iff.mp ⟨hok, hne⟩
    exact ⟨hwaits, (lastPolled_ne_none_iff hwaits).mp hsome⟩
  · rintro ⟨hwaits, hmem⟩
    obtain ⟨hok, hne⟩ := (pollPreviousPrimary_ok_iff (n := n)).mpr hwaits
    exact ⟨hok, (lastPolled_ne_none_iff hwaits).mpr hmem, hne⟩

/-! ### An election over a live previous Primary -/

/-- **The previous Primary leads and is let past.** It is not asked again, or does not answer, and
was Draining or Starting when the wait for it ran out; or it answers the collection with a state
other than Replica, after what it said to the check let the election go on. -/
def Escapes (e e' : Server) (polls : List Poll) (reply : NodeID → Option NodeReply) (n : NodeID) :
    Prop :=
  (collected e' reply n = none ∧ n ≠ e.localNodeID ∧ RanOut polls) ∨
    ((∃ st, collected e' reply n = some st ∧ st ≠ .replica) ∧ Passes e polls n)

/-- **The answers are for another node**: it is the only Active one; or there is no such one, every
answer that is not Degraded is a Replica, and no Healthy answer has a higher revision, or the same
one and a later start. -/
def ForAnother (cs : List Candidate) (n : NodeID) : Prop := ∃ w, Wins cs w ∧ w.info.nodeID ≠ n

theorem escapes_iff (hp : e.previousPrimary = some p) :
    Escapes e e' polls reply p.nodeID ↔
      checkPreviousPrimary e polls = .ok () ∧
        leading (lastReply e e' polls reply p.nodeID) = true := by
  rw [checkPreviousPrimary_eq_ok hp]
  unfold Escapes lastReply
  cases hc : collected e' reply p.nodeID with
  | some st => simp [leading_iff, and_comm]
  | none =>
    unfold Passes
    by_cases hlocal : p.nodeID = e.localNodeID
    · -- the Elector's own node passes the check only as a Replica
      by_cases hr : e.localPrimary = .replica
      · simp [hlocal, hr, leading]
      · simp [hlocal, hr]
    · simp [hlocal, ← ranOut_iff (n := p.nodeID), pollPreviousPrimary_eq_ok]

/-- **No node is elected over a previous Primary that leads**, whatever the order of the nodes,
unless it is let past, enough nodes answer, and the answers are for another node. -/
theorem elects_only_leading_previous_iff (e e' : Server) (polls : List Poll)
    (reply : NodeID → Option NodeReply) (p : NodeInfo) (hp : e.previousPrimary = some p) :
    (leading (lastReply e e' polls reply p.nodeID) = true →
        ∀ g info, electPrimary g e e' polls reply = .ok info → info.nodeID = p.nodeID) ↔
      ¬ (Escapes e e' polls reply p.nodeID ∧ Enough e' reply ∧
        ForAnother (answers e' reply) p.nodeID) := by
  rw [escapes_iff hp]
  constructor
  · rintro h ⟨⟨hok, hleads⟩, henough, w, hw, hne⟩
    obtain ⟨g, hg⟩ := exists_selectPrimary_iff.mpr ⟨w, hw, rfl⟩
    have hcs := collectNodeStates_eq_ok.mpr ⟨henough, rfl⟩
    exact hne (h hleads g w.info (electPrimary_eq_ok.mpr ⟨hok, _, hcs, hg⟩))
  · intro h hleads g info hinfo
    obtain ⟨hok, cs, hcs, hg⟩ := electPrimary_eq_ok.mp hinfo
    obtain ⟨henough, rfl⟩ := collectNodeStates_eq_ok.mp hcs
    obtain ⟨w, hw, rfl⟩ := exists_selectPrimary_iff.mp ⟨g, hg⟩
    by_contra hne
    exact h ⟨⟨hok, hleads⟩, henough, w, hw, hne⟩

/-- A previous Primary that leads and answers the collection blocks the others, unless it is
Degraded or another node is the only Active one. -/
theorem not_forAnother_of_seen {c : Candidate} (hc : c ∈ cs)
    (hleads : c.primaryState ≠ .replica) (hd : c.healthState ≠ .degraded)
    (hsole : ∀ d ∈ cs, d.primaryState = .active → d.info.nodeID = n) : ¬ ForAnother cs n := by
  rintro ⟨w, hone | ⟨-, hblocked, -⟩, hne⟩
  · have hmem : w ∈ cs.filter fun c => c.primaryState = .active := by
      rw [SoleActive] at hone
      simp [hone]
    obtain ⟨hw, hactive⟩ := List.mem_filter.mp hmem
    exact hne (hsole w hw (by simpa using hactive))
  · exact hblocked ⟨c, hc, hd, hleads⟩

/-- Three nodes, of which `"a"` was the Primary. -/
def afterA : Server := { threeNodes .healthy 4 with previousPrimary := some (infoOf "a") }

/-- `"a"` reports this health and that it is Draining, `"b"` is a Healthy Replica. -/
def drainingA (health : HealthState) : NodeID → Option NodeReply := fun n =>
  if n = "a" then
    some { healthState := health, primaryState := .draining, latestRevision := 6, startTime := 1 }
  else onlyB .healthy 5 n

/-- A Healthy previous Primary that still drains when the wait runs out blocks the election of
`"b"`. -/
theorem elects_only_leading_previous_drainingA :
    afterA.previousPrimary = some (infoOf "a") ∧
      ∀ g, electPrimary g afterA afterA [.replied .draining] (drainingA .healthy) ≠
        .ok (infoOf "b") := by
  refine ⟨rfl, fun g hb => ?_⟩
  let a : Candidate :=
    { info := infoOf "a", healthState := .healthy, primaryState := .draining, latestRevision := 6,
      startTime := 1 }
  have ha : a ∈ answers afterA (drainingA .healthy) := by decide
  have hseen : ¬ ForAnother (answers afterA (drainingA .healthy)) "a" :=
    not_forAnother_of_seen ha (by decide) (by decide) (by decide)
  have honly := (elects_only_leading_previous_iff afterA afterA [.replied .draining]
    (drainingA .healthy) (infoOf "a") rfl).mpr (fun h => hseen h.2.2) (by decide)
  exact absurd (honly g (infoOf "b") hb) (by decide)

/-- **Another node is elected while the previous Primary drains.** Once it is Draining when the
deadline passes and does not answer again, once it answers to both and is Degraded. -/
theorem elects_over_draining_previous :
    (leading (lastReply afterA afterA [.replied .draining, .unreachable] (onlyB .healthy 5) "a")
        = true ∧
      electPrimaryOnce afterA [.replied .draining, .unreachable] (onlyB .healthy 5)
        = .ok (infoOf "b")) ∧
    leading (lastReply afterA afterA [.replied .draining] (drainingA .degraded) "a") = true ∧
      electPrimaryOnce afterA [.replied .draining] (drainingA .degraded) = .ok (infoOf "b") := by
  decide

end Netsy.Elector.PreviousPrimary
