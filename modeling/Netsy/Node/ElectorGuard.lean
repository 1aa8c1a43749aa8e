import Netsy.Proto
import Mathlib.Algebra.Group.Int.Defs
import Mathlib.Data.List.Induction

/-! # The guard against two Electors

`Check` rejects the Elector before the current one for some time after it was superseded. The guard
keeps one Elector besides the current one, with the time of the last hand-off: an Elector that was
superseded before that is not known to it any more. -/

namespace Netsy.Node.ElectorGuard

open Proto

/-- `splitBrainWindow`, in nanoseconds. -/
def splitBrainWindow : ℤ := 30 * 1000 ^ 3

/-- `ElectorGuard`; `handoffAt := none` is the zero time. -/
structure Guard where
  currentElector : NodeID
  previousElector : NodeID
  handoffAt : Option Time
deriving DecidableEq, Repr

/-- `NewElectorGuard`. -/
def Guard.new : Guard := { currentElector := "", previousElector := "", handoffAt := none }

/-- A call of `Check`, with the readings of the clock: `since` is the one of the comparison, `now`
the one of the hand-off or of the message of the error. -/
structure Call where
  electorNodeID : NodeID
  since : Time
  now : Time
deriving DecidableEq, Repr

/-- The error of `Check`. -/
structure SplitBrain where
  elector : NodeID
  current : NodeID
  handoffAge : ℤ
deriving DecidableEq, Repr

/-- `Round(time.Millisecond)` of a duration that is not negative. -/
def roundMillisecond (d : ℤ) : ℤ :=
  let r := d % 1000 ^ 2
  if r + r < 1000 ^ 2 then d - r else d + (1000 ^ 2 - r)

/-- The text of the error; `duration` prints a duration. -/
def SplitBrain.message (duration : ℤ → String) (e : SplitBrain) : String :=
  s!"split-brain: elector {e.elector} was superseded by {e.current} " ++
    s!"{duration e.handoffAge} ago but is still pushing"

/-- `Check`: the guard after the call, and the error. -/
def check (g : Guard) (call : Call) : Guard × Option SplitBrain :=
  if g.currentElector = "" ∨ g.currentElector = call.electorNodeID then
    ({ g with currentElector := call.electorNodeID }, none)
  else
    match g.handoffAt with
    | some t =>
      if call.electorNodeID = g.previousElector ∧ call.since - t < splitBrainWindow then
        (g, some ⟨call.electorNodeID, g.currentElector, roundMillisecond (call.now - t)⟩)
      else (⟨call.electorNodeID, g.currentElector, some call.now⟩, none)
    -- a hand-off at the zero time is long ago
    | none => (⟨call.electorNodeID, g.currentElector, some call.now⟩, none)

/-! ### Histories -/

/-- An Elector is replaced as the current one by another. -/
structure Handoff where
  superseded : NodeID
  elector : NodeID
  time : Time
deriving DecidableEq, Repr

/-- The guard, with the hand-offs so far. -/
structure History where
  guard : Guard
  handoffs : List Handoff
deriving DecidableEq, Repr

def History.new : History := { guard := .new, handoffs := [] }

/-- A call of `Check`; a change of the current Elector is noted, unless there was none. -/
def History.check (s : History) (call : Call) : History :=
  let g := (ElectorGuard.check s.guard call).1
  { guard := g
    handoffs :=
      if s.guard.currentElector = "" ∨ g.currentElector = s.guard.currentElector then s.handoffs
      else s.handoffs ++ [⟨s.guard.currentElector, g.currentElector, call.now⟩] }

/-- The calls of `Check` one after the other. -/
def run (calls : List Call) : History := calls.foldl History.check .new

theorem run_append (calls calls' : List Call) :
    run (calls ++ calls') = calls'.foldl History.check (run calls) := List.foldl_append

variable {g : Guard} {call : Call} {calls : List Call} {s : History}

theorem check_current (h : g.currentElector = "" ∨ g.currentElector = call.electorNodeID) :
    check g call = ({ g with currentElector := call.electorNodeID }, none) := if_pos h

/-- The Elector is the one before the current one, and the hand-off is not long ago. -/
def Recent (g : Guard) (call : Call) : Prop :=
  call.electorNodeID = g.previousElector ∧
    ∃ t, g.handoffAt = some t ∧ call.since - t < splitBrainWindow

theorem check_other (h : ¬ (g.currentElector = "" ∨ g.currentElector = call.electorNodeID)) :
    Recent g call ∧ (check g call).1 = g ∧ (check g call).2 ≠ none ∨
      ¬ Recent g call ∧
        check g call = (⟨call.electorNodeID, g.currentElector, some call.now⟩, none) := by
  unfold check Recent
  rw [if_neg h]
  cases hat : g.handoffAt with
  | none => exact Or.inr ⟨by simp, rfl⟩
  | some t =>
    by_cases hrecent : call.electorNodeID = g.previousElector ∧ call.since - t < splitBrainWindow
    · refine Or.inl ⟨⟨hrecent.1, t, rfl, hrecent.2⟩, ?_⟩
      simp [hrecent]
    · refine Or.inr ⟨?_, if_neg hrecent⟩
      rintro ⟨hprevious, t', ht, hlt⟩
      cases ht
      exact hrecent ⟨hprevious, hlt⟩

theorem check_rejected (h : (check g call).2 ≠ none) : (check g call).1 = g := by
  by_cases hcurrent : g.currentElector = "" ∨ g.currentElector = call.electorNodeID
  · rw [check_current hcurrent] at h
    exact absurd rfl h
  · rcases check_other hcurrent with ⟨-, hguard, -⟩ | ⟨-, hcheck⟩
    · exact hguard
    · rw [hcheck] at h
      exact absurd rfl h

/-- The guard knows the last hand-off. -/
structure Tracks (s : History) : Prop where
  previousElector : s.guard.previousElector = (s.handoffs.getLast?.map Handoff.superseded).getD ""
  handoffAt : s.guard.handoffAt = s.handoffs.getLast?.map Handoff.time

theorem Tracks.check (h : Tracks s) (call : Call) : Tracks (s.check call) := by
  unfold History.check
  by_cases hcurrent : s.guard.currentElector = "" ∨ s.guard.currentElector = call.electorNodeID
  · have hsame : s.guard.currentElector = "" ∨
        call.electorNodeID = s.guard.currentElector := hcurrent.imp_right Eq.symm
    simp only [check_current hcurrent, if_pos hsame]
    exact ⟨h.previousElector, h.handoffAt⟩
  · obtain ⟨hset, hother⟩ := not_or.mp hcurrent
    rcases check_other hcurrent with ⟨-, hguard, -⟩ | ⟨-, hcheck⟩
    · simp only [hguard, or_true, if_true]
      exact h
    · have hchange : ¬ (s.guard.currentElector = "" ∨
          call.electorNodeID = s.guard.currentElector) := not_or.mpr ⟨hset, Ne.symm hother⟩
      simp only [hcheck, if_neg hchange]
      exact ⟨by simp, by simp⟩

theorem tracks_run (calls : List Call) : Tracks (run calls) := by
  induction calls using List.reverseRecOn with
  | nil => exact ⟨rfl, rfl⟩
  | append_singleton calls call ih =>
    rw [run_append]
    exact ih.check call

theorem not_recent_of_accepted (h : (check g call).2 = none)
    (hcurrent : ¬ (g.currentElector = "" ∨ g.currentElector = call.electorNodeID)) :
    ¬ Recent g call := by
  rcases check_other hcurrent with ⟨-, -, hrejected⟩ | ⟨hrecent, -⟩
  · exact absurd h hrejected
  · exact hrecent

/-- **The last hand-off is not forgotten**: an Elector that was superseded within the window, and is
not recent to the guard, was superseded by a hand-off that another one followed. -/
theorem Tracks.followed {t : Time} {i : ℕ} {h : Handoff} (hs : Tracks s)
    (hrecent : ¬ Recent s.guard call) (ht : call.since ≤ t) (hi : s.handoffs[i]? = some h)
    (hsuperseded : h.superseded = call.electorNodeID) (hwindow : t - splitBrainWindow < h.time) :
    i + 1 < s.handoffs.length := by
  by_contra hlast
  have hlt := (List.getElem?_eq_some_iff.mp hi).1
  have hgetLast : s.handoffs.getLast? = some h := by
    rw [List.getLast?_eq_getElem?, ← hi]
    congr 1
    omega
  have hage : ∀ since t time window : ℤ, since ≤ t → t - window < time →
      since - time < window := by omega
  refine hrecent ⟨?_, h.time, ?_, hage _ t _ _ ht hwindow⟩
  · rw [hs.previousElector, hgetLast, ← hsuperseded]
    rfl
  · rw [hs.handoffAt, hgetLast]
    rfl

theorem currentElector_check (hcall : call.electorNodeID ≠ "") :
    (s.check call).guard.currentElector ≠ "" := by
  change (ElectorGuard.check s.guard call).1.currentElector ≠ ""
  by_cases hcurrent : s.guard.currentElector = "" ∨ s.guard.currentElector = call.electorNodeID
  · rw [check_current hcurrent]
    exact hcall
  · rcases check_other hcurrent with ⟨-, hguard, -⟩ | ⟨-, hcheck⟩
    · rw [hguard]
      exact (not_or.mp hcurrent).1
    · rw [hcheck]
      exact hcall

/-- **The Elector before the current one stays rejected for the whole window.** After any calls of
`Check`, an Elector that is accepted is the current one, or there is none, or each time that it was
superseded within the window another hand-off followed. There is always a current Elector after the
first call if the calls are for Electors with a node ID. A rejected call changes nothing. -/
theorem previous_elector_rejected (calls : List Call) (call : Call) :
    ((check (run calls).guard call).2 = none → ∀ t, call.since ≤ t →
      call.electorNodeID = (run calls).guard.currentElector ∨
      (run calls).guard.currentElector = "" ∨
      ∀ (i : ℕ) (h : Handoff), (run calls).handoffs[i]? = some h →
        h.superseded = call.electorNodeID → t - splitBrainWindow < h.time →
          i + 1 < (run calls).handoffs.length) ∧
    ((∀ c ∈ calls, c.electorNodeID ≠ "") → (run calls).guard.currentElector = "" → calls = []) ∧
    ((check (run calls).guard call).2 ≠ none →
      (check (run calls).guard call).1 = (run calls).guard) := by
  refine ⟨fun haccepted t ht => ?_, fun hids hnone => ?_, check_rejected⟩
  · by_cases hcurrent : (run calls).guard.currentElector = "" ∨
        (run calls).guard.currentElector = call.electorNodeID
    · exact hcurrent.elim (fun h => Or.inr (Or.inl h)) fun h => Or.inl h.symm
    · have hrecent := not_recent_of_accepted haccepted hcurrent
      exact Or.inr (Or.inr fun i h hi hsuperseded hwindow =>
        (tracks_run calls).followed hrecent ht hi hsuperseded hwindow)
  · cases calls using List.reverseRecOn with
    | nil => rfl
    | append_singleton calls last =>
      have hlast := currentElector_check (s := run calls) (hids last (by simp))
      rw [run_append] at hnone
      exact absurd hnone hlast

/-- The Electors `a`, `b` and `c`, each pushing once, a second apart. -/
def threeElectors : List Call :=
  [⟨"a", 0, 0⟩, ⟨"b", 1000 ^ 3, 1000 ^ 3⟩, ⟨"c", 2 * 1000 ^ 3, 2 * 1000 ^ 3⟩]

/-- `b` is still rejected a second later, and the guard keeps `c`; `a` is accepted, and a hand-off
has followed the one that superseded it. -/
theorem previous_elector_rejected_threeElectors :
    (check (run threeElectors).guard ⟨"b", 3 * 1000 ^ 3, 3 * 1000 ^ 3⟩).1 =
        (run threeElectors).guard ∧
      0 + 1 < (run threeElectors).handoffs.length := by
  obtain ⟨-, -, hb⟩ := previous_elector_rejected threeElectors ⟨"b", 3 * 1000 ^ 3, 3 * 1000 ^ 3⟩
  obtain ⟨ha, -, -⟩ := previous_elector_rejected threeElectors ⟨"a", 3 * 1000 ^ 3, 3 * 1000 ^ 3⟩
  refine ⟨hb (by decide), ?_⟩
  rcases ha (by decide) (3 * 1000 ^ 3) (by decide) with h | h | h
  · exact absurd h (by decide)
  · exact absurd h (by decide)
  · exact h 0 ⟨"a", "b", 1000 ^ 3⟩ (by decide) rfl (by decide)

/-- **An Elector comes back after a third one**: `a` was superseded two seconds ago and is accepted
beside the current Elector. So it is after a push with an empty node ID. -/
theorem superseded_elector_accepted :
    ((check (run threeElectors).guard ⟨"a", 3 * 1000 ^ 3, 3 * 1000 ^ 3⟩).2 = none ∧
      (run threeElectors).guard.currentElector = "c" ∧
      ⟨"a", "b", 1000 ^ 3⟩ ∈ (run threeElectors).handoffs ∧
      3 * 1000 ^ 3 - splitBrainWindow < 1000 ^ 3) ∧
    (check (run [⟨"a", 0, 0⟩, ⟨"", 1, 1⟩]).guard ⟨"a", 2, 2⟩).2 = none ∧
      ⟨"a", "", 1⟩ ∈ (run [⟨"a", 0, 0⟩, ⟨"", 1, 1⟩]).handoffs := by
  decide

/-! ### The handler -/

/-- The status of a rejected push. -/
inductive PushError
  | invalidArgument (message : String)
  | failedPrecondition (message : String)
deriving DecidableEq, Repr

/-- A request of `PushClusterState`: `elector` is the node ID of the Elector, if the request has
one, and the readings of the clock are those of `Check`. -/
structure Push where
  elector : Option NodeID
  since : Time
  now : Time
deriving DecidableEq, Repr

/-- `PushClusterState` up to the call of `ApplyClusterState`. -/
def pushClusterState (duration : ℤ → String) (g : Guard) (req : Push) :
    Guard × Except PushError Unit :=
  match req.elector with
  | none => (g, .error (.invalidArgument "elector info is required"))
  | some electorNodeID =>
    if electorNodeID = "" then (g, .error (.invalidArgument "elector node_id is required"))
    else
      match check g ⟨electorNodeID, req.since, req.now⟩ with
      | (g', some e) =>
        (g', .error (.failedPrecondition ("split-brain detected: " ++ e.message duration)))
      | (g', none) => (g', .ok ())

/-- The call of `Check` that a request comes to. -/
def Push.checked (req : Push) : Option Call :=
  (req.elector.filter fun electorNodeID => electorNodeID ≠ "").map fun electorNodeID =>
    ⟨electorNodeID, req.since, req.now⟩

theorem pushClusterState_guard (duration : ℤ → String) (s : History) (req : Push) :
    (pushClusterState duration s.guard req).1 =
      ([req].filterMap Push.checked |>.foldl History.check s).guard := by
  unfold pushClusterState
  cases hreq : req.elector with
  | none => simp [Push.checked, hreq]
  | some electorNodeID =>
    by_cases hid : electorNodeID = ""
    · simp [Push.checked, hreq, hid]
    · have hchecked : req.checked = some ⟨electorNodeID, req.since, req.now⟩ := by
        simp [Push.checked, hreq, hid]
      simp only [if_neg hid, List.filterMap_cons, hchecked, List.filterMap_nil, List.foldl_cons,
        List.foldl_nil, History.check]
      split <;> simp [*]

/-- **The handler** calls `Check` for Electors with a node ID only, and keeps no other state. -/
theorem pushClusterState_run (duration : ℤ → String) (reqs : List Push) :
    reqs.foldl (fun g req => (pushClusterState duration g req).1) .new =
        (run (reqs.filterMap Push.checked)).guard ∧
      ∀ call ∈ reqs.filterMap Push.checked, call.electorNodeID ≠ "" := by
  constructor
  · induction reqs using List.reverseRecOn with
    | nil => rfl
    | append_singleton reqs req ih =>
      rw [List.foldl_append, ih, List.filterMap_append, run_append]
      exact pushClusterState_guard duration _ req
  · intro call hcall
    obtain ⟨req, -, hreq⟩ := List.mem_filterMap.mp hcall
    obtain ⟨electorNodeID, hfilter, rfl⟩ := Option.map_eq_some_iff.mp hreq
    simpa using (Option.filter_eq_some_iff.mp hfilter).2

end Netsy.Node.ElectorGuard
