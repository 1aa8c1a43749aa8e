import Netsy.Lib.Channel
import Netsy.Lib.Run
import Netsy.Watch.Hub

/-! # The channels of a watcher

`Distribute` sends to the inbox of a watcher without a look at `inboxOk`: it relies on the watches,
which are gone once the inbox is closed. Here the two channels can be closed, with the panics of the
runtime: to close a channel twice, or to send on a closed one. The calls come from any number of
goroutines. What runs under the write lock of the watcher is one action and waits for all readers;
the loops under the read lock are cut at every send. -/

namespace Netsy.Watch.InboxSafety

open Lib.Channel Lib.Run Watch.Match Watch.Hub
open Watch.Hub.Manager (progressMsg progressTargets)

/-- The watcher with its channels and the goroutines that hold its read lock: calls of `Distribute`
with the watches they have not come to, and progress reports with the addresses they have not
written to. -/
structure State where
  watcher : Watcher
  /-- The channel of the inbox is closed; `watcher.inbox` is its buffer. -/
  inboxClosed : Bool
  doneCh : Chan Unit
  visits : List (Distribution × List ℤ)
  reports : List (ℤ × List ℤ)
deriving DecidableEq

/-- `NewWatcher`. -/
def State.new : State :=
  { watcher := .new, inboxClosed := false, doneCh := .make, visits := [], reports := [] }

namespace State

/-- A goroutine holds the read lock. -/
def readLocked (s : State) : Bool := !s.visits.isEmpty || !s.reports.isEmpty

def inboxCh (s : State) : Chan WatchResponse := ⟨s.watcher.inbox, s.inboxClosed⟩

/-- `close(w.inboxCh)`. -/
def closeInbox (s : State) : Except Panic State :=
  s.inboxCh.close.map fun c => { s with inboxClosed := c.closed }

/-- `close(w.doneCh)`. -/
def closeDone (s : State) : Except Panic State :=
  s.doneCh.close.map fun c => { s with doneCh := c }

/-- A `select` with a send to the inbox and a default, which is `none`. -/
def trySend (s : State) (msg : WatchResponse) : Except Panic (Option State) :=
  (s.inboxCh.trySend inboxCapacity msg).map fun sent => sent.map fun c =>
    { s with watcher := { s.watcher with inbox := c.buffer, placed := s.watcher.placed ++ [msg] } }

/-- `Cleanup` under the write lock. -/
def cleanup (s : State) : Except Panic State :=
  if !s.watcher.inboxOk then .ok s
  else do
    let s ← s.closeInbox
    let s ← s.closeDone
    return { s with watcher := s.watcher.close }

/-- `CreateWatch` under the write lock; `rejected` is the second look at the admission floor. -/
def createWatch (s : State) (y : Subscription) (rejected : Bool) : State :=
  if !s.watcher.inboxOk || rejected then s
  else
    { s with watcher := { s.watcher with
        watches := (s.watcher.watches.filter fun z => z.id ≠ y.id) ++ [y] } }

/-- `CancelWatch` under the write lock. -/
def cancelWatch (s : State) (watchID : ℤ) : State :=
  { s with watcher := s.watcher.remove watchID }

/-- `Distribute` takes the read lock. -/
def visit (s : State) (arg : Distribution) : State :=
  { s with visits := s.visits ++ [(arg, s.watcher.watches.map Subscription.id)] }

/-- Its inner loop comes to a watch. A full inbox ends the loop. -/
def offer (s : State) (i : ℕ) (watchID : ℤ) : Option (Except Panic State) := do
  let (arg, rest) ← s.visits[i]?
  let y ← s.watcher.watches.find? fun y => y.id = watchID
  let isMatch ← isWatchMatch y.entry arg.record
  let passed := s.visits.set i (arg, rest.filter (· ≠ watchID))
  if watchID ∉ rest then none
  else if isMatch then
    some ((s.trySend (outMsg y arg)).map fun
      | some s' => { s' with visits := passed }
      | none => { s with visits := s.visits.eraseIdx i })
  else some (.ok { s with visits := passed })

/-- Its inner loop ends. -/
def leave (s : State) (i : ℕ) : Option State := do
  let (_, rest) ← s.visits[i]?
  if rest = [] then some { s with visits := s.visits.eraseIdx i } else none

/-- A progress report takes the read lock. -/
def reportProgress (s : State) (revision : ℤ) : State :=
  if !s.watcher.inboxOk then s
  else { s with reports := s.reports ++ [(revision, progressTargets s.watcher.watches)] }

/-- It writes to one of its addresses; a full inbox is skipped. -/
def placeProgress (s : State) (j : ℕ) (watchID : ℤ) : Option (Except Panic State) := do
  let (revision, targets) ← s.reports[j]?
  let written := s.reports.set j (revision, targets.filter (· ≠ watchID))
  if watchID ∉ targets then none
  else
    some ((s.trySend (progressMsg revision watchID)).map fun sent =>
      { sent.getD s with reports := written })

/-- It ends. -/
def endProgress (s : State) (j : ℕ) : Option State := do
  let (_, targets) ← s.reports[j]?
  if targets = [] then some { s with reports := s.reports.eraseIdx j } else none

/-- The dispatch goroutine takes a response from the inbox. -/
def drain (s : State) : Option State :=
  s.inboxCh.receive.map fun (_, c) => { s with watcher := { s.watcher with inbox := c.buffer } }

end State

/-- The calls of the handler and of any number of calls of `Distribute`. -/
inductive Action
  | cleanup
  | createWatch (y : Subscription) (rejected : Bool)
  | cancelWatch (watchID : ℤ)
  | visit (arg : Distribution)
  | offer (i : ℕ) (watchID : ℤ)
  | leave (i : ℕ)
  | reportProgress (revision : ℤ)
  | placeProgress (j : ℕ) (watchID : ℤ)
  | endProgress (j : ℕ)
  | drain
deriving DecidableEq

/-- The actions under the write lock. -/
def writes : Action → Bool
  | .cleanup | .createWatch _ _ | .cancelWatch _ => true
  | _ => false

def act (s : State) : Action → Option (Except Panic State)
  | .cleanup => some s.cleanup
  | .createWatch y rejected => some (.ok (s.createWatch y rejected))
  | .cancelWatch watchID => some (.ok (s.cancelWatch watchID))
  | .visit arg => some (.ok (s.visit arg))
  | .offer i watchID => s.offer i watchID
  | .leave i => (s.leave i).map .ok
  | .reportProgress revision => some (.ok (s.reportProgress revision))
  | .placeProgress j watchID => s.placeProgress j watchID
  | .endProgress j => (s.endProgress j).map .ok
  | .drain => s.drain.map .ok

/-- A step of the program. A panic ends it. -/
def step : Except Panic State → Action → Option (Except Panic State)
  | .ok s, a => if writes a && s.readLocked then none else act s a
  | .error _, _ => none

/-! ### One action -/

variable {s s' : State} {a : Action} {o : Except Panic State}

/-- The channels are open exactly as long as `inboxOk` says so, a closed inbox has no watches, and
no progress report runs on it. -/
structure Safe (s : State) : Prop where
  inbox : s.inboxClosed = !s.watcher.inboxOk
  done : s.doneCh.closed = !s.watcher.inboxOk
  empty : s.watcher.inboxOk = false → s.watcher.watches = []
  reports : s.reports ≠ [] → s.watcher.inboxOk = true

theorem safe_new : Safe .new := ⟨rfl, rfl, nofun, nofun⟩

theorem trySend_ok (msg : WatchResponse) (h : Safe s) (hopen : s.watcher.inboxOk = true) :
    ∃ sent, s.trySend msg = .ok sent ∧ ∀ s' ∈ sent, Safe s' ∧ s'.reports = s.reports := by
  have hclosed : s.inboxCh.closed = false := by
    change s.inboxClosed = false
    rw [h.inbox, hopen]
    rfl
  unfold State.trySend
  rw [Chan.trySend_of_open hclosed]
  refine ⟨_, rfl, fun s' hs' => ?_⟩
  obtain ⟨c, -, rfl⟩ := Option.map_eq_some_iff.mp hs'
  exact ⟨⟨h.inbox, h.done, h.empty, h.reports⟩, rfl⟩

/-- The goroutines that read are no part of the invariant, apart from the progress reports. -/
theorem Safe.of_reports {reports : List (ℤ × List ℤ)} {visits : List (Distribution × List ℤ)}
    (h : Safe s) (hreports : reports ≠ [] → s.watcher.inboxOk = true) :
    Safe { s with reports, visits } :=
  ⟨h.inbox, h.done, h.empty, hreports⟩

theorem cleanup_ok (h : Safe s) (hlock : s.readLocked = false) :
    ∃ s', s.cleanup = .ok s' ∧ Safe s' := by
  unfold State.cleanup
  cases hok : s.watcher.inboxOk with
  | false => exact ⟨s, rfl, h⟩
  | true =>
    have hinbox : s.inboxCh.closed = false := by
      change s.inboxClosed = false
      rw [h.inbox, hok]
      rfl
    have hdone : s.doneCh.closed = false := by
      rw [h.done, hok]
      rfl
    have hreports : s.reports = [] := by
      simp only [State.readLocked, Bool.or_eq_false_iff, Bool.not_eq_false',
        List.isEmpty_iff] at hlock
      exact hlock.2
    have hinboxClose : s.closeInbox = .ok { s with inboxClosed := true } := by
      rw [State.closeInbox, Chan.close_of_open hinbox]
      rfl
    have hdoneClose : ({ s with inboxClosed := true } : State).closeDone =
        .ok { s with inboxClosed := true, doneCh := { s.doneCh with closed := true } } := by
      rw [State.closeDone, Chan.close_of_open hdone]
      rfl
    refine ⟨{ s with
      inboxClosed := true, doneCh := { s.doneCh with closed := true }
      watcher := s.watcher.close }, ?_, ?_⟩
    · simp [hinboxClose, hdoneClose, bind, Except.bind, pure, Except.pure]
    · unfold Watcher.close
      rw [if_pos hok]
      exact ⟨rfl, rfl, fun _ => rfl, fun hne => absurd hreports hne⟩

theorem Safe.createWatch (h : Safe s) (y : Subscription) (rejected : Bool) :
    Safe (s.createWatch y rejected) := by
  unfold State.createWatch
  split_ifs with hreturns
  · exact h
  · have hok : s.watcher.inboxOk = true := by
      simp only [Bool.or_eq_true, Bool.not_eq_true'] at hreturns
      simpa using (not_or.mp hreturns).1
    exact ⟨h.inbox, h.done, fun hclosed => absurd hok (by simpa using hclosed), h.reports⟩

theorem Safe.cancelWatch (h : Safe s) (watchID : ℤ) : Safe (s.cancelWatch watchID) :=
  ⟨h.inbox, h.done, fun hclosed => by
    change s.watcher.watches.filter _ = []
    rw [h.empty hclosed]
    rfl, h.reports⟩

theorem offer_ok {i : ℕ} {watchID : ℤ} (h : Safe s) (ho : s.offer i watchID = some o) :
    ∃ s', o = .ok s' ∧ Safe s' := by
  obtain ⟨⟨arg, rest⟩, -, ho⟩ := Option.bind_eq_some_iff.mp ho
  obtain ⟨y, hy, ho⟩ := Option.bind_eq_some_iff.mp ho
  obtain ⟨isMatch, -, ho⟩ := Option.bind_eq_some_iff.mp ho
  dsimp only at ho
  have hopen : s.watcher.inboxOk = true := by
    by_contra hclosed
    rw [h.empty (by simpa using hclosed)] at hy
    cases hy
  split_ifs at ho
  · cases ho
    obtain ⟨sent, hsent, hsafe⟩ := trySend_ok (outMsg y arg) h hopen
    rw [hsent]
    cases sent with
    | none => exact ⟨_, rfl, h.of_reports h.reports⟩
    | some s' =>
      obtain ⟨hs', -⟩ := hsafe s' rfl
      exact ⟨_, rfl, hs'.of_reports hs'.reports⟩
  · cases ho
    exact ⟨_, rfl, h.of_reports h.reports⟩

theorem placeProgress_ok {j : ℕ} {watchID : ℤ} (h : Safe s)
    (ho : s.placeProgress j watchID = some o) : ∃ s', o = .ok s' ∧ Safe s' := by
  obtain ⟨⟨revision, targets⟩, hj, ho⟩ := Option.bind_eq_some_iff.mp ho
  dsimp only at ho
  have hopen : s.watcher.inboxOk = true := h.reports (List.ne_nil_of_mem (List.mem_of_getElem? hj))
  split_ifs at ho
  cases ho
  obtain ⟨sent, hsent, hsafe⟩ := trySend_ok (progressMsg revision watchID) h hopen
  rw [hsent]
  cases sent with
  | none => exact ⟨_, rfl, h.of_reports fun _ => hopen⟩
  | some s' =>
    obtain ⟨hs', hreports⟩ := hsafe s' rfl
    refine ⟨_, rfl, hs'.of_reports fun _ => hs'.reports ?_⟩
    rw [hreports]
    exact List.ne_nil_of_mem (List.mem_of_getElem? hj)

theorem step_ok (h : Safe s) (hs : step (.ok s) a = some o) : ∃ s', o = .ok s' ∧ Safe s' := by
  dsimp only [step] at hs
  split_ifs at hs with hlock
  cases a with
  | cleanup =>
    cases hs
    exact cleanup_ok h (by simpa [writes] using hlock)
  | createWatch y rejected =>
    cases hs
    exact ⟨_, rfl, h.createWatch y rejected⟩
  | cancelWatch watchID =>
    cases hs
    exact ⟨_, rfl, h.cancelWatch watchID⟩
  | visit arg =>
    cases hs
    exact ⟨_, rfl, h.of_reports h.reports⟩
  | offer i watchID => exact offer_ok h hs
  | leave i =>
    obtain ⟨s', hleave, rfl⟩ := Option.map_eq_some_iff.mp hs
    obtain ⟨⟨arg, rest⟩, -, hleave⟩ := Option.bind_eq_some_iff.mp hleave
    dsimp only at hleave
    split_ifs at hleave
    cases hleave
    exact ⟨_, rfl, h.of_reports h.reports⟩
  | reportProgress revision =>
    cases hs
    refine ⟨_, rfl, ?_⟩
    unfold State.reportProgress
    split_ifs with hclosed
    · exact h
    · exact h.of_reports fun _ => by simpa using hclosed
  | placeProgress j watchID => exact placeProgress_ok h hs
  | endProgress j =>
    obtain ⟨s', hend, rfl⟩ := Option.map_eq_some_iff.mp hs
    obtain ⟨⟨revision, targets⟩, hj, hend⟩ := Option.bind_eq_some_iff.mp hend
    dsimp only at hend
    split_ifs at hend
    cases hend
    exact ⟨_, rfl, h.of_reports fun _ => h.reports (List.ne_nil_of_mem (List.mem_of_getElem? hj))⟩
  | drain =>
    obtain ⟨s', hdrain, rfl⟩ := Option.map_eq_some_iff.mp hs
    obtain ⟨⟨msg, c⟩, -, rfl⟩ := Option.map_eq_some_iff.mp hdrain
    exact ⟨_, rfl, h.inbox, h.done, h.empty, h.reports⟩

/-! ### Whole runs -/

/-- **The inbox is safe.** No interleaving of the calls on a watcher ends in a panic: the inbox and
the done channel are closed at most once, and nothing is sent on a closed inbox. In every state a
closed inbox has no watches. -/
theorem inbox_safe (as : List Action) (o : Except Panic State)
    (h : exec step (.ok .new) as = some o) :
    ∃ s, o = .ok s ∧ (s.inboxClosed = true → s.watcher.watches = []) := by
  have hsafe : ∃ s, o = .ok s ∧ Safe s := by
    refine exec_invariant (I := fun o => ∃ s, o = .ok s ∧ Safe s) ?_ ⟨.new, rfl, safe_new⟩
      (meets_of_forall fun _ _ => trivial) h
    rintro _ a o ⟨s, rfl, hs⟩ - hstep
    exact step_ok hs hstep
  obtain ⟨s, rfl, hs⟩ := hsafe
  refine ⟨s, rfl, fun hclosed => hs.empty ?_⟩
  rw [hs.inbox] at hclosed
  simpa using hclosed

/-- A watch of key `a`. -/
def oneWatch : Subscription where
  id := 1
  entry := { key := [97], rangeEnd := [], startRevision := 0, prevKv := false,
             progressNotify := true, filtersNoPut := false, filtersNoDelete := false }
  since := 0
  first := 0

/-- A put of key `a`. -/
def onePut : Distribution := ⟨{ revision := 2, key := [97] }, none⟩

/-- `Distribute` delivers, two calls of `Cleanup` follow, and then every other call comes late. -/
def closedTwice : List Action :=
  [.createWatch oneWatch false, .visit onePut, .reportProgress 1, .offer 0 1, .placeProgress 0 (-1),
    .leave 0, .endProgress 0, .cleanup, .cleanup, .createWatch oneWatch false, .cancelWatch 1,
    .visit onePut, .reportProgress 2]

theorem inbox_safe_closedTwice :
    ∃ s, exec step (.ok .new) closedTwice = some (.ok s) ∧ s.inboxClosed = true ∧
      s.watcher.watches = [] := by
  refine ⟨_, rfl, rfl, ?_⟩
  obtain ⟨s, hs, hempty⟩ := inbox_safe closedTwice _ rfl
  cases hs
  exact hempty rfl

end Netsy.Watch.InboxSafety
