import Netsy.CommonAPI.Range
import Netsy.Watch.Match
import Mathlib.Logic.Function.Basic

/-! # The watch manager

The watchers of a node with their watches and inboxes, and the calls of `Distribute`, `Cleanup`,
`CreateWatch`, `CancelWatch` and `ReportProgressOnInterval` that run on them. A call is cut where
another goroutine may come in between: at every lock and at every send to an inbox. A lock is a
guard: `Register` and `Unregister` wait for every `Distribute` that iterates over the watchers, a
change to the watches of a watcher waits for every reader of that watcher.

Three things are no part of the program and only observe it: everything ever put into an inbox,
the watches that have ended, and the calls of `Distribute` in the order in which they began. -/

namespace Netsy.Watch.Hub

open Proto LocalDB.Schema Watch.Match
open CommonAPI.Range (KeyValue keyValueOf)

inductive EventType
  | put | delete
deriving DecidableEq, Repr

structure Event where
  type : EventType
  kv : KeyValue
  prevKv : Option KeyValue
deriving DecidableEq, Repr

/-- `pb.WatchResponse`, with the revision of its header. -/
structure WatchResponse where
  revision : ℤ
  watchId : ℤ
  created : Bool := false
  canceled : Bool := false
  cancelReason : String := ""
  compactRevision : ℤ := 0
  events : List Event := []
deriving DecidableEq, Repr

inductive FilterType
  | noPut | noDelete
deriving DecidableEq, Repr

structure WatchCreateRequest where
  key : Bytes
  rangeEnd : Bytes := []
  startRevision : ℤ := 0
  progressNotify : Bool := false
  filters : List FilterType := []
  prevKv : Bool := false
  watchId : ℤ := 0
deriving DecidableEq, Repr

def autoWatchID : ℤ := 0

/-- `clientv3.InvalidWatchID`, the address of a broadcast. -/
def invalidWatchID : ℤ := -1

def inboxCapacity : ℕ := 64

/-- A watch with its entry. Of the two observations, `since` is the number of records that were
committed when it was added, `first` the number of calls of `Distribute` that had passed its
watcher. -/
structure Subscription where
  id : ℤ
  entry : WatchEntry
  since : ℕ
  first : ℕ
deriving DecidableEq, Repr

/-- Where a call of `CreateWatch` stands. -/
inductive Creating
  | received (r : WatchCreateRequest) (latestRevision : ℤ)
  | accepted (r : WatchCreateRequest) (latestRevision watchID : ℤ)
  | found (r : WatchCreateRequest) (watchID revision header : ℤ)
  | added (watchID revision header : ℤ)
deriving DecidableEq, Repr

structure Watcher where
  /-- The handler is in its request loop. -/
  serving : Bool
  inboxOk : Bool
  inbox : List WatchResponse
  watches : List Subscription
  creating : Option Creating
  /-- What was handed to `Send`. -/
  sent : List WatchResponse
  placed : List WatchResponse
  ended : List Subscription
deriving DecidableEq

/-- A position that no watcher has. -/
def Watcher.unused : Watcher :=
  { serving := false, inboxOk := false, inbox := [], watches := [], creating := none, sent := [],
    placed := [], ended := [] }

/-- `NewWatcher`. -/
def Watcher.new : Watcher := { Watcher.unused with serving := true, inboxOk := true }

/-- The arguments of `Distribute`. -/
structure Distribution where
  record : Record
  prevRecord : Option Record
deriving DecidableEq, Repr

/-- Who called `Distribute`. -/
inductive Caller
  | applyTxn | follower
deriving DecidableEq, Repr

/-- A call of `Distribute`. -/
structure Dist where
  arg : Distribution
  caller : Caller
  /-- The watchers it has not come to. -/
  todo : List ℕ
  /-- The watcher whose lock it holds, with the watches it has not come to. -/
  visiting : Option (ℕ × List ℤ)
  slow : List ℕ
  /-- It has released the lock of the manager. -/
  unlocked : Bool
  /-- The watcher whose `Cleanup` is between `Unregister` and the lock of the watcher. -/
  closing : Option ℕ
deriving DecidableEq

/-- A call that has just taken the lock of the manager. -/
def Dist.new (caller : Caller) (arg : Distribution) (registered : List ℕ) : Dist :=
  { arg := arg, caller := caller, todo := registered, visiting := none, slow := [],
    unlocked := false, closing := none }

/-- A call of the function that `ReportProgressOnInterval` returns. With the lock of the watcher it
has the addresses it has not written to. -/
structure Report where
  watcher : ℕ
  revision : ℤ
  targets : Option (List ℤ)
deriving DecidableEq, Repr

structure Manager where
  watchers : ℕ → Watcher
  nextWatcher : ℕ
  /-- The keys of the map of the manager. -/
  registered : List ℕ
  watchAdmissionFloor : ℤ
  nextWatchID : ℤ
  dists : List Dist
  reports : List Report
  begun : List Distribution

/-- `NewManager`. -/
def Manager.new : Manager :=
  { watchers := fun _ => .unused, nextWatcher := 1, registered := [], watchAdmissionFloor := 0,
    nextWatchID := 1, dists := [], reports := [], begun := [] }

/-- What the calls read of the node; `log` is the number of records committed so far. -/
structure Env where
  committed : ℤ
  compaction : ℤ
  db : Table
  log : ℕ

namespace Manager

def setWatcher (m : Manager) (w : ℕ) (x : Watcher) : Manager :=
  { m with watchers := Function.update m.watchers w x }

def setDist (m : Manager) (i : ℕ) (d : Dist) : Manager := { m with dists := m.dists.set i d }

def setReport (m : Manager) (j : ℕ) (r : Report) : Manager :=
  { m with reports := m.reports.set j r }

/-- Some `Distribute` iterates over the map of the manager. -/
def mapLocked (m : Manager) : Bool := m.dists.any fun d => !d.unlocked

/-- Some `Distribute` or progress report holds the read lock of the watcher. -/
def readLocked (m : Manager) (w : ℕ) : Bool :=
  (m.dists.any fun d => d.visiting.any fun v => v.1 = w) ||
    m.reports.any fun r => r.watcher = w && r.targets.isSome

end Manager

/-- A send to the inbox; `none` if it is full. -/
def Watcher.place (x : Watcher) (msg : WatchResponse) : Option Watcher :=
  if x.inbox.length < inboxCapacity then
    some { x with inbox := x.inbox ++ [msg], placed := x.placed ++ [msg] }
  else none

def Watcher.send (x : Watcher) (msg : WatchResponse) : Watcher :=
  { x with sent := x.sent ++ [msg] }

/-- `Cleanup` under the lock of the watcher. -/
def Watcher.close (x : Watcher) : Watcher :=
  if x.inboxOk then
    { x with inboxOk := false, ended := x.ended ++ x.watches, watches := [] }
  else x

/-- The watch is deleted. -/
def Watcher.remove (x : Watcher) (watchID : ℤ) : Watcher :=
  { x with
    watches := x.watches.filter fun y => y.id ≠ watchID
    ended := x.ended ++ x.watches.filter fun y => y.id = watchID }

/-! ### Distribute -/

def eventType (record : Record) : EventType := if record.deleted then .delete else .put

/-- The response of `Distribute` for one watch. -/
def outMsg (y : Subscription) (d : Distribution) : WatchResponse where
  revision := d.record.revision
  watchId := y.id
  events := [{
    type := eventType d.record
    kv := keyValueOf d.record
    prevKv := if y.entry.prevKv then d.prevRecord.map keyValueOf else none }]

namespace Manager

/-- `Distribute` takes the lock of the manager. -/
def distribute (m : Manager) (caller : Caller) (arg : Distribution) : Manager :=
  { m with dists := m.dists ++ [.new caller arg m.registered], begun := m.begun ++ [arg] }

/-- The loop comes to the watcher `w`. -/
def enter (m : Manager) (i w : ℕ) : Option Manager := do
  let d ← m.dists[i]?
  if d.unlocked = false ∧ d.visiting = none ∧ w ∈ d.todo then
    some (m.setDist i { d with
      todo := d.todo.filter (· ≠ w)
      visiting := some (w, (m.watchers w).watches.map Subscription.id) })
  else none

/-- The inner loop comes to a watch. A full inbox ends it. -/
def offer (m : Manager) (i : ℕ) (watchID : ℤ) : Option Manager := do
  let d ← m.dists[i]?
  let (w, rest) ← d.visiting
  let y ← (m.watchers w).watches.find? fun y => y.id = watchID
  let isMatch ← isWatchMatch y.entry d.arg.record
  let passed := { d with visiting := some (w, rest.filter (· ≠ watchID)) }
  if watchID ∉ rest then none
  else if isMatch then
    match (m.watchers w).place (outMsg y d.arg) with
    | some x => some ((m.setWatcher w x).setDist i passed)
    | none => some (m.setDist i { d with visiting := none, slow := d.slow ++ [w] })
  else some (m.setDist i passed)

/-- The inner loop ends. -/
def leave (m : Manager) (i : ℕ) : Option Manager := do
  let d ← m.dists[i]?
  let (_, rest) ← d.visiting
  if rest = [] then some (m.setDist i { d with visiting := none }) else none

/-- The loop ends and the lock of the manager is released. -/
def unlock (m : Manager) (i : ℕ) : Option Manager := do
  let d ← m.dists[i]?
  if d.unlocked = false ∧ d.todo = [] ∧ d.visiting = none then
    some (m.setDist i { d with unlocked := true })
  else none

/-- `Unregister` for the next slow watcher. -/
def unregisterSlow (m : Manager) (i : ℕ) : Option Manager := do
  let d ← m.dists[i]?
  if m.mapLocked || d.closing.isSome then none
  else
    match d.slow with
    | w :: rest =>
      some ({ m with registered := m.registered.filter (· ≠ w) }.setDist i
        { d with slow := rest, closing := some w })
    | [] => none

/-- The rest of `Cleanup` for that watcher. -/
def closeSlow (m : Manager) (i : ℕ) : Option Manager := do
  let d ← m.dists[i]?
  let w ← d.closing
  if m.readLocked w then none
  else some ((m.setWatcher w (m.watchers w).close).setDist i { d with closing := none })

/-- `Distribute` returns. -/
def finish (m : Manager) (i : ℕ) : Option Manager := do
  let d ← m.dists[i]?
  if d.unlocked = true ∧ d.slow = [] ∧ d.closing = none then
    some { m with dists := m.dists.eraseIdx i }
  else none

/-! ### Watch -/

/-- `NewWatcher` and `Register`. -/
def register (m : Manager) : Option Manager :=
  if m.mapLocked then none
  else
    some { m.setWatcher m.nextWatcher .new with
      nextWatcher := m.nextWatcher + 1, registered := m.registered ++ [m.nextWatcher] }

/-- The handler leaves its request loop and calls `Cleanup`, up to `Unregister`. -/
def unregister (m : Manager) (w : ℕ) : Option Manager :=
  if m.mapLocked || !(m.watchers w).serving || (m.watchers w).creating.isSome then none
  else
    some { m.setWatcher w { m.watchers w with serving := false } with
      registered := m.registered.filter (· ≠ w) }

/-- The rest of the `Cleanup` of the handler. -/
def close (m : Manager) (w : ℕ) : Option Manager :=
  if m.readLocked w || (m.watchers w).serving then none
  else some (m.setWatcher w (m.watchers w).close)

/-- The dispatch goroutine takes a response from the inbox and sends it. -/
def drain (m : Manager) (w : ℕ) (sendOk : Bool) : Option Manager :=
  match (m.watchers w).inbox with
  | msg :: rest =>
    let x := { m.watchers w with inbox := rest }
    some (m.setWatcher w (if sendOk then x.send msg else x))
  | [] => none

def setWatchAdmissionFloor (m : Manager) (revision : ℤ) : Manager :=
  let below := m.registered.any fun w => (m.watchers w).watches.any fun y =>
    0 < y.entry.startRevision && y.entry.startRevision < revision
  if below then m else { m with watchAdmissionFloor := revision }

/-! ### CreateWatch -/

/-- The request loop takes a create request and reads the committed revision. -/
def receive (env : Env) (m : Manager) (w : ℕ) (r : WatchCreateRequest) : Option Manager :=
  let x := m.watchers w
  if x.serving && x.creating.isNone then
    some (m.setWatcher w { x with creating := some (.received r env.committed) })
  else none

/-- The two responses of a rejected request. -/
def reject (m : Manager) (w : ℕ) (header watchID compactRevision : ℤ) (cancelReason : String) :
    Manager :=
  let x := { m.watchers w with creating := none }
  m.setWatcher w ((x.send { revision := header, watchId := watchID, created := true }).send
    { revision := header, watchId := watchID, canceled := true, cancelReason := cancelReason,
      compactRevision := compactRevision })

/-- The reason of a rejection by the compaction floor. -/
def compactedReason (startRevision compactionRevision : ℤ) : String :=
  s!"required revision {startRevision} has been compacted; " ++
    s!"compaction revision is {compactionRevision}"

/-- The admission: the compaction floor and the watch ID. -/
def accept (env : Env) (m : Manager) (w : ℕ) : Option Manager :=
  match (m.watchers w).creating with
  | some (.received r latest) =>
    let floor := max env.compaction m.watchAdmissionFloor
    let m' := { m with nextWatchID := m.nextWatchID + 1 }
    if 0 < r.startRevision ∧ 0 < floor ∧ r.startRevision ≤ floor then
      some (m'.reject w latest m.nextWatchID floor (compactedReason r.startRevision floor))
    else if r.watchId ≠ autoWatchID then
      some (m.reject w latest r.watchId 0 "user-provided watch IDs are unsupported")
    else
      some (m'.setWatcher w
        { m.watchers w with creating := some (.accepted r latest m.nextWatchID) })
  | _ => none

/-- `GetRevision`: the revision and whether it is compacted. -/
def getRevision (db : Table) (revision : ℤ) : Except String (ℤ × Bool) :=
  match db.findRecordByRev revision with
  | some row => .ok (row.revision, row.compactedAt.isSome)
  | none => .error "sql: no rows in result set"

/-- The look at the start revision; `err` is an error of the database. -/
def lookup (env : Env) (m : Manager) (w : ℕ) (err : Option String) : Option Manager :=
  match (m.watchers w).creating with
  | some (.accepted r latest watchID) =>
    let accept (revision header : ℤ) :=
      m.setWatcher w { m.watchers w with creating := some (.found r watchID revision header) }
    let start := r.startRevision
    if start = 0 then some (accept latest latest)
    else
      match err.elim (getRevision env.db start) .error with
      | .ok (revision, false) => some (accept revision revision)
      | .ok (revision, true) =>
        some (m.reject w revision watchID start s!"revision '{start}' has been compacted")
      | .error e =>
        if start ≤ latest then
          some (m.reject w start watchID 0
            (s!"failed to get revision '{start}' for CreateWatch: {e}"))
        -- a revision of the future; the header keeps the zero revision of the failed lookup
        else some (accept latest 0)
  | _ => none

def watchData (r : WatchCreateRequest) : WatchEntry where
  key := r.key
  rangeEnd := r.rangeEnd
  startRevision := r.startRevision
  prevKv := r.prevKv
  progressNotify := r.progressNotify
  filtersNoPut := r.filters.contains .noPut
  filtersNoDelete := r.filters.contains .noDelete

/-- The watch that is added for a request. -/
def newWatch (env : Env) (m : Manager) (w : ℕ) (r : WatchCreateRequest) (watchID : ℤ) :
    Subscription where
  id := watchID
  entry := watchData r
  since := env.log
  first := m.begun.length - m.dists.countP fun d => w ∈ d.todo

/-- The watch is added under the lock of the watcher, if the floor has not risen above it. -/
def add (env : Env) (m : Manager) (w : ℕ) : Option Manager :=
  match (m.watchers w).creating with
  | some (.found r watchID revision header) =>
    let x := m.watchers w
    let floor := m.watchAdmissionFloor
    if m.readLocked w then none
    else if !x.inboxOk then some (m.setWatcher w { x with creating := none })
    else if 0 < r.startRevision ∧ 0 < floor ∧ r.startRevision ≤ floor then
      some (m.reject w header watchID floor (compactedReason r.startRevision floor))
    else
      some (m.setWatcher w { x with
        watches := x.watches ++ [newWatch env m w r watchID]
        creating := some (.added watchID revision header) })
  | _ => none

/-- The request is acknowledged; `err` is an error of `Send`, which cancels the watch. -/
def ack (m : Manager) (w : ℕ) (err : Option String) : Option Manager :=
  match (m.watchers w).creating with
  | some (.added watchID revision header) =>
    let x := { m.watchers w with creating := none }
    match err with
    | none =>
      some (m.setWatcher w (x.send { revision := header, watchId := watchID, created := true }))
    | some e =>
      if m.readLocked w then none
      else
        some (m.setWatcher w ((x.remove watchID).send
          { revision := revision, watchId := watchID, canceled := true, cancelReason := e }))
  | _ => none

/-- `CancelWatch` for a request of the client. -/
def cancelWatch (env : Env) (m : Manager) (w : ℕ) (watchID : ℤ) : Option Manager :=
  let x := m.watchers w
  if m.readLocked w || !x.serving || x.creating.isSome then none
  else
    some (m.setWatcher w ((x.remove watchID).send
      { revision := env.committed, watchId := watchID }))

/-! ### ReportProgressOnInterval -/

/-- The addresses of a progress report: all watches at once if all of them want it. -/
def progressTargets (watches : List Subscription) : List ℤ :=
  if watches.all fun y => y.entry.progressNotify then [invalidWatchID]
  else (watches.filter fun y => y.entry.progressNotify).map Subscription.id

/-- A report begins: it reads the committed revision. -/
def reportProgress (env : Env) (m : Manager) (w : ℕ) : Option Manager :=
  if w < m.nextWatcher then
    some { m with
      reports := m.reports ++ [{ watcher := w, revision := env.committed, targets := none }] }
  else none

/-- It takes the lock of its watcher. -/
def lockProgress (m : Manager) (j : ℕ) : Option Manager := do
  let r ← m.reports[j]?
  if r.targets.isSome then none
  else if (m.watchers r.watcher).inboxOk then
    some (m.setReport j
      { r with targets := some (progressTargets (m.watchers r.watcher).watches) })
  else some { m with reports := m.reports.eraseIdx j }

/-- The response of a progress report. -/
def progressMsg (revision watchID : ℤ) : WatchResponse :=
  { revision := revision, watchId := watchID }

/-- It writes to one of its addresses; a full inbox is skipped. -/
def placeProgress (m : Manager) (j : ℕ) (watchID : ℤ) : Option Manager := do
  let r ← m.reports[j]?
  let targets ← r.targets
  let written := { r with targets := some (targets.filter (· ≠ watchID)) }
  if watchID ∉ targets then none
  else
    match (m.watchers r.watcher).place (progressMsg r.revision watchID) with
    | some x => some ((m.setWatcher r.watcher x).setReport j written)
    | none => some (m.setReport j written)

/-- It ends. -/
def endProgress (m : Manager) (j : ℕ) : Option Manager := do
  let r ← m.reports[j]?
  if r.targets = some [] then some { m with reports := m.reports.eraseIdx j } else none

end Manager

/-! ### The machine -/

inductive Action
  | enter (i w : ℕ)
  | offer (i : ℕ) (watchID : ℤ)
  | leave (i : ℕ)
  | unlock (i : ℕ)
  | unregisterSlow (i : ℕ)
  | closeSlow (i : ℕ)
  | finish (i : ℕ)
  | register
  | unregister (w : ℕ)
  | close (w : ℕ)
  | drain (w : ℕ) (sendOk : Bool)
  | setWatchAdmissionFloor (revision : ℤ)
  | receive (w : ℕ) (r : WatchCreateRequest)
  | accept (w : ℕ)
  | lookup (w : ℕ) (err : Option String)
  | add (w : ℕ)
  | ack (w : ℕ) (err : Option String)
  | cancelWatch (w : ℕ) (watchID : ℤ)
  | reportProgress (w : ℕ)
  | lockProgress (j : ℕ)
  | placeProgress (j : ℕ) (watchID : ℤ)
  | endProgress (j : ℕ)
deriving DecidableEq, Repr

/-- A step of the manager on its own. A call of `Distribute` begins in a step of its caller. -/
def step (env : Env) (m : Manager) : Action → Option Manager
  | .enter i w => m.enter i w
  | .offer i watchID => m.offer i watchID
  | .leave i => m.leave i
  | .unlock i => m.unlock i
  | .unregisterSlow i => m.unregisterSlow i
  | .closeSlow i => m.closeSlow i
  | .finish i => m.finish i
  | .register => m.register
  | .unregister w => m.unregister w
  | .close w => m.close w
  | .drain w sendOk => m.drain w sendOk
  | .setWatchAdmissionFloor revision => some (m.setWatchAdmissionFloor revision)
  | .receive w r => m.receive env w r
  | .accept w => m.accept env w
  | .lookup w err => m.lookup env w err
  | .add w => m.add env w
  | .ack w err => m.ack w err
  | .cancelWatch w watchID => m.cancelWatch env w watchID
  | .reportProgress w => m.reportProgress env w
  | .lockProgress j => m.lockProgress j
  | .placeProgress j watchID => m.placeProgress j watchID
  | .endProgress j => m.endProgress j

end Netsy.Watch.Hub
