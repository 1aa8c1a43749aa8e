import Netsy.Primary.FlushOwned
import Netsy.Primary.Gate

/-! # What a call of `LeaderTxn` did when it returns

The call at the gate moves through four stages: begun, inserted, committed, advanced. Every step of
the Primary is one of a few moves between these (`callStep_of_step`); what the calls returned and
how the table and the two revision counters stood before and after is a ghost beside the
machine. -/

namespace Netsy.Primary.Outcomes

open Proto NodeState Lib.Run LocalDB.Schema Primary.LeaderTxn Primary.Transitions Primary.FlushOwned

/-- The table and the two revision counters. -/
structure Counters where
  db : Table
  nextRevisionID : ℤ
  committed : ℤ
deriving DecidableEq

def counters (s : Server) : Counters := ⟨s.db, s.nextRevisionID, s.committed⟩

/-- How far a call has come. -/
inductive Stage
  | begun
  | inserted (tx : Tx)
  | committed (record : Record)
  | advanced
deriving DecidableEq

def stageOf : Phase → Stage
  | .acquired _ => .begun
  | .uploading tx _ _ | .uploaded tx | .quorumStart tx _ | .collecting tx | .awaiting tx =>
    .inserted tx
  | .syncCommitted record | .syncBroadcast record | .quorumCommitted record => .committed record
  | .syncAdvanced _ | .quorumAdvanced _ | .quorumNotified _ | .bufferFull | .flushing
  | .flushFailed => .advanced

/-- The counters, and the stage of the call at the gate. -/
structure View where
  counters : Counters
  stage : Option Stage
deriving DecidableEq

def view (s : Server) : View := ⟨counters s, s.gate.map fun h => stageOf h.phase⟩

/-- An SQLite transaction is open; other writes wait for its end. -/
def txOpen (s : Server) : Bool :=
  match (view s).stage with
  | some (.inserted _) => true
  | _ => false

/-- What a step of the Primary can do to the call at the gate. -/
inductive CallStep : View → View → Prop
  | keep {v} : CallStep v v
  | acquire {k} : CallStep ⟨k, none⟩ ⟨k, some .begun⟩
  | insert {k} {tx : Tx} (htx : TxOk k.db k.nextRevisionID tx) :
      CallStep ⟨k, some .begun⟩ ⟨k, some (.inserted tx)⟩
  | commit {k} {tx : Tx} : CallStep ⟨k, some (.inserted tx)⟩
      ⟨{ k with db := tx.table, nextRevisionID := k.nextRevisionID + 1 },
        some (.committed tx.record)⟩
  | advance {k} {record : Record} : CallStep ⟨k, some (.committed record)⟩
      ⟨{ k with committed := record.revision }, some .advanced⟩
  /-- An error, or a failed comparison. -/
  | fail {k st} (h : st = .begun ∨ ∃ tx, st = .inserted tx) : CallStep ⟨k, some st⟩ ⟨k, none⟩
  | returns {k} : CallStep ⟨k, some .advanced⟩ ⟨k, none⟩

/-! ### The machine takes these steps -/

variable {c : Config} {s s' : Server} {a : Action} {acquiredIn acquiredIn' : PrimaryState}
  {q q' : Phase}

theorem view_of_gate (hg : s.gate = some ⟨acquiredIn, q⟩) :
    view s = ⟨counters s, some (stageOf q)⟩ := by
  rw [view, hg]
  rfl

theorem view_of_none (hg : s.gate = none) : view s = ⟨counters s, none⟩ := by
  rw [view, hg]
  rfl

theorem view_drainIfActive (s : Server) : view s.drainIfActive = view s := by
  obtain ⟨p, w, he⟩ := drainIfActive_eq s
  rw [he]
  rfl

theorem CallStep.of_eq (h : view s' = view s) : CallStep (view s) (view s') := by
  rw [h]
  exact .keep

theorem CallStep.of_frame (h : Frame a s s') (hg : touches a .gate = false)
    (hl : touches a .log = false) : CallStep (view s) (view s') := by
  obtain ⟨hd, hrest⟩ := Prod.mk.inj (h.log hl)
  obtain ⟨hc, hn⟩ := Prod.mk.inj hrest
  refine .of_eq ?_
  unfold view counters
  rw [hd, hc, hn, h.gate hg]

theorem CallStep.of_phase (hg : s.gate = some ⟨acquiredIn, q⟩)
    (hg' : s'.gate = some ⟨acquiredIn', q'⟩) (hq : stageOf q' = stageOf q)
    (hk : counters s' = counters s) : CallStep (view s) (view s') :=
  .of_eq (by rw [view_of_gate hg, view_of_gate hg', hq, hk])

theorem CallStep.of_fail (hg : s.gate = some ⟨acquiredIn, q⟩) (hg' : s'.gate = none)
    (hk : counters s' = counters s) (hq : stageOf q = .begun ∨ ∃ tx, stageOf q = .inserted tx) :
    CallStep (view s) (view s') := by
  rw [view_of_gate hg, view_of_none hg', hk]
  exact .fail hq

theorem CallStep.of_returns (hg : s.gate = some ⟨acquiredIn, q⟩) (hg' : s'.gate = none)
    (hk : counters s' = counters s) (hq : stageOf q = .advanced) :
    CallStep (view s) (view s') := by
  rw [view_of_gate hg, view_of_none hg', hk, hq]
  exact .returns

theorem CallStep.of_flush {owner : ChunkBuffer.FlushOwner} {r : Except Datastore.PutError Unit}
    (ht : owner = .txn → ∃ acquiredIn q, s.gate = some ⟨acquiredIn, q⟩ ∧
      (q = .bufferFull ∨ q = .flushing)) :
    CallStep (view s) (view (s.flushReturns owner r)) := by
  rcases flushReturns_cases r ht with ⟨d, he⟩ | ⟨acquiredIn, q, hg, hq, he⟩
  · rw [he]
    exact .of_eq rfl
  · have hadv : stageOf q = .advanced := by rcases hq with rfl | rfl <;> rfl
    rcases he with he | he <;> rw [he]
    · exact .of_returns hg rfl rfl hadv
    · exact .of_phase hg rfl hadv.symm rfl

theorem callStep_of_step (h : Owned s) (hs : step c s a = some s') :
    CallStep (view s) (view s') := by
  cases a with
  | acquire i =>
    obtain ⟨_, hg, -, rfl⟩ := acquire_eq_some hs
    rw [view_of_none hg]
    exact .acquire
  | beginTx now txOk =>
    obtain ⟨_, _, hg, rfl | ⟨tx, htx, rfl⟩⟩ := beginTx_eq_some hs
    · exact .of_fail hg rfl rfl (Or.inl rfl)
    · have hpath : stageOf (pathOf c s now tx) = .inserted tx := by
        unfold pathOf
        split_ifs <;> rfl
      rw [view_of_gate hg, view_of_gate rfl, hpath]
      exact .insert htx
  | upload dv =>
    obtain ⟨_, tx, _, _, hg, ⟨rfl, -⟩ | rfl | rfl⟩ := upload_eq_some hs
    · exact .of_phase hg rfl rfl rfl
    · exact .of_phase hg rfl rfl rfl
    · rw [view_drainIfActive]
      exact .of_fail hg rfl rfl (Or.inr ⟨tx, rfl⟩)
  | commitSync ok =>
    obtain ⟨_, tx, hg, rfl | rfl⟩ := commitSync_eq_some hs
    · rw [view_of_gate hg]
      exact .commit
    · exact .of_fail hg rfl rfl (Or.inr ⟨tx, rfl⟩)
  | startCollecting =>
    obtain ⟨_, _, _, hg, rfl⟩ := startCollecting_eq_some hs
    exact .of_phase hg rfl rfl rfl
  | commitQuorum ok =>
    obtain ⟨_, tx, hg, -, ⟨-, rfl⟩ | ⟨-, rfl⟩⟩ := commitQuorum_eq_some hs
    · rw [view_of_gate hg]
      exact .commit
    · exact .of_fail hg rfl rfl (Or.inr ⟨tx, rfl⟩)
  | quorumTimeout =>
    obtain ⟨_, tx, hg, rfl⟩ := quorumTimeout_eq_some hs
    exact .of_fail hg rfl rfl (Or.inr ⟨tx, rfl⟩)
  | broadcastRecord =>
    obtain ⟨_, ⟨_, hg, rfl⟩ | ⟨_, hg, rfl⟩⟩ := broadcastRecord_eq_some hs
    · exact .of_phase hg rfl rfl rfl
    · exact .of_phase hg rfl rfl rfl
  | setCommitted =>
    obtain ⟨_, _, ⟨hg, rfl⟩ | ⟨hg, rfl⟩⟩ := setCommitted_eq_some hs
    · rw [view_of_gate hg]
      exact .advance
    · rw [view_of_gate hg]
      exact .advance
  | broadcastCommit =>
    obtain ⟨_, _, ⟨hg, rfl⟩ | ⟨hg, rfl⟩⟩ := broadcastCommit_eq_some hs
    · exact .of_returns hg rfl rfl rfl
    · exact .of_phase hg rfl rfl rfl
  | bufferRecord =>
    obtain ⟨_, _, hg, rfl | rfl⟩ := bufferRecord_eq_some hs
    · exact .of_phase hg rfl rfl rfl
    · exact .of_returns hg rfl rfl rfl
  | checkFull =>
    obtain ⟨_, hg, rfl | rfl⟩ := checkFull_eq_some hs
    · exact .of_returns hg rfl rfl rfl
    · rw [view_drainIfActive]
      exact .of_returns hg rfl rfl rfl
  | flush owner now =>
    obtain ⟨hc, ⟨-, rfl⟩ | ⟨b, f, -, rfl⟩⟩ := flush_eq_some hs
    · exact .of_flush (exists_gate_of_called hc)
    · rcases flushWaits_cases (s := { s with buffer := b, flush := some f }) hc with
        ⟨d, he⟩ | ⟨acquiredIn, hg, he⟩
      · rw [he]
        exact .of_eq rfl
      · rw [he]
        exact .of_phase hg rfl rfl rfl
  | flushEnd =>
    obtain ⟨f, r, hf, -, rfl⟩ := flushEnd_eq_some hs
    exact CallStep.of_flush (s := { s with buffer := s.buffer.endFlush f r, flush := none })
      (h.exists_gate hf)
  | _ => exact .of_frame (frame_step hs) rfl rfl

/-! ### The ledger of the calls -/

/-- A call that has returned: its record if it returned one, and the counters around it. -/
structure Outcome where
  before : Counters
  returned : Option Record
  after : Counters
deriving DecidableEq

/-- The calls so far. Of the call at the gate it has the counters when it took the gate and the
variable `inserted` of `LeaderTxn`. -/
structure Ledger where
  before : Counters
  inserted : Option Record
  outcomes : List Outcome
deriving DecidableEq

/-- A call returns what it inserted unless it ends with an error. -/
def returned (l : Ledger) : Stage → Option Record
  | .advanced => l.inserted
  | _ => none

/-- What a step does to the ledger. -/
def Ledger.observe (l : Ledger) (v v' : View) : Ledger :=
  match v.stage, v'.stage with
  | none, some _ => { l with before := v.counters, inserted := none }
  | some .begun, some (.inserted tx) => { l with inserted := some tx.record }
  | some st, none => { l with outcomes := l.outcomes ++ [⟨l.before, returned l st, v'.counters⟩] }
  | _, _ => l

/-- The Primary with the ledger of its calls. -/
def ledgerStep (c : Config) (x : Server × Ledger) (a : Action) : Option (Server × Ledger) :=
  (step c x.1 a).map fun s' => (s', x.2.observe (view x.1) (view s'))

/-- The table holds exactly the revisions up to `n`, and both counters say so. -/
structure Exact (k : Counters) (n : ℕ) : Prop where
  revisions : ∀ rev, (∃ r ∈ k.db, r.revision = rev) ↔ 1 ≤ rev ∧ rev ≤ n
  nextRevisionID : k.nextRevisionID = n + 1
  committed : k.committed = n

/-- The table has one row more, at the next revision. -/
structure Grown (k k' : Counters) (r : Record) : Prop where
  revision : r.revision = k.nextRevisionID
  rows : ∀ b, b ∈ k'.db ↔ b = r ∨ b ∈ k.db
  nextRevisionID : k'.nextRevisionID = k.nextRevisionID + 1

/-- A call that returned a record added its row; any other changed nothing. -/
def Outcome.Atomic (o : Outcome) : Prop :=
  ∃ n, Exact o.before n ∧
    match o.returned with
    | some r => Grown o.before o.after r ∧ Exact o.after (n + 1)
    | none => o.after = o.before

/-- The calls follow each other from one state of the counters to another. -/
def Linked : Counters → List Outcome → Counters → Prop
  | k, [], k' => k = k'
  | k, o :: os, k' => o.before = k ∧ Linked o.after os k'

/-- What holds of the call at the gate. -/
def StageOk (l : Ledger) (k : Counters) : Stage → Prop
  | .begun => k = l.before ∧ l.inserted = none
  | .inserted tx => k = l.before ∧ TxOk k.db k.nextRevisionID tx ∧ l.inserted = some tx.record
  | .committed r => Grown l.before k r ∧ k.committed = l.before.committed ∧ l.inserted = some r
  | .advanced => ∃ r, Grown l.before k r ∧ k.committed = r.revision ∧ l.inserted = some r

/-- The calls that have returned were atomic, and the call at the gate has kept to its stage. -/
structure Inv (k₀ : Counters) (v : View) (l : Ledger) : Prop where
  atomic : ∀ o ∈ l.outcomes, o.Atomic
  idle : v.stage = none → Linked k₀ l.outcomes v.counters ∧ ∃ n, Exact v.counters n
  busy : ∀ st ∈ v.stage, Linked k₀ l.outcomes l.before ∧ (∃ n, Exact l.before n) ∧
    StageOk l v.counters st

variable {k k' k₀ : Counters} {n : ℕ} {r : Record} {l : Ledger} {v v' : View} {o : Outcome}
  {os : List Outcome}

theorem Exact.grown (h : Exact k n) (hg : Grown k k' r) (hc : k'.committed = r.revision) :
    Exact k' (n + 1) := by
  have hr : r.revision = n + 1 := by rw [hg.revision, h.nextRevisionID]
  refine ⟨fun rev => ?_, ?_, by rw [hc, hr]; rfl⟩
  · push_cast
    constructor
    · rintro ⟨b, hb, rfl⟩
      rcases (hg.rows b).mp hb with rfl | hb
      · omega
      · have := (h.revisions b.revision).mp ⟨b, hb, rfl⟩
        omega
    · rintro ⟨h1, h2⟩
      by_cases hle : rev ≤ n
      · obtain ⟨b, hb, hrev⟩ := (h.revisions rev).mpr ⟨h1, hle⟩
        exact ⟨b, (hg.rows b).mpr (Or.inr hb), hrev⟩
      · exact ⟨r, (hg.rows r).mpr (Or.inl rfl), by omega⟩
  · rw [hg.nextRevisionID, h.nextRevisionID]
    rfl

theorem Linked.append (h : Linked k os o.before) : Linked k (os ++ [o]) o.after := by
  induction os generalizing k with
  | nil => exact ⟨h.symm, rfl⟩
  | cons b os ih => exact ⟨h.1, ih h.2⟩

theorem inv_start (h : Exact k₀ n) : Inv k₀ ⟨k₀, none⟩ ⟨k₀, none, []⟩ where
  atomic := fun o ho => by simp at ho
  idle := fun _ => ⟨rfl, n, h⟩
  busy := fun st hst => by simp at hst

theorem Inv.outcome {st : Stage} (h : Inv k₀ ⟨k, some st⟩ l)
    (ho : Outcome.Atomic ⟨l.before, returned l st, k⟩) (hk : ∃ n, Exact k n) :
    Inv k₀ ⟨k, none⟩ { l with outcomes := l.outcomes ++ [⟨l.before, returned l st, k⟩] } where
  atomic := by
    intro o hmem
    rcases List.mem_append.mp hmem with hmem | hmem
    · exact h.atomic o hmem
    · rw [List.mem_singleton.mp hmem]
      exact ho
  idle := fun _ => ⟨Linked.append (h.busy st rfl).1, hk⟩
  busy := fun st hst => by simp at hst

theorem inv_step (h : Inv k₀ v l) (hs : CallStep v v') : Inv k₀ v' (l.observe v v') := by
  cases hs with
  | keep =>
    have hkeep : l.observe v v = l := by
      obtain ⟨k, st⟩ := v
      rcases st with - | (_ | _ | _ | _) <;> rfl
    rw [hkeep]
    exact h
  | acquire =>
    obtain ⟨hlink, hexact⟩ := h.idle rfl
    exact ⟨h.atomic, fun hst => (by cases hst), fun st hst =>
      (by cases hst; exact ⟨hlink, hexact, rfl, rfl⟩)⟩
  | insert htx =>
    obtain ⟨hlink, hexact, hk, -⟩ := h.busy _ rfl
    exact ⟨h.atomic, fun hst => (by cases hst), fun st hst =>
      (by cases hst; exact ⟨hlink, hexact, hk, htx, rfl⟩)⟩
  | commit =>
    obtain ⟨hlink, hexact, rfl, htx, hins⟩ := h.busy _ rfl
    exact ⟨h.atomic, fun hst => (by cases hst), fun st hst =>
      (by cases hst; exact ⟨hlink, hexact, ⟨htx.1, htx.2, rfl⟩, rfl, hins⟩)⟩
  | advance =>
    obtain ⟨hlink, hexact, hgrown, -, hins⟩ := h.busy _ rfl
    exact ⟨h.atomic, fun hst => (by cases hst), fun st hst =>
      (by cases hst; exact ⟨hlink, hexact, _, ⟨hgrown.1, hgrown.2, hgrown.3⟩, rfl, hins⟩)⟩
  | fail hst =>
    rcases hst with rfl | ⟨tx, rfl⟩
    · obtain ⟨-, ⟨n, hexact⟩, rfl, -⟩ := h.busy _ rfl
      exact h.outcome ⟨n, hexact, rfl⟩ ⟨n, hexact⟩
    · obtain ⟨-, ⟨n, hexact⟩, rfl, -⟩ := h.busy _ rfl
      exact h.outcome ⟨n, hexact, rfl⟩ ⟨n, hexact⟩
  | returns =>
    obtain ⟨-, ⟨n, hexact⟩, r, hgrown, hcomm, hins⟩ := h.busy _ rfl
    have hafter := hexact.grown hgrown hcomm
    refine h.outcome ⟨n, hexact, ?_⟩ ⟨n + 1, hafter⟩
    simp only [returned, hins]
    exact ⟨hgrown, hafter⟩

/-- **Every call adds one row or changes nothing**: in every run, between two calls the table holds
exactly the revisions that both counters name, each call that returned a record added its row at the
next revision, and any other left the table and the counters as they were. -/
theorem txn_outcomes_atomic {c : Config} {s s' : Server} {as : List Action} {l : Ledger} {n : ℕ}
    (howned : Owned s) (hgate : s.gate = none) (hstart : Exact (counters s) n)
    (hrun : exec (ledgerStep c) (s, ⟨counters s, none, []⟩) as = some (s', l)) :
    (∀ o ∈ l.outcomes, o.Atomic) ∧
      (s'.gate = none → Linked (counters s) l.outcomes (counters s') ∧
        ∃ m, Exact (counters s') m) := by
  have hinv : Owned s' ∧ Inv (counters s) (view s') l := by
    refine exec_invariant (I := fun x : Server × Ledger =>
      Owned x.1 ∧ Inv (counters s) (view x.1) x.2) (fun x a x' hx _ hstep => ?_) ?_
      (meets_of_forall (p := fun _ => True) fun _ _ => trivial) hrun
    · obtain ⟨s₁, hs₁, rfl⟩ := Option.map_eq_some_iff.mp hstep
      exact ⟨owned_step hx.1 hs₁, inv_step hx.2 (callStep_of_step hx.1 hs₁)⟩
    · rw [view_of_none hgate]
      exact ⟨howned, inv_start hstart⟩
  refine ⟨hinv.2.atomic, fun hg => ?_⟩
  have hidle := hinv.2.idle
  rw [view_of_none hg] at hidle
  exact hidle rfl

theorem exact_fresh : Exact (counters Gate.fresh) 1 := by
  refine ⟨fun rev => ?_, rfl, rfl⟩
  constructor
  · rintro ⟨r, hr, rfl⟩
    rw [List.mem_singleton.mp (show r ∈ [Gate.firstRecord] from hr)]
    decide
  · rintro ⟨h1, h2⟩
    exact ⟨Gate.firstRecord, List.mem_singleton_self _, le_antisymm h1 h2⟩

/-- A call that creates a key, and one that finds it created. -/
def twoCalls : List Action :=
  Gate.oneCall ++ [.upload .answered, .commitSync true, .broadcastRecord, .setCommitted,
    .broadcastCommit, .requireActivePrimary (Gate.createRequest [97] [2]), .acquire 0,
    .beginTx 3 true]

theorem txn_outcomes_atomic_twoCalls :
    ∃ s' l, exec (ledgerStep Gate.syncOnly) (Gate.fresh, ⟨counters Gate.fresh, none, []⟩) twoCalls =
        some (s', l) ∧
      l.outcomes.map (fun o => o.returned.map Record.revision) = [some 2, none] ∧
      ∀ o ∈ l.outcomes, o.Atomic :=
  ⟨_, _, rfl, rfl, (@txn_outcomes_atomic Gate.syncOnly _ _ twoCalls _ _ owned_start rfl
    exact_fresh rfl).1⟩

end Netsy.Primary.Outcomes
