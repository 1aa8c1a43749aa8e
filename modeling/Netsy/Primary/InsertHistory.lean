import Netsy.LocalDB.History
import Netsy.Lib.Run
import Netsy.Primary.ParseTxn
import Netsy.Primary.Preflight

/-! # The inserts of a Primary

`LeaderTxn` inserts the record that `ParseTxnRequest` made of a transaction, preflight inserts an
initial record into an empty cluster; both give it the next revision. From an empty table on, such
inserts keep the history of every key, and the comparison alone decides whether a valid record is
inserted. -/

namespace Netsy.Primary.InsertHistory

open Proto Lib.Run LocalDB.Schema LocalDB.Insert LocalDB.History Primary.ParseTxn Primary.Preflight

/-- A call of `InsertRecord`. -/
inductive Call
  | txn (request : TxnRequest) (nodeID : NodeID) (now : Time)
  | initial (nodeID : NodeID) (now : Time)
deriving DecidableEq, Repr

def Call.now : Call → Time
  | .txn _ _ now => now
  | .initial _ now => now

/-- The record inserted; `none` if `InsertRecord` is not called. -/
def Call.record (t : Table) : Call → Option Record
  | .txn request nodeID _ =>
    match parseTxnRequest request with
    | .ok r => some { r with revision := t.latestRevision + 1, leaderId := nodeID }
    | .error _ => none
  | .initial nodeID _ => if t.latestRevision = 0 then some (initialRecord nodeID) else none

/-- A failed insert leaves the table as it is. -/
def step (t : Table) (c : Call) : Option Table :=
  (c.record t).map fun r =>
    match insertRecord t c.now r with
    | .ok (t', _) => t'
    | .error _ => t

variable {t t' : Table} {c : Call} {r : Record}

theorem step_eq_of_ok {row : Record} (hr : c.record t = some r)
    (hok : insertRecord t c.now r = .ok (t', row)) : step t c = some t' := by
  simp [step, hr, hok]

/-! ### What is requested -/

theorem recordOf_kind {modRevision : ℤ} {op : RequestOp} {hasFailure : Bool}
    (h : recordOf modRevision op hasFailure = .ok r) :
    (r.created = true ∧ r.deleted = false ∧ r.prevRevision = 0) ∨
      (r.created = false ∧ 0 < r.prevRevision) := by
  cases op with
  | put p =>
    unfold recordOf at h
    dsimp only at h
    split_ifs at h with h1 h2
    · cases h
      exact Or.inl ⟨rfl, rfl, rfl⟩
    · cases h
      exact Or.inr ⟨rfl, h2.1⟩
  | deleteRange d =>
    unfold recordOf at h
    dsimp only at h
    split_ifs at h with h1
    cases h
    exact Or.inr ⟨rfl, h1.1⟩
  | range _ => cases h
  | txn => cases h

theorem parseTxnRequest_ok {request : TxnRequest} (h : parseTxnRequest request = .ok r) :
    ∃ modRevision op hasFailure, recordOf modRevision op hasFailure = .ok r := by
  obtain ⟨cmp, op, hparsed⟩ := exists_parsed h
  exact ⟨_, _, _, hparsed.makes⟩

theorem record_txn {request : TxnRequest} {nodeID : NodeID} {now : Time}
    (h : parseTxnRequest request = .ok r) :
    Call.record t (.txn request nodeID now) =
      some { r with revision := t.latestRevision + 1, leaderId := nodeID } := by
  simp [Call.record, h]

theorem requested_record (h : c.record t = some r) : Requested t r := by
  cases c with
  | txn request nodeID now =>
    unfold Call.record at h
    cases hp : parseTxnRequest request with
    | error e => simp [hp] at h
    | ok r' =>
      simp only [hp, Option.some.injEq] at h
      obtain ⟨modRevision, op, hasFailure, hrec⟩ := parseTxnRequest_ok hp
      have hkind := recordOf_kind hrec
      subst h
      exact ⟨rfl, hkind⟩
  | initial nodeID now =>
    unfold Call.record at h
    dsimp only at h
    split_ifs at h with h0
    cases h
    exact ⟨by rw [h0]; rfl, Or.inl ⟨rfl, rfl, rfl⟩⟩

/-! ### Runs -/

theorem sound_step (hs : Sound t) (h : step t c = some t') : Sound t' := by
  obtain ⟨r, hr, rfl⟩ := Option.map_eq_some_iff.mp h
  cases hi : insertRecord t c.now r with
  | error e => exact hs
  | ok res => exact sound_insertRecord hs (requested_record hr) hi

theorem sound_exec {calls : List Call} (hs : Sound t) (hrun : exec step t calls = some t') :
    Sound t' :=
  exec_invariant (fun _ _ _ hs _ h => sound_step hs h) hs
    (meets_of_forall (p := fun _ => True) fun _ _ => trivial) hrun

theorem ne_uniqueConstraint (hs : Sound t) (hr : Requested t r) {now : Time} :
    insertRecord t now r ≠ .error .uniqueConstraint := by
  intro h
  have hchecks : validForInsert r = true ∧ currentModRevision t r.key = r.prevRevision := by
    unfold insertRecord at h
    dsimp only at h
    split_ifs at h with h1 h2 h3 h4
    · cases h
    · cases h
    · cases h
    · cases h
    · simp only [Bool.not_eq_true] at h2 h3 h4
      exact ⟨by simpa using h1, (checks_iff hs.ordered hr).mp ⟨h2, h3, h4⟩⟩
  have hok : ∃ res, insertRecord t now r = .ok res :=
    (insertRecord_ok_iff hs.ordered hr).mpr hchecks
  obtain ⟨res, hok⟩ := hok
  rw [h] at hok
  cases hok

/-- **Every key's rows split into generations**, and a valid insert succeeds exactly if it compares
with the key's current revision; the unique index never rejects one. -/
theorem insert_history {calls : List Call} (hrun : exec step Table.empty calls = some t) :
    (∀ key, ∃ gens, gens.flatten = rowsOf t key ∧ Generations gens) ∧
      ∀ c r, Call.record t c = some r →
        ((∃ res, insertRecord t c.now r = .ok res) ↔
          validForInsert r = true ∧ currentModRevision t r.key = r.prevRevision) ∧
        insertRecord t c.now r ≠ .error .uniqueConstraint := by
  have hs : Sound t := sound_exec sound_empty hrun
  refine ⟨hs.history, fun c r hr => ?_⟩
  have hreq := requested_record hr
  exact ⟨insertRecord_ok_iff hs.ordered hreq, ne_uniqueConstraint hs hreq⟩

/-- A transaction that puts a value if the key has this revision. -/
def putRequest (key : Bytes) (modRevision lease : ℤ) : TxnRequest :=
  ⟨[⟨.mod, .equal, key, modRevision⟩], [.put ⟨key, [], lease, false⟩], [.range ⟨key, none⟩]⟩

/-- A transaction that deletes a key if it has this revision. -/
def deleteRequest (key : Bytes) (modRevision : ℤ) : TxnRequest :=
  ⟨[⟨.mod, .equal, key, modRevision⟩], [.deleteRange ⟨key, false⟩], [.range ⟨key, none⟩]⟩

/-- A key is created, updated, deleted and created again after the initial record. -/
def lifeOfAKey : List Call :=
  [.initial "n" 0, .txn (putRequest [97] 0 0) "n" 0, .txn (putRequest [97] 2 0) "n" 0,
    .txn (putRequest [97] 2 0) "n" 0, .txn (deleteRequest [97] 3) "n" 0,
    .txn (putRequest [97] 0 0) "n" 0]

theorem insert_history_life : ∃ t, exec step Table.empty lifeOfAKey = some t ∧
    t.latestRevision = 5 ∧ ∃ gens, gens.flatten = rowsOf t [97] ∧ Generations gens :=
  ⟨_, rfl, rfl, (@insert_history _ lifeOfAKey rfl).1 [97]⟩

/-- A put with a negative lease compares with the current revision of its key, and is refused. -/
theorem negative_lease_refused :
    ∃ r, Call.record Table.empty (.txn (putRequest [97] 0 (-1)) "n" 0) = some r ∧
      currentModRevision Table.empty r.key = r.prevRevision ∧
      insertRecord Table.empty 0 r = .error .invalidRecordData :=
  ⟨_, rfl, rfl, rfl⟩

end Netsy.Primary.InsertHistory
