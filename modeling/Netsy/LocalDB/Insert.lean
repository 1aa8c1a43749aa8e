import Netsy.LocalDB.Schema

/-! # Inserting a record

`InsertRecord` validates its argument and runs one `INSERT … SELECT` that computes the columns
`create_revision` and `version` from the key's latest row and turns a failed comparison into a
`NULL` column; the first `NOT NULL` column that is `NULL` names the error. -/

namespace Netsy.LocalDB.Insert

open Proto LocalDB.Schema

/-- The errors of `InsertRecord`. -/
inductive InsertError
  | invalidRecordData | createKeyExists | deleteKeyNotFound | compareRevisionFailed
  | uniqueConstraint
deriving DecidableEq, Repr

def InsertError.message : InsertError → String
  | .invalidRecordData => "invalid record data for insert"
  | .createKeyExists => "cannot create record: key exists"
  | .deleteKeyNotFound => "cannot delete record: key does not exist"
  | .compareRevisionFailed => "compare failed: revision mismatch"
  | .uniqueConstraint => "UNIQUE constraint failed"

/-- The record passes the validation of `InsertRecord`. -/
def validForInsert (r : Record) : Bool :=
  0 < r.revision && r.key ≠ [] && 0 ≤ r.prevRevision && 0 ≤ r.lease && 0 ≤ r.dek &&
    r.createRevision = 0 && r.version = 0 && r.createdAt = none && r.compactedAt = none &&
    r.leaderId ≠ "" && r.replicatedAt = none && r.crc = 0 && !(r.created && r.deleted)

/-- `latest_revision_for_key`. -/
def latestRevisionForKey (t : Table) (key : Bytes) : Option Record :=
  (t.rows.filter fun r => r.key = key).getLast?

/-- `latest_revision_for_key WHERE deleted = 0`. -/
def liveRevisionForKey (t : Table) (key : Bytes) : Option Record :=
  (latestRevisionForKey t key).filter fun r => !r.deleted

/-- The row that `insertRecordSQL` selects when no column is `NULL`. -/
def insertedRow (t : Table) (now : Time) (r : Record) : Record :=
  { r with
    createRevision :=
      ((liveRevisionForKey t r.key).map Record.createRevision).getD (t.latestRevision + 1)
    version :=
      if r.deleted then 0 else ((latestRevisionForKey t r.key).map Record.version).getD 0 + 1
    createdAt := some now }

/-- The column `prev_revision` is `NULL`: the caller compared with another revision than that of
the key's live row. -/
def compareFails (t : Table) (r : Record) : Bool :=
  let live := ((liveRevisionForKey t r.key).map Record.revision).getD 0
  if 0 < r.prevRevision then r.prevRevision ≠ live else 0 < live

/-- `InsertRecord`: the table after the insert and the row returned. -/
def insertRecord (t : Table) (now : Time) (r : Record) : Except InsertError (Table × Record) :=
  let live := liveRevisionForKey t r.key
  if !validForInsert r then .error .invalidRecordData
  else if r.created && live.isSome then .error .createKeyExists
  else if r.deleted && live.isNone then .error .deleteKeyNotFound
  else if compareFails t r then .error .compareRevisionFailed
  else
    match t.insert (insertedRow t now r) with
    | none => .error .uniqueConstraint
    | some t' => .ok (t', insertedRow t now r)

variable {t t' : Table} {now : Time} {r r' : Record}

theorem insertRecord_ok (h : insertRecord t now r = .ok (t', r')) :
    validForInsert r ∧ r' = insertedRow t now r ∧ t.insert r' = some t' := by
  unfold insertRecord at h
  dsimp only at h
  split_ifs at h with h1 h2 h3 h4
  cases hi : t.insert (insertedRow t now r) with
  | none => simp [hi] at h
  | some u =>
    simp only [hi, Except.ok.injEq, Prod.mk.injEq] at h
    obtain ⟨rfl, rfl⟩ := h
    exact ⟨by simpa using h1, rfl, hi⟩

theorem insertRecord_eq_ok : insertRecord t now r = .ok (t', r') ↔
    validForInsert r = true ∧ (r.created && (liveRevisionForKey t r.key).isSome) = false ∧
      (r.deleted && (liveRevisionForKey t r.key).isNone) = false ∧ compareFails t r = false ∧
      r' = insertedRow t now r ∧ t.insert r' = some t' := by
  unfold insertRecord
  dsimp only
  split_ifs with h1 h2 h3 h4
  · simp_all
  · simp [h2]
  · simp [h3]
  · simp [h4]
  · simp only [Bool.not_eq_true] at h2 h3 h4
    have h1' : validForInsert r = true := by simpa using h1
    cases hi : t.insert (insertedRow t now r) with
    | none =>
      refine iff_of_false (by simp) ?_
      rintro ⟨-, -, -, -, rfl, h⟩
      rw [hi] at h
      cases h
    | some u =>
      constructor
      · intro h
        cases h
        exact ⟨h1', h2, h3, h4, rfl, hi⟩
      · rintro ⟨-, -, -, -, rfl, h⟩
        rw [hi] at h
        cases h
        rfl

theorem revision_insertRecord (h : insertRecord t now r = .ok (t', r')) :
    r'.revision = r.revision := by
  rw [(insertRecord_ok h).2.1]
  rfl

theorem mem_insertRecord (h : insertRecord t now r = .ok (t', r')) {b : Record} :
    b ∈ t' ↔ b = r' ∨ b ∈ t :=
  Table.mem_insert (insertRecord_ok h).2.2

end Netsy.LocalDB.Insert
