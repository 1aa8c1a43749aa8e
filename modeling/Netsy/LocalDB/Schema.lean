import Netsy.Lib.SortedList
import Netsy.Proto
import Mathlib.Data.List.Pairwise

/-! # The records table

`records` has the primary key `revision` and the unique index
`records_key_create_rev_prev_rev_uindex` on `(key, create_revision, prev_revision)`. A `Table` is
its rows in ascending order of the revision with both constraints as fields, so an operation that
would break one has to fail. -/

namespace Netsy.LocalDB.Schema

open Proto Lib.SortedList

/-- The columns of the unique index. -/
def indexKey (r : Record) : Bytes × ℤ × ℤ := (r.key, r.createRevision, r.prevRevision)

structure Table where
  rows : List Record
  sorted : Ascending Record.revision rows
  unique : rows.Pairwise fun a b => indexKey a ≠ indexKey b
deriving DecidableEq

namespace Table

instance : Membership Record Table := ⟨fun t r => r ∈ t.rows⟩

instance (r : Record) (t : Table) : Decidable (r ∈ t) := inferInstanceAs (Decidable (r ∈ t.rows))

instance (t : Table) (p : Record → Prop) [DecidablePred p] : Decidable (∀ r ∈ t, p r) :=
  inferInstanceAs (Decidable (∀ r ∈ t.rows, p r))

instance (t : Table) (p : Record → Prop) [DecidablePred p] : Decidable (∃ r ∈ t, p r) :=
  inferInstanceAs (Decidable (∃ r ∈ t.rows, p r))

theorem mem_def {t : Table} {r : Record} : r ∈ t ↔ r ∈ t.rows := Iff.rfl

def empty : Table := ⟨[], List.Pairwise.nil, List.Pairwise.nil⟩

variable {t t' : Table} {r r' : Record} {rev : ℤ}

theorem eq_of_revision_eq (h : r ∈ t) (h' : r' ∈ t) (he : r.revision = r'.revision) : r = r' :=
  eq_of_key_eq t.sorted h h' he

theorem indexKey_ne_of_ne (h : r ∈ t) (h' : r' ∈ t) (hne : r ≠ r') : indexKey r ≠ indexKey r' := by
  have : Std.Symm fun a b : Record => indexKey a ≠ indexKey b := ⟨fun _ _ h => h.symm⟩
  exact t.unique.forall h h' hne

/-! ### Statements -/

/-- The row fits: no UNIQUE constraint fails. -/
def Fits (t : Table) (r : Record) : Prop :=
  (∀ b ∈ t.rows, b.revision ≠ r.revision) ∧ ∀ b ∈ t.rows, indexKey r ≠ indexKey b

instance (t : Table) (r : Record) : Decidable (t.Fits r) := inferInstanceAs (Decidable (_ ∧ _))

/-- `INSERT INTO records`; `none` is `UNIQUE constraint failed`. -/
def insert (t : Table) (r : Record) : Option Table :=
  if h : t.Fits r then
    some ⟨insertBy Record.revision r t.rows, ascending_insertBy t.sorted h.1,
      pairwise_insertBy_of_symm (fun _ _ h => h.symm) t.unique h.2⟩
  else none

/-- `DELETE FROM records WHERE revision = ?`. -/
def delete (t : Table) (rev : ℤ) : Table :=
  ⟨t.rows.filter fun r => r.revision ≠ rev, ascending_filter t.sorted _, t.unique.filter _⟩

/-- `UPDATE records SET ...` of columns that are in no key. -/
def update (t : Table) (f : Record → Record) (hrev : ∀ r, (f r).revision = r.revision)
    (hidx : ∀ r, indexKey (f r) = indexKey r) : Table :=
  ⟨t.rows.map f, List.pairwise_map.mpr (t.sorted.imp fun h => by rwa [hrev, hrev]),
    List.pairwise_map.mpr (t.unique.imp fun h => by rwa [hidx, hidx])⟩

/-- `FindRecordByRev`; `none` is `sql.ErrNoRows`. -/
def findRecordByRev (t : Table) (rev : ℤ) : Option Record :=
  t.rows.find? fun r => r.revision = rev

def latestRevision (t : Table) : ℤ := (t.rows.getLast?.map Record.revision).getD 0

def findRecordsAfterRevision (t : Table) (rev : ℤ) : List Record :=
  t.rows.filter fun r => rev < r.revision

def recordCount (t : Table) : ℤ := t.rows.length

/-- `VerifyIntegrity`: there are as many rows as the latest revision says. -/
def verifyIntegrity (t : Table) : Bool := t.recordCount = t.latestRevision

/-! ### What the statements do, as membership -/

theorem mem_insert (h : t.insert r = some t') : r' ∈ t' ↔ r' = r ∨ r' ∈ t := by
  unfold insert at h
  split_ifs at h
  cases h
  exact mem_insertBy

theorem rows_insert (h : t.insert r = some t') (hlt : ∀ b ∈ t, b.revision < r.revision) :
    t'.rows = t.rows ++ [r] := by
  unfold insert at h
  split_ifs at h
  cases h
  exact insertBy_of_forall_lt hlt

theorem insert_eq_none : t.insert r = none ↔ ¬ t.Fits r := by
  unfold insert
  split_ifs with h <;> simp [h]

@[simp] theorem mem_delete : r ∈ t.delete rev ↔ r ∈ t ∧ r.revision ≠ rev := by
  simp [mem_def, delete]

theorem mem_update {f : Record → Record} {hrev : ∀ r, (f r).revision = r.revision}
    {hidx : ∀ r, indexKey (f r) = indexKey r} : r ∈ t.update f hrev hidx ↔ ∃ b ∈ t, f b = r := by
  simp [mem_def, update]

theorem findRecordByRev_eq_some : t.findRecordByRev rev = some r ↔ r ∈ t ∧ r.revision = rev :=
  find?_key_eq_some t.sorted rev

@[simp] theorem mem_findRecordsAfterRevision :
    r ∈ t.findRecordsAfterRevision rev ↔ r ∈ t ∧ rev < r.revision := by
  simp [findRecordsAfterRevision, mem_def]

theorem revision_le_latestRevision (h : r ∈ t) : r.revision ≤ t.latestRevision := by
  unfold latestRevision
  cases hl : t.rows.getLast? with
  | none => simp [mem_def, List.getLast?_eq_none_iff.mp hl] at h
  | some b => exact key_le_getLast? t.sorted h hl

theorem exists_latestRevision (h : r ∈ t) : ∃ b ∈ t, b.revision = t.latestRevision := by
  unfold latestRevision
  cases hl : t.rows.getLast? with
  | none => simp [mem_def, List.getLast?_eq_none_iff.mp hl] at h
  | some b => exact ⟨b, List.mem_of_getLast? hl, rfl⟩

theorem latestRevision_eq (h : r ∈ t) (hall : ∀ b ∈ t, b.revision ≤ r.revision) :
    t.latestRevision = r.revision := by
  obtain ⟨b, hb, he⟩ := exists_latestRevision h
  exact le_antisymm (he ▸ hall b hb) (revision_le_latestRevision h)

theorem exists_of_verifyIntegrity (h : t.verifyIntegrity = true) (hpos : ∀ r ∈ t, 0 < r.revision)
    {k : ℤ} (h1 : 1 ≤ k) (hk : k ≤ t.latestRevision) : ∃ r ∈ t, r.revision = k := by
  have hcount : (t.rows.length : ℤ) = t.latestRevision := of_decide_eq_true h
  unfold latestRevision at hcount hk
  cases hl : t.rows.getLast? with
  | none =>
    rw [hl] at hk
    exact absurd (h1.trans hk) (by decide)
  | some a =>
    rw [hl] at hcount hk
    exact exists_of_length_eq_getLast? t.sorted hpos hl hcount h1 hk

end Table

end Netsy.LocalDB.Schema
