import Netsy.LocalDB.Schema

/-! # Compaction

`ExecuteCompaction` empties the rows at or below a revision that are tombstones or have a newer row
of the same key; the table `compactions` holds the revisions compacted at. -/

namespace Netsy.LocalDB.Compaction

open Proto LocalDB.Schema

/-- The `WHERE` clause of `ExecuteCompaction`. -/
def compactable (t : Table) (compactionRevision : ℤ) (r : Record) : Bool :=
  r.revision ≤ compactionRevision && r.compactedAt.isNone &&
    (r.deleted || t.rows.any fun newer => newer.key = r.key && r.revision < newer.revision)

/-- `SET value = NULL, compacted_at = ?`. -/
def compactRow (t : Table) (now : Time) (compactionRevision : ℤ) (r : Record) : Record :=
  if compactable t compactionRevision r then { r with value := [], compactedAt := some now } else r

theorem revision_compactRow (t : Table) (now : Time) (c : ℤ) (r : Record) :
    (compactRow t now c r).revision = r.revision := by
  unfold compactRow
  split_ifs <;> rfl

theorem indexKey_compactRow (t : Table) (now : Time) (c : ℤ) (r : Record) :
    indexKey (compactRow t now c r) = indexKey r := by
  unfold compactRow
  split_ifs <;> rfl

def executeCompaction (t : Table) (now : Time) (compactionRevision : ℤ) : Table :=
  if compactionRevision ≤ 0 then t
  else t.update (compactRow t now compactionRevision) (revision_compactRow t now _)
    (indexKey_compactRow t now _)

/-- The revisions in the table `compactions`. -/
abbrev Compactions := List ℤ

def latestCompactionRevision (cs : Compactions) : ℤ := cs.max?.getD 0

def persistCompactionRevision (cs : Compactions) (revision : ℤ) : Compactions :=
  if revision ≤ 0 then cs else if revision ∈ cs then cs else revision :: cs

def deriveCompactionRevision (t : Table) : ℤ :=
  match t.rows.find? fun r => r.compactedAt.isNone with
  | some r => if r.revision ≤ 1 then 0 else r.revision - 1
  | none => t.latestRevision

/-- The row of the revision is marked. -/
def Compacted (t : Table) (rev : ℤ) : Prop := ∃ a ∈ t, a.revision = rev ∧ a.compactedAt ≠ none

variable {t : Table} {now : Time} {c rev : ℤ} {a b : Record} {cs : Compactions}

theorem kept_compactRow (t : Table) (now : Time) (c : ℤ) (a : Record) :
    Kept a (compactRow t now c a) := by
  unfold compactRow
  split_ifs
  · exact kept_compact a now
  · exact Kept.refl a

theorem exists_mem_executeCompaction (h : a ∈ t) :
    ∃ b ∈ executeCompaction t now c, Kept a b := by
  unfold executeCompaction
  split_ifs
  · exact ⟨a, h, Kept.refl a⟩
  · exact ⟨_, Table.mem_update.mpr ⟨a, h, rfl⟩, kept_compactRow t now c a⟩

theorem Compacted.executeCompaction (h : Compacted t rev) :
    Compacted (executeCompaction t now c) rev := by
  obtain ⟨row, hrow, hrev, hcompacted⟩ := h
  obtain ⟨row', hrow', hkept⟩ := exists_mem_executeCompaction hrow
  refine ⟨row', hrow', hkept.revision_eq.trans hrev, ?_⟩
  rcases hkept with rfl | ⟨hnow, -⟩
  · exact hcompacted
  · exact hnow

theorem mem_executeCompaction (h : b ∈ executeCompaction t now c) : ∃ a ∈ t, Kept a b := by
  unfold executeCompaction at h
  split_ifs at h
  · exact ⟨b, h, Kept.refl b⟩
  · obtain ⟨a, ha, rfl⟩ := Table.mem_update.mp h
    exact ⟨a, ha, kept_compactRow t now c a⟩

theorem latestRevision_executeCompaction :
    (executeCompaction t now c).latestRevision = t.latestRevision := by
  unfold executeCompaction
  split_ifs
  · rfl
  · simp [Table.latestRevision, Table.update, Function.comp_def, revision_compactRow]

theorem mem_executeCompaction_of_lt (h : a ∈ t) (hlt : c < a.revision) :
    a ∈ executeCompaction t now c := by
  unfold executeCompaction
  split_ifs
  · exact h
  · refine Table.mem_update.mpr ⟨a, h, ?_⟩
    unfold compactRow compactable
    rw [if_neg]
    simp [not_le.mpr hlt]

/-! ### The table `compactions` -/

theorem latestCompactionRevision_nonneg (h : ∀ c ∈ cs, 0 < c) :
    0 ≤ latestCompactionRevision cs := by
  unfold latestCompactionRevision
  cases hmax : cs.max? with
  | none => exact le_rfl
  | some m => exact (h m (List.max?_mem hmax)).le

theorem le_latestCompactionRevision (h : c ∈ cs) : c ≤ latestCompactionRevision cs := by
  unfold latestCompactionRevision
  cases hmax : cs.max? with
  | none =>
    rw [List.max?_eq_none_iff] at hmax
    simp [hmax] at h
  | some m => exact (List.max?_le_iff hmax).mp le_rfl c h

theorem latest_persist (h : ∀ c ∈ cs, 0 < c) :
    latestCompactionRevision (persistCompactionRevision cs c) =
      max (latestCompactionRevision cs) c := by
  have hnonneg := latestCompactionRevision_nonneg h
  unfold persistCompactionRevision
  split_ifs with hc hmem
  · omega
  · have := le_latestCompactionRevision hmem
    omega
  · unfold latestCompactionRevision at hnonneg ⊢
    rw [List.max?_cons]
    cases hmax : cs.max? with
    | none =>
      simp only [Option.elim_none, Option.getD_some, Option.getD_none]
      omega
    | some m => simp [max_comm]

theorem pos_persist (h : ∀ c ∈ cs, 0 < c) : ∀ d ∈ persistCompactionRevision cs c, 0 < d := by
  unfold persistCompactionRevision
  split_ifs with hc
  · exact h
  · exact h
  · exact List.forall_mem_cons.mpr ⟨not_le.mp hc, h⟩

theorem derive_nonneg (h : ∀ r ∈ t, 0 < r.revision) : 0 ≤ deriveCompactionRevision t := by
  unfold deriveCompactionRevision
  split
  · split_ifs <;> omega
  · unfold Table.latestRevision
    cases hl : t.rows.getLast? with
    | none => exact le_rfl
    | some row => exact (h row (List.mem_of_getLast? hl)).le

end Netsy.LocalDB.Compaction
