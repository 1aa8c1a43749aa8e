import Netsy.CommonAPI.Range
import Netsy.LocalDB.Compaction

/-! # Answers after compactions

A compaction leaves a row as it is, or it empties the row and marks it. A read that meets a marked
row fails, so every other read is answered with rows that were left as they are.

Which rows are compacted is a matter of the largest revision that was compacted at. -/

namespace Netsy.CommonAPI.CompactedAnswers

open Proto LocalDB.Schema LocalDB.Find LocalDB.Compaction CommonAPI.RangeQuery CommonAPI.Range

/-- A sequence of calls of `ExecuteCompaction`, each at its time with its revision. -/
def executeCompactions (t : Table) (calls : List (Time × ℤ)) : Table :=
  calls.foldl (fun t call => executeCompaction t call.1 call.2) t

/-- The largest revision of the calls. -/
def largestRevision (calls : List (Time × ℤ)) : ℤ := (calls.map Prod.snd).max?.getD 0

variable {t t' t'' : Table} {now : Time} {c rev committed : ℤ} {calls : List (Time × ℤ)}
  {a b : Record} {rows rows' : List Record} {req : RangeRequest} {w : Where}

/-! ### Rows that are kept -/

/-- The rows of the second table are those of the first, each as it was or compacted. -/
def KeptRows (t t' : Table) : Prop := ∃ f, (∀ a, Kept a (f a)) ∧ t'.rows = t.rows.map f

theorem keptRows_executeCompaction : KeptRows t (executeCompaction t now c) := by
  unfold executeCompaction
  split_ifs
  · exact ⟨id, Kept.refl, by simp⟩
  · exact ⟨compactRow t now c, kept_compactRow t now c, rfl⟩

theorem KeptRows.trans (h : KeptRows t t') (h' : KeptRows t' t'') : KeptRows t t'' := by
  obtain ⟨f, hf, hrows⟩ := h
  obtain ⟨g, hg, hrows'⟩ := h'
  exact ⟨g ∘ f, fun a => (hf a).trans (hg (f a)), by rw [hrows', hrows, List.map_map]⟩

theorem keptRows_executeCompactions : KeptRows t (executeCompactions t calls) := by
  induction calls generalizing t with
  | nil => exact ⟨id, Kept.refl, by simp [executeCompactions]⟩
  | cons call calls ih => exact keptRows_executeCompaction.trans ih

theorem KeptRows.revisions_eq (h : KeptRows t t') :
    t'.rows.map Record.revision = t.rows.map Record.revision := by
  obtain ⟨f, hf, hrows⟩ := h
  rw [hrows, List.map_map]
  exact List.map_congr_left fun a _ => (hf a).revision_eq

theorem KeptRows.recordCount_eq (h : KeptRows t t') : t'.recordCount = t.recordCount := by
  have hlength := congrArg List.length h.revisions_eq
  rw [List.length_map, List.length_map] at hlength
  exact congrArg Nat.cast hlength

theorem KeptRows.latestRevision_eq (h : KeptRows t t') :
    t'.latestRevision = t.latestRevision := by
  have hlast := congrArg List.getLast? h.revisions_eq
  rw [List.getLast?_map, List.getLast?_map] at hlast
  exact congrArg (fun o => o.getD 0) hlast

theorem KeptRows.verifyIntegrity_eq (h : KeptRows t t') :
    t'.verifyIntegrity = t.verifyIntegrity := by
  unfold Table.verifyIntegrity
  rw [h.recordCount_eq, h.latestRevision_eq]

/-! ### Answers -/

theorem KeptRows.forall₂_selected (h : KeptRows t t') :
    List.Forall₂ Kept (selected t w rev) (selected t' w rev) := by
  obtain ⟨f, hf, hrows⟩ := h
  have hselected : selected t' w rev = (selected t w rev).map f := by
    refine selected_of_mem_iff (fun b _ => (hf b).key_eq) (fun b _ => (hf b).revision_eq)
      (fun b _ => (hf b).deleted_eq) fun a => ?_
    rw [Table.mem_def, hrows, List.mem_map]
    rfl
  rw [hselected, List.forall₂_map_right_iff, List.forall₂_same]
  exact fun a _ => hf a

theorem recordsToKeyValues_of_kept (h : List.Forall₂ Kept rows rows') :
    recordsToKeyValues rows' = .error errCompacted ∨
      recordsToKeyValues rows' = recordsToKeyValues rows := by
  by_cases hmarked : rows'.any fun row => row.compactedAt.isSome
  · exact Or.inl (if_pos hmarked)
  · have hsame : rows' = rows := by
      induction h with
      | nil => rfl
      | cons hab _ ih =>
        simp only [List.any_cons, Bool.or_eq_true, not_or] at hmarked
        rw [hab.eq_of_not_compacted (by simpa using hmarked.1), ih hmarked.2]
    exact Or.inr (by rw [hsame])

theorem KeptRows.range_eq (h : KeptRows t t') :
    range t' req committed = .error errCompacted ∨
      range t' req committed = range t req committed := by
  unfold range
  cases validateRangeRequest req with
  | error e => exact Or.inr rfl
  | ok _ =>
    cases buildRangeQuery req.key req.rangeEnd with
    | none => exact Or.inr rfl
    | some w =>
      -- the same number of rows is found and counted, and each row found is kept
      obtain ⟨hfound, hcount⟩ : List.Forall₂ Kept
          (findRecordsBy t w req.revision req.limit
            (if req.sortOrder = .descend then .desc else .asc)).1
          (findRecordsBy t' w req.revision req.limit
            (if req.sortOrder = .descend then .desc else .asc)).1 ∧ _ = _ :=
        forall₂_findRecordsBy (Kept.refl {}) h.forall₂_selected
      have hlength := hfound.length_eq
      simp only [bind, Except.bind, pure, Except.pure]
      rw [← hcount, ← hlength]
      cases req.countOnly with
      | true => exact Or.inr rfl
      | false =>
        rcases recordsToKeyValues_of_kept hfound with herror | hsame
        · exact Or.inl (by simp [herror])
        · exact Or.inr (by simp [hsame])

/-! ### The rows that are compacted -/

/-- The row of the revision is a tombstone, or its key has a newer row. -/
def Historic (t : Table) (rev : ℤ) : Prop :=
  ∃ a ∈ t, a.revision = rev ∧
    (a.deleted = true ∨ ∃ newer ∈ t, newer.key = a.key ∧ a.revision < newer.revision)

theorem KeptRows.historic_iff (h : KeptRows t t') : Historic t' rev ↔ Historic t rev := by
  obtain ⟨f, hf, hrows⟩ := h
  have hmem : ∀ a, a ∈ t' ↔ ∃ b ∈ t, f b = a := by
    intro a
    rw [Table.mem_def, hrows, List.mem_map]
    rfl
  constructor
  · rintro ⟨a', ha', hrev, hold⟩
    obtain ⟨a, ha, rfl⟩ := (hmem a').mp ha'
    rw [(hf a).revision_eq] at hrev
    refine ⟨a, ha, hrev, hold.imp (fun hd => (hf a).deleted_eq ▸ hd) ?_⟩
    rintro ⟨newer', hn', hk, hlt⟩
    obtain ⟨newer, hn, rfl⟩ := (hmem newer').mp hn'
    rw [(hf newer).key_eq, (hf a).key_eq] at hk
    rw [(hf newer).revision_eq, (hf a).revision_eq] at hlt
    exact ⟨newer, hn, hk, hlt⟩
  · rintro ⟨a, ha, hrev, hold⟩
    refine ⟨f a, (hmem _).mpr ⟨a, ha, rfl⟩, (hf a).revision_eq.trans hrev, ?_⟩
    refine hold.imp (fun hd => (hf a).deleted_eq.trans hd) ?_
    rintro ⟨newer, hn, hk, hlt⟩
    refine ⟨f newer, (hmem _).mpr ⟨newer, hn, rfl⟩, ?_, ?_⟩
    · rw [(hf newer).key_eq, (hf a).key_eq, hk]
    · rw [(hf newer).revision_eq, (hf a).revision_eq]
      exact hlt

theorem compactable_iff : compactable t c a = true ↔ a.revision ≤ c ∧ a.compactedAt = none ∧
    (a.deleted = true ∨ ∃ newer ∈ t, newer.key = a.key ∧ a.revision < newer.revision) := by
  simp [compactable, and_assoc, Table.mem_def]

theorem compacted_executeCompaction :
    Compacted (executeCompaction t now c) rev ↔
      Compacted t rev ∨ (Historic t rev ∧ 0 < c ∧ rev ≤ c) := by
  unfold executeCompaction
  split_ifs with hc
  · have hnot : ¬ 0 < c := by omega
    simp [hnot]
  · have hpos : 0 < c := by omega
    constructor
    · rintro ⟨b, hb, hrev, hmarked⟩
      obtain ⟨a, ha, rfl⟩ := Table.mem_update.mp hb
      rw [revision_compactRow] at hrev
      by_cases hold : compactable t c a = true
      · obtain ⟨hle, hhistoric⟩ := compactable_iff.mp hold |>.imp_right And.right
        exact Or.inr ⟨⟨a, ha, hrev, hhistoric⟩, hpos, hrev ▸ hle⟩
      · rw [compactRow, if_neg hold] at hmarked
        exact Or.inl ⟨a, ha, hrev, hmarked⟩
    · have hmem : ∀ a ∈ t, compactRow t now c a ∈ t.update (compactRow t now c)
          (revision_compactRow t now c) (indexKey_compactRow t now c) := fun a ha =>
        Table.mem_update.mpr ⟨a, ha, rfl⟩
      have hstays : ∀ a, a.compactedAt ≠ none → (compactRow t now c a).compactedAt ≠ none := by
        intro a hmarked
        unfold compactRow
        split_ifs
        · simp
        · exact hmarked
      rintro (⟨a, ha, hrev, hmarked⟩ | ⟨⟨a, ha, hrev, hhistoric⟩, -, hle⟩)
      · exact ⟨_, hmem a ha, (revision_compactRow t now c a).trans hrev, hstays a hmarked⟩
      · refine ⟨_, hmem a ha, (revision_compactRow t now c a).trans hrev, ?_⟩
        by_cases hmarked : a.compactedAt = none
        · rw [compactRow, if_pos (compactable_iff.mpr ⟨by omega, hmarked, hhistoric⟩)]
          simp
        · exact hstays a hmarked

theorem compacted_executeCompactions :
    Compacted (executeCompactions t calls) rev ↔
      Compacted t rev ∨ (Historic t rev ∧ ∃ call ∈ calls, 0 < call.2 ∧ rev ≤ call.2) := by
  induction calls generalizing t with
  | nil => simp [executeCompactions]
  | cons call calls ih =>
    have hcons : executeCompactions t (call :: calls) =
        executeCompactions (executeCompaction t call.1 call.2) calls := rfl
    rw [hcons, ih, compacted_executeCompaction, keptRows_executeCompaction.historic_iff,
      List.exists_mem_cons_iff, and_or_left, or_assoc]

theorem exists_le_iff_largestRevision :
    (∃ call ∈ calls, 0 < call.2 ∧ rev ≤ call.2) ↔
      0 < largestRevision calls ∧ rev ≤ largestRevision calls := by
  unfold largestRevision
  cases hmax : (calls.map Prod.snd).max? with
  | none =>
    have hnil : calls = [] := by simpa using hmax
    simp [hnil]
  | some c =>
    obtain ⟨hmem, hle⟩ := List.max?_eq_some_iff.mp hmax
    obtain ⟨call, hcall, rfl⟩ := List.mem_map.mp hmem
    constructor
    · rintro ⟨other, hother, hpos, hrev⟩
      have := hle other.2 (List.mem_map_of_mem hother)
      exact ⟨hpos.trans_le this, hrev.trans this⟩
    · rintro ⟨hpos, hrev⟩
      exact ⟨call, hcall, hpos, hrev⟩

/-- **Compaction never changes an answer silently.** After any sequence of compactions every range
request fails with the compacted error or is answered as before. The rows that a sequence compacts
are those that one call with its largest revision compacts, and the count of the rows, the latest
revision and the check of the table's integrity stay. -/
theorem compactions_answer (t : Table) (calls : List (Time × ℤ)) (now : Time) :
    (∀ (req : RangeRequest) (committed : ℤ),
        range (executeCompactions t calls) req committed = .error errCompacted ∨
          range (executeCompactions t calls) req committed = range t req committed) ∧
      (∀ rev, Compacted (executeCompactions t calls) rev ↔
        Compacted (executeCompaction t now (largestRevision calls)) rev) ∧
      (executeCompactions t calls).recordCount = t.recordCount ∧
      (executeCompactions t calls).latestRevision = t.latestRevision ∧
      (executeCompactions t calls).verifyIntegrity = t.verifyIntegrity := by
  have hkept : KeptRows t (executeCompactions t calls) := keptRows_executeCompactions
  refine ⟨fun req committed => hkept.range_eq, fun rev => ?_, hkept.recordCount_eq,
    hkept.latestRevision_eq, hkept.verifyIntegrity_eq⟩
  rw [compacted_executeCompactions, compacted_executeCompaction, exists_le_iff_largestRevision]

end Netsy.CommonAPI.CompactedAnswers
