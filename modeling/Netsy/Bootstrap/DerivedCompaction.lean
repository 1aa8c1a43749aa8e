import Netsy.Node.CompactionRevision
import Netsy.Snapshot.Restore

/-! # The derived compaction revision

A node that has lost its compaction revision derives one from the marks on its rows: the revision
before the first row that is not marked. A compaction leaves the newest row of each live key, so
the marked rows do not form a prefix, and what is derived may lie below the lost revision. It never
lies above it, whatever inserts, compactions and snapshots made the table. -/

namespace Netsy.Bootstrap.DerivedCompaction

open Proto Lib.StateError Lib.SortedList
open LocalDB.Schema LocalDB.Insert LocalDB.Replicate LocalDB.Compaction
open LocalDB.Find Datafile.Messages Datafile.ReadBack Datafile.Import
open Snapshot.Restore Watch.Hub Node.CompactionRevision

/-! ### Tables and the compactions that made them -/

/-- The tables that come about by inserts and by calls of `ExecuteCompaction`, with the revisions of
these calls. A table may go through a snapshot on the way; its rows are then those of Go. -/
inductive Produced : Table → List ℤ → Prop
  | empty : Produced Table.empty []
  | insertRecord {t t' : Table} {cs : List ℤ} {now : Time} {r r' : Record} (h : Produced t cs)
      (hok : insertRecord t now r = .ok (t', r')) : Produced t' cs
  /-- A record that a Replica gets from the Primary is not marked. -/
  | replicateRecord {t t' : Table} {cs : List ℤ} {now : Time} {r r' : Record} (h : Produced t cs)
      (hr : r.compactedAt = none) (hok : replicateRecord t now r = .ok (t', r')) : Produced t' cs
  | executeCompaction {t : Table} {cs : List ℤ} {now : Time} {c : ℤ} (h : Produced t cs) :
      Produced (executeCompaction t now c) (c :: cs)
  | snapshot {t t' : Table} {cs : List ℤ} {z : Codec} {x : TimeText} {clock : ℕ → Time}
      {now : Time} {nodeID : NodeID} {revision : ℤ} {bs : Bytes} (h : Produced t cs)
      (hrows : ∀ r ∈ t, Storable z r) (hlen : (upTo t revision).length < 2 ^ 63)
      (hnow : InYears now) (hnode : (utf8 nodeID).length ≤ 32)
      (hwrite : writeSnapshotFile z now (findAllRecordsForSnapshot x t revision) nodeID = some bs)
      (himport : downloadAndImportFile z x clock Table.empty .snapshot (some bs) = (t', .ok ())) :
      Produced t' cs

/-- The compaction revision that is lost. -/
def lost (cs : List ℤ) : ℤ := cs.foldr max 0

variable {t t' : Table} {cs : List ℤ} {n : ℕ} {r : Record} {c : ℤ}

theorem imported_snapshot {z : Codec} {x : TimeText} {clock : ℕ → Time} {now : Time}
    {nodeID : NodeID} {revision : ℤ} {bs : Bytes} (h : Built t) (hrows : ∀ r ∈ t, Storable z r)
    (hlen : (upTo t revision).length < 2 ^ 63) (hnow : InYears now)
    (hnode : (utf8 nodeID).length ≤ 32)
    (hwrite : writeSnapshotFile z now (findAllRecordsForSnapshot x t revision) nodeID = some bs)
    (himport : downloadAndImportFile z x clock Table.empty .snapshot (some bs) = (t', .ok ())) :
    Built t' ∧ t'.rows.map bare = (upTo t revision).map bare := by
  obtain ⟨bs', t1, hwrite', himport', hrestored⟩ :=
    rows_of_snapshot x clock h hrows hlen hnow hnode
  cases hwrite.symm.trans hwrite'
  cases himport.symm.trans himport'
  exact hrestored

theorem Produced.built (h : Produced t cs) : Built t := by
  induction h with
  | empty => exact .empty
  | insertRecord _ hok ih => exact ih.insertRecord hok
  | replicateRecord _ _ hok ih => exact ih.replicateRecord hok
  | executeCompaction _ ih => exact ih.executeCompaction
  | snapshot _ hrows hlen hnow hnode hwrite himport ih =>
    exact (imported_snapshot ih hrows hlen hnow hnode hwrite himport).1

/-- Every mark was made by a compaction at or above its row. -/
def Marked (t : Table) (cs : List ℤ) : Prop :=
  ∀ r ∈ t, r.compactedAt ≠ none → ∃ c ∈ cs, r.revision ≤ c

theorem Marked.executeCompaction {now : Time} (h : Marked t cs) (c : ℤ) :
    Marked (executeCompaction t now c) (c :: cs) := by
  intro b hb hmark
  rcases le_or_gt b.revision c with hle | hlt
  · exact ⟨c, List.mem_cons_self, hle⟩
  · obtain ⟨a, ha, hkept⟩ := mem_executeCompaction hb
    have hrev : a.revision = b.revision := hkept.revision_eq.symm
    have hstays : a ∈ LocalDB.Compaction.executeCompaction t now c :=
      mem_executeCompaction_of_lt ha (hrev ▸ hlt)
    obtain rfl := Table.eq_of_revision_eq hstays hb hrev
    obtain ⟨c', hc', hle⟩ := h a ha hmark
    exact ⟨c', List.mem_cons_of_mem c hc', hle⟩

theorem Marked.of_bare {revision : ℤ} (h : Marked t cs)
    (hbare : t'.rows.map bare = (upTo t revision).map bare) : Marked t' cs := by
  intro b hb hmark
  have hmem : bare b ∈ (upTo t revision).map bare := hbare ▸ List.mem_map_of_mem hb
  obtain ⟨a, ha, heq⟩ := List.mem_map.mp hmem
  have hrev : (bare a).revision = (bare b).revision := congrArg Record.revision heq
  have hat : (bare a).compactedAt = (bare b).compactedAt := congrArg Record.compactedAt heq
  simp only [bare] at hrev hat
  obtain ⟨c, hc, hle⟩ := h a (List.mem_of_mem_filter ha) (hat ▸ hmark)
  exact ⟨c, hc, hrev ▸ hle⟩

/-- **The marks of a table** are those of its compactions. The induction is on how the table came
about. -/
theorem Produced.marked (h : Produced t cs) : Marked t cs := by
  induction h with
  | empty => exact fun b hb => absurd hb List.not_mem_nil
  | insertRecord _ hok ih =>
    intro b hb hmark
    rcases (mem_insertRecord hok).mp hb with rfl | hb
    · obtain ⟨hvalid, hrow, -⟩ := insertRecord_ok hok
      simp only [validForInsert, Bool.and_eq_true, decide_eq_true_eq] at hvalid
      exact absurd (by rw [hrow]; exact hvalid.1.1.1.1.2) hmark
    · exact ih b hb hmark
  | replicateRecord _ hr hok ih =>
    intro b hb hmark
    obtain ⟨-, -, -, hnew⟩ := replicateRecord_ok hok
    rcases hnew b hb with hb | rfl
    · exact ih b hb hmark
    · rcases replicateRecord_ok_row hok with rfl | hrow
      · exact absurd hr hmark
      · exact ih _ hrow hmark
  | executeCompaction _ ih => exact ih.executeCompaction _
  | snapshot h hrows hlen hnow hnode hwrite himport ih =>
    exact ih.of_bare (imported_snapshot h.built hrows hlen hnow hnode hwrite himport).2

/-! ### What is derived -/

theorem deriveCompactionRevision_cases (hc : Contiguous t n) :
    (∃ r ∈ t, r.compactedAt = none ∧ (∀ b ∈ t, b.revision < r.revision → b.compactedAt ≠ none) ∧
        deriveCompactionRevision t = r.revision - 1) ∨
      (∀ b ∈ t, b.compactedAt ≠ none) ∧ deriveCompactionRevision t = n := by
  unfold deriveCompactionRevision
  cases hfind : t.rows.find? fun r => r.compactedAt.isNone with
  | some r =>
    have hr : r ∈ t := List.mem_of_find?_eq_some hfind
    have hpos := ((hc r.revision).mp ⟨r, hr, rfl⟩).1
    refine Or.inl ⟨r, hr, by simpa using List.find?_some hfind, fun b hb hlt => ?_, ?_⟩
    · have hmark := not_of_lt_find? t.sorted hfind hb hlt
      rwa [Option.isNone_eq_false_iff, Option.isSome_iff_ne_none] at hmark
    · dsimp only
      split_ifs <;> omega
  | none =>
    refine Or.inr ⟨fun b hb => by simpa using List.find?_eq_none.mp hfind b hb, ?_⟩
    rcases Nat.eq_zero_or_pos n with rfl | hpos
    · have hempty : t.rows = [] := List.eq_nil_iff_forall_not_mem.mpr fun b hb => by
        have := (hc b.revision).mp ⟨b, hb, rfl⟩
        omega
      simp [Table.latestRevision, hempty]
    · obtain ⟨r, hr, hrev⟩ := (hc n).mpr ⟨by omega, le_rfl⟩
      rw [← hrev]
      exact Table.latestRevision_eq hr fun b hb => hrev ▸ ((hc b.revision).mp ⟨b, hb, rfl⟩).2

/-- **What a derived compaction revision is to be**: not above the lost one, and of the revisions of
the table the largest one up to which all rows are marked. -/
structure Derived (t : Table) (cs : List ℤ) (n : ℕ) (d : ℤ) : Prop where
  le_lost : d ≤ lost cs
  inTable : 0 ≤ d ∧ d ≤ n
  compacted : ∀ r ∈ t, r.revision ≤ d → r.compactedAt ≠ none
  largest : ∀ m ≤ (n : ℤ), (∀ r ∈ t, r.revision ≤ m → r.compactedAt ≠ none) → m ≤ d

theorem lost_nonneg (cs : List ℤ) : 0 ≤ lost cs := by
  induction cs with
  | nil => exact le_rfl
  | cons c cs ih => exact ih.trans (le_max_right _ _)

theorem le_lost (h : c ∈ cs) : c ≤ lost cs := by
  induction cs with
  | nil => cases h
  | cons c' cs ih =>
    rcases List.mem_cons.mp h with rfl | h
    · exact le_max_left _ _
    · exact (ih h).trans (le_max_right _ _)

theorem Marked.le_lost {d : ℤ} (h : Marked t cs) (hc : Contiguous t n) (hd : 0 ≤ d ∧ d ≤ n)
    (hcompacted : ∀ r ∈ t, r.revision ≤ d → r.compactedAt ≠ none) : d ≤ lost cs := by
  rcases eq_or_lt_of_le hd.1 with rfl | hpos
  · exact lost_nonneg cs
  · obtain ⟨r, hr, rfl⟩ := (hc d).mpr ⟨by omega, hd.2⟩
    obtain ⟨c, hc', hle⟩ := h r hr (hcompacted r hr le_rfl)
    exact hle.trans (DerivedCompaction.le_lost hc')

theorem derived_of_produced (h : Produced t cs) (hc : Contiguous t n) :
    Derived t cs n (deriveCompactionRevision t) := by
  have hspec : (0 ≤ deriveCompactionRevision t ∧ deriveCompactionRevision t ≤ n) ∧
      (∀ r ∈ t, r.revision ≤ deriveCompactionRevision t → r.compactedAt ≠ none) ∧
      ∀ m ≤ (n : ℤ), (∀ r ∈ t, r.revision ≤ m → r.compactedAt ≠ none) →
        m ≤ deriveCompactionRevision t := by
    rcases deriveCompactionRevision_cases hc with ⟨r, hr, hnone, hbelow, hd⟩ | ⟨hall, hd⟩
    · rw [hd]
      have hrev := (hc r.revision).mp ⟨r, hr, rfl⟩
      refine ⟨by omega, fun b hb hle => hbelow b hb (by omega), fun m _ hm => ?_⟩
      by_contra hlt
      exact hm r hr (by omega) hnone
    · rw [hd]
      exact ⟨⟨by omega, le_rfl⟩, fun b hb _ => hall b hb, fun m hm _ => hm⟩
  obtain ⟨hin, hcompacted, hlargest⟩ := hspec
  exact ⟨h.marked.le_lost hc hin hcompacted, hin, hcompacted, hlargest⟩

/-! ### Seeding -/

theorem seed_compaction {env : Loader.Env} {attempt : ℕ} {after : Bool} {node node' : Loader.Node}
    (hlost : node.compactions = [])
    (h : Returns (Loader.seedCompactionFromLocalDB env attempt after) node PUnit.unit node') :
    node'.compaction = deriveCompactionRevision node.db := by
  unfold Returns at h
  rcases allOrNothing_seed env attempt after node with hok | ⟨e, herror⟩
  · rw [hok] at h
    obtain rfl : seedNode node = node' := congrArg Prod.snd h
    simp [seedNode, hlost, latestCompactionRevision]
  · rw [herror] at h
    cases h

/-- `CreateWatch` goes on with the request. -/
def Admits (env : Env) (m : Manager) (w : ℕ) (m' : Manager) : Prop :=
  m.accept env w = some m' ∧ ∃ r latest watchID,
    (m'.watchers w).creating = some (.accepted r latest watchID)

theorem admits_of_le (env : Env) {m m' : Manager} {w : ℕ} {d : ℤ} (hle : d ≤ env.compaction)
    (h : Admits env m w m') : Admits { env with compaction := d } m w m' := by
  obtain ⟨haccept, r, latest, watchID, hcreating⟩ := h
  refine ⟨?_, r, latest, watchID, hcreating⟩
  unfold Manager.accept at haccept ⊢
  split at haccept
  · rename_i r latest hreceived
    dsimp only at haccept ⊢
    -- a rejected request is done with
    split_ifs at haccept with hfloor hid <;> cases haccept
    · simp [Manager.reject, Manager.setWatcher, Watcher.send] at hcreating
    · simp [Manager.reject, Manager.setWatcher, Watcher.send] at hcreating
    · have hlower : ¬ (0 < r.startRevision ∧ 0 < max d m.watchAdmissionFloor ∧
          r.startRevision ≤ max d m.watchAdmissionFloor) := by omega
      rw [if_neg hlower, if_neg hid]
  · cases haccept

/-- **The derived compaction revision is sound.** For a table with the revisions 1 to `n` that came
about by inserts, compactions and snapshots, what is derived is not above the lost revision and is
the largest revision of the table up to which all rows are marked; so a watch that the lost revision
admits is admitted after a seeding. -/
theorem derived_compaction_sound (t : Table) (cs : List ℤ) (n : ℕ) (h : Produced t cs)
    (hc : Contiguous t n) :
    Derived t cs n (deriveCompactionRevision t) ∧
      ∀ (env : Loader.Env) (attempt : ℕ) (after : Bool) (node node' : Loader.Node),
        node.db = t → node.compactions = [] →
        Returns (Loader.seedCompactionFromLocalDB env attempt after) node PUnit.unit node' →
        ∀ (env : Env) (m m' : Manager) (w : ℕ), Admits { env with compaction := lost cs } m w m' →
          Admits { env with compaction := node'.compaction } m w m' := by
  have hderived := derived_of_produced h hc
  refine ⟨hderived, fun env attempt after node node' hdb hlost hseed env m m' w hadmits => ?_⟩
  have hle : node'.compaction ≤ lost cs := by
    rw [seed_compaction hlost hseed, hdb]
    exact hderived.le_lost
  exact admits_of_le { env with compaction := lost cs } hle hadmits

/-! ### A key that was created, and updated or deleted -/

theorem produced_createdA : Produced createdA [] := by
  have hcreate : insertRecord Table.empty 0 createA = .ok (createdA,
      { createA with createRevision := 1, version := 1, createdAt := some 0 }) := rfl
  exact Produced.empty.insertRecord hcreate

theorem produced_compactedA : Produced compactedA [1] := by
  have hupdate : insertRecord createdA 0 updateA = .ok (updatedA,
      { updateA with createRevision := 1, version := 2, createdAt := some 0 }) := rfl
  exact (produced_createdA.insertRecord hupdate).executeCompaction

theorem contiguous_of_bare {revision : ℤ} (hc : Contiguous t n) (hle : revision ≤ n)
    (hbare : t'.rows.map bare = (upTo t revision).map bare) : Contiguous t' revision := by
  have hrevs := congrArg (List.map Record.revision) hbare
  rw [List.map_map, List.map_map] at hrevs
  have hone : t'.rows.map Record.revision = oneTo revision := hrevs.trans (revisions_upTo hc hle)
  intro k
  rw [← mem_oneTo, ← hone, List.mem_map]
  exact Iff.rfl

/-- The table goes through a snapshot. -/
theorem derived_compaction_sound_compactedA :
    ∃ bs t',
      writeSnapshotFile default 0 (findAllRecordsForSnapshot default compactedA 2) "n1" = some bs ∧
      downloadAndImportFile default default (fun _ => 0) Table.empty .snapshot (some bs) =
        (t', .ok ()) ∧
      Derived t' [1] 2 (deriveCompactionRevision t') := by
  have hlen : (upTo compactedA 2).length < 2 ^ 63 := by decide
  obtain ⟨bs, t', hwrite, himport, -, hbare⟩ : ∃ bs t',
      writeSnapshotFile default 0 (findAllRecordsForSnapshot default compactedA 2) "n1" = some bs ∧
      downloadAndImportFile default default (fun _ => 0) Table.empty .snapshot (some bs) =
        (t', .ok ()) ∧
      Built t' ∧ t'.rows.map bare = (upTo compactedA 2).map bare :=
    rows_of_snapshot default (fun _ => 0) built_compactedA storable_compactedA hlen (by decide)
      (by decide)
  have hproduced : Produced t' [1] := produced_compactedA.snapshot storable_compactedA hlen
    (by decide) (by decide) hwrite himport
  have hcontiguous : Contiguous t' (2 : ℕ) :=
    contiguous_of_bare (n := 2) contiguous_compactedA le_rfl hbare
  exact ⟨bs, t', hwrite, himport, (derived_compaction_sound t' [1] 2 hproduced hcontiguous).1⟩

def deleteA : Record :=
  { revision := 2, key := [97], deleted := true, prevRevision := 1, leaderId := "n1" }

def deletedA : Table :=
  ⟨[{ createA with createRevision := 1, version := 1, createdAt := some 0 },
    { deleteA with createRevision := 1, createdAt := some 0 }], by decide, by decide⟩

/-- A compaction above the latest revision marks both rows. -/
def emptiedA : Table := executeCompaction deletedA 0 5

/-- **Where all rows are marked, the lost revision may be larger than every revision of the table**:
then the derived one is not the largest value up to which all rows are marked. -/
theorem derived_below_lost :
    Produced emptiedA [5] ∧ Contiguous emptiedA (2 : ℕ) ∧ deriveCompactionRevision emptiedA = 2 ∧
      5 ≤ lost [5] ∧ ∀ r ∈ emptiedA, r.revision ≤ 5 → r.compactedAt ≠ none := by
  have hdelete : insertRecord createdA 0 deleteA = .ok (deletedA,
      { deleteA with createRevision := 1, createdAt := some 0 }) := rfl
  have hproduced : Produced emptiedA [5] :=
    (produced_createdA.insertRecord hdelete).executeCompaction
  have hrevs : emptiedA.rows.map Record.revision = oneTo 2 := by decide
  refine ⟨hproduced, fun k => ?_, by decide, by decide, by decide⟩
  have hmem : (∃ r ∈ emptiedA, r.revision = k) ↔ k ∈ oneTo 2 := by
    rw [← hrevs, List.mem_map]
    exact Iff.rfl
  exact hmem.trans mem_oneTo

end Netsy.Bootstrap.DerivedCompaction
