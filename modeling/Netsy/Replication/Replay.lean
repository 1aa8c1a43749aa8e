import Netsy.CommonAPI.CompactedReads
import Netsy.Datastore
import Netsy.Replication.ProcessStream

/-! # Replaying a stored record

Data files overlap and a new Primary broadcasts its records again, so a node receives records that
it has. Each node compacts its own copies, which changes their value and `compacted_at`, and a
duplicate is compared on these two fields. -/

namespace Netsy.Replication.Replay

open Proto Datastore LocalDB.Schema LocalDB.Find LocalDB.Replicate
open LocalDB.Compaction CommonAPI.Range CommonAPI.CompactedReads Replication.ProcessStream

/-- `b` is a copy of the record `x`, as it was committed or compacted since. -/
structure CopyOf (x b : Record) : Prop where
  identity : b.identity = x.identity
  value : b.value = if b.compactedAt = none then x.value else []

/-- The ways in which records come again: in a data file (a snapshot or a chunk, imported by the
loader or by a preflight pass), or broadcast by a new Primary. -/
inductive Incoming
  | dataFile (records : List Record)
  | broadcast (record : Record)
deriving DecidableEq, Repr

def Incoming.records : Incoming → List Record
  | .dataFile records => records
  | .broadcast record => [record]

/-- The database after the replay, and whether the replay succeeded. -/
def replay (f : Follower) (now : Time) : Incoming → Table × Bool
  | .dataFile records =>
    let res := importRecords now none 0 records f.db
    (res.1, res.2.isOk)
  | .broadcast record =>
    let res := handleRecord f now record
    (res.1.db, res.2.isOk)

/-- The replay succeeds and no read tells the difference. -/
structure Idempotent (f : Follower) (now : Time) (p : Incoming) : Prop where
  succeeds : (replay f now p).2 = true
  reads : ∀ r committed, range (replay f now p).1 r committed = range f.db r committed

/-- The node has a copy of the committed record of which `r` is a copy. -/
structure Stored (f : Follower) (r : Record) : Prop where
  pos : 0 < r.revision
  key : r.key ≠ []
  copies : ∃ x, CopyOf x r ∧ ∃ b ∈ f.db, CopyOf x b

/-- The copy of the node and the incoming copy are compacted alike. Only a record that the node
does not know to be committed may differ in the time, and a deletion in any way. -/
def Alike (committed : ℤ) : Incoming → Record → Record → Prop
  | .dataFile _, b, r => b.compactedAt = r.compactedAt
  | .broadcast _, b, r =>
    if r.revision ≤ committed then b.compactedAt = r.compactedAt
    else r.deleted = true ∨ b.compactedAt.isSome = r.compactedAt.isSome

variable {f : Follower} {t t' : Table} {now : Time} {p : Incoming} {b r x : Record} {committed : ℤ}
variable {records : List Record}

/-! ### Copies -/

theorem CopyOf.sameRecord (hb : CopyOf x b) (hr : CopyOf x r) : SameRecord b r := by
  refine ⟨hb.identity.trans hr.identity.symm, ?_⟩
  by_cases hbc : b.compactedAt = none
  · by_cases hrc : r.compactedAt = none
    · left
      rw [hb.value, hr.value, if_pos hbc, if_pos hrc]
    · exact Or.inr (Or.inr hrc)
  · exact Or.inr (Or.inl hbc)

theorem recordsEqual_iff_of_copies (hb : CopyOf x b) (hr : CopyOf x r) :
    recordsEqualForReplication b r = true ↔ b.compactedAt = r.compactedAt := by
  rw [recordsEqualForReplication_iff]
  constructor
  · exact fun h => h.2.2
  · intro h
    refine ⟨hb.identity.trans hr.identity.symm, ?_, h⟩
    rw [hb.value, hr.value, h]

theorem Stored.exists_row (h : Stored f r) :
    ∃ b ∈ f.db, b.revision = r.revision ∧ SameRecord b r ∧
      (recordsEqualForReplication b r = true ↔ b.compactedAt = r.compactedAt) := by
  obtain ⟨x, hr, b, hb, hbx⟩ := h.copies
  have hs := hbx.sameRecord hr
  exact ⟨b, hb, hs.revision_eq, hs, recordsEqual_iff_of_copies hbx hr⟩

/-! ### Data files -/

theorem importRecords_of_equal (h : ∀ r ∈ records, r.revision ≠ 0 ∧ r.key ≠ [] ∧
      ∃ b ∈ t, recordsEqualForReplication b r = true) (i : ℕ) :
    importRecords now none i records t = (t, .ok ()) := by
  induction records generalizing i with
  | nil => rfl
  | cons r records ih =>
    obtain ⟨hpos, hkey, b, hb, he⟩ := h r List.mem_cons_self
    have hrev : b.revision = r.revision := (sameRecord_of_recordsEqual he).revision_eq
    unfold importRecords
    rw [if_neg (by simp), replicateRecord_of_mem now hb hrev hpos hkey, if_pos he]
    exact ih (fun r hr => h r (List.mem_cons_of_mem _ hr)) (i + 1)

theorem dataFile_idempotent_iff (h : ∀ r ∈ records, Stored f r) :
    Idempotent f now (.dataFile records) ↔
      ∀ r ∈ records, ∀ b ∈ f.db, b.revision = r.revision → b.compactedAt = r.compactedAt := by
  constructor
  · intro hi r hr b hb hrev
    have hok : importRecords now none 0 records f.db =
        ((importRecords now none 0 records f.db).1, .ok ()) := by
      have hs : (importRecords now none 0 records f.db).2.isOk = true := hi.succeeds
      cases he : (importRecords now none 0 records f.db).2 with
      | error e =>
        rw [he] at hs
        cases hs
      | ok u => rw [← he]
    obtain ⟨hkeep, hrows, -⟩ := importRecords_ok hok
    obtain ⟨row, hrow, he⟩ := hrows r hr
    have hsame : b = row := Table.eq_of_revision_eq (hkeep b hb) hrow
      (hrev.trans (sameRecord_of_recordsEqual he).revision_eq.symm)
    rw [hsame]
    exact (recordsEqualForReplication_iff.mp he).2.2
  · intro halike
    have hequal : importRecords now none 0 records f.db = (f.db, .ok ()) := by
      refine importRecords_of_equal (fun r hr => ?_) 0
      obtain ⟨b, hb, hrev, -, he⟩ := (h r hr).exists_row
      exact ⟨(h r hr).pos.ne', (h r hr).key, b, hb, he.mpr (halike r hr b hb hrev)⟩
    have hreplay : replay f now (.dataFile records) = (f.db, true) := by
      simp only [replay, hequal]
      rfl
    exact ⟨by rw [hreplay], fun q c => by rw [hreplay]⟩

/-! ### Broadcast records -/

theorem handleRecord_of_equal (h : Stored f r) (hb : b ∈ f.db)
    (he : recordsEqualForReplication b r = true) : handleRecord f now r = (f, .ok b) := by
  have hrev : b.revision = r.revision := (sameRecord_of_recordsEqual he).revision_eq
  have hrow := replicateRecord_of_mem now hb hrev h.pos.ne' h.key
  rw [if_pos he] at hrow
  simp [handleRecord, replicateTentativeRecord_eq, replicateRecordIn_eq, hrow]

theorem broadcast_of_equal (h : Stored f r) (hb : b ∈ f.db)
    (he : recordsEqualForReplication b r = true) : Idempotent f now (.broadcast r) := by
  have hreplay : replay f now (.broadcast r) = (f.db, true) := by
    simp only [replay, handleRecord_of_equal h hb he]
    rfl
  exact ⟨by rw [hreplay], fun q c => by rw [hreplay]⟩

theorem handleRecord_conflict (h : Stored f r) (hb : b ∈ f.db) (hrev : b.revision = r.revision)
    (hle : r.revision ≤ f.committed) (he : recordsEqualForReplication b r = false) :
    (handleRecord f now r).2 = .error (.replicateConflict r.revision) := by
  have hrow := replicateRecord_of_mem now hb hrev h.pos.ne' h.key
  rw [he] at hrow
  simp [handleRecord, replicateTentativeRecord_eq, hle, replicateRecordIn_eq, hrow]

/-- The rows after one of them was overwritten, as a function of the rows before. -/
def overwrite (row b : Record) : Record := if b.revision = row.revision then row else b

theorem mem_overwrite {row : Record} (hb : b ∈ t) (hrev : b.revision = row.revision)
    (hu : ∀ a, a ∈ t' ↔ a = row ∨ (a ∈ t ∧ a.revision ≠ row.revision)) (a : Record) :
    a ∈ t' ↔ ∃ b ∈ t, overwrite row b = a := by
  rw [hu]
  constructor
  · rintro (rfl | ⟨ha, hne⟩)
    · exact ⟨b, hb, if_pos hrev⟩
    · exact ⟨a, ha, if_neg hne⟩
  · rintro ⟨c, hc, rfl⟩
    unfold overwrite
    split_ifs with he
    · exact Or.inl rfl
    · exact Or.inr ⟨hc, he⟩

theorem recordsToKeyValues_map {g : Record → Record} {rows : List Record}
    (h : ∀ b ∈ rows, g b = b ∨ (b.compactedAt.isSome = true ∧ (g b).compactedAt.isSome = true)) :
    recordsToKeyValues (rows.map g) = recordsToKeyValues rows := by
  have hany : (rows.map g).any (fun row => row.compactedAt.isSome) =
      rows.any fun row => row.compactedAt.isSome := by
    have hsome : ∀ b ∈ rows, (g b).compactedAt.isSome = b.compactedAt.isSome := by
      intro b hb
      rcases h b hb with he | ⟨h1, h2⟩
      · rw [he]
      · rw [h1, h2]
    rw [List.any_map, Bool.eq_iff_iff, List.any_eq_true, List.any_eq_true]
    exact exists_congr fun b => and_congr_right fun hb => by rw [Function.comp, hsome b hb]
  unfold recordsToKeyValues
  rw [hany]
  split_ifs with hsome
  · rfl
  · have hsame : ∀ b ∈ rows, g b = b := fun b hb =>
      (h b hb).resolve_right fun hc => hsome (List.any_eq_true.mpr ⟨b, hb, hc.1⟩)
    rw [List.map_congr_left hsame, List.map_id']

theorem range_overwrite {row : Record} {g : RangeRequest} (hb : b ∈ t) (hs : SameRecord b row)
    (hpos : 0 < row.revision)
    (halike : row.deleted = true ∨
      (b.compactedAt.isSome = true ∧ row.compactedAt.isSome = true))
    (hu : ∀ a, a ∈ t' ↔ a = row ∨ (a ∈ t ∧ a.revision ≠ row.revision)) :
    range t' g committed = range t g committed := by
  have hrow : ∀ a ∈ t, overwrite row a = a ∨ (a = b ∧ overwrite row a = row) := by
    intro a ha
    unfold overwrite
    split_ifs with he
    · exact Or.inr ⟨Table.eq_of_revision_eq ha hb (he.trans hs.revision_eq.symm), rfl⟩
    · exact Or.inl rfl
  have hkey : ∀ a ∈ t, (overwrite row a).key = a.key := by
    intro a ha
    rcases hrow a ha with he | ⟨rfl, he⟩
    · rw [he]
    · rw [he]
      exact (congrArg Record.key hs.1 :).symm
  have hdeleted : ∀ a ∈ t, (overwrite row a).deleted = a.deleted := by
    intro a ha
    rcases hrow a ha with he | ⟨rfl, he⟩
    · rw [he]
    · rw [he]
      exact (congrArg Record.deleted hs.1 :).symm
  have hrevision : ∀ a ∈ t, (overwrite row a).revision = a.revision := by
    intro a _
    unfold overwrite
    split_ifs with he
    · exact he.symm
    · rfl
  have hmeta : overwrite row {} = {} := if_neg hpos.ne
  have hfind : ∀ w limit order, findRecordsBy t' w g.revision limit order =
      Prod.map (List.map (overwrite row)) id (findRecordsBy t w g.revision limit order) :=
    fun w limit order => findRecordsBy_map hmeta
      (selected_of_mem_iff hkey hrevision hdeleted (mem_overwrite hb hs.revision_eq hu))
  have hkvs : ∀ w limit order,
      recordsToKeyValues ((findRecordsBy t w g.revision limit order).1.map (overwrite row)) =
        recordsToKeyValues (findRecordsBy t w g.revision limit order).1 := by
    intro w limit order
    refine recordsToKeyValues_map fun a ha => ?_
    rcases mem_findRecordsBy ha with ha | rfl
    · obtain ⟨hfil, -, hlive⟩ := mem_selected.mp ha
      rcases hrow a (mem_filtered.mp hfil).1 with he | ⟨rfl, he⟩
      · exact Or.inl he
      · rw [he]
        refine Or.inr (halike.resolve_left fun hdel => ?_)
        have : row.deleted = a.deleted := (congrArg Record.deleted hs.1 :).symm
        rw [this, hlive] at hdel
        cases hdel
    · exact Or.inl hmeta
  unfold range
  simp only [hfind, Prod.map, hkvs, List.length_map, id]

theorem current_of_mem (hb : b ∈ t) (hlive : b.deleted = false) : Current t b.revision b :=
  ⟨hb, le_refl _, hlive, fun _ _ _ hle => hle⟩

/-- **A record above the committed revision** is taken, and no read changes exactly if it is a
deletion or both copies are compacted or neither is. -/
theorem tentative_idempotent_iff (h : Stored f r) (hb : b ∈ f.db) (hs : SameRecord b r)
    (he : recordsEqualForReplication b r = true ↔ b.compactedAt = r.compactedAt)
    (hlt : f.committed < r.revision) :
    Idempotent f now (.broadcast r) ↔
      r.deleted = true ∨ b.compactedAt.isSome = r.compactedAt.isSome := by
  cases hequal : recordsEqualForReplication b r with
  | true =>
    exact iff_of_true (broadcast_of_equal h hb hequal) (Or.inr (by rw [he.mp hequal]))
  | false =>
    have hfits : (f.db.delete r.revision).Fits (replicatedRow now r) :=
      fits_delete_of_sameRecord hb hs
    obtain ⟨u, hres, hu⟩ := replicateTentativeRecord_overwrites hb hs.revision_eq h.pos.ne' h.key
      hlt hequal hfits
    have hreplay : replay f now (.broadcast r) = (u, true) := by
      simp only [replay, handleRecord, hres]
      rfl
    have hne : b.compactedAt ≠ r.compactedAt := fun hc => by
      rw [he.mpr hc] at hequal
      cases hequal
    constructor
    · -- a read at the revision of the row fails exactly if the row is compacted
      intro hi
      by_contra hnot
      rw [not_or, Bool.not_eq_true] at hnot
      obtain ⟨hlive, hdiffer⟩ := hnot
      have hlive' : b.deleted = false := (congrArg Record.deleted hs.1 :).trans hlive
      obtain ⟨q, -, hfinds⟩ := exists_finds h.pos r.key
      have hbefore : Current f.db r.revision b := hs.revision_eq ▸ current_of_mem hb hlive'
      have hafter : Current u r.revision (replicatedRow now r) :=
        current_of_mem ((hu _).mpr (Or.inl rfl)) hlive
      have hreads := hi.reads q 0
      rw [hreplay] at hreads
      have hboth : (∃ resp, range f.db q 0 = .ok resp) ↔ b.compactedAt = none :=
        range_of_finds (hfinds _ _ hbefore (congrArg Record.key hs.1 :))
      rw [← hreads, range_of_finds (hfinds _ _ hafter rfl)] at hboth
      refine hdiffer (Bool.eq_iff_iff.mpr ?_)
      rw [Option.isSome_iff_ne_none, Option.isSome_iff_ne_none]
      exact not_congr hboth.symm
    · intro halike
      refine ⟨by rw [hreplay], fun q c => ?_⟩
      rw [hreplay]
      have hs' : SameRecord b (replicatedRow now r) := hs
      refine range_overwrite hb hs' h.pos (halike.imp_right fun hsome => ?_) hu
      -- neither copy is compacted only if they are equal
      cases hc : b.compactedAt with
      | none =>
        rw [hc] at hsome hne
        exact absurd (Option.isSome_eq_false_iff.mp hsome.symm) (by simpa using hne.symm)
      | some time =>
        rw [hc] at hsome
        exact ⟨rfl, hsome.symm⟩

/-- **Replaying a stored record is idempotent** exactly if the copies are compacted alike. -/
theorem replay_idempotent_iff (f : Follower) (now : Time) (p : Incoming)
    (h : ∀ r ∈ p.records, Stored f r) :
    Idempotent f now p ↔
      ∀ r ∈ p.records, ∀ b ∈ f.db, b.revision = r.revision → Alike f.committed p b r := by
  cases p with
  | dataFile records => exact dataFile_idempotent_iff h
  | broadcast r =>
    have hr : Stored f r := h r List.mem_cons_self
    obtain ⟨b, hb, hrev, hs, he⟩ := hr.exists_row
    have hone : (∀ r' ∈ (Incoming.broadcast r).records, ∀ b ∈ f.db, b.revision = r'.revision →
        Alike f.committed (.broadcast r) b r') ↔ Alike f.committed (.broadcast r) b r := by
      constructor
      · exact fun hall => hall r List.mem_cons_self b hb hrev
      · intro halike r' hr' b' hb' hrev'
        obtain rfl := List.mem_singleton.mp hr'
        rwa [Table.eq_of_revision_eq hb' hb (hrev'.trans hrev.symm)]
    rw [hone, Alike]
    split_ifs with hle
    · rw [← he]
      constructor
      · intro hi
        by_contra hnot
        have hsucc : (handleRecord f now r).2.isOk = true := hi.succeeds
        rw [handleRecord_conflict hr hb hrev hle (Bool.not_eq_true _ ▸ hnot)] at hsucc
        cases hsucc
      · exact broadcast_of_equal hr hb
    · exact tentative_idempotent_iff hr hb hs he (not_le.mp hle)

/-- A node with two rows of a key. -/
def twice : Table where
  rows := [
    { revision := 1, key := [97], created := true, createRevision := 1, version := 1,
      value := [120] },
    { revision := 2, key := [97], createRevision := 1, prevRevision := 1, version := 2,
      value := [121] }]
  sorted := by decide
  unique := by decide

/-- The node, with the two rows committed. -/
def twiceHeld (db : Table) : Follower := ⟨db, [], 2, 0, []⟩

/-- The first row as it was committed. -/
def firstWrite : Record :=
  { revision := 1, key := [97], created := true, createRevision := 1, version := 1,
    value := [120] }

/-- Without a compaction the chunk with the first row can be imported again. -/
theorem replay_idempotent_twice : Idempotent (twiceHeld twice) 9 (.dataFile [firstWrite]) := by
  refine (replay_idempotent_iff (twiceHeld twice) 9 (.dataFile [firstWrite]) ?_).mpr ?_
  · intro r hr
    obtain rfl := List.mem_singleton.mp hr
    exact ⟨by decide, by decide, firstWrite, ⟨rfl, rfl⟩, firstWrite, List.mem_cons_self, ⟨rfl, rfl⟩⟩
  · intro r hr b hb
    obtain rfl := List.mem_singleton.mp hr
    have hnone : ∀ b ∈ twice, b.compactedAt = none := by decide
    exact fun _ => hnone b hb

/-- After `ExecuteCompaction(1)` the same chunk and the same broadcast fail. -/
theorem replay_conflict_after_compaction :
    (importRecords 9 none 0 [firstWrite] (executeCompaction twice 7 1)).2 =
        .error (.replicate 0 (.replicateConflict 1)) ∧
      (handleRecord (twiceHeld (executeCompaction twice 7 1)) 9 firstWrite).2 =
        .error (.replicateConflict 1) := by
  constructor <;> rfl

end Netsy.Replication.Replay
