import Netsy.Primary.Preflight

/-! # Handover

What a preflight pass guarantees to the next reign: which durable records the new Primary holds
afterwards. A pass compares one number, the latest local revision, with the keys of the files, so
this depends on the rows below that number being the right ones. -/

namespace Netsy.Primary.Handover

open Proto Datastore Lib.ObjectStore Lib.StateError
open LocalDB.Schema LocalDB.Replicate Primary.Preflight

variable {env : Env} {nodeID : NodeID} {n n' : Node} {r row : Record}

/-! ### Handover keeps the durable records -/

/-- The records of the chunks that a pass replays. -/
def replayedRecords (n : Node) : List Record :=
  (n.bucket.objects.filter fun o =>
    o.1.chunkRevision?.any fun c => n.db.latestRevision < c).flatMap fun o => o.2.records

/-- The records of the durable files that a pass does not read: the latest snapshot, and the
chunks with a key at or below the latest local revision. -/
def skippedRecords (n : Node) : List Record :=
  (n.bucket.objects.filter fun o => current n.bucket o.1 &&
    o.1.chunkRevision?.all fun c => c ≤ n.db.latestRevision).flatMap fun o => o.2.records

theorem mem_replayedRecords : r ∈ replayedRecords n ↔ ∃ c file,
    (.chunk c, file) ∈ n.bucket ∧ n.db.latestRevision < c ∧ r ∈ file.records := by
  simp only [replayedRecords, List.mem_flatMap, List.mem_filter]
  constructor
  · rintro ⟨⟨_ | _, file⟩, ⟨ho, hc⟩, hr⟩
    · exact ⟨_, file, ho, by simpa [ObjectKey.chunkRevision?] using hc, hr⟩
    · simp [ObjectKey.chunkRevision?] at hc
  · rintro ⟨c, file, ho, hc, hr⟩
    exact ⟨(.chunk c, file), ⟨ho, by simpa [ObjectKey.chunkRevision?] using hc⟩, hr⟩

theorem mem_durableRecords_iff :
    r ∈ durableRecords n.bucket ↔ r ∈ skippedRecords n ∨ r ∈ replayedRecords n := by
  rw [mem_replayedRecords, mem_durableRecords]
  simp only [skippedRecords, List.mem_flatMap, List.mem_filter, Bool.and_eq_true]
  constructor
  · rintro ⟨⟨c | s, file⟩, ho, hc, hr⟩
    · by_cases hl : n.db.latestRevision < c
      · exact Or.inr ⟨c, file, ho, hl, hr⟩
      · exact Or.inl ⟨_, ⟨ho, hc, by simpa [ObjectKey.chunkRevision?] using hl⟩, hr⟩
    · exact Or.inl ⟨_, ⟨ho, hc, rfl⟩, hr⟩
  · rintro (⟨o, ⟨ho, hc, -⟩, hr⟩ | ⟨c, file, ho, -, hr⟩)
    · exact ⟨o, ho, hc, hr⟩
    · exact ⟨_, ho, rfl, hr⟩

/-! ### The highest durable revision -/

theorem le_foldl_max (l : List ℤ) (d : ℤ) :
    d ≤ l.foldl (fun d c => if d < c then c else d) d ∧
      ∀ c ∈ l, c ≤ l.foldl (fun d c => if d < c then c else d) d := by
  induction l generalizing d with
  | nil => simp
  | cons a l ih =>
    obtain ⟨h1, h2⟩ := ih (if d < a then a else d)
    refine ⟨?_, fun c hc => ?_⟩
    · refine le_trans ?_ h1
      split_ifs <;> omega
    · rcases List.mem_cons.mp hc with rfl | hc
      · refine le_trans ?_ h1
        split_ifs <;> omega
      · exact h2 c hc

theorem le_durableRevision {b : ObjectStorage} {o : ObjectKey × DataFile} (ho : o ∈ b)
    (hpos : 0 < o.1.revision) (hc : current b o.1) : o.1.revision ≤ durableRevision b := by
  obtain ⟨c | s, file⟩ := o
  · exact (le_foldl_max _ _).2 c (mem_listChunks.mpr ⟨hpos, Bucket.has_iff.mpr ⟨file, ho⟩⟩)
  · have hs : getLatestSnapshot b = some s := by simpa [current] using hc
    unfold durableRevision
    rw [hs]
    exact (le_foldl_max (listChunks b 0) s).1

/-! ### The durable records after a pass -/

theorem mem_durableRecords_of_passed (hp : Passed env nodeID n n')
    (h : r ∈ durableRecords n.bucket) : r ∈ durableRecords n'.bucket := by
  obtain ⟨o, ho, hc, hr⟩ := mem_durableRecords.mp h
  refine mem_durableRecords.mpr ⟨o, hp.keptObjects o ho, ?_, hr⟩
  cases hk : o.1 with
  | chunk c => rfl
  | snapshot s => simpa [current, hk, hp.snapshot] using hc

theorem mem_durableRecords_passed (hp : Passed env nodeID n n')
    (h : r ∈ durableRecords n'.bucket) :
    r ∈ durableRecords n.bucket ∨
      ∃ row ∈ n'.db, durableRevision n.bucket < row.revision ∧ r = written row := by
  obtain ⟨o, ho, hc, hr⟩ := mem_durableRecords.mp h
  rcases hp.newObjects o ho with ho' | ⟨row, hrow, hlt, rfl⟩
  · refine Or.inl (mem_durableRecords.mpr ⟨o, ho', ?_, hr⟩)
    cases hk : o.1 with
    | chunk c => rfl
    | snapshot s => simpa [current, hk, hp.snapshot] using hc
  · exact Or.inr ⟨row, hrow, hlt, by simpa [marshalChunk] using hr⟩

/-! ### Handover keeps the durable records -/

/-- **After a pass the node holds every durable record exactly if it held, or replayed, every
record of the files that the pass skips.** -/
theorem durable_records_held_iff (hpos : ∀ o ∈ n.bucket, 0 < o.1.revision)
    (h : Returns (runPreflightPass env nodeID) n PUnit.unit n') :
    (∀ r ∈ durableRecords n'.bucket, ∃ row ∈ n'.db, SameRecord row r) ↔
      ∀ r ∈ skippedRecords n, (∃ row ∈ n.db, SameRecord row r) ∨
        ∃ x ∈ replayedRecords n, SameRecord x r := by
  have hp := passed_of_returns h
  constructor
  · intro hall r hr
    have hd : r ∈ durableRecords n.bucket := mem_durableRecords_iff.mpr (Or.inl hr)
    obtain ⟨row, hrow, hs⟩ := hall r (mem_durableRecords_of_passed hp hd)
    rcases hp.new row hrow with hrow | ⟨c, hlt, file, hfile, x, hx, he⟩ | ⟨hz, -, -⟩
    · exact Or.inl ⟨row, hrow, hs⟩
    · exact Or.inr
        ⟨x, mem_replayedRecords.mpr ⟨c, file, hfile, hlt, hx⟩, (sameRecord_congr he).mp hs⟩
    · -- the initial record is only inserted where no file is
      obtain ⟨o, ho, hc, -⟩ := mem_durableRecords.mp hd
      have h1 := le_durableRevision ho (hpos o ho) hc
      have h2 := hpos o ho
      omega
  · intro hall r hr
    have hreplayed : ∀ x ∈ replayedRecords n, ∃ row ∈ n'.db, recordsEqualForReplication row x := by
      intro x hx
      obtain ⟨c, file, hfile, hlt, hx⟩ := mem_replayedRecords.mp hx
      exact hp.replayed c (hpos _ hfile) hlt file hfile x hx
    rcases mem_durableRecords_passed hp hr with hr | ⟨row, hrow, -, rfl⟩
    · rcases mem_durableRecords_iff.mp hr with hr | hr
      · rcases hall r hr with ⟨row, hrow, hs⟩ | ⟨x, hx, hs⟩
        · exact ⟨row, hp.kept row hrow, hs⟩
        · obtain ⟨row, hrow, he⟩ := hreplayed x hx
          exact ⟨row, hrow, (sameRecord_congr he).mpr hs⟩
      · obtain ⟨row, hrow, he⟩ := hreplayed r hr
        exact ⟨row, hrow, sameRecord_of_recordsEqual he⟩
    · exact ⟨row, hrow, sameRecord_written row⟩

/-- A node that has not started its pass. -/
def nodeWith (db : Table) (bucket : ObjectStorage) : Node :=
  { db := db, compactions := [], bucket := bucket, committed := 0, compaction := 0,
    nextRevisionID := 0, broadcast := [] }

/-- An environment in which nothing fails. -/
def faultless (now : Time) : Env :=
  { now := now, works := fun _ => true, put := fun _ => .answered, get := fun _ => true }

/-- The node after a pass. -/
def afterPass (env : Env) (nodeID : NodeID) (n : Node) : Node :=
  ((runPreflightPass env nodeID).run.run n).2

/-- A first write of a key, as `InsertRecord` stores it. -/
def created (revision : ℤ) (key value : Bytes) : Record :=
  { revision := revision, key := key, created := true, createRevision := revision, version := 1,
    value := value, createdAt := some 0, leaderId := "p" }

/-- Two chunks, each of a synchronous commit. -/
def twoChunks : ObjectStorage :=
  ⟨[marshalChunk 10 (created 1 [120] []) "p", marshalChunk 20 (created 2 [98] [2]) "p"],
    by decide, []⟩

/-- A node that has not received the revision 2. -/
def behindNode : Node := nodeWith ⟨[created 1 [120] []], by decide, by decide⟩ twoChunks

/-- A node that holds a record at revision 2 that the old Primary rolled back. -/
def staleNode : Node :=
  nodeWith ⟨[created 1 [120] [], created 2 [97] [1]], by decide, by decide⟩ twoChunks

/-- A chunk above the local revision is replayed. -/
theorem durable_records_held_behindNode :
    let n' := afterPass (faultless 30) "q" behindNode
    ∀ r ∈ durableRecords n'.bucket, ∃ row ∈ n'.db, SameRecord row r := by
  have h : Returns (runPreflightPass (faultless 30) "q") behindNode PUnit.unit
    (afterPass (faultless 30) "q" behindNode) := rfl
  exact (durable_records_held_iff (by decide) h).mpr (by decide)

/-- **A rolled-back row survives the handover.** The pass skips the chunk 2 because the latest
local revision is 2, and the record committed there is not in the local database. -/
theorem preflight_keeps_rolled_back_row :
    let n' := afterPass (faultless 30) "q" staleNode
    Returns (runPreflightPass (faultless 30) "q") staleNode PUnit.unit n' ∧
      created 2 [98] [2] ∈ durableRecords n'.bucket ∧
      (∃ row ∈ n'.db, row.revision = 2 ∧ SameRecord row (created 2 [97] [1])) ∧
      ¬ ∃ row ∈ n'.db, SameRecord row (created 2 [98] [2]) :=
  ⟨rfl, by decide⟩

end Netsy.Primary.Handover
