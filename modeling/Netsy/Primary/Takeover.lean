import Netsy.Primary.DurableLog
import Netsy.Primary.Handover

/-! # Taking over from a Primary that crashed

A pass uploads the local records above the highest durable revision. A Primary that buffered a
quorum commit and then committed synchronously has a durable revision above a record that is in its
buffer only, so if it crashes the pass leaves that record out. -/

namespace Netsy.Primary.Takeover

open Proto Datastore Lib.Run Lib.StateError
open LocalDB.Schema LocalDB.Replicate Primary.Preflight Primary.Handover Primary.LeaderTxn

variable {env : Env} {nodeID : NodeID} {n n' : Node}

/-- **After a pass every local record up to the committed revision is durable exactly if before it
every local record up to the highest durable revision was.** -/
theorem local_records_durable_iff (h : Returns (runPreflightPass env nodeID) n PUnit.unit n') :
    (∀ row ∈ n'.db, row.revision ≤ n'.committed →
        ∃ r ∈ durableRecords n'.bucket, SameRecord row r) ↔
      ∀ row ∈ n.db, row.revision ≤ durableRevision n.bucket →
        ∃ r ∈ durableRecords n.bucket, SameRecord row r := by
  have hp := passed_of_returns h
  constructor
  · intro hall row hrow hle
    have hrow' := hp.kept row hrow
    obtain ⟨r, hr, hs⟩ := hall row hrow' (by
      rw [hp.committed]
      exact Table.revision_le_latestRevision hrow')
    rcases mem_durableRecords_passed hp hr with hr | ⟨x, -, hlt, rfl⟩
    · exact ⟨r, hr, hs⟩
    · -- an upload has a revision above the durable ones
      have : row.revision = x.revision := hs.revision_eq
      omega
  · intro hall row hrow _
    by_cases hle : row.revision ≤ durableRevision n.bucket
    · rcases hp.new row hrow with hrow | ⟨c, hlt, file, hfile, x, hx, he⟩ | ⟨hz, -, h1⟩
      · obtain ⟨r, hr, hs⟩ := hall row hrow hle
        exact ⟨r, mem_durableRecords_of_passed hp hr, hs⟩
      · refine ⟨x, mem_durableRecords_of_passed hp ?_, sameRecord_of_recordsEqual he⟩
        exact mem_durableRecords.mpr ⟨_, hfile, rfl, hx⟩
      · omega
    · have hup := hp.uploaded row hrow (not_le.mp hle)
      refine ⟨written row, mem_durableRecords.mpr ⟨_, hup, rfl, ?_⟩, sameRecord_written row⟩
      simp [marshalChunk]

/-! ### A hole below the durable revision -/

def createdAt (now : Time) (revision : ℤ) (key value : Bytes) : Record :=
  { created revision key value with createdAt := some now }

/-- The store of a Primary that has the record 3 in its buffer. -/
def bufferedBucket : ObjectStorage :=
  Gate.firstBucket.create (.chunk 2) (marshalChunk 2 (createdAt 2 2 [97] [1]) "p").2

/-- The node that restarts if the Primary crashes then. -/
def bufferedNode : Node :=
  nodeWith
    ⟨[Gate.firstRecord, createdAt 2 2 [97] [1], createdAt 7 3 [98] [1]], by decide, by decide⟩
    bufferedBucket

theorem local_records_durable_buffered :
    ∃ s n', exec (step DurableLog.oneReceipt) Gate.fresh DurableLog.buffered = some s ∧
      Returns (runPreflightPass (faultless 30) "p") (nodeWith s.db s.bucket) PUnit.unit n' ∧
      (∃ row ∈ n'.db, row.revision = 3) ∧ ∀ row ∈ n'.db, row.revision ≤ n'.committed →
        ∃ r ∈ durableRecords n'.bucket, SameRecord row r := by
  obtain ⟨s, hrun, hn⟩ : ∃ s, exec (step DurableLog.oneReceipt) Gate.fresh DurableLog.buffered =
      some s ∧ nodeWith s.db s.bucket = bufferedNode := ⟨_, rfl, rfl⟩
  have h : Returns (runPreflightPass (faultless 30) "p") bufferedNode PUnit.unit
    (afterPass (faultless 30) "p" bufferedNode) := rfl
  exact ⟨s, afterPass (faultless 30) "p" bufferedNode, hrun, hn.symm ▸ h, by decide,
    (local_records_durable_iff h).mpr (by decide)⟩

/-- The Replica disconnects and the next commit, at revision 4, is synchronous. -/
def thenSynchronous : List Action :=
  [.peer (.unfollow 0), .requireActivePrimary (Gate.createRequest [99] [2]), .acquire 0,
    .beginTx 9 true, .upload .answered, .commitSync true]

/-- The node that restarts if the Primary crashes after that. -/
def crashedNode : Node :=
  nodeWith
    ⟨[Gate.firstRecord, createdAt 2 2 [97] [1], createdAt 7 3 [98] [1], createdAt 9 4 [99] [2]],
      by decide, by decide⟩
    (bufferedBucket.create (.chunk 4) (marshalChunk 9 (createdAt 9 4 [99] [2]) "p").2)

/-- **A committed record is left out.** The Primary crashes with the record 3 in its buffer and
the chunk 4 in the store; the next pass returns nil and the record 3 is in no durable file. -/
theorem preflight_leaves_buffered_record_out :
    ∃ s n', exec (step DurableLog.oneReceipt) Gate.fresh (DurableLog.buffered ++ thenSynchronous) =
        some s ∧
      Returns (runPreflightPass (faultless 30) "p") (nodeWith s.db s.bucket) PUnit.unit n' ∧
      n'.committed = 4 ∧ (∃ row ∈ n'.db, row.revision = 3) ∧
      ∀ r ∈ durableRecords n'.bucket, r.revision ≠ 3 := by
  obtain ⟨s, hrun, hn⟩ : ∃ s, exec (step DurableLog.oneReceipt) Gate.fresh
      (DurableLog.buffered ++ thenSynchronous) = some s ∧ nodeWith s.db s.bucket = crashedNode :=
    ⟨_, rfl, rfl⟩
  have h : Returns (runPreflightPass (faultless 30) "p") crashedNode PUnit.unit
    (afterPass (faultless 30) "p" crashedNode) := rfl
  exact ⟨s, afterPass (faultless 30) "p" crashedNode, hrun, hn.symm ▸ h, by decide⟩

end Netsy.Primary.Takeover
