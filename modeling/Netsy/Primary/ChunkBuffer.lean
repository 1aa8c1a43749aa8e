import Netsy.Datastore

/-! # The chunk buffer

Records committed by a quorum wait in the buffer until a flush uploads them as one chunk. A flush
copies the records, uploads the copy without the lock and then removes as many records from the
front; while one runs, another call of `flush` returns nil at once. -/

namespace Netsy.Primary.ChunkBuffer

open Proto Datastore

/-- The buffer of a `chunkBuffer`. -/
structure Buffer where
  records : List Record
  bytes : ℤ
  flushing : Bool
deriving DecidableEq

def Buffer.empty : Buffer := { records := [], bytes := 0, flushing := false }

/-- `bufferRecord` appends. `size` is the encoded size of a record. -/
def Buffer.append (b : Buffer) (size : Record → ℤ) (r : Record) : Buffer :=
  { b with records := b.records ++ [r], bytes := b.bytes + size r }

/-- The size threshold is reached. -/
def Buffer.full (b : Buffer) (thresholdBytes : ℤ) : Bool :=
  0 < thresholdBytes && thresholdBytes ≤ b.bytes

/-- Who called the flush that runs: the loop `Run` or a rollback, a quorum transaction that filled
the buffer, or `GracefulDrain`. -/
inductive FlushOwner
  | background | txn | drain
deriving DecidableEq, Repr

/-- A flush that runs. -/
structure Flush where
  batch : List Record
  batchBytes : ℤ
  file : ObjectKey × DataFile
  owner : FlushOwner
  result : Option (Except PutError Unit)
deriving DecidableEq

/-- A call of `flush`; `none` if it returns nil at once. -/
def Buffer.startFlush (b : Buffer) (nodeID : NodeID) (owner : FlushOwner) (now : Time) :
    Option (Buffer × Flush) :=
  if b.flushing then none
  else
    (marshalChunkBatch now b.records nodeID).map fun file =>
      ({ b with flushing := true },
        { batch := b.records, batchBytes := b.bytes, file := file, owner := owner, result := none })

/-- The end of a flush. -/
def Buffer.endFlush (b : Buffer) (f : Flush) : Except PutError Unit → Buffer
  | .ok () =>
    { records := b.records.drop f.batch.length, bytes := max 0 (b.bytes - f.batchBytes),
      flushing := false }
  | .error _ => { b with flushing := false }

variable {b b' : Buffer} {f : Flush} {nodeID : NodeID} {owner : FlushOwner} {now : Time}

theorem startFlush_eq_some (h : b.startFlush nodeID owner now = some (b', f)) :
    b.flushing = false ∧ b' = { b with flushing := true } ∧ f.batch = b.records ∧
      f.file.2.records = b.records.map written ∧
      (∃ last ∈ b.records, f.file.1 = .chunk last.revision) ∧ f.owner = owner ∧
      f.result = none := by
  unfold Buffer.startFlush at h
  split_ifs at h with hf
  obtain ⟨file, hfile, he⟩ := Option.map_eq_some_iff.mp h
  obtain ⟨rfl, rfl⟩ := Prod.mk.inj he
  obtain ⟨last, hlast, rfl⟩ := Option.map_eq_some_iff.mp hfile
  exact ⟨by simpa using hf, rfl, rfl, rfl, ⟨last, List.mem_of_getLast? hlast, rfl⟩, rfl, rfl⟩

theorem startFlush_eq_none :
    b.startFlush nodeID owner now = none ↔ b.flushing = true ∨ b.records = [] := by
  unfold Buffer.startFlush marshalChunkBatch
  by_cases hf : b.flushing <;> simp [hf]

theorem records_endFlush_ok : (b.endFlush f (.ok ())).records = b.records.drop f.batch.length := rfl

end Netsy.Primary.ChunkBuffer
