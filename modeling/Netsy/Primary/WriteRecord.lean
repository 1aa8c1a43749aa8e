import Netsy.Datastore

/-! # Uploading one record

`writeRecord` marshals the record once and tries to create its chunk twice; `writeRecordIfMissing`
marshals it at every call, with the time of the call in the header. -/

namespace Netsy.Primary.WriteRecord

open Proto Datastore Lib.ObjectStore

/-- The errors of `writeRecord`. -/
inductive WriteError
  | chunkAlreadyExists | uploadFailedAfterRetry
deriving DecidableEq, Repr

/-- What one attempt of `writeRecord` leads to. -/
inductive Attempt
  | written
  | retry
  | failed (e : WriteError)
deriving DecidableEq, Repr

/-- One attempt of `writeRecord` at creating the chunk; `retried` is the second one. -/
def attempt (b : ObjectStorage) (file : ObjectKey × DataFile) (retried : Bool) (dv : Delivery) :
    ObjectStorage × Attempt :=
  match b.putIfMatch file.1 file.2 dv with
  | (b', .ok) => (b', .written)
  | (b', .precondition) => (b', if retried then .failed .chunkAlreadyExists else .retry)
  | (b', .failed) => (b', if retried then .failed .uploadFailedAfterRetry else .retry)

def writeRecordIfMissing (b : ObjectStorage) (now : Time) (record : Record) (nodeID : NodeID)
    (dv : Delivery) (getOk : Bool) : ObjectStorage × Except PutError Unit :=
  let file := marshalChunk now record nodeID
  putIfAbsent b file.1 file.2 dv getOk

variable {b : ObjectStorage} {file : ObjectKey × DataFile} {retried getOk : Bool} {dv : Delivery}
  {now : Time} {record : Record} {nodeID : NodeID}

theorem attempt_fst : (attempt b file retried dv).1 = (b.putIfMatch file.1 file.2 dv).1 := by
  unfold attempt
  split <;> simp [*]

theorem attempt_written : (attempt b file retried dv).2 = .written ↔
    (b.putIfMatch file.1 file.2 dv).2 = .ok := by
  unfold attempt
  split
  · simp [*]
  · split_ifs <;> simp [*]
  · split_ifs <;> simp [*]

theorem writeRecordIfMissing_fst :
    (writeRecordIfMissing b now record nodeID dv getOk).1 =
      (b.putIfMatch (.chunk record.revision) (marshalChunk now record nodeID).2 dv).1 :=
  putIfAbsent_fst

theorem mem_of_writeRecordIfMissing_ok
    (h : (writeRecordIfMissing b now record nodeID dv getOk).2 = .ok ()) :
    marshalChunk now record nodeID ∈ (writeRecordIfMissing b now record nodeID dv getOk).1 :=
  mem_of_putIfAbsent_ok h

end Netsy.Primary.WriteRecord
