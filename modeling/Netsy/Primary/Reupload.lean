import Netsy.Lib.Run
import Netsy.Primary.ChunkBuffer
import Netsy.Primary.WriteRecord

/-! # Uploading the same record again

An upload may reach object storage although its sender sees an error. `writeRecord` then tries a
second time with the same bytes, and `startObjectStorageRecovery` goes on with
`writeRecordIfMissing`; a flush that failed is made again from the same buffer. Each of these later
attempts marshals the file anew, with the time of the call in its header. -/

namespace Netsy.Primary.Reupload

open Proto Lib.ObjectStore Lib.Run Datastore Primary.WriteRecord Primary.ChunkBuffer

/-- What is uploaded: a record by `writeRecord`, or the chunk buffer by `flush`. -/
inductive Job
  | record (record : Record)
  | buffer (records : List Record) (bytes : ℤ)
deriving DecidableEq

/-- The key of the chunk; an empty buffer has none. -/
def Job.key : Job → Option ObjectKey
  | .record r => some (.chunk r.revision)
  | .buffer records _ => records.getLast?.map fun last => .chunk last.revision

/-- The file that the job marshals at a time. -/
def Job.marshal (nodeID : NodeID) (now : Time) : Job → Option (ObjectKey × DataFile)
  | .record r => some (marshalChunk now r nodeID)
  | .buffer records _ => marshalChunkBatch now records nodeID

/-- `flush`: the buffer and the store after the call, and its result. -/
def flush (b : Buffer) (store : ObjectStorage) (nodeID : NodeID) (now : Time) (dv : Delivery)
    (getOk : Bool) : Buffer × ObjectStorage × Except PutError Unit :=
  match b.startFlush nodeID .background now with
  | none => (b, store, .ok ())
  | some (b', f) =>
    let res := putIfAbsent store f.file.1 f.file.2 dv getOk
    (b'.endFlush f res.2, res.1, res.2)

/-- One more attempt: `writeRecordIfMissing`, or a flush of the unchanged buffer. -/
def Job.retry (nodeID : NodeID) (store : ObjectStorage) (now : Time) (dv : Delivery)
    (getOk : Bool) : Job → ObjectStorage × Except PutError Unit
  | .record r => writeRecordIfMissing store now r nodeID dv getOk
  | .buffer records bytes => (flush ⟨records, bytes, false⟩ store nodeID now dv getOk).2

/-- Where the job is. `trying` is within `writeRecord`, with the file that it marshalled; the buffer
has only retries. -/
inductive Phase
  | called
  | trying (file : ObjectKey × DataFile) (retried : Bool)
  | retrying
  | returned
deriving DecidableEq

structure Uploads where
  store : ObjectStorage
  phase : Phase
deriving DecidableEq

def Job.start : Job → Phase
  | .record _ => .called
  | .buffer _ _ => .retrying

inductive Action
  /-- `writeRecord` marshals its file. -/
  | marshal (now : Time)
  /-- One of the two tries of `writeRecord`. -/
  | attempt (dv : Delivery)
  /-- A later attempt. -/
  | retry (now : Time) (dv : Delivery) (getOk : Bool)
  /-- A write that was not answered reaches the store. -/
  | land (i : ℕ)
deriving DecidableEq

inductive UploadError
  | write (e : WriteError)
  | put (e : PutError)
deriving DecidableEq, Repr

/-- An action, and what the call of `writeRecord`, `writeRecordIfMissing` or `flush` that it ends
returns. -/
def perform (nodeID : NodeID) (job : Job) (s : Uploads) :
    Action → Option (Uploads × Option (Except UploadError Unit))
  | .marshal now =>
    match job, s.phase with
    | .record record, .called =>
      some ({ s with phase := .trying (marshalChunk now record nodeID) false }, none)
    | _, _ => none
  | .attempt dv =>
    match s.phase with
    | .trying file retried =>
      match attempt s.store file retried dv with
      | (store, .written) => some (⟨store, .returned⟩, some (.ok ()))
      | (store, .retry) => some (⟨store, .trying file true⟩, none)
      | (store, .failed e) => some (⟨store, .retrying⟩, some (.error (.write e)))
    | _ => none
  | .retry now dv getOk =>
    match s.phase with
    | .retrying =>
      match job.retry nodeID s.store now dv getOk with
      | (store, .ok ()) => some (⟨store, .returned⟩, some (.ok ()))
      | (store, .error e) => some (⟨store, .retrying⟩, some (.error (.put e)))
    | _ => none
  | .land i => (s.store.land i).map fun store => ({ s with store := store }, none)

def step (nodeID : NodeID) (job : Job) (s : Uploads) (a : Action) : Option Uploads :=
  (perform nodeID job s a).map Prod.fst

/-- The store answers every request of the action. -/
def Action.Answered : Action → Prop
  | .attempt dv => dv = .answered
  | .retry _ dv getOk => dv = .answered ∧ getOk = true
  | _ => False

/-- When the action marshals the file that it uploads; a try of `writeRecord` has its file
already. -/
def Action.marshalled : Action → Option Time
  | .retry now _ _ => some now
  | _ => none

/-! ### One attempt -/

variable {nodeID : NodeID} {job : Job} {s s' : Uploads} {a : Action} {store : ObjectStorage}
variable {key : ObjectKey} {file : DataFile} {now time : Time} {dv : Delivery} {getOk : Bool}
variable {as : List Action} {out : Option (Except UploadError Unit)}
variable {res : Except UploadError Unit} {o : ObjectKey × DataFile}

theorem perform_marshal (h : perform nodeID job s (.marshal now) = some (s', out)) :
    ∃ r, job = .record r ∧ s.phase = .called ∧
      s' = { s with phase := .trying (marshalChunk now r nodeID) false } := by
  simp only [perform] at h
  split at h
  · rename_i r hphase
    cases h
    exact ⟨r, rfl, hphase, rfl⟩
  · cases h

/-- A try of `writeRecord` is a create-only write, and a second one may follow the first. -/
theorem perform_attempt (h : perform nodeID job s (.attempt dv) = some (s', out)) :
    ∃ file retried, s.phase = .trying file retried ∧
      s'.store = (s.store.putIfMatch file.1 file.2 dv).1 ∧
      ((s'.phase = .returned ∧ (s.store.putIfMatch file.1 file.2 dv).2 = .ok ∧
          out = some (.ok ())) ∨
        (s'.phase = .trying file true ∧ out = none) ∨
        (s'.phase = .retrying ∧ ∃ e, out = some (.error e))) := by
  simp only [perform] at h
  cases hp : s.phase with
  | trying file retried =>
    refine ⟨file, retried, rfl, ?_⟩
    have hfst : (WriteRecord.attempt s.store file retried dv).1 = _ := attempt_fst
    have hok : (WriteRecord.attempt s.store file retried dv).2 = .written ↔ _ := attempt_written
    rw [← hfst, ← hok]
    rw [hp] at h
    rcases hatt : WriteRecord.attempt s.store file retried dv with ⟨store, _ | _ | e⟩
    · simp only [hatt] at h
      cases h
      exact ⟨rfl, Or.inl ⟨rfl, rfl, rfl⟩⟩
    · simp only [hatt] at h
      cases h
      exact ⟨rfl, Or.inr (Or.inl ⟨rfl, rfl⟩)⟩
    · simp only [hatt] at h
      cases h
      exact ⟨rfl, Or.inr (Or.inr ⟨rfl, .write e, rfl⟩)⟩
  | called => simp [hp] at h
  | retrying => simp [hp] at h
  | returned => simp [hp] at h

theorem perform_retry (h : perform nodeID job s (.retry now dv getOk) = some (s', out)) :
    s.phase = .retrying ∧ s'.store = (job.retry nodeID s.store now dv getOk).1 ∧
      ((s'.phase = .returned ∧ (job.retry nodeID s.store now dv getOk).2 = .ok () ∧
          out = some (.ok ())) ∨
        (s'.phase = .retrying ∧ ∃ e, (job.retry nodeID s.store now dv getOk).2 = .error e ∧
          out = some (.error (.put e)))) := by
  simp only [perform] at h
  cases hp : s.phase with
  | retrying =>
    rw [hp] at h
    rcases hret : job.retry nodeID s.store now dv getOk with ⟨store, e | u⟩
    · simp only [hret] at h
      cases h
      exact ⟨rfl, rfl, Or.inr ⟨rfl, e, rfl, rfl⟩⟩
    · simp only [hret] at h
      cases h
      exact ⟨rfl, rfl, Or.inl ⟨rfl, rfl, rfl⟩⟩
  | called => simp [hp] at h
  | trying file retried => simp [hp] at h
  | returned => simp [hp] at h

/-- The file of a job differs from time to time in the header only. -/
theorem marshal_eq (nodeID : NodeID) (hkey : job.key = some key) :
    ∃ file : Time → DataFile, (∀ now, job.marshal nodeID now = some (key, file now)) ∧
      ∀ now, (file now).createdAt = now := by
  cases job with
  | record record =>
    obtain rfl := Option.some.inj hkey
    exact ⟨fun now => (marshalChunk now record nodeID).2, fun now => rfl, fun now => rfl⟩
  | buffer records bytes =>
    obtain ⟨last, hlast, rfl⟩ := Option.map_eq_some_iff.mp hkey
    exact ⟨fun now => _, fun now => Option.map_eq_some_iff.mpr ⟨last, hlast, rfl⟩, fun now => rfl⟩

theorem retry_eq (h : job.marshal nodeID now = some (key, file)) :
    job.retry nodeID store now dv getOk = putIfAbsent store key file dv getOk := by
  cases job with
  | record record =>
    cases h
    rfl
  | buffer records bytes =>
    have hfile : marshalChunkBatch now records nodeID = some (key, file) := h
    simp only [Job.retry, flush, Buffer.startFlush, hfile]
    rfl

theorem putIfAbsent_of_has (h : store.Has key) :
    (putIfAbsent store key file .answered true).2 = .ok () ↔ (key, file) ∈ store := by
  have hcreate : store.create key file = store := by
    unfold Bucket.create
    rw [dif_pos h]
  unfold putIfAbsent
  simp only [Bucket.putIfMatch, if_pos h, hcreate, Bool.not_true, Bool.false_eq_true, if_false,
    Bucket.get_eq_some]
  split_ifs with hget <;> simp [hget]

/-! ### Who writes the key -/

/-- Everything stored or sent under the key is a file of the job. -/
structure Owned (nodeID : NodeID) (job : Job) (key : ObjectKey) (store : ObjectStorage) : Prop where
  objects : ∀ file, (key, file) ∈ store → ∃ now, job.marshal nodeID now = some (key, file)
  inflight : ∀ file, (key, file) ∈ store.inflight → ∃ now, job.marshal nodeID now = some (key, file)

theorem Owned.putIfMatch (h : Owned nodeID job key store)
    (hfile : job.marshal nodeID now = some (key, file)) :
    Owned nodeID job key (store.putIfMatch key file dv).1 := by
  refine ⟨fun d hd => ?_, fun d hd => ?_⟩
  · rcases Bucket.mem_putIfMatch hd with hd | ⟨hd, -⟩
    · exact h.objects d hd
    · cases hd
      exact ⟨now, hfile⟩
  · rcases Bucket.mem_inflight_putIfMatch hd with hd | hd
    · exact h.inflight d hd
    · cases hd
      exact ⟨now, hfile⟩

theorem Owned.land {i : ℕ} {store' : ObjectStorage} (h : Owned nodeID job key store)
    (hland : store.land i = some store') : Owned nodeID job key store' := by
  obtain ⟨k, d, hmem, hobj, hinf⟩ := Bucket.land_eq_some hland
  refine ⟨fun d' hd' => ?_, fun d' hd' => h.inflight d' (hinf _ hd')⟩
  rcases Bucket.mem_create.mp ((hobj _).mp hd') with hd' | ⟨hd', -⟩
  · exact h.objects d' hd'
  · cases hd'
    exact h.inflight d hmem

/-! ### Runs -/

/-- The invariant: only the job writes the key, and the file of `writeRecord` is the job's. -/
structure Inv (nodeID : NodeID) (job : Job) (key : ObjectKey) (s : Uploads) : Prop where
  owned : Owned nodeID job key s.store
  trying : ∀ file retried, s.phase = .trying file retried →
    ∃ now, job.marshal nodeID now = some file

theorem key_of_marshal (hkey : job.key = some key) (h : job.marshal nodeID now = some o) :
    o.1 = key := by
  obtain ⟨file, hfile, -⟩ := marshal_eq nodeID hkey
  rw [hfile now] at h
  cases h
  rfl

theorem Inv.marshal (h : Inv nodeID job key s)
    (hs : perform nodeID job s (.marshal now) = some (s', out)) : Inv nodeID job key s' := by
  obtain ⟨r, rfl, -, rfl⟩ := perform_marshal hs
  refine ⟨h.owned, fun file retried hphase => ?_⟩
  cases hphase
  exact ⟨now, rfl⟩

theorem Inv.attempt (hkey : job.key = some key) (h : Inv nodeID job key s)
    (hs : perform nodeID job s (.attempt dv) = some (s', out)) : Inv nodeID job key s' := by
  obtain ⟨⟨k, d⟩, retried, hphase, hstore, hnext⟩ := perform_attempt hs
  obtain ⟨now, hnow⟩ := h.trying _ _ hphase
  obtain rfl : k = key := key_of_marshal hkey hnow
  refine ⟨hstore ▸ h.owned.putIfMatch hnow, fun file retried' htrying => ?_⟩
  rcases hnext with ⟨hp, -, -⟩ | ⟨hp, -⟩ | ⟨hp, -⟩
  · rw [hp] at htrying
    cases htrying
  · rw [hp] at htrying
    cases htrying
    exact ⟨now, hnow⟩
  · rw [hp] at htrying
    cases htrying

theorem Inv.retry (hkey : job.key = some key) (h : Inv nodeID job key s)
    (hs : perform nodeID job s (.retry now dv getOk) = some (s', out)) : Inv nodeID job key s' := by
  obtain ⟨-, hstore, hnext⟩ := perform_retry hs
  obtain ⟨file, hfile, -⟩ := marshal_eq nodeID hkey
  rw [retry_eq (hfile now), putIfAbsent_fst] at hstore
  refine ⟨hstore ▸ h.owned.putIfMatch (hfile now), fun file' retried htrying => ?_⟩
  rcases hnext with ⟨hp, -, -⟩ | ⟨hp, -⟩
  · rw [hp] at htrying
    cases htrying
  · rw [hp] at htrying
    cases htrying

theorem Inv.land {i : ℕ} (h : Inv nodeID job key s)
    (hs : perform nodeID job s (.land i) = some (s', out)) : Inv nodeID job key s' := by
  obtain ⟨store', hland, he⟩ := Option.map_eq_some_iff.mp hs
  cases he
  exact ⟨h.owned.land hland, h.trying⟩

theorem Inv.step (hkey : job.key = some key) (h : Inv nodeID job key s)
    (hs : step nodeID job s a = some s') : Inv nodeID job key s' := by
  obtain ⟨⟨s', out⟩, hp, rfl⟩ := Option.map_eq_some_iff.mp hs
  cases a with
  | marshal now => exact h.marshal hp
  | attempt dv => exact h.attempt hkey hp
  | retry now dv getOk => exact h.retry hkey hp
  | land i => exact h.land hp

theorem inv_of_exec (hkey : job.key = some key) (hown : Owned nodeID job key store)
    (hrun : exec (step nodeID job) ⟨store, job.start⟩ as = some s) : Inv nodeID job key s := by
  have hstart : Inv nodeID job key ⟨store, job.start⟩ := by
    refine ⟨hown, fun file retried htrying => ?_⟩
    cases job <;> cases htrying
  exact exec_invariant (fun s a s' h _ hs => h.step hkey hs) hstart
    (meets_of_forall (p := fun _ => True) fun _ _ => trivial) hrun

/-- **An attempt over an object of the job's own** returns nil exactly if it marshals the file at
the time that stands in the header of the stored one; the second try of `writeRecord` never does. -/
theorem reupload_returns_nil_iff (hkey : job.key = some key) (hown : Owned nodeID job key store)
    (hrun : exec (step nodeID job) ⟨store, job.start⟩ as = some s) (hlanded : s.store.Has key)
    (hanswered : a.Answered) (hres : perform nodeID job s a = some (s', some res)) :
    res = .ok () ↔ ∃ file, (key, file) ∈ s.store ∧ a.marshalled = some file.createdAt := by
  have hinv := inv_of_exec hkey hown hrun
  cases a with
  | marshal now => cases hanswered
  | land i => cases hanswered
  | attempt dv =>
    obtain rfl : dv = .answered := hanswered
    refine iff_of_false (fun hok => ?_) (by simp [Action.marshalled])
    obtain ⟨⟨k, d⟩, retried, hphase, -, hnext⟩ := perform_attempt hres
    obtain ⟨now, hnow⟩ := hinv.trying _ _ hphase
    obtain rfl : k = key := key_of_marshal hkey hnow
    rcases hnext with ⟨-, hput, -⟩ | ⟨-, hout⟩ | ⟨-, e, hout⟩
    · exact (Bucket.mem_of_putIfMatch_ok hput).2 hlanded
    · cases hout
    · rw [hok] at hout
      cases hout
  | retry now dv getOk =>
    obtain ⟨rfl, rfl⟩ := hanswered
    obtain ⟨made, hmade, htime⟩ := marshal_eq nodeID hkey
    obtain ⟨-, -, hnext⟩ := perform_retry hres
    have hnil : res = .ok () ↔ (key, made now) ∈ s.store := by
      rw [← putIfAbsent_of_has hlanded, ← retry_eq (hmade now)]
      rcases hnext with ⟨-, hok, hout⟩ | ⟨-, e, herr, hout⟩
      · cases hout
        exact iff_of_true rfl hok
      · cases hout
        rw [herr]
        exact iff_of_false (fun h => by cases h) (fun h => by cases h)
    rw [hnil]
    constructor
    · intro hmem
      exact ⟨made now, hmem, by rw [htime]; rfl⟩
    · rintro ⟨file, hmem, hsame⟩
      -- the stored file is one of the job's own, so its time determines it
      obtain ⟨time, htimed⟩ := hinv.owned.objects file hmem
      rw [hmade time] at htimed
      cases htimed
      rw [htime] at hsame
      cases hsame
      exact hmem

/-- The record of the examples. -/
def oneRecord : Record := { revision := 2, key := [97], createdAt := some 1 }

/-- The first try of `writeRecord` is not answered and lands. -/
def lostAnswer : List Action := [.marshal 5, .attempt .failed, .land 0]

theorem owned_empty : Owned nodeID job key Bucket.empty :=
  ⟨fun _ hf => absurd hf List.not_mem_nil, fun _ hf => absurd hf List.not_mem_nil⟩

/-- Both tries are not answered; a retry at the very time of `writeRecord` returns nil. -/
theorem reupload_returns_nil_same_time :
    ∃ s s', exec (step "n" (.record oneRecord)) ⟨Bucket.empty, .called⟩
        (lostAnswer ++ [.attempt .failed]) = some s ∧
      perform "n" (.record oneRecord) s (.retry 5 .answered true) = some (s', some (.ok ())) := by
  obtain ⟨s, hrun, ⟨⟨k, file⟩, hmem, rfl, htime⟩, hres⟩ := exists_exec_of_any
    (step "n" (.record oneRecord)) ⟨Bucket.empty, .called⟩ (lostAnswer ++ [.attempt .failed])
    (fun s => (∃ o ∈ s.store, o.1 = .chunk 2 ∧ o.2.createdAt = 5) ∧
      ((perform "n" (.record oneRecord) s (.retry 5 .answered true)).bind Prod.snd).isSome)
    (by decide +kernel)
  obtain ⟨res, hres⟩ := Option.isSome_iff_exists.mp hres
  obtain ⟨⟨s', out⟩, hp, rfl⟩ := Option.bind_eq_some_iff.mp hres
  have hanswered : (Action.retry 5 .answered true).Answered := ⟨rfl, rfl⟩
  obtain rfl := (reupload_returns_nil_iff rfl owned_empty hrun (Bucket.has_iff.mpr ⟨file, hmem⟩)
    hanswered hp).mpr ⟨file, hmem, congrArg some htime.symm⟩
  exact ⟨s, s', hrun, hp⟩

/-- After an answer is lost, the second try finds the chunk of the first one, and a retry at a
later time finds different contents. -/
theorem reupload_rejects_own_chunk :
    ∃ s s' s'', exec (step "n" (.record oneRecord)) ⟨Bucket.empty, .called⟩ lostAnswer = some s ∧
      perform "n" (.record oneRecord) s (.attempt .answered) =
        some (s', some (.error (.write .chunkAlreadyExists))) ∧
      perform "n" (.record oneRecord) s' (.retry 6 .answered true) =
        some (s'', some (.error (.put .differentContents))) :=
  ⟨_, _, _, rfl, rfl, rfl⟩

end Netsy.Primary.Reupload
