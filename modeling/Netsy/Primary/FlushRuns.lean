import Netsy.Lib.Run
import Netsy.Primary.ChunkBuffer
import Mathlib.Algebra.BigOperators.Group.List.Basic
import Mathlib.Algebra.GroupWithZero.Nat

/-! # The chunk buffer under any number of flushes

`flush` holds the lock twice: it copies the records and sets `flushing`, and after the upload it
removes as many records from the front. In between other goroutines append and call `flush`. The
machine below has one call of `flush` for every goroutine that got past the first section, and notes
what was appended and which uploads were reported successful. -/

namespace Netsy.Primary.FlushRuns

open Proto Datastore Lib.Run Primary.ChunkBuffer

/-- A call of `flush` past its first section. -/
inductive Call
  /-- `MarshalChunkBatch` runs. -/
  | copied (batch : List Record) (batchBytes : ℤ) (owner : FlushOwner)
  /-- `PutIfAbsent` runs, or has returned. -/
  | marshalled (f : Flush)
deriving DecidableEq

namespace Call

/-- The local `records`. -/
def batch : Call → List Record
  | copied batch _ _ => batch
  | marshalled f => f.batch

def batchBytes : Call → ℤ
  | copied _ batchBytes _ => batchBytes
  | marshalled f => f.batchBytes

/-- The upload is in flight. -/
def uploading : Call → Bool
  | copied _ _ _ => false
  | marshalled f => f.result.isNone

end Call

/-- The first section of `flush`; `none` if it returns nil there. -/
def copyOut (b : Buffer) (owner : FlushOwner) : Option (Buffer × Call) :=
  if b.records = [] ∨ b.flushing then none
  else some ({ b with flushing := true }, .copied b.records b.bytes owner)

/-- The buffer, the calls of `flush`, and what is noted: every record with the size it had when it
was appended, and the flushes whose upload was reported successful. -/
structure Chunks where
  buffer : Buffer
  calls : List Call
  appended : List (Record × ℕ)
  done : List Flush
deriving DecidableEq

def Chunks.init : Chunks := { buffer := .empty, calls := [], appended := [], done := [] }

inductive Action
  /-- The first section of `bufferRecord`. The size is `googlepb.Size` of the record at that moment;
  the writer of a flush puts a checksum on the record later. -/
  | bufferRecord (record : Record) (size : ℕ)
  | flush (owner : FlushOwner)
  | marshal (i : ℕ) (now : Time)
  /-- `MarshalChunkBatch` fails, and the call takes the lock to reset `flushing`. -/
  | marshalFails (i : ℕ)
  /-- `PutIfAbsent` returns. -/
  | upload (i : ℕ) (result : Except PutError Unit)
  /-- The last section of `flush`. -/
  | finish (i : ℕ)

/-- The flushes that were reported successful, with the one that ends. -/
def report (done : List Flush) (f : Flush) : Except PutError Unit → List Flush
  | .ok () => done ++ [f]
  | .error _ => done

def step (nodeID : NodeID) (s : Chunks) : Action → Option Chunks
  | .bufferRecord record size =>
    some { s with
      buffer := s.buffer.append (fun _ => size) record
      appended := s.appended ++ [(record, size)] }
  | .flush owner =>
    match copyOut s.buffer owner with
    | none => some s
    | some (b, call) => some { s with buffer := b, calls := s.calls ++ [call] }
  | .marshal i now =>
    match s.calls[i]? with
    | some (.copied batch batchBytes owner) =>
      (marshalChunkBatch now batch nodeID).map fun file =>
        { s with calls := s.calls.set i (.marshalled ⟨batch, batchBytes, file, owner, none⟩) }
    | _ => none
  | .marshalFails i =>
    match s.calls[i]? with
    | some (.copied _ _ _) =>
      some { s with buffer := { s.buffer with flushing := false }, calls := s.calls.eraseIdx i }
    | _ => none
  | .upload i result =>
    match s.calls[i]? with
    | some (.marshalled f) =>
      if f.result.isSome then none
      else some { s with calls := s.calls.set i (.marshalled { f with result := some result }) }
    | _ => none
  | .finish i =>
    match s.calls[i]? with
    | some (.marshalled f) =>
      f.result.map fun r =>
        { s with
          buffer := s.buffer.endFlush f r
          calls := s.calls.eraseIdx i
          done := report s.done f r }
    | _ => none

variable {nodeID : NodeID} {s s' : Chunks} {a : Action} {b b' : Buffer} {call : Call} {f : Flush}
  {owner : FlushOwner} {now : Time} {as : List Action}

/-! ### The calls of the Primary -/

/-- `startFlush` is the first section of `flush` and a marshalling that succeeds. -/
theorem startFlush_eq_copyOut : b.startFlush nodeID owner now =
    (copyOut b owner).bind fun x => (marshalChunkBatch now x.2.batch nodeID).map fun file =>
      (x.1, ⟨x.2.batch, x.2.batchBytes, file, owner, none⟩) := by
  unfold Buffer.startFlush copyOut
  by_cases hflushing : b.flushing = true
  · simp [hflushing]
  · by_cases hrecords : b.records = []
    · simp [hflushing, hrecords, marshalChunkBatch]
    · simp [hflushing, hrecords, Call.batch, Call.batchBytes]

/-! ### What is kept -/

/-- The records of the flushes that were reported successful. -/
def Chunks.uploaded (s : Chunks) : List Record := s.done.flatMap Flush.batch

/-- The records that were appended and not reported as uploaded, with the sizes they had then. -/
def Chunks.buffered (s : Chunks) : List (Record × ℕ) := s.appended.drop s.uploaded.length

/-- The sum of the sizes. -/
def sizes (l : List (Record × ℕ)) : ℕ := (l.map Prod.snd).sum

/-- The chunk is keyed by the revision of its last record. -/
def Keyed (f : Flush) : Prop :=
  ∃ last, f.batch.getLast? = some last ∧ f.file.1 = .chunk last.revision

/-- What a call of `flush` relies on: the records it copied stand at the front of the buffer. -/
structure Copied (s : Chunks) (call : Call) : Prop where
  front : call.batch <+: s.buffer.records
  bytes : call.batchBytes = sizes (s.buffered.take call.batch.length)
  keyed : ∀ f, call = .marshalled f → Keyed f

/-- **Nothing is lost and nothing is there twice.** -/
structure Conserves (s : Chunks) : Prop where
  parts : s.uploaded ++ s.buffer.records = s.appended.map Prod.fst
  bytes : s.buffer.bytes = sizes s.buffered
  one : s.calls = [] ∧ s.buffer.flushing = false ∨
    ∃ call, s.calls = [call] ∧ s.buffer.flushing = true ∧ Copied s call
  keyed : ∀ f ∈ s.done, Keyed f

theorem conserves_init : Conserves Chunks.init :=
  ⟨rfl, rfl, Or.inl ⟨rfl, rfl⟩, fun _ hf => absurd hf List.not_mem_nil⟩

@[simp] theorem sizes_append (l l' : List (Record × ℕ)) : sizes (l ++ l') = sizes l + sizes l' := by
  simp [sizes]

theorem sizes_take_add_drop (l : List (Record × ℕ)) (n : ℕ) :
    sizes (l.take n) + sizes (l.drop n) = sizes l := by
  rw [← sizes_append, List.take_append_drop]

theorem Conserves.map_buffered (h : Conserves s) : s.buffered.map Prod.fst = s.buffer.records := by
  unfold Chunks.buffered
  rw [List.map_drop, ← h.parts, List.drop_left]

theorem Conserves.length_buffered (h : Conserves s) :
    s.buffered.length = s.buffer.records.length := by
  rw [← h.map_buffered, List.length_map]

theorem Conserves.of_call {i : ℕ} (h : Conserves s) (hi : s.calls[i]? = some call) :
    i = 0 ∧ s.calls = [call] ∧ s.buffer.flushing = true ∧ Copied s call := by
  rcases h.one with ⟨hnone, -⟩ | ⟨only, honly, hflushing, hcopied⟩
  · rw [hnone] at hi
    cases hi
  · rw [honly] at hi
    obtain ⟨hlt, he⟩ := List.getElem?_eq_some_iff.mp hi
    obtain rfl : i = 0 := by simpa using hlt
    obtain rfl : only = call := he
    exact ⟨rfl, honly, hflushing, hcopied⟩

/-! ### One step -/

theorem conserves_bufferRecord (h : Conserves s) (record : Record) (size : ℕ) :
    Conserves { s with
      buffer := s.buffer.append (fun _ => size) record
      appended := s.appended ++ [(record, size)] } := by
  have hle : s.uploaded.length ≤ s.appended.length := by
    have := congrArg List.length h.parts
    simp only [List.length_append, List.length_map] at this
    omega
  have hbuffered : (s.appended ++ [(record, size)]).drop s.uploaded.length =
      s.buffered ++ [(record, size)] := List.drop_append_of_le_length hle
  refine ⟨?_, ?_, ?_, h.keyed⟩
  · change s.uploaded ++ (s.buffer.records ++ [record]) = _
    rw [← List.append_assoc, h.parts, List.map_append]
    rfl
  · change s.buffer.bytes + size = sizes ((s.appended ++ [(record, size)]).drop s.uploaded.length)
    rw [hbuffered, sizes_append, h.bytes]
    simp [sizes]
  · refine h.one.imp id fun ⟨call, hcall, hflushing, hcopied⟩ => ⟨call, hcall, hflushing, ?_⟩
    refine ⟨hcopied.front.trans (List.prefix_append _ _), ?_, hcopied.keyed⟩
    have hshort : call.batch.length ≤ s.buffered.length := by
      rw [h.length_buffered]
      exact hcopied.front.length_le
    change call.batchBytes = sizes
      (((s.appended ++ [(record, size)]).drop s.uploaded.length).take call.batch.length)
    rw [hbuffered, List.take_append_of_le_length hshort]
    exact hcopied.bytes

theorem conserves_finish (h : Conserves s) (hcopied : Copied s (.marshalled f)) :
    Conserves { s with
      buffer := s.buffer.endFlush f (.ok ()), calls := [], done := s.done ++ [f] } := by
  obtain ⟨rest, hrest⟩ := hcopied.front
  have huploaded : (s.done ++ [f]).flatMap Flush.batch = s.uploaded ++ f.batch := by
    simp [Chunks.uploaded, List.flatMap_append]
  have hdrop : s.buffer.records.drop f.batch.length = rest := by
    rw [← hrest]
    exact List.drop_left
  have hbuffered : s.appended.drop (s.uploaded ++ f.batch).length =
      s.buffered.drop f.batch.length := by
    rw [List.length_append, ← List.drop_drop]
    rfl
  refine ⟨?_, ?_, Or.inl ⟨rfl, rfl⟩, ?_⟩
  · change (s.done ++ [f]).flatMap Flush.batch ++ s.buffer.records.drop f.batch.length = _
    rw [huploaded, hdrop, ← h.parts, ← hrest, List.append_assoc]
    rfl
  · change max 0 (s.buffer.bytes - f.batchBytes) =
      sizes (s.appended.drop ((s.done ++ [f]).flatMap Flush.batch).length)
    have hsplit := sizes_take_add_drop s.buffered f.batch.length
    have hbatch : f.batchBytes = sizes (s.buffered.take f.batch.length) := hcopied.bytes
    rw [huploaded, hbuffered, h.bytes, hbatch, ← hsplit]
    omega
  · intro g hg
    rcases List.mem_append.mp hg with hg | hg
    · exact h.keyed g hg
    · rw [List.mem_singleton.mp hg]
      exact hcopied.keyed f rfl

/-- The first section of a flush that goes on: it is the only call, and it has copied the whole
buffer. -/
theorem conserves_copyOut (h : Conserves s) (hcopy : copyOut s.buffer owner = some (b, call)) :
    Conserves { s with buffer := b, calls := s.calls ++ [call] } := by
  unfold copyOut at hcopy
  split_ifs at hcopy with hreturns
  cases hcopy
  obtain ⟨-, hidle⟩ := not_or.mp hreturns
  obtain ⟨hcalls, -⟩ | ⟨_, -, hflushing, -⟩ := h.one
  · refine ⟨h.parts, h.bytes, Or.inr ⟨_, by rw [hcalls]; rfl, rfl, ?_⟩, h.keyed⟩
    refine ⟨List.prefix_rfl, ?_, fun _ h => (nomatch h)⟩
    change s.buffer.bytes = sizes (s.buffered.take s.buffer.records.length)
    rw [← h.length_buffered, List.take_length, h.bytes]
  · exact absurd hflushing hidle

theorem Conserves.goOn {call' : Call} {i : ℕ} (h : Conserves s) (hi : s.calls[i]? = some call)
    (hbatch : call'.batch = call.batch) (hbytes : call'.batchBytes = call.batchBytes)
    (hkeyed : ∀ f, call' = .marshalled f → Keyed f) :
    Conserves { s with calls := s.calls.set i call' } := by
  obtain ⟨rfl, hcalls, hflushing, hcopied⟩ := h.of_call hi
  refine ⟨h.parts, h.bytes, Or.inr ⟨call', by rw [hcalls]; rfl, hflushing, ?_⟩, h.keyed⟩
  refine ⟨?_, ?_, hkeyed⟩
  · rw [hbatch]
    exact hcopied.front
  · rw [hbatch, hbytes]
    exact hcopied.bytes

theorem Conserves.fails {i : ℕ} (h : Conserves s) (hi : s.calls[i]? = some call) :
    Conserves { s with
      buffer := { s.buffer with flushing := false }, calls := s.calls.eraseIdx i } := by
  obtain ⟨rfl, hcalls, -, -⟩ := h.of_call hi
  exact ⟨h.parts, h.bytes, Or.inl ⟨by rw [hcalls]; rfl, rfl⟩, h.keyed⟩

theorem conserves_step (h : Conserves s) (hs : step nodeID s a = some s') : Conserves s' := by
  cases a with
  | bufferRecord record size =>
    cases hs
    exact conserves_bufferRecord h record size
  | flush owner =>
    dsimp only [step] at hs
    split at hs
    · cases hs
      exact h
    · rename_i b call hcopy
      cases hs
      exact conserves_copyOut h hcopy
  | marshal i now =>
    dsimp only [step] at hs
    split at hs
    · rename_i batch batchBytes owner hi
      obtain ⟨file, hfile, rfl⟩ := Option.map_eq_some_iff.mp hs
      obtain ⟨last, hlast, rfl⟩ := Option.map_eq_some_iff.mp hfile
      refine h.goOn hi rfl rfl fun f hf => ?_
      cases hf
      exact ⟨last, hlast, rfl⟩
    · cases hs
  | marshalFails i =>
    dsimp only [step] at hs
    split at hs
    · rename_i batch batchBytes owner hi
      cases hs
      exact h.fails hi
    · cases hs
  | upload i result =>
    dsimp only [step] at hs
    split at hs
    · rename_i f hi
      split_ifs at hs
      cases hs
      refine h.goOn hi rfl rfl fun g hg => ?_
      cases hg
      exact (h.of_call hi).2.2.2.keyed f rfl
    · cases hs
  | finish i =>
    dsimp only [step] at hs
    split at hs
    · rename_i f hi
      obtain ⟨r, -, rfl⟩ := Option.map_eq_some_iff.mp hs
      cases r with
      | ok u =>
        obtain ⟨rfl, hcalls, -, hcopied⟩ := h.of_call hi
        have hnone : s.calls.eraseIdx 0 = [] := by rw [hcalls]; rfl
        rw [hnone]
        exact conserves_finish h hcopied
      | error e => exact h.fails hi
    · cases hs

/-! ### Whole runs -/

/-- **The chunk buffer neither loses nor duplicates.** In every state that any interleaving of
appends and flushes reaches, with any outcomes of the uploads: the batches reported successful, in
their order, and the buffer make up what was appended; at most one upload is in flight; the chunk of
every batch is keyed by its last revision; and the bytes are the sizes that the buffered records had
when they were appended. So what a flush subtracts is never more than that. -/
theorem chunk_buffer_conserves (nodeID : NodeID) (as : List Action) (s : Chunks)
    (h : exec (step nodeID) Chunks.init as = some s) :
    s.done.flatMap Flush.batch ++ s.buffer.records = s.appended.map Prod.fst ∧
      (s.calls.filter Call.uploading).length ≤ 1 ∧
      (∀ f, f ∈ s.done ∨ .marshalled f ∈ s.calls → Keyed f) ∧
      s.buffered.map Prod.fst = s.buffer.records ∧ s.buffer.bytes = sizes s.buffered ∧
      ∀ call ∈ s.calls, 0 ≤ s.buffer.bytes - call.batchBytes := by
  have hs : Conserves s :=
    exec_invariant (fun _ _ _ h _ hs => conserves_step h hs) conserves_init
      (meets_of_forall fun _ _ => trivial) h
  refine ⟨hs.parts, ?_, ?_, hs.map_buffered, hs.bytes, ?_⟩
  · refine (List.length_filter_le _ _).trans ?_
    rcases hs.one with ⟨hcalls, -⟩ | ⟨call, hcalls, -⟩
    · simp [hcalls]
    · simp [hcalls]
  · rintro f (hdone | hmem)
    · exact hs.keyed f hdone
    · obtain ⟨i, hi⟩ := List.mem_iff_getElem?.mp hmem
      exact (hs.of_call hi).2.2.2.keyed f rfl
  · intro call hmem
    obtain ⟨i, hi⟩ := List.mem_iff_getElem?.mp hmem
    have hbatch := (hs.of_call hi).2.2.2.bytes
    have hsplit := sizes_take_add_drop s.buffered call.batch.length
    rw [hs.bytes, hbatch]
    omega

/-- A flush fails, a record is appended while the next one uploads, and a third call returns at
once. -/
def retried : List Action :=
  [.bufferRecord { revision := 2, key := [97] } 5, .flush .txn, .marshal 0 10,
    .upload 0 (.error .upload), .finish 0, .flush .background, .marshal 0 11,
    .bufferRecord { revision := 3, key := [98] } 7, .flush .drain, .upload 0 (.ok ()), .finish 0]

theorem chunk_buffer_conserves_retried :
    ∃ s, exec (step "n1") Chunks.init retried = some s ∧
      s.done.map (fun f => f.file.1) = [.chunk 2] ∧ s.buffer.bytes = 7 ∧
      s.done.flatMap Flush.batch ++ s.buffer.records = s.appended.map Prod.fst := by
  obtain ⟨s, hrun, hdone, hbytes⟩ := exists_exec_of_any (step "n1") Chunks.init retried
    (fun s => s.done.map (fun f => f.file.1) = [.chunk 2] ∧ s.buffer.bytes = 7) (by decide +kernel)
  exact ⟨s, hrun, hdone, hbytes, (chunk_buffer_conserves "n1" retried s hrun).1⟩

end Netsy.Primary.FlushRuns
