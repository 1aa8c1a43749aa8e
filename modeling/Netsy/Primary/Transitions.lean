import Netsy.Primary.LeaderTxn

/-! # What each action of the Primary does

One inversion lemma per action, with its guard, and what each action leaves alone (`frame_step`).
The proofs about runs use these and never unfold the machine. -/

namespace Netsy.Primary.Transitions

open Proto NodeState Datastore Lib.ObjectStore LocalDB.Schema
open LocalDB.Insert Primary.ChunkBuffer Primary.ParseTxn
open Primary.Quorum Primary.WriteRecord Primary.LeaderTxn

variable {c : Config} {s s' : Server} {now : Time} {dv : Delivery} {ok getOk txOk : Bool} {i : ℕ}
  {request : TxnRequest} {owner : FlushOwner} {p : PrimaryState}

/-! ### Leaving Active -/

@[simp] theorem primary_setPrimary : (s.setPrimary p).primary = trySetPrimary s.primary p := rfl

theorem drainIfActive_eq (s : Server) : ∃ (q : PrimaryState) (w : List Call),
    s.drainIfActive = { s with primary := q, waiting := w } := by
  unfold Server.drainIfActive
  split_ifs
  · exact ⟨_, _, rfl⟩
  · exact ⟨_, _, rfl⟩

theorem drainIfActive_ne_active : s.drainIfActive.primary ≠ .active := by
  unfold Server.drainIfActive
  split_ifs with h
  · exact trySetPrimary_draining_ne_active _
  · exact h

/-! ### The gate -/

theorem requireActivePrimary_eq_some (h : requireActivePrimary s request = some s') :
    s.primary = .active ∧
      s' = { s with waiting := s.waiting ++ [{ request := request, leftActive := false }] } := by
  unfold requireActivePrimary at h
  split_ifs at h with hp
  exact ⟨hp, (Option.some.inj h).symm⟩

theorem giveUp_eq_some (h : giveUp s i = some s') :
    s' = { s with waiting := s.waiting.eraseIdx i } := by
  unfold giveUp at h
  split_ifs at h
  exact (Option.some.inj h).symm

theorem acquire_eq_some (h : acquire s i = some s') :
    ∃ call, s.gate = none ∧ s.waiting[i]? = some call ∧
      s' = { s with
        waiting := s.waiting.eraseIdx i
        gate := some ⟨s.primary, .acquired call.request⟩ } := by
  unfold acquire at h
  split at h
  · rename_i call hg hc
    exact ⟨call, hg, hc, (Option.some.inj h).symm⟩
  · cases h

theorem revision_newRecord {record : Record} (h : newRecord c s request = .ok record) :
    record.revision = s.nextRevisionID := by
  unfold newRecord at h
  cases hp : parseTxnRequest request with
  | error e => simp [hp, Except.map] at h
  | ok r =>
    simp only [hp, Except.map, Except.ok.injEq] at h
    exact h ▸ rfl

/-- The transaction inserts one row, at the next revision. -/
def TxOk (db : Table) (next : ℤ) (tx : Tx) : Prop :=
  tx.record.revision = next ∧ ∀ r, r ∈ tx.table ↔ r = tx.record ∨ r ∈ db

theorem beginTx_eq_some (h : beginTx c s now txOk = some s') :
    ∃ acquiredIn request, s.gate = some ⟨acquiredIn, .acquired request⟩ ∧
      (s' = s.releaseGate ∨ ∃ tx, TxOk s.db s.nextRevisionID tx ∧
        s' = { s with gate := some ⟨acquiredIn, pathOf c s now tx⟩ }) := by
  unfold beginTx at h
  split at h
  · rename_i acquiredIn request hg
    refine ⟨acquiredIn, request, hg, ?_⟩
    split at h
    · exact Or.inl (Option.some.inj h).symm
    · rename_i record hrec
      split_ifs at h
      · exact Or.inl (Option.some.inj h).symm
      split at h
      · exact Or.inl (Option.some.inj h).symm
      · rename_i table row hins
        refine Or.inr ⟨⟨table, row⟩, ⟨?_, fun _ => mem_insertRecord hins⟩, (Option.some.inj h).symm⟩
        exact (revision_insertRecord hins).trans (revision_newRecord hrec)
  · cases h

/-! ### Path 1 -/

/-- **An attempt at the upload**: it wrote the chunk, it is retried, or it gives the record to the
recovery and leaves Active. -/
theorem upload_eq_some (h : upload s dv = some s') :
    ∃ acquiredIn tx file retried, s.gate = some ⟨acquiredIn, .uploading tx file retried⟩ ∧
      ((s' = { s with
            bucket := (s.bucket.putIfMatch file.1 file.2 dv).1
            gate := some ⟨acquiredIn, .uploaded tx⟩ } ∧
          (s.bucket.putIfMatch file.1 file.2 dv).2 = .ok) ∨
        s' = { s with
            bucket := (s.bucket.putIfMatch file.1 file.2 dv).1
            gate := some ⟨acquiredIn, .uploading tx file true⟩ } ∨
        s' = { s with
            bucket := (s.bucket.putIfMatch file.1 file.2 dv).1
            gate := none
            recoveries := s.recoveries ++ [({ record := tx.record, uploaded := false } : Recovery)]
          : Server }.drainIfActive) := by
  unfold upload at h
  split at h
  · rename_i acquiredIn tx file retried hg
    refine ⟨acquiredIn, tx, file, retried, hg, ?_⟩
    dsimp only at h
    rw [attempt_fst] at h
    split at h
    · rename_i hw
      exact Or.inl ⟨(Option.some.inj h).symm, attempt_written.mp hw⟩
    · exact Or.inr (Or.inl (Option.some.inj h).symm)
    · exact Or.inr (Or.inr (Option.some.inj h).symm)
  · cases h

theorem commitSync_eq_some (h : commitSync s ok = some s') :
    ∃ acquiredIn tx, s.gate = some ⟨acquiredIn, .uploaded tx⟩ ∧
      (s' = { s with
          db := tx.table
          nextRevisionID := s.nextRevisionID + 1
          gate := some ⟨acquiredIn, .syncCommitted tx.record⟩ } ∨
        s' = s.releaseGate.setPrimary .draining) := by
  unfold commitSync at h
  split at h
  · rename_i acquiredIn tx hg
    refine ⟨acquiredIn, tx, hg, ?_⟩
    split_ifs at h
    · exact Or.inl (Option.some.inj h).symm
    · exact Or.inr (Option.some.inj h).symm
  · cases h

/-! ### Path 2 -/

theorem startCollecting_eq_some (h : startCollecting s = some s') :
    ∃ acquiredIn tx required, s.gate = some ⟨acquiredIn, .quorumStart tx required⟩ ∧
      s' = { s with
        peers := { s.peers with
          receiptCollector := some (newReceiptCollector tx.record.revision required) }
        gate := some ⟨acquiredIn, .collecting tx⟩ } := by
  unfold startCollecting at h
  split at h
  · rename_i acquiredIn tx required hg
    exact ⟨acquiredIn, tx, required, hg, (Option.some.inj h).symm⟩
  · cases h

theorem commitQuorum_eq_some (h : commitQuorum s ok = some s') :
    ∃ acquiredIn tx, s.gate = some ⟨acquiredIn, .awaiting tx⟩ ∧ quorumMet s ∧
      ((ok ∧ s' = { s with
          db := tx.table
          nextRevisionID := s.nextRevisionID + 1
          gate := some ⟨acquiredIn, .quorumCommitted tx.record⟩ }) ∨
        (¬ ok ∧ s' = s.finishQuorum)) := by
  unfold commitQuorum at h
  split at h
  · rename_i acquiredIn tx hg
    refine ⟨acquiredIn, tx, hg, ?_⟩
    split_ifs at h with hq hok
    · exact ⟨by simpa using hq, Or.inl ⟨hok, (Option.some.inj h).symm⟩⟩
    · exact ⟨by simpa using hq, Or.inr ⟨hok, (Option.some.inj h).symm⟩⟩
  · cases h

theorem quorumTimeout_eq_some (h : quorumTimeout s = some s') :
    ∃ acquiredIn tx, s.gate = some ⟨acquiredIn, .awaiting tx⟩ ∧
      s' = { s with peers := s.peers.degradeTimedOut }.finishQuorum := by
  unfold quorumTimeout at h
  split at h
  · rename_i acquiredIn tx hg
    exact ⟨acquiredIn, tx, hg, (Option.some.inj h).symm⟩
  · cases h

theorem bufferRecord_eq_some (h : bufferRecord c s = some s') :
    ∃ acquiredIn record, s.gate = some ⟨acquiredIn, .quorumNotified record⟩ ∧
      (s' = { s with
          buffer := s.buffer.append c.size record
          gate := some ⟨acquiredIn, .bufferFull⟩ } ∨
        s' = { s with buffer := s.buffer.append c.size record }.finishQuorum) := by
  unfold bufferRecord at h
  split at h
  · rename_i acquiredIn record hg
    refine ⟨acquiredIn, record, hg, ?_⟩
    dsimp only at h
    split_ifs at h
    · exact Or.inl (Option.some.inj h).symm
    · exact Or.inr (Option.some.inj h).symm
  · cases h

theorem checkFull_eq_some (h : checkFull c s = some s') :
    ∃ acquiredIn, s.gate = some ⟨acquiredIn, .flushFailed⟩ ∧
      (s' = s.finishQuorum ∨ s' = s.finishQuorum.drainIfActive) := by
  unfold checkFull at h
  split at h
  · rename_i acquiredIn hg
    refine ⟨acquiredIn, hg, ?_⟩
    split_ifs at h
    · exact Or.inr (Option.some.inj h).symm
    · exact Or.inl (Option.some.inj h).symm
  · cases h

/-! ### Both paths -/

theorem broadcastRecord_eq_some (h : broadcastRecord s = some s') :
    ∃ acquiredIn,
      (∃ record, s.gate = some ⟨acquiredIn, .syncCommitted record⟩ ∧ s' = { s with
        peers := s.peers.broadcast (.record record)
        gate := some ⟨acquiredIn, .syncBroadcast record⟩ }) ∨
      ∃ tx, s.gate = some ⟨acquiredIn, .collecting tx⟩ ∧ s' = { s with
        peers := s.peers.broadcast (.record tx.record)
        gate := some ⟨acquiredIn, .awaiting tx⟩ } := by
  unfold broadcastRecord at h
  split at h
  · rename_i acquiredIn record hg
    exact ⟨acquiredIn, Or.inl ⟨record, hg, (Option.some.inj h).symm⟩⟩
  · rename_i acquiredIn tx hg
    exact ⟨acquiredIn, Or.inr ⟨tx, hg, (Option.some.inj h).symm⟩⟩
  · cases h

theorem setCommitted_eq_some (h : setCommitted s = some s') :
    ∃ acquiredIn record,
      (s.gate = some ⟨acquiredIn, .syncBroadcast record⟩ ∧ s' = { s with
        committed := record.revision
        gate := some ⟨acquiredIn, .syncAdvanced record⟩ }) ∨
      (s.gate = some ⟨acquiredIn, .quorumCommitted record⟩ ∧ s' = { s with
        committed := record.revision
        gate := some ⟨acquiredIn, .quorumAdvanced record⟩ }) := by
  unfold setCommitted at h
  split at h
  · rename_i acquiredIn record hg
    exact ⟨acquiredIn, record, Or.inl ⟨hg, (Option.some.inj h).symm⟩⟩
  · rename_i acquiredIn record hg
    exact ⟨acquiredIn, record, Or.inr ⟨hg, (Option.some.inj h).symm⟩⟩
  · cases h

theorem broadcastCommit_eq_some (h : broadcastCommit s = some s') :
    ∃ acquiredIn record,
      (s.gate = some ⟨acquiredIn, .syncAdvanced record⟩ ∧ s' = { s with
        peers := s.peers.broadcast (.commit record.revision)
        gate := none }) ∨
      (s.gate = some ⟨acquiredIn, .quorumAdvanced record⟩ ∧ s' = { s with
        peers := s.peers.broadcast (.commit record.revision)
        gate := some ⟨acquiredIn, .quorumNotified record⟩ }) := by
  unfold broadcastCommit at h
  split at h
  · rename_i acquiredIn record hg
    exact ⟨acquiredIn, record, Or.inl ⟨hg, (Option.some.inj h).symm⟩⟩
  · rename_i acquiredIn record hg
    exact ⟨acquiredIn, record, Or.inr ⟨hg, (Option.some.inj h).symm⟩⟩
  · cases h

/-! ### Flushes -/

theorem flushWaits_eq (s : Server) (owner : FlushOwner) : ∃ d,
    s.flushWaits owner = { s with gate := (s.flushWaits owner).gate, drain := d } := by
  cases owner
  · exact ⟨_, rfl⟩
  · exact ⟨_, rfl⟩
  · exact ⟨_, rfl⟩

theorem flushReturns_eq (s : Server) (owner : FlushOwner) (r : Except PutError Unit) : ∃ d ps,
    s.flushReturns owner r = { s with
      gate := (s.flushReturns owner r).gate, drain := d, peers := ps } := by
  cases owner with
  | background => exact ⟨_, _, rfl⟩
  | drain => exact ⟨_, _, rfl⟩
  | txn =>
    cases r with
    | ok u => exact ⟨_, _, rfl⟩
    | error e => exact ⟨_, _, rfl⟩

theorem flush_eq_some (h : flush c s owner now = some s') :
    flushCalled s owner ∧
      ((s.buffer.startFlush c.nodeID owner now = none ∧ s' = s.flushReturns owner (.ok ())) ∨
        ∃ b f, s.buffer.startFlush c.nodeID owner now = some (b, f) ∧
          s' = { s with buffer := b, flush := some f }.flushWaits owner) := by
  unfold flush at h
  split_ifs at h with hc
  refine ⟨by simpa using hc, ?_⟩
  split at h
  · rename_i hn
    exact Or.inl ⟨hn, (Option.some.inj h).symm⟩
  · rename_i b f hs
    exact Or.inr ⟨b, f, hs, (Option.some.inj h).symm⟩

theorem flushPut_eq_some (h : flushPut s dv getOk = some s') :
    ∃ f, s.flush = some f ∧ f.result = none ∧
      s' = { s with
        bucket := (putIfAbsent s.bucket f.file.1 f.file.2 dv getOk).1
        flush := some { f with
          result := some (putIfAbsent s.bucket f.file.1 f.file.2 dv getOk).2 } } := by
  unfold flushPut at h
  split at h
  · rename_i f hf
    split_ifs at h with hr
    exact ⟨f, hf, by simpa using hr, (Option.some.inj h).symm⟩
  · cases h

theorem flushEnd_eq_some (h : flushEnd s = some s') :
    ∃ f r, s.flush = some f ∧ f.result = some r ∧
      s' = { s with buffer := s.buffer.endFlush f r, flush := none }.flushReturns f.owner r := by
  unfold flushEnd at h
  split at h
  · rename_i f hf
    obtain ⟨r, hr, rfl⟩ := Option.map_eq_some_iff.mp h
    exact ⟨f, r, hf, hr, rfl⟩
  · cases h

/-! ### Recovery and drain -/

theorem recoveryPut_eq_some (h : recoveryPut c s i now dv getOk = some s') :
    ∃ r, s.recoveries[i]? = some r ∧ r.uploaded = false ∧
      (((writeRecordIfMissing s.bucket now r.record c.nodeID dv getOk).2 = .ok () ∧
          s' = { s with
            bucket := (writeRecordIfMissing s.bucket now r.record c.nodeID dv getOk).1
            recoveries := s.recoveries.set i { r with uploaded := true } }) ∨
        s' = { s with
          bucket := (writeRecordIfMissing s.bucket now r.record c.nodeID dv getOk).1 }) := by
  unfold recoveryPut at h
  split at h
  · rename_i r hr
    split_ifs at h with hu
    refine ⟨r, hr, by simpa using hu, ?_⟩
    dsimp only at h
    split at h
    · rename_i hok
      exact Or.inl ⟨hok, (Option.some.inj h).symm⟩
    · exact Or.inr (Option.some.inj h).symm
  · cases h

theorem recoveryResign_eq_some (h : recoveryResign s i = some s') :
    ∃ r, s.recoveries[i]? = some r ∧ r.uploaded = true ∧
      s' = { s.setPrimary .replica with recoveries := s.recoveries.eraseIdx i } := by
  unfold recoveryResign at h
  split at h
  · rename_i r hr
    split_ifs at h with hu
    exact ⟨r, hr, hu, (Option.some.inj h).symm⟩
  · cases h

theorem gracefulDrain_eq_some (h : gracefulDrain s = some s') :
    s.drain = none ∧
      ((s.primary = .replica ∧ s' = s) ∨
        ((s.primary = .active ∨ s.primary = .starting) ∧
          s' = { s with drain := some .setDraining }) ∨
        (s.primary = .draining ∧ s' = { s with drain := some .flush })) := by
  unfold gracefulDrain at h
  split_ifs at h with hd
  refine ⟨by simpa using hd, ?_⟩
  cases hp : s.primary <;> simp only [hp, Option.some.injEq] at h <;> simp [h.symm]

theorem drainSet_eq_some (h : drainSet s = some s') :
    s.drain = some .setDraining ∧
      ((validPrimaryTransition s.primary .draining ∧
          s' = { s.setPrimary .draining with drain := some .flush }) ∨
        s' = { s with drain := none }) := by
  unfold drainSet at h
  split_ifs at h with hd hv
  · exact ⟨hd, Or.inl ⟨hv, (Option.some.inj h).symm⟩⟩
  · exact ⟨hd, Or.inr (Option.some.inj h).symm⟩

theorem resignLeadership_eq_some (h : resignLeadership s = some s') :
    s.primary = .draining ∧ s' = { s.setPrimary .replica with peers := s.peers.reset } := by
  unfold resignLeadership at h
  split_ifs at h with hp
  exact ⟨hp, (Option.some.inj h).symm⟩

/-! ### What an action leaves alone -/

variable {a : Action}

/-- The parts of the Primary. -/
inductive Part
  /-- The state of the node and the calls that wait. -/
  | role
  | gate
  /-- The table, the committed revision and the revision counter. -/
  | log
  | peers
  /-- The buffer and its flush. -/
  | flush
  | drain
  /-- The object storage and the recoveries. -/
  | store

/-- The parts that an action may write. -/
def touches : Action → Part → Bool
  | .requireActivePrimary _, .role | .giveUp _, .role => true
  | .acquire _, .role | .acquire _, .gate => true
  | .beginTx _ _, .gate => true
  | .upload _, .gate | .upload _, .role | .upload _, .store => true
  | .commitSync _, .gate | .commitSync _, .log | .commitSync _, .role => true
  | .commitQuorum _, .gate | .commitQuorum _, .log | .commitQuorum _, .peers => true
  | .setCommitted, .gate | .setCommitted, .log => true
  | .startCollecting, .gate | .startCollecting, .peers => true
  | .quorumTimeout, .gate | .quorumTimeout, .peers => true
  | .broadcastRecord, .gate | .broadcastRecord, .peers => true
  | .broadcastCommit, .gate | .broadcastCommit, .peers => true
  | .bufferRecord, .gate | .bufferRecord, .peers | .bufferRecord, .flush => true
  | .checkFull, .gate | .checkFull, .peers | .checkFull, .role => true
  | .flush _ _, .gate | .flush _ _, .peers | .flush _ _, .flush | .flush _ _, .drain => true
  | .flushPut _ _, .flush | .flushPut _ _, .store => true
  | .flushEnd, .gate | .flushEnd, .peers | .flushEnd, .flush | .flushEnd, .drain => true
  | .recoveryPut _ _ _ _, .store | .land _, .store => true
  | .recoveryResign _, .role | .recoveryResign _, .store => true
  | .gracefulDrain, .drain => true
  | .drainSet, .drain | .drainSet, .role => true
  | .resignLeadership, .role | .resignLeadership, .peers => true
  | .peer _, .peers => true
  | _, _ => false

/-- A part that is not written is the same. -/
def Keeps {α : Type} (touched : Bool) (x y : α) : Prop := touched = false → y = x

theorem keeps_rfl {α : Type} {touched : Bool} {x : α} : Keeps touched x x := fun _ => rfl

theorem keeps_touched {α : Type} {x y : α} : Keeps true x y := nofun

structure Frame (a : Action) (s s' : Server) : Prop where
  role : Keeps (touches a .role) (s.primary, s.waiting) (s'.primary, s'.waiting)
  gate : Keeps (touches a .gate) s.gate s'.gate
  log : Keeps (touches a .log) (s.db, s.committed, s.nextRevisionID)
    (s'.db, s'.committed, s'.nextRevisionID)
  peers : Keeps (touches a .peers) s.peers s'.peers
  flush : Keeps (touches a .flush) (s.buffer, s.flush) (s'.buffer, s'.flush)
  drain : Keeps (touches a .drain) s.drain s'.drain
  store : Keeps (touches a .store) (s.bucket, s.recoveries) (s'.bucket, s'.recoveries)

/-- **Every action leaves alone what it does not write.** -/
theorem frame_step (hs : step c s a = some s') : Frame a s s' := by
  cases a with
  | requireActivePrimary request =>
    obtain ⟨-, rfl⟩ := requireActivePrimary_eq_some hs
    exact ⟨keeps_touched, keeps_rfl, keeps_rfl, keeps_rfl, keeps_rfl, keeps_rfl, keeps_rfl⟩
  | giveUp i =>
    obtain rfl := giveUp_eq_some hs
    exact ⟨keeps_touched, keeps_rfl, keeps_rfl, keeps_rfl, keeps_rfl, keeps_rfl, keeps_rfl⟩
  | acquire i =>
    obtain ⟨_, -, -, rfl⟩ := acquire_eq_some hs
    exact ⟨keeps_touched, keeps_touched, keeps_rfl, keeps_rfl, keeps_rfl, keeps_rfl, keeps_rfl⟩
  | beginTx now txOk =>
    obtain ⟨_, _, -, rfl | ⟨_, -, rfl⟩⟩ := beginTx_eq_some hs
    · exact ⟨keeps_rfl, keeps_touched, keeps_rfl, keeps_rfl, keeps_rfl, keeps_rfl, keeps_rfl⟩
    · exact ⟨keeps_rfl, keeps_touched, keeps_rfl, keeps_rfl, keeps_rfl, keeps_rfl, keeps_rfl⟩
  | upload dv =>
    obtain ⟨_, _, _, _, -, ⟨rfl, -⟩ | rfl | rfl⟩ := upload_eq_some hs
    · exact ⟨keeps_rfl, keeps_touched, keeps_rfl, keeps_rfl, keeps_rfl, keeps_rfl, keeps_touched⟩
    · exact ⟨keeps_rfl, keeps_touched, keeps_rfl, keeps_rfl, keeps_rfl, keeps_rfl, keeps_touched⟩
    · obtain ⟨q, w, he⟩ := drainIfActive_eq _
      rw [he]
      exact ⟨keeps_touched, keeps_touched, keeps_rfl, keeps_rfl,
        keeps_rfl, keeps_rfl, keeps_touched⟩
  | commitSync ok =>
    obtain ⟨_, _, -, rfl | rfl⟩ := commitSync_eq_some hs
    · exact ⟨keeps_rfl, keeps_touched, keeps_touched, keeps_rfl, keeps_rfl, keeps_rfl, keeps_rfl⟩
    · exact ⟨keeps_touched, keeps_touched, keeps_rfl, keeps_rfl, keeps_rfl, keeps_rfl, keeps_rfl⟩
  | startCollecting =>
    obtain ⟨_, _, _, -, rfl⟩ := startCollecting_eq_some hs
    exact ⟨keeps_rfl, keeps_touched, keeps_rfl, keeps_touched, keeps_rfl, keeps_rfl, keeps_rfl⟩
  | commitQuorum ok =>
    obtain ⟨_, _, -, -, ⟨-, rfl⟩ | ⟨-, rfl⟩⟩ := commitQuorum_eq_some hs
    · exact ⟨keeps_rfl, keeps_touched, keeps_touched, keeps_rfl, keeps_rfl, keeps_rfl, keeps_rfl⟩
    · exact ⟨keeps_rfl, keeps_touched, keeps_rfl, keeps_touched, keeps_rfl, keeps_rfl, keeps_rfl⟩
  | quorumTimeout =>
    obtain ⟨_, _, -, rfl⟩ := quorumTimeout_eq_some hs
    exact ⟨keeps_rfl, keeps_touched, keeps_rfl, keeps_touched, keeps_rfl, keeps_rfl, keeps_rfl⟩
  | broadcastRecord =>
    obtain ⟨_, ⟨_, -, rfl⟩ | ⟨_, -, rfl⟩⟩ := broadcastRecord_eq_some hs
    · exact ⟨keeps_rfl, keeps_touched, keeps_rfl, keeps_touched, keeps_rfl, keeps_rfl, keeps_rfl⟩
    · exact ⟨keeps_rfl, keeps_touched, keeps_rfl, keeps_touched, keeps_rfl, keeps_rfl, keeps_rfl⟩
  | setCommitted =>
    obtain ⟨_, _, ⟨-, rfl⟩ | ⟨-, rfl⟩⟩ := setCommitted_eq_some hs
    · exact ⟨keeps_rfl, keeps_touched, keeps_touched, keeps_rfl, keeps_rfl, keeps_rfl, keeps_rfl⟩
    · exact ⟨keeps_rfl, keeps_touched, keeps_touched, keeps_rfl, keeps_rfl, keeps_rfl, keeps_rfl⟩
  | broadcastCommit =>
    obtain ⟨_, _, ⟨-, rfl⟩ | ⟨-, rfl⟩⟩ := broadcastCommit_eq_some hs
    · exact ⟨keeps_rfl, keeps_touched, keeps_rfl, keeps_touched, keeps_rfl, keeps_rfl, keeps_rfl⟩
    · exact ⟨keeps_rfl, keeps_touched, keeps_rfl, keeps_touched, keeps_rfl, keeps_rfl, keeps_rfl⟩
  | bufferRecord =>
    obtain ⟨_, _, -, rfl | rfl⟩ := bufferRecord_eq_some hs
    · exact ⟨keeps_rfl, keeps_touched, keeps_rfl, keeps_rfl, keeps_touched, keeps_rfl, keeps_rfl⟩
    · exact ⟨keeps_rfl, keeps_touched, keeps_rfl, keeps_touched,
        keeps_touched, keeps_rfl, keeps_rfl⟩
  | checkFull =>
    obtain ⟨_, -, rfl | rfl⟩ := checkFull_eq_some hs
    · exact ⟨keeps_rfl, keeps_touched, keeps_rfl, keeps_touched, keeps_rfl, keeps_rfl, keeps_rfl⟩
    · obtain ⟨q, w, he⟩ := drainIfActive_eq s.finishQuorum
      rw [he]
      exact ⟨keeps_touched, keeps_touched, keeps_rfl, keeps_touched,
        keeps_rfl, keeps_rfl, keeps_rfl⟩
  | flush owner now =>
    obtain ⟨-, ⟨-, rfl⟩ | ⟨b, f, -, rfl⟩⟩ := flush_eq_some hs
    · obtain ⟨d, ps, he⟩ := flushReturns_eq s owner (.ok ())
      rw [he]
      exact ⟨keeps_rfl, keeps_touched, keeps_rfl, keeps_touched,
        keeps_touched, keeps_touched, keeps_rfl⟩
    · obtain ⟨d, he⟩ := flushWaits_eq { s with buffer := b, flush := some f } owner
      rw [he]
      exact ⟨keeps_rfl, keeps_touched, keeps_rfl, keeps_touched,
        keeps_touched, keeps_touched, keeps_rfl⟩
  | flushPut dv getOk =>
    obtain ⟨_, -, -, rfl⟩ := flushPut_eq_some hs
    exact ⟨keeps_rfl, keeps_rfl, keeps_rfl, keeps_rfl, keeps_touched, keeps_rfl, keeps_touched⟩
  | flushEnd =>
    obtain ⟨f, r, -, -, rfl⟩ := flushEnd_eq_some hs
    obtain ⟨d, ps, he⟩ :=
      flushReturns_eq { s with buffer := s.buffer.endFlush f r, flush := none } f.owner r
    rw [he]
    exact ⟨keeps_rfl, keeps_touched, keeps_rfl, keeps_touched,
      keeps_touched, keeps_touched, keeps_rfl⟩
  | recoveryPut i now dv getOk =>
    obtain ⟨_, -, -, ⟨-, rfl⟩ | rfl⟩ := recoveryPut_eq_some hs
    · exact ⟨keeps_rfl, keeps_rfl, keeps_rfl, keeps_rfl, keeps_rfl, keeps_rfl, keeps_touched⟩
    · exact ⟨keeps_rfl, keeps_rfl, keeps_rfl, keeps_rfl, keeps_rfl, keeps_rfl, keeps_touched⟩
  | recoveryResign i =>
    obtain ⟨_, -, -, rfl⟩ := recoveryResign_eq_some hs
    exact ⟨keeps_touched, keeps_rfl, keeps_rfl, keeps_rfl, keeps_rfl, keeps_rfl, keeps_touched⟩
  | gracefulDrain =>
    obtain ⟨-, ⟨-, rfl⟩ | ⟨-, rfl⟩ | ⟨-, rfl⟩⟩ := gracefulDrain_eq_some hs
    · exact ⟨keeps_rfl, keeps_rfl, keeps_rfl, keeps_rfl, keeps_rfl, keeps_rfl, keeps_rfl⟩
    · exact ⟨keeps_rfl, keeps_rfl, keeps_rfl, keeps_rfl, keeps_rfl, keeps_touched, keeps_rfl⟩
    · exact ⟨keeps_rfl, keeps_rfl, keeps_rfl, keeps_rfl, keeps_rfl, keeps_touched, keeps_rfl⟩
  | drainSet =>
    obtain ⟨-, ⟨-, rfl⟩ | rfl⟩ := drainSet_eq_some hs
    · exact ⟨keeps_touched, keeps_rfl, keeps_rfl, keeps_rfl, keeps_rfl, keeps_touched, keeps_rfl⟩
    · exact ⟨keeps_rfl, keeps_rfl, keeps_rfl, keeps_rfl, keeps_rfl, keeps_touched, keeps_rfl⟩
  | resignLeadership =>
    obtain ⟨-, rfl⟩ := resignLeadership_eq_some hs
    exact ⟨keeps_touched, keeps_rfl, keeps_rfl, keeps_touched, keeps_rfl, keeps_rfl, keeps_rfl⟩
  | land i =>
    obtain ⟨_, -, rfl⟩ := Option.map_eq_some_iff.mp hs
    exact ⟨keeps_rfl, keeps_rfl, keeps_rfl, keeps_rfl, keeps_rfl, keeps_rfl, keeps_touched⟩
  | peer a =>
    obtain ⟨_, -, rfl⟩ := Option.map_eq_some_iff.mp hs
    exact ⟨keeps_rfl, keeps_rfl, keeps_rfl, keeps_touched, keeps_rfl, keeps_rfl, keeps_rfl⟩

theorem Frame.eq_of_aside (h : Frame a s s') (hg : touches a .gate = false)
    (hl : touches a .log = false) (hf : touches a .flush = false)
    (hst : touches a .store = false) :
    s' = { s with
      primary := s'.primary, waiting := s'.waiting, peers := s'.peers, drain := s'.drain } := by
  have hgate := h.gate hg
  have hlog := h.log hl
  have hflush := h.flush hf
  have hstore := h.store hst
  cases s'
  simp only [Prod.mk.injEq] at hgate hlog hflush hstore
  obtain ⟨rfl, rfl, rfl⟩ := hlog
  obtain ⟨rfl, rfl⟩ := hflush
  obtain ⟨rfl, rfl⟩ := hstore
  subst hgate
  rfl

/-! ### The actions of a call -/

/-- The actions of the call at the gate. -/
def ofCall : Action → Bool
  | .beginTx _ _ | .upload _ | .commitSync _ | .startCollecting | .commitQuorum _ | .quorumTimeout
  | .broadcastRecord | .setCommitted | .broadcastCommit | .bufferRecord | .checkFull => true
  | _ => false

/-- What a call at the gate does: it goes on or ends, and does not touch a flush or a drain. -/
structure CallMoves (s s' : Server) : Prop where
  holder : ∃ acquiredIn q, s.gate = some ⟨acquiredIn, q⟩ ∧ q ≠ .flushing ∧
    ∀ k ∈ s'.gate, k.acquiredIn = acquiredIn
  flush : s'.flush = s.flush
  flushing : s'.buffer.flushing = s.buffer.flushing
  drain : s'.drain = s.drain

theorem CallMoves.enter {acquiredIn : PrimaryState} {q q' : Phase}
    (hg : s.gate = some ⟨acquiredIn, q⟩) (hq : q ≠ .flushing)
    (hg' : s'.gate = some ⟨acquiredIn, q'⟩) (hf : s'.flush = s.flush)
    (hb : s'.buffer.flushing = s.buffer.flushing) (hd : s'.drain = s.drain) : CallMoves s s' := by
  refine ⟨⟨acquiredIn, q, hg, hq, fun k hk => ?_⟩, hf, hb, hd⟩
  rw [hg'] at hk
  cases hk
  rfl

theorem CallMoves.release {acquiredIn : PrimaryState} {q : Phase}
    (hg : s.gate = some ⟨acquiredIn, q⟩) (hq : q ≠ .flushing) (hg' : s'.gate = none)
    (hf : s'.flush = s.flush) (hb : s'.buffer.flushing = s.buffer.flushing)
    (hd : s'.drain = s.drain) : CallMoves s s' := by
  refine ⟨⟨acquiredIn, q, hg, hq, fun k hk => ?_⟩, hf, hb, hd⟩
  rw [hg'] at hk
  cases hk

theorem CallMoves.drainIfActive (h : CallMoves s s') : CallMoves s s'.drainIfActive := by
  obtain ⟨q, w, he⟩ := drainIfActive_eq s'
  rw [he]
  exact ⟨h.holder, h.flush, h.flushing, h.drain⟩

/-- **A call acts only while it holds the gate**, and not on a flush or a drain. -/
theorem call_step (ha : ofCall a = true) (hs : step c s a = some s') : CallMoves s s' := by
  cases a with
  | beginTx now txOk =>
    obtain ⟨_, _, hg, rfl | ⟨_, -, rfl⟩⟩ := beginTx_eq_some hs
    · exact .release hg nofun rfl rfl rfl rfl
    · exact .enter hg nofun rfl rfl rfl rfl
  | upload dv =>
    obtain ⟨_, _, _, _, hg, ⟨rfl, -⟩ | rfl | rfl⟩ := upload_eq_some hs
    · exact .enter hg nofun rfl rfl rfl rfl
    · exact .enter hg nofun rfl rfl rfl rfl
    · refine CallMoves.drainIfActive ?_
      exact .release hg nofun rfl rfl rfl rfl
  | commitSync ok =>
    obtain ⟨_, _, hg, rfl | rfl⟩ := commitSync_eq_some hs
    · exact .enter hg nofun rfl rfl rfl rfl
    · exact .release hg nofun rfl rfl rfl rfl
  | startCollecting =>
    obtain ⟨_, _, _, hg, rfl⟩ := startCollecting_eq_some hs
    exact .enter hg nofun rfl rfl rfl rfl
  | commitQuorum ok =>
    obtain ⟨_, _, hg, -, ⟨-, rfl⟩ | ⟨-, rfl⟩⟩ := commitQuorum_eq_some hs
    · exact .enter hg nofun rfl rfl rfl rfl
    · exact .release hg nofun rfl rfl rfl rfl
  | quorumTimeout =>
    obtain ⟨_, _, hg, rfl⟩ := quorumTimeout_eq_some hs
    exact .release hg nofun rfl rfl rfl rfl
  | broadcastRecord =>
    obtain ⟨_, ⟨_, hg, rfl⟩ | ⟨_, hg, rfl⟩⟩ := broadcastRecord_eq_some hs
    · exact .enter hg nofun rfl rfl rfl rfl
    · exact .enter hg nofun rfl rfl rfl rfl
  | setCommitted =>
    obtain ⟨_, _, ⟨hg, rfl⟩ | ⟨hg, rfl⟩⟩ := setCommitted_eq_some hs
    · exact .enter hg nofun rfl rfl rfl rfl
    · exact .enter hg nofun rfl rfl rfl rfl
  | broadcastCommit =>
    obtain ⟨_, _, ⟨hg, rfl⟩ | ⟨hg, rfl⟩⟩ := broadcastCommit_eq_some hs
    · exact .release hg nofun rfl rfl rfl rfl
    · exact .enter hg nofun rfl rfl rfl rfl
  | bufferRecord =>
    obtain ⟨_, _, hg, rfl | rfl⟩ := bufferRecord_eq_some hs
    · exact .enter hg nofun rfl rfl rfl rfl
    · exact .release hg nofun rfl rfl rfl rfl
  | checkFull =>
    obtain ⟨_, hg, rfl | rfl⟩ := checkFull_eq_some hs
    · exact .release hg nofun rfl rfl rfl rfl
    · refine CallMoves.drainIfActive ?_
      exact .release hg nofun rfl rfl rfl rfl
  | _ => cases ha

/-! ### The state of the node -/

theorem primary_drainIfActive : s.drainIfActive.primary = s.primary ∨
    s.drainIfActive.primary = trySetPrimary s.primary .draining := by
  unfold Server.drainIfActive
  split_ifs
  · exact Or.inr rfl
  · exact Or.inl rfl

/-- The actions that give up leadership. -/
def resigns : Action → Bool
  | .recoveryResign _ | .resignLeadership => true
  | _ => false

/-- **The node only ever leaves**: a step sets Draining, or it gives up leadership and sets
Replica, or it does not change the state. -/
theorem primary_step (hs : step c s a = some s') :
    s'.primary = s.primary ∨ s'.primary = trySetPrimary s.primary .draining ∨
      (resigns a = true ∧ s'.primary = trySetPrimary s.primary .replica) := by
  cases a with
  | requireActivePrimary request =>
    obtain ⟨-, rfl⟩ := requireActivePrimary_eq_some hs
    exact Or.inl rfl
  | giveUp i =>
    obtain rfl := giveUp_eq_some hs
    exact Or.inl rfl
  | acquire i =>
    obtain ⟨_, -, -, rfl⟩ := acquire_eq_some hs
    exact Or.inl rfl
  | upload dv =>
    obtain ⟨_, _, _, _, -, ⟨rfl, -⟩ | rfl | rfl⟩ := upload_eq_some hs
    · exact Or.inl rfl
    · exact Or.inl rfl
    · exact primary_drainIfActive.imp_right Or.inl
  | commitSync ok =>
    obtain ⟨_, _, -, rfl | rfl⟩ := commitSync_eq_some hs
    · exact Or.inl rfl
    · exact Or.inr (Or.inl rfl)
  | checkFull =>
    obtain ⟨_, -, rfl | rfl⟩ := checkFull_eq_some hs
    · exact Or.inl rfl
    · exact primary_drainIfActive.imp_right Or.inl
  | recoveryResign i =>
    obtain ⟨_, -, -, rfl⟩ := recoveryResign_eq_some hs
    exact Or.inr (Or.inr ⟨rfl, rfl⟩)
  | drainSet =>
    obtain ⟨-, ⟨-, rfl⟩ | rfl⟩ := drainSet_eq_some hs
    · exact Or.inr (Or.inl rfl)
    · exact Or.inl rfl
  | resignLeadership =>
    obtain ⟨-, rfl⟩ := resignLeadership_eq_some hs
    exact Or.inr (Or.inr ⟨rfl, rfl⟩)
  | _ => exact Or.inl (congrArg Prod.fst ((frame_step hs).role rfl))

theorem primary_ne_active_step (h : s.primary ≠ .active) (hs : step c s a = some s') :
    s'.primary ≠ .active := by
  rcases primary_step hs with he | he | ⟨-, he⟩ <;> rw [he]
  · exact h
  · exact trySetPrimary_ne h (by decide)
  · exact trySetPrimary_ne h (by decide)

end Netsy.Primary.Transitions
