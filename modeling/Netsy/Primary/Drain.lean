import Netsy.Primary.DurableLog

/-! # Draining

Every record of the reign is in the store, in the buffer, or with the call that has just committed
it (`Tracked`). When a Primary drains or gives up leadership with no call at the gate or waiting and
no flush under way, it is closed: its buffer is empty and stays so, and it commits nothing more. -/

namespace Netsy.Primary.Drain

open Proto NodeState Lib.Run Lib.ObjectStore LocalDB.Schema
open Datastore Primary.ChunkBuffer Primary.Follow Primary.WriteRecord
open Primary.LeaderTxn Primary.Transitions Primary.FlushOwned

/-! ### Where the records of the reign are -/

/-- Some file of the store holds the row. -/
def Stored (b : ObjectStorage) (row : Record) : Prop := ∃ o ∈ b, written row ∈ o.2.records

instance (b : ObjectStorage) (row : Record) : Decidable (Stored b row) :=
  inferInstanceAs (Decidable (∃ o ∈ b, written row ∈ o.2.records))

/-- The record that the call has committed by a quorum and not yet buffered. -/
def pending : Phase → Option Record
  | .quorumCommitted record | .quorumAdvanced record | .quorumNotified record => some record
  | _ => none

/-- What holds of the call at the gate. -/
def TxPhase (db : Table) (next : ℤ) (b : ObjectStorage) : Phase → Prop
  | .uploading tx file _ => TxOk db next tx ∧ written tx.record ∈ file.2.records
  | .uploaded tx => TxOk db next tx ∧ Stored b tx.record
  | .quorumStart tx _ | .collecting tx | .awaiting tx => TxOk db next tx
  | _ => True

/-- The flush uploads the front of the buffer. -/
structure FlushTracks (b : ObjectStorage) (buffer : List Record) (f : Flush) : Prop where
  batch : f.batch <+: buffer
  file : f.file.2.records = f.batch.map written
  stored : f.result = some (.ok ()) → f.file ∈ b

/-- **Every row from revision `n` on is in the store, in the buffer, or with the call at the
gate.** -/
structure Tracked (n : ℤ) (s : Server) : Prop where
  phase : ∀ h ∈ s.gate, TxPhase s.db s.nextRevisionID s.bucket h.phase
  rows : ∀ row ∈ s.db, n ≤ row.revision →
    Stored s.bucket row ∨ row ∈ s.buffer.records ∨ ∃ h ∈ s.gate, pending h.phase = some row
  flush : ∀ f ∈ s.flush, FlushTracks s.bucket s.buffer.records f

variable {c : Config} {s s' : Server} {a : Action} {n : ℤ} {b b' : ObjectStorage} {row : Record}
  {acquiredIn p : PrimaryState} {q q' : Phase} {f : Flush} {w : List Call} {ps : Peers}
  {d : Option DrainPhase} {cm : ℤ} {dv : Delivery} {tx : Tx} {recs : List Recovery} {i : ℕ}

theorem Stored.grow (h : Stored b row) (hb : ∀ o ∈ b, o ∈ b') : Stored b' row := by
  obtain ⟨o, ho, hr⟩ := h
  exact ⟨o, hb o ho, hr⟩

theorem Tracked.enter (h : Tracked n s) (hg : s.gate = some ⟨acquiredIn, q⟩)
    (hq : TxPhase s.db s.nextRevisionID s.bucket q') (hp : pending q' = pending q) :
    Tracked n { s with gate := some ⟨acquiredIn, q'⟩, peers := ps, committed := cm } := by
  refine ⟨?_, fun row hr hn => ?_, h.flush⟩
  · rintro k ⟨⟩
    exact hq
  · rcases h.rows row hr hn with hs | hb | ⟨k, hk, hp'⟩
    · exact Or.inl hs
    · exact Or.inr (Or.inl hb)
    · rw [hg] at hk
      cases hk
      exact Or.inr (Or.inr ⟨_, rfl, hp.trans hp'⟩)

theorem Tracked.release (h : Tracked n s) (hg : s.gate = some ⟨acquiredIn, q⟩)
    (hp : pending q = none) : Tracked n { s with gate := none, peers := ps } := by
  refine ⟨fun k hk => (by cases hk), fun row hr hn => ?_, h.flush⟩
  rcases h.rows row hr hn with hs | hb | ⟨k, hk, hp'⟩
  · exact Or.inl hs
  · exact Or.inr (Or.inl hb)
  · rw [hg] at hk
    cases hk
    rw [hp] at hp'
    cases hp'

theorem Tracked.leave (h : Tracked n s) :
    Tracked n { s with primary := p, waiting := w, peers := ps, drain := d } :=
  ⟨h.phase, h.rows, h.flush⟩

theorem Tracked.drainIfActive (h : Tracked n s) : Tracked n s.drainIfActive := by
  obtain ⟨p, w, he⟩ := drainIfActive_eq s
  rw [he]
  exact h.leave

theorem Tracked.grow (h : Tracked n s) (hb : ∀ o ∈ s.bucket, o ∈ b) :
    Tracked n { s with bucket := b, recoveries := recs } := by
  refine ⟨fun k hk => ?_, fun row hr hn => ?_, fun f hf => ?_⟩
  · have hq := h.phase k hk
    cases hp : k.phase with
    | uploaded tx =>
      rw [hp] at hq
      exact ⟨hq.1, hq.2.grow hb⟩
    | _ =>
      rw [hp] at hq
      exact hq
  · exact (h.rows row hr hn).imp_left fun hs => hs.grow hb
  · obtain ⟨h1, h2, h3⟩ := h.flush f hf
    exact ⟨h1, h2, fun hr => hb _ (h3 hr)⟩

theorem Tracked.commit (h : Tracked n s) (hg : s.gate = some ⟨acquiredIn, q⟩)
    (hp : pending q = none) (htx : TxOk s.db s.nextRevisionID tx)
    (hq : TxPhase tx.table (s.nextRevisionID + 1) s.bucket q')
    (hrec : Stored s.bucket tx.record ∨ pending q' = some tx.record) :
    Tracked n { s with
      db := tx.table
      nextRevisionID := s.nextRevisionID + 1
      gate := some ⟨acquiredIn, q'⟩ } := by
  refine ⟨?_, fun row hr hn => ?_, h.flush⟩
  · rintro k ⟨⟩
    exact hq
  · rcases (htx.2 row).mp hr with rfl | hr
    · exact hrec.imp_right fun hp' => Or.inr ⟨_, rfl, hp'⟩
    · rcases h.rows row hr hn with hs | hb | ⟨k, hk, hp'⟩
      · exact Or.inl hs
      · exact Or.inr (Or.inl hb)
      · rw [hg] at hk
        cases hk
        rw [hp] at hp'
        cases hp'

theorem Tracked.flushReturns {owner : FlushOwner} {r : Except PutError Unit} (h : Tracked n s)
    (ht : owner = .txn → ∃ acquiredIn q, s.gate = some ⟨acquiredIn, q⟩ ∧
      (q = .bufferFull ∨ q = .flushing)) : Tracked n (s.flushReturns owner r) := by
  rcases flushReturns_cases r ht with ⟨d, he⟩ | ⟨acquiredIn, q, hg, hq, he⟩
  · rw [he]
    exact h.leave
  · have hp : pending q = none := by rcases hq with rfl | rfl <;> rfl
    rcases he with he | he <;> rw [he]
    · exact h.release hg hp
    · exact h.enter hg trivial hp.symm

theorem Tracked.append {record : Record} (h : Tracked n s)
    (hg : s.gate = some ⟨acquiredIn, .quorumNotified record⟩) (size : Record → ℤ)
    {g : Option Holder} (hgate : ∀ k ∈ g, TxPhase s.db s.nextRevisionID s.bucket k.phase) :
    Tracked n { s with buffer := s.buffer.append size record, gate := g, peers := ps } := by
  refine ⟨hgate, fun row hr hn => ?_, fun f hf => ?_⟩
  · rcases h.rows row hr hn with hs | hb | ⟨k, hk, hp⟩
    · exact Or.inl hs
    · exact Or.inr (Or.inl (List.mem_append_left _ hb))
    · rw [hg] at hk
      cases hk
      cases hp
      exact Or.inr (Or.inl (List.mem_append_right _ (List.mem_singleton_self _)))
  · obtain ⟨h1, h2, h3⟩ := h.flush f hf
    exact ⟨h1.trans (List.prefix_append _ _), h2, h3⟩

theorem Tracked.endFlush {r : Except PutError Unit} (h : Tracked n s) (hf : s.flush = some f)
    (hr : f.result = some r) :
    Tracked n { s with buffer := s.buffer.endFlush f r, flush := none } := by
  refine ⟨h.phase, fun row hrow hn => ?_, fun _ hf => (by cases hf)⟩
  rcases h.rows row hrow hn with hs | hb | hp
  · exact Or.inl hs
  · cases r with
    | error e => exact Or.inr (Or.inl hb)
    | ok u =>
      obtain ⟨⟨rest, hrest⟩, hfile, hstored⟩ := h.flush f hf
      rw [← hrest] at hb
      rcases List.mem_append.mp hb with hb | hb
      · refine Or.inl ⟨f.file, hstored hr, ?_⟩
        rw [hfile]
        exact List.mem_map_of_mem hb
      · refine Or.inr (Or.inl ?_)
        rw [records_endFlush_ok, ← hrest, List.drop_left]
        exact hb
  · exact Or.inr (Or.inr hp)

theorem tracked_start {db : Table} {peers : Peers} :
    Tracked (db.latestRevision + 1) (Server.start db b peers) := by
  refine ⟨fun k hk => (by cases hk), fun row hr hn => ?_, fun _ hf => (by cases hf)⟩
  have : row.revision ≤ db.latestRevision := Table.revision_le_latestRevision hr
  omega

theorem tracked_step (ho : Owned s) (h : Tracked n s) (hs : step c s a = some s') :
    Tracked n s' := by
  cases a with
  | acquire i =>
    obtain ⟨call, hg, -, rfl⟩ := acquire_eq_some hs
    refine ⟨?_, fun row hr hn => ?_, h.flush⟩
    · rintro k ⟨⟩
      trivial
    · rcases h.rows row hr hn with hs | hb | ⟨k, hk, -⟩
      · exact Or.inl hs
      · exact Or.inr (Or.inl hb)
      · simp [hg] at hk
  | beginTx now txOk =>
    obtain ⟨_, _, hg, rfl | ⟨tx, htx, rfl⟩⟩ := beginTx_eq_some hs
    · exact h.release hg rfl
    · unfold pathOf
      split_ifs
      · exact h.enter hg htx rfl
      · exact h.enter hg ⟨htx, by simp [marshalChunk]⟩ rfl
  | upload dv =>
    obtain ⟨_, tx, file, _, hg, hcases⟩ := upload_eq_some hs
    obtain ⟨htx, hfile⟩ := h.phase _ hg
    have hgrow : Tracked n { s with bucket := (s.bucket.putIfMatch file.1 file.2 dv).1 } :=
      h.grow fun o ho => Bucket.mem_putIfMatch_of_mem ho
    rcases hcases with ⟨rfl, hok⟩ | rfl | rfl
    · exact hgrow.enter hg ⟨htx, _, (Bucket.mem_of_putIfMatch_ok hok).1, hfile⟩ rfl
    · exact hgrow.enter hg ⟨htx, hfile⟩ rfl
    · refine Tracked.drainIfActive ?_
      exact (h.release hg rfl).grow fun o ho => Bucket.mem_putIfMatch_of_mem ho
  | commitSync ok =>
    obtain ⟨_, tx, hg, rfl | rfl⟩ := commitSync_eq_some hs
    · obtain ⟨htx, hst⟩ := h.phase _ hg
      exact h.commit hg rfl htx trivial (Or.inl hst)
    · exact (h.release hg rfl).leave
  | startCollecting =>
    obtain ⟨_, _, _, hg, rfl⟩ := startCollecting_eq_some hs
    exact h.enter hg (h.phase _ hg) rfl
  | commitQuorum ok =>
    obtain ⟨_, tx, hg, -, ⟨-, rfl⟩ | ⟨-, rfl⟩⟩ := commitQuorum_eq_some hs
    · exact h.commit hg rfl (h.phase _ hg) trivial (Or.inr rfl)
    · exact h.release hg rfl
  | quorumTimeout =>
    obtain ⟨_, _, hg, rfl⟩ := quorumTimeout_eq_some hs
    exact h.release hg rfl
  | broadcastRecord =>
    obtain ⟨_, ⟨_, hg, rfl⟩ | ⟨_, hg, rfl⟩⟩ := broadcastRecord_eq_some hs
    · exact h.enter hg trivial rfl
    · exact h.enter hg (h.phase _ hg) rfl
  | setCommitted =>
    obtain ⟨_, _, ⟨hg, rfl⟩ | ⟨hg, rfl⟩⟩ := setCommitted_eq_some hs
    · exact h.enter hg trivial rfl
    · exact h.enter hg trivial rfl
  | broadcastCommit =>
    obtain ⟨_, _, ⟨hg, rfl⟩ | ⟨hg, rfl⟩⟩ := broadcastCommit_eq_some hs
    · exact h.release hg rfl
    · exact h.enter hg trivial rfl
  | bufferRecord =>
    obtain ⟨_, _, hg, rfl | rfl⟩ := bufferRecord_eq_some hs
    · refine h.append hg c.size ?_
      rintro k ⟨⟩
      trivial
    · exact h.append hg c.size fun k hk => by cases hk
  | checkFull =>
    obtain ⟨_, hg, rfl | rfl⟩ := checkFull_eq_some hs
    · exact h.release hg rfl
    · refine Tracked.drainIfActive ?_
      exact h.release hg rfl
  | flush owner now =>
    obtain ⟨hc, ⟨-, rfl⟩ | ⟨b, f, hb, rfl⟩⟩ := flush_eq_some hs
    · exact h.flushReturns (exists_gate_of_called hc)
    · obtain ⟨-, rfl, hbatch, hfile, -, -, hres⟩ := startFlush_eq_some hb
      have hi : Tracked n
          { s with buffer := { s.buffer with flushing := true }, flush := some f } := by
        refine ⟨h.phase, h.rows, ?_⟩
        rintro _ ⟨⟩
        exact ⟨by rw [hbatch], by rw [hfile, hbatch], by simp [hres]⟩
      rcases flushWaits_cases
        (s := { s with buffer := { s.buffer with flushing := true }, flush := some f }) hc with
        ⟨d, he⟩ | ⟨acquiredIn, hg, he⟩ <;> rw [he]
      · exact hi.leave
      · exact hi.enter hg trivial rfl
  | flushPut dv getOk =>
    obtain ⟨f, hf, -, rfl⟩ := flushPut_eq_some hs
    have hgrow : Tracked n
        { s with bucket := (putIfAbsent s.bucket f.file.1 f.file.2 dv getOk).1 } :=
      h.grow fun o ho => by
        rw [putIfAbsent_fst]
        exact Bucket.mem_putIfMatch_of_mem ho
    refine ⟨hgrow.phase, hgrow.rows, ?_⟩
    rintro _ ⟨⟩
    obtain ⟨h1, h2, -⟩ := h.flush f hf
    exact ⟨h1, h2, fun hok => mem_of_putIfAbsent_ok (Option.some.inj hok)⟩
  | flushEnd =>
    obtain ⟨f, r, hf, hr, rfl⟩ := flushEnd_eq_some hs
    exact (h.endFlush hf hr).flushReturns (ho.exists_gate hf)
  | recoveryPut i now dv getOk =>
    obtain ⟨r, -, -, hcases⟩ := recoveryPut_eq_some hs
    rw [writeRecordIfMissing_fst] at hcases
    rcases hcases with ⟨-, rfl⟩ | rfl
    · exact h.grow fun o ho => Bucket.mem_putIfMatch_of_mem ho
    · exact h.grow fun o ho => Bucket.mem_putIfMatch_of_mem ho
  | recoveryResign i =>
    obtain ⟨r, -, -, rfl⟩ := recoveryResign_eq_some hs
    exact ⟨h.phase, h.rows, h.flush⟩
  | land i =>
    obtain ⟨b, hl, rfl⟩ := Option.map_eq_some_iff.mp hs
    obtain ⟨k, d, -, hobj, -⟩ := Bucket.land_eq_some hl
    exact h.grow fun o ho => (hobj o).mpr (Bucket.mem_create_of_mem ho)
  | _ =>
    rw [(frame_step hs).eq_of_aside rfl rfl rfl rfl]
    exact h.leave

/-! ### Closed -/

/-- The reign is over: nothing is written any more and the buffer is empty. -/
structure Closed (s : Server) : Prop where
  left : s.primary ≠ .active
  gate : s.gate = none
  waiting : s.waiting = []
  buffer : s.buffer.records = []
  flush : s.flush = none

theorem Closed.of_frame (h : Closed s) (hframe : Frame a s s') (hr : touches a .role = false)
    (hg : touches a .gate = false) (hl : touches a .log = false) (hf : touches a .flush = false) :
    Closed s' ∧ s'.db = s.db := by
  obtain ⟨hp, hw⟩ := Prod.mk.inj (hframe.role hr)
  obtain ⟨hb, hf'⟩ := Prod.mk.inj (hframe.flush hf)
  refine ⟨⟨hp ▸ h.left, (hframe.gate hg).trans h.gate, hw.trans h.waiting, ?_, hf'.trans h.flush⟩,
    congrArg Prod.fst (hframe.log hl)⟩
  rw [hb]
  exact h.buffer

theorem closed_step (h : Closed s) (hs : step c s a = some s') : Closed s' ∧ s'.db = s.db := by
  have hleft := primary_ne_active_step h.left hs
  have gate : ∀ {k}, s.gate ≠ some k := by simp [h.gate]
  have flush : ∀ {f}, s.flush ≠ some f := by simp [h.flush]
  by_cases hcall : ofCall a = true
  · obtain ⟨_, _, hk, -⟩ := (call_step hcall hs).holder
    exact absurd hk gate
  cases a with
  | requireActivePrimary request => exact absurd (requireActivePrimary_eq_some hs).1 h.left
  | giveUp i =>
    obtain rfl := giveUp_eq_some hs
    exact ⟨⟨hleft, h.gate, by simp [h.waiting], h.buffer, h.flush⟩, rfl⟩
  | acquire i =>
    obtain ⟨call, -, hc, -⟩ := acquire_eq_some hs
    simp [h.waiting] at hc
  | flush owner now =>
    obtain ⟨hc, ⟨-, rfl⟩ | ⟨b, f, hb, -⟩⟩ := flush_eq_some hs
    · rcases flushReturns_cases (.ok ()) (exists_gate_of_called hc) with ⟨d, he⟩ | ⟨_, _, hg, -⟩
      · rw [he] at hleft ⊢
        exact ⟨⟨hleft, h.gate, h.waiting, h.buffer, h.flush⟩, rfl⟩
      · exact absurd hg gate
    · obtain ⟨-, -, -, -, ⟨last, hlast, -⟩, -⟩ := startFlush_eq_some hb
      simp [h.buffer] at hlast
  | flushPut dv getOk =>
    obtain ⟨f, hf, -⟩ := flushPut_eq_some hs
    exact absurd hf flush
  | flushEnd =>
    obtain ⟨f, r, hf, -⟩ := flushEnd_eq_some hs
    exact absurd hf flush
  | recoveryResign i =>
    obtain ⟨r, -, -, rfl⟩ := recoveryResign_eq_some hs
    exact ⟨⟨hleft, h.gate, by simp [Server.setPrimary, h.waiting], h.buffer, h.flush⟩, rfl⟩
  | drainSet =>
    obtain ⟨-, ⟨-, rfl⟩ | rfl⟩ := drainSet_eq_some hs
    · exact ⟨⟨hleft, h.gate, by simp [Server.setPrimary, h.waiting], h.buffer, h.flush⟩, rfl⟩
    · exact ⟨⟨hleft, h.gate, h.waiting, h.buffer, h.flush⟩, rfl⟩
  | resignLeadership =>
    obtain ⟨-, rfl⟩ := resignLeadership_eq_some hs
    exact ⟨⟨hleft, h.gate, by simp [Server.setPrimary, h.waiting], h.buffer, h.flush⟩, rfl⟩
  | _ =>
    first
    | exact absurd rfl hcall
    | exact h.of_frame (frame_step hs) rfl rfl rfl rfl

theorem closed_run {as : List Action} (h : Closed s) (hrun : exec (step c) s as = some s') :
    Closed s' ∧ s'.db = s.db := by
  induction as generalizing s with
  | nil =>
    cases hrun
    exact ⟨h, rfl⟩
  | cons a as ih =>
    obtain ⟨s1, h1, h2⟩ := exec_cons_eq_some.mp hrun
    obtain ⟨hc, hdb⟩ := closed_step h h1
    obtain ⟨hc', hdb'⟩ := ih hc h2
    exact ⟨hc', hdb'.trans hdb⟩

/-! ### Coming to be closed -/

/-- No call is at the gate or waits for it, and no flush runs. -/
def Quiet (s : Server) : Prop := s.gate = none ∧ s.waiting = [] ∧ s.flush = none

instance (s : Server) : Decidable (Quiet s) := inferInstanceAs (Decidable (_ ∧ _))

/-- The drain calls `flush`, and a Draining node gives up leadership, only when the node is quiet,
and the latter only with an empty buffer. -/
def Settles (s : Server) : Action → Prop
  | .flush .drain _ => Quiet s
  | .recoveryResign _ | .resignLeadership =>
    s.primary = .draining → Quiet s ∧ s.buffer.records = []
  | _ => True

instance (s : Server) : ∀ a, Decidable (Settles s a)
  | .flush owner _ => match owner with
    | .drain => inferInstanceAs (Decidable (Quiet s))
    | .background | .txn => .isTrue trivial
  | .recoveryResign _ | .resignLeadership =>
    inferInstanceAs (Decidable (s.primary = .draining → Quiet s ∧ s.buffer.records = []))
  | .requireActivePrimary _ | .giveUp _ | .acquire _ | .beginTx _ _ | .upload _ | .commitSync _
  | .startCollecting | .commitQuorum _ | .quorumTimeout | .broadcastRecord | .setCommitted
  | .broadcastCommit | .bufferRecord | .checkFull | .flushPut _ _ | .flushEnd
  | .recoveryPut _ _ _ _ | .gracefulDrain | .drainSet | .land _ | .peer _ => .isTrue trivial

/-- The flush of the drain has the whole buffer, and nothing can be added to it. -/
def DrainFlush (s : Server) : Prop :=
  ∀ f ∈ s.flush, f.owner = .drain → s.gate = none ∧ s.waiting = [] ∧ s.buffer.records = f.batch

structure Closing (s : Server) : Prop where
  started : s.primary ≠ .starting
  drained : s.drain = some .flush ∨ s.drain = some .flushing → s.primary ≠ .active
  flush : DrainFlush s
  replica : s.primary = .replica → Closed s

theorem drained_step (h : s.drain = some .flush ∨ s.drain = some .flushing → s.primary ≠ .active)
    (hs : step c s a = some s') :
    s'.drain = some .flush ∨ s'.drain = some .flushing → s'.primary ≠ .active := by
  intro hd
  -- either the drain was already there, or this step leaves Active
  suffices (s.drain = some .flush ∨ s.drain = some .flushing) ∨ s'.primary ≠ .active by
    rcases this with hd' | hne
    · exact primary_ne_active_step (h hd') hs
    · exact hne
  by_cases hcall : ofCall a = true
  · exact Or.inl ((call_step hcall hs).drain ▸ hd)
  cases a with
  | flush owner now =>
    obtain ⟨hc, ⟨-, rfl⟩ | ⟨b, f, -, rfl⟩⟩ := flush_eq_some hs
    · cases owner with
      | drain => simp [Server.flushReturns] at hd
      | background => exact Or.inl hd
      | txn => exact Or.inl hd
    · cases owner with
      | drain => exact Or.inl (Or.inl (by simpa [flushCalled] using hc))
      | background => exact Or.inl hd
      | txn => exact Or.inl hd
  | flushEnd =>
    obtain ⟨f, r, -, -, rfl⟩ := flushEnd_eq_some hs
    cases ho : f.owner with
    | drain => simp [Server.flushReturns, ho] at hd
    | background =>
      simp only [Server.flushReturns, ho] at hd
      exact Or.inl hd
    | txn =>
      cases r with
      | ok u =>
        simp only [Server.flushReturns, ho] at hd
        exact Or.inl hd
      | error e =>
        simp only [Server.flushReturns, ho] at hd
        exact Or.inl hd
  | gracefulDrain =>
    obtain ⟨-, ⟨-, rfl⟩ | ⟨-, rfl⟩ | ⟨hp, rfl⟩⟩ := gracefulDrain_eq_some hs
    · exact Or.inl hd
    · simp at hd
    · exact Or.inr (by simp [hp])
  | drainSet =>
    obtain ⟨-, ⟨-, rfl⟩ | rfl⟩ := drainSet_eq_some hs
    · exact Or.inr (trySetPrimary_draining_ne_active _)
    · simp at hd
  | _ =>
    first
    | exact absurd rfl hcall
    | exact Or.inl ((frame_step hs).drain rfl ▸ hd)

theorem DrainFlush.of_frame (h : DrainFlush s) (hframe : Frame a s s')
    (hr : touches a .role = false) (hg : touches a .gate = false) (hf : touches a .flush = false) :
    DrainFlush s' := by
  obtain ⟨-, hw⟩ := Prod.mk.inj (hframe.role hr)
  obtain ⟨hb, hf'⟩ := Prod.mk.inj (hframe.flush hf)
  unfold DrainFlush
  rw [hw, hb, hf', hframe.gate hg]
  exact h

theorem drainFlush_step (ho : Owned s) (h : Closing s) (hok : Settles s a)
    (hs : step c s a = some s') : DrainFlush s' := by
  intro f hf hd
  by_cases hcall : ofCall a = true
  · -- a call at the gate excludes the flush of the drain
    obtain ⟨⟨_, _, hk, -⟩, hflush, -, -⟩ := call_step hcall hs
    have := (h.flush f (hflush ▸ hf) hd).1
    simp [this] at hk
  cases a with
  | requireActivePrimary request =>
    obtain ⟨hp, rfl⟩ := requireActivePrimary_eq_some hs
    exact absurd hp (h.drained (Or.inr (ho.drain f hf hd)))
  | giveUp i =>
    obtain rfl := giveUp_eq_some hs
    obtain ⟨hg, hw, hb⟩ := h.flush f hf hd
    exact ⟨hg, by simp [hw], hb⟩
  | acquire i =>
    obtain ⟨call, -, hc, rfl⟩ := acquire_eq_some hs
    have := (h.flush f hf hd).2.1
    simp [this] at hc
  | flush owner now =>
    obtain ⟨hc, ⟨-, rfl⟩ | ⟨b, f', hb, rfl⟩⟩ := flush_eq_some hs
    · cases owner with
      | txn =>
        obtain ⟨acquiredIn, hg⟩ := exists_bufferFull hc
        have := (h.flush f hf hd).1
        simp [this] at hg
      | background => exact h.flush f hf hd
      | drain => exact h.flush f hf hd
    · obtain ⟨-, rfl, hbatch, -, -, hown, -⟩ := startFlush_eq_some hb
      cases owner with
      | txn =>
        cases hf
        rw [hown] at hd
        cases hd
      | background =>
        cases hf
        rw [hown] at hd
        cases hd
      | drain =>
        cases hf
        exact ⟨hok.1, hok.2.1, hbatch.symm⟩
  | flushPut dv getOk =>
    obtain ⟨f', hf', -, rfl⟩ := flushPut_eq_some hs
    cases hf
    exact h.flush f' hf' hd
  | flushEnd =>
    obtain ⟨f', r, -, -, rfl⟩ := flushEnd_eq_some hs
    obtain ⟨d, ps, he⟩ :=
      flushReturns_eq { s with buffer := s.buffer.endFlush f' r, flush := none } f'.owner r
    rw [he] at hf
    cases hf
  | recoveryResign i =>
    obtain ⟨r, -, -, rfl⟩ := recoveryResign_eq_some hs
    obtain ⟨hg, hw, hb⟩ := h.flush f hf hd
    exact ⟨hg, by simp [Server.setPrimary, hw], hb⟩
  | drainSet =>
    obtain ⟨-, ⟨-, rfl⟩ | rfl⟩ := drainSet_eq_some hs
    · obtain ⟨hg, hw, hb⟩ := h.flush f hf hd
      exact ⟨hg, by simp [Server.setPrimary, hw], hb⟩
    · exact h.flush f hf hd
  | resignLeadership =>
    obtain ⟨-, rfl⟩ := resignLeadership_eq_some hs
    obtain ⟨hg, hw, hb⟩ := h.flush f hf hd
    exact ⟨hg, by simp [Server.setPrimary, hw], hb⟩
  | _ =>
    first
    | exact absurd rfl hcall
    | exact h.flush.of_frame (frame_step hs) rfl rfl rfl f hf hd

theorem closed_of_resigns (hr : resigns a = true) (hp : s.primary = .draining)
    (hq : Quiet s) (hb : s.buffer.records = []) (hs : step c s a = some s') : Closed s' := by
  have hleft := primary_ne_active_step (by simp [hp]) hs
  obtain ⟨hg, hw, hf⟩ := hq
  cases a with
  | recoveryResign i =>
    obtain ⟨r, -, -, rfl⟩ := recoveryResign_eq_some hs
    exact ⟨hleft, hg, by simp [Server.setPrimary, hw], hb, hf⟩
  | resignLeadership =>
    obtain ⟨-, rfl⟩ := resignLeadership_eq_some hs
    exact ⟨hleft, hg, by simp [Server.setPrimary, hw], hb, hf⟩
  | _ => cases hr

theorem settles_of_resigns (hr : resigns a = true) (hok : Settles s a)
    (hp : s.primary = .draining) : Quiet s ∧ s.buffer.records = [] := by
  cases a with
  | recoveryResign i => exact hok hp
  | resignLeadership => exact hok hp
  | _ => cases hr

theorem closing_step (ho : Owned s) (h : Closing s) (hok : Settles s a)
    (hs : step c s a = some s') : Closing s' := by
  refine ⟨?_, drained_step h.drained hs, drainFlush_step ho h hok hs, fun hrep => ?_⟩
  · rcases primary_step hs with he | he | ⟨-, he⟩ <;> rw [he]
    · exact h.started
    · exact trySetPrimary_ne h.started (by decide)
    · exact trySetPrimary_ne h.started (by decide)
  · by_cases hr : s.primary = .replica
    · exact (closed_step (h.replica hr) hs).1
    rcases primary_step hs with he | he | ⟨hres, he⟩
    · exact absurd (he ▸ hrep) hr
    · exact absurd (he ▸ hrep) (trySetPrimary_ne hr (by decide))
    · -- of the other states only Draining leads to Replica
      have hp : s.primary = .draining := by
        have hst := h.started
        rw [he] at hrep
        cases hp : s.primary with
        | draining => rfl
        | starting => exact absurd hp hst
        | replica => exact absurd hp hr
        | active => simp [hp, trySetPrimary, setPrimary, validPrimaryTransition,
            validPrimaryTransitions] at hrep
      obtain ⟨hq, hb⟩ := settles_of_resigns hres hok hp
      exact closed_of_resigns hres hp hq hb hs

theorem closing_start {db : Table} {peers : Peers} : Closing (Server.start db b peers) :=
  ⟨by simp [Server.start], by simp [Server.start], by simp [DrainFlush, Server.start],
    by simp [Server.start]⟩

/-- `GracefulDrain` returns nil, or the node moves from Draining to Replica. -/
def Leaves (c : Config) (s s' : Server) : Action → Prop
  | .gracefulDrain => s.primary = .replica
  | .flush .drain now => s.buffer.startFlush c.nodeID .drain now = none
  | .flushEnd => ∃ f, s.flush = some f ∧ f.owner = .drain ∧ f.result = some (.ok ())
  | .recoveryResign _ | .resignLeadership => s.primary = .draining ∧ s'.primary = .replica
  | _ => False

theorem closed_of_leaves (ho : Owned s) (h : Closing s) (hok : Settles s a)
    (hs : step c s a = some s') (hl : Leaves c s s' a) : Closed s' := by
  cases a with
  | gracefulDrain => exact (closed_step (h.replica hl) hs).1
  | recoveryResign i =>
    obtain ⟨hq, hb⟩ := hok hl.1
    exact closed_of_resigns rfl hl.1 hq hb hs
  | resignLeadership =>
    obtain ⟨hq, hb⟩ := hok hl.1
    exact closed_of_resigns rfl hl.1 hq hb hs
  | flush owner now =>
    cases owner with
    | background => exact absurd hl id
    | txn => exact absurd hl id
    | drain =>
      obtain ⟨hc, -⟩ := flush_eq_some hs
      obtain ⟨hg, hw, hf⟩ := hok
      have hleft := h.drained (Or.inl (by simpa [flushCalled] using hc))
      -- no flush runs, so the call returned because the buffer is empty
      have hb : s.buffer.records = [] := by
        rcases startFlush_eq_none.mp hl with hb | hb
        · rw [ho.flushing, hf] at hb
          cases hb
        · exact hb
      exact (closed_step ⟨hleft, hg, hw, hb, hf⟩ hs).1
  | flushEnd =>
    obtain ⟨f, hf, hown, hres⟩ := hl
    have hleft := h.drained (Or.inr (ho.drain f hf hown))
    obtain ⟨hg, hw, hb⟩ := h.flush f hf hown
    obtain ⟨f', r, hf', hr, rfl⟩ := flushEnd_eq_some hs
    obtain rfl : f = f' := Option.some.inj (hf.symm.trans hf')
    obtain rfl : r = .ok () := Option.some.inj (hr.symm.trans hres)
    rw [hown]
    refine ⟨hleft, hg, hw, ?_, rfl⟩
    change s.buffer.records.drop f.batch.length = []
    rw [hb]
    exact List.drop_length
  | _ => exact absurd hl id

/-- **Draining loses nothing**: from the moment `GracefulDrain` returns nil or the node gives up
leadership, the buffer is empty, no flush runs, and every record of the reign, whenever it is
committed, was in the store at that moment. This holds in every run in which the drain calls
`flush`, and a Draining node gives up leadership, only when the node is quiet. -/
theorem drained_loses_nothing {db : Table} {peers : Peers} {as bs : List Action}
    {s1 s2 s3 : Server}
    (hok : Meets (step c) Settles (Server.start db b peers) (as ++ [a]))
    (h1 : exec (step c) (Server.start db b peers) as = some s1)
    (h2 : step c s1 a = some s2) (hl : Leaves c s1 s2 a) (h3 : exec (step c) s2 bs = some s3) :
    (∀ row ∈ s3.db, db.latestRevision < row.revision → Stored s2.bucket row) ∧
      s3.buffer.records = [] ∧ s3.flush = none := by
  obtain ⟨hok1, hok2⟩ := meets_append hok h1
  have hinv : Owned s1 ∧ Closing s1 ∧ Tracked (db.latestRevision + 1) s1 :=
    exec_invariant (I := fun s => Owned s ∧ Closing s ∧ Tracked (db.latestRevision + 1) s)
      (fun _ _ _ hi hok hs => ⟨owned_step hi.1 hs, closing_step hi.1 hi.2.1 hok hs,
        tracked_step hi.1 hi.2.2 hs⟩)
      ⟨owned_start, closing_start, tracked_start⟩ hok1 h1
  obtain ⟨ho, hc, ht⟩ := hinv
  have hclosed := closed_of_leaves ho hc hok2.1 h2 hl
  have htracked := tracked_step ho ht h2
  obtain ⟨hclosed3, hdb⟩ := closed_run hclosed h3
  refine ⟨fun row hrow hlt => ?_, hclosed3.buffer, hclosed3.flush⟩
  rw [hdb] at hrow
  rcases htracked.rows row hrow (by omega) with hst | hb | ⟨k, hk, -⟩
  · exact hst
  · simp [hclosed.buffer] at hb
  · simp [hclosed.gate] at hk

/-- `GracefulDrain` of a quiet Primary, up to the end of its flush. -/
def quietDrain : List Action :=
  DurableLog.buffered ++
    [.gracefulDrain, .drainSet, .flush .drain 20, .flushPut .answered true]

theorem drained_loses_nothing_quiet :
    ∃ s1 s2, exec (step DurableLog.oneReceipt) Gate.fresh quietDrain = some s1 ∧
      step DurableLog.oneReceipt s1 .flushEnd = some s2 ∧ (∃ row ∈ s2.db, row.revision = 3) ∧
      (∀ row ∈ s2.db, 1 < row.revision → Stored s2.bucket row) ∧
      s2.buffer.records = [] ∧ s2.flush = none := by
  have hok : Meets (step DurableLog.oneReceipt) Settles Gate.fresh (quietDrain ++ [.flushEnd]) := by
    decide
  refine ⟨_, _, rfl, rfl, by decide, ?_⟩
  exact drained_loses_nothing (a := .flushEnd) hok rfl rfl ⟨_, rfl, rfl, rfl⟩ exec_nil

/-- **`GracefulDrain` returns nil while another flush runs.** The loop flushes the buffer, the
drain's own call of `flush` returns at once, and then the upload of the loop fails: the record
committed at revision 3 is not in the store. -/
theorem drain_returns_during_flush :
    ∃ s1 s2 s3, exec (step DurableLog.oneReceipt) Gate.fresh
        (DurableLog.buffered ++ [.flush .background 20, .gracefulDrain, .drainSet]) = some s1 ∧
      step DurableLog.oneReceipt s1 (.flush .drain 21) = some s2 ∧
      Leaves DurableLog.oneReceipt s1 s2 (.flush .drain 21) ∧
      exec (step DurableLog.oneReceipt) s2 [.flushPut .failed true, .flushEnd] = some s3 ∧
      s2.flush ≠ none ∧ s3.buffer.records ≠ [] ∧
      ∃ row ∈ s3.db, row.revision = 3 ∧ ¬ Stored s3.bucket row := by
  refine ⟨_, _, _, rfl, rfl, rfl, rfl, ?_, ?_, ?_⟩
  · decide
  · decide
  · decide

end Netsy.Primary.Drain
