import Netsy.Primary.FlushOwned

/-! # The log as its Replicas see it

What the streams and the receipts depend on in a Primary: its log, how far it is committed, and how
far the call at the gate has brought its record. The two commit paths differ in the order of their
steps; `Step` is the order of either. Every step of the machine is one of these (`log_step`). -/

namespace Netsy.Primary.ReplicatedLog

open Proto LocalDB.Schema Primary.Follow Primary.Quorum
open Primary.LeaderTxn Primary.Transitions Primary.FlushOwned

/-- How far the record of the call at the gate has come. -/
inductive Stage
  | idle
  /-- Inserted on Path 1, and on Path 2. -/
  | inserted (tx : Tx)
  | quorum (tx : Tx) (required : ℕ)
  /-- The collector is set, then the record is sent; both on Path 2. -/
  | collecting (tx : Tx)
  | proposed (tx : Tx)
  /-- Committed and not sent, committed and sent, and `SetCommitted` was called. -/
  | written (record : Record)
  | behind (record : Record)
  | advanced (record : Record)

def stageOf : Phase → Stage
  | .uploading tx _ _ | .uploaded tx => .inserted tx
  | .quorumStart tx required => .quorum tx required
  | .collecting tx => .collecting tx
  | .awaiting tx => .proposed tx
  | .syncCommitted record => .written record
  | .syncBroadcast record | .quorumCommitted record => .behind record
  | .syncAdvanced record | .quorumAdvanced record => .advanced record
  | .acquired _ | .quorumNotified _ | .bufferFull | .flushing | .flushFailed => .idle

@[ext] structure Log where
  db : Table
  committed : ℤ
  next : ℤ
  sessions : List Session
  collector : Option ReceiptCollector
  stage : Stage

def log (s : Server) : Log :=
  { db := s.db, committed := s.committed, next := s.nextRevisionID, sessions := s.peers.sessions,
    collector := s.peers.receiptCollector,
    stage := (s.gate.map fun h => stageOf h.phase).getD .idle }

/-- The call may end here without a commit. -/
def Stage.mayEnd : Stage → Bool
  | .idle | .inserted _ | .proposed _ => true
  | _ => false

/-- What an action of the Primary can do to the log. -/
inductive Step : Action → Log → Log → Prop
  | keep {a l} : Step a l l
  /-- The sessions are closed, or get the revision of a compaction. -/
  | close {a l} : Step a l { l with sessions := l.sessions.map Session.close }
  | compact {a l} (rev : ℤ) :
      Step a l { l with sessions := l.sessions.map fun s => s.enqueue (.compact rev) }
  | drop {a l} (collector : Option ReceiptCollector) (h : l.stage.mayEnd = true) :
      Step a l { l with stage := .idle, collector := collector }
  | insert {now txOk l} {tx : Tx} {stage : Stage} (h : l.stage = .idle) (htx : TxOk l.db l.next tx)
      (hs : stage = .inserted tx ∨ ∃ required, stage = .quorum tx required) :
      Step (.beginTx now txOk) l { l with stage := stage }
  | collect {l} {tx : Tx} {required : ℕ} (h : l.stage = .quorum tx required) :
      Step .startCollecting l { l with
        stage := .collecting tx
        collector := some (newReceiptCollector tx.record.revision required) }
  | commit {a l} {tx : Tx} {stage : Stage}
      (h : (l.stage = .inserted tx ∧ stage = .written tx.record) ∨
        (l.stage = .proposed tx ∧ stage = .behind tx.record)) :
      Step a l { l with db := tx.table, next := l.next + 1, stage := stage }
  | send {l} {record : Record} {stage : Stage}
      (h : (l.stage = .written record ∧ stage = .behind record) ∨
        ∃ tx : Tx, tx.record = record ∧ l.stage = .collecting tx ∧ stage = .proposed tx) :
      Step .broadcastRecord l { l with
        sessions := l.sessions.map fun s => s.enqueue (.record record), stage := stage }
  | advance {a l} {record : Record} (h : l.stage = .behind record) :
      Step a l { l with committed := record.revision, stage := .advanced record }
  | announce {a l} {record : Record} (h : l.stage = .advanced record) :
      Step a l { l with
        sessions := l.sessions.map fun s => s.enqueue (.commit record.revision), stage := .idle }

/-- The actions of the Primary that are on no stream. -/
def offStream : Action → Bool
  | .peer (.follow _ _) | .peer (.unfollow _) | .peer (.send _) | .peer (.recv _ _ _) => false
  | _ => true

variable {c : Config} {s s' : Server} {a : Action} {b : PeerAction} {ps : Peers}

theorem stage_of_gate {acquiredIn : NodeState.PrimaryState} {q : Phase}
    (hg : s.gate = some ⟨acquiredIn, q⟩) : (log s).stage = stageOf q := by
  simp [log, hg]

theorem stage_of_none (hg : s.gate = none) : (log s).stage = .idle := by
  simp [log, hg]

theorem log_drainIfActive (s : Server) : log s.drainIfActive = log s := by
  obtain ⟨q, w, he⟩ := drainIfActive_eq s
  rw [he]
  rfl

theorem Step.of_stage (hd : s'.db = s.db) (hc : s'.committed = s.committed)
    (hn : s'.nextRevisionID = s.nextRevisionID) (hp : s'.peers = s.peers)
    (hst : (log s').stage = (log s).stage) : Step a (log s) (log s') := by
  have he : log s' = log s :=
    Log.ext hd hc hn (congrArg Peers.sessions hp) (congrArg Peers.receiptCollector hp) hst
  rw [he]
  exact .keep

theorem Step.of_frame (h : Frame a s s') (hg : touches a .gate = false)
    (hl : touches a .log = false) (hp : touches a .peers = false) : Step a (log s) (log s') := by
  obtain ⟨hd, hrest⟩ := Prod.mk.inj (h.log hl)
  obtain ⟨hc, hn⟩ := Prod.mk.inj hrest
  have hstage : (log s').stage = (log s).stage := by
    unfold log
    rw [h.gate hg]
  exact .of_stage hd hc hn (h.peers hp) hstage

theorem Step.of_end (hd : s'.db = s.db) (hc : s'.committed = s.committed)
    (hn : s'.nextRevisionID = s.nextRevisionID) (hp : s'.peers.sessions = s.peers.sessions)
    (hg : s'.gate = none) (hst : (log s).stage.mayEnd = true) : Step a (log s) (log s') := by
  have he : log s' = { log s with stage := .idle, collector := (log s').collector } :=
    Log.ext hd hc hn hp rfl (stage_of_none hg)
  rw [he]
  exact .drop _ hst

theorem Step.of_flush {owner : ChunkBuffer.FlushOwner} {r : Except Datastore.PutError Unit}
    (ht : owner = .txn → ∃ acquiredIn q, s.gate = some ⟨acquiredIn, q⟩ ∧
      (q = .bufferFull ∨ q = .flushing)) : Step a (log s) (log (s.flushReturns owner r)) := by
  rcases flushReturns_cases r ht with ⟨d, he⟩ | ⟨acquiredIn, q, hg, hq, he⟩
  · rw [he]
    exact .keep
  · have hidle : (log s).stage = .idle := by
      rw [stage_of_gate hg]
      rcases hq with rfl | rfl <;> rfl
    rcases he with he | he <;> rw [he]
    · exact .of_end rfl rfl rfl rfl rfl (by rw [hidle]; rfl)
    · exact .of_stage rfl rfl rfl rfl hidle.symm

theorem peers_step (ha : offStream (.peer b) = true) (hs : s.peers.act s.primary b = some ps) :
    Step (.peer b) (log s) (log { s with peers := ps }) := by
  cases b with
  | follow nodeID now => cases ha
  | unfollow i => cases ha
  | send i => cases ha
  | recv i now msg => cases ha
  | heartbeat now hb =>
    unfold Peers.act at hs
    split_ifs at hs
    cases hs
    exact .keep
  | checkDegradation deadline now =>
    cases hs
    exact .keep
  | clusterState nodeCount =>
    cases hs
    exact .keep
  | compact rev =>
    cases hs
    exact .compact rev
  | stopServices =>
    cases hs
    exact .close

theorem log_step (h : Owned s) (ha : offStream a = true) (hs : step c s a = some s') :
    Step a (log s) (log s') := by
  cases a with
  | acquire i =>
    obtain ⟨_, hg, -, rfl⟩ := acquire_eq_some hs
    exact .of_stage rfl rfl rfl rfl (stage_of_none hg).symm
  | beginTx now txOk =>
    obtain ⟨_, _, hg, rfl | ⟨tx, htx, rfl⟩⟩ := beginTx_eq_some hs
    · exact .of_end rfl rfl rfl rfl rfl (by rw [stage_of_gate hg]; rfl)
    · refine .insert (stage_of_gate hg) htx ?_
      show stageOf (pathOf c s now tx) = _ ∨ ∃ required, stageOf (pathOf c s now tx) = _
      unfold pathOf
      split_ifs
      · exact Or.inr ⟨_, rfl⟩
      · exact Or.inl rfl
  | upload dv =>
    obtain ⟨_, _, _, _, hg, ⟨rfl, -⟩ | rfl | rfl⟩ := upload_eq_some hs
    · exact .of_stage rfl rfl rfl rfl (stage_of_gate hg).symm
    · exact .of_stage rfl rfl rfl rfl (stage_of_gate hg).symm
    · rw [log_drainIfActive]
      exact .of_end rfl rfl rfl rfl rfl (by rw [stage_of_gate hg]; rfl)
  | commitSync ok =>
    obtain ⟨_, _, hg, rfl | rfl⟩ := commitSync_eq_some hs
    · exact .commit (Or.inl ⟨stage_of_gate hg, rfl⟩)
    · exact .of_end rfl rfl rfl rfl rfl (by rw [stage_of_gate hg]; rfl)
  | startCollecting =>
    obtain ⟨_, _, _, hg, rfl⟩ := startCollecting_eq_some hs
    exact .collect (stage_of_gate hg)
  | commitQuorum ok =>
    obtain ⟨_, _, hg, -, ⟨-, rfl⟩ | ⟨-, rfl⟩⟩ := commitQuorum_eq_some hs
    · exact .commit (Or.inr ⟨stage_of_gate hg, rfl⟩)
    · exact .of_end rfl rfl rfl rfl rfl (by rw [stage_of_gate hg]; rfl)
  | quorumTimeout =>
    obtain ⟨_, _, hg, rfl⟩ := quorumTimeout_eq_some hs
    refine .of_end rfl rfl rfl ?_ rfl (by rw [stage_of_gate hg]; rfl)
    show s.peers.degradeTimedOut.sessions = s.peers.sessions
    unfold Peers.degradeTimedOut
    split <;> rfl
  | broadcastRecord =>
    obtain ⟨_, ⟨_, hg, rfl⟩ | ⟨_, hg, rfl⟩⟩ := broadcastRecord_eq_some hs
    · exact .send (Or.inl ⟨stage_of_gate hg, rfl⟩)
    · exact .send (Or.inr ⟨_, rfl, stage_of_gate hg, rfl⟩)
  | setCommitted =>
    obtain ⟨_, _, ⟨hg, rfl⟩ | ⟨hg, rfl⟩⟩ := setCommitted_eq_some hs
    · exact .advance (stage_of_gate hg)
    · exact .advance (stage_of_gate hg)
  | broadcastCommit =>
    obtain ⟨_, _, ⟨hg, rfl⟩ | ⟨hg, rfl⟩⟩ := broadcastCommit_eq_some hs
    · exact .announce (stage_of_gate hg)
    · exact .announce (stage_of_gate hg)
  | bufferRecord =>
    obtain ⟨_, _, hg, rfl | rfl⟩ := bufferRecord_eq_some hs
    · exact .of_stage rfl rfl rfl rfl (stage_of_gate hg).symm
    · exact .of_end rfl rfl rfl rfl rfl (by rw [stage_of_gate hg]; rfl)
  | checkFull =>
    obtain ⟨_, hg, rfl | rfl⟩ := checkFull_eq_some hs
    · exact .of_end rfl rfl rfl rfl rfl (by rw [stage_of_gate hg]; rfl)
    · rw [log_drainIfActive]
      exact .of_end rfl rfl rfl rfl rfl (by rw [stage_of_gate hg]; rfl)
  | flush owner now =>
    obtain ⟨hc, ⟨-, rfl⟩ | ⟨b, f, -, rfl⟩⟩ := flush_eq_some hs
    · exact .of_flush (exists_gate_of_called hc)
    · have hc' : flushCalled { s with buffer := b, flush := some f } owner := by
        cases owner <;> exact hc
      rcases flushWaits_cases hc' with ⟨d, he⟩ | ⟨_, hg, he⟩ <;> rw [he]
      · exact .keep
      · exact .of_stage rfl rfl rfl rfl (stage_of_gate hg).symm
  | flushEnd =>
    obtain ⟨f, r, hf, -, rfl⟩ := flushEnd_eq_some hs
    exact Step.of_flush (s := { s with buffer := s.buffer.endFlush f r, flush := none })
      (h.exists_gate hf)
  | resignLeadership =>
    obtain ⟨-, rfl⟩ := resignLeadership_eq_some hs
    exact .close
  | peer b =>
    obtain ⟨ps, hp, rfl⟩ := Option.map_eq_some_iff.mp hs
    exact peers_step ha hp
  | _ => exact .of_frame (frame_step hs) rfl rfl rfl

/-! ### The revisions of the log -/

/-- How the revision counter and the committed revision stand at each stage. -/
def StageOk (db : Table) (committed next : ℤ) : Stage → Prop
  | .idle => next = committed + 1
  | .inserted tx | .quorum tx _ | .collecting tx | .proposed tx =>
    next = committed + 1 ∧ TxOk db next tx
  | .written r | .behind r => next = committed + 2 ∧ r ∈ db ∧ r.revision = committed + 1
  | .advanced r => next = committed + 1 ∧ r ∈ db ∧ r.revision = committed

structure Ok (l : Log) : Prop where
  rows : ∀ r ∈ l.db, r.revision < l.next
  stage : StageOk l.db l.committed l.next l.stage

variable {l l' : Log} {tx : Tx}

theorem ok_start (db : Table) (bucket : Datastore.ObjectStorage) (peers : Peers) :
    Ok (log (Server.start db bucket peers)) := by
  refine ⟨fun r hr => ?_, rfl⟩
  have hle : r.revision ≤ db.latestRevision := Table.revision_le_latestRevision hr
  exact Int.lt_add_one_of_le hle

theorem Ok.next_eq_of_mayEnd (h : Ok l) (he : l.stage.mayEnd = true) :
    l.next = l.committed + 1 := by
  have hst := h.stage
  cases hs : l.stage with
  | idle =>
    rw [hs] at hst
    exact hst
  | inserted tx =>
    rw [hs] at hst
    exact hst.1
  | proposed tx =>
    rw [hs] at hst
    exact hst.1
  | _ =>
    rw [hs] at he
    cases he

theorem Ok.commit (h : Ok l) (hst : l.next = l.committed + 1 ∧ TxOk l.db l.next tx) :
    (∀ r ∈ tx.table, r.revision < l.next + 1) ∧ l.next + 1 = l.committed + 2 ∧
      tx.record ∈ tx.table ∧ tx.record.revision = l.committed + 1 := by
  obtain ⟨hn, hrev, htab⟩ := hst
  refine ⟨fun r hr => ?_, by omega, (htab _).mpr (Or.inl rfl), hrev.trans hn⟩
  rcases (htab r).mp hr with rfl | hr
  · omega
  · have := h.rows r hr
    omega

theorem ok_step (h : Ok l) (hs : Step a l l') : Ok l' := by
  have hst := h.stage
  cases hs with
  | keep => exact h
  | close => exact ⟨h.rows, h.stage⟩
  | compact rev => exact ⟨h.rows, h.stage⟩
  | drop collector he => exact ⟨h.rows, h.next_eq_of_mayEnd he⟩
  | insert hl htx hs =>
    rw [hl] at hst
    refine ⟨h.rows, ?_⟩
    rcases hs with rfl | ⟨required, rfl⟩
    · exact ⟨hst, htx⟩
    · exact ⟨hst, htx⟩
  | collect hl =>
    rw [hl] at hst
    exact ⟨h.rows, hst⟩
  | commit hl =>
    rcases hl with ⟨hl, rfl⟩ | ⟨hl, rfl⟩ <;> rw [hl] at hst
    · exact ⟨(h.commit hst).1, (h.commit hst).2⟩
    · exact ⟨(h.commit hst).1, (h.commit hst).2⟩
  | send hl =>
    rcases hl with ⟨hl, rfl⟩ | ⟨tx, rfl, hl, rfl⟩ <;> rw [hl] at hst
    · exact ⟨h.rows, hst⟩
    · exact ⟨h.rows, hst⟩
  | advance hl =>
    rw [hl] at hst
    obtain ⟨hn, hmem, hrev⟩ := hst
    exact ⟨h.rows, by dsimp only; omega, hmem, rfl⟩
  | announce hl =>
    rw [hl] at hst
    exact ⟨h.rows, hst.1⟩

theorem rows_step (h : Ok l) (hs : Step a l l') :
    (∀ r ∈ l.db, r ∈ l'.db) ∧ (∀ r ∈ l'.db, r.revision ≤ l.committed → r ∈ l.db) ∧
      l.committed ≤ l'.committed := by
  have hst := h.stage
  cases hs with
  | @commit _ _ tx stage hl =>
    have htx : l.next = l.committed + 1 ∧ TxOk l.db l.next tx := by
      rcases hl with ⟨hl, -⟩ | ⟨hl, -⟩ <;> rw [hl] at hst <;> exact hst
    obtain ⟨hn, hrev, htab⟩ := htx
    refine ⟨fun r hr => (htab r).mpr (Or.inr hr), fun r hr hle => ?_, le_refl _⟩
    rcases (htab r).mp hr with rfl | hr
    · omega
    · exact hr
  | advance hl =>
    rw [hl] at hst
    obtain ⟨-, -, hrev⟩ := hst
    exact ⟨fun r hr => hr, fun r hr _ => hr, by dsimp only; omega⟩
  | _ => exact ⟨fun r hr => hr, fun r hr _ => hr, le_refl _⟩

/-- The log has a row at every revision up to the committed one. -/
def Full (l : Log) : Prop := ∀ k, 1 ≤ k → k ≤ l.committed → ∃ r ∈ l.db, r.revision = k

theorem full_step (h : Ok l) (hf : Full l) (hs : Step a l l') : Full l' := by
  obtain ⟨hsub, -, -⟩ := rows_step h hs
  have hst := h.stage
  intro k hk hle
  have hold : k ≤ l.committed → ∃ r ∈ l'.db, r.revision = k := by
    intro hle
    obtain ⟨r, hr, he⟩ := hf k hk hle
    exact ⟨r, hsub r hr, he⟩
  cases hs with
  | advance hl =>
    rw [hl] at hst
    rcases eq_or_ne k _ with he | hne
    · exact ⟨_, hst.2.1, he.symm⟩
    · refine hold ?_
      have := hst.2.2
      dsimp only at hle
      omega
  | _ => exact hold hle

end Netsy.Primary.ReplicatedLog
