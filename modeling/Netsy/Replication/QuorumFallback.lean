import Netsy.Replication.EligibleReceipts

/-! # Falling back to object storage

A quorum transaction that times out degrades the Replicas that count toward a quorum and did not
receipt it. What is left to count are the senders of its Receipts, and they were too few. So the
next transaction takes Path 1, unless a Replica reports in between. -/

namespace Netsy.Replication.QuorumFallback

open Proto NodeState Lib.Run Primary.Follow Primary.Quorum Primary.ReplicaTracker Primary.LeaderTxn
open Primary.Transitions Replication.EligibleReceipts
open Datastore (marshalChunk)
open Primary.DurableLog (oneReceipt receipt)

/-- The senders of the Receipts for the revision that the action processes. -/
def sendersOf (revision : ℤ) (p : Peers) (a : Action) : Finset NodeID :=
  match receiptOf p a with
  | some r => if r.revision = revision then {r.nodeID} else ∅
  | none => ∅

/-- The senders of the Receipts for the revision that a run processes. -/
def receiptSenders (c : Config) (revision : ℤ) : Server → List Action → Finset NodeID
  | _, [] => ∅
  | s, a :: as =>
    sendersOf revision s.peers a ∪
      match step c s a with
      | some s' => receiptSenders c revision s' as
      | none => ∅

/-- The action selects the path of a transaction. -/
def beginsTx : Action → Bool
  | .beginTx _ _ => true
  | _ => false

/-- The action processes a Receipt or a heartbeat. -/
def reports : Action → Bool
  | .peer (.recv _ _ _) | .peer (.heartbeat _ _) => true
  | _ => false

variable {c : Config} {s s' : Server} {a : Action} {as : List Action} {p p' : Peers}
  {A B : Finset NodeID} {required : ℕ} {revision : ℤ} {k : ReceiptCollector} {m : Replicas}

/-! ### Waiting for the Receipts -/

/-- The collector of the transaction: it wants the number of Receipts that was selected, and has
counted senders from `A` only. -/
structure Collected (required : ℕ) (revision : ℤ) (A : Finset NodeID) (k : ReceiptCollector) :
    Prop where
  required_eq : k.required = required
  revision_eq : k.revision = revision
  acked : k.acked ⊆ A

/-- The gate is held by no quorum transaction that waits, or by the one of the revision. -/
structure Waits (required : ℕ) (revision : ℤ) (A : Finset NodeID) (s : Server) : Prop where
  start : ∀ h ∈ s.gate, ∀ tx r, h.phase = .quorumStart tx r →
    r = required ∧ tx.record.revision = revision
  collector : ∀ h ∈ s.gate, ∀ tx, h.phase = .collecting tx ∨ h.phase = .awaiting tx →
    ∃ k, s.peers.receiptCollector = some k ∧ Collected required revision A k

/-- The call is on Path 2, before it commits. -/
def beforeCommit : Phase → Bool
  | .quorumStart _ _ | .collecting _ | .awaiting _ => true
  | _ => false

theorem Waits.of_other (h : ∀ k ∈ s.gate, beforeCommit k.phase = false) :
    Waits required revision A s where
  start := fun k hk tx r hp => by
    have hother := h k hk
    rw [hp] at hother
    cases hother
  collector := fun k hk tx hp => by
    have hother := h k hk
    rcases hp with hp | hp
    · rw [hp] at hother
      cases hother
    · rw [hp] at hother
      cases hother

theorem Waits.of_released (h : s.gate = none) : Waits required revision A s :=
  .of_other fun k hk => by
    rw [h] at hk
    cases hk

theorem Waits.of_phase {acquiredIn : PrimaryState} {q : Phase} (h : s.gate = some ⟨acquiredIn, q⟩)
    (hq : beforeCommit q = false) : Waits required revision A s :=
  .of_other fun k hk => by
    rw [h] at hk
    cases hk
    exact hq

theorem Waits.of_same (h : Waits required revision A s) (hgate : s'.gate = s.gate)
    (hcollector : s'.peers.receiptCollector = s.peers.receiptCollector) :
    Waits required revision A s' := by
  refine ⟨?_, ?_⟩
  · rw [hgate]
    exact h.start
  · rw [hgate, hcollector]
    exact h.collector

theorem Collected.mono (h : Collected required revision A k) (hsub : A ⊆ B) :
    Collected required revision B k :=
  ⟨h.required_eq, h.revision_eq, h.acked.trans hsub⟩

theorem Waits.mono (h : Waits required revision A s) (hsub : A ⊆ B) :
    Waits required revision B s where
  start := h.start
  collector := fun g hg tx hp => by
    obtain ⟨k, hk, hcollected⟩ := h.collector g hg tx hp
    exact ⟨k, hk, hcollected.mono hsub⟩

theorem Collected.count {r : Receipt} (hr : receiptOf p a = some r)
    (h : Collected required revision A k) :
    Collected required revision (A ∪ sendersOf revision p a)
      (if k.revision = r.revision then k.collectReceipt r.nodeID else k) := by
  split_ifs with hrev
  · refine ⟨by simp [h.required_eq], by simp [h.revision_eq], fun n hn => ?_⟩
    have hsender : sendersOf revision p a = {r.nodeID} := by
      unfold sendersOf
      simp only [hr]
      exact if_pos (hrev.symm.trans h.revision_eq)
    rw [hsender]
    rcases ReceiptCollector.mem_acked_collectReceipt hn with rfl | hn
    · exact Finset.mem_union_right _ (Finset.mem_singleton_self _)
    · exact Finset.mem_union_left _ (h.acked hn)
  · exact h.mono Finset.subset_union_left

theorem Waits.flushReturns (h : Waits required revision A s)
    (owner : Primary.ChunkBuffer.FlushOwner) (res : Except Datastore.PutError Unit) :
    Waits required revision A (s.flushReturns owner res) := by
  cases owner with
  | background => exact h
  | drain => exact h.of_same rfl rfl
  | txn =>
    cases res with
    | ok u => exact .of_released rfl
    | error e =>
      refine .of_other fun k hk => ?_
      obtain ⟨g, -, rfl⟩ := Option.map_eq_some_iff.mp hk
      rfl

theorem Waits.flushWaits (h : Waits required revision A s)
    (owner : Primary.ChunkBuffer.FlushOwner) :
    Waits required revision A (s.flushWaits owner) := by
  cases owner with
  | background => exact h
  | drain => exact h.of_same rfl rfl
  | txn =>
    refine .of_other fun k hk => ?_
    obtain ⟨g, -, rfl⟩ := Option.map_eq_some_iff.mp hk
    rfl

theorem Waits.drainIfActive (h : Waits required revision A s) :
    Waits required revision A s.drainIfActive := by
  obtain ⟨q, w, he⟩ := drainIfActive_eq s
  rw [he]
  exact h.of_same rfl rfl

theorem waits_step (h : Waits required revision A s) (ha : beginsTx a = false)
    (hs : step c s a = some s') :
    Waits required revision (A ∪ sendersOf revision s.peers a) s' := by
  have hmono : ∀ {t}, Waits required revision A t →
      Waits required revision (A ∪ sendersOf revision s.peers a) t := fun ht =>
    ht.mono Finset.subset_union_left
  cases a with
  | beginTx now txOk => cases ha
  | acquire i =>
    obtain ⟨_, -, -, rfl⟩ := acquire_eq_some hs
    exact .of_phase rfl rfl
  | upload dv =>
    obtain ⟨_, _, _, _, -, ⟨rfl, -⟩ | rfl | rfl⟩ := upload_eq_some hs
    · exact .of_phase rfl rfl
    · exact .of_phase rfl rfl
    · exact Waits.drainIfActive (.of_released rfl)
  | commitSync ok =>
    obtain ⟨_, _, -, rfl | rfl⟩ := commitSync_eq_some hs
    · exact .of_phase rfl rfl
    · exact .of_released rfl
  | startCollecting =>
    obtain ⟨_, tx, r, hg, rfl⟩ := startCollecting_eq_some hs
    obtain ⟨hr, hrev⟩ := h.start _ hg tx r rfl
    refine ⟨fun g hg' tx' r' hp => ?_, fun g hg' tx' hp => ?_⟩
    · cases hg'
      cases hp
    · exact ⟨_, rfl, hr, hrev, Finset.empty_subset _⟩
  | commitQuorum ok =>
    obtain ⟨_, _, -, -, ⟨-, rfl⟩ | ⟨-, rfl⟩⟩ := commitQuorum_eq_some hs
    · exact .of_phase rfl rfl
    · exact .of_released rfl
  | quorumTimeout =>
    obtain ⟨_, _, -, rfl⟩ := quorumTimeout_eq_some hs
    exact .of_released rfl
  | broadcastRecord =>
    obtain ⟨_, ⟨_, -, rfl⟩ | ⟨tx, hg, rfl⟩⟩ := broadcastRecord_eq_some hs
    · exact .of_phase rfl rfl
    · obtain ⟨k, hk, hcollected⟩ := h.collector _ hg tx (Or.inl rfl)
      refine ⟨fun g hg' tx' r' hp => ?_, fun g hg' tx' hp => ?_⟩
      · cases hg'
        cases hp
      · exact ⟨k, hk, hcollected.mono Finset.subset_union_left⟩
  | setCommitted =>
    obtain ⟨_, _, ⟨-, rfl⟩ | ⟨-, rfl⟩⟩ := setCommitted_eq_some hs
    · exact .of_phase rfl rfl
    · exact .of_phase rfl rfl
  | broadcastCommit =>
    obtain ⟨_, _, ⟨-, rfl⟩ | ⟨-, rfl⟩⟩ := broadcastCommit_eq_some hs
    · exact .of_released rfl
    · exact .of_phase rfl rfl
  | bufferRecord =>
    obtain ⟨_, _, -, rfl | rfl⟩ := bufferRecord_eq_some hs
    · exact .of_phase rfl rfl
    · exact .of_released rfl
  | checkFull =>
    obtain ⟨_, -, rfl | rfl⟩ := checkFull_eq_some hs
    · exact .of_released rfl
    · exact Waits.drainIfActive (.of_released rfl)
  | flush owner now =>
    obtain ⟨-, ⟨-, rfl⟩ | ⟨b, f, -, rfl⟩⟩ := flush_eq_some hs
    · exact hmono (h.flushReturns owner (.ok ()))
    · have hstarted : Waits required revision A { s with buffer := b, flush := some f } :=
        h.of_same rfl rfl
      exact hmono (hstarted.flushWaits owner)
  | flushEnd =>
    obtain ⟨f, res, -, -, rfl⟩ := flushEnd_eq_some hs
    have hended : Waits required revision A
        { s with buffer := s.buffer.endFlush f res, flush := none } := h.of_same rfl rfl
    exact hmono (hended.flushReturns f.owner res)
  | resignLeadership =>
    obtain ⟨-, rfl⟩ := resignLeadership_eq_some hs
    exact hmono (h.of_same rfl rfl)
  | peer b =>
    obtain ⟨p', hp, rfl⟩ := Option.map_eq_some_iff.mp hs
    rcases collector_peer hp with hkeep | ⟨r, hr, hcount⟩
    · exact hmono (h.of_same rfl hkeep)
    · refine ⟨h.start, fun g hg tx hphase => ?_⟩
      obtain ⟨k, hk, hcollected⟩ := h.collector g hg tx hphase
      exact ⟨_, by rw [hcount, hk]; rfl, hcollected.count hr⟩
  | _ =>
    have hframe := frame_step hs
    exact hmono (h.of_same (hframe.gate rfl) (congrArg Peers.receiptCollector (hframe.peers rfl)))

theorem waits_exec (h : Waits required revision A s) (has : ∀ a ∈ as, beginsTx a = false)
    (hrun : exec (step c) s as = some s') :
    Waits required revision (A ∪ receiptSenders c revision s as) s' := by
  induction as generalizing s A with
  | nil =>
    cases hrun
    exact h.mono Finset.subset_union_left
  | cons a as ih =>
    obtain ⟨t, ht, hrest⟩ := exec_cons_eq_some.mp hrun
    rw [List.forall_mem_cons] at has
    have hstep := ih (waits_step h has.1 ht) has.2 hrest
    unfold receiptSenders
    rw [ht]
    exact hstep.mono (Finset.union_assoc _ _ _).subset

/-! ### The Replicas that count -/

/-- The Replicas that count toward a quorum are from `A`. -/
def CountsWithin (A : Finset NodeID) (m : Replicas) : Prop :=
  ∀ r ∈ m.entries, healthyForQuorum r = true → r.nodeID ∈ A

theorem healthyForQuorumCount_le (h : CountsWithin A m) : healthyForQuorumCount m ≤ A.card := by
  have hnodup : ((m.entries.filter healthyForQuorum).map Replica.nodeID).Nodup :=
    m.nodup.sublist (List.filter_sublist.map _)
  have hsub : ((m.entries.filter healthyForQuorum).map Replica.nodeID).toFinset ⊆ A := by
    intro n hn
    obtain ⟨r, hr, rfl⟩ := List.mem_map.mp (List.mem_toFinset.mp hn)
    obtain ⟨hmem, hcounts⟩ := List.mem_filter.mp hr
    exact h r hmem hcounts
  calc healthyForQuorumCount m
      = ((m.entries.filter healthyForQuorum).map Replica.nodeID).length := by
        rw [List.length_map, healthyForQuorumCount]
    _ = ((m.entries.filter healthyForQuorum).map Replica.nodeID).toFinset.card :=
        (List.toFinset_card_of_nodup hnodup).symm
    _ ≤ A.card := Finset.card_le_card hsub

theorem countsWithin_degradeUnacked : CountsWithin k.acked (degradeUnacked m k) := by
  intro r hr hcounts
  obtain ⟨x, hx, rfl⟩ := List.mem_map.mp hr
  by_cases hunacked : unacked k x = true
  · simp [hunacked, healthyForQuorum] at hcounts
  · simp only [if_neg hunacked] at hcounts ⊢
    by_contra hmissing
    exact hunacked (by simp [unacked, hmissing, hcounts])

theorem CountsWithin.degrade {m' : Replicas} {late : Replica → Prop} [DecidablePred late]
    (h : CountsWithin A m)
    (hm : m'.entries =
      m.entries.map fun r => if late r then { r with health := .degraded } else r) :
    CountsWithin A m' := by
  intro r hr hcounts
  rw [hm] at hr
  obtain ⟨x, hx, rfl⟩ := List.mem_map.mp hr
  by_cases hlate : late x
  · simp [hlate, healthyForQuorum] at hcounts
  · simp only [if_neg hlate] at hcounts ⊢
    exact h x hx hcounts

theorem CountsWithin.remove (h : CountsWithin A m) (n : NodeID) : CountsWithin A (m.remove n) :=
  fun r hr => h r (List.mem_of_mem_filter hr)

/-- A Replica that starts to follow does not count before its first Receipt. -/
theorem CountsWithin.addReplica (h : CountsWithin A m) (n : NodeID) (now : Time) :
    CountsWithin A (addReplica m n now) := by
  intro r hr hcounts
  rcases List.mem_cons.mp hr with rfl | hr
  · cases hcounts
  · exact h.remove n r hr hcounts

theorem CountsWithin.degradeTimedOut (h : CountsWithin A p.replicas) :
    CountsWithin A p.degradeTimedOut.replicas := by
  unfold Peers.degradeTimedOut
  cases p.receiptCollector with
  | none => exact h
  | some k => exact h.degrade rfl

theorem replicas_takeMessage {i : ℕ} {msg : PrimaryMessage}
    (h : p.takeMessage i = some (msg, p')) : p'.replicas = p.replicas := by
  unfold Peers.takeMessage at h
  split at h
  · split at h
    · cases h
      rfl
    · cases h
  · cases h

theorem replicas_flushReturns (s : Server) (owner : Primary.ChunkBuffer.FlushOwner)
    (res : Except Datastore.PutError Unit) :
    (s.flushReturns owner res).peers.replicas = s.peers.replicas := by
  cases owner with
  | background => rfl
  | drain => rfl
  | txn =>
    cases res with
    | ok u => rfl
    | error e => rfl

theorem CountsWithin.act {b : PeerAction} (h : CountsWithin A p.replicas)
    (hb : reports (.peer b) = false) (hact : p.act s.primary b = some p') :
    CountsWithin A p'.replicas := by
  cases b with
  | recv i now msg => cases hb
  | heartbeat now hb' => cases hb
  | follow nodeID now =>
    simp only [Peers.act] at hact
    split_ifs at hact
    cases hact
    exact h.addReplica nodeID now
  | unfollow i =>
    cases hact
    unfold Peers.removeFollowStream
    cases p.sessions[i]? with
    | none => exact h
    | some session => exact h.remove session.nodeID
  | send i =>
    obtain ⟨⟨msg, p'⟩, htake, rfl⟩ := Option.map_eq_some_iff.mp hact
    rw [replicas_takeMessage htake]
    exact h
  | checkDegradation deadline now =>
    cases hact
    exact h.degrade rfl
  | clusterState nodeCount =>
    cases hact
    exact h
  | compact rev =>
    cases hact
    exact h
  | stopServices =>
    cases hact
    exact fun r hr => absurd hr List.not_mem_nil

theorem countsWithin_step (h : CountsWithin A s.peers.replicas) (ha : reports a = false)
    (hs : step c s a = some s') : CountsWithin A s'.peers.replicas := by
  cases a with
  | startCollecting =>
    obtain ⟨_, _, _, -, rfl⟩ := startCollecting_eq_some hs
    exact h
  | commitQuorum ok =>
    obtain ⟨_, _, -, -, ⟨-, rfl⟩ | ⟨-, rfl⟩⟩ := commitQuorum_eq_some hs
    · exact h
    · exact h
  | quorumTimeout =>
    obtain ⟨_, _, -, rfl⟩ := quorumTimeout_eq_some hs
    exact h.degradeTimedOut
  | broadcastRecord =>
    obtain ⟨_, ⟨_, -, rfl⟩ | ⟨_, -, rfl⟩⟩ := broadcastRecord_eq_some hs
    · exact h
    · exact h
  | broadcastCommit =>
    obtain ⟨_, _, ⟨-, rfl⟩ | ⟨-, rfl⟩⟩ := broadcastCommit_eq_some hs
    · exact h
    · exact h
  | bufferRecord =>
    obtain ⟨_, _, -, rfl | rfl⟩ := bufferRecord_eq_some hs
    · exact h
    · exact h
  | checkFull =>
    obtain ⟨_, -, rfl | rfl⟩ := checkFull_eq_some hs
    · exact h
    · obtain ⟨q, w, he⟩ := drainIfActive_eq s.finishQuorum
      rw [he]
      exact h
  | flush owner now =>
    obtain ⟨-, ⟨-, rfl⟩ | ⟨b, f, -, rfl⟩⟩ := flush_eq_some hs
    · rw [replicas_flushReturns]
      exact h
    · obtain ⟨d, he⟩ := flushWaits_eq { s with buffer := b, flush := some f } owner
      rw [he]
      exact h
  | flushEnd =>
    obtain ⟨f, res, -, -, rfl⟩ := flushEnd_eq_some hs
    rw [replicas_flushReturns]
    exact h
  | resignLeadership =>
    obtain ⟨-, rfl⟩ := resignLeadership_eq_some hs
    exact fun r hr => absurd hr List.not_mem_nil
  | peer b =>
    obtain ⟨p', hp, rfl⟩ := Option.map_eq_some_iff.mp hs
    exact h.act ha hp
  | _ =>
    rw [(frame_step hs).peers rfl]
    exact h

theorem countsWithin_exec (h : CountsWithin A s.peers.replicas) (has : ∀ a ∈ as, reports a = false)
    (hrun : exec (step c) s as = some s') : CountsWithin A s'.peers.replicas := by
  have hmeets : Meets (step c) (fun _ a => reports a = false) s as := meets_of_forall has
  exact exec_invariant (I := fun s => CountsWithin A s.peers.replicas)
    (fun _ _ _ h ha hs => countsWithin_step h ha hs) h hmeets hrun

/-! ### The next transaction -/

theorem waits_beginTx {now : Time} {txOk : Bool} (h : step c s (.beginTx now txOk) = some s') :
    Waits (requiredReceipts c.quorum s.peers.nodeCount) s.nextRevisionID ∅ s' := by
  obtain ⟨acquiredIn, request, -, rfl | ⟨tx, ⟨hrevision, -⟩, rfl⟩⟩ := beginTx_eq_some h
  · exact .of_released rfl
  · refine ⟨fun g hg tx' r hp => ?_, fun g hg tx' hp => ?_⟩
    · cases hg
      unfold pathOf at hp
      split_ifs at hp with hquorum
      cases hp
      refine ⟨?_, hrevision⟩
      unfold strategy selectTxnStrategy at hquorum ⊢
      dsimp only at hquorum ⊢
      split_ifs at hquorum ⊢
      rfl
    · cases hg
      unfold pathOf at hp
      split_ifs at hp <;> simp at hp

/-- **A quorum write that failed falls back to object storage.** The transaction that selected its
path in `s` waits for its Receipts while anything but another transaction may happen, and is rolled
back with fewer senders than it requires. As long as no Receipt and no heartbeat is processed, the
next transaction takes Path 1 if the node count is the same. -/
theorem failed_quorum_falls_back (c : Config) (s s₁ s₂ s₃ s₄ : Server) (now : Time) (txOk : Bool)
    (waiting quiet : List Action) (hbegin : step c s (.beginTx now txOk) = some s₁)
    (hwaiting : ∀ a ∈ waiting, beginsTx a = false) (hwait : exec (step c) s₁ waiting = some s₂)
    (hfew : (receiptSenders c s.nextRevisionID s₁ waiting).card <
      requiredReceipts c.quorum s.peers.nodeCount)
    (htimeout : step c s₂ .quorumTimeout = some s₃)
    (hquiet : ∀ a ∈ quiet, reports a = false) (hrun : exec (step c) s₃ quiet = some s₄)
    (hcount : s₄.peers.nodeCount = s.peers.nodeCount) :
    strategy c s₄ = {} ∧ ∀ now tx, pathOf c s₄ now tx =
      .uploading tx (marshalChunk now tx.record c.nodeID) false := by
  have hwaits := waits_exec (waits_beginTx hbegin) hwaiting hwait
  obtain ⟨acquiredIn, tx, hgate, rfl⟩ := quorumTimeout_eq_some htimeout
  obtain ⟨k, hk, -, -, hacked⟩ := hwaits.collector _ hgate tx (Or.inr rfl)
  rw [Finset.empty_union] at hacked
  have hrolled : CountsWithin k.acked
      ({ s₂ with peers := s₂.peers.degradeTimedOut } : Server).finishQuorum.peers.replicas := by
    have hdegraded : s₂.peers.degradeTimedOut.replicas = degradeUnacked s₂.peers.replicas k := by
      unfold Peers.degradeTimedOut
      rw [hk]
    change CountsWithin k.acked s₂.peers.degradeTimedOut.replicas
    rw [hdegraded]
    exact countsWithin_degradeUnacked
  have hcounted := healthyForQuorumCount_le (countsWithin_exec hrolled hquiet hrun)
  have hfewer := Finset.card_le_card hacked
  have hstrategy : strategy c s₄ = {} := by
    unfold strategy selectTxnStrategy
    rw [hcount]
    exact if_pos (Or.inr (by omega))
  refine ⟨hstrategy, fun now tx => ?_⟩
  unfold pathOf
  rw [hstrategy]
  rfl

/-- A call takes the gate, and `"q"` counts toward a quorum. -/
def selecting : Server :=
  (exec (step oneReceipt) Primary.Gate.fresh (followed ++
    [.requireActivePrimary (Primary.Gate.createRequest [98] [1]), .acquire 0])).getD
      Primary.Gate.fresh

/-- `"q"` does not receipt the record, and the next call takes Path 1. -/
theorem failed_quorum_falls_back_once :
    (strategy oneReceipt selecting).useQuorum = true ∧
      ∃ s, exec (step oneReceipt) selecting [.beginTx 8 true, .startCollecting, .broadcastRecord,
          .quorumTimeout, .requireActivePrimary (Primary.Gate.createRequest [98] [1]), .acquire 0] =
        some s ∧ strategy oneReceipt s = {} := by
  refine ⟨by decide, _, rfl, (failed_quorum_falls_back oneReceipt selecting _ _ _ _ 8 true
    [.startCollecting, .broadcastRecord]
    [.requireActivePrimary (Primary.Gate.createRequest [98] [1]), .acquire 0] rfl (by decide) rfl ?_
    rfl (by decide) rfl rfl).1⟩
  decide

end Netsy.Replication.QuorumFallback
