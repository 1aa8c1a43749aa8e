import Netsy.Primary.DurableLog
import Netsy.Replication.Streams

/-! # What a quorum of receipts says

A Receipt names a revision and not a record, and after a rollback the revision is used again. A
Receipt that the rollback left on a stream, or one for a Record that it left there, counts for the
record of the next call. Where neither is left when the collector is set, a Receipt that it counts
says that the Replica has the record. -/

namespace Netsy.Replication.Receipts

open Proto NodeState Lib.Run LocalDB.Schema LocalDB.Replicate
open Primary.Follow Primary.Quorum Primary.Transitions
open Primary.DurableLog (oneReceipt)
open Primary.LeaderTxn (Config Server Tx strategy)
open Primary.ReplicatedLog (Log Stage log log_step stage_of_gate)
open Replication.ProcessStream Replication.Streams

/-- The node has the record in its database. -/
def Stored (s : Cluster) (n : NodeID) (r : Record) : Prop := Held (s.nodes n).follower r

instance (s : Cluster) (n : NodeID) (r : Record) : Decidable (Stored s n r) :=
  inferInstanceAs (Decidable (Held _ _))

/-- The record whose receipts are collected. -/
def collected : Stage → Option Record
  | .collecting tx | .proposed tx => some tx.record
  | _ => none

/-- What is on its way about the record says so. -/
structure Collects (s : Cluster) (r : Record) : Prop where
  collector : ∃ k, s.server.peers.receiptCollector = some k ∧ k.revision = r.revision ∧ k.Sound ∧
    ∀ n ∈ k.acked, Stored s n r
  records : ∀ n i x, (s.nodes n).stream = some i → .record x ∈ pending s i →
    x.revision = r.revision → x = r
  receipts : ∀ n i m, owner s.server.peers.sessions i = some n → (s.conns i).serving = true →
    m ∈ (s.conns i).receipts → m.revision = r.revision → Stored s n r

structure Inv (s : Cluster) : Prop where
  linked : Linked s
  collects : ∀ r, collected (log s.server).stage = some r → Collects s r

/-- The message is a Record of the revision. -/
def recordAt (revision : ℤ) : PrimaryMessage → Bool
  | .record x => x.revision = revision
  | _ => false

/-- No Record of the revision is on its way to a Replica, and no Receipt to the Primary. -/
def Quiet (s : Cluster) (revision : ℤ) : Prop :=
  ∀ i < s.server.peers.sessions.length, ∀ n ∈ owner s.server.peers.sessions i,
    ((s.nodes n).stream = some i → ∀ msg ∈ pending s i, recordAt revision msg = false) ∧
      ((s.conns i).serving = true → ∀ m ∈ (s.conns i).receipts, m.revision ≠ revision)

instance (s : Cluster) (revision : ℤ) : Decidable (Quiet s revision) :=
  inferInstanceAs (Decidable (∀ i < s.server.peers.sessions.length, _))

/-- Receipts are collected for a revision of which nothing is on its way. -/
def FreshRevision (s : Cluster) : Action → Prop
  | .primary .startCollecting => Quiet s s.server.nextRevisionID
  | _ => True

instance (s : Cluster) : ∀ a, Decidable (FreshRevision s a) := by
  intro a
  unfold FreshRevision
  split <;> infer_instance

variable {c : Config} {s s' : Cluster} {a : Action} {r x b : Record} {f : Follower} {now : Time}
  {msg : PrimaryMessage} {n : NodeID} {i : ℕ} {l l' : Log} {rev : ℤ}

/-! ### What a Replica does with a record it has -/

theorem held_processMessage (hb : Held f r)
    (hmsg : ∀ x, msg = .record x → x.revision = r.revision → x = r) :
    Held (processMessage f now msg).1 r := by
  obtain ⟨b, hb, hs⟩ := hb
  cases msg with
  | record x =>
    by_cases hx : x.revision = r.revision
    · obtain rfl := hmsg x rfl hx
      exact exists_sameRecord_replicateTentativeRecord hb hs
    · refine ⟨b, (mem_replicateTentativeRecord_of_ne fun he => hx ?_).mpr hb, hs⟩
      exact he.symm.trans hs.revision_eq
  | _ => exact ⟨b, hb, hs⟩

theorem held_of_receipt (h : (processMessage f now msg).2 = .ok (some rev)) :
    ∃ x, msg = .record x ∧ x.revision = rev ∧ Held (processMessage f now msg).1 x := by
  cases msg with
  | record x =>
    cases hres : (handleRecord f now x).2 with
    | error e => simp [processMessage, hres, Except.map] at h
    | ok row =>
      simp only [processMessage, hres, Except.map, Except.ok.injEq, Option.some.injEq] at h
      obtain ⟨hmem, hs⟩ := exists_of_replicateTentativeRecord_ok hres
      exact ⟨x, rfl, h, row, hmem, sameRecord_of_recordsEqual hs⟩
  | _ => cases h

/-! ### Steps -/

theorem Collects.mono (h : Collects s r)
    (hk : ∃ k, s'.server.peers.receiptCollector = some k ∧ k.revision = r.revision ∧ k.Sound ∧
      ∀ n ∈ k.acked, Stored s n r)
    (hst : ∀ n, Stored s n r → Stored s' n r)
    (hrec : ∀ n i x, (s'.nodes n).stream = some i → .record x ∈ pending s' i →
      x = r ∨ ((s.nodes n).stream = some i ∧ .record x ∈ pending s i))
    (hrcp : ∀ n i m, owner s'.server.peers.sessions i = some n → (s'.conns i).serving = true →
      m ∈ (s'.conns i).receipts → m.revision = r.revision →
      Stored s' n r ∨ (owner s.server.peers.sessions i = some n ∧ (s.conns i).serving = true ∧
        m ∈ (s.conns i).receipts)) : Collects s' r := by
  obtain ⟨k, hk, hrev, hsound, hacked⟩ := hk
  refine ⟨⟨k, hk, hrev, hsound, fun n hn => hst n (hacked n hn)⟩, ?_, ?_⟩
  · intro n i x hn hx he
    rcases hrec n i x hn hx with hx | ⟨hn, hx⟩
    · exact hx
    · exact h.records n i x hn hx he
  · intro n i m ho hsv hm he
    rcases hrcp n i m ho hsv hm he with hs | ⟨ho, hsv, hm⟩
    · exact hs
    · exact hst n (h.receipts n i m ho hsv hm he)

theorem collected_log_step {a : Primary.LeaderTxn.Action} (hs : Primary.ReplicatedLog.Step a l l')
    (hr : collected l'.stage = some r) :
    (a = .startCollecting ∧ l'.sessions = l.sessions ∧
        ∃ tx required, l.stage = .quorum tx required ∧ r = tx.record ∧
          l'.collector = some (newReceiptCollector r.revision required)) ∨
      (collected l.stage = some r ∧ l'.collector = l.collector ∧
        ∀ i x, .record x ∈ channel l'.sessions i → x = r ∨ .record x ∈ channel l.sessions i) := by
  cases hs with
  | keep => exact Or.inr ⟨hr, rfl, fun i x hx => Or.inr hx⟩
  | close => exact Or.inr ⟨hr, rfl, fun i x hx => Or.inr (channel_close ▸ hx)⟩
  | compact rev =>
    refine Or.inr ⟨hr, rfl, fun i x hx => Or.inr ?_⟩
    exact (mem_channel_enqueue hx).resolve_right (by simp)
  | drop k he => cases hr
  | insert hl htx hst => rcases hst with rfl | ⟨required, rfl⟩ <;> cases hr
  | collect hl =>
    cases hr
    exact Or.inl ⟨rfl, rfl, _, _, hl, rfl, rfl⟩
  | commit hl => rcases hl with ⟨-, rfl⟩ | ⟨-, rfl⟩ <;> cases hr
  | send hl =>
    rcases hl with ⟨-, rfl⟩ | ⟨tx, rfl, hl, rfl⟩
    · cases hr
    · cases hr
      refine Or.inr ⟨by rw [hl]; rfl, rfl, fun i x hx => ?_⟩
      exact (mem_channel_enqueue hx).symm.imp_left fun he => PrimaryMessage.record.inj he
  | advance hl => cases hr
  | announce hl => cases hr

theorem collects_primary {a : Primary.LeaderTxn.Action} {server : Server} (h : Inv s)
    (hok : FreshRevision s (.primary a))
    (hlog : Primary.ReplicatedLog.Step a (log s.server) (log server))
    (hr : collected (log server).stage = some r) : Collects { s with server := server } r := by
  have howner : ∀ i, owner server.peers.sessions i = owner s.server.peers.sessions i :=
    fun i => owner_log_step hlog
  rcases collected_log_step hlog hr with ⟨rfl, hss, tx, required, hst, rfl, hk⟩ | ⟨hr, hk, hch⟩
  · have hss : server.peers.sessions = s.server.peers.sessions := hss
    have hrev : tx.record.revision = s.server.nextRevisionID := by
      have hlogok := h.linked.log.stage
      rw [hst] at hlogok
      exact hlogok.2.1
    have hquiet : Quiet s tx.record.revision := hrev ▸ hok
    refine ⟨⟨_, hk, rfl, sound_newReceiptCollector _ _, fun n hn => ?_⟩, ?_, ?_⟩
    · simp [newReceiptCollector] at hn
    · intro n i x hn hx he
      have ho := h.linked.stream n i hn
      have hx : PrimaryMessage.record x ∈ pending s i := by
        unfold pending at hx ⊢
        rwa [← hss]
      have := (hquiet i (lt_of_owner ho) n ho).1 hn _ hx
      simp [recordAt, he] at this
    · intro n i m ho hsv hm he
      rw [howner] at ho
      exact absurd he ((hquiet i (lt_of_owner ho) n ho).2 hsv m hm)
  · have hc := h.collects r hr
    have hk : server.peers.receiptCollector = s.server.peers.receiptCollector := hk
    refine hc.mono (by rw [hk]; exact hc.collector) (fun n hn => hn) (fun n i x hn hx => ?_) ?_
    · rcases List.mem_append.mp hx with hx | hx
      · exact Or.inr ⟨hn, List.mem_append.mpr (Or.inl hx)⟩
      · exact (hch i x hx).imp_right fun hx => ⟨hn, List.mem_append.mpr (Or.inr hx)⟩
    · intro n i m ho hsv hm _
      exact Or.inr ⟨(howner i).symm.trans ho, hsv, hm⟩

theorem stored_setNode {node : Node} {m : NodeID} (h : Stored s m r)
    (hn : Stored s n r → Held node.follower r) : Stored (s.setNode n node) m r := by
  unfold Stored
  rcases eq_or_ne m n with rfl | hm
  · rw [Cluster.nodes_setNode_self]
    exact hn h
  · rw [Cluster.nodes_setNode_of_ne hm]
    exact h

theorem collects_connect (h : Inv s) (hc : Collects s r) (hs : connect c s n now = some s') :
    Collects s' r := by
  obtain ⟨-, rfl⟩ := connect_eq_some hs
  obtain ⟨-, hempty, hold⟩ := addFollowStream_sessions s.server.peers n now
  have hlen : (s.server.peers.addFollowStream n now).sessions.length =
      s.server.peers.sessions.length + 1 := by
    simp [Peers.addFollowStream]
  refine hc.mono hc.collector (fun m hm => stored_setNode hm id) (fun m i x hm hx => ?_) ?_
  · rcases eq_or_ne m n with rfl | hne
    · -- the new stream carries nothing yet
      obtain rfl : s.server.peers.sessions.length = i := by simpa using hm
      simp [pending, Conn.opened, hempty] at hx
    · rw [Cluster.nodes_setNode_of_ne hne] at hm
      have hlt := lt_of_owner (h.linked.stream m i hm)
      unfold pending at hx ⊢
      rw [Cluster.conns_setNode, Cluster.conns_setConn_of_ne hlt.ne] at hx
      exact Or.inr ⟨hm, (hold i hlt).2.1 ▸ hx⟩
  · intro m i rcp ho hsv hrcp _
    rw [Cluster.conns_setNode] at hsv hrcp
    rcases eq_or_ne i s.server.peers.sessions.length with rfl | hi
    · simp [Conn.opened] at hrcp
    · have hlt : i < s.server.peers.sessions.length + 1 := hlen ▸ lt_of_owner ho
      rw [Cluster.conns_setConn_of_ne hi] at hsv hrcp
      exact Or.inr ⟨((hold i (by omega)).1).symm.trans ho, hsv, hrcp⟩

theorem collects_processStream {health : HealthState} {state : PrimaryState} {sendOk : Bool}
    (h : Inv s) (hc : Collects s r)
    (hs : processStream s n now health state sendOk = some s') : Collects s' r := by
  obtain ⟨i, msg, rest, stream, receipts, hi, hw, rfl, hcases⟩ := processStream_eq_some hs
  -- a Record of the revision that arrives is the record
  have hmsg : ∀ x, msg = .record x → x.revision = r.revision → x = r := by
    rintro x rfl hx
    exact hc.records n i x hi (by simp [pending, hw]) hx
  have hnode : Stored s n r → Held (processMessage (s.nodes n).follower now msg).1 r :=
    fun hb => held_processMessage hb hmsg
  refine hc.mono hc.collector (fun m hm => stored_setNode hm hnode)
    (fun m j x hm hx => Or.inr ?_) ?_
  · have hj : (s.nodes m).stream = some j := by
      rcases eq_or_ne m n with rfl | hne
      · rw [Cluster.nodes_setNode_self] at hm
        rcases hcases with ⟨rfl, -⟩ | ⟨rfl, -⟩
        · cases hm
        · exact hi.trans hm
      · rwa [Cluster.nodes_setNode_of_ne hne] at hm
    refine ⟨hj, ?_⟩
    unfold pending at hx ⊢
    rw [Cluster.conns_setNode] at hx
    rcases eq_or_ne j i with rfl | hne
    · rw [Cluster.conns_setConn_self] at hx
      rw [hw]
      exact List.mem_cons_of_mem msg hx
    · rwa [Cluster.conns_setConn_of_ne hne] at hx
  · intro m j rcp ho hsv hrcp he
    rw [Cluster.conns_setNode] at hsv hrcp
    rcases eq_or_ne j i with rfl | hne
    · rw [Cluster.conns_setConn_self] at hsv hrcp
      have ho : owner s.server.peers.sessions j = some m := ho
      obtain rfl : n = m := Option.some.inj ((h.linked.stream n j hi).symm.trans ho)
      rcases hcases with ⟨-, rfl⟩ | ⟨-, _, hok, ⟨-, rfl⟩ | ⟨rev, hb, rfl, rfl⟩⟩
      · exact Or.inr ⟨ho, hsv, hrcp⟩
      · exact Or.inr ⟨ho, hsv, hrcp⟩
      · rcases List.mem_append.mp hrcp with hrcp | hrcp
        · exact Or.inr ⟨ho, hsv, hrcp⟩
        · -- the new Receipt is for the message that was just handled
          obtain ⟨x, rfl, hx, hst⟩ := held_of_receipt hok
          obtain rfl := List.mem_singleton.mp hrcp
          obtain rfl := hmsg x rfl (hx.trans he)
          refine Or.inl ?_
          unfold Stored
          rw [Cluster.nodes_setNode_self]
          exact hst
    · rw [Cluster.conns_setConn_of_ne hne] at hsv hrcp
      exact Or.inr ⟨ho, hsv, hrcp⟩

theorem Collects.serve {p : Peers} {k : Conn} (hc : Collects s r)
    (hk : ∃ k, p.receiptCollector = some k ∧ k.revision = r.revision ∧ k.Sound ∧
      ∀ n ∈ k.acked, Stored s n r)
    (ho : ∀ j, owner p.sessions j = owner s.server.peers.sessions j)
    (hp : ∀ j x, .record x ∈ pending ((s.setPeers p).setConn i k) j → .record x ∈ pending s j)
    (hsv : k.serving = true → (s.conns i).serving = true)
    (hrcp : ∀ m ∈ k.receipts, m ∈ (s.conns i).receipts) :
    Collects ((s.setPeers p).setConn i k) r := by
  refine hc.mono hk (fun _ hn => hn) (fun n j x hn hx => Or.inr ⟨hn, hp j x hx⟩) ?_
  intro n j m hn hs hm _
  have hj : owner s.server.peers.sessions j = some n := (ho j).symm.trans hn
  rcases eq_or_ne j i with rfl | hne
  · rw [Cluster.conns_setConn_self] at hs hm
    exact Or.inr ⟨hj, hsv hs, hrcp m hm⟩
  · rw [Cluster.conns_setConn_of_ne hne] at hs hm
    exact Or.inr ⟨hj, hs, hm⟩

theorem collects_sendInitial (hc : Collects s r) (hs : sendInitial s i = some s') :
    Collects s' r := by
  obtain ⟨-, rfl⟩ := sendInitial_eq_some hs
  refine hc.serve (p := s.server.peers) hc.collector (fun _ => rfl) (fun j x hx => ?_) id
    (fun _ hm => hm)
  unfold pending at hx ⊢
  rcases eq_or_ne j i with rfl | hj
  · simpa using hx
  · rwa [Cluster.conns_setConn_of_ne hj] at hx

theorem collects_sendLoop (hc : Collects s r) (hs : sendLoop s i = some s') : Collects s' r := by
  obtain ⟨-, msg, p, hp, rfl⟩ := sendLoop_eq_some hs
  obtain ⟨hk, -, -, ho⟩ := takeMessage_eq_some hp
  refine hc.serve (by rw [hk]; exact hc.collector) (fun j => (ho j).1) (fun j x hx => ?_) id
    (fun _ hm => hm)
  rwa [pending_sendLoop hp] at hx

theorem collects_handlerEnds (hc : Collects s r) (hs : handlerEnds s i = some s') :
    Collects s' r := by
  rw [handlerEnds_eq_some hs]
  have hss := removeFollowStream_sessions s.server.peers i
  refine hc.serve (by rw [removeFollowStream_collector]; exact hc.collector)
    (fun j => (hss j).1) (fun j x hx => ?_) (fun hk => (by cases hk)) (fun _ hm => hm)
  rw [← pending_setConn (k := { s.conns i with serving := false }) rfl j (hss j).2.1]
  exact hx

theorem collects_recvLoop (hc : Collects s r) (hs : recvLoop s i now = some s') :
    Collects s' r := by
  rcases recvLoop_eq_some hs with ⟨n, msg, rest, p, ho, hsv, hrcp, hp, rfl⟩ | hs
  · obtain ⟨hss, hk⟩ := followRecv_eq_some hp
    refine hc.serve ?_ (fun j => by rw [hss]) (fun j x hx => ?_) id
      (fun m hm => hrcp ▸ List.mem_cons_of_mem msg hm)
    · obtain ⟨k, hk', hrev, hsound, hacked⟩ := hc.collector
      rcases hk with hk | hk
      · exact ⟨k, hk.trans hk', hrev, hsound, hacked⟩
      · rw [hk', Option.map_some] at hk
        refine ⟨_, hk, ?_⟩
        split_ifs with he
        · refine ⟨by rw [ReceiptCollector.revision_collectReceipt, hrev],
            hsound.collectReceipt n, fun m hm => ?_⟩
          rcases ReceiptCollector.mem_acked_collectReceipt hm with rfl | hm
          · exact hc.receipts m i msg ho hsv (by simp [hrcp]) (he.symm.trans hrev)
          · exact hacked m hm
        · exact ⟨hrev, hsound, hacked⟩
    · rw [← pending_setConn (k := { s.conns i with receipts := rest }) rfl j (by rw [hss])]
      exact hx
  · exact collects_handlerEnds hc hs

theorem collects_disconnect (hc : Collects s r) (hs : disconnect s n = some s') :
    Collects s' r := by
  rw [disconnect_eq_some hs]
  refine hc.mono hc.collector (fun m hm => stored_setNode hm id) (fun m i x hm hx => ?_)
    fun _ _ _ ho hsv hm _ => Or.inr ⟨ho, hsv, hm⟩
  rcases eq_or_ne m n with rfl | hne
  · simp at hm
  · rw [Cluster.nodes_setNode_of_ne hne] at hm
    exact Or.inr ⟨hm, hx⟩

theorem collects_compaction {j : ℕ} (hc : Collects s r) : Collects (compaction s n now j) r := by
  refine hc.mono hc.collector (fun m hm => stored_setNode hm fun h => held_runCompaction h now j)
    (fun m i x hm hx => Or.inr ⟨?_, hx⟩) fun _ _ _ ho hsv hm _ => Or.inr ⟨ho, hsv, hm⟩
  unfold compaction at hm
  rcases eq_or_ne m n with rfl | hne
  · simpa using hm
  · rwa [Cluster.nodes_setNode_of_ne hne] at hm

theorem inv_step (h : Inv s) (hok : FreshRevision s a) (hs : step c s a = some s') : Inv s' := by
  refine ⟨linked_step h.linked hs, fun r hr => ?_⟩
  have hc : (∀ b, a ≠ .primary b) → Collects s r := by
    intro ha
    obtain ⟨p, he, -⟩ := server_of_stream ha hs
    rw [he] at hr
    exact h.collects r hr
  cases a with
  | primary a =>
    obtain ⟨ha, server, hstep, rfl⟩ := primary_eq_some hs
    exact collects_primary h hok (log_step h.linked.owned ha hstep) hr
  | connect n now => exact collects_connect h (hc (by simp)) hs
  | sendInitial i => exact collects_sendInitial (hc (by simp)) hs
  | sendLoop i => exact collects_sendLoop (hc (by simp)) hs
  | recvLoop i now => exact collects_recvLoop (hc (by simp)) hs
  | handlerEnds i => exact collects_handlerEnds (hc (by simp)) hs
  | processStream n now health primary sendOk => exact collects_processStream h (hc (by simp)) hs
  | disconnect n => exact collects_disconnect (hc (by simp)) hs
  | compaction n now j =>
    cases hs
    exact collects_compaction (hc (by simp))

/-! ### One transaction -/

/-- The action inserts the record of a new call. -/
def begins : Action → Bool
  | .primary (.beginTx _ _) => true
  | _ => false

/-- The receipts, while they are collected, are for the record and as many as required. -/
structure SameTxn (r : Record) (required : ℕ) (l : Log) : Prop where
  quorum : ∀ tx q, l.stage = .quorum tx q → tx.record = r ∧ q = required
  collected : ∀ r', collected l.stage = some r' →
    r' = r ∧ ∃ k, l.collector = some k ∧ k.required = required

theorem sameTxn_log_step {a : Primary.LeaderTxn.Action} {required : ℕ} (h : SameTxn r required l)
    (ha : begins (.primary a) = false) (hs : Primary.ReplicatedLog.Step a l l') :
    SameTxn r required l' := by
  constructor
  · intro tx q hst
    cases hs with
    | keep => exact h.quorum tx q hst
    | close => exact h.quorum tx q hst
    | compact rev => exact h.quorum tx q hst
    | insert hl htx hst => cases ha
    | commit hl => rcases hl with ⟨-, rfl⟩ | ⟨-, rfl⟩ <;> cases hst
    | send hl => rcases hl with ⟨-, rfl⟩ | ⟨_, -, -, rfl⟩ <;> cases hst
    | _ => cases hst
  · intro r' hr'
    rcases collected_log_step hs hr' with ⟨-, -, tx, q, hst, rfl, hk⟩ | ⟨hr, hk, -⟩
    · obtain ⟨rfl, rfl⟩ := h.quorum tx q hst
      exact ⟨rfl, _, hk, rfl⟩
    · obtain ⟨he, k, hk', hreq⟩ := h.collected r' hr
      exact ⟨he, k, hk.trans hk', hreq⟩

theorem sameTxn_step {required : ℕ} (hl : Linked s) (h : SameTxn r required (log s.server))
    (ha : begins a = false) (hs : step c s a = some s') : SameTxn r required (log s'.server) := by
  by_cases hp : ∃ b, a = .primary b
  · obtain ⟨b, rfl⟩ := hp
    obtain ⟨hb, server, hstep, rfl⟩ := primary_eq_some hs
    exact sameTxn_log_step h ha (log_step hl.owned hb hstep)
  · obtain ⟨p, he, hk⟩ := server_of_stream (fun b hb => hp ⟨b, hb⟩) hs
    rw [he]
    refine ⟨h.quorum, fun r' hr' => ?_⟩
    obtain ⟨hr, k, hk', hreq⟩ := h.collected r' hr'
    obtain ⟨k', hk'', hreq'⟩ := hk k hk'
    exact ⟨hr, k', hk'', hreq'.trans hreq⟩

theorem sameTxn_run {required : ℕ} {bs : List Action} (hl : Linked s)
    (h : SameTxn r required (log s.server)) (hbs : ∀ a ∈ bs, begins a = false)
    (hrun : exec (step c) s bs = some s') : SameTxn r required (log s'.server) := by
  have hinv : Linked s' ∧ SameTxn r required (log s'.server) := by
    refine exec_invariant (I := fun t => Linked t ∧ SameTxn r required (log t.server)) ?_ ⟨hl, h⟩
      (meets_of_forall hbs) hrun
    exact fun _ _ _ hi ha hs => ⟨linked_step hi.1 hs, sameTxn_step hi.1 hi.2 ha hs⟩
  exact hinv.2

/-- A call that takes Path 2 waits for the receipts of its strategy. -/
theorem requiredReceipts_of_beginTx {server server' : Server} {txOk : Bool} {tx : Tx} {required : ℕ}
    {acquiredIn : PrimaryState} (hs : Primary.LeaderTxn.beginTx c server now txOk = some server')
    (hg : server'.gate = some ⟨acquiredIn, .quorumStart tx required⟩) :
    required = (strategy c server).requiredReceipts := by
  obtain ⟨_, _, -, rfl | ⟨_, -, rfl⟩⟩ := beginTx_eq_some hs
  · cases hg
  · simp only [Primary.LeaderTxn.pathOf, Option.some.injEq, Primary.LeaderTxn.Holder.mk.injEq] at hg
    obtain ⟨-, hg⟩ := hg
    split_ifs at hg
    cases hg
    rfl

theorem inv_start {db : Table} {bucket : Datastore.ObjectStorage} {peers : Peers}
    {followers : NodeID → Follower} :
    Inv (Cluster.start (Server.start db bucket peers) followers) :=
  ⟨linked_start, fun r hr => (by cases hr)⟩

/-- **A quorum commit is held by a quorum**, in every run in which receipts are collected only for
a revision of which no Record and no Receipt is on its way. The call inserts its record in `s0`, no
other call does so until it commits in `s`. -/
theorem quorum_commit_stored {db : Table} {bucket : Datastore.ObjectStorage} {peers : Peers}
    {followers : NodeID → Follower} {as bs : List Action} {s0 s1 : Cluster} {txOk : Bool}
    {acquiredIn : PrimaryState} {tx : Tx} {required : ℕ}
    (hok : Meets (step c) FreshRevision (Cluster.start (Server.start db bucket peers) followers)
      (as ++ .primary (.beginTx now txOk) :: bs))
    (h0 : exec (step c) (Cluster.start (Server.start db bucket peers) followers) as = some s0)
    (h1 : step c s0 (.primary (.beginTx now txOk)) = some s1)
    (hg : s1.server.gate = some ⟨acquiredIn, .quorumStart tx required⟩)
    (hbs : ∀ a ∈ bs, begins a = false) (hrun : exec (step c) s1 bs = some s)
    (hs : step c s (.primary (.commitQuorum true)) = some s') :
    tx.record ∈ s'.server.db ∧ ∃ stored : Finset NodeID,
      (strategy c s0.server).requiredReceipts ≤ stored.card ∧
      ∀ n ∈ stored, Stored s n tx.record := by
  have hinv0 : Inv s0 := exec_invariant (fun _ _ _ hi hok hs => inv_step hi hok hs) inv_start
    (meets_append hok h0).1 h0
  have hinv : Inv s := exec_invariant (fun _ _ _ hi hok hs => inv_step hi hok hs) inv_start hok
    (exec_append_eq_some.mpr ⟨s0, h0, exec_cons_eq_some.mpr ⟨s1, h1, hrun⟩⟩)
  have hsame : SameTxn tx.record required (log s.server) := by
    refine sameTxn_run (linked_step hinv0.linked h1)
      ⟨fun tx' q hst => ?_, fun r' hr' => ?_⟩ hbs hrun
    · rw [stage_of_gate hg] at hst
      cases hst
      exact ⟨rfl, rfl⟩
    · rw [stage_of_gate hg] at hr'
      cases hr'
  obtain ⟨-, _, hbegin, rfl⟩ := primary_eq_some h1
  obtain ⟨-, _, hcommit, rfl⟩ := primary_eq_some hs
  obtain ⟨_, tx', hg', hmet, ⟨-, rfl⟩ | ⟨hf, -⟩⟩ := commitQuorum_eq_some hcommit
  · have hst : (log s.server).stage = .proposed tx' := stage_of_gate hg'
    obtain ⟨hrec, k, hk, hreq⟩ := hsame.collected tx'.record (by rw [hst]; rfl)
    obtain ⟨k', hk', -, hsound, hacked⟩ := (hinv.collects tx'.record (by rw [hst]; rfl)).collector
    have hk : s.server.peers.receiptCollector = some k := hk
    obtain rfl : k = k' := Option.some.inj (hk.symm.trans hk')
    have hdone : k.done = true := by simpa [Primary.LeaderTxn.quorumMet, hk] using hmet
    have htx := hinv.linked.log.stage
    rw [hst] at htx
    rw [← hrec, ← requiredReceipts_of_beginTx hbegin hg, ← hreq]
    exact ⟨(htx.2.2 _).mpr (Or.inl rfl), k.acked, hsound hdone, hacked⟩
  · exact absurd rfl hf

/-! ### A late Receipt -/

/-- The other nodes of a new cluster have its first record. -/
def firstCluster : Cluster :=
  .start Primary.Gate.fresh fun _ =>
    { db := Primary.Gate.firstTable, compactions := [], committed := 1, compaction := 0
      compacting := [] }

/-- A call up to the gate. -/
def call (key value : Bytes) : List Action :=
  [.primary (.requireActivePrimary (Primary.Gate.createRequest key value)), .primary (.acquire 0)]

/-- The Healthy node `"q"` handles a message. -/
def reads (now : Time) : Action := .processStream "q" now .healthy .replica true

/-- `"q"` follows and receipts a record that Path 1 commits at revision 2. -/
def joined : List Action :=
  [.connect "q" 5, .sendInitial 0, reads 6] ++ call [97] [1] ++
    [.primary (.beginTx 7 true), .primary (.upload .answered), .primary (.commitSync true),
      .primary .broadcastRecord, .primary .setCommitted, .primary .broadcastCommit,
      .sendLoop 0, reads 8, .sendLoop 0, reads 9, .recvLoop 0 10]

/-- The record is sent to `"q"` and stored there. -/
def proposed : List Action :=
  [.primary .startCollecting, .primary .broadcastRecord, .sendLoop 0, reads 12]

theorem quorum_commit_stored_once :
    ∃ s0 s1 s s', exec (step oneReceipt) firstCluster (joined ++ call [98] [1]) = some s0 ∧
      step oneReceipt s0 (.primary (.beginTx 11 true)) = some s1 ∧
      exec (step oneReceipt) s1 (proposed ++ [.recvLoop 0 13]) = some s ∧
      step oneReceipt s (.primary (.commitQuorum true)) = some s' ∧
      ∃ r, r ∈ s'.server.db ∧ r.revision = 3 ∧ ∃ stored : Finset NodeID,
        1 ≤ stored.card ∧ ∀ n ∈ stored, Stored s n r := by
  have hok : Meets (step oneReceipt) FreshRevision firstCluster
      (joined ++ call [98] [1] ++
        .primary (.beginTx 11 true) :: (proposed ++ [.recvLoop 0 13])) := by
    decide
  have h := quorum_commit_stored hok rfl rfl rfl (by decide) rfl rfl
  exact ⟨_, _, _, _, rfl, rfl, rfl, rfl, _, h.1, rfl, h.2⟩

/-- The wait for the first record at revision 3 times out while its Receipt is on the way. The
Replica reports itself Healthy again, and a second call uses the revision for its own record. -/
def lateReceipt : List Action :=
  joined ++ call [98] [1] ++ .primary (.beginTx 11 true) :: proposed ++
    [.primary .quorumTimeout, .primary (.peer (.heartbeat 13
      { nodeID := "q", health := .healthy, primary := .replica, latestRevision := 3 }))] ++
    call [98] [2] ++ [.primary (.beginTx 14 true), .primary .startCollecting,
      .primary .broadcastRecord, .recvLoop 0 15]

/-- The record of the second call. -/
def secondRecord : Record :=
  { revision := 3, key := [98], created := true, createRevision := 3, version := 1, value := [2],
    createdAt := some 14, leaderId := "p" }

/-- The late Receipt commits the record of the second call, which no Replica has stored. -/
theorem late_receipt_commits :
    ∃ s s', exec (step oneReceipt) firstCluster lateReceipt = some s ∧
      step oneReceipt s (.primary (.commitQuorum true)) = some s' ∧
      (∃ k, s.server.peers.receiptCollector = some k ∧ k.required = 1) ∧
      secondRecord ∈ s'.server.db ∧ ∀ n, ¬ Stored s n secondRecord := by
  have hother : ∀ n ≠ "q", ∀ s, exec (step oneReceipt) firstCluster lateReceipt = some s →
      ¬ Stored s n secondRecord := by
    intro n hn s hrun
    have hnode : s.nodes n = firstCluster.nodes n := by
      refine nodes_run_of_ne (fun a ha he => hn ?_) hrun
      have hq : ∀ a ∈ lateReceipt, a.node = none ∨ a.node = some "q" := by decide
      rcases hq a ha with h | h
      · cases h.symm.trans he
      · exact Option.some.inj (he.symm.trans h)
    unfold Stored
    rw [hnode]
    show ¬ ∃ b ∈ Primary.Gate.firstTable, SameRecord b secondRecord
    decide
  refine ⟨_, _, rfl, rfl, ⟨_, rfl, rfl⟩, by decide, fun n => ?_⟩
  by_cases hn : n = "q"
  · subst hn
    decide
  · exact hother n hn _ rfl

end Netsy.Replication.Receipts
