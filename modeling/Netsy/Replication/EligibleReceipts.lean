import Netsy.Primary.DurableLog
import Netsy.Replication.Streams

/-! # Which Receipts a quorum counts

A Replica counts toward a quorum if it is Healthy and has receipted before. The path of a
transaction is chosen by this rule, but the receive loop of a stream hands every Receipt to the
collector, whoever sent it. The observer beside the Primary notes which Receipts the rule allows.

They are all that come where, from the moment at which the collector is set, the connected Replicas
are those that count and go on reporting that they are Healthy. -/

namespace Netsy.Replication.EligibleReceipts

open Proto NodeState Lib.Run Primary.Follow Primary.Quorum
open Primary.ReplicaTracker Primary.LeaderTxn Primary.Transitions
open Primary.DurableLog (oneReceipt receipt)
open Replication.Streams (owner isOpen takeMessage_eq_some removeFollowStream_collector
  removeFollowStream_sessions followRecv_eq_some owner_enqueue isOpen_enqueue isOpen_close)
open Lib.Keyed (KeyedMap)

/-- A Receipt as `followRecvLoop` gets it. -/
structure Receipt where
  session : ℕ
  nodeID : NodeID
  health : HealthState
  revision : ℤ
deriving DecidableEq, Repr

/-- The Receipt that the action receives. -/
def receiptOf (p : Peers) : Action → Option Receipt
  | .peer (.recv i _ msg) =>
    match p.sessions[i]?, msg.heartbeat with
    | some session, some hb =>
      if hb.nodeID = session.nodeID ∧ 0 < msg.revision then
        some ⟨i, session.nodeID, hb.health, msg.revision⟩
      else none
    | _, _ => none
  | _ => none

/-- The Primary with what the observer notes: the streams on which a Receipt has come, and the
nodes of which an eligible Receipt for the running transaction has come. -/
structure Observed where
  server : Server
  receipted : Finset ℕ
  eligible : Finset NodeID

/-- The Receipt is from a Healthy Replica that has receipted before on its current stream: the
Replica reports so, the tracker has it so, and the stream is the one it follows. -/
def Eligible (o : Observed) (r : Receipt) : Prop :=
  r.health = .healthy ∧
    (∃ e ∈ o.server.peers.replicas.entries, e.nodeID = r.nodeID ∧ healthyForQuorum e = true) ∧
    (∃ session ∈ o.server.peers.sessions[r.session]?, session.isOpen = true) ∧
    r.session ∈ o.receipted

instance (o : Observed) (r : Receipt) : Decidable (Eligible o r) :=
  inferInstanceAs (Decidable (_ ∧ _ ∧ _ ∧ _))

/-- The Receipt is for the transaction whose Receipts are collected. -/
def forCollector (p : Peers) (r : Receipt) : Bool :=
  p.receiptCollector.any fun k => k.revision = r.revision

def startsCollecting : Action → Bool
  | .startCollecting => true
  | _ => false

/-- What the observer notes of an action. -/
def Observed.note (o : Observed) (a : Action) (server : Server) : Observed :=
  match receiptOf o.server.peers a with
  | some r =>
    { server := server
      receipted := insert r.session o.receipted
      eligible :=
        if forCollector o.server.peers r ∧ Eligible o r then insert r.nodeID o.eligible
        else o.eligible }
  | none =>
    { o with server := server, eligible := if startsCollecting a then ∅ else o.eligible }

def observe (c : Config) (o : Observed) (a : Action) : Option Observed :=
  (step c o.server a).map fun server => o.note a server

/-! ### Who is connected, and what they report -/

/-- The tracker has the node Healthy and with a Receipt. -/
def counts (m : Replicas) (n : NodeID) : Bool := (m.get n).any healthyForQuorum

/-- A Receipt has come on every open stream, and its node counts. -/
def AllQualified (p : Peers) (receipted : Finset ℕ) : Prop :=
  ∀ i < p.sessions.length, isOpen p.sessions i = true →
    i ∈ receipted ∧ ∀ n ∈ owner p.sessions i, counts p.replicas n = true

instance (p : Peers) (receipted : Finset ℕ) : Decidable (AllQualified p receipted) :=
  inferInstanceAs (Decidable (∀ i < p.sessions.length, _))

/-- What the other nodes may do while Receipts are collected: nobody opens a stream, every node that
reports is Healthy, messages come on open streams, no Replica has missed its heartbeats, and the
handler that ends is the one of its node's last stream. -/
def Calm (p : Peers) : PeerAction → Prop
  | .follow .. => False
  | .recv i _ msg => isOpen p.sessions i = true ∧ ∀ hb ∈ msg.heartbeat, hb.health = .healthy
  | .heartbeat _ hb => hb.health = .healthy
  | .checkDegradation deadline now => ∀ e ∈ p.replicas.entries, now - e.lastHeartbeat < deadline
  | .unfollow i => ∀ n ∈ owner p.sessions i, ∀ j < p.sessions.length, j ≠ i →
      isOpen p.sessions j = true → owner p.sessions j ≠ some n
  | _ => True

instance (p : Peers) : (a : PeerAction) → Decidable (Calm p a)
  | .follow .. => .isFalse id
  | .recv .. => inferInstanceAs (Decidable (_ ∧ ∀ hb ∈ _, _))
  | .heartbeat .. => inferInstanceAs (Decidable (_ = _))
  | .checkDegradation .. => inferInstanceAs (Decidable (∀ e ∈ p.replicas.entries, _))
  | .unfollow i => inferInstanceAs (Decidable (∀ n ∈ owner p.sessions i, _))
  | .send _ | .clusterState _ | .compact _ | .stopServices => .isTrue trivial

/-- **The runs in which the rule is kept.** When the collector is set, the connected Replicas are
those that count; until it is cleared, the other nodes are calm. -/
def Settled (o : Observed) : Action → Prop
  | .startCollecting => AllQualified o.server.peers o.receipted
  | .peer a => o.server.peers.receiptCollector.isSome = true → Calm o.server.peers a
  | _ => True

instance (o : Observed) (a : Action) : Decidable (Settled o a) := by
  unfold Settled
  split <;> infer_instance

/-! ### What the Primary does with its collector -/

variable {c : Config} {s s' : Server} {a : Action} {o o' : Observed} {p p' : Peers} {r : Receipt}
variable {k : ReceiptCollector} {as : List Action}

/-- The collector after an action. -/
inductive Collects (p : Peers) (a : Action) : Option ReceiptCollector → Prop
  | keep (h : startsCollecting a = false) : Collects p a p.receiptCollector
  | clear : Collects p a none
  | set (revision : ℤ) (required : ℕ) (h : startsCollecting a = true) :
      Collects p a (some (newReceiptCollector revision required))
  | count {r : Receipt} (h : receiptOf p a = some r) :
      Collects p a (p.receiptCollector.map fun k =>
        if k.revision = r.revision then k.collectReceipt r.nodeID else k)

theorem Collects.of_eq (ha : startsCollecting a = false)
    (h : p'.receiptCollector = p.receiptCollector) : Collects p a p'.receiptCollector := by
  rw [h]
  exact .keep ha

/-- What an action of the Primary itself does to what it keeps of the other nodes. -/
inductive Acts (p : Peers) (a : Action) : Peers → Prop
  | keep (h : startsCollecting a = false) : Acts p a p
  | clear {p' : Peers} (h : p'.receiptCollector = none) : Acts p a p'
  | set (revision : ℤ) (required : ℕ) (h : startsCollecting a = true) :
      Acts p a { p with receiptCollector := some (newReceiptCollector revision required) }
  | broadcast (msg : PrimaryMessage) (h : startsCollecting a = false) : Acts p a (p.broadcast msg)
  | reset (h : startsCollecting a = false) : Acts p a p.reset

theorem acts_flushReturns (ha : startsCollecting a = false) (s : Server)
    (owner : Primary.ChunkBuffer.FlushOwner) (res : Except Datastore.PutError Unit) :
    Acts s.peers a (s.flushReturns owner res).peers := by
  cases owner with
  | background => exact .keep ha
  | drain => exact .keep ha
  | txn =>
    cases res with
    | ok u => exact .clear rfl
    | error e => exact .keep ha

theorem acts_step (ha : ∀ b, a ≠ .peer b) (h : step c s a = some s') :
    Acts s.peers a s'.peers := by
  cases a with
  | startCollecting =>
    obtain ⟨_, tx, required, -, rfl⟩ := startCollecting_eq_some h
    exact .set tx.record.revision required rfl
  | commitQuorum ok =>
    obtain ⟨_, _, -, -, ⟨-, rfl⟩ | ⟨-, rfl⟩⟩ := commitQuorum_eq_some h
    · exact .keep rfl
    · exact .clear rfl
  | quorumTimeout =>
    obtain ⟨_, _, -, rfl⟩ := quorumTimeout_eq_some h
    exact .clear rfl
  | broadcastRecord =>
    obtain ⟨_, ⟨_, -, rfl⟩ | ⟨_, -, rfl⟩⟩ := broadcastRecord_eq_some h
    · exact .broadcast _ rfl
    · exact .broadcast _ rfl
  | broadcastCommit =>
    obtain ⟨_, _, ⟨-, rfl⟩ | ⟨-, rfl⟩⟩ := broadcastCommit_eq_some h
    · exact .broadcast _ rfl
    · exact .broadcast _ rfl
  | bufferRecord =>
    obtain ⟨_, _, -, rfl | rfl⟩ := bufferRecord_eq_some h
    · exact .keep rfl
    · exact .clear rfl
  | checkFull =>
    obtain ⟨_, -, rfl | rfl⟩ := checkFull_eq_some h
    · exact .clear rfl
    · obtain ⟨q, w, he⟩ := drainIfActive_eq s.finishQuorum
      rw [he]
      exact .clear rfl
  | flush owner now =>
    obtain ⟨-, ⟨-, rfl⟩ | ⟨b, f, -, rfl⟩⟩ := flush_eq_some h
    · exact acts_flushReturns rfl s owner (.ok ())
    · obtain ⟨d, he⟩ := flushWaits_eq { s with buffer := b, flush := some f } owner
      rw [he]
      exact .keep rfl
  | flushEnd =>
    obtain ⟨f, res, -, -, rfl⟩ := flushEnd_eq_some h
    exact acts_flushReturns rfl { s with buffer := s.buffer.endFlush f res, flush := none }
      f.owner res
  | resignLeadership =>
    obtain ⟨-, rfl⟩ := resignLeadership_eq_some h
    exact .reset rfl
  | peer b => exact absurd rfl (ha b)
  | _ =>
    rw [(frame_step h).peers rfl]
    exact .keep rfl

theorem Acts.collects (h : Acts p a p') : Collects p a p'.receiptCollector := by
  cases h with
  | keep ha => exact .keep ha
  | clear hnone =>
    rw [hnone]
    exact .clear
  | set revision required ha => exact .set revision required ha
  | broadcast msg ha => exact .keep ha
  | reset ha => exact .keep ha

theorem collector_peer {b : PeerAction} (h : p.act s.primary b = some p') :
    p'.receiptCollector = p.receiptCollector ∨
      ∃ r, receiptOf p (.peer b) = some r ∧ p'.receiptCollector = p.receiptCollector.map fun k =>
        if k.revision = r.revision then k.collectReceipt r.nodeID else k := by
  cases b with
  | recv i now msg =>
    obtain ⟨session, hi, hrecv⟩ := Option.bind_eq_some_iff.mp h
    unfold Peers.followRecv at hrecv
    cases hm : msg.heartbeat with
    | none =>
      simp only [hm] at hrecv
      cases hrecv
      exact Or.inl rfl
    | some hb =>
      simp only [hm] at hrecv
      split_ifs at hrecv with hid hrev
      · cases hrecv
        exact Or.inr ⟨⟨i, session.nodeID, hb.health, msg.revision⟩,
          by simp [receiptOf, hi, hm, not_not.mp hid, hrev], rfl⟩
      · cases hrecv
        exact Or.inl rfl
  | send i =>
    obtain ⟨⟨msg, p'⟩, htake, rfl⟩ := Option.map_eq_some_iff.mp h
    exact Or.inl (takeMessage_eq_some htake).1
  | unfollow i =>
    cases h
    exact Or.inl (removeFollowStream_collector p i)
  | follow nodeID now =>
    simp only [Peers.act] at h
    split_ifs at h
    cases h
    exact Or.inl rfl
  | heartbeat now hb =>
    simp only [Peers.act] at h
    split_ifs at h
    cases h
    exact Or.inl rfl
  | checkDegradation deadline now =>
    cases h
    exact Or.inl rfl
  | clusterState nodeCount =>
    cases h
    exact Or.inl rfl
  | compact rev =>
    cases h
    exact Or.inl rfl
  | stopServices =>
    cases h
    exact Or.inl rfl

theorem collects_peer {b : PeerAction} (h : p.act s.primary b = some p') :
    Collects p (.peer b) p'.receiptCollector := by
  rcases collector_peer h with hkeep | ⟨r, hr, hcount⟩
  · exact .of_eq rfl hkeep
  · rw [hcount]
    exact .count hr

theorem collects_step (h : step c s a = some s') :
    Collects s.peers a s'.peers.receiptCollector := by
  by_cases hpeer : ∃ b, a = .peer b
  · obtain ⟨b, rfl⟩ := hpeer
    obtain ⟨p', hp, rfl⟩ := Option.map_eq_some_iff.mp h
    exact collects_peer hp
  · exact (acts_step (fun b hb => hpeer ⟨b, hb⟩) h).collects

/-! ### The streams while Receipts are collected -/

variable {m : Replicas} {n : NodeID} {hb : Heartbeat} {now : Time} {deadline : ℤ} {i : ℕ}
  {receipted receipted' : Finset ℕ}

theorem counts_iff : counts m n = true ↔
    ∃ e ∈ m.entries, e.nodeID = n ∧ healthyForQuorum e = true := by
  simp only [counts, Option.any_eq_true, KeyedMap.get_eq_some, and_assoc]

theorem healthyForQuorum_iff {e : Replica} :
    healthyForQuorum e = true ↔ e.health = .healthy ∧ e.receiptCount ≠ 0 := by
  simp [healthyForQuorum]

theorem counts_updateHeartbeat (hb_healthy : hb.health = .healthy) (h : counts m n = true) :
    counts (updateHeartbeat m now hb) n = true := by
  obtain ⟨e, he, hcounts⟩ := (Option.any_eq_true _ _).mp h
  rw [counts, updateHeartbeat, KeyedMap.get_modifyKey]
  split_ifs with hn
  · rw [← hn, he]
    exact healthyForQuorum_iff.mpr ⟨hb_healthy, (healthyForQuorum_iff.mp hcounts).2⟩
  · exact h

theorem counts_updateReceipt (hb_healthy : hb.health = .healthy) (h : counts m n = true) :
    counts (updateReceipt m now hb) n = true := by
  obtain ⟨e, he, -⟩ := (Option.any_eq_true _ _).mp h
  rw [counts, updateReceipt, KeyedMap.get_modifyKey]
  split_ifs with hn
  · rw [← hn, he]
    exact healthyForQuorum_iff.mpr ⟨hb_healthy, Nat.succ_ne_zero e.receiptCount⟩
  · exact h

theorem counts_checkDegradation (hlive : ∀ e ∈ m.entries, now - e.lastHeartbeat < deadline) :
    counts (checkDegradation m deadline now) n = counts m n := by
  rw [counts, checkDegradation, KeyedMap.get_modify, counts]
  cases hget : m.get n with
  | none => rfl
  | some e =>
    have hlt := hlive e (KeyedMap.get_eq_some.mp hget).1
    rw [Option.map_some, if_neg fun h => absurd h.2 (not_le.mpr hlt)]

theorem lt_of_isOpen {ss : List Session} (h : isOpen ss i = true) : i < ss.length := by
  by_contra hge
  simp [isOpen, List.getElem?_eq_none (not_lt.mp hge)] at h

theorem AllQualified.mono (h : AllQualified p receipted) (hsub : receipted ⊆ receipted')
    (hopen : ∀ i, isOpen p'.sessions i = true →
      isOpen p.sessions i = true ∧ owner p'.sessions i = owner p.sessions i)
    (hcounts : ∀ i n, isOpen p'.sessions i = true → owner p'.sessions i = some n →
      counts p.replicas n = true → counts p'.replicas n = true) : AllQualified p' receipted' := by
  intro i _ hi
  obtain ⟨hold, howner⟩ := hopen i hi
  obtain ⟨hmem, hall⟩ := h i (lt_of_isOpen hold) hold
  refine ⟨hsub hmem, fun n hn => hcounts i n hi hn (hall n ?_)⟩
  rw [← howner]
  exact hn

theorem AllQualified.of_closed (h : ∀ i, isOpen p.sessions i = false) :
    AllQualified p receipted := by
  intro i _ hi
  rw [h i] at hi
  cases hi

theorem AllQualified.broadcast (h : AllQualified p receipted) (msg : PrimaryMessage) :
    AllQualified (p.broadcast msg) receipted :=
  h.mono (Finset.Subset.refl _) (fun _ hi => ⟨isOpen_enqueue ▸ hi, owner_enqueue⟩)
    fun _ _ _ _ => id

theorem AllQualified.reset : AllQualified p.reset receipted :=
  .of_closed fun _ => isOpen_close

theorem AllQualified.act {state : PrimaryState} {b : PeerAction} (h : AllQualified p receipted)
    (hcalm : Calm p b) (hact : p.act state b = some p') : AllQualified p' receipted := by
  cases b with
  | follow nodeID now => exact hcalm.elim
  | unfollow i =>
    cases hact
    refine h.mono (Finset.Subset.refl _) (fun j hj => ?_) fun j n hj hn hc => ?_
    · obtain ⟨howner, -, hopen⟩ := removeFollowStream_sessions p i j
      exact ⟨hopen hj, howner⟩
    · obtain ⟨howner, -, hopen⟩ := removeFollowStream_sessions p i j
      rw [howner] at hn
      unfold Peers.removeFollowStream at hj ⊢
      cases hsession : p.sessions[i]? with
      | none => exact hc
      | some session =>
        have hi : owner p.sessions i = some session.nodeID := by simp [owner, hsession]
        have hne : j ≠ i := by
          rintro rfl
          simp [hsession, isOpen, Session.close] at hj
        have hother : n ≠ session.nodeID := by
          rintro rfl
          exact hcalm _ hi j (lt_of_isOpen (hopen hj)) hne (hopen hj) hn
        simp only [counts, KeyedMap.get_remove, if_neg hother]
        exact hc
  | send i =>
    obtain ⟨⟨msg, p'⟩, htake, rfl⟩ := Option.map_eq_some_iff.mp hact
    have hreplicas : p'.replicas = p.replicas := by
      unfold Peers.takeMessage at htake
      split at htake
      · split at htake
        · cases htake
          rfl
        · cases htake
      · cases htake
    obtain ⟨-, -, -, hsessions⟩ := takeMessage_eq_some htake
    refine h.mono (Finset.Subset.refl _) (fun j hj => ?_) fun j n _ _ hc => hreplicas ▸ hc
    exact ⟨(hsessions j).2 ▸ hj, (hsessions j).1⟩
  | recv i now msg =>
    obtain ⟨session, -, hrecv⟩ := Option.bind_eq_some_iff.mp hact
    obtain ⟨hsessions, -⟩ := followRecv_eq_some hrecv
    refine h.mono (Finset.Subset.refl _) (fun j hj => ?_) fun j n _ _ hc => ?_
    · rw [hsessions] at hj ⊢
      exact ⟨hj, rfl⟩
    · unfold Peers.followRecv at hrecv
      cases hm : msg.heartbeat with
      | none =>
        simp only [hm] at hrecv
        cases hrecv
        exact hc
      | some hb =>
        have hhealthy : hb.health = .healthy := hcalm.2 hb hm
        simp only [hm] at hrecv
        split_ifs at hrecv
        · cases hrecv
          exact counts_updateReceipt hhealthy hc
        · cases hrecv
          exact counts_updateHeartbeat hhealthy hc
  | heartbeat now hb =>
    simp only [Peers.act] at hact
    split_ifs at hact
    cases hact
    exact h.mono (Finset.Subset.refl _) (fun j hj => ⟨hj, rfl⟩)
      fun j n _ _ hc => counts_updateHeartbeat hcalm hc
  | checkDegradation deadline now =>
    cases hact
    exact h.mono (Finset.Subset.refl _) (fun j hj => ⟨hj, rfl⟩)
      fun j n _ _ hc => (counts_checkDegradation hcalm).trans hc
  | clusterState nodeCount =>
    cases hact
    exact h
  | compact rev =>
    cases hact
    exact AllQualified.broadcast (p := { p with compaction := rev }) h (.compact rev)
  | stopServices =>
    cases hact
    exact .reset

/-- **The Primary itself** closes streams and degrades Replicas only where no collector is left. -/
theorem AllQualified.acts (h : AllQualified p receipted) (hacts : Acts p a p') :
    p'.receiptCollector = none ∨ AllQualified p' receipted := by
  cases hacts with
  | keep _ => exact Or.inr h
  | clear hnone => exact Or.inl hnone
  | set revision required _ => exact Or.inr h
  | broadcast msg _ => exact Or.inr (h.broadcast msg)
  | reset _ => exact Or.inr .reset

/-! ### Runs -/

/-- While Receipts are collected, the open streams are those that count. -/
def Steady (o : Observed) : Prop :=
  o.server.peers.receiptCollector.isSome = true → AllQualified o.server.peers o.receipted

theorem Steady.eligible (h : Steady o) (hok : Settled o a)
    (hr : receiptOf o.server.peers a = some r)
    (hcollects : o.server.peers.receiptCollector.isSome = true) : Eligible o r := by
  unfold receiptOf at hr
  split at hr
  · rename_i i now msg
    obtain ⟨hopen, hhealthy⟩ := hok hcollects
    split at hr
    · rename_i session hb hsession hheartbeat
      split_ifs at hr
      cases hr
      obtain ⟨hmem, hall⟩ := h hcollects i (lt_of_isOpen hopen) hopen
      refine ⟨hhealthy hb hheartbeat, ?_, ⟨session, hsession, ?_⟩, hmem⟩
      · exact counts_iff.mp (hall session.nodeID (by simp [owner, hsession]))
      · simpa [isOpen, hsession] using hopen
    · cases hr
  · cases hr

/-- The collector has counted eligible Receipts only, as many as it says. -/
structure Counted (o : Observed) (k : ReceiptCollector) : Prop where
  eligible : k.acked ⊆ o.eligible
  sound : k.Sound

theorem eligible_note_of_none (hr : receiptOf o.server.peers a = none)
    (ha : startsCollecting a = false) : (o.note a s').eligible = o.eligible := by
  simp [Observed.note, hr, ha]

theorem subset_eligible_note (hr : receiptOf o.server.peers a = some r) :
    o.eligible ⊆ (o.note a s').eligible := by
  simp only [Observed.note, hr]
  split_ifs
  · exact Finset.subset_insert r.nodeID o.eligible
  · exact Finset.Subset.refl _

theorem counted_collectReceipt (hr : receiptOf o.server.peers a = some r)
    (hk : o.server.peers.receiptCollector = some k) (hrev : k.revision = r.revision)
    (h : Counted o k) (heligible : Eligible o r) :
    Counted (o.note a s') (k.collectReceipt r.nodeID) := by
  refine ⟨fun n hn => ?_, h.sound.collectReceipt r.nodeID⟩
  by_cases hmem : n ∈ k.acked
  · exact subset_eligible_note hr (h.eligible hmem)
  · -- the node is new, so it is the sender, and the Receipt is eligible
    obtain rfl : n = r.nodeID := (ReceiptCollector.mem_acked_collectReceipt hn).resolve_right hmem
    have hfor : forCollector o.server.peers r = true := by
      simp [forCollector, hk, hrev]
    simp only [Observed.note, hr, if_pos (And.intro hfor heligible)]
    exact Finset.mem_insert_self r.nodeID o.eligible

theorem startsCollecting_of_receiptOf (hr : receiptOf p a = some r) :
    startsCollecting a = false := by
  cases a <;> first | rfl | cases hr

theorem server_note : (o.note a s').server = s' := by
  unfold Observed.note
  split <;> rfl

theorem Counted.note (h : Counted o k) (ha : startsCollecting a = false) :
    Counted (o.note a s') k := by
  refine ⟨h.eligible.trans ?_, h.sound⟩
  cases hr : receiptOf o.server.peers a with
  | none => rw [eligible_note_of_none hr ha]
  | some r => exact subset_eligible_note hr

theorem receipted_note : o.receipted ⊆ (o.note a s').receipted := by
  unfold Observed.note
  split
  · exact Finset.subset_insert _ _
  · exact Finset.Subset.refl _

theorem steady_step (h : Steady o) (hok : Settled o a) (hs : observe c o a = some o') :
    Steady o' := by
  obtain ⟨server, hstep, rfl⟩ := Option.map_eq_some_iff.mp hs
  intro hafter
  rw [server_note] at hafter ⊢
  refine AllQualified.mono (p := server.peers) ?_ receipted_note (fun _ hi => ⟨hi, rfl⟩)
    fun _ _ _ _ => id
  by_cases hpeer : ∃ b, a = .peer b
  · obtain ⟨b, rfl⟩ := hpeer
    obtain ⟨p', hp, rfl⟩ := Option.map_eq_some_iff.mp hstep
    have hbefore : o.server.peers.receiptCollector.isSome = true := by
      rcases collector_peer hp with hkeep | ⟨r, -, hcount⟩
      · rwa [← hkeep]
      · change p'.receiptCollector.isSome = true at hafter
        rwa [hcount, Option.isSome_map] at hafter
    exact (h hbefore).act (hok hbefore) hp
  · have hown : ∀ b, a ≠ .peer b := fun b hb => hpeer ⟨b, hb⟩
    have hbefore : AllQualified o.server.peers o.receipted := by
      by_cases hstart : startsCollecting a = true
      · cases a with
        | startCollecting => exact hok
        | _ => cases hstart
      · refine h ?_
        have hcollects := collects_step hstep
        generalize server.peers.receiptCollector = k at hcollects hafter
        cases hcollects with
        | keep _ => exact hafter
        | clear => cases hafter
        | set revision required ha => exact absurd ha hstart
        | count _ => rwa [Option.isSome_map] at hafter
    refine (hbefore.acts (acts_step hown hstep)).resolve_left fun hnone => ?_
    rw [hnone] at hafter
    cases hafter

theorem counted_step (h : ∀ k, o.server.peers.receiptCollector = some k → Counted o k)
    (hsteady : Steady o) (hok : Settled o a) (hs : observe c o a = some o') :
    ∀ k, o'.server.peers.receiptCollector = some k → Counted o' k := by
  obtain ⟨server, hstep, rfl⟩ := Option.map_eq_some_iff.mp hs
  intro k hk
  rw [server_note] at hk
  have hcollects := collects_step hstep
  rw [hk] at hcollects
  generalize hc : some k = collector at hcollects
  cases hcollects with
  | keep ha => exact (h k hc.symm).note ha
  | clear => cases hc
  | set revision required ha =>
    cases hc
    exact ⟨by simp [newReceiptCollector], sound_newReceiptCollector revision required⟩
  | count hr =>
    obtain ⟨k0, hk0, rfl⟩ := Option.map_eq_some_iff.mp hc.symm
    split_ifs with hrev
    · exact counted_collectReceipt hr hk0 hrev (h k0 hk0)
        (hsteady.eligible hok hr (by rw [hk0]; rfl))
    · exact (h k0 hk0).note (startsCollecting_of_receiptOf hr)

/-- **Only eligible Receipts count**, in every run in which the Replicas that are connected when a
collector is set are those that count, and nobody else connects or reports anything but Healthy
while it is set: the threshold is reached by Receipts of Healthy Replicas that had receipted before.
-/
theorem quorum_counts_eligible_receipts {receipted : Finset ℕ}
    (hstart : s.peers.receiptCollector = none)
    (hok : Meets (observe c) Settled ⟨s, receipted, ∅⟩ as)
    (hrun : exec (observe c) ⟨s, receipted, ∅⟩ as = some o)
    (hk : o.server.peers.receiptCollector = some k) :
    k.acked ⊆ o.eligible ∧ (k.done = true → k.required ≤ k.acked.card) := by
  have hinv : Steady o ∧ ∀ k, o.server.peers.receiptCollector = some k → Counted o k := by
    refine exec_invariant
      (I := fun o => Steady o ∧ ∀ k, o.server.peers.receiptCollector = some k → Counted o k)
      (fun _ _ _ h hok hs => ⟨steady_step h.1 hok hs, counted_step h.2 h.1 hok hs⟩)
      ⟨fun hsome => ?_, fun k hk => ?_⟩ hok hrun
    · rw [hstart] at hsome
      cases hsome
    · cases hstart.symm.trans hk
  exact ⟨(hinv.2 k hk).eligible, (hinv.2 k hk).sound⟩

/-- The Healthy node `"q"` follows and has receipted the first record. -/
def followed : List Action := [.peer (.follow "q" 5), .peer (.recv 0 6 (receipt 1))]

/-- A call up to the point where its Receipts are collected. -/
def proposes : List Action :=
  [.requireActivePrimary (Primary.Gate.createRequest [98] [1]), .acquire 0, .beginTx 8 true,
    .startCollecting, .broadcastRecord]

/-- The Receipt of `"q"` is eligible. -/
theorem quorum_counts_eligible_once :
    ∃ o k, exec (observe oneReceipt) ⟨Primary.Gate.fresh, ∅, ∅⟩
        (followed ++ proposes ++ [.peer (.recv 0 9 (receipt 2))]) = some o ∧
      o.server.peers.receiptCollector = some k ∧ k.acked = {"q"} ∧ k.done = true ∧
      k.acked ⊆ o.eligible := by
  have hok : Meets (observe oneReceipt) Settled ⟨Primary.Gate.fresh, ∅, ∅⟩
      (followed ++ proposes ++ [.peer (.recv 0 9 (receipt 2))]) := by decide +kernel
  obtain ⟨o, hrun, k, hk, hacked, hdone⟩ := exists_exec_of_any (observe oneReceipt)
    ⟨Primary.Gate.fresh, ∅, ∅⟩ (followed ++ proposes ++ [.peer (.recv 0 9 (receipt 2))])
    (fun o => ∃ k ∈ o.server.peers.receiptCollector, k.acked = {"q"} ∧ k.done = true)
    (by decide +kernel)
  exact ⟨o, k, hrun, hk, hacked, hdone, (quorum_counts_eligible_receipts rfl hok hrun hk).1⟩

/-- The Receipt of `"r"`, a node that is Loading. -/
def loadingReceipt : ReplicaMessage :=
  { revision := 2
    heartbeat := some { nodeID := "r", health := .loading, primary := .replica,
                        latestRevision := 2 } }

/-- The Receipt of a Loading Replica that has never receipted commits the transaction. -/
theorem loading_receipt_commits :
    ∃ o, exec (observe oneReceipt) ⟨Primary.Gate.fresh, ∅, ∅⟩
        (followed ++ [.peer (.follow "r" 7)] ++ proposes ++ [.peer (.recv 1 9 loadingReceipt)]) =
          some o ∧
      (∃ k ∈ o.server.peers.receiptCollector, k.acked = {"r"} ∧ k.done = true) ∧
      o.eligible = ∅ ∧ (step oneReceipt o.server (.commitQuorum true)).isSome := by
  refine exists_exec_of_any (observe oneReceipt) ⟨Primary.Gate.fresh, ∅, ∅⟩ _
    (fun o => (∃ k ∈ o.server.peers.receiptCollector, k.acked = {"r"} ∧ k.done = true) ∧
      o.eligible = ∅ ∧ (step oneReceipt o.server (.commitQuorum true)).isSome) ?_
  decide +kernel

end Netsy.Replication.EligibleReceipts
