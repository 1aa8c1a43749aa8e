import Netsy.Lib.LastWrite
import Netsy.Replication.Receipts

/-! # A Replica and the log of its Primary

A Replica takes the committed revision of an Initial or a Commit as its own and does not look at its
rows. What makes that right is what the stream has brought before: every Record of the log, each
before the Commit of its revision. A Record that the full channel of a session drops, or that is
sent while the node has no stream, is not sent again, so the next Initial or Commit covers a row
that the Replica does not have, or a row that was rolled back. -/

namespace Netsy.Replication.PrefixAgreement

open Proto NodeState Lib.Run Lib.LastWrite LocalDB.Schema LocalDB.Replicate Primary.Follow
open Primary.LeaderTxn (Config Server)
open Primary.Transitions (TxOk)
open Primary.ReplicatedLog (Log Ok Full Stage log log_step rows_step full_step)
open Primary.DurableLog (oneReceipt)
open Replication.ProcessStream Replication.Streams
open Replication.Receipts (firstCluster call reads joined proposed)

/-- A row of the log up to the revision. -/
def Row (db : Table) (upTo : ℤ) (a : Record) : Prop := a ∈ db ∧ 1 ≤ a.revision ∧ a.revision ≤ upTo

/-- A Record replaces the row of its revision. -/
def writes : PrimaryMessage → Record → Option Prop
  | .record x, a => if x.revision = a.revision then some (SameRecord x a) else none
  | _, _ => none

/-- The committed revision that a message brings. -/
def announces : PrimaryMessage → Option ℤ
  | .initial c _ | .commit c => some c
  | _ => none

/-- The rows that a message takes for granted. -/
def needs (db : Table) (m : PrimaryMessage) (a : Record) : Prop := ∃ c ∈ announces m, Row db c a

/-- The record of a call between `BroadcastRecord` and `BroadcastCommit`. -/
def sent : Stage → Option Record
  | .proposed tx => some tx.record
  | .behind r | .advanced r => some r
  | _ => none

/-- What holds of the messages `q` that a stream will bring to a reader who has `held`: each finds
the rows it takes for granted, and if the stream is open, the reader has the committed log and the
record that is sent after the last one. Before the Initial, only the latter is in the queue. -/
structure StreamOk (db : Table) (committed : ℤ) (sent : Option Record) (held : Record → Prop)
    (initialSent : Bool) (q : List PrimaryMessage) (isOpen : Bool) : Prop where
  bound : ∀ m ∈ q, ∀ c ∈ announces m, c ≤ committed
  fed : initialSent = true → Fed writes (needs db) held q
  last : initialSent = true → isOpen = true → ∀ a, Row db committed a ∨ sent = some a →
    afterAll writes held q a
  early : initialSent = false → isOpen = true → ∀ a, sent = some a →
    afterAll writes (fun _ => False) q a

structure Inv (n : NodeID) (s : Cluster) : Prop where
  linked : Linked s
  full : Full (log s.server)
  le : (s.nodes n).follower.committed ≤ s.server.committed
  holds : ∀ a, Row s.server.db (s.nodes n).follower.committed a → Held (s.nodes n).follower a
  stream : ∀ i, (s.nodes n).stream = some i →
    StreamOk s.server.db s.server.committed (sent (log s.server).stage)
      (Held (s.nodes n).follower) (s.conns i).initialSent (pending s i)
      (isOpen s.server.peers.sessions i)

/-- A Record that the message carries is above the revision. -/
def recordAbove (revision : ℤ) : PrimaryMessage → Bool
  | .record x => revision < x.revision
  | _ => true

/-- The stream of the node misses nothing: a Record finds room in its open session; the node
connects while no call is between `BroadcastRecord` and `BroadcastCommit`; and when the Initial is
sent the node has the committed log, and no Record of it waits in the channel. -/
def Delivers (n : NodeID) (s : Cluster) : Action → Prop
  | .primary .broadcastRecord => ∀ i ∈ (s.nodes n).stream,
      isOpen s.server.peers.sessions i = true →
      (channel s.server.peers.sessions i).length < streamBufferSize
  | .connect m _ => m = n → (sent (log s.server).stage).isNone
  | .sendInitial i => (s.nodes n).stream = some i →
      (∀ a ∈ s.server.db, 1 ≤ a.revision → a.revision ≤ s.server.committed →
        Held (s.nodes n).follower a) ∧
      ∀ msg ∈ channel s.server.peers.sessions i, recordAbove s.server.committed msg
  | _ => True

instance (n : NodeID) (s : Cluster) : ∀ a, Decidable (Delivers n s a) := by
  intro a
  unfold Delivers
  split <;> infer_instance

variable {c : Config} {n m : NodeID} {s s' : Cluster} {a : Action} {db db' : Table} {cm cm' rev : ℤ}
  {st st' : Option Record} {held held' : Record → Prop} {b o o' : Bool} {q w : List PrimaryMessage}
  {msg : PrimaryMessage} {r x : Record} {l l' : Log} {i : ℕ} {f : Follower} {now : Time}

theorem Row.le (h : Row db rev r) (hle : rev ≤ cm) : Row db cm r := ⟨h.1, h.2.1, h.2.2.trans hle⟩

theorem writes_record_of_eq (h : x.revision = r.revision) :
    writes (.record x) r = some (SameRecord x r) := if_pos h

theorem writes_record_of_ne (h : x.revision ≠ r.revision) : writes (.record x) r = none := if_neg h

/-! ### The messages of a stream -/

theorem StreamOk.mono (h : StreamOk db cm st held b q o) (hh : ∀ r, held r → held' r) :
    StreamOk db cm st held' b q o := by
  refine ⟨h.bound, ?_, ?_, h.early⟩
  · intro hb
    exact (h.fed hb).mono hh fun _ _ _ hn => hn
  · intro hb ho r hr
    exact afterAll_mono (hh r) (h.last hb ho r hr)

theorem StreamOk.relabel (h : StreamOk db cm st held b q o)
    (ho : o' = true → o = true ∧ ∀ r, st' = some r → st = some r) :
    StreamOk db cm st' held b q o' := by
  refine ⟨h.bound, h.fed, ?_, ?_⟩
  · intro hb hop r hr
    obtain ⟨hop, hst⟩ := ho hop
    exact h.last hb hop r (hr.imp_right (hst r))
  · intro hb hop r hr
    obtain ⟨hop, hst⟩ := ho hop
    exact h.early hb hop r (hst r hr)

theorem StreamOk.grow (h : StreamOk db cm st held b q o) (hle : cm ≤ cm')
    (hdb : ∀ r, Row db' cm r → Row db cm r)
    (hrow : ∀ r, Row db' cm' r → Row db cm r ∨ st = some r) :
    StreamOk db' cm' st held b q o := by
  refine ⟨fun m hm k hk => (h.bound m hm k hk).trans hle, fun hb => ?_, ?_, h.early⟩
  · refine (h.fed hb).mono (fun _ hr => hr) ?_
    rintro m hm r ⟨k, hk, hr⟩
    exact ⟨k, hk, (hdb r (hr.le (h.bound m hm k hk))).1, hr.2⟩
  · intro hb ho r hr
    exact h.last hb ho r (hr.elim (hrow r) Or.inr)

/-- **A message is put at the end.** It takes no more rows for granted than are committed, writes
none of them, and leaves or brings the record that is sent. -/
theorem StreamOk.push (h : StreamOk db cm st held b q true) (hb : ∀ k ∈ announces msg, k ≤ cm)
    (hrow : ∀ r, Row db cm r → writes msg r = none)
    (hst : ∀ r, st' = some r → (st = some r ∧ writes msg r = none) ∨
      writes msg r = some (SameRecord r r)) : StreamOk db cm st' held b (q ++ [msg]) true := by
  have hkeep : ∀ {h0 : Record → Prop} {r}, writes msg r = none → afterAll writes h0 q r →
      afterAll writes h0 (q ++ [msg]) r := by
    intro h0 r hw hr
    rw [afterAll_append]
    exact (after_of_none hw).mpr hr
  have hnew : ∀ {h0 : Record → Prop} {r}, writes msg r = some (SameRecord r r) →
      afterAll writes h0 (q ++ [msg]) r := by
    intro h0 r hw
    rw [afterAll_append]
    exact (after_of_some hw).mpr (SameRecord.refl r)
  refine ⟨fun m hm k hk => ?_, fun hs => ?_, fun hs _ r hr => ?_, fun hs _ r hr => ?_⟩
  · rcases List.mem_append.mp hm with hm | hm
    · exact h.bound m hm k hk
    · rw [List.mem_singleton.mp hm] at hk
      exact hb k hk
  · refine fed_concat.mpr ⟨h.fed hs, ?_⟩
    rintro r ⟨k, hk, hr⟩
    exact h.last hs rfl r (Or.inl (hr.le (hb k hk)))
  · rcases hr with hr | hr
    · exact hkeep (hrow r hr) (h.last hs rfl r (Or.inl hr))
    · rcases hst r hr with ⟨hr, hw⟩ | hw
      · exact hkeep hw (h.last hs rfl r (Or.inr hr))
      · exact hnew hw
  · rcases hst r hr with ⟨hr, hw⟩ | hw
    · exact hkeep hw (h.early hs rfl r hr)
    · exact hnew hw

theorem StreamOk.tail (h : StreamOk db cm st held true (msg :: q) o)
    (hh : ∀ r, after writes held msg r → held' r) : StreamOk db cm st held' true q o := by
  refine ⟨?_, ?_, ?_, fun hb => (by cases hb)⟩
  · intro m hm
    exact h.bound m (List.mem_cons_of_mem msg hm)
  · intro hb
    obtain ⟨-, hfed⟩ := h.fed hb
    exact hfed.mono hh fun _ _ _ hn => hn
  · intro hb ho r hr
    exact afterAll_mono (hh r) (h.last hb ho r hr)

/-- The Initial is sent: the reader has the committed log, and nothing in the channel writes to
it. -/
theorem StreamOk.initial {k : ℤ} (h : StreamOk db cm st held false q o)
    (hheld : ∀ r, Row db cm r → held r) (hq : ∀ m ∈ q, recordAbove cm m = true) :
    StreamOk db cm st held true (.initial cm k :: q) o := by
  have hnone : ∀ r, Row db cm r → ∀ m ∈ q, writes m r = none := by
    intro r hr m hm
    have hab := hq m hm
    cases m with
    | record x =>
      have hab : cm < x.revision := by simpa [recordAbove] using hab
      exact writes_record_of_ne (by have := hr.2.2; omega)
    | _ => rfl
  have hneeds : ∀ m ∈ q, ∀ r, needs db m r → Row db cm r := by
    rintro m hm r ⟨k, hk, hr⟩
    exact hr.le (h.bound m hm k hk)
  refine ⟨?_, fun _ => ⟨?_, ?_⟩, fun _ ho r hr => ?_, fun hb => (by cases hb)⟩
  · intro m hm k hk
    rcases List.mem_cons.mp hm with rfl | hm
    · cases hk
      exact le_refl _
    · exact h.bound m hm k hk
  · rintro r ⟨k, hk, hr⟩
    cases hk
    exact hheld r hr
  · exact fed_of_none (fun m hm r hr => hheld r (hneeds m hm r hr))
      fun m hm r hr => hnone r (hneeds m hm r hr)
  · rcases hr with hr | hr
    · exact (afterAll_of_none (hnone r hr)).mpr (hheld r hr)
    · exact afterAll_mono (fun hf => absurd hf id) (h.early rfl ho r hr)

/-! ### The Primary takes a step -/

theorem streamOk_enqueue {ss : List Session}
    (h : StreamOk db cm st held b (w ++ channel ss i) (isOpen ss i))
    (hb : ∀ k ∈ announces msg, k ≤ cm) (hrow : ∀ r, Row db cm r → writes msg r = none)
    (hst : ∀ r, st' = some r → (st = some r ∧ writes msg r = none) ∨
      writes msg r = some (SameRecord r r))
    (hfull : isOpen ss i = true → ¬ (channel ss i).length < streamBufferSize →
      ∀ r, st' = some r → st = some r) :
    StreamOk db cm st' held b (w ++ channel (ss.map fun s => s.enqueue msg) i)
      (isOpen (ss.map fun s => s.enqueue msg) i) := by
  rw [isOpen_enqueue, channel_enqueue]
  split_ifs with hr
  · rw [hr.1] at h ⊢
    rw [← List.append_assoc]
    exact h.push hb hrow hst
  · exact h.relabel fun ho => ⟨ho, hfull ho fun hlt => hr ⟨ho, hlt⟩⟩

theorem streamOk_log_step {a : Primary.LeaderTxn.Action} (hok : Ok l)
    (h : StreamOk l.db l.committed (sent l.stage) held b (w ++ channel l.sessions i)
      (isOpen l.sessions i))
    (hs : Primary.ReplicatedLog.Step a l l')
    (hroom : a = .broadcastRecord → isOpen l.sessions i = true →
      (channel l.sessions i).length < streamBufferSize) :
    StreamOk l'.db l'.committed (sent l'.stage) held b (w ++ channel l'.sessions i)
      (isOpen l'.sessions i) := by
  have hst := hok.stage
  obtain ⟨-, hrows, -⟩ := rows_step hok hs
  cases hs with
  | keep => exact h
  | close =>
    dsimp only
    rw [channel_close, isOpen_close]
    exact h.relabel fun ho => (by cases ho)
  | compact rev =>
    exact streamOk_enqueue h (fun k hk => (by cases hk)) (fun _ _ => rfl)
      (fun r hr => Or.inl ⟨hr, rfl⟩) fun _ _ _ hr => hr
  | drop k he => exact h.relabel fun ho => ⟨ho, fun r hr => (by cases hr)⟩
  | insert hl htx hst =>
    refine h.relabel fun ho => ⟨ho, fun r hr => ?_⟩
    rcases hst with rfl | ⟨required, rfl⟩ <;> cases hr
  | collect hl => exact h.relabel fun ho => ⟨ho, fun r hr => (by cases hr)⟩
  | commit hl =>
    have hgrow := h.grow (le_refl _) (fun r hr => ⟨hrows r hr.1 hr.2.2, hr.2⟩)
      fun r hr => Or.inl ⟨hrows r hr.1 hr.2.2, hr.2⟩
    refine hgrow.relabel fun ho => ⟨ho, fun r hr => ?_⟩
    rcases hl with ⟨-, rfl⟩ | ⟨hl, rfl⟩
    · cases hr
    · rw [hl]
      exact hr
  | @send _ record stage hl =>
    -- the record that is sent is the one after the committed log
    obtain ⟨hrev, hsent⟩ : record.revision = l.committed + 1 ∧ sent stage = some record := by
      rcases hl with ⟨hl, rfl⟩ | ⟨tx, rfl, hl, rfl⟩ <;> rw [hl] at hst
      · exact ⟨hst.2.2, rfl⟩
      · exact ⟨hst.2.1.trans hst.1, rfl⟩
    refine streamOk_enqueue h (fun k hk => (by cases hk)) (fun r hr => ?_) (fun r hr => ?_)
      fun ho hn => absurd (hroom rfl ho) hn
    · have hle : r.revision ≤ l.committed := hr.2.2
      exact writes_record_of_ne (by omega)
    · obtain rfl : record = r := Option.some.inj (hsent.symm.trans hr)
      exact Or.inr (writes_record_of_eq rfl)
  | @advance _ _ record hl =>
    rw [hl] at hst h
    obtain ⟨-, hmem, hrev⟩ := hst
    refine h.grow (by dsimp only; omega) (fun r hr => hr) fun r hr => ?_
    rcases lt_or_ge l.committed r.revision with hlt | hle
    · have hle : r.revision ≤ record.revision := hr.2.2
      exact Or.inr (congrArg some (Table.eq_of_revision_eq hmem hr.1 (by omega)))
    · exact Or.inl ⟨hr.1, hr.2.1, hle⟩
  | announce hl =>
    rw [hl] at hst
    obtain ⟨-, -, hrev⟩ := hst
    refine streamOk_enqueue h (fun k hk => ?_) (fun _ _ => rfl) (fun r hr => (by cases hr))
      fun _ _ r hr => (by cases hr)
    cases hk
    exact hrev.le

theorem inv_primary {a : Primary.LeaderTxn.Action} {server : Server} (h : Inv n s)
    (hok : Delivers n s (.primary a)) (hl : Linked { s with server := server })
    (hlog : Primary.ReplicatedLog.Step a (log s.server) (log server)) :
    Inv n { s with server := server } := by
  obtain ⟨-, hrows, hle⟩ := rows_step h.linked.log hlog
  refine ⟨hl, full_step h.linked.log h.full hlog, h.le.trans hle, fun r hr => ?_, fun i hi => ?_⟩
  · exact h.holds r ⟨hrows r hr.1 (hr.2.2.trans h.le), hr.2⟩
  · refine streamOk_log_step h.linked.log (h.stream i hi) hlog ?_
    rintro rfl ho
    exact hok i hi ho

/-! ### A stream takes a step -/

theorem Inv.of_stream (h : Inv n s) (hl : Linked s') {p : Peers}
    (hp : s'.server = { s.server with peers := p })
    (hf : (s'.nodes n).follower = (s.nodes n).follower)
    (hst : ∀ i, (s'.nodes n).stream = some i →
      StreamOk s.server.db s.server.committed (sent (log s.server).stage)
        (Held (s.nodes n).follower) (s'.conns i).initialSent (pending s' i)
        (isOpen s'.server.peers.sessions i)) : Inv n s' := by
  refine ⟨hl, ?_, ?_, ?_, fun i hi => ?_⟩
  · rw [hp]
    exact h.full
  · rw [hp, hf]
    exact h.le
  · rw [hp, hf]
    exact h.holds
  · have hs := hst i hi
    rw [hf]
    rw [hp] at hs ⊢
    exact hs

theorem inv_connect (h : Inv n s) (hok : Delivers n s (.connect m now)) (hl : Linked s')
    (hs : connect c s m now = some s') : Inv n s' := by
  obtain ⟨-, rfl⟩ := connect_eq_some hs
  obtain ⟨-, hempty, hold⟩ := addFollowStream_sessions s.server.peers m now
  rcases eq_or_ne n m with rfl | hne
  · have hnone : sent (log s.server).stage = none := by simpa using hok rfl
    refine h.of_stream hl rfl (by simp) fun i hi => ?_
    obtain rfl : s.server.peers.sessions.length = i := by simpa using hi
    have hq : pending (((s.setPeers (s.server.peers.addFollowStream n now)).setConn
        s.server.peers.sessions.length .opened).setNode n
          { s.nodes n with stream := some s.server.peers.sessions.length })
        s.server.peers.sessions.length = [] := by
      simp [pending, Conn.opened, hempty]
    rw [hq, hnone, Cluster.conns_setNode, Cluster.conns_setConn_self]
    exact ⟨by simp, fun hb => (by cases hb), fun hb => (by cases hb), fun _ _ r hr => (by cases hr)⟩
  · refine h.of_stream hl rfl (by rw [Cluster.nodes_setNode_of_ne hne]; rfl) fun i hi => ?_
    rw [Cluster.nodes_setNode_of_ne hne] at hi
    have hlt := lt_of_owner (h.linked.stream n i hi)
    obtain ⟨-, hch, hop⟩ := hold i hlt
    have hst := h.stream i hi
    unfold pending at hst ⊢
    rw [Cluster.conns_setNode, Cluster.conns_setConn_of_ne hlt.ne]
    refine StreamOk.relabel ?_ fun ho => ⟨hop ho, fun _ hr => hr⟩
    exact hch.symm ▸ hst

theorem inv_sendInitial (h : Inv n s) (hok : Delivers n s (.sendInitial i)) (hl : Linked s')
    (hs : sendInitial s i = some s') : Inv n s' := by
  obtain ⟨hsent, rfl⟩ := sendInitial_eq_some hs
  refine h.of_stream hl rfl rfl fun j hj => ?_
  have hst := h.stream j hj
  rcases eq_or_ne j i with rfl | hne
  · obtain ⟨hheld, hq⟩ := hok hj
    rw [hsent] at hst
    unfold pending at hst ⊢
    rw [h.linked.wire j hsent, List.nil_append] at hst
    rw [Cluster.conns_setConn_self, h.linked.wire j hsent]
    exact hst.initial (fun r hr => hheld r hr.1 hr.2.1 hr.2.2) hq
  · unfold pending at hst ⊢
    rw [Cluster.conns_setConn_of_ne hne]
    exact hst

theorem Inv.serve {p : Peers} {k : Conn} (h : Inv n s) (hl : Linked ((s.setPeers p).setConn i k))
    (hk : k.initialSent = (s.conns i).initialSent)
    (hq : ∀ j, pending ((s.setPeers p).setConn i k) j = pending s j)
    (ho : ∀ j, isOpen p.sessions j = true → isOpen s.server.peers.sessions j = true) :
    Inv n ((s.setPeers p).setConn i k) := by
  refine h.of_stream hl rfl rfl fun j hj => ?_
  rw [hq]
  have hinit : (((s.setPeers p).setConn i k).conns j).initialSent = (s.conns j).initialSent := by
    rcases eq_or_ne j i with rfl | hne
    · rw [Cluster.conns_setConn_self, hk]
    · rw [Cluster.conns_setConn_of_ne hne]
      rfl
  rw [hinit]
  exact (h.stream j hj).relabel fun hop => ⟨ho j hop, fun _ hr => hr⟩

theorem inv_handlerEnds (h : Inv n s) (hl : Linked s') (hs : handlerEnds s i = some s') :
    Inv n s' := by
  rw [handlerEnds_eq_some hs] at hl ⊢
  have hss := removeFollowStream_sessions s.server.peers i
  exact h.serve hl rfl (fun j => pending_setConn (by rfl) j (hss j).2.1) fun j => (hss j).2.2

/-! ### The Replica takes a step -/

theorem committed_processMessage (f : Follower) (now : Time) (msg : PrimaryMessage) :
    (processMessage f now msg).1.committed = (announces msg).getD f.committed := by
  cases msg <;> rfl

theorem held_of_committed (h : Held f r) (hle : r.revision ≤ f.committed) :
    Held (processMessage f now msg).1 r := by
  obtain ⟨b, hb, hs⟩ := h
  obtain ⟨b', hb', hk⟩ :=
    exists_kept_step (e := .message now msg) hb (hs.revision_eq.trans_le hle)
  exact ⟨b', hb', hk.sameRecord hs⟩

theorem held_of_after {receipt : Option ℤ} (hok : (processMessage f now msg).2 = .ok receipt)
    (h : after writes (Held f) msg r) : Held (processMessage f now msg).1 r := by
  cases msg with
  | record x =>
    cases hres : (handleRecord f now x).2 with
    | error e => simp [processMessage, hres, Except.map] at hok
    | ok row =>
      obtain ⟨hmem, heq⟩ := exists_of_replicateTentativeRecord_ok hres
      by_cases hx : x.revision = r.revision
      · rw [after_of_some (writes_record_of_eq hx)] at h
        exact ⟨row, hmem, (sameRecord_congr heq).mpr h⟩
      · rw [after_of_none (writes_record_of_ne hx)] at h
        obtain ⟨b, hb, hs⟩ := h
        refine ⟨b, (mem_replicateTentativeRecord_of_ne fun he => hx ?_).mpr hb, hs⟩
        exact he.symm.trans hs.revision_eq
  | initial k j => exact (after_of_none rfl).mp h
  | commit k => exact (after_of_none rfl).mp h
  | compact k => exact (after_of_none rfl).mp h

theorem inv_processStream {health : HealthState} {state : PrimaryState} {sendOk : Bool}
    (h : Inv n s) (hl : Linked s') (hs : processStream s n now health state sendOk = some s') :
    Inv n s' := by
  obtain ⟨i, msg, rest, stream, receipts, hi, hw, rfl, hcases⟩ := processStream_eq_some hs
  have hst := h.stream i hi
  have hq : pending s i = msg :: (rest ++ channel s.server.peers.sessions i) := by
    simp [pending, hw]
  have hsent : (s.conns i).initialSent = true := by
    by_contra hn
    cases hw.symm.trans (h.linked.wire i (by simpa using hn))
  rw [hq, hsent] at hst
  refine ⟨hl, h.full, ?_, fun r hr => ?_, fun j hj => ?_⟩
  · rw [Cluster.nodes_setNode_self, committed_processMessage]
    cases ha : announces msg with
    | none => exact h.le
    | some k => exact hst.bound msg List.mem_cons_self k ha
  · rw [Cluster.nodes_setNode_self, committed_processMessage] at hr
    rw [Cluster.nodes_setNode_self]
    cases ha : announces msg with
    | none =>
      rw [ha] at hr
      exact held_of_committed (h.holds r hr) hr.2.2
    | some k =>
      -- the message finds the rows it takes for granted
      rw [ha] at hr
      have hheld := (hst.fed rfl).1 r ⟨k, ha, hr⟩
      cases msg with
      | initial k' j => exact hheld
      | commit k' => exact hheld
      | record x => cases ha
      | compact k' => cases ha
  · rw [Cluster.nodes_setNode_self] at hj ⊢
    rcases hcases with ⟨rfl, -⟩ | ⟨rfl, _, hok, -⟩
    · cases hj
    · cases hj
      unfold pending
      rw [Cluster.conns_setNode, Cluster.conns_setConn_self]
      dsimp only
      rw [hsent]
      exact hst.tail fun r hr => held_of_after hok hr

theorem inv_compaction {j : ℕ} (h : Inv n s) (hl : Linked (compaction s n now j)) :
    Inv n (compaction s n now j) := by
  have hc :
      (runCompaction (s.nodes n).follower now j).committed = (s.nodes n).follower.committed := by
    unfold runCompaction
    split <;> rfl
  have hnode : (compaction s n now j).nodes n =
      { s.nodes n with follower := runCompaction (s.nodes n).follower now j } := by
    unfold compaction
    exact Cluster.nodes_setNode_self
  refine ⟨hl, h.full, ?_, fun r hr => ?_, fun i hi => ?_⟩
  · rw [hnode, hc]
    exact h.le
  · rw [hnode, hc] at hr
    rw [hnode]
    exact held_runCompaction (h.holds r hr) now j
  · rw [hnode] at hi ⊢
    exact (h.stream i hi).mono fun r hr => held_runCompaction hr now j

theorem inv_other (h : Inv n s) (hne : n ≠ m) (ha : a.node = some m)
    (hc : ∀ now, a ≠ .connect m now) (hl : Linked s') (hs : step c s a = some s') : Inv n s' := by
  have hnode : s'.nodes n = s.nodes n := nodes_of_ne (by rw [ha]; simpa using hne.symm) hs
  cases a with
  | connect m' now =>
    cases ha
    exact absurd rfl (hc now)
  | processStream m' now health primary sendOk =>
    cases ha
    obtain ⟨i, msg, rest, stream, receipts, hi, -, rfl, -⟩ := processStream_eq_some hs
    refine h.of_stream hl rfl (by rw [hnode]) fun j hj => ?_
    rw [hnode] at hj
    have hij := h.linked.stream_ne hj hi hne
    have hst := h.stream j hj
    unfold pending at hst ⊢
    rw [Cluster.conns_setNode, Cluster.conns_setConn_of_ne hij]
    exact hst
  | disconnect m' =>
    rw [disconnect_eq_some hs] at hl hnode ⊢
    exact h.of_stream hl rfl (by rw [hnode]) fun j hj => h.stream j (hnode ▸ hj)
  | compaction m' now j =>
    cases hs
    exact h.of_stream hl rfl (by rw [hnode]) fun j hj => h.stream j (hnode ▸ hj)
  | _ => cases ha

theorem inv_step (h : Inv n s) (hok : Delivers n s a) (hs : step c s a = some s') : Inv n s' := by
  have hl := linked_step h.linked hs
  cases a with
  | primary a =>
    obtain ⟨ha, server, hstep, rfl⟩ := primary_eq_some hs
    exact inv_primary h hok hl (log_step h.linked.owned ha hstep)
  | connect m now => exact inv_connect h hok hl hs
  | sendInitial i => exact inv_sendInitial h hok hl hs
  | sendLoop i =>
    obtain ⟨-, msg, p, hp, rfl⟩ := sendLoop_eq_some hs
    refine h.serve hl rfl (pending_sendLoop hp) fun j ho => ?_
    rwa [((takeMessage_eq_some hp).2.2.2 j).2] at ho
  | recvLoop i now =>
    rcases recvLoop_eq_some hs with ⟨m, msg, rest, p, -, -, -, hp, rfl⟩ | hs
    · have hss := (followRecv_eq_some hp).1
      exact h.serve hl rfl (fun j => pending_setConn (by rfl) j (by rw [hss])) fun j ho => hss ▸ ho
    · exact inv_handlerEnds h hl hs
  | handlerEnds i => exact inv_handlerEnds h hl hs
  | processStream m now health primary sendOk =>
    rcases eq_or_ne n m with rfl | hne
    · exact inv_processStream h hl hs
    · exact inv_other h hne rfl (by simp) hl hs
  | disconnect m =>
    rcases eq_or_ne n m with rfl | hne
    · rw [disconnect_eq_some hs] at hl ⊢
      refine h.of_stream hl rfl (by simp) fun i hi => ?_
      simp at hi
    · exact inv_other h hne rfl (by simp) hl hs
  | compaction m now j =>
    rcases eq_or_ne n m with rfl | hne
    · cases hs
      exact inv_compaction h hl
    · exact inv_other h hne rfl (by simp) hl hs

/-! ### Runs -/

/-- The Replica has a copy of the Primary's row at every revision up to `upTo`. -/
def Agrees (primary replica : Table) (upTo : ℤ) : Prop :=
  ∀ r, 1 ≤ r → r ≤ upTo → ∃ b ∈ replica, b.revision = r ∧ ∃ a ∈ primary, SameRecord b a

theorem inv_start {bucket : Datastore.ObjectStorage} {peers : Peers}
    {followers : NodeID → Follower} (hagree : Agrees db (followers n).db db.latestRevision)
    (hle : (followers n).committed ≤ db.latestRevision) :
    Inv n (Cluster.start (Server.start db bucket peers) followers) := by
  refine ⟨linked_start, fun r h1 h2 => ?_, hle, ?_, fun i hi => (by cases hi)⟩
  · obtain ⟨b, -, hb, a, ha, hs⟩ := hagree r h1 h2
    exact ⟨a, ha, hs.revision_eq.symm.trans hb⟩
  · rintro a ⟨ha, h1, h2⟩
    obtain ⟨b, hb, he, a', ha', hs⟩ := hagree a.revision h1 (h2.trans hle)
    obtain rfl : a' = a := Table.eq_of_revision_eq ha' ha (hs.revision_eq.symm.trans he)
    exact ⟨b, hb, hs⟩

theorem Inv.agrees (h : Inv n s) :
    Agrees s.server.db (s.nodes n).follower.db (s.nodes n).follower.committed := by
  intro r h1 h2
  obtain ⟨a, ha, rfl⟩ := h.full r h1 (h2.trans h.le)
  obtain ⟨b, hb, hs⟩ := h.holds a ⟨ha, h1, h2⟩
  exact ⟨b, hb, hs.revision_eq, a, ha, hs⟩

/-- **A Replica agrees with its Primary up to its own committed revision**, in every run in which
its streams miss nothing. It may start with rows above the Primary's committed revision. -/
theorem replica_agrees {bucket : Datastore.ObjectStorage} {peers : Peers}
    {followers : NodeID → Follower} {as : List Action}
    (hagree : Agrees db (followers n).db db.latestRevision)
    (hle : (followers n).committed ≤ db.latestRevision)
    (hok : Meets (step c) (Delivers n) (Cluster.start (Server.start db bucket peers) followers) as)
    (hrun : exec (step c) (Cluster.start (Server.start db bucket peers) followers) as = some s) :
    Agrees s.server.db (s.nodes n).follower.db (s.nodes n).follower.committed := by
  have hinv : Inv n s := exec_invariant (fun _ _ _ hi hok hs => inv_step hi hok hs)
    (inv_start hagree hle) hok hrun
  exact hinv.agrees

theorem agrees_first : Agrees Primary.Gate.firstTable Primary.Gate.firstTable 1 := by
  intro r h1 h2
  obtain rfl : r = 1 := by omega
  exact ⟨Primary.Gate.firstRecord, by decide, rfl, _, by decide, SameRecord.refl _⟩

theorem replica_agrees_joined :
    ∃ s, exec (step oneReceipt) firstCluster joined = some s ∧
      (s.nodes "q").follower.committed = 2 ∧ Agrees s.server.db (s.nodes "q").follower.db 2 := by
  have hok : Meets (step oneReceipt) (Delivers "q") firstCluster joined := by decide
  exact ⟨_, rfl, rfl, replica_agrees agrees_first (by decide) hok rfl⟩

/-! ### A rolled-back row under a committed revision -/

/-- `"q"` stores a record at revision 3 whose wait then times out, and its stream ends. Path 1
commits another record at revision 3 while no node follows. Then `"q"` follows again. -/
def reconnect : List Action :=
  joined ++ call [98] [1] ++ .primary (.beginTx 11 true) :: proposed ++
    [.primary .quorumTimeout, .disconnect "q", .handlerEnds 0] ++ call [98] [2] ++
    [.primary (.beginTx 14 true), .primary (.upload .answered), .primary (.commitSync true),
      .primary .broadcastRecord, .primary .setCommitted, .primary .broadcastCommit,
      .connect "q" 20, .sendInitial 1, reads 21]

/-- The Initial makes revision 3 committed at `"q"`, which has the record that was rolled back. -/
theorem initial_covers_rolled_back_row :
    ∃ s, exec (step oneReceipt) firstCluster reconnect = some s ∧ s.server.primary = .active ∧
      (s.nodes "q").follower.committed = 3 ∧
      (∃ b ∈ (s.nodes "q").follower.db, b.revision = 3 ∧ b.value = [1]) ∧
      (∃ a ∈ s.server.db, a.revision = 3 ∧ a.value = [2]) ∧
      ¬ Agrees s.server.db (s.nodes "q").follower.db 3 := by
  refine ⟨_, rfl, rfl, rfl, by decide, by decide, fun h => ?_⟩
  exact absurd (h 3 (by decide) (by decide)) (by decide)

end Netsy.Replication.PrefixAgreement
