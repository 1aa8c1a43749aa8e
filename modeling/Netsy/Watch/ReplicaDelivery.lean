import Netsy.Watch.OrderedRuns

/-! # The watches of a Replica

A Replica remembers the revisions of the records that it receives and distributes them when a
message of its Primary announces that they are committed. A watch is sent every committed record
exactly once if what is remembered is what becomes committed. It is not after a reconnection, which
forgets the revisions but not the rows. -/

namespace Netsy.Watch.ReplicaDelivery

open Proto Datastore Lib.Run Lib.SortedList LocalDB.Schema LocalDB.Compaction Primary
open Primary.LeaderTxn (Config Server)
open Primary.Follow (Peers)
open Watch.Match Watch.Hub Watch.Delivery
open Watch.System Watch.System.Node Watch.Revisions Watch.HandOver Watch.OrderedRuns

/-- A node that has started. -/
def replica (db : Table) (bucket : ObjectStorage) (peers : Peers) (committed : ℤ) : Server :=
  { Server.start db bucket peers with primary := .replica, committed := committed }

/-- The records are numbered in one place at a time and handed over in order. -/
def Aligned (n : Node) (a : System.Action) : Prop :=
  Numbered False n a ∧ InOrder n a

instance (n : Node) (a : System.Action) : Decidable (Aligned n a) :=
  inferInstanceAs (Decidable (_ ∧ _))

/-- The events of a watch are in strictly ascending order of their revisions, and each has the
contents of a committed record. -/
def OnceEach (n : Node) (w : ℕ) (y : Subscription) : Prop :=
  let events := eventsOf y.id (n.manager.watchers w).placed
  Ascending WatchResponse.revision events ∧
    ∀ msg ∈ events, ∃ r ∈ n.log, ∃ prev, isWatchMatch y.entry r = some true ∧
      msg = outMsg y ⟨r, prev⟩

/-- Every matching record that was committed after the watch was added has its event. -/
def AllSent (n : Node) (w : ℕ) (y : Subscription) : Prop :=
  ∀ r ∈ n.log.drop y.since, isWatchMatch y.entry r = some true →
    ∃ prev, outMsg y ⟨r, prev⟩ ∈ eventsOf y.id (n.manager.watchers w).placed

variable {c : Config} {compactions : Compactions} {n : Node}

theorem counts_replica (db : Table) (bucket : ObjectStorage) (peers : Peers) (committed : ℤ) :
    Counts False (Node.start (replica db bucket peers committed) compactions) := by
  have howned : FlushOwned.Owned (.start db bucket peers) := FlushOwned.owned_start
  refine counts_of_none (howned.of_eq rfl rfl rfl rfl) (fun _ hcall => (by cases hcall)) rfl
    fun hrole => ?_
  rcases hrole with hfalse | hactive
  · exact hfalse.elim
  · cases hactive

/-- **The watches of a node** that follows any Primaries and may become Primary itself: if the
records are numbered in one place at a time and handed over in order, every watch is sent its events
in ascending order, with the contents of committed records, and when the node has handed over all it
has, every watch of a registered watcher has the event of every record since it was added. -/
theorem replica_watch_delivery {db : Table} {bucket : ObjectStorage} {peers : Peers}
    {committed : ℤ} {as : List System.Action}
    (hok : Meets (System.step c) Aligned
      (Node.start (replica db bucket peers committed) compactions) as)
    (hrun : exec (System.step c) (Node.start (replica db bucket peers committed) compactions) as =
      some n) (w : ℕ) :
    (∀ y ∈ (n.manager.watchers w).watches ++ (n.manager.watchers w).ended, OnceEach n w y) ∧
      (Settled n → w ∈ n.manager.registered →
        ∀ y ∈ (n.manager.watchers w).watches, AllSent n w y) := by
  have hinv : Ordered False (Node.start (replica db bucket peers committed) compactions).log n :=
    exec_invariant (fun _ _ _ h hok hstep => ordered_step h hok hstep)
      (ordered_start rfl (counts_replica db bucket peers committed)) hok hrun
  refine ⟨fun y hy => ⟨hinv.ascending hy, fun msg hmsg => hinv.exists_record hy hmsg⟩, ?_⟩
  exact fun hsettled hw y hy r hr hm => hinv.complete hsettled hw hy hr hm

/-- A record of the Primary. -/
def created (revision : ℤ) (key : UInt8) : Record :=
  { revision := revision, key := [key], created := true, createRevision := revision, version := 1,
    value := [1], createdAt := some revision, leaderId := "p" }

/-- The record of a revision arrives, it is committed, and the watch is sent its event. -/
def follow (revision : ℤ) (key : UInt8) : List System.Action :=
  [.message revision (.record (created revision key)), .message revision (.commit revision),
    .distributeFromDB true true] ++ deliver

theorem replica_watch_delivery_reconnected :
    ∃ n, exec (System.step Gate.syncOnly)
        (Node.start (replica Gate.firstTable Gate.firstBucket Gate.noPeers 1) [])
        (watchKeys 0 false ++ follow 2 97 ++ [.connect, .message 3 (.initial 2 0)] ++ follow 3 98) =
          some n ∧
      keysWatch 0 false ∈ (n.manager.watchers 1).watches ∧
      (eventsOf 1 (n.manager.watchers 1).placed).map WatchResponse.revision = [2, 3] ∧
      AllSent n 1 (keysWatch 0 false) := by
  obtain ⟨n, hrun, hwatch, hevents, hsettled, hreg⟩ := exists_exec_of_any
    (System.step Gate.syncOnly)
    (Node.start (replica Gate.firstTable Gate.firstBucket Gate.noPeers 1) [])
    (watchKeys 0 false ++ follow 2 97 ++ [.connect, .message 3 (.initial 2 0)] ++ follow 3 98)
    (fun n => keysWatch 0 false ∈ (n.manager.watchers 1).watches ∧
      (eventsOf 1 (n.manager.watchers 1).placed).map WatchResponse.revision = [2, 3] ∧
      Settled n ∧ 1 ∈ n.manager.registered) (by decide +kernel)
  refine ⟨n, hrun, hwatch, hevents, ?_⟩
  exact (replica_watch_delivery (by decide +kernel) hrun 1).2 hsettled hreg _ hwatch

/-- The record 2 arrives and the stream is lost before its `Commit`. The new stream discards the
pending revision and announces 2 as committed, and the next record follows. -/
def reconnecting : List System.Action :=
  watchKeys 0 false ++ [.message 2 (.record (created 2 97)), .connect, .message 3 (.initial 2 0)] ++
    follow 3 98

/-- The watch is sent 3 and never 2. -/
theorem reconnection_loses_event :
    ∃ n, exec (System.step Gate.syncOnly)
        (Node.start (replica Gate.firstTable Gate.firstBucket Gate.noPeers 1) []) reconnecting =
          some n ∧
      Settled n ∧ 1 ∈ n.manager.registered ∧
      keysWatch 0 false ∈ (n.manager.watchers 1).watches ∧
      (eventsOf 1 (n.manager.watchers 1).placed).map WatchResponse.revision = [3] ∧
      ¬ AllSent n 1 (keysWatch 0 false) := by
  obtain ⟨n, hrun, hsettled, hreg, hwatch, hevents, r, hr, hm, h2⟩ := exists_exec_of_any
    (System.step Gate.syncOnly)
    (Node.start (replica Gate.firstTable Gate.firstBucket Gate.noPeers 1) []) reconnecting
    (fun n => Settled n ∧ 1 ∈ n.manager.registered ∧
      keysWatch 0 false ∈ (n.manager.watchers 1).watches ∧
      (eventsOf 1 (n.manager.watchers 1).placed).map WatchResponse.revision = [3] ∧
      ∃ r ∈ n.log.drop (keysWatch 0 false).since,
        isWatchMatch (keysWatch 0 false).entry r = some true ∧ r.revision = 2) (by decide +kernel)
  refine ⟨n, hrun, hsettled, hreg, hwatch, hevents, fun hall => ?_⟩
  obtain ⟨prev, hprev⟩ := hall r hr hm
  have hrev := List.mem_map_of_mem (f := WatchResponse.revision) hprev
  rw [show (keysWatch 0 false).id = 1 from rfl, hevents, List.mem_singleton] at hrev
  exact absurd (h2.symm.trans hrev) (by decide)

end Netsy.Watch.ReplicaDelivery
