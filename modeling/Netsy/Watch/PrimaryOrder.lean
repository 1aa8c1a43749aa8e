import Netsy.Watch.OrderedRuns

/-! # The watches of a Primary

Concurrent calls of `ApplyTxn` commit their records one after the other at the gate and then call
`Distribute`, each for itself. Nothing keeps these calls of `Distribute` in the order of the
commits: if they are, the watches are sent the records in order and without a gap; in general they
are not. -/

namespace Netsy.Watch.PrimaryOrder

open Proto Lib.Run Lib.SortedList LocalDB.Schema LocalDB.Compaction Primary Datastore
open Primary.LeaderTxn (Config Server)
open Primary.Follow (Peers)
open Primary.FlushOwned (owned_start)
open Watch.Match Watch.Hub Watch.Delivery
open Watch.System Watch.System.Node Watch.Revisions Watch.HandOver Watch.OrderedRuns

/-- The steps of calls of `ApplyTxn` and of the watch manager. -/
def Serves : System.Action → Prop
  | .txn _ | .distribute _ _ | .watch _ => True
  | _ => False

instance : ∀ a, Decidable (Serves a) := by
  intro a
  induction a using System.Action.casesOn <;> unfold Serves <;> infer_instance

/-- The calls of `ApplyTxn` distribute in turn: the one that committed first begins, when no other
one is in `Distribute`. -/
def InTurn (n : Node) : System.Action → Prop
  | .distribute i _ => i = 0 ∧ n.manager.dists = []
  | _ => True

instance (n : Node) : ∀ a, Decidable (InTurn n a) := by
  intro a
  induction a using System.Action.casesOn <;> unfold InTurn <;> infer_instance

/-- The events of a watch are in strictly ascending order of their revisions, and below an event
there is the event of every matching record that was committed after the watch was added. -/
def Gapless (n : Node) (w : ℕ) (y : Subscription) : Prop :=
  let events := eventsOf y.id (n.manager.watchers w).placed
  Ascending WatchResponse.revision events ∧
    ∀ msg ∈ events, ∀ r ∈ n.log.drop y.since, isWatchMatch y.entry r = some true →
      r.revision < msg.revision → ∃ prev, outMsg y ⟨r, prev⟩ ∈ events

variable {c : Config} {s : Server} {compactions : Compactions} {n n' : Node}

theorem ready_step {a : System.Action} (hs : Serves a) (h : System.step c n a = some n') :
    n'.ready = n.ready := by
  obtain ⟨n₁, hmove, rfl⟩ := Option.map_eq_some_iff.mp h
  cases a with
  | txn a =>
    obtain ⟨s, -, rfl⟩ := Option.map_eq_some_iff.mp hmove
    rfl
  | distribute i prevOk =>
    obtain ⟨r, -, rfl⟩ := Option.map_eq_some_iff.mp hmove
    rfl
  | watch a =>
    obtain ⟨m, -, rfl⟩ := Option.map_eq_some_iff.mp hmove
    rfl
  | _ => exact hs.elim

theorem inOrder_of_inTurn {a : System.Action} (hs : Serves a) (ht : InTurn n a)
    (hready : n.ready = []) : Numbered True n a ∧ InOrder n a := by
  cases a with
  | txn a => exact ⟨Or.inl trivial, trivial⟩
  | distribute i prevOk => exact ⟨trivial, ht.1, hready, ht.2⟩
  | watch a => exact ⟨trivial, trivial⟩
  | _ => exact hs.elim

theorem counts_primary (db : Table) (bucket : ObjectStorage) (peers : Peers) :
    Counts True (Node.start (.start db bucket peers) compactions) :=
  counts_of_none owned_start (fun _ hcall => (by cases hcall)) rfl fun _ =>
    ⟨fun _ hb => Table.revision_le_latestRevision hb, Int.lt_succ _⟩

/-- **The watches of a Primary**: if the calls of `ApplyTxn` distribute in turn, every watch is sent
its events in ascending order and without a gap. -/
theorem primary_watch_order {db : Table} {bucket : ObjectStorage} {peers : Peers}
    {as : List System.Action} (hserves : ∀ a ∈ as, Serves a)
    (hturn : Meets (System.step c) InTurn
      (Node.start (.start db bucket peers) compactions) as)
    (hrun : exec (System.step c) (Node.start (.start db bucket peers) compactions) as = some n)
    (w : ℕ) :
    ∀ y ∈ (n.manager.watchers w).watches ++ (n.manager.watchers w).ended, Gapless n w y := by
  have hinv : Ordered True (Node.start (.start db bucket peers) compactions).log n ∧
      n.ready = [] := by
    refine exec_invariant
      (I := fun n => Ordered True (Node.start (.start db bucket peers) compactions).log n ∧
        n.ready = []) (fun n₁ a n₂ h hok hstep => ?_)
      ⟨ordered_start rfl (counts_primary db bucket peers), rfl⟩
      (meets_and (meets_of_forall hserves) hturn) hrun
    refine ⟨ordered_step h.1 (inOrder_of_inTurn hok.1 hok.2 h.2) hstep, ?_⟩
    exact (ready_step hok.1 hstep).trans h.2
  exact fun y hy => ⟨hinv.1.ascending hy, fun msg hmsg r hr hm hlt =>
    hinv.1.no_gap hy hmsg hr hm hlt⟩

/-- Two calls that distribute in turn. -/
def inTurn : List System.Action :=
  watchKeys 0 false ++ commitKey 97 2 ++ [.distribute 0 true] ++ deliver ++ commitKey 98 3 ++
    [.distribute 0 true] ++ deliver

theorem primary_watch_order_inTurn :
    ∃ n, exec (System.step Gate.syncOnly) (Node.start Gate.fresh []) inTurn = some n ∧
      keysWatch 0 false ∈ (n.manager.watchers 1).watches ∧
      (eventsOf 1 (n.manager.watchers 1).placed).map WatchResponse.revision = [2, 3] ∧
      Gapless n 1 (keysWatch 0 false) := by
  obtain ⟨n, hrun, hwatch, hevents⟩ := exists_exec_of_any (System.step Gate.syncOnly)
    (Node.start Gate.fresh []) inTurn (fun n =>
      keysWatch 0 false ∈ (n.manager.watchers 1).watches ∧
        (eventsOf 1 (n.manager.watchers 1).placed).map WatchResponse.revision = [2, 3])
    (by decide +kernel)
  refine ⟨n, hrun, hwatch, hevents, ?_⟩
  exact primary_watch_order (by decide) (by decide +kernel) hrun 1 _
    (List.mem_append_left _ hwatch)

/-- Two calls commit the revisions 2 and 3, and the second one distributes first. -/
def overtaking : List System.Action :=
  watchKeys 0 false ++ commitKey 97 2 ++ commitKey 98 3 ++ [.distribute 1 true] ++ deliver

theorem not_gapless_of_missing {w : ℕ} {y : Subscription} {r : Record} {rev : ℤ}
    (hr : r ∈ n.log.drop y.since) (hm : isWatchMatch y.entry r = some true)
    (hlt : r.revision < rev)
    (hevents : (eventsOf y.id (n.manager.watchers w).placed).map WatchResponse.revision = [rev]) :
    ¬ Gapless n w y := by
  intro h
  obtain ⟨msg, hmsg, he⟩ := List.mem_map.mp (hevents ▸ List.mem_singleton_self rev)
  obtain ⟨prev, hprev⟩ := h.2 msg hmsg r hr hm (he ▸ hlt)
  have hrev := List.mem_map_of_mem (f := WatchResponse.revision) hprev
  rw [hevents] at hrev
  exact hlt.ne (List.mem_singleton.mp hrev)

/-- The watch has the event of 3 without that of 2, and then it is sent 2 after 3. -/
theorem overtaking_distribute_not_gapless :
    (∀ a ∈ overtaking ++ [.distribute 0 true] ++ deliver, Serves a) ∧
    (∃ n, exec (System.step Gate.syncOnly) (Node.start Gate.fresh []) overtaking = some n ∧
      keysWatch 0 false ∈ (n.manager.watchers 1).watches ∧
      (eventsOf 1 (n.manager.watchers 1).placed).map WatchResponse.revision = [3] ∧
      ¬ Gapless n 1 (keysWatch 0 false)) ∧
    ∃ n, exec (System.step Gate.syncOnly) (Node.start Gate.fresh [])
        (overtaking ++ [.distribute 0 true] ++ deliver) = some n ∧
      keysWatch 0 false ∈ (n.manager.watchers 1).watches ∧
      (eventsOf 1 (n.manager.watchers 1).placed).map WatchResponse.revision = [3, 2] ∧
      ¬ Gapless n 1 (keysWatch 0 false) := by
  refine ⟨by decide, ?_, ?_⟩
  · obtain ⟨n, hrun, hwatch, hevents, r, hr, hm, h2⟩ := exists_exec_of_any
      (System.step Gate.syncOnly) (Node.start Gate.fresh []) overtaking
      (fun n => keysWatch 0 false ∈ (n.manager.watchers 1).watches ∧
        (eventsOf 1 (n.manager.watchers 1).placed).map WatchResponse.revision = [3] ∧
        ∃ r ∈ n.log.drop (keysWatch 0 false).since,
          isWatchMatch (keysWatch 0 false).entry r = some true ∧ r.revision = 2) (by decide +kernel)
    exact ⟨n, hrun, hwatch, hevents, not_gapless_of_missing hr hm (by omega) hevents⟩
  · obtain ⟨n, hrun, hwatch, hevents, hasc⟩ := exists_exec_of_any
      (System.step Gate.syncOnly) (Node.start Gate.fresh [])
      (overtaking ++ [.distribute 0 true] ++ deliver)
      (fun n => keysWatch 0 false ∈ (n.manager.watchers 1).watches ∧
        (eventsOf 1 (n.manager.watchers 1).placed).map WatchResponse.revision = [3, 2] ∧
        ¬ Ascending WatchResponse.revision (eventsOf 1 (n.manager.watchers 1).placed))
      (by decide +kernel)
    exact ⟨n, hrun, hwatch, hevents, fun h => hasc h.1⟩

end Netsy.Watch.PrimaryOrder
