import Netsy.Watch.ReplicaDelivery

/-! # Watches from a start revision

`CreateWatch` looks the start revision up and adds the watch; nothing sends it the records that were
committed and distributed before. A watch with a start revision is complete if all that it matches
is still to come when it is added, that is if it starts in the future. -/

namespace Netsy.Watch.StartRevision

open Proto Datastore Lib.Run LocalDB.Schema LocalDB.Compaction Primary
open Primary.LeaderTxn (Config Server)
open Primary.Follow (Peers)
open Primary.Outcomes (view)
open Watch.Match Watch.Hub Watch.Moves Watch.Delivery Watch.System Watch.System.Node Watch.HandOver
open Watch.OrderedRuns Watch.ReplicaDelivery

/-- The committed records that have still to come to a watcher. -/
def toCome (n : Node) (w : ℕ) : List Record :=
  ((n.manager.dists.filter fun d => w ∈ d.todo).map fun d => d.arg.record) ++
    n.ready.filterMap n.server.db.findRecordByRev ++ n.returned ++
    upcoming (view n.server).stage n.inserted

/-- A watch with a start revision is added only if every committed record that it matches has still
to come to its watcher. -/
def StartsAhead (n : Node) : System.Action → Prop
  | .watch (.add w) => ∀ q ∈ reserved (n.manager.watchers w).creating, 0 < q.1.startRevision →
      ∀ r ∈ n.log, isWatchMatch (Manager.watchData q.1) r = some true → r ∈ toCome n w
  | _ => True

instance (n : Node) : ∀ a, Decidable (StartsAhead n a) := by
  intro a
  induction a using System.Action.casesOn with
  | watch b => induction b using Hub.Action.casesOn <;> unfold StartsAhead <;> infer_instance
  | _ =>
    unfold StartsAhead
    infer_instance

/-- A watch with a start revision matches nothing of what it was not sent. -/
def Missed (start : List Record) (b : Board) : Prop :=
  ∀ w, ∀ y ∈ (b.faces w).all, 0 < y.entry.startRevision →
    ∀ r ∈ start ++ (b.begun.take y.first).map Distribution.record,
      isWatchMatch y.entry r ≠ some true

variable {c : Config} {compactions : Compactions} {start : List Record} {n n' : Node}
variable {w : ℕ} {y : Subscription} {r : Record}

/-- What has still to come to a watcher comes after what a new watch of it is not sent. -/
theorem mem_rest_of_toCome (h : Ordered False start n)
    (hfirst : y.first = n.manager.begun.length - n.manager.dists.countP fun d => w ∈ d.todo)
    (hr : r ∈ toCome n w) :
    ∃ rest, n.log = (start ++ (n.manager.begun.take y.first).map Distribution.record) ++ rest ∧
      r ∈ rest := by
  obtain ⟨rs, hrs, hdb, hlog⟩ := h.flow.log
  refine ⟨(n.manager.begun.drop y.first).map Distribution.record ++ rs ++ n.returned ++
    upcoming (view n.server).stage n.inserted, ?_, ?_⟩
  · have hsplit : n.manager.begun.map Distribution.record =
        (n.manager.begun.take y.first).map Distribution.record ++
          (n.manager.begun.drop y.first).map Distribution.record := by
      rw [← List.map_append, List.take_append_drop]
    rw [hlog, hsplit]
    simp only [List.append_assoc]
  · unfold toCome at hr
    rw [List.mem_append, List.mem_append, List.mem_append] at hr ⊢
    refine hr.imp_left (Or.imp_left (Or.imp ?_ ?_))
    · intro hr
      obtain ⟨d, hd, rfl⟩ := List.mem_map.mp hr
      obtain ⟨hd, htodo⟩ := List.mem_filter.mp hd
      -- the running call is the last one, and the watch is sent it
      obtain ⟨bs, hbs⟩ := h.single.last d hd
      have hcount : (n.manager.dists.countP fun d => w ∈ d.todo) = 1 := by
        have hone : n.manager.dists = [d] := h.single.one d hd
        rw [hone, List.countP_singleton, if_pos htodo]
      have hlen : n.manager.begun.length = bs.length + 1 := by
        change (board n.manager).begun.length = _
        rw [hbs]
        simp
      have hy : y.first = bs.length := by omega
      have hdrop : n.manager.begun.drop y.first = [d.arg] := by
        change (board n.manager).begun.drop _ = _
        rw [hbs, hy, List.drop_left]
      rw [hdrop]
      exact List.mem_singleton_self _
    · intro hr
      obtain ⟨rev, hrev, hfind⟩ := List.mem_filterMap.mp hr
      rw [← hrs] at hrev
      obtain ⟨r', hr', rfl⟩ := List.mem_map.mp hrev
      have hfind' := Table.findRecordByRev_eq_some.mpr ⟨hdb r' hr', rfl⟩
      rwa [Option.some.inj (hfind.symm.trans hfind')]

theorem missed_step {a : System.Action} (h : Ordered False start n)
    (hmissed : Missed start (board n.manager)) (hok : StartsAhead n a)
    (hs : System.step c n a = some n') : Missed start (board n'.manager) := by
  obtain ⟨n₁, hmove, rfl⟩ := Option.map_eq_some_iff.mp hs
  rcases manager_of_move hmove with hm | ⟨caller, arg, hm, -⟩ | ⟨b, rfl, hstep⟩
  · change Missed start (board n₁.manager)
    rw [hm]
    exact hmissed
  · change Missed start (board n₁.manager)
    rw [hm]
    intro w y hy
    have hfirst := (h.delivered.behind w y hy).first
    change 0 < y.entry.startRevision → ∀ r ∈
      start ++ (((board n.manager).begun ++ [arg]).take y.first).map Distribution.record, _
    rw [List.take_append_of_le_length hfirst]
    exact hmissed w y hy
  · intro w y hy hpos
    have hm := move_of_step hstep
    change ∀ r ∈ start ++ ((board n₁.manager).begun.take y.first).map Distribution.record, _
    rw [begun_move hm]
    rcases all_move hm hy with hy | ⟨rfl, -, hfirst, q, hres, hentry⟩
    · exact hmissed w y hy hpos
    · intro r hr hmatch
      -- the record would be in the log twice
      have hlogged : r ∈ n.log := by
        obtain ⟨rs, -, -, hlog⟩ := h.flow.log
        rw [hlog]
        rcases List.mem_append.mp hr with hr | hr
        · simp [hr]
        · have hr' : r ∈ n.manager.begun.map Distribution.record :=
            List.map_subset _ (List.take_subset _ _) hr
          simp only [List.mem_append, hr', or_true, true_or]
      rw [hentry] at hpos hmatch
      have hcome := hok _ hres hpos r hlogged hmatch
      obtain ⟨rest, hsplit, hrest⟩ := mem_rest_of_toCome h hfirst hcome
      have hsorted := h.flow.sorted
      rw [hsplit] at hsorted
      exact lt_irrefl _ ((List.pairwise_append.mp hsorted).2.2 r hr r hrest)

/-- **Watches from a start revision**: in a run in order in which a watch with a start revision is
added only if all that it matches is still to come, such a watch has the event of every committed
record that it matches once the node has handed over all it has. -/
theorem start_revision_complete {db : Table} {bucket : ObjectStorage} {peers : Peers}
    {committed : ℤ} {as : List System.Action}
    (hok : Meets (System.step c) (fun n a => Aligned n a ∧ StartsAhead n a)
      (Node.start (replica db bucket peers committed) compactions) as)
    (hrun : exec (System.step c) (Node.start (replica db bucket peers committed) compactions) as =
      some n) (hsettled : Settled n) (hw : w ∈ n.manager.registered) :
    ∀ y ∈ (n.manager.watchers w).watches, 0 < y.entry.startRevision →
      ∀ r ∈ n.log, isWatchMatch y.entry r = some true →
        ∃ prev, outMsg y ⟨r, prev⟩ ∈ eventsOf y.id (n.manager.watchers w).placed := by
  obtain ⟨hinv, hmissed⟩ : Ordered False
      (Node.start (replica db bucket peers committed) compactions).log n ∧
      Missed (Node.start (replica db bucket peers committed) compactions).log
        (board n.manager) := by
    refine exec_invariant (I := fun n =>
      Ordered False (Node.start (replica db bucket peers committed) compactions).log n ∧
        Missed (Node.start (replica db bucket peers committed) compactions).log (board n.manager))
      (fun n₁ a n₂ h hok hstep => ?_) ⟨ordered_start rfl (counts_replica db bucket peers committed),
        fun _ _ hy => (by cases hy)⟩ hok hrun
    exact ⟨ordered_step h.1 hok.1 hstep, missed_step h.1 h.2 hok.2 hstep⟩
  intro y hy hpos r hr hm
  rw [hinv.eventsOf_eq hsettled hw hy]
  -- the record was handed over after the calls that the watch was not sent
  have hno := mt (hmissed w y (List.mem_append_left _ hy) hpos r) (not_not.mpr hm)
  rw [hinv.log_eq hsettled, ← List.take_append_drop y.first n.manager.begun, List.map_append,
    ← List.append_assoc] at hr
  rcases List.mem_append.mp hr with hr | hr
  · exact absurd hr hno
  · obtain ⟨d, hd, rfl⟩ := List.mem_map.mp hr
    exact ⟨d.prevRecord, mem_answers.mpr ⟨d, hd, hm, rfl⟩⟩

/-- A watch that starts at the revision 3 when 1 is committed. -/
theorem start_revision_complete_future :
    ∃ n, exec (System.step Gate.syncOnly)
        (Node.start (replica Gate.firstTable Gate.firstBucket Gate.noPeers 1) [])
        (watchKeys 3 false ++ follow 2 97 ++ follow 3 98) = some n ∧
      keysWatch 3 false ∈ (n.manager.watchers 1).watches ∧
      (eventsOf 1 (n.manager.watchers 1).placed).map WatchResponse.revision = [3] ∧
      ∀ r ∈ n.log, isWatchMatch (keysWatch 3 false).entry r = some true →
        ∃ prev, outMsg (keysWatch 3 false) ⟨r, prev⟩ ∈
          eventsOf 1 (n.manager.watchers 1).placed := by
  obtain ⟨n, hrun, hwatch, hevents, hsettled, hreg⟩ := exists_exec_of_any
    (System.step Gate.syncOnly)
    (Node.start (replica Gate.firstTable Gate.firstBucket Gate.noPeers 1) [])
    (watchKeys 3 false ++ follow 2 97 ++ follow 3 98)
    (fun n => keysWatch 3 false ∈ (n.manager.watchers 1).watches ∧
      (eventsOf 1 (n.manager.watchers 1).placed).map WatchResponse.revision = [3] ∧
      Settled n ∧ 1 ∈ n.manager.registered) (by decide +kernel)
  refine ⟨n, hrun, hwatch, hevents, ?_⟩
  exact start_revision_complete (by decide +kernel) hrun hsettled hreg _ hwatch (by decide)

/-- The record 2 is committed and distributed, then a watch from the revision 2 on is created. -/
def watchingPast : List System.Action :=
  [.message 2 (.record (created 2 97)), .message 2 (.commit 2), .distributeFromDB true true,
    .watch (.unlock 0), .watch (.finish 0)] ++ watchKeys 2 false ++ follow 3 98

/-- The watch is acknowledged at the revision 2. It is sent 3 and never 2. -/
theorem past_start_revision_incomplete :
    ∃ n y, exec (System.step Gate.syncOnly)
        (Node.start (replica Gate.firstTable Gate.firstBucket Gate.noPeers 1) []) watchingPast =
          some n ∧
      Settled n ∧ 1 ∈ n.manager.registered ∧ (n.manager.watchers 1).watches = [y] ∧
      y.entry.startRevision = 2 ∧
      (n.manager.watchers 1).sent = [{ revision := 2, watchId := y.id, created := true }] ∧
      (eventsOf y.id (n.manager.watchers 1).placed).map WatchResponse.revision = [3] ∧
      ∃ r ∈ n.log, isWatchMatch y.entry r = some true ∧
        ¬ ∃ prev, outMsg y ⟨r, prev⟩ ∈ eventsOf y.id (n.manager.watchers 1).placed := by
  obtain ⟨n, hrun, hsettled, hreg, hwatch, hsent, hevents, r, hr, hm, h2⟩ := exists_exec_of_any
    (System.step Gate.syncOnly)
    (Node.start (replica Gate.firstTable Gate.firstBucket Gate.noPeers 1) []) watchingPast
    (fun n => Settled n ∧ 1 ∈ n.manager.registered ∧
      (n.manager.watchers 1).watches = [{ keysWatch 2 false with since := 2, first := 1 }] ∧
      (n.manager.watchers 1).sent = [{ revision := 2, watchId := 1, created := true }] ∧
      (eventsOf 1 (n.manager.watchers 1).placed).map WatchResponse.revision = [3] ∧
      ∃ r ∈ n.log, isWatchMatch (keysWatch 2 false).entry r = some true ∧ r.revision = 2)
    (by decide +kernel)
  refine ⟨n, _, hrun, hsettled, hreg, hwatch, rfl, hsent, hevents, r, hr, hm, ?_⟩
  rintro ⟨prev, hprev⟩
  have hrev := List.mem_map_of_mem (f := WatchResponse.revision) hprev
  rw [show (keysWatch 2 false).id = 1 from rfl, hevents, List.mem_singleton] at hrev
  exact absurd (h2.symm.trans hrev) (by decide)

end Netsy.Watch.StartRevision
