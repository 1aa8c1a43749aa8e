import Netsy.Watch.Delivery
import Netsy.Watch.Revisions

/-! # From the log to the watches

If a node numbers its records in one place at a time, hands them to the watch manager in the order
in which they became committed, and nothing becomes committed that it does not hand over, then its
log is what was handed over, followed by what is still to be handed over. -/

namespace Netsy.Watch.HandOver

open Proto Lib.SortedList LocalDB.Schema LocalDB.Compaction
open Primary.LeaderTxn (Config Server)
open Replication.ProcessStream (processMessage)
open Primary.Outcomes (Stage View view CallStep callStep_of_step)
open Primary.Preflight (NothingNew)
open Watch.Hub Watch.Moves Watch.System Watch.System.Node Watch.Revisions

/-- The rows above `lo` and up to `hi`. -/
def rowsBetween (t : Table) (lo hi : ℤ) : List Record :=
  t.rows.filter fun r => lo < r.revision && r.revision ≤ hi

/-- The record of the call at the gate, if it is committed. -/
def upcoming : Option Stage → Option Record → List Record
  | some .advanced, inserted => inserted.toList
  | _, _ => []

/-- The pending revisions up to `k` are those of the rows above the committed revision up to
`k`. -/
def Remembered (n : Node) (k : ℤ) : Prop :=
  (∀ rev ∈ n.pending, rev ≤ k → n.server.committed < rev ∧ ∃ r ∈ n.server.db, r.revision = rev) ∧
    ∀ r ∈ n.server.db, n.server.committed < r.revision → r.revision ≤ k → r.revision ∈ n.pending

instance (n : Node) (k : ℤ) : Decidable (Remembered n k) := inferInstanceAs (Decidable (_ ∧ _))

/-- The records are handed to the manager one after the other, in the order of their revisions, and
what becomes committed is what is handed over. -/
def InOrder (n : Node) : System.Action → Prop
  | .distribute i _ => i = 0 ∧ n.ready = [] ∧ n.manager.dists = []
  | .distributeFromDB readOk _ => n.manager.dists = [] ∧ readOk = true
  | .message _ (.initial committed _) | .message _ (.commit committed) =>
    n.returned = [] ∧ n.server.committed ≤ committed ∧ Remembered n committed
  | .preflight _ => NothingNew n.preflightNode
  | .compact _ revision => ∀ r ∈ n.server.db,
      r.revision ∈ n.ready ∨ n.server.committed < r.revision → revision < r.revision
  | _ => True

instance (n : Node) : ∀ a, Decidable (InOrder n a) := by
  intro a
  induction a using System.Action.casesOn with
  | message now msg =>
    induction msg using PrimaryMessage.casesOn <;> unfold InOrder <;> infer_instance
  | _ =>
    unfold InOrder
    infer_instance

/-- The log is what was handed to the manager, then the revisions that are ready, then the records
of the calls. -/
structure Flow (start : List Record) (n : Node) : Prop where
  log : ∃ rs, rs.map Record.revision = n.ready ∧ (∀ r ∈ rs, r ∈ n.server.db) ∧
    n.log = start ++ n.manager.begun.map Distribution.record ++ rs ++ n.returned ++
      upcoming (view n.server).stage n.inserted
  sorted : Ascending Record.revision n.log
  bound : ∀ r ∈ n.log, r.revision ≤ n.server.committed
  row : ∀ r, (view n.server).stage = some (.committed r) → r ∈ n.server.db
  pending : n.pending.Nodup

variable {alone : Prop} {start : List Record} {c : Config} {n n' : Node} {r : Record}

theorem newlyCommitted_of_eq (h : n'.server.committed = n.server.committed) :
    n.newlyCommitted n' = [] := by
  refine List.filter_eq_nil_iff.mpr fun r _ => ?_
  rw [h]
  simp

theorem newlyCommitted_eq :
    n.newlyCommitted n' = rowsBetween n'.server.db n.server.committed n'.server.committed := rfl

theorem rowsBetween_eq_singleton {t : Table} {lo : ℤ} (hr : r ∈ t) (hlo : lo < r.revision)
    (hrows : ∀ b ∈ t, b.revision ≤ lo ∨ b.revision = r.revision) :
    rowsBetween t lo r.revision = [r] := by
  refine eq_singleton_of_mem_iff (ascending_filter t.sorted _) fun b => ?_
  unfold rowsBetween
  rw [List.mem_filter]
  constructor
  · rintro ⟨hb, hin⟩
    rcases hrows b hb with hle | he
    · simp only [Bool.and_eq_true, decide_eq_true_eq] at hin
      omega
    · exact Table.eq_of_revision_eq hb hr he
  · rintro rfl
    exact ⟨hr, by simp [hlo]⟩

theorem Flow.append (h : Flow start n) {lo hi : ℤ} {t : Table} (hlo : n.server.committed ≤ lo) :
    Ascending Record.revision (n.log ++ rowsBetween t lo hi) := by
  refine List.pairwise_append.mpr ⟨h.sorted, ascending_filter t.sorted _, fun a ha b hb => ?_⟩
  have hb' := (List.mem_filter.mp hb).2
  have ha' := h.bound a ha
  simp only [Bool.and_eq_true, decide_eq_true_eq] at hb'
  omega

theorem Flow.of_log (h : Flow start n) (hc : n'.server.committed = n.server.committed)
    (hlog : ∃ rs, rs.map Record.revision = n'.ready ∧ (∀ r ∈ rs, r ∈ n'.server.db) ∧
      n.log = start ++ n'.manager.begun.map Distribution.record ++ rs ++ n'.returned ++
        upcoming (view n'.server).stage n'.inserted)
    (hrow : ∀ r, (view n'.server).stage = some (.committed r) → r ∈ n'.server.db)
    (hpending : n'.pending.Nodup) :
    Flow start { n' with log := n.log ++ n.newlyCommitted n' } := by
  rw [newlyCommitted_of_eq hc, List.append_nil]
  exact ⟨hlog, h.sorted, fun r hr => (h.bound r hr).trans hc.ge, hrow, hpending⟩

/-- A step that hands nothing over and keeps the rows that are still to be handed over. -/
theorem Flow.of_rows (h : Flow start n) (hview : (view n'.server).stage = (view n.server).stage)
    (hc : n'.server.committed = n.server.committed) (hi : n'.inserted = n.inserted)
    (hret : n'.returned = n.returned) (hready : n'.ready = n.ready)
    (hbegun : n'.manager.begun = n.manager.begun)
    (hrows : ∀ r ∈ n.server.db,
      r.revision ∈ n.ready ∨ (view n.server).stage = some (.committed r) → r ∈ n'.server.db)
    (hpending : n'.pending.Nodup) :
    Flow start { n' with log := n.log ++ n.newlyCommitted n' } := by
  obtain ⟨rs, hrs, hdb, hlog⟩ := h.log
  refine h.of_log hc ⟨rs, hrs.trans hready.symm, fun r hr => ?_, ?_⟩ (fun r hr => ?_) hpending
  · exact hrows r (hdb r hr) (Or.inl (hrs ▸ List.mem_map_of_mem hr))
  · rw [hbegun, hret, hview, hi]
    exact hlog
  · rw [hview] at hr
    exact hrows r (h.row r hr) (Or.inr hr)

/-! ### The Primary -/

theorem rowsBetween_self (t : Table) (k : ℤ) : rowsBetween t k k = [] := by
  refine List.filter_eq_nil_iff.mpr fun r _ => ?_
  simp

variable {v v' : View} {inserted : Option Record}

theorem committed_le_callStep (h : CallStep v v')
    (hst : ∀ st ∈ v.stage, StageOk v.counters inserted st) :
    v.counters.committed ≤ v'.counters.committed := by
  cases h with
  | advance =>
    obtain ⟨-, hlt, -⟩ := hst _ rfl
    exact hlt.le
  | _ => exact le_refl _

theorem rows_callStep (h : CallStep v v') (hst : ∀ st ∈ v.stage, StageOk v.counters inserted st)
    (hrow : ∀ r, v.stage = some (.committed r) → r ∈ v.counters.db) :
    (∀ r ∈ v.counters.db, r ∈ v'.counters.db) ∧
      ∀ r, v'.stage = some (.committed r) → r ∈ v'.counters.db := by
  cases h with
  | keep => exact ⟨fun _ hr => hr, hrow⟩
  | commit =>
    obtain ⟨-, htx, -⟩ := hst _ rfl
    refine ⟨fun r hr => (htx.2 r).mpr (Or.inr hr), ?_⟩
    rintro r ⟨⟩
    exact (htx.2 _).mpr (Or.inl rfl)
  | _ => exact ⟨fun _ hr => hr, fun _ hr => (by cases hr)⟩

theorem upcoming_callStep (h : CallStep v v')
    (hst : ∀ st ∈ v.stage, StageOk v.counters inserted st)
    (hrow : ∀ r, v.stage = some (.committed r) → r ∈ v.counters.db) :
    upcoming v.stage inserted ++
        rowsBetween v'.counters.db v.counters.committed v'.counters.committed =
      returnedBy inserted v v' ++ upcoming v'.stage (insertedAfter inserted v v') := by
  cases h with
  | keep =>
    rw [rowsBetween_self, List.append_nil]
    obtain ⟨k, st⟩ := v
    rcases st with - | (_ | _ | _ | _) <;> rfl
  | acquire => exact rowsBetween_self _ _
  | insert => exact rowsBetween_self _ _
  | commit => exact rowsBetween_self _ _
  | advance =>
    obtain ⟨hins, hlt, -, hrows⟩ := hst _ rfl
    rw [hins]
    exact rowsBetween_eq_singleton (hrow _ rfl) hlt hrows
  | fail hf =>
    rw [rowsBetween_self]
    rcases hf with rfl | ⟨tx, rfl⟩ <;> rfl
  | returns =>
    rw [rowsBetween_self]
    rfl

theorem flow_txn {a : Primary.LeaderTxn.Action} (h : Flow start n) (hcounts : Counts alone n)
    (hs : n.txn c a = some n') : Flow start { n' with log := n.log ++ n.newlyCommitted n' } := by
  obtain ⟨s, hstep, rfl⟩ := Option.map_eq_some_iff.mp hs
  have hcall := callStep_of_step hcounts.owned hstep
  obtain ⟨rs, hrs, hdb, hlog⟩ := h.log
  obtain ⟨hrows, hrow⟩ := rows_callStep hcall hcounts.stage h.row
  have hle := committed_le_callStep hcall hcounts.stage
  have hup := upcoming_callStep hcall hcounts.stage h.row
  refine ⟨⟨rs, hrs, fun r hr => hrows r (hdb r hr), ?_⟩, h.append (le_refl _), fun r hr => ?_,
    hrow, h.pending⟩
  · change n.log ++ rowsBetween s.db n.server.committed s.committed = _
    rw [hlog, List.append_assoc _ (upcoming _ _)]
    refine (congrArg _ hup).trans ?_
    rw [← List.append_assoc, ← List.append_assoc]
  · rcases List.mem_append.mp hr with hr | hr
    · exact (h.bound r hr).trans hle
    · have hin := (List.mem_filter.mp hr).2
      exact of_decide_eq_true (Bool.and_eq_true_iff.mp hin).2

theorem flow_distribute {i : ℕ} {prevOk : Bool} (h : Flow start n)
    (hok : InOrder n (.distribute i prevOk)) (hs : n.distribute i prevOk = some n') :
    Flow start { n' with log := n.log ++ n.newlyCommitted n' } := by
  obtain ⟨rfl, hready, -⟩ := hok
  obtain ⟨r, hr, rfl⟩ := Option.map_eq_some_iff.mp hs
  obtain ⟨rs, hrs, -, hlog⟩ := h.log
  rw [hready] at hrs
  obtain rfl := List.map_eq_nil_iff.mp hrs
  obtain ⟨rest, hrest⟩ : ∃ rest, n.returned = r :: rest := by
    rw [← List.head?_eq_getElem?] at hr
    exact List.head?_eq_some_iff.mp hr
  refine h.of_log rfl ⟨[], hready.symm, fun _ hr => (by cases hr), ?_⟩ h.row h.pending
  rw [hlog, hrest]
  simp [Manager.distribute]

theorem flow_preflight {env : Primary.Preflight.Env} (h : Flow start n)
    (hgate : n.server.gate = none) (hok : InOrder n (.preflight env))
    (hs : n.preflight c env = some n') :
    Flow start { n' with log := n.log ++ n.newlyCommitted n' } := by
  have hst : (view n.server).stage = none := stage_of_gate hgate
  have hkeep : n'.server.db = n.server.db ∧ n'.server.committed = n.server.committed ∧
      (view n'.server).stage = none ∧ n'.inserted = n.inserted ∧ n'.returned = n.returned ∧
      n'.ready = n.ready ∧ n'.manager = n.manager ∧ n'.pending = n.pending := by
    obtain ⟨-, -, p, rfl, rfl | ⟨-, rfl⟩⟩ := preflight_eq_some hs
    all_goals
      obtain ⟨hdb, hcomm⟩ := Primary.Preflight.leaves_of_nothingNew hok
      exact ⟨hdb, hcomm, stage_of_gate hgate, rfl, rfl, rfl, rfl, rfl⟩
  obtain ⟨hdb, hcomm, hst', hi, hret, hready, hm, hpending⟩ := hkeep
  refine h.of_rows (hst'.trans hst.symm) hcomm hi hret hready (by rw [hm]) ?_ (hpending ▸ h.pending)
  rw [hdb]
  exact fun r hr _ => hr

/-! ### The Replica -/

/-- The revisions that get ready are those of the rows that become committed. -/
theorem readyFor_eq {k : ℤ} (hnodup : n.pending.Nodup) (hk : Remembered n k) :
    n.readyFor k = (rowsBetween n.server.db n.server.committed k).map Record.revision := by
  have hrows : ((rowsBetween n.server.db n.server.committed k).map Record.revision).Pairwise
      (· < ·) := List.pairwise_map.mpr (ascending_filter n.server.db.sorted _)
  refine List.Perm.eq_of_pairwise' (r := (· ≤ ·)) (List.pairwise_insertionSort _ _)
    (hrows.imp le_of_lt) ((List.perm_insertionSort _ _).trans ?_)
  refine (List.perm_ext_iff_of_nodup (hnodup.filter _) (hrows.imp ne_of_lt)).mpr fun rev => ?_
  rw [List.mem_filter, List.mem_map]
  constructor
  · rintro ⟨hrev, hle⟩
    obtain ⟨hlt, r, hr, rfl⟩ := hk.1 rev hrev (of_decide_eq_true hle)
    exact ⟨r, List.mem_filter.mpr ⟨hr, by simp [hlt, of_decide_eq_true hle]⟩, rfl⟩
  · rintro ⟨r, hr, rfl⟩
    obtain ⟨hr, hin⟩ := List.mem_filter.mp hr
    simp only [Bool.and_eq_true, decide_eq_true_eq] at hin
    exact ⟨hk.2 r hr hin.1 hin.2, decide_eq_true hin.2⟩

theorem Flow.announce {k : ℤ} (h : Flow start n) (hready : n.ready = [])
    (hgate : n.server.gate = none)
    (hok : n.returned = [] ∧ n.server.committed ≤ k ∧ Remembered n k)
    (hdb : n'.server.db = n.server.db) (hcomm : n'.server.committed = k)
    (hready' : n'.ready = n.readyFor k) (hret' : n'.returned = n.returned)
    (hbegun : n'.manager.begun = n.manager.begun) (hgate' : n'.server.gate = none)
    (hpending : n'.pending.Nodup) :
    Flow start { n' with log := n.log ++ n.newlyCommitted n' } := by
  obtain ⟨hret, hle, hk⟩ := hok
  obtain ⟨rs, hrs, -, hlog⟩ := h.log
  rw [hready] at hrs
  obtain rfl := List.map_eq_nil_iff.mp hrs
  rw [newlyCommitted_eq, hdb, hcomm]
  refine ⟨⟨rowsBetween n.server.db n.server.committed k, ?_, fun r hr => ?_, ?_⟩,
    h.append (le_refl _), fun r hr => ?_, fun r hr => ?_, hpending⟩
  · exact (readyFor_eq h.pending hk).symm.trans hready'.symm
  · rw [hdb]
    exact List.mem_of_mem_filter hr
  · dsimp only
    rw [hlog, hbegun, hret', hret, stage_of_gate hgate, stage_of_gate hgate']
    simp [upcoming]
  · rw [hcomm]
    rcases List.mem_append.mp hr with hr | hr
    · exact (h.bound r hr).trans hle
    · have hin := (List.mem_filter.mp hr).2
      exact of_decide_eq_true (Bool.and_eq_true_iff.mp hin).2
  · rw [stage_of_gate hgate'] at hr
    cases hr

theorem flow_message {now : Time} {msg : PrimaryMessage} (h : Flow start n)
    (hgate : n.server.gate = none) (hok : InOrder n (.message now msg))
    (hs : n.message now msg = some n') :
    Flow start { n' with log := n.log ++ n.newlyCommitted n' } := by
  obtain ⟨hready, pending, -, hnodup, rfl⟩ := message_eq_some hs
  have hpending := hnodup h.pending
  have hst : (view n.server).stage = none := stage_of_gate hgate
  -- a message that does not announce a revision hands nothing over
  have hkeep : ∀ r ∈ n.server.db,
      r.revision ∈ n.ready ∨ (view n.server).stage = some (.committed r) →
        r ∈ (processMessage n.follower now msg).1.db := by
    rintro r - (hr | hr)
    · rw [hready] at hr
      cases hr
    · rw [hst] at hr
      cases hr
  have hst' := stage_of_gate (n := n.setFollower (processMessage n.follower now msg).1) hgate
  cases msg with
  | initial k compaction =>
    exact h.announce hready hgate hok rfl rfl rfl rfl rfl hgate hpending
  | commit k => exact h.announce hready hgate hok rfl rfl rfl rfl rfl hgate hpending
  | record r => exact h.of_rows (hst'.trans hst.symm) rfl rfl rfl rfl rfl hkeep hpending
  | compact k => exact h.of_rows (hst'.trans hst.symm) rfl rfl rfl rfl rfl hkeep hpending

theorem flow_distributeFromDB {readOk prevOk : Bool} (h : Flow start n)
    (hok : InOrder n (.distributeFromDB readOk prevOk))
    (hs : n.distributeFromDB readOk prevOk = some n') :
    Flow start { n' with log := n.log ++ n.newlyCommitted n' } := by
  obtain ⟨-, hread⟩ := hok
  obtain ⟨revision, rest, hready, -, hout⟩ := distributeFromDB_eq_some hs
  obtain ⟨rs, hrs, hdb, hlog⟩ := h.log
  rw [hready] at hrs
  -- the row of the revision is there
  obtain ⟨r, rs', rfl, rfl, hrest⟩ := List.map_eq_cons_iff.mp hrs
  have hfind := Table.findRecordByRev_eq_some.mpr ⟨hdb r List.mem_cons_self, rfl⟩
  rcases hout with ⟨hnone, -⟩ | ⟨r', -, hfind', rfl⟩
  · rw [hfind] at hnone
    cases hnone hread
  · obtain rfl := Option.some.inj (hfind.symm.trans hfind')
    refine h.of_log rfl ⟨rs', hrest, fun b hb => hdb b (List.mem_cons_of_mem _ hb), ?_⟩ h.row
      h.pending
    rw [hlog]
    simp [Manager.distribute]

theorem flow_compact {now : Time} {revision : ℤ} (h : Flow start n) (hcounts : Counts alone n)
    (hok : InOrder n (.compact now revision)) (hs : n.compact now revision = some n') :
    Flow start { n' with log := n.log ++ n.newlyCommitted n' } := by
  unfold Node.compact at hs
  split_ifs at hs
  cases hs
  refine h.of_rows rfl rfl rfl rfl rfl rfl (fun r hr hneed => ?_) h.pending
  refine mem_executeCompaction_of_lt hr (hok r hr ?_)
  exact hneed.imp_right fun hst => (hcounts.stage (.committed r) hst).2.1

/-! ### The manager -/

theorem begun_move {env : Hub.Env} {a : Hub.Action} {b b' : Board} (h : Move env a b b') :
    b'.begun = b.begun := by
  cases h <;> rfl

theorem flow_move {a : System.Action} (h : Flow start n) (hcounts : Counts alone n)
    (hnum : Numbered alone n a) (hok : InOrder n a) (hs : move c n a = some n') :
    Flow start { n' with log := n.log ++ n.newlyCommitted n' } := by
  cases a with
  | txn a => exact flow_txn h hcounts hs
  | distribute i prevOk => exact flow_distribute h hok hs
  | elected =>
    obtain ⟨-, rfl⟩ : _ ∧ _ = n' := by simpa [move, Node.elected] using hs
    exact h.of_rows rfl rfl rfl rfl rfl rfl (fun _ hr _ => hr) h.pending
  | dismissed =>
    obtain ⟨-, rfl⟩ : _ ∧ _ = n' := by simpa [move, Node.dismissed] using hs
    exact h.of_rows rfl rfl rfl rfl rfl rfl (fun _ hr _ => hr) h.pending
  | preflight env => exact flow_preflight h hnum.2 hok hs
  | connect =>
    unfold move Node.connect at hs
    dsimp only at hs
    split_ifs at hs
    cases hs
    exact h.of_rows rfl rfl rfl rfl rfl rfl (fun _ hr _ => hr) List.nodup_nil
  | message now msg => exact flow_message h hnum.2.2 hok hs
  | distributeFromDB readOk prevOk => exact flow_distributeFromDB h hok hs
  | compact now revision => exact flow_compact h hcounts hok hs
  | watch a =>
    obtain ⟨m, hm, rfl⟩ := Option.map_eq_some_iff.mp hs
    exact h.of_rows rfl rfl rfl rfl rfl (begun_move (move_of_step hm)) (fun _ hr _ => hr) h.pending

end Netsy.Watch.HandOver
