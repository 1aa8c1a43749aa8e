import Netsy.Watch.System

/-! # The revisions of a node

As long as a node numbers its records in one place at a time, the record of the call at the gate is
above everything committed, and nothing else is. -/

namespace Netsy.Watch.Revisions

open Proto NodeState Lib.StateError LocalDB.Schema LocalDB.Compaction Primary.Transitions
open Primary.Preflight (runPreflightPass)
open Replication.ProcessStream (processMessage)
open Primary.LeaderTxn (Config Server Tx)
open Primary.FlushOwned (Owned owned_step)
open Primary.Gate (Marked StayedActive marked_step sameHolder_step)
open Primary.Outcomes
  (Counters counters Stage View view CallStep callStep_of_step view_of_none)
open Watch.System Watch.System.Node

/-- Every row is committed and the next revision is above. -/
structure Counted (k : Counters) : Prop where
  rows : ∀ b ∈ k.db, b.revision ≤ k.committed
  next : k.committed < k.nextRevisionID

/-- What holds of the call at the gate. -/
def StageOk (k : Counters) (inserted : Option Record) : Stage → Prop
  | .begun => Counted k
  | .inserted tx => Counted k ∧ TxOk k.db k.nextRevisionID tx ∧ inserted = some tx.record
  | .committed r => inserted = some r ∧ k.committed < r.revision ∧ r.revision < k.nextRevisionID ∧
      ∀ b ∈ k.db, b.revision ≤ k.committed ∨ b.revision = r.revision
  | .advanced => Counted k ∧ ∃ r, inserted = some r ∧ r.revision = k.committed

/-- What holds of the revisions of the node. `alone` says that the node has only its own records. -/
structure Counts (alone : Prop) (n : Node) : Prop where
  owned : Owned n.server
  marked : Marked n.server
  stage : ∀ st ∈ (view n.server).stage, StageOk (counters n.server) n.inserted st
  idle : n.server.gate = none → alone ∨ n.server.primary = .active → Counted (counters n.server)

variable {alone : Prop} {c : Config} {n n' : Node} {v v' : View} {inserted : Option Record}

/-! ### The Primary -/

theorem stageOk_callStep (h : CallStep v v')
    (hst : ∀ st ∈ v.stage, StageOk v.counters inserted st)
    (hacq : v.stage = none → v'.stage ≠ none → Counted v.counters) :
    ∀ st ∈ v'.stage, StageOk v'.counters (insertedAfter inserted v v') st := by
  cases h with
  | keep =>
    obtain ⟨k, st⟩ := v
    rcases st with - | (_ | _ | _ | _) <;> exact hst
  | acquire =>
    rintro st ⟨⟩
    exact hacq rfl (by simp)
  | insert htx =>
    rintro st ⟨⟩
    exact ⟨hst _ rfl, htx, rfl⟩
  | commit =>
    rintro st ⟨⟩
    obtain ⟨hk, htx, hins⟩ := hst _ rfl
    refine ⟨hins, ?_, ?_, fun b hb => ?_⟩
    · exact htx.1 ▸ hk.next
    · rw [htx.1]
      exact Int.lt_succ _
    · rcases (htx.2 b).mp hb with rfl | hb
      · exact Or.inr rfl
      · exact Or.inl (hk.rows b hb)
  | advance =>
    rintro st ⟨⟩
    obtain ⟨hins, hlt, hnext, hrows⟩ := hst _ rfl
    refine ⟨⟨fun b hb => ?_, hnext⟩, _, hins, rfl⟩
    rcases hrows b hb with hb | hb
    · exact hb.trans hlt.le
    · exact hb.le
  | fail => exact fun st hst => (by cases hst)
  | returns => exact fun st hst => (by cases hst)

theorem counted_of_ended (h : CallStep v v')
    (hst : ∀ st ∈ v.stage, StageOk v.counters inserted st)
    (hidle : v.stage = none → Counted v.counters) (hend : v'.stage = none) :
    Counted v'.counters := by
  cases h with
  | keep => exact hidle hend
  | fail hf =>
    rcases hf with rfl | ⟨tx, rfl⟩
    · exact hst _ rfl
    · exact (hst _ rfl).1
  | returns => exact (hst _ rfl).1
  | acquire => cases hend
  | insert => cases hend
  | commit => cases hend
  | advance => cases hend

theorem gate_of_stage (h : (view n.server).stage = none) : n.server.gate = none :=
  Option.map_eq_none_iff.mp h

theorem stage_of_gate (h : n.server.gate = none) : (view n.server).stage = none := by
  rw [view_of_none h]

theorem counts_txn {a : Primary.LeaderTxn.Action} (h : Counts alone n)
    (hok : alone ∨ StayedActive n.server a) (hs : n.txn c a = some n') : Counts alone n' := by
  obtain ⟨s, hstep, rfl⟩ := Option.map_eq_some_iff.mp hs
  have hcall := callStep_of_step h.owned hstep
  -- the call that takes the gate finds the revisions in order
  have hacq : (view n.server).stage = none → (view s).stage ≠ none →
      Counted (counters n.server) := by
    intro hnone hsome
    refine h.idle (gate_of_stage hnone) ?_
    rcases hok with hok | hok
    · exact Or.inl hok
    · by_cases ha : ∃ i, a = .acquire i
      · obtain ⟨i, rfl⟩ := ha
        obtain ⟨call, -, hcall, -⟩ := acquire_eq_some hstep
        exact Or.inr (h.marked call (List.mem_of_getElem? hcall) (hok call hcall))
      · have hsame := sameHolder_step hstep fun i hi => ha ⟨i, hi⟩
        obtain ⟨st, hst⟩ := Option.ne_none_iff_exists'.mp hsome
        obtain ⟨g, hg, -⟩ := Option.map_eq_some_iff.mp hst
        obtain ⟨g', hg', -⟩ := hsame g hg
        rw [gate_of_stage hnone] at hg'
        cases hg'
  refine ⟨owned_step h.owned hstep, marked_step h.marked hstep, ?_, fun hgate hrole => ?_⟩
  · exact stageOk_callStep hcall h.stage hacq
  · refine counted_of_ended (v := view n.server) hcall h.stage (fun hnone => ?_) (by
      rw [view_of_none hgate])
    refine h.idle (gate_of_stage hnone) (hrole.imp_right fun hactive => ?_)
    by_contra hne
    exact primary_ne_active_step hne hstep hactive

/-! ### The other steps -/

theorem Counts.of_eq (h : Counts alone n) (hs : n'.server = n.server)
    (hi : n'.inserted = n.inserted) : Counts alone n' := by
  refine ⟨?_, ?_, ?_, ?_⟩
  · rw [hs]
    exact h.owned
  · rw [hs]
    exact h.marked
  · rw [hs, hi]
    exact h.stage
  · rw [hs]
    exact h.idle

theorem counts_of_none (howned : Owned n.server) (hmarked : Marked n.server)
    (hgate : n.server.gate = none)
    (hidle : alone ∨ n.server.primary = .active → Counted (counters n.server)) :
    Counts alone n := by
  refine ⟨howned, hmarked, fun st hst => ?_, fun _ => hidle⟩
  rw [view_of_none hgate] at hst
  cases hst

theorem Counts.setPrimary {p : PrimaryState} (h : Counts alone n) (hp : p ≠ .active) :
    Counts alone { n with server := n.server.setPrimary p } := by
  refine ⟨h.owned.of_eq rfl rfl rfl rfl, Primary.Gate.marked_setPrimary, h.stage,
    fun hgate hrole => ?_⟩
  refine h.idle hgate (hrole.imp_right fun hactive => ?_)
  by_contra hne
  exact trySetPrimary_ne hne hp hactive

/-- **A preflight pass** ends with an error, or it returns and the node becomes Active. -/
theorem preflight_eq_some {env : Primary.Preflight.Env} (h : n.preflight c env = some n') :
    n.server.primary = .starting ∧ n.txOpen = false ∧ ∃ p,
      p = leaves (runPreflightPass env c.nodeID) n.preflightNode ∧
      (n' = n.afterPass p ∨
        (∃ u, Returns (runPreflightPass env c.nodeID) n.preflightNode u p) ∧
          n' = { n.afterPass p with server := (n.afterPass p).server.setPrimary .active }) := by
  unfold Node.preflight at h
  split_ifs at h with hc
  obtain ⟨hstart, hopen⟩ := not_or.mp hc
  refine ⟨not_not.mp hstart, Bool.not_eq_true _ ▸ hopen,
    leaves (runPreflightPass env c.nodeID) n.preflightNode, rfl, ?_⟩
  dsimp only at h
  split at h
  · rename_i u hok
    exact Or.inr ⟨⟨u, Prod.ext hok rfl⟩, (Option.some.inj h).symm⟩
  · exact Or.inl (Option.some.inj h).symm

theorem counts_preflight {env : Primary.Preflight.Env} (h : Counts False n)
    (hgate : n.server.gate = none) (hs : n.preflight c env = some n') : Counts False n' := by
  obtain ⟨hstart, -, p, -, rfl | ⟨⟨u, hret⟩, rfl⟩⟩ := preflight_eq_some hs
  · refine counts_of_none (h.owned.of_eq rfl rfl rfl rfl) h.marked hgate fun hrole => ?_
    rcases hrole with hfalse | hactive
    · exact hfalse.elim
    · exact absurd (hstart.symm.trans hactive) (by decide)
  · obtain ⟨hcomm, hnext⟩ := Primary.Preflight.numbered_of_returns hret
    refine counts_of_none (h.owned.of_eq rfl rfl rfl rfl) Primary.Gate.marked_setPrimary hgate
      fun _ => ⟨fun b hb => ?_, ?_⟩
    · exact (Table.revision_le_latestRevision (t := p.db) hb).trans hcomm.ge
    · change p.committed < p.nextRevisionID
      omega

/-- The revisions that are ready after a message. -/
def readyAfter (n : Node) : PrimaryMessage → List ℤ
  | .initial committed _ => n.readyFor committed
  | .commit committed => n.readyFor committed
  | _ => n.ready

theorem message_eq_some {now : Time} {msg : PrimaryMessage} (h : n.message now msg = some n') :
    n.ready = [] ∧ ∃ pending,
      (∀ rev ∈ pending, rev ∈ n.pending ∨ ∃ r, msg = .record r ∧ rev = r.revision) ∧
      (n.pending.Nodup → pending.Nodup) ∧
      n' = { n.setFollower (processMessage n.follower now msg).1 with
        pending := pending, ready := readyAfter n msg } := by
  unfold Node.message at h
  split_ifs at h with hc
  refine ⟨not_not.mp (not_or.mp hc).1, ?_⟩
  cases msg with
  | initial committed compaction =>
    cases h
    exact ⟨_, fun rev hrev => Or.inl (List.mem_of_mem_filter hrev), fun h => h.filter _, rfl⟩
  | commit committed =>
    cases h
    exact ⟨_, fun rev hrev => Or.inl (List.mem_of_mem_filter hrev), fun h => h.filter _, rfl⟩
  | compact compaction =>
    cases h
    exact ⟨n.pending, fun _ => Or.inl, id, rfl⟩
  | record r =>
    dsimp only at h
    cases hres : (processMessage n.follower now (.record r)).2 with
    | error e =>
      rw [hres] at h
      cases h
      exact ⟨n.pending, fun _ => Or.inl, id, rfl⟩
    | ok receipt =>
      rw [hres] at h
      cases h
      unfold enqueueWatchRevision
      split_ifs with hskip
      · exact ⟨n.pending, fun _ => Or.inl, id, rfl⟩
      · refine ⟨n.pending ++ [r.revision], fun rev hrev => ?_, fun hnodup => ?_, rfl⟩
        · rcases List.mem_append.mp hrev with hrev | hrev
          · exact Or.inl hrev
          · exact Or.inr ⟨r, rfl, List.mem_singleton.mp hrev⟩
        · refine hnodup.append (List.nodup_singleton _) fun rev hrev hr => ?_
          rw [List.mem_singleton.mp hr] at hrev
          exact hskip (Or.inr hrev)

theorem counts_message {now : Time} {msg : PrimaryMessage} (h : Counts False n)
    (hrole : n.server.primary = .replica) (hgate : n.server.gate = none)
    (hs : n.message now msg = some n') : Counts False n' := by
  obtain ⟨-, pending, -, -, rfl⟩ := message_eq_some hs
  refine counts_of_none (h.owned.of_eq rfl rfl rfl rfl) h.marked hgate fun hactive => ?_
  rcases hactive with hfalse | hactive
  · exact hfalse.elim
  · exact absurd (hrole.symm.trans hactive) (by decide)

/-- **`distributeFromDB`** skips a revision that it cannot read and distributes any other. -/
theorem distributeFromDB_eq_some {readOk prevOk : Bool}
    (h : n.distributeFromDB readOk prevOk = some n') :
    ∃ revision rest, n.ready = revision :: rest ∧ n.following = false ∧
      (((readOk = true → n.server.db.findRecordByRev revision = none) ∧
          n' = { n with ready := rest }) ∨
        ∃ r, readOk = true ∧ n.server.db.findRecordByRev revision = some r ∧
          n' = { n with
            ready := rest
            manager := n.manager.distribute .follower ⟨r, findPrev n.server.db r prevOk⟩ }) := by
  unfold Node.distributeFromDB at h
  split at h
  · cases h
  · rename_i revision rest hready
    split_ifs at h with hfollow hread
    · refine ⟨revision, rest, hready, Bool.not_eq_true _ ▸ hfollow, ?_⟩
      split at h <;> cases h
      · exact Or.inl ⟨fun _ => by assumption, rfl⟩
      · exact Or.inr ⟨_, hread, by assumption, rfl⟩
    · cases h
      exact ⟨revision, rest, hready, Bool.not_eq_true _ ▸ hfollow,
        Or.inl ⟨fun hr => absurd hr hread, rfl⟩⟩

theorem Counted.executeCompaction {k : Counters} {now : Time} {revision : ℤ} (h : Counted k) :
    Counted { k with db := executeCompaction k.db now revision } := by
  refine ⟨fun b hb => ?_, h.next⟩
  obtain ⟨b', hb', hk⟩ := mem_executeCompaction hb
  exact hk.revision_eq ▸ h.rows b' hb'

theorem counts_compact {now : Time} {revision : ℤ} (h : Counts alone n)
    (hs : n.compact now revision = some n') : Counts alone n' := by
  unfold Node.compact at hs
  split_ifs at hs with hopen
  cases hs
  refine ⟨h.owned.of_eq rfl rfl rfl rfl, h.marked, fun st hst => ?_, fun hgate hrole => ?_⟩
  · have hstage := h.stage st hst
    cases st with
    | begun => exact Counted.executeCompaction (k := counters n.server) hstage
    | inserted tx =>
      -- the compaction waits for the transaction
      have hst' : (view n.server).stage = some (.inserted tx) := hst
      refine absurd ?_ hopen
      unfold Node.txOpen Primary.Outcomes.txOpen
      rw [hst']
    | committed r =>
      obtain ⟨hins, hlt, hnext, hrows⟩ := hstage
      refine ⟨hins, hlt, hnext, fun b hb => ?_⟩
      obtain ⟨b', hb', hk⟩ := mem_executeCompaction hb
      rw [hk.revision_eq]
      exact hrows b' hb'
    | advanced =>
      exact ⟨Counted.executeCompaction (k := counters n.server) hstage.1, hstage.2⟩
  · exact Counted.executeCompaction (k := counters n.server) (h.idle hgate hrole)

/-! ### Runs -/

/-- The records are numbered in one place at a time: a call takes the gate only if the node has
stayed Active, and other nodes' records arrive only while it is a Replica that runs no call. A node
that is alone has no other nodes' records. -/
def Numbered (alone : Prop) (n : Node) : Action → Prop
  | .txn a => alone ∨ StayedActive n.server a
  | .message _ _ => ¬ alone ∧ n.server.primary = .replica ∧ n.server.gate = none
  | .preflight _ => ¬ alone ∧ n.server.gate = none
  | _ => True

instance [Decidable alone] (n : Node) : ∀ a, Decidable (Numbered alone n a) := by
  intro a
  induction a using System.Action.casesOn <;> unfold Numbered <;> infer_instance

theorem counts_move {a : Action} (h : Counts alone n) (hok : Numbered alone n a)
    (hs : move c n a = some n') : Counts alone n' := by
  cases a with
  | txn a => exact counts_txn h hok hs
  | distribute i prevOk =>
    obtain ⟨r, -, rfl⟩ := Option.map_eq_some_iff.mp hs
    exact h.of_eq rfl rfl
  | elected =>
    obtain ⟨-, rfl⟩ : _ ∧ _ = n' := by simpa [move, Node.elected] using hs
    exact h.setPrimary (by decide)
  | dismissed =>
    obtain ⟨-, rfl⟩ : _ ∧ _ = n' := by simpa [move, Node.dismissed] using hs
    exact h.setPrimary (by decide)
  | preflight env =>
    obtain ⟨halone, hgate⟩ := hok
    obtain rfl : alone = False := eq_false halone
    exact counts_preflight h hgate hs
  | connect =>
    unfold move Node.connect at hs
    dsimp only at hs
    split_ifs at hs
    cases hs
    exact h.of_eq rfl rfl
  | message now msg =>
    obtain ⟨halone, hrole, hgate⟩ := hok
    obtain rfl : alone = False := eq_false halone
    exact counts_message h hrole hgate hs
  | distributeFromDB readOk prevOk =>
    obtain ⟨revision, rest, -, -, ⟨-, rfl⟩ | ⟨r, -, -, rfl⟩⟩ := distributeFromDB_eq_some hs
    · exact h.of_eq rfl rfl
    · exact h.of_eq rfl rfl
  | compact now revision => exact counts_compact h hs
  | watch a =>
    obtain ⟨m, -, rfl⟩ := Option.map_eq_some_iff.mp hs
    exact h.of_eq rfl rfl

end Netsy.Watch.Revisions
