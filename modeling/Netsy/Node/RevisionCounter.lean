import Netsy.Node.Roles
import Netsy.Replication.ProcessStream

/-! # The revision counter at a handover

When a Replica is elected, its Follower is stopped and the preflight is started. `Stop` cancels the
context of the Follower and does not wait for its goroutine, which may still have a message of the
old Primary in hand: it handles the message while the preflight runs. -/

namespace Netsy.Node.RevisionCounter

open Proto NodeState Lib.Run Lib.StateError LocalDB.Schema
open LocalDB.Replicate LocalDB.Compaction Replication.ProcessStream
open Primary.Preflight Primary.PreflightStages
open Node.Roles (Preflight Place)

/-- What the goroutine of the stopped Follower has still to do. -/
inductive Hand
  | idle
  | message (msg : PrimaryMessage)
  /-- `handleRecord` has read the committed revision. -/
  | storing (next : Record) (committedRevision : ℤ)
deriving DecidableEq, Repr

structure State where
  primary : PrimaryState := .starting
  preflight : Preflight := {}
  data : Node
  hand : Hand
deriving DecidableEq

/-- The Follower has been told to stop and the preflight has been started. -/
def State.start (data : Node) (hand : Hand) : State := { data, hand }

/-- The part of the node that the Follower works on. -/
def asFollower (n : Node) : Follower :=
  { db := n.db, compactions := n.compactions, committed := n.committed
    compaction := n.compaction, compacting := [] }

def withFollower (n : Node) (f : Follower) : Node :=
  { n with
    db := f.db, compactions := f.compactions, committed := f.committed
    compaction := f.compaction }

/-- The goroutine of the Follower goes on. -/
def finish (n : Node) (now : Time) : Hand → Option (Node × Hand)
  | .idle => none
  | .message (.record next) => some (n, .storing next n.committed)
  | .message msg => some (withFollower n (processMessage (asFollower n) now msg).1, .idle)
  | .storing next committed =>
    some ({ n with db := (replicateTentativeRecord n.db now next committed).1 }, .idle)

inductive Action
  | preflight (env : Env) (choice : Bool)
  | follower (now : Time)
  /-- The goroutine of a `Compact` message runs. -/
  | compaction (now : Time) (revision : ℤ)
  /-- `SetPrimary(Draining)`. -/
  | drain
  /-- `ApplyClusterState` names another node: `SetPrimary(Replica)`, `StopServices`. -/
  | supersede

def step (nodeID : NodeID) (s : State) : Action → Option State
  | .preflight env choice =>
    (s.preflight.go nodeID env choice 0 s.primary s.data).map fun (preflight, primary, data) =>
      { s with preflight, primary, data }
  | .follower now => (finish s.data now s.hand).map fun (data, hand) => { s with data, hand }
  | .compaction now revision =>
    some { s with data := { s.data with db := executeCompaction s.data.db now revision } }
  | .drain => some { s with primary := trySetPrimary s.primary .draining }
  | .supersede =>
    if s.primary = .starting then
      some { s with primary := .replica, preflight := s.preflight.cancel }
    else none

/-- A row with a higher revision or a copy of the record is stored. -/
def Settled (db : Table) (r : Record) : Prop :=
  ∃ row ∈ db, r.revision < row.revision ∨ SameRecord row r

instance (db : Table) (r : Record) : Decidable (Settled db r) :=
  inferInstanceAs (Decidable (∃ row ∈ db, _))

/-- A record in hand does not raise the latest revision. -/
def Hand.Behind (db : Table) : Hand → Prop
  | .message (.record next) => Settled db next
  | .storing next _ => Settled db next
  | _ => True

/-- The message in hand does not set the committed revision. -/
def Hand.Silent : Hand → Prop
  | .message (.initial _ _) => False
  | .message (.commit _) => False
  | _ => True

instance (db : Table) (h : Hand) : Decidable (h.Behind db) := by
  unfold Hand.Behind
  split <;> infer_instance

instance (h : Hand) : Decidable h.Silent := by
  unfold Hand.Silent
  split <;> infer_instance

/-- When the preflight reads the latest revision for the last time, the Follower has no record in
hand that will raise it, and when it sets the committed revision, none that will set it again. -/
def Waits (s : State) : Action → Prop
  | .preflight _ _ =>
    match s.preflight.place with
    | .pass .readLatestRevision => s.hand.Behind s.data.db
    | .pass (.setCommitted _) => s.hand.Silent
    | _ => True
  | _ => True

instance (s : State) : ∀ a, Decidable (Waits s a) := by
  intro a
  unfold Waits
  split
  · split <;> infer_instance
  · infer_instance

variable {nodeID : NodeID} {s s' : State} {a : Action} {as : List Action} {data n n' : Node}
variable {env : Env} {choice : Bool} {hand hand' : Hand} {now : Time} {db : Table} {r : Record}

/-! ### The Follower -/

/-- The latest revision and the numbers that are set stay, and what is in hand stays harmless. -/
structure Calm (n : Node) (hand : Hand) (n' : Node) (hand' : Hand) : Prop where
  latest : n'.db.latestRevision = n.db.latestRevision
  behind : hand'.Behind n'.db
  silent : hand.Silent → n'.committed = n.committed ∧ hand'.Silent
  next : n'.nextRevisionID = n.nextRevisionID

theorem calm_finish (hb : hand.Behind n.db) (h : finish n now hand = some (n', hand')) :
    Calm n hand n' hand' := by
  unfold finish at h
  split at h
  · cases h
  · cases h
    exact ⟨rfl, hb, fun _ => ⟨rfl, trivial⟩, rfl⟩
  · next msg hmsg =>
    cases h
    cases msg with
    | initial c k => exact ⟨rfl, trivial, False.elim, rfl⟩
    | commit c => exact ⟨rfl, trivial, False.elim, rfl⟩
    | compact k => exact ⟨rfl, trivial, fun _ => ⟨rfl, trivial⟩, rfl⟩
    | record r => exact absurd rfl (hmsg r)
  · cases h
    obtain ⟨row, hrow, hr⟩ := hb
    exact ⟨latestRevision_replicateTentativeRecord hrow hr, trivial, fun _ => ⟨rfl, trivial⟩, rfl⟩

theorem Settled.compaction {c : ℤ} (h : Settled db r) : Settled (executeCompaction db now c) r := by
  obtain ⟨row, hrow, hr⟩ := h
  obtain ⟨row', hrow', hk⟩ := exists_mem_executeCompaction hrow
  exact ⟨row', hrow', hr.imp (fun hlt => hk.revision_eq ▸ hlt) hk.sameRecord⟩

theorem calm_compaction {c : ℤ} (hb : hand.Behind n.db) :
    Calm n hand { n with db := executeCompaction n.db now c } hand := by
  refine ⟨latestRevision_executeCompaction, ?_, fun h => ⟨rfl, h⟩, rfl⟩
  unfold Hand.Behind at hb ⊢
  split
  · exact Settled.compaction hb
  · exact Settled.compaction hb
  · trivial

/-! ### The preflight -/

/-- The numbers are those of the latest revision, and stay so. -/
structure Numbered (n : Node) (hand : Hand) : Prop where
  committed : n.committed = n.db.latestRevision
  next : n.nextRevisionID = n.db.latestRevision + 1
  behind : hand.Behind n.db
  silent : hand.Silent

theorem Numbered.calm (h : Numbered n hand) (hc : hand.Behind n.db → Calm n hand n' hand') :
    Numbered n' hand' := by
  obtain ⟨hlatest, hbehind, hsilent, hnext⟩ := hc h.behind
  obtain ⟨hcommitted, hsilent⟩ := hsilent h.silent
  exact ⟨by rw [hcommitted, hlatest, h.committed], by rw [hnext, hlatest, h.next], hbehind, hsilent⟩

/-- What the pass knows at the end. -/
def Known (n : Node) (hand : Hand) : Place → Prop
  | .pass (.setCommitted latest) => latest = n.db.latestRevision ∧ hand.Behind n.db
  | .pass (.storeNextRevision latest) =>
    latest = n.db.latestRevision ∧ hand.Behind n.db ∧ hand.Silent ∧ n.committed = latest
  | .pass (.broadcastCommit _) => Numbered n hand
  | .passed => Numbered n hand
  | _ => True

theorem Known.calm {place : Place} (h : Known n hand place)
    (hc : hand.Behind n.db → Calm n hand n' hand') : Known n' hand' place := by
  unfold Known at h ⊢
  split
  · obtain ⟨rfl, hb⟩ := h
    exact ⟨(hc hb).latest.symm, (hc hb).behind⟩
  · obtain ⟨rfl, hb, hs, hcommitted⟩ := h
    obtain ⟨hcommitted', hs'⟩ := (hc hb).silent hs
    exact ⟨(hc hb).latest.symm, (hc hb).behind, hs', hcommitted'.trans hcommitted⟩
  · exact Numbered.calm h hc
  · exact Numbered.calm h hc
  · trivial

theorem known_of_returns {stage : Stage} {o : Option Stage} {cancelled : Bool}
    {primary : PrimaryState} (h : Known n hand (.pass stage))
    (hbehind : stage = .readLatestRevision → hand.Behind n.db)
    (hsilent : ∀ l, stage = .setCommitted l → hand.Silent)
    (hret : Returns (stage.pass env nodeID cancelled primary) n o n') :
    Known n' hand (o.elim .passed .pass) := by
  cases follows_of_returns hret with
  | readLatestRevision l =>
    have hg := returns_get_bind.mp (returns_check_iff.mp hret).2
    obtain ⟨ho, rfl⟩ := returns_pure.mp hg
    cases ho
    exact ⟨rfl, hbehind rfl⟩
  | setCommitted l =>
    obtain ⟨-, u, hset⟩ := returns_bind_pure.mp (returns_get_bind.mp hret)
    obtain rfl := returns_set.mp hset
    exact ⟨h.1, h.2, hsilent l rfl, rfl⟩
  | storeNextRevision l =>
    obtain ⟨-, u, hset⟩ := returns_bind_pure.mp (returns_get_bind.mp hret)
    obtain rfl := returns_set.mp hset
    obtain ⟨rfl, hb, hs, hcommitted⟩ := h
    exact ⟨hcommitted, rfl, hb, hs⟩
  | broadcastCommit l =>
    obtain ⟨-, u, hset⟩ := returns_bind_pure.mp (returns_get_bind.mp hret)
    obtain rfl := returns_set.mp hset
    exact ⟨h.committed, h.next, h.behind, h.silent⟩
  | _ => trivial

/-! ### Runs -/

structure Inv (s : State) : Prop where
  known : Known s.data s.hand s.preflight.place
  active : s.primary = .active →
    (s.preflight.place = .returning ∨ s.preflight.place = .over) ∧ Numbered s.data s.hand

theorem inv_preflight (h : Inv s) (hok : Waits s (.preflight env choice))
    (hs : step nodeID s (.preflight env choice) = some s') : Inv s' := by
  obtain ⟨⟨p, primary, data⟩, hgo, rfl⟩ := Option.map_eq_some_iff.mp hs
  obtain ⟨hknown, hactive⟩ := h
  have hrunning : s.preflight.place ≠ .returning → s.preflight.place ≠ .over →
      s.primary ≠ .active := by
    intro h1 h2 hp
    rcases (hactive hp).1 with h | h
    · exact h1 h
    · exact h2 h
  simp only [Waits] at hok
  unfold Preflight.go at hgo
  split at hgo
  · next hplace =>
    rw [hplace] at hrunning
    have hidle := hrunning (by decide) (by decide)
    split_ifs at hgo <;> cases hgo <;> exact ⟨trivial, fun hp => absurd hp hidle⟩
  · next stage hplace =>
    rw [hplace] at hrunning hknown hok
    have hidle := hrunning (by simp) (by simp)
    have hbehind : stage = .readLatestRevision → s.hand.Behind s.data.db := by
      rintro rfl
      exact hok
    have hsilent : ∀ l, stage = .setCommitted l → s.hand.Silent := by
      rintro l rfl
      exact hok
    split at hgo
    · next hret =>
      cases hgo
      exact ⟨known_of_returns hknown hbehind hsilent hret, fun hp => absurd hp hidle⟩
    · next hret =>
      cases hgo
      exact ⟨known_of_returns hknown hbehind hsilent hret, fun hp => absurd hp hidle⟩
    · cases hgo
      refine ⟨?_, fun hp => absurd hp hidle⟩
      dsimp only
      split_ifs <;> trivial
  · next hplace =>
    rw [hplace] at hknown
    cases hgo
    exact ⟨trivial, fun _ => ⟨Or.inl rfl, hknown⟩⟩
  · next hplace =>
    rw [hplace] at hrunning
    have hidle := hrunning (by decide) (by decide)
    split_ifs at hgo <;> cases hgo <;> exact ⟨trivial, fun hp => absurd hp hidle⟩
  · cases hgo
    exact ⟨trivial, fun hp => ⟨Or.inr rfl, (hactive hp).2⟩⟩
  · cases hgo

theorem inv_step (h : Inv s) (hok : Waits s a) (hs : step nodeID s a = some s') : Inv s' := by
  cases a with
  | preflight env choice => exact inv_preflight h hok hs
  | follower now =>
    obtain ⟨⟨data, hand⟩, hfin, rfl⟩ := Option.map_eq_some_iff.mp hs
    have hcalm := fun hb => calm_finish hb hfin
    exact ⟨h.known.calm hcalm, fun hp => ⟨(h.active hp).1, (h.active hp).2.calm hcalm⟩⟩
  | compaction now revision =>
    cases hs
    exact ⟨h.known.calm calm_compaction, fun hp =>
      ⟨(h.active hp).1, (h.active hp).2.calm calm_compaction⟩⟩
  | drain =>
    cases hs
    exact ⟨h.known, fun hp => absurd hp (trySetPrimary_draining_ne_active s.primary)⟩
  | supersede =>
    simp only [step] at hs
    split_ifs at hs
    cases hs
    exact ⟨h.known, fun hp => by cases hp⟩

/-- **The revision counter at a handover**: in an Active node the next revision is above the latest
one, which is the committed one, and no row has it. -/
theorem handover_revision_counter {hand : Hand}
    (hok : Meets (step nodeID) Waits (.start data hand) as)
    (hrun : exec (step nodeID) (.start data hand) as = some s) (hactive : s.primary = .active) :
    s.data.nextRevisionID = s.data.db.latestRevision + 1 ∧
      s.data.committed = s.data.db.latestRevision ∧
      ∀ row ∈ s.data.db, row.revision ≠ s.data.nextRevisionID := by
  have hstart : Inv (.start data hand) := ⟨trivial, fun hp => by cases hp⟩
  have hinv := exec_invariant (fun _ _ _ h hok hs => inv_step h hok hs) hstart hok hrun
  obtain ⟨-, hnumbered⟩ := hinv.active hactive
  refine ⟨hnumbered.next, hnumbered.committed, fun row hrow he => ?_⟩
  have hle := Table.revision_le_latestRevision hrow
  rw [he, hnumbered.next] at hle
  omega

/-- The next steps of the preflight. -/
def goes (rounds : ℕ) : List Action :=
  List.replicate rounds (.preflight (Primary.Handover.faultless 10) true)

/-- A record of the old Primary. -/
def replicated : Record := { revision := 2, key := [98], created := true, createRevision := 2 }

/-- The Follower stores its record before the latest revision is read for the last time. -/
theorem handover_revision_counter_early : ∃ s, exec (step "n1")
    (.start Roles.oneRecord (.message (.record replicated)))
      (goes 4 ++ [.follower 9, .follower 9] ++ goes 16) = some s ∧ s.primary = .active ∧
    s.data.nextRevisionID = s.data.db.latestRevision + 1 ∧
      s.data.committed = s.data.db.latestRevision ∧
      ∀ row ∈ s.data.db, row.revision ≠ s.data.nextRevisionID := by
  have hok : Meets (step "n1") Waits (.start Roles.oneRecord (.message (.record replicated)))
      (goes 4 ++ [.follower 9, .follower 9] ++ goes 16) := by decide +kernel
  obtain ⟨s, hrun, hactive⟩ := exists_exec_of_any (step "n1")
    (.start Roles.oneRecord (.message (.record replicated)))
    (goes 4 ++ [.follower 9, .follower 9] ++ goes 16) (fun s => s.primary = .active)
    (by decide +kernel)
  exact ⟨s, hrun, hactive, handover_revision_counter hok hrun hactive⟩

/-- The Follower stores its record after that: the node becomes Active with a row at its next
revision. -/
theorem handover_counter_taken : ∃ s, exec (step "n1")
    (.start Roles.oneRecord (.message (.record replicated)))
      (goes 13 ++ [.follower 9, .follower 9] ++ goes 4) = some s ∧ s.primary = .active ∧
    s.data.nextRevisionID = 2 ∧ s.data.committed = 1 ∧ s.data.db.latestRevision = 2 ∧
      ∃ row ∈ s.data.db, row.revision = s.data.nextRevisionID :=
  exists_exec_of_any (step "n1") _ _ (fun s => s.primary = .active ∧
    s.data.nextRevisionID = 2 ∧ s.data.committed = 1 ∧ s.data.db.latestRevision = 2 ∧
      ∃ row ∈ s.data.db, row.revision = s.data.nextRevisionID) (by decide +kernel)

end Netsy.Node.RevisionCounter
