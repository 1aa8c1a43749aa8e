import Netsy.Primary.CompactionCycle

/-! # An aborted compaction

The notices of `runCompactionProtocol` raise the watch-admission floor of one node after the other.
When a node does not confirm, those that have confirmed are sent the compaction revision that the
Primary had before; the node that did not confirm is sent nothing, and neither is any node when the
revision cannot be persisted. A notice may also be handled although its response is lost. -/

namespace Netsy.Primary.CompactionRollback

open Watch.Hub (Subscription)
open Watch.Notices.Node (isBelow)
open Primary.CompactionCycle (Registered)

/-! ### Notices -/

/-- A call of `SendCompactionNotice` as it goes. -/
structure Call where
  /-- The notice is handled. -/
  delivered : Bool := true
  /-- The response arrives; without it the call ends with an error. -/
  answered : Bool := true
  /-- The watches of each watcher when the notice is handled. -/
  watches : List (List Subscription) := []

/-- `SetWatchAdmissionFloor`: the floor after it, and whether it was accepted. -/
def setWatchAdmissionFloor (watches : List (List Subscription)) (floor revision : ℤ) : ℤ × Bool :=
  if watches.any fun ws => ws.any (isBelow revision) then (floor, false) else (revision, true)

/-- `SendCompactionNotice`: the floor after the call, and what the Primary is told, `none` for an
error. -/
def sendCompactionNotice (c : Call) (floor revision : ℤ) : ℤ × Option Bool :=
  if c.delivered then
    let (floor, confirmed) := setWatchAdmissionFloor c.watches floor revision
    (floor, if c.answered then some confirmed else none)
  else (floor, none)

/-- A registered node: the floor it has when the protocol starts, and how the calls to it go. -/
structure Peer where
  floor : ℤ
  first : Call := {}
  second : Call := {}
  rollback : Call := {}

/-- The node answers calls during the rollback. -/
def Peer.answers (n : Peer) : Bool := n.rollback.delivered && n.rollback.answered

/-- The two attempts. -/
def Peer.notify (n : Peer) (compactionRevision : ℤ) : ℤ × Bool :=
  let (floor, answer) := sendCompactionNotice n.first n.floor compactionRevision
  if answer = some true then (floor, true)
  else
    let (floor, answer) := sendCompactionNotice n.second floor compactionRevision
    (floor, answer = some true)

/-- How the protocol ends: each node with its floor, and whether the revision was persisted and
broadcast. -/
structure Result where
  floors : List (Peer × ℤ)
  completed : Bool

/-- `runCompactionProtocol`, with the nodes that have confirmed and the floors they have. -/
def runCompactionProtocol (previousCompaction compactionRevision : ℤ) (persistOk : Bool) :
    List Peer → List (Peer × ℤ) → Result
  | [], confirmed => { floors := confirmed, completed := persistOk }
  | n :: rest, confirmed =>
    let (floor, ok) := n.notify compactionRevision
    if ok then
      runCompactionProtocol previousCompaction compactionRevision persistOk rest
        (confirmed ++ [(n, floor)])
    else
      let rolledBack := confirmed.map fun x =>
        (x.1, (sendCompactionNotice x.1.rollback x.2 previousCompaction).1)
      { floors := rolledBack ++ (n, floor) :: rest.map (fun m => (m, m.floor)), completed := false }

/-- An aborted protocol leaves every node that answers with the floor it had. -/
def LeavesNoTrace (previousCompaction compactionRevision : ℤ) (persistOk : Bool)
    (nodes : List Peer) : Prop :=
  let result := runCompactionProtocol previousCompaction compactionRevision persistOk nodes []
  result.completed = false → ∀ x ∈ result.floors, x.1.answers = true → x.2 = x.1.floor

instance (previousCompaction compactionRevision : ℤ) (persistOk : Bool) (nodes : List Peer) :
    Decidable (LeavesNoTrace previousCompaction compactionRevision persistOk nodes) :=
  inferInstanceAs (Decidable (_ → ∀ x ∈ Result.floors _, _))

/-! ### One node -/

/-- A watch below the revision rejects the notice. -/
def Call.Blocks (c : Call) (revision : ℤ) : Prop :=
  ∃ ws ∈ c.watches, ∃ y ∈ ws, isBelow revision y = true

instance (c : Call) (revision : ℤ) : Decidable (c.Blocks revision) :=
  inferInstanceAs (Decidable (∃ ws ∈ c.watches, _))

/-- The notice raises the floor. -/
def Call.Raises (c : Call) (revision : ℤ) : Prop := c.delivered = true ∧ ¬ c.Blocks revision

instance (c : Call) (revision : ℤ) : Decidable (c.Raises revision) :=
  inferInstanceAs (Decidable (_ ∧ _))

/-- The notice raises the floor and the Primary learns it. -/
def Call.Confirms (c : Call) (revision : ℤ) : Prop := c.Raises revision ∧ c.answered = true

instance (c : Call) (revision : ℤ) : Decidable (c.Confirms revision) :=
  inferInstanceAs (Decidable (_ ∧ _))

/-- One of the two attempts is confirmed. -/
def Peer.Confirms (n : Peer) (revision : ℤ) : Prop :=
  n.first.Confirms revision ∨ n.second.Confirms revision

/-- One of the two attempts raises the floor. -/
def Peer.Raised (n : Peer) (revision : ℤ) : Prop :=
  n.first.Raises revision ∨ n.second.Raises revision

variable {previous revision floor : ℤ} {persistOk : Bool} {c : Call} {n k : Peer}
  {nodes before rest : List Peer} {confirmed : List (Peer × ℤ)}

theorem setWatchAdmissionFloor_eq (c : Call) : setWatchAdmissionFloor c.watches floor revision =
    if c.Blocks revision then (floor, false) else (revision, true) := by
  have hblocks : (c.watches.any fun ws => ws.any (isBelow revision)) = true ↔
      c.Blocks revision := by
    simp only [List.any_eq_true, Call.Blocks]
  exact if_congr hblocks rfl rfl

theorem sendCompactionNotice_floor :
    (c.Raises revision → (sendCompactionNotice c floor revision).1 = revision) ∧
      (¬ c.Raises revision → (sendCompactionNotice c floor revision).1 = floor) := by
  unfold sendCompactionNotice Call.Raises
  rw [setWatchAdmissionFloor_eq]
  by_cases hd : c.delivered = true <;> by_cases hb : c.Blocks revision <;> simp [hd, hb]

theorem sendCompactionNotice_confirmed :
    (sendCompactionNotice c floor revision).2 = some true ↔ c.Confirms revision := by
  unfold sendCompactionNotice Call.Confirms Call.Raises
  rw [setWatchAdmissionFloor_eq]
  by_cases hd : c.delivered = true <;> by_cases hb : c.Blocks revision <;> simp [hd, hb]

theorem notify_eq : n.notify revision =
    if (sendCompactionNotice n.first n.floor revision).2 = some true then
      ((sendCompactionNotice n.first n.floor revision).1, true)
    else
      let next := sendCompactionNotice n.second
        (sendCompactionNotice n.first n.floor revision).1 revision
      (next.1, next.2 = some true) := rfl

theorem notify_confirmed : (n.notify revision).2 = true ↔ n.Confirms revision := by
  rw [notify_eq]
  unfold Peer.Confirms
  split_ifs with h
  · exact iff_of_true rfl (Or.inl (sendCompactionNotice_confirmed.mp h))
  · rw [sendCompactionNotice_confirmed] at h
    simp [sendCompactionNotice_confirmed, h]

theorem notify_floor_of_confirms (h : n.Confirms revision) :
    (n.notify revision).1 = revision := by
  rw [notify_eq]
  split_ifs with hfirst
  · exact sendCompactionNotice_floor.1 (sendCompactionNotice_confirmed.mp hfirst).1
  · have hsecond : n.second.Confirms revision :=
      h.resolve_left fun hc => hfirst (sendCompactionNotice_confirmed.mpr hc)
    exact sendCompactionNotice_floor.1 hsecond.1

/-- A node that has not may have it all the same. -/
theorem notify_floor_of_not_confirms (h : ¬ n.Confirms revision) :
    (n.notify revision).1 = n.floor ↔ (n.Raised revision → n.floor = revision) := by
  have hfirst : ¬ (sendCompactionNotice n.first n.floor revision).2 = some true :=
    fun hc => h (Or.inl (sendCompactionNotice_confirmed.mp hc))
  rw [notify_eq, if_neg hfirst]
  unfold Peer.Raised
  by_cases h2 : n.second.Raises revision
  · simp only [sendCompactionNotice_floor.1 h2, h2, or_true, true_imp_iff]
    exact eq_comm
  · simp only [sendCompactionNotice_floor.2 h2, h2, or_false]
    by_cases h1 : n.first.Raises revision
    · simp only [sendCompactionNotice_floor.1 h1, h1, true_imp_iff]
      exact eq_comm
    · simp [sendCompactionNotice_floor.2 h1, h1]

/-! ### The protocol -/

theorem protocol_all (h : ∀ n ∈ nodes, n.Confirms revision) :
    runCompactionProtocol previous revision persistOk nodes confirmed =
      { floors := confirmed ++ nodes.map fun n => (n, revision), completed := persistOk } := by
  induction nodes generalizing confirmed with
  | nil => simp [runCompactionProtocol]
  | cons n rest ih =>
    obtain ⟨hn, hrest⟩ := List.forall_mem_cons.mp h
    unfold runCompactionProtocol
    simp only [notify_confirmed.mpr hn, if_true, notify_floor_of_confirms hn, ih hrest]
    simp

theorem protocol_abort (h : ∀ n ∈ before, n.Confirms revision) (hk : ¬ k.Confirms revision) :
    runCompactionProtocol previous revision persistOk (before ++ k :: rest) confirmed =
      { floors := (confirmed ++ before.map fun n => (n, revision)).map (fun x =>
            (x.1, (sendCompactionNotice x.1.rollback x.2 previous).1)) ++
          (k, (k.notify revision).1) :: rest.map fun m => (m, m.floor)
        completed := false } := by
  induction before generalizing confirmed with
  | nil =>
    have hok : (k.notify revision).2 = false :=
      Bool.not_eq_true _ ▸ fun hc => hk (notify_confirmed.mp hc)
    simp [runCompactionProtocol, hok]
  | cons n before ih =>
    obtain ⟨hn, hbefore⟩ := List.forall_mem_cons.mp h
    rw [List.cons_append]
    unfold runCompactionProtocol
    simp only [notify_confirmed.mpr hn, if_true, notify_floor_of_confirms hn, ih hbefore]
    simp

theorem all_or_first (nodes : List Peer) (revision : ℤ) :
    (∀ n ∈ nodes, n.Confirms revision) ∨ ∃ before k rest, nodes = before ++ k :: rest ∧
      (∀ n ∈ before, n.Confirms revision) ∧ ¬ k.Confirms revision := by
  induction nodes with
  | nil => exact Or.inl fun n hn => absurd hn List.not_mem_nil
  | cons n nodes ih =>
    by_cases hn : n.Confirms revision
    · rcases ih with hall | ⟨before, k, rest, rfl, hbefore, hk⟩
      · exact Or.inl (List.forall_mem_cons.mpr ⟨hn, hall⟩)
      · exact Or.inr ⟨n :: before, k, rest, rfl, List.forall_mem_cons.mpr ⟨hn, hbefore⟩, hk⟩
    · exact Or.inr ⟨[], n, nodes, rfl, fun m hm => absurd hm List.not_mem_nil, hn⟩

/-- **The cycle sees no floors**: with the confirmations that the calls give it persists and
broadcasts the revision exactly if the protocol is completed. -/
theorem broadcast_eq {registrations : List Registered} {count : ℕ}
    (h : List.Forall₂ (fun r n => r.confirms =
      (decide (n.first.Confirms revision), decide (n.second.Confirms revision)))
      registrations nodes) :
    (CompactionCycle.runCompactionProtocol previous revision persistOk registrations
        count).broadcast =
      if (runCompactionProtocol previous revision persistOk nodes confirmed).completed then
        some revision else none := by
  induction h generalizing confirmed count with
  | nil =>
    unfold CompactionCycle.runCompactionProtocol runCompactionProtocol
    split_ifs <;> rfl
  | @cons r n registrations nodes hr hrest ih =>
    have hok : (n.notify revision).2 = (r.confirms.1 || r.confirms.2) := by
      rw [Bool.eq_iff_iff, notify_confirmed, hr]
      simp [Peer.Confirms]
    unfold CompactionCycle.runCompactionProtocol runCompactionProtocol
    simp only [hok]
    cases h1 : r.confirms.1 with
    | true => simpa [CompactionCycle.Outcome.after] using ih
    | false =>
      cases h2 : r.confirms.2 with
      | true => simpa [CompactionCycle.Outcome.after] using ih
      | false => simp

/-- **What an abort needs to leave no trace.** Where a node is the first that does not confirm, each
node before it that answers had the floor that the rollback leaves: the compaction revision of the
Primary, or the proposed one where a watch blocks the rollback. The node itself, if it answers,
did not raise its floor. Where all confirm and nothing is persisted, all had the proposed floor. -/
structure Undone (previous revision : ℤ) (persistOk : Bool) (nodes : List Peer) : Prop where
  confirmed : ∀ before k rest, nodes = before ++ k :: rest →
    (∀ n ∈ before, n.Confirms revision) → ¬ k.Confirms revision →
    ∀ n ∈ before, n.answers = true →
      (n.rollback.Blocks previous → n.floor = revision) ∧
        (¬ n.rollback.Blocks previous → n.floor = previous)
  unconfirmed : ∀ before k rest, nodes = before ++ k :: rest →
    (∀ n ∈ before, n.Confirms revision) → ¬ k.Confirms revision →
    k.answers = true → k.Raised revision → k.floor = revision
  persisted : (∀ n ∈ nodes, n.Confirms revision) → persistOk = false →
    ∀ n ∈ nodes, n.answers = true → n.floor = revision

theorem rollback_restores_iff (h : n.answers = true) :
    (sendCompactionNotice n.rollback revision previous).1 = n.floor ↔
      (n.rollback.Blocks previous → n.floor = revision) ∧
        (¬ n.rollback.Blocks previous → n.floor = previous) := by
  have hdelivered : n.rollback.delivered = true := ((Bool.and_eq_true _ _).mp h).1
  by_cases hb : n.rollback.Blocks previous
  · rw [sendCompactionNotice_floor.2 fun hr => hr.2 hb]
    simp [hb, eq_comm]
  · rw [sendCompactionNotice_floor.1 ⟨hdelivered, hb⟩]
    simp [hb, eq_comm]

/-- **An aborted compaction leaves no trace** exactly if it is undone where it left one. -/
theorem leavesNoTrace_iff (previousCompaction compactionRevision : ℤ) (persistOk : Bool)
    (nodes : List Peer) :
    LeavesNoTrace previousCompaction compactionRevision persistOk nodes ↔
      Undone previousCompaction compactionRevision persistOk nodes := by
  constructor
  · intro h
    have habort : ∀ before k rest, nodes = before ++ k :: rest →
        (∀ n ∈ before, n.Confirms compactionRevision) → ¬ k.Confirms compactionRevision →
        (∀ n ∈ before, n.answers = true →
          (sendCompactionNotice n.rollback compactionRevision previousCompaction).1 = n.floor) ∧
        (k.answers = true → (k.notify compactionRevision).1 = k.floor) := by
      rintro before k rest rfl hbefore hk
      simp only [LeavesNoTrace, protocol_abort hbefore hk, true_imp_iff] at h
      refine ⟨fun n hn => h (n, _) ?_, h (k, _) ?_⟩
      · exact List.mem_append_left _ (List.mem_map.mpr ⟨(n, compactionRevision), by simpa, rfl⟩)
      · exact List.mem_append_right _ List.mem_cons_self
    refine ⟨fun before k rest hnodes hbefore hk n hn ha => ?_,
      fun before k rest hnodes hbefore hk ha => ?_, fun hall hfail n hn ha => ?_⟩
    · exact (rollback_restores_iff ha).mp ((habort before k rest hnodes hbefore hk).1 n hn ha)
    · exact (notify_floor_of_not_confirms hk).mp ((habort before k rest hnodes hbefore hk).2 ha)
    · simp only [LeavesNoTrace, protocol_all hall] at h
      exact (h hfail (n, compactionRevision) (by simpa using hn) ha).symm
  · intro h
    rcases all_or_first nodes compactionRevision with hall | ⟨before, k, rest, rfl, hbefore, hk⟩
    · simp only [LeavesNoTrace, protocol_all hall]
      intro hfail x hx ha
      obtain ⟨n, hn, rfl⟩ := List.mem_map.mp (by simpa using hx)
      exact (h.persisted hall hfail n hn ha).symm
    · simp only [LeavesNoTrace, protocol_abort hbefore hk, List.nil_append, List.map_map]
      intro _ x hx ha
      rcases List.mem_append.mp hx with hx | hx
      · obtain ⟨n, hn, rfl⟩ := List.mem_map.mp hx
        exact (rollback_restores_iff ha).mpr (h.confirmed before k rest rfl hbefore hk n hn ha)
      · rcases List.mem_cons.mp hx with rfl | hx
        · exact (notify_floor_of_not_confirms hk).mpr
            (h.unconfirmed before k rest rfl hbefore hk ha)
        · -- the nodes behind it are sent nothing
          obtain ⟨m, -, rfl⟩ := List.mem_map.mp hx
          rfl

/-- A call that does not get through. -/
def unreached : Call := { delivered := false, answered := false }

/-- **Traces of an abort.** Revision 9 is proposed by a Primary whose compaction revision is 0. The
first node had floor 7 and confirms, the second is out of reach: the first is left with floor 0. A
node raises its floor, its response is lost and it is out of reach for the retry: it keeps floor 9.
A node confirms and the revision cannot be persisted: it keeps floor 9. -/
theorem abort_leaves_trace :
    ¬ LeavesNoTrace 0 9 true
        [{ floor := 7 }, { floor := 0, first := unreached, second := unreached }] ∧
      ¬ LeavesNoTrace 0 9 true
        [{ floor := 0, first := { answered := false }, second := unreached }] ∧
      ¬ LeavesNoTrace 0 9 false [{ floor := 0 }] := by
  decide

end Netsy.Primary.CompactionRollback
