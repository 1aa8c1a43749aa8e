import Netsy.Watch.Admission

/-! # Compaction notices

`SendCompactionNotice` raises the watch-admission floor and then looks for watches that the
compaction would hurt. The compaction revision is inclusive, and `CreateWatch` rejects a start
revision at or below the floor, but the look is for watches strictly below it. Calls may also
overlap: one that rolls back restores a floor that it read before another one was confirmed. -/

namespace Netsy.Watch.Notices

open Lib.Run Watch.Hub Watch.Admission

/-- Where a call of `SetWatchAdmissionFloor` stands. -/
inductive Stage
  | loaded
  | checking (todo : List ℕ)
  | below
deriving DecidableEq, Repr

/-- A call of `SetWatchAdmissionFloor`, with the floor that it read. -/
structure Notice where
  revision : ℤ
  previous : ℤ
  stage : Stage
deriving DecidableEq, Repr

/-- The watch manager with the calls on it. The last confirmed revision only observes. -/
structure Node where
  manager : Manager
  notices : List Notice
  confirmed : Option ℤ

def Node.start : Node := { manager := .new, notices := [], confirmed := none }

namespace Node

def setFloor (n : Node) (revision : ℤ) : Node :=
  { n with manager := { n.manager with watchAdmissionFloor := revision } }

def setNotice (n : Node) (i : ℕ) (x : Notice) : Node := { n with notices := n.notices.set i x }

/-- A step of the manager. A call of `SetWatchAdmissionFloor` keeps the map as it is. -/
def hub (n : Node) (env : Env) (a : Hub.Action) : Option Node :=
  if setsFloor a || (changesMap a && !n.notices.isEmpty) then none
  else (Hub.step env n.manager a).map fun m => { n with manager := m }

/-- The call takes the lock of the manager and reads the floor. -/
def begin (n : Node) (revision : ℤ) : Node :=
  { n with notices := n.notices ++ [⟨revision, n.manager.watchAdmissionFloor, .loaded⟩] }

/-- It sets the floor. -/
def store (n : Node) (i : ℕ) : Option Node := do
  let x ← n.notices[i]?
  if x.stage = .loaded then
    some ((n.setFloor x.revision).setNotice i
      { x with stage := .checking n.manager.registered })
  else none

/-- A watch that the call looks for. -/
def isBelow (revision : ℤ) (y : Subscription) : Bool :=
  0 < y.entry.startRevision && y.entry.startRevision < revision

/-- It looks at the watches of one watcher. -/
def check (n : Node) (i w : ℕ) : Option Node := do
  let x ← n.notices[i]?
  match x.stage with
  | .checking todo =>
    if w ∉ todo then none
    else if (n.manager.watchers w).watches.any (isBelow x.revision) then
      some (n.setNotice i { x with stage := .below })
    else some (n.setNotice i { x with stage := .checking (todo.filter (· ≠ w)) })
  | _ => none

/-- It restores the floor that it read and returns an error. -/
def rollback (n : Node) (i : ℕ) : Option Node := do
  let x ← n.notices[i]?
  if x.stage = .below then
    some { n.setFloor x.previous with notices := n.notices.eraseIdx i }
  else none

/-- It returns, and the notice is confirmed. -/
def confirm (n : Node) (i : ℕ) : Option Node := do
  let x ← n.notices[i]?
  if x.stage = .checking [] then
    some { n with notices := n.notices.eraseIdx i, confirmed := some x.revision }
  else none

end Node

inductive Action
  | hub (env : Env) (a : Hub.Action)
  | distribute (caller : Caller) (arg : Distribution)
  | begin (revision : ℤ)
  | store (i : ℕ)
  | check (i w : ℕ)
  | rollback (i : ℕ)
  | confirm (i : ℕ)

def step (n : Node) : Action → Option Node
  | .hub env a => n.hub env a
  | .distribute caller arg => some { n with manager := n.manager.distribute caller arg }
  | .begin revision => some (n.begin revision)
  | .store i => n.store i
  | .check i w => n.check i w
  | .rollback i => n.rollback i
  | .confirm i => n.confirm i

/-- The watch needs a revision that a compaction at the revision empties. -/
def Hurt (revision : ℤ) (y : Subscription) : Prop :=
  0 < y.entry.startRevision ∧ y.entry.startRevision ≤ revision

instance (revision : ℤ) (y : Subscription) : Decidable (Hurt revision y) :=
  inferInstanceAs (Decidable (_ ∧ _))

/-- No active watch needs a revision up to this one. -/
def Protects (m : Manager) (revision : ℤ) : Prop :=
  ∀ w ∈ m.registered, ∀ y ∈ (m.watchers w).watches, ¬ Hurt revision y

instance (m : Manager) (revision : ℤ) : Decidable (Protects m revision) :=
  inferInstanceAs (Decidable (∀ w ∈ m.registered, _))

/-- The calls come one after the other, no watch starts at the very revision that is checked, and no
watch is added while a notice below the confirmed revision runs. -/
def Separate (n : Node) : Action → Prop
  | .begin _ => n.notices = []
  | .check i w =>
    ∀ x ∈ n.notices[i]?, ∀ y ∈ (n.manager.watchers w).watches,
      0 < x.revision → y.entry.startRevision ≠ x.revision
  | .hub _ (.add _) => ∀ x ∈ n.notices, ∀ revision ∈ n.confirmed, revision ≤ x.revision
  | _ => True

instance (n : Node) : ∀ a, Decidable (Separate n a) := by
  intro a
  unfold Separate
  split <;> infer_instance

/-! ### Runs -/

variable {n n' : Node} {env : Env} {a : Hub.Action} {i w : ℕ} {x : Notice} {as : List Action}
variable {revision : ℤ} {m m' : Manager}

/-- The floor is above the confirmed revision. -/
def Covers (n : Node) (floor : ℤ) : Prop := ∀ revision ∈ n.confirmed, revision ≤ floor

/-- What the stage of the running call says. -/
def Running (n : Node) (x : Notice) : Prop :=
  match x.stage with
  | .loaded => x.previous = n.manager.watchAdmissionFloor ∧ Covers n x.previous
  | .checking todo =>
    n.manager.watchAdmissionFloor = x.revision ∧ Covers n x.previous ∧
      ∀ w ∈ n.manager.registered, w ∉ todo →
        ∀ y ∈ (n.manager.watchers w).watches, ¬ Hurt x.revision y
  | .below => n.manager.watchAdmissionFloor = x.revision ∧ Covers n x.previous

/-- The invariant. -/
structure Inv (n : Node) : Prop where
  protects : ∀ revision ∈ n.confirmed, Protects n.manager revision
  calls : (n.notices = [] ∧ Covers n n.manager.watchAdmissionFloor) ∨
    ∃ x, n.notices = [x] ∧ Running n x

theorem inv_start : Inv .start :=
  ⟨fun _ h => (by cases h), Or.inl ⟨rfl, fun _ h => (by cases h)⟩⟩

theorem Inv.eq_of_getElem? (h : Inv n) (hx : n.notices[i]? = some x) :
    n.notices = [x] ∧ i = 0 ∧ Running n x := by
  rcases h.calls with ⟨hnil, -⟩ | ⟨x', hone, hrun⟩
  · rw [hnil] at hx
    cases hx
  · rw [hone] at hx
    cases i with
    | zero =>
      cases hx
      exact ⟨hone, rfl, hrun⟩
    | succ i => cases hx

theorem Inv.of_stage {stage : Stage} {f : Notice → Node} (h : Inv n)
    (hs : (n.notices[i]?.bind fun x => if x.stage = stage then some (f x) else none) = some n') :
    ∃ x, n.notices = [x] ∧ i = 0 ∧ x.stage = stage ∧ Running n x ∧ n' = f x := by
  obtain ⟨x, hx, hs⟩ := Option.bind_eq_some_iff.mp hs
  split_ifs at hs with hst
  cases hs
  obtain ⟨hone, hi, hrun⟩ := h.eq_of_getElem? hx
  exact ⟨x, hone, hi, hst, hrun, rfl⟩

theorem not_hurt_of_change {floor : ℤ} {d d' : Desk} (h : Change env floor a d d')
    (hle : revision ≤ floor) (hd : ∀ y ∈ d.watches, ¬ Hurt revision y) :
    ∀ y ∈ d'.watches, ¬ Hurt revision y := by
  cases h with
  | keep => exact hd
  | answered => exact hd
  | fewer hc => exact fun y hy => hd y (List.mem_of_mem_filter hy)
  | received => exact hd
  | accepted h => exact hd
  | found h hstart => exact hd
  | added ha h hy hfloor =>
    intro z hz
    rcases List.mem_append.mp hz with hz | hz
    · exact hd z hz
    · obtain rfl := List.mem_singleton.mp hz
      rintro ⟨hpos, hle'⟩
      rw [hy] at hpos hle'
      exact hfloor ⟨hpos, by omega, by omega⟩

theorem watches_subset_of_change {floor : ℤ} {d d' : Desk} (h : Change env floor a d d')
    (ha : adds a = false) : ∀ y ∈ d'.watches, y ∈ d.watches := by
  cases h with
  | keep => exact fun y hy => hy
  | answered => exact fun y hy => hy
  | fewer hc => exact fun y hy => List.mem_of_mem_filter hy
  | received => exact fun y hy => hy
  | accepted h => exact fun y hy => hy
  | found h hstart => exact fun y hy => hy
  | added hadds h hy hfloor => cases ha.symm.trans hadds

/-- A step of the manager keeps the watches above a revision, if the floor is not below it or no
watch is added. -/
theorem protects_of_changes (h : Changes env a m m')
    (hle : adds a = true → revision ≤ m.watchAdmissionFloor) (hp : Protects m revision) :
    Protects m' revision := by
  intro w hw
  rcases h.fresh w hw with hold | hnew
  · cases ha : adds a with
    | true => exact not_hurt_of_change (h.desks w) (hle ha) (hp w hold)
    | false => exact fun y hy => hp w hold y (watches_subset_of_change (h.desks w) ha y hy)
  · rw [hnew]
    exact fun y hy => (by cases hy)

theorem Inv.covers_of_add (h : Inv n) (hok : ∀ x ∈ n.notices, Covers n x.revision) :
    Covers n n.manager.watchAdmissionFloor := by
  rcases h.calls with ⟨-, hcovers⟩ | ⟨x, hone, hrun⟩
  · exact hcovers
  · have hx : Covers n x.revision := hok x (by rw [hone]; exact List.mem_singleton_self x)
    unfold Running at hrun
    split at hrun
    · exact hrun.1 ▸ hrun.2
    · exact hrun.1.symm ▸ hx
    · exact hrun.1.symm ▸ hx

theorem Inv.hub (h : Inv n) (hok : Separate n (.hub env a)) (hs : n.hub env a = some n') :
    Inv n' := by
  unfold Node.hub at hs
  split_ifs at hs with hguard
  obtain ⟨m, hstep, rfl⟩ := Option.map_eq_some_iff.mp hs
  rw [Bool.or_eq_true, not_or, Bool.not_eq_true, Bool.and_eq_true] at hguard
  obtain ⟨hfloor, hmap⟩ := hguard
  have hch := changes_of_step hfloor hstep
  have hadd : adds a = true → Covers n n.manager.watchAdmissionFloor := by
    intro ha
    refine h.covers_of_add fun x hx => ?_
    cases a with
    | add w => exact fun revision hrev => hok x hx revision hrev
    | _ => cases ha
  refine ⟨fun revision hrev => ?_, ?_⟩
  · exact protects_of_changes hch (fun ha => hadd ha revision hrev) (h.protects revision hrev)
  · rcases h.calls with ⟨hnil, hcovers⟩ | ⟨x, hone, hrun⟩
    · exact Or.inl ⟨hnil, fun revision hrev => hch.floor.symm ▸ hcovers revision hrev⟩
    · refine Or.inr ⟨x, hone, ?_⟩
      have hreg : m.registered = n.manager.registered :=
        hch.registered (Bool.not_eq_true _ ▸ fun hc => hmap ⟨hc, by rw [hone]; rfl⟩)
      unfold Running at hrun ⊢
      cases hst : x.stage with
      | loaded =>
        simp only [hst] at hrun
        exact ⟨hrun.1.trans hch.floor.symm, hrun.2⟩
      | below =>
        simp only [hst] at hrun
        exact ⟨hch.floor.trans hrun.1, hrun.2⟩
      | checking todo =>
        simp only [hst] at hrun
        obtain ⟨hset, hcovers, hchecked⟩ := hrun
        refine ⟨hch.floor.trans hset, hcovers, fun w hw hdone => ?_⟩
        exact not_hurt_of_change (hch.desks w) hset.ge (hchecked w (hreg ▸ hw) hdone)

theorem Inv.begin (h : Inv n) (hok : n.notices = []) : Inv (n.begin revision) := by
  refine ⟨h.protects, Or.inr ⟨_, by rw [Node.begin, hok]; rfl, ?_⟩⟩
  rcases h.calls with ⟨-, hcovers⟩ | ⟨x, hone, -⟩
  · exact ⟨rfl, hcovers⟩
  · rw [hok] at hone
    cases hone

theorem notices_setNotice {x' : Notice} (h : n.notices = [x]) :
    (n.setNotice 0 x').notices = [x'] := by
  rw [Node.setNotice, h]
  rfl

theorem Inv.store (h : Inv n) (hs : n.store i = some n') : Inv n' := by
  obtain ⟨x, hone, rfl, hst, hrun, rfl⟩ := h.of_stage hs
  simp only [Running, hst] at hrun
  refine ⟨h.protects, Or.inr ⟨{ x with stage := .checking n.manager.registered },
    notices_setNotice hone, rfl, hrun.2, ?_⟩⟩
  exact fun w hw hdone => absurd hw hdone

theorem Inv.check (h : Inv n) (hok : Separate n (.check i w)) (hs : n.check i w = some n') :
    Inv n' := by
  obtain ⟨x, hx, hs⟩ := Option.bind_eq_some_iff.mp hs
  obtain ⟨hone, rfl, hrun⟩ := h.eq_of_getElem? hx
  unfold Running at hrun
  cases hst : x.stage with
  | loaded => simp [hst] at hs
  | below => simp [hst] at hs
  | checking todo =>
    simp only [hst] at hs hrun
    obtain ⟨hset, hcovers, hchecked⟩ := hrun
    split_ifs at hs with hw hbelow
    · cases hs
      exact ⟨h.protects, Or.inr ⟨{ x with stage := .below }, notices_setNotice hone, hset,
        hcovers⟩⟩
    · cases hs
      refine ⟨h.protects, Or.inr ⟨{ x with stage := .checking (todo.filter (· ≠ w)) },
        notices_setNotice hone, hset, hcovers, ?_⟩⟩
      intro v hv hdone y hy hurt
      by_cases hvw : v = w
      · -- the watcher that was just looked at
        subst hvw
        refine hbelow (List.any_eq_true.mpr ⟨y, hy, ?_⟩)
        have hne := hok x hx y hy (hurt.1.trans_le hurt.2)
        simp only [Node.isBelow, Bool.and_eq_true, decide_eq_true_eq]
        exact ⟨hurt.1, lt_of_le_of_ne hurt.2 hne⟩
      · refine hchecked v hv (fun hmem => hdone ?_) y hy hurt
        exact List.mem_filter.mpr ⟨hmem, decide_eq_true hvw⟩

theorem Inv.rollback (h : Inv n) (hs : n.rollback i = some n') : Inv n' := by
  obtain ⟨x, hone, rfl, hst, hrun, rfl⟩ := h.of_stage hs
  simp only [Running, hst] at hrun
  exact ⟨h.protects, Or.inl ⟨by simp [hone], hrun.2⟩⟩

theorem Inv.confirm (h : Inv n) (hs : n.confirm i = some n') : Inv n' := by
  obtain ⟨x, hone, rfl, hst, hrun, rfl⟩ := h.of_stage hs
  simp only [Running, hst] at hrun
  obtain ⟨hset, -, hchecked⟩ := hrun
  refine ⟨fun revision hrev => ?_, Or.inl ⟨by simp [hone], fun revision hrev => ?_⟩⟩
  · cases hrev
    exact fun w hw => hchecked w hw List.not_mem_nil
  · cases hrev
    exact hset.ge

theorem Inv.step {a : Action} (h : Inv n) (hok : Separate n a) (hs : step n a = some n') :
    Inv n' := by
  cases a with
  | hub env a => exact h.hub hok hs
  | distribute caller arg =>
    cases hs
    exact ⟨h.protects, h.calls⟩
  | begin revision =>
    cases hs
    exact h.begin hok
  | store i => exact h.store hs
  | check i w => exact h.check hok hs
  | rollback i => exact h.rollback hs
  | confirm i => exact h.confirm hs

/-- **A confirmed compaction notice protects every watch**, in every run in which the calls come one
after the other, no watch starts at the very revision of a notice that checks it, and no watch is
added while a notice below the confirmed revision runs: no active watch needs a revision up to the
last confirmed one. -/
theorem confirmed_notice_protects (hok : Meets step Separate .start as)
    (hrun : exec step .start as = some n) (hconfirmed : n.confirmed = some revision) :
    Protects n.manager revision :=
  (exec_invariant (fun _ _ _ h hok hs => Inv.step h hok hs) inv_start hok hrun).protects
    revision hconfirmed

/-! ### The revision itself -/

/-- A node that has committed nothing. -/
def emptyEnv : Env := { committed := 0, compaction := 0, db := .empty, log := 0 }

/-- A client creates a watch on the key `"a"` from a revision of the future on. -/
def createsWatch (w : ℕ) (startRevision : ℤ) : List Action :=
  [.hub emptyEnv (.receive w { key := [97], startRevision := startRevision }),
    .hub emptyEnv (.accept w), .hub emptyEnv (.lookup w none), .hub emptyEnv (.add w),
    .hub emptyEnv (.ack w none)]

/-- A notice that runs alone and is confirmed. -/
def notice (revision : ℤ) : List Action :=
  [.begin revision, .store 0, .check 0 1, .confirm 0]

/-- A watch from revision 5 on and a notice of revision 4. -/
theorem confirmed_notice_protects_above :
    ∃ n, exec step .start (.hub emptyEnv .register :: createsWatch 1 5 ++ notice 4) = some n ∧
      n.confirmed = some 4 ∧ Protects n.manager 4 := by
  have hok : Meets step Separate .start
      (.hub emptyEnv .register :: createsWatch 1 5 ++ notice 4) := by decide +kernel
  obtain ⟨n, hrun, hconf⟩ := exists_exec_of_any step .start
    (.hub emptyEnv .register :: createsWatch 1 5 ++ notice 4) (fun n => n.confirmed = some 4)
    (by decide +kernel)
  exact ⟨n, hrun, hconf, confirmed_notice_protects hok hrun hconf⟩

/-- A watch from revision 5 on does not stop the notice of revision 5. And of two notices of
revision 5 the first finds a watch from revision 3 on, which the client then cancels; the second is
confirmed, the first restores the floor, and a watch from revision 3 on is created again. -/
theorem confirmed_notice_hurts_watch :
    (∃ n, exec step .start (.hub emptyEnv .register :: createsWatch 1 5 ++ notice 5) = some n ∧
      n.confirmed = some 5 ∧ ¬ Protects n.manager 5) ∧
    ∃ n, exec step .start (.hub emptyEnv .register :: createsWatch 1 3 ++
        [.begin 5, .store 0, .check 0 1, .hub emptyEnv (.cancelWatch 1 1), .begin 5, .store 1,
          .check 1 1, .confirm 1, .rollback 0] ++ createsWatch 1 3) = some n ∧
      n.confirmed = some 5 ∧ ¬ Protects n.manager 5 := by
  constructor
  · exact exists_exec_of_any step .start _
      (fun n => n.confirmed = some 5 ∧ ¬ Protects n.manager 5) (by decide +kernel)
  · exact exists_exec_of_any step .start _
      (fun n => n.confirmed = some 5 ∧ ¬ Protects n.manager 5) (by decide +kernel)

end Netsy.Watch.Notices
