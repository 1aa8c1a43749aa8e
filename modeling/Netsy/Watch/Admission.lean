import Netsy.Lib.Run
import Netsy.Watch.Hub

/-! # The admission of watches

What the steps of the watch manager do to the watches and to the requests that may become one, and
the calls of `SetWatchAdmissionFloor`, which run beside them. Such a call holds the read lock of the
manager from beginning to end, so that no watcher comes or goes meanwhile, but it takes the locks of
the watchers one after the other, and several calls may run at once. -/

namespace Netsy.Watch.Admission

open LocalDB.Schema Watch.Hub

/-! ### What a step does to the requests -/

/-- The watches of a watcher and the request that it handles. -/
structure Desk where
  watches : List Subscription
  creating : Option Creating

def desk (x : Watcher) : Desk := ⟨x.watches, x.creating⟩

/-- A start revision that the floor rejects. -/
def Rejected (floor : ℤ) (r : WatchCreateRequest) : Prop :=
  0 < r.startRevision ∧ 0 < floor ∧ r.startRevision ≤ floor

/-- The actions that add a watch. -/
def adds : Hub.Action → Bool
  | .add _ => true
  | _ => false

/-- What an action may do to one watcher. -/
inductive Change (env : Env) (floor : ℤ) (a : Hub.Action) (d : Desk) : Desk → Prop
  | keep : Change env floor a d d
  | answered : Change env floor a d ⟨d.watches, none⟩
  | fewer {p : Subscription → Bool} {c : Option Creating} (hc : c = d.creating ∨ c = none) :
      Change env floor a d ⟨d.watches.filter p, c⟩
  | received {r} : Change env floor a d ⟨d.watches, some (.received r env.committed)⟩
  | accepted {r latest watchID} (h : d.creating = some (.received r latest)) :
      Change env floor a d ⟨d.watches, some (.accepted r latest watchID)⟩
  | found {r latest watchID revision header} (h : d.creating = some (.accepted r latest watchID))
      (hstart : r.startRevision = 0 ∨ latest < r.startRevision ∨
        ∃ row ∈ env.db, row.revision = r.startRevision) :
      Change env floor a d ⟨d.watches, some (.found r watchID revision header)⟩
  | added {r watchID revision header} {y : Subscription} (ha : adds a = true)
      (h : d.creating = some (.found r watchID revision header))
      (hy : y.entry.startRevision = r.startRevision) (hfloor : ¬ Rejected floor r) :
      Change env floor a d ⟨d.watches ++ [y], some (.added watchID revision header)⟩

/-- The actions that take the write lock of the manager. -/
def changesMap : Hub.Action → Bool
  | .register | .unregister _ | .unregisterSlow _ => true
  | _ => false

/-- The actions that set the floor. -/
def setsFloor : Hub.Action → Bool
  | .setWatchAdmissionFloor _ => true
  | _ => false

/-- What a step of the manager leaves and what it changes. -/
structure Changes (env : Env) (a : Hub.Action) (m m' : Manager) : Prop where
  floor : m'.watchAdmissionFloor = m.watchAdmissionFloor
  desks : ∀ v, Change env m.watchAdmissionFloor a (desk (m.watchers v)) (desk (m'.watchers v))
  registered : changesMap a = false → m'.registered = m.registered
  fresh : ∀ v ∈ m'.registered, v ∈ m.registered ∨ (m'.watchers v).watches = []

variable {env : Env} {m m' : Manager} {w i j : ℕ} {x : Watcher} {a : Hub.Action} {floor : ℤ}

theorem Changes.of_eq (hfloor : m'.watchAdmissionFloor = m.watchAdmissionFloor)
    (hwatchers : m'.watchers = m.watchers) (hreg : m'.registered = m.registered) :
    Changes env a m m' := by
  refine ⟨hfloor, fun v => ?_, fun _ => hreg, fun v hv => Or.inl (hreg ▸ hv)⟩
  rw [hwatchers]
  exact .keep

theorem Changes.setWatcher
    (h : Change env m.watchAdmissionFloor a (desk (m.watchers w)) (desk x)) :
    Changes env a m (m.setWatcher w x) := by
  refine ⟨rfl, fun v => ?_, fun _ => rfl, fun v hv => Or.inl hv⟩
  change Change env _ _ _ (desk (Function.update m.watchers w x v))
  by_cases hv : v = w
  · subst hv
    rw [Function.update_self]
    exact h
  · rw [Function.update_of_ne hv]
    exact .keep

theorem Changes.congr {m₁ : Manager} (h : Changes env a m m₁)
    (hfloor : m'.watchAdmissionFloor = m₁.watchAdmissionFloor)
    (hwatchers : m'.watchers = m₁.watchers) (hreg : m'.registered = m₁.registered) :
    Changes env a m m' := by
  refine ⟨hfloor.trans h.floor, fun v => ?_, fun ha => hreg.trans (h.registered ha), fun v hv => ?_⟩
  · rw [hwatchers]
    exact h.desks v
  · rw [hwatchers]
    exact h.fresh v (hreg ▸ hv)

theorem Change.of_eq {d d' : Desk} (h : d' = d) : Change env floor a d d' := by
  rw [h]
  exact .keep

theorem change_close (x : Watcher) : Change env floor a (desk x) (desk x.close) := by
  unfold Watcher.close
  split_ifs
  · have hnone : ([] : List Subscription) = x.watches.filter fun _ => false := by simp
    unfold desk
    rw [hnone]
    exact .fewer (d := desk x) (Or.inl rfl)
  · exact .keep

theorem desk_place {msg : WatchResponse} (h : (m.watchers w).place msg = some x) :
    desk x = desk (m.watchers w) := by
  unfold Watcher.place at h
  split_ifs at h
  cases h
  rfl

/-! #### `Distribute` -/

theorem changes_offer {watchID : ℤ} (h : m.offer i watchID = some m') : Changes env a m m' := by
  obtain ⟨d, -, h⟩ := Option.bind_eq_some_iff.mp h
  obtain ⟨⟨w, rest⟩, -, h⟩ := Option.bind_eq_some_iff.mp h
  obtain ⟨y, -, h⟩ := Option.bind_eq_some_iff.mp h
  obtain ⟨isMatch, -, h⟩ := Option.bind_eq_some_iff.mp h
  dsimp only at h
  split_ifs at h
  · split at h
    · rename_i x hx
      cases h
      exact (Changes.setWatcher (.of_eq (desk_place hx))).congr rfl rfl rfl
    · cases h
      exact .of_eq rfl rfl rfl
  · cases h
    exact .of_eq rfl rfl rfl

theorem changes_closeSlow (h : m.closeSlow i = some m') : Changes env a m m' := by
  obtain ⟨d, -, h⟩ := Option.bind_eq_some_iff.mp h
  obtain ⟨w, -, h⟩ := Option.bind_eq_some_iff.mp h
  split_ifs at h
  cases h
  exact (Changes.setWatcher (change_close (m.watchers w))).congr rfl rfl rfl

theorem changes_unregisterSlow (h : m.unregisterSlow i = some m') :
    Changes env (.unregisterSlow i) m m' := by
  obtain ⟨d, -, h⟩ := Option.bind_eq_some_iff.mp h
  split_ifs at h
  split at h
  · cases h
    exact ⟨rfl, fun _ => .keep, fun hmap => (by cases hmap),
      fun v hv => Or.inl (List.mem_of_mem_filter hv)⟩
  · cases h

theorem changes_enter (h : m.enter i w = some m') : Changes env a m m' := by
  obtain ⟨d, -, h⟩ := Option.bind_eq_some_iff.mp h
  split_ifs at h
  cases h
  exact .of_eq rfl rfl rfl

theorem changes_leave (h : m.leave i = some m') : Changes env a m m' := by
  obtain ⟨d, -, h⟩ := Option.bind_eq_some_iff.mp h
  obtain ⟨⟨w, rest⟩, -, h⟩ := Option.bind_eq_some_iff.mp h
  dsimp only at h
  split_ifs at h
  cases h
  exact .of_eq rfl rfl rfl

theorem changes_unlock (h : m.unlock i = some m') : Changes env a m m' := by
  obtain ⟨d, -, h⟩ := Option.bind_eq_some_iff.mp h
  split_ifs at h
  cases h
  exact .of_eq rfl rfl rfl

theorem changes_finish (h : m.finish i = some m') : Changes env a m m' := by
  obtain ⟨d, -, h⟩ := Option.bind_eq_some_iff.mp h
  split_ifs at h
  cases h
  exact .of_eq rfl rfl rfl

/-! #### `Watch` and `CreateWatch` -/

theorem changes_register (h : m.register = some m') : Changes env .register m m' := by
  unfold Manager.register at h
  split_ifs at h
  cases h
  have hnew : Change env m.watchAdmissionFloor .register (desk (m.watchers m.nextWatcher))
      (desk .new) := by
    have hnone : ([] : List Subscription) =
        (m.watchers m.nextWatcher).watches.filter fun _ => false := by simp
    change Change env _ _ _ ⟨[], none⟩
    rw [hnone]
    exact .fewer (Or.inr rfl)
  have hset : Changes env .register m (m.setWatcher m.nextWatcher .new) := .setWatcher hnew
  refine ⟨hset.floor, hset.desks, fun hmap => (by cases hmap), fun v hv => ?_⟩
  rcases List.mem_append.mp hv with hv | hv
  · exact Or.inl hv
  · obtain rfl := List.mem_singleton.mp hv
    right
    simp [Manager.setWatcher, Watcher.new, Watcher.unused]

theorem changes_unregister (h : m.unregister w = some m') :
    Changes env (.unregister w) m m' := by
  unfold Manager.unregister at h
  split_ifs at h
  cases h
  have hset : Changes env (.unregister w) m
      (m.setWatcher w { m.watchers w with serving := false }) := .setWatcher .keep
  exact ⟨hset.floor, hset.desks, fun hmap => (by cases hmap),
    fun v hv => Or.inl (List.mem_of_mem_filter hv)⟩

theorem changes_close (h : m.close w = some m') : Changes env a m m' := by
  unfold Manager.close at h
  split_ifs at h
  cases h
  exact .setWatcher (change_close (m.watchers w))

theorem changes_drain {sendOk : Bool} (h : m.drain w sendOk = some m') : Changes env a m m' := by
  unfold Manager.drain at h
  split at h
  · cases h
    refine .setWatcher (.of_eq ?_)
    split_ifs <;> rfl
  · cases h

theorem changes_receive {r : WatchCreateRequest} (h : m.receive env w r = some m') :
    Changes env a m m' := by
  unfold Manager.receive at h
  dsimp only at h
  split_ifs at h
  cases h
  exact .setWatcher (.received (d := desk (m.watchers w)))

theorem changes_reject (header watchID compactRevision : ℤ) (reason : String) :
    Changes env a m (m.reject w header watchID compactRevision reason) :=
  .setWatcher (.answered (d := desk (m.watchers w)))

theorem changes_accept (h : m.accept env w = some m') : Changes env a m m' := by
  unfold Manager.accept at h
  split at h
  · rename_i r latest hcreating
    dsimp only at h
    split_ifs at h <;> cases h
    · exact (changes_reject _ _ _ _).congr rfl rfl rfl
    · exact changes_reject _ _ _ _
    · exact (Changes.setWatcher (.accepted (d := desk (m.watchers w)) hcreating)).congr rfl rfl rfl
  · cases h

theorem changes_lookup {err : Option String} (h : m.lookup env w err = some m') :
    Changes env a m m' := by
  unfold Manager.lookup at h
  split at h
  · rename_i r latest watchID hcreating
    dsimp only at h
    by_cases hstart : r.startRevision = 0
    · rw [if_pos hstart] at h
      cases h
      exact .setWatcher (.found (d := desk (m.watchers w)) hcreating (Or.inl hstart))
    · rw [if_neg hstart] at h
      split at h
      · rename_i revision hget
        cases h
        refine .setWatcher (.found (d := desk (m.watchers w)) hcreating (Or.inr (Or.inr ?_)))
        cases err with
        | some e => cases hget
        | none =>
          simp only [Option.elim, Manager.getRevision] at hget
          split at hget
          · rename_i row hrow
            exact ⟨row, Table.findRecordByRev_eq_some.mp hrow⟩
          · cases hget
      · cases h
        exact changes_reject _ _ _ _
      · split_ifs at h with hle <;> cases h
        · exact changes_reject _ _ _ _
        · exact .setWatcher (.found (d := desk (m.watchers w)) hcreating
            (Or.inr (Or.inl (not_le.mp hle))))
  · cases h

theorem changes_add (h : m.add env w = some m') : Changes env (.add w) m m' := by
  unfold Manager.add at h
  split at h
  · rename_i r watchID revision header hcreating
    dsimp only at h
    split_ifs at h with hlock hok hfloor <;> cases h
    · exact .setWatcher (.answered (d := desk (m.watchers w)))
    · exact changes_reject _ _ _ _
    · exact .setWatcher (.added (d := desk (m.watchers w)) rfl hcreating rfl hfloor)
  · cases h

theorem changes_ack {err : Option String} (h : m.ack w err = some m') : Changes env a m m' := by
  unfold Manager.ack at h
  split at h
  · dsimp only at h
    split at h
    · cases h
      exact .setWatcher (.answered (d := desk (m.watchers w)))
    · split_ifs at h
      cases h
      exact .setWatcher (.fewer (d := desk (m.watchers w)) (Or.inr rfl))
  · cases h

theorem changes_cancelWatch {watchID : ℤ} (h : m.cancelWatch env w watchID = some m') :
    Changes env a m m' := by
  unfold Manager.cancelWatch at h
  dsimp only at h
  split_ifs at h
  cases h
  exact .setWatcher (.fewer (d := desk (m.watchers w)) (Or.inl rfl))

/-! #### `ReportProgressOnInterval` -/

theorem changes_reportProgress (h : m.reportProgress env w = some m') : Changes env a m m' := by
  unfold Manager.reportProgress at h
  split_ifs at h
  cases h
  exact .of_eq rfl rfl rfl

theorem changes_lockProgress (h : m.lockProgress j = some m') : Changes env a m m' := by
  obtain ⟨r, -, h⟩ := Option.bind_eq_some_iff.mp h
  split_ifs at h <;> cases h
  · exact .of_eq rfl rfl rfl
  · exact .of_eq rfl rfl rfl

theorem changes_placeProgress {watchID : ℤ} (h : m.placeProgress j watchID = some m') :
    Changes env a m m' := by
  obtain ⟨r, -, h⟩ := Option.bind_eq_some_iff.mp h
  obtain ⟨targets, -, h⟩ := Option.bind_eq_some_iff.mp h
  dsimp only at h
  split_ifs at h
  split at h
  · rename_i x hx
    cases h
    exact (Changes.setWatcher (.of_eq (desk_place hx))).congr rfl rfl rfl
  · cases h
    exact .of_eq rfl rfl rfl

theorem changes_endProgress (h : m.endProgress j = some m') : Changes env a m m' := by
  obtain ⟨r, -, h⟩ := Option.bind_eq_some_iff.mp h
  split_ifs at h
  cases h
  exact .of_eq rfl rfl rfl

theorem changes_of_step (ha : setsFloor a = false) (h : Hub.step env m a = some m') :
    Changes env a m m' := by
  cases a with
  | enter i w => exact changes_enter h
  | offer i watchID => exact changes_offer h
  | leave i => exact changes_leave h
  | unlock i => exact changes_unlock h
  | unregisterSlow i => exact changes_unregisterSlow h
  | closeSlow i => exact changes_closeSlow h
  | finish i => exact changes_finish h
  | register => exact changes_register h
  | unregister w => exact changes_unregister h
  | close w => exact changes_close h
  | drain w sendOk => exact changes_drain h
  | setWatchAdmissionFloor revision => cases ha
  | receive w r => exact changes_receive h
  | accept w => exact changes_accept h
  | lookup w err => exact changes_lookup h
  | add w => exact changes_add h
  | ack w err => exact changes_ack h
  | cancelWatch w watchID => exact changes_cancelWatch h
  | reportProgress w => exact changes_reportProgress h
  | lockProgress j => exact changes_lockProgress h
  | placeProgress j watchID => exact changes_placeProgress h
  | endProgress j => exact changes_endProgress h

end Netsy.Watch.Admission
