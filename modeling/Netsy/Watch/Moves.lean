import Netsy.Watch.Hub

/-! # What a step of the watch manager does

The part of the manager that matters to what the watches are sent, and the moves on it. Every step
of the manager is one of these moves (`move_of_step`). -/

namespace Netsy.Watch.Moves

open Watch.Match Watch.Hub

/-- A watcher with its watches, what was put into its inbox, and the request for which a watch ID
is reserved. -/
structure Face where
  watches : List Subscription
  ended : List Subscription
  placed : List WatchResponse
  reserved : Option (WatchCreateRequest × ℤ)

/-- The watches of a watcher, the ended ones included. -/
def Face.all (f : Face) : List Subscription := f.watches ++ f.ended

structure Board where
  faces : ℕ → Face
  registered : List ℕ
  dists : List Dist
  reports : List Report
  begun : List Distribution
  nextWatchID : ℤ

def reserved : Option Creating → Option (WatchCreateRequest × ℤ)
  | some (.accepted r _ watchID) | some (.found r watchID _ _) => some (r, watchID)
  | _ => none

def face (x : Watcher) : Face := ⟨x.watches, x.ended, x.placed, reserved x.creating⟩

def board (m : Manager) : Board :=
  ⟨fun w => face (m.watchers w), m.registered, m.dists, m.reports, m.begun, m.nextWatchID⟩

namespace Board

def setFace (b : Board) (w : ℕ) (f : Face) : Board :=
  { b with faces := Function.update b.faces w f }

def setDist (b : Board) (i : ℕ) (d : Dist) : Board := { b with dists := b.dists.set i d }

/-- Some of the watches of a watcher end. -/
def retire (b : Board) (w : ℕ) (p : Subscription → Bool) : Board :=
  b.setFace w { b.faces w with
    watches := (b.faces w).watches.filter p
    ended := (b.faces w).ended ++ (b.faces w).watches.filter fun y => !p y }

/-- Something is put into the inbox of a watcher. -/
def put (b : Board) (w : ℕ) (msg : WatchResponse) : Board :=
  b.setFace w { b.faces w with placed := (b.faces w).placed ++ [msg] }

def unregister (b : Board) (w : ℕ) : Board :=
  { b with registered := b.registered.filter (· ≠ w) }

variable (b : Board) (w : ℕ)

@[simp] theorem faces_setFace_self (f : Face) : (b.setFace w f).faces w = f :=
  Function.update_self _ _ _

theorem faces_setFace_of_ne {v w : ℕ} (f : Face) (h : v ≠ w) :
    (b.setFace w f).faces v = b.faces v :=
  Function.update_of_ne h _ _

variable {b w} in
theorem forall_setFace {P : ℕ → Face → Prop} {f : Face} (hw : P w f)
    (hne : ∀ v, v ≠ w → P v (b.faces v)) (v : ℕ) : P v ((b.setFace w f).faces v) := by
  by_cases hv : v = w
  · rw [hv, faces_setFace_self]
    exact hw
  · rw [faces_setFace_of_ne b f hv]
    exact hne v hv

theorem setFace_self : b.setFace w (b.faces w) = b := by
  unfold setFace
  rw [Function.update_eq_self]

end Board

/-- The revisions of the reports are those they had, or the committed one. -/
def Reported (committed : ℤ) (rs rs' : List Report) : Prop :=
  ∀ r ∈ rs', r.revision = committed ∨ ∃ r' ∈ rs, r'.revision = r.revision

/-- What an action does to the board. The moves that a property may have to exclude name their
action. -/
inductive Move (env : Env) (a : Action) : Board → Board → Prop
  | keep {b} : Move env a b b
  | register {b w} : Move env a b
      { b.setFace w ⟨[], [], [], none⟩ with registered := b.registered ++ [w] }
  | reserve {b w r} : Move env a b
      { b.setFace w { b.faces w with reserved := some (r, b.nextWatchID) } with
        nextWatchID := b.nextWatchID + 1 }
  | release {b w n} (hn : b.nextWatchID ≤ n) : Move env a b
      { b.setFace w { b.faces w with reserved := none } with nextWatchID := n }
  | add {b w r} {y : Subscription} (ha : a = .add w) (hres : (b.faces w).reserved = some (r, y.id))
      (hentry : y.entry = Manager.watchData r) (hsince : y.since = env.log)
      (hfirst : y.first = b.begun.length - b.dists.countP fun d => w ∈ d.todo)
      (hlock : ∀ d ∈ b.dists, ∀ v ∈ d.visiting, v.1 ≠ w) : Move env a b
      (b.setFace w { b.faces w with watches := (b.faces w).watches ++ [y], reserved := none })
  | retire {b w p} : Move env a b (b.retire w p)
  | unregister {b w} (hmap : ∀ d ∈ b.dists, d.unlocked = true) : Move env a b (b.unregister w)
  | enter {b i w} {d : Dist} (hd : b.dists[i]? = some d) (hw : w ∈ d.todo)
      (hlock : d.unlocked = false) (hv : d.visiting = none) : Move env a b
      (b.setDist i { d with
        todo := d.todo.filter (· ≠ w)
        visiting := some (w, (b.faces w).watches.map Subscription.id) })
  | pass {b i w rest} {d : Dist} {y : Subscription} (hd : b.dists[i]? = some d)
      (hv : d.visiting = some (w, rest)) (hy : y ∈ (b.faces w).watches) (hrest : y.id ∈ rest)
      (hm : isWatchMatch y.entry d.arg.record = some false) : Move env a b
      (b.setDist i { d with visiting := some (w, rest.filter (· ≠ y.id)) })
  | push {b i w rest} {d : Dist} {y : Subscription} (hd : b.dists[i]? = some d)
      (hv : d.visiting = some (w, rest)) (hy : y ∈ (b.faces w).watches) (hrest : y.id ∈ rest)
      (hm : isWatchMatch y.entry d.arg.record = some true) : Move env a b
      ((b.put w (outMsg y d.arg)).setDist i
        { d with visiting := some (w, rest.filter (· ≠ y.id)) })
  | slow {b i w rest} {d : Dist} (hd : b.dists[i]? = some d) (hv : d.visiting = some (w, rest)) :
      Move env a b (b.setDist i { d with visiting := none, slow := d.slow ++ [w] })
  | leave {b i w} {d : Dist} (hd : b.dists[i]? = some d) (hv : d.visiting = some (w, [])) :
      Move env a b (b.setDist i { d with visiting := none })
  | unlock {b i} {d : Dist} (hd : b.dists[i]? = some d) (htodo : d.todo = [])
      (hv : d.visiting = none) : Move env a b (b.setDist i { d with unlocked := true })
  | nextSlow {b i w rest} {d : Dist} (hd : b.dists[i]? = some d) (hs : d.slow = w :: rest)
      (hmap : ∀ d ∈ b.dists, d.unlocked = true) : Move env a b
      ((b.unregister w).setDist i { d with slow := rest, closing := some w })
  | closed {b i w p} {d : Dist} (hd : b.dists[i]? = some d) :
      Move env a b ((b.retire w p).setDist i { d with closing := none })
  | finish {b i} {d : Dist} (hd : b.dists[i]? = some d) (hlock : d.unlocked = true)
      (hs : d.slow = []) : Move env a b { b with dists := b.dists.eraseIdx i }
  | reports {b rs} (hrs : Reported env.committed b.reports rs) :
      Move env a b { b with reports := rs }
  | report {b w j watchID rs} {r : Report} (ha : a = .placeProgress j watchID)
      (hr : b.reports[j]? = some r) (hw : r.watcher = w)
      (hrs : Reported env.committed b.reports rs) :
      Move env a b { b.put w (Manager.progressMsg r.revision watchID) with reports := rs }

/-! ### The steps of the manager are moves -/

variable {env : Env} {m m' : Manager} {w i j : ℕ} {x : Watcher} {a : Action}

theorem board_setWatcher (m : Manager) (w : ℕ) (x : Watcher) :
    board (m.setWatcher w x) = (board m).setFace w (face x) := by
  unfold board Board.setFace Manager.setWatcher
  congr 1
  funext v
  exact Function.apply_update (fun _ => face) m.watchers w x v

theorem board_setWatcher_eq (h : face x = face (m.watchers w)) :
    board (m.setWatcher w x) = board m := by
  rw [board_setWatcher, h]
  exact Board.setFace_self _ _

theorem board_place {msg : WatchResponse} (h : (m.watchers w).place msg = some x) :
    board (m.setWatcher w x) = (board m).put w msg := by
  unfold Watcher.place at h
  split_ifs at h
  cases h
  exact board_setWatcher _ _ _

theorem Move.of_eq (h : board m' = board m) : Move env a (board m) (board m') := by
  rw [h]
  exact .keep

theorem face_close (x : Watcher) :
    face x.close = face x ∨
      face x.close = { face x with watches := [], ended := x.ended ++ x.watches } := by
  unfold Watcher.close
  split_ifs
  · exact Or.inr rfl
  · exact Or.inl rfl

theorem board_close (m : Manager) (w : ℕ) :
    ∃ p, board (m.setWatcher w (m.watchers w).close) = (board m).retire w p := by
  rcases face_close (m.watchers w) with h | h
  · refine ⟨fun _ => true, ?_⟩
    rw [board_setWatcher, h]
    simp [Board.retire, board, face]
  · refine ⟨fun _ => false, ?_⟩
    rw [board_setWatcher, h]
    simp [Board.retire, board, face]

theorem board_remove (m : Manager) (w : ℕ) (watchID : ℤ) (msg : WatchResponse)
    (c : Option Creating) (hc : reserved c = reserved (m.watchers w).creating) :
    board (m.setWatcher w (({ m.watchers w with creating := c }.remove watchID).send msg)) =
      (board m).retire w fun y => y.id ≠ watchID := by
  rw [board_setWatcher]
  simp [Board.retire, board, face, Watcher.remove, Watcher.send, hc]

theorem unlocked_of_not_mapLocked (h : ¬ m.mapLocked = true) :
    ∀ d ∈ (board m).dists, d.unlocked = true := by
  intro d hd
  by_contra hd'
  exact h (List.any_eq_true.mpr ⟨d, hd, by simp [hd']⟩)

/-! #### `Distribute` -/

theorem move_enter (h : m.enter i w = some m') : Move env a (board m) (board m') := by
  obtain ⟨d, hd, h⟩ := Option.bind_eq_some_iff.mp h
  split_ifs at h with hc
  cases h
  exact .enter (b := board m) hd hc.2.2 hc.1 hc.2.1

theorem move_offer {watchID : ℤ} (h : m.offer i watchID = some m') :
    Move env a (board m) (board m') := by
  obtain ⟨d, hd, h⟩ := Option.bind_eq_some_iff.mp h
  obtain ⟨⟨w, rest⟩, hv, h⟩ := Option.bind_eq_some_iff.mp h
  obtain ⟨y, hfind, h⟩ := Option.bind_eq_some_iff.mp h
  obtain ⟨isMatch, hm, h⟩ := Option.bind_eq_some_iff.mp h
  have hy : y ∈ (m.watchers w).watches := List.mem_of_find?_eq_some hfind
  obtain rfl : y.id = watchID := by simpa using List.find?_some hfind
  dsimp only at h
  split_ifs at h with hrest hmatch
  · split at h
    · rename_i x hx
      cases h
      change Move env a (board m) ((board (m.setWatcher w x)).setDist i _)
      rw [board_place hx]
      exact .push hd hv hy hrest (hmatch ▸ hm)
    · cases h
      exact .slow (b := board m) hd hv
  · cases h
    exact .pass (b := board m) hd hv hy hrest (by rw [hm]; simpa using hmatch)

theorem move_leave (h : m.leave i = some m') : Move env a (board m) (board m') := by
  obtain ⟨d, hd, h⟩ := Option.bind_eq_some_iff.mp h
  obtain ⟨⟨w, rest⟩, hv, h⟩ := Option.bind_eq_some_iff.mp h
  dsimp only at h
  split_ifs at h with hrest
  cases h
  exact .leave (b := board m) hd (hrest ▸ hv)

theorem move_unlock (h : m.unlock i = some m') : Move env a (board m) (board m') := by
  obtain ⟨d, hd, h⟩ := Option.bind_eq_some_iff.mp h
  split_ifs at h with hc
  cases h
  exact .unlock (b := board m) hd hc.2.1 hc.2.2

theorem move_unregisterSlow (h : m.unregisterSlow i = some m') :
    Move env a (board m) (board m') := by
  obtain ⟨d, hd, h⟩ := Option.bind_eq_some_iff.mp h
  split_ifs at h with hlock
  split at h
  · rename_i hs
    cases h
    exact .nextSlow (b := board m) hd hs (unlocked_of_not_mapLocked fun hl => hlock (by simp [hl]))
  · cases h

theorem move_closeSlow (h : m.closeSlow i = some m') : Move env a (board m) (board m') := by
  obtain ⟨d, hd, h⟩ := Option.bind_eq_some_iff.mp h
  obtain ⟨w, -, h⟩ := Option.bind_eq_some_iff.mp h
  split_ifs at h
  cases h
  obtain ⟨p, hp⟩ := board_close m w
  have hclosed : Move env a (board m) _ := .closed (w := w) (p := p) hd
  rw [← hp] at hclosed
  exact hclosed

theorem move_finish (h : m.finish i = some m') : Move env a (board m) (board m') := by
  obtain ⟨d, hd, h⟩ := Option.bind_eq_some_iff.mp h
  split_ifs at h with hc
  cases h
  exact .finish (b := board m) hd hc.1 hc.2.1

/-! #### `Watch` and `CreateWatch` -/

theorem move_register (h : m.register = some m') : Move env a (board m) (board m') := by
  unfold Manager.register at h
  split_ifs at h
  cases h
  have hnew : Move env a (board m) _ := .register (w := m.nextWatcher)
  rw [show (⟨[], [], [], none⟩ : Face) = face .new from rfl, ← board_setWatcher] at hnew
  exact hnew

theorem move_unregister (h : m.unregister w = some m') : Move env a (board m) (board m') := by
  unfold Manager.unregister at h
  split_ifs at h with hlock
  cases h
  have hboard : board (m.setWatcher w { m.watchers w with serving := false }) = board m :=
    board_setWatcher_eq rfl
  change Move env a (board m)
    ((board (m.setWatcher w { m.watchers w with serving := false })).unregister w)
  rw [hboard]
  exact .unregister (unlocked_of_not_mapLocked fun hl => hlock (by simp [hl]))

theorem move_close (h : m.close w = some m') : Move env a (board m) (board m') := by
  unfold Manager.close at h
  split_ifs at h
  cases h
  obtain ⟨p, hp⟩ := board_close m w
  rw [hp]
  exact .retire

theorem move_drain {sendOk : Bool} (h : m.drain w sendOk = some m') :
    Move env a (board m) (board m') := by
  unfold Manager.drain at h
  split at h
  · cases h
    refine .of_eq (board_setWatcher_eq ?_)
    split_ifs <;> rfl
  · cases h

theorem move_receive {r : WatchCreateRequest} (h : m.receive env w r = some m') :
    Move env a (board m) (board m') := by
  unfold Manager.receive at h
  dsimp only at h
  split_ifs at h with hc
  cases h
  have hnone := Option.isNone_iff_eq_none.mp (Bool.and_eq_true_iff.mp hc).2
  refine .of_eq (board_setWatcher_eq ?_)
  unfold face
  rw [hnone]
  rfl

theorem board_reject (m : Manager) (w : ℕ) (header watchID compactRevision : ℤ) (reason : String) :
    board (m.reject w header watchID compactRevision reason) =
      (board m).setFace w { (board m).faces w with reserved := none } :=
  board_setWatcher _ _ _

theorem move_accept (h : m.accept env w = some m') : Move env a (board m) (board m') := by
  unfold Manager.accept at h
  split at h
  · dsimp only at h
    split_ifs at h <;> cases h
    · rw [board_reject]
      exact .release (b := board m) (by simp [board])
    · rw [board_reject]
      exact .release (b := board m) (le_refl _)
    · rw [board_setWatcher]
      exact .reserve
  · cases h

theorem move_lookup {err : Option String} (h : m.lookup env w err = some m') :
    Move env a (board m) (board m') := by
  unfold Manager.lookup at h
  split at h
  · rename_i r latest watchID hcreating
    have hface : ∀ revision header : ℤ,
        face { m.watchers w with creating := some (.found r watchID revision header) } =
          face (m.watchers w) := by
      intro revision header
      unfold face
      rw [hcreating]
      rfl
    dsimp only at h
    by_cases hstart : r.startRevision = 0
    · rw [if_pos hstart] at h
      cases h
      exact .of_eq (board_setWatcher_eq (hface _ _))
    · rw [if_neg hstart] at h
      split at h
      · cases h
        exact .of_eq (board_setWatcher_eq (hface _ _))
      · cases h
        rw [board_reject]
        exact .release (b := board m) (le_refl _)
      · split_ifs at h <;> cases h
        · rw [board_reject]
          exact .release (b := board m) (le_refl _)
        · exact .of_eq (board_setWatcher_eq (hface _ _))
  · cases h

theorem visiting_ne_of_not_readLocked (h : ¬ m.readLocked w = true) :
    ∀ d ∈ m.dists, ∀ v ∈ d.visiting, v.1 ≠ w := by
  intro d hd v hv he
  refine h (Bool.or_eq_true_iff.mpr (Or.inl (List.any_eq_true.mpr ⟨d, hd, ?_⟩)))
  rw [Option.mem_def.mp hv]
  exact decide_eq_true he

theorem move_add (h : m.add env w = some m') : Move env (.add w) (board m) (board m') := by
  unfold Manager.add at h
  split at h
  · rename_i r watchID revision header hcreating
    have hres : ((board m).faces w).reserved = some (r, watchID) := by
      change reserved (m.watchers w).creating = _
      rw [hcreating]
      rfl
    dsimp only at h
    split_ifs at h with hlock hok hfloor <;> cases h
    · rw [board_setWatcher]
      exact .release (b := board m) (le_refl _)
    · rw [board_reject]
      exact .release (b := board m) (le_refl _)
    · rw [board_setWatcher]
      exact .add (b := board m) rfl hres rfl rfl rfl (visiting_ne_of_not_readLocked hlock)
  · cases h

theorem move_ack {err : Option String} (h : m.ack w err = some m') :
    Move env a (board m) (board m') := by
  unfold Manager.ack at h
  split at h
  · rename_i hcreating
    dsimp only at h
    split at h
    · cases h
      refine .of_eq (board_setWatcher_eq ?_)
      unfold face
      rw [hcreating]
      rfl
    · split_ifs at h
      cases h
      rw [board_remove _ _ _ _ _ (by rw [hcreating]; rfl)]
      exact .retire
  · cases h

theorem move_cancelWatch {watchID : ℤ} (h : m.cancelWatch env w watchID = some m') :
    Move env a (board m) (board m') := by
  unfold Manager.cancelWatch at h
  dsimp only at h
  split_ifs at h
  cases h
  rw [board_remove m w watchID _ (m.watchers w).creating rfl]
  exact .retire

/-! #### `ReportProgressOnInterval` -/

theorem reported_set {rs : List Report} {r r' : Report} {committed : ℤ} (h : rs[j]? = some r)
    (he : r'.revision = r.revision) : Reported committed rs (rs.set j r') := by
  intro r₁ hr₁
  rcases List.mem_or_eq_of_mem_set hr₁ with hr₁ | rfl
  · exact Or.inr ⟨r₁, hr₁, rfl⟩
  · exact Or.inr ⟨r, List.mem_of_getElem? h, he.symm⟩

theorem reported_eraseIdx {rs : List Report} {committed : ℤ} :
    Reported committed rs (rs.eraseIdx j) :=
  fun r hr => Or.inr ⟨r, List.mem_of_mem_eraseIdx hr, rfl⟩

theorem move_reportProgress (h : m.reportProgress env w = some m') :
    Move env a (board m) (board m') := by
  unfold Manager.reportProgress at h
  split_ifs at h
  cases h
  refine .reports (b := board m) fun r hr => ?_
  rcases List.mem_append.mp hr with hr | hr
  · exact Or.inr ⟨r, hr, rfl⟩
  · rw [List.mem_singleton.mp hr]
    exact Or.inl rfl

theorem move_lockProgress (h : m.lockProgress j = some m') : Move env a (board m) (board m') := by
  obtain ⟨r, hr, h⟩ := Option.bind_eq_some_iff.mp h
  split_ifs at h <;> cases h
  · exact .reports (b := board m) (reported_set hr rfl)
  · exact .reports (b := board m) reported_eraseIdx

theorem move_placeProgress {watchID : ℤ} (h : m.placeProgress j watchID = some m') :
    Move env (.placeProgress j watchID) (board m) (board m') := by
  obtain ⟨r, hr, h⟩ := Option.bind_eq_some_iff.mp h
  obtain ⟨targets, -, h⟩ := Option.bind_eq_some_iff.mp h
  dsimp only at h
  split_ifs at h
  split at h
  · rename_i x hx
    cases h
    change Move env _ (board m) { board (m.setWatcher r.watcher x) with reports := _ }
    rw [board_place hx]
    exact .report rfl hr rfl (reported_set hr rfl)
  · cases h
    exact .reports (b := board m) (reported_set hr rfl)

theorem move_endProgress (h : m.endProgress j = some m') : Move env a (board m) (board m') := by
  obtain ⟨r, hr, h⟩ := Option.bind_eq_some_iff.mp h
  split_ifs at h
  cases h
  exact .reports (b := board m) reported_eraseIdx

theorem move_of_step (h : step env m a = some m') : Move env a (board m) (board m') := by
  cases a with
  | enter i w => exact move_enter h
  | offer i watchID => exact move_offer h
  | leave i => exact move_leave h
  | unlock i => exact move_unlock h
  | unregisterSlow i => exact move_unregisterSlow h
  | closeSlow i => exact move_closeSlow h
  | finish i => exact move_finish h
  | register => exact move_register h
  | unregister w => exact move_unregister h
  | close w => exact move_close h
  | drain w sendOk => exact move_drain h
  | setWatchAdmissionFloor revision =>
    cases h
    refine .of_eq ?_
    unfold Manager.setWatchAdmissionFloor
    dsimp only
    split_ifs <;> rfl
  | receive w r => exact move_receive h
  | accept w => exact move_accept h
  | lookup w err => exact move_lookup h
  | add w => exact move_add h
  | ack w err => exact move_ack h
  | cancelWatch w watchID => exact move_cancelWatch h
  | reportProgress w => exact move_reportProgress h
  | lockProgress j => exact move_lockProgress h
  | placeProgress j watchID => exact move_placeProgress h
  | endProgress j => exact move_endProgress h

end Netsy.Watch.Moves
