import Netsy.Watch.Moves

/-! # What the watches are sent

If the calls of `Distribute` do not overlap, the events of a watch are the calls that match it, in
the order of the calls and from the first call on that passed its watcher after the watch was added.
A watcher that was found slow or was unregistered has the first ones of these. -/

namespace Netsy.Watch.Delivery

open Watch.Match Watch.Hub Watch.Moves

/-- The events of a watch among what was put into an inbox. -/
def eventsOf (watchID : ℤ) (placed : List WatchResponse) : List WatchResponse :=
  placed.filter fun msg => msg.watchId = watchID && !msg.events.isEmpty

/-- What a watch is sent for a call of `Distribute`. -/
def answer (y : Subscription) (d : Distribution) : Option WatchResponse :=
  if isWatchMatch y.entry d.record = some true then some (outMsg y d) else none

/-- The call of `Distribute` has still to come to the watch. -/
def Owes (d : Dist) (w : ℕ) (watchID : ℤ) : Prop :=
  w ∈ d.todo ∨ ∃ rest, d.visiting = some (w, rest) ∧ watchID ∈ rest

/-! ### Watch IDs -/

/-- The watch IDs are used once, and every event has the ID of a watch of its watcher. -/
structure Tidy (b : Board) : Prop where
  lt : ∀ w, ∀ y ∈ (b.faces w).all, y.id < b.nextWatchID
  nodup : ∀ w, ((b.faces w).all.map Subscription.id).Nodup
  known : ∀ w, ∀ msg ∈ (b.faces w).placed, msg.events ≠ [] →
    ∃ y ∈ (b.faces w).all, y.id = msg.watchId
  reserved : ∀ w, ∀ q ∈ (b.faces w).reserved, q.2 < b.nextWatchID ∧
    ∀ y ∈ (b.faces w).all, y.id ≠ q.2

variable {env : Env} {a : Action} {b b' : Board} {w i : ℕ} {y : Subscription} {d : Dist} {f : Face}

theorem Tidy.setFace (h : Tidy b) (hb : b'.faces = (b.setFace w f).faces)
    (hn : b.nextWatchID ≤ b'.nextWatchID) (hlt : ∀ y ∈ f.all, y.id < b'.nextWatchID)
    (hnodup : (f.all.map Subscription.id).Nodup)
    (hknown : ∀ msg ∈ f.placed, msg.events ≠ [] → ∃ y ∈ f.all, y.id = msg.watchId)
    (hres : ∀ q ∈ f.reserved, q.2 < b'.nextWatchID ∧ ∀ y ∈ f.all, y.id ≠ q.2) : Tidy b' := by
  have hface : ∀ v, b'.faces v = f ∨ b'.faces v = b.faces v := by
    rw [hb]
    exact Board.forall_setFace (P := fun v g => g = f ∨ g = b.faces v) (Or.inl rfl)
      fun _ _ => Or.inr rfl
  refine ⟨fun v y hy => ?_, fun v => ?_, fun v msg hmsg => ?_, fun v q hq => ?_⟩ <;>
    rcases hface v with hv | hv
  · exact hlt y (hv ▸ hy)
  · exact (h.lt v y (hv ▸ hy)).trans_le hn
  · rw [hv]
    exact hnodup
  · rw [hv]
    exact h.nodup v
  · rw [hv] at hmsg ⊢
    exact hknown msg hmsg
  · rw [hv] at hmsg ⊢
    exact h.known v msg hmsg
  · rw [hv] at hq ⊢
    exact hres q hq
  · rw [hv] at hq ⊢
    obtain ⟨h1, h2⟩ := h.reserved v q hq
    exact ⟨h1.trans_le hn, h2⟩

theorem Tidy.of_faces (h : Tidy b) (hf : b'.faces = b.faces)
    (hid : b'.nextWatchID = b.nextWatchID) : Tidy b' := by
  refine ⟨?_, ?_, ?_, ?_⟩
  · rw [hf, hid]
    exact h.lt
  · rw [hf]
    exact h.nodup
  · rw [hf]
    exact h.known
  · rw [hf, hid]
    exact h.reserved

theorem perm_retire (f : Face) (p : Subscription → Bool) :
    (f.watches.filter p ++ (f.ended ++ f.watches.filter fun y => !p y)).Perm f.all := by
  refine (List.perm_append_comm.append_left _).trans ?_
  rw [← List.append_assoc]
  exact (List.filter_append_perm p f.watches).append_right _

theorem mem_retire {v : ℕ} {p : Subscription → Bool} :
    y ∈ ((b.retire w p).faces v).all ↔ y ∈ (b.faces v).all := by
  exact Board.forall_setFace (P := fun v g => y ∈ g.all ↔ y ∈ (b.faces v).all)
    (perm_retire (b.faces w) p).mem_iff (fun _ _ => Iff.rfl) v

theorem tidy_retire {p : Subscription → Bool} (h : Tidy b) : Tidy (b.retire w p) := by
  have hperm := perm_retire (b.faces w) p
  refine h.setFace rfl (le_refl _) (fun y hy => h.lt w y (hperm.mem_iff.mp hy)) ?_
    (fun msg hmsg hev => ?_) (fun q hq => ?_)
  · exact (hperm.map _).nodup_iff.mpr (h.nodup w)
  · obtain ⟨y, hy, he⟩ := h.known w msg hmsg hev
    exact ⟨y, hperm.mem_iff.mpr hy, he⟩
  · obtain ⟨h1, h2⟩ := h.reserved w q hq
    exact ⟨h1, fun y hy => h2 y (hperm.mem_iff.mp hy)⟩

theorem tidy_put {msg : WatchResponse} (h : Tidy b)
    (hmsg : msg.events ≠ [] → ∃ y ∈ (b.faces w).all, y.id = msg.watchId) : Tidy (b.put w msg) := by
  refine h.setFace rfl (le_refl _) (h.lt w) (h.nodup w) (fun msg' hm hev => ?_) (h.reserved w)
  rcases List.mem_append.mp hm with hm | hm
  · exact h.known w msg' hm hev
  · obtain rfl := List.mem_singleton.mp hm
    exact hmsg hev

theorem tidy_add {r : WatchCreateRequest} (h : Tidy b)
    (hres : (b.faces w).reserved = some (r, y.id)) :
    Tidy (b.setFace w
      { b.faces w with watches := (b.faces w).watches ++ [y], reserved := none }) := by
  obtain ⟨hlt, hne⟩ := h.reserved w _ (Option.mem_def.mpr hres)
  have hperm : ((b.faces w).watches ++ [y] ++ (b.faces w).ended).Perm (y :: (b.faces w).all) := by
    rw [List.append_assoc]
    exact List.perm_middle
  refine h.setFace rfl (le_refl _) (fun y' hy' => ?_) ?_ (fun msg hmsg hev => ?_)
    (fun q hq => (by cases hq))
  · rcases List.mem_cons.mp (hperm.mem_iff.mp hy') with rfl | hy'
    · exact hlt
    · exact h.lt w y' hy'
  · refine (hperm.map _).nodup_iff.mpr (List.nodup_cons.mpr ⟨fun hmem => ?_, h.nodup w⟩)
    obtain ⟨y', hy', he⟩ := List.mem_map.mp hmem
    exact hne y' hy' he
  · obtain ⟨y', hy', he⟩ := h.known w msg hmsg hev
    exact ⟨y', hperm.mem_iff.mpr (List.mem_cons_of_mem _ hy'), he⟩

theorem tidy_move (h : Tidy b) (hm : Move env a b b') : Tidy b' := by
  cases hm with
  | keep => exact h
  | register =>
    exact h.setFace rfl (le_refl _) (fun y hy => (by cases hy)) List.nodup_nil
      (fun msg hmsg => (by cases hmsg)) (fun q hq => (by cases hq))
  | @reserve w r =>
    refine h.setFace rfl (Int.le_add_one (le_refl _)) (fun y hy => ?_) (h.nodup w) (h.known w)
      (fun q hq => ?_)
    · exact Int.lt_add_one_of_le (h.lt w y hy).le
    · obtain rfl := Option.some.inj hq
      exact ⟨Int.lt_succ _, fun y hy => (h.lt w y hy).ne⟩
  | @release w n hn =>
    exact h.setFace rfl hn (fun y hy => (h.lt w y hy).trans_le hn) (h.nodup w) (h.known w)
      (fun q hq => (by cases hq))
  | add _ hres => exact tidy_add h hres
  | retire => exact tidy_retire h
  | closed => exact (tidy_retire h).of_faces rfl rfl
  | push hd hv hy =>
    exact (tidy_put h fun _ => ⟨_, List.mem_append_left _ hy, rfl⟩).of_faces rfl rfl
  | report => exact (tidy_put h fun hev => absurd rfl hev).of_faces rfl rfl
  | unregister => exact h.of_faces rfl rfl
  | enter => exact h.of_faces rfl rfl
  | pass => exact h.of_faces rfl rfl
  | slow => exact h.of_faces rfl rfl
  | leave => exact h.of_faces rfl rfl
  | unlock => exact h.of_faces rfl rfl
  | nextSlow => exact h.of_faces rfl rfl
  | finish => exact h.of_faces rfl rfl
  | reports => exact h.of_faces rfl rfl

/-! ### One call of `Distribute` at a time -/

/-- At most one call of `Distribute` runs, the last one that began. -/
structure Single (b : Board) : Prop where
  one : ∀ d ∈ b.dists, b.dists = [d]
  last : ∀ d ∈ b.dists, ∃ bs, b.begun = bs ++ [d.arg]
  left : ∀ d ∈ b.dists, ∀ w rest, d.visiting = some (w, rest) → w ∉ d.todo
  unlocked : ∀ d ∈ b.dists, d.unlocked = true → d.todo = [] ∧ d.visiting = none
  registered : ∀ d ∈ b.dists, ∀ w, (w ∈ d.todo ∨ ∃ rest, d.visiting = some (w, rest)) →
    w ∈ b.registered ∧ w ∉ d.slow

theorem Single.dists_eq (h : Single b) (hd : b.dists[i]? = some d) : b.dists = [d] ∧ i = 0 := by
  have hone := h.one d (List.mem_of_getElem? hd)
  refine ⟨hone, ?_⟩
  rw [hone, List.getElem?_singleton] at hd
  by_contra hi
  rw [if_neg hi] at hd
  cases hd

theorem single_of_dists (d : Dist) (hdists : b.dists = [d]) (hlast : ∃ bs, b.begun = bs ++ [d.arg])
    (hleft : ∀ w rest, d.visiting = some (w, rest) → w ∉ d.todo)
    (hunlocked : d.unlocked = true → d.todo = [] ∧ d.visiting = none)
    (hreg : ∀ w, (w ∈ d.todo ∨ ∃ rest, d.visiting = some (w, rest)) →
      w ∈ b.registered ∧ w ∉ d.slow) : Single b := by
  have heq : ∀ d' ∈ b.dists, d' = d := by
    intro d' hd'
    rw [hdists] at hd'
    exact List.mem_singleton.mp hd'
  refine ⟨fun d' hd' => ?_, fun d' hd' => ?_, fun d' hd' => ?_, fun d' hd' => ?_,
    fun d' hd' => ?_⟩ <;> rw [heq d' hd']
  · exact hdists
  · exact hlast
  · exact hleft
  · exact hunlocked
  · exact hreg

theorem single_of_nil (h : b.dists = []) : Single b := by
  have hno : ∀ d, d ∉ b.dists := by
    intro d hd
    rw [h] at hd
    cases hd
  exact ⟨fun d hd => absurd hd (hno d), fun d hd => absurd hd (hno d),
    fun d hd => absurd hd (hno d), fun d hd => absurd hd (hno d), fun d hd => absurd hd (hno d)⟩

theorem Single.of_dists (h : Single b) (hd : b'.dists = b.dists) (hb : b'.begun = b.begun)
    (hreg : ∀ w ∈ b.registered, (∃ d ∈ b.dists, d.unlocked = false) → w ∈ b'.registered) :
    Single b' := by
  refine ⟨?_, ?_, ?_, ?_, ?_⟩ <;> rw [hd]
  · exact h.one
  · rw [hb]
    exact h.last
  · exact h.left
  · exact h.unlocked
  · intro d hmem w hw
    obtain ⟨h1, h2⟩ := h.registered d hmem w hw
    refine ⟨hreg w h1 ⟨d, hmem, ?_⟩, h2⟩
    by_contra hlock
    obtain ⟨htodo, hvis⟩ := h.unlocked d hmem (Bool.not_eq_false _ ▸ hlock)
    rw [htodo, hvis] at hw
    rcases hw with hw | ⟨_, hw⟩ <;> cases hw

theorem Single.setDist {d' : Dist} (h : Single b) (hd : b.dists[i]? = some d)
    (hdists : b'.dists = b.dists.set i d') (hbegun : b'.begun = b.begun) (harg : d'.arg = d.arg)
    (hleft : ∀ w rest, d'.visiting = some (w, rest) → w ∉ d'.todo)
    (hunlocked : d'.unlocked = true → d'.todo = [] ∧ d'.visiting = none)
    (hreg : ∀ w, (w ∈ d'.todo ∨ ∃ rest, d'.visiting = some (w, rest)) →
      w ∈ b'.registered ∧ w ∉ d'.slow) : Single b' := by
  obtain ⟨hone, rfl⟩ := h.dists_eq hd
  refine single_of_dists d' ?_ ?_ hleft hunlocked hreg
  · rw [hdists, hone]
    rfl
  · rw [hbegun, harg]
    exact h.last d (List.mem_of_getElem? hd)

theorem Single.offered {rest rest' : List ℤ} (h : Single b) (hd : b.dists[i]? = some d)
    (hv : d.visiting = some (w, rest))
    (hdists : b'.dists = b.dists.set i { d with visiting := some (w, rest') })
    (hbegun : b'.begun = b.begun) (hreg : b'.registered = b.registered) : Single b' := by
  have hmem := List.mem_of_getElem? hd
  refine h.setDist hd hdists hbegun rfl (fun v rest₁ hv' => ?_) (fun hu => ?_) fun v hv' => ?_
  · cases hv'
    exact h.left d hmem w rest hv
  · exact absurd (hv.symm.trans (h.unlocked d hmem hu).2) (by simp)
  · rw [hreg]
    refine h.registered d hmem v (hv'.imp_right ?_)
    rintro ⟨rest₁, ⟨⟩⟩
    exact ⟨rest, hv⟩

theorem single_move (h : Single b) (hm : Move env a b b') : Single b' := by
  cases hm with
  | keep => exact h
  | register => exact h.of_dists rfl rfl fun w hw _ => List.mem_append_left _ hw
  | reserve => exact h.of_dists rfl rfl fun w hw _ => hw
  | release => exact h.of_dists rfl rfl fun w hw _ => hw
  | add => exact h.of_dists rfl rfl fun w hw _ => hw
  | retire => exact h.of_dists rfl rfl fun w hw _ => hw
  | reports => exact h.of_dists rfl rfl fun w hw _ => hw
  | report => exact h.of_dists rfl rfl fun w hw _ => hw
  | unregister hmap =>
    refine h.of_dists rfl rfl fun w _ ⟨d, hd, hlock⟩ => ?_
    exact absurd (hlock.symm.trans (hmap d hd)) (by decide)
  | @enter i w d hd hw hlock hv =>
    have hreg := h.registered d (List.mem_of_getElem? hd)
    refine h.setDist hd rfl rfl rfl (fun v rest hv' => ?_) (fun hu => ?_) fun v hv' => ?_
    · cases hv'
      simp
    · exact absurd (hlock.symm.trans hu) (by decide)
    · rcases hv' with hv' | ⟨rest, hv'⟩
      · exact hreg v (Or.inl (List.mem_of_mem_filter hv'))
      · cases hv'
        exact hreg w (Or.inl hw)
  | pass hd hv => exact h.offered hd hv rfl rfl rfl
  | push hd hv => exact h.offered hd hv rfl rfl rfl
  | @slow i w rest d hd hv =>
    have hmem := List.mem_of_getElem? hd
    refine h.setDist hd rfl rfl rfl (fun v rest' hv' => (by cases hv')) (fun hu => ?_)
      fun v hv' => ?_
    · exact absurd (hv.symm.trans (h.unlocked d hmem hu).2) (by simp)
    · rcases hv' with hv' | ⟨_, hv'⟩
      · obtain ⟨h1, h2⟩ := h.registered d hmem v (Or.inl hv')
        refine ⟨h1, fun hslow => ?_⟩
        rcases List.mem_append.mp hslow with hslow | hslow
        · exact h2 hslow
        · rw [List.mem_singleton.mp hslow] at hv'
          exact h.left d hmem w rest hv hv'
      · cases hv'
  | @leave i w d hd hv =>
    have hmem := List.mem_of_getElem? hd
    refine h.setDist hd rfl rfl rfl (fun v rest' hv' => (by cases hv')) (fun hu => ?_)
      fun v hv' => ?_
    · exact ⟨(h.unlocked d hmem hu).1, rfl⟩
    · rcases hv' with hv' | ⟨_, hv'⟩
      · exact h.registered d hmem v (Or.inl hv')
      · cases hv'
  | @unlock i d hd htodo hv =>
    have hmem := List.mem_of_getElem? hd
    exact h.setDist hd rfl rfl rfl (h.left d hmem) (fun _ => ⟨htodo, hv⟩) (h.registered d hmem)
  | @nextSlow i w rest d hd hs hmap =>
    have hmem := List.mem_of_getElem? hd
    obtain ⟨htodo, hvis⟩ := h.unlocked d hmem (hmap d hmem)
    refine h.setDist hd rfl rfl rfl (h.left d hmem) (h.unlocked d hmem) fun v hv' => ?_
    rw [htodo, hvis] at hv'
    rcases hv' with hv' | ⟨_, hv'⟩ <;> cases hv'
  | @closed i w p d hd =>
    have hmem := List.mem_of_getElem? hd
    exact h.setDist hd rfl rfl rfl (h.left d hmem) (h.unlocked d hmem) (h.registered d hmem)
  | finish hd =>
    obtain ⟨hone, rfl⟩ := h.dists_eq hd
    refine single_of_nil ?_
    change b.dists.eraseIdx 0 = []
    rw [hone]
    rfl

/-! ### Delivery -/

/-- The calls that have come past a watch: all of them, or all but the one that runs. -/
def Passed (b : Board) (w : ℕ) (watchID : ℤ) (passed : List Distribution) : Prop :=
  (passed = b.begun ∧ ∀ d ∈ b.dists, ¬ Owes d w watchID) ∨
    ∃ d ∈ b.dists, Owes d w watchID ∧ b.begun = passed ++ [d.arg]

/-- The watch was sent what matches it of these calls. -/
structure UpTo (placed : List WatchResponse) (y : Subscription) (passed : List Distribution) :
    Prop where
  first : y.first ≤ passed.length
  events : eventsOf y.id placed = (passed.drop y.first).filterMap (answer y)

/-- The watch was sent the first ones of what matches it of these calls. -/
structure Behind (placed : List WatchResponse) (y : Subscription) (begun : List Distribution) :
    Prop where
  first : y.first ≤ begun.length
  events : eventsOf y.id placed <+: (begun.drop y.first).filterMap (answer y)

structure Delivered (b : Board) : Prop where
  behind : ∀ w, ∀ y ∈ (b.faces w).all, Behind (b.faces w).placed y b.begun
  upTo : ∀ w ∈ b.registered, (∀ d ∈ b.dists, w ∉ d.slow) → ∀ y ∈ (b.faces w).watches,
    ∀ passed, Passed b w y.id passed → UpTo (b.faces w).placed y passed

variable {placed : List WatchResponse} {begun passed : List Distribution} {arg : Distribution}

theorem filterMap_drop_append {n : ℕ} (hn : n ≤ begun.length)
    (g : Distribution → Option WatchResponse) :
    ((begun ++ [arg]).drop n).filterMap g = (begun.drop n).filterMap g ++ (g arg).toList := by
  rw [List.drop_append_of_le_length hn, List.filterMap_append]
  cases hg : g arg <;> simp [hg]

theorem UpTo.behind (h : UpTo placed y begun) : Behind placed y begun :=
  ⟨h.first, h.events ▸ List.prefix_refl _⟩

theorem Behind.append (h : Behind placed y begun) : Behind placed y (begun ++ [arg]) := by
  refine ⟨h.first.trans (by simp), h.events.trans ?_⟩
  rw [filterMap_drop_append h.first]
  exact List.prefix_append _ _

theorem eventsOf_append {msg : WatchResponse} {watchID : ℤ}
    (h : msg.watchId = watchID → msg.events = []) :
    eventsOf watchID (placed ++ [msg]) = eventsOf watchID placed := by
  unfold eventsOf
  rw [List.filter_append, List.filter_singleton]
  by_cases hid : msg.watchId = watchID
  · simp [h hid]
  · simp [hid]

theorem eventsOf_outMsg :
    eventsOf y.id (placed ++ [outMsg y arg]) = eventsOf y.id placed ++ [outMsg y arg] := by
  unfold eventsOf
  rw [List.filter_append, List.filter_singleton]
  simp [outMsg]

theorem UpTo.push (h : UpTo placed y passed) (hm : isWatchMatch y.entry arg.record = some true) :
    UpTo (placed ++ [outMsg y arg]) y (passed ++ [arg]) := by
  refine ⟨h.first.trans (by simp), ?_⟩
  have hans : answer y arg = some (outMsg y arg) := if_pos hm
  rw [eventsOf_outMsg, h.events, filterMap_drop_append h.first, hans]
  rfl

theorem UpTo.pass (h : UpTo placed y passed) (hm : isWatchMatch y.entry arg.record = some false) :
    UpTo placed y (passed ++ [arg]) := by
  refine ⟨h.first.trans (by simp), ?_⟩
  have hans : answer y arg = none := if_neg (by rw [hm]; decide)
  rw [h.events, filterMap_drop_append h.first, hans]
  simp

theorem Tidy.eq_of_id {y' : Subscription} (h : Tidy b) (hy : y ∈ (b.faces w).all)
    (hy' : y' ∈ (b.faces w).all) (he : y.id = y'.id) : y = y' :=
  List.inj_on_of_nodup_map (h.nodup w) hy hy' he

theorem passed_iff {watchID : ℤ} (hone : b.dists = [d]) : Passed b w watchID passed ↔
    (passed = b.begun ∧ ¬ Owes d w watchID) ∨
      (Owes d w watchID ∧ b.begun = passed ++ [d.arg]) := by
  unfold Passed
  rw [hone]
  simp only [List.mem_singleton, forall_eq, exists_eq_left]

theorem Delivered.frame (h : Delivered b) (hbegun : b'.begun = b.begun)
    (hbehind : ∀ w, ∀ y ∈ (b'.faces w).all, y ∈ (b.faces w).all ∧
      eventsOf y.id (b'.faces w).placed = eventsOf y.id (b.faces w).placed)
    (hupTo : ∀ w ∈ b'.registered, (∀ d ∈ b'.dists, w ∉ d.slow) → ∀ y ∈ (b'.faces w).watches,
      ∀ passed, Passed b' w y.id passed → y ∈ (b.faces w).watches ∧ w ∈ b.registered ∧
        (∀ d ∈ b.dists, w ∉ d.slow) ∧ Passed b w y.id passed) : Delivered b' := by
  refine ⟨fun w y hy => ?_, fun w hw hslow y hy passed hp => ?_⟩
  · obtain ⟨hy', he⟩ := hbehind w y hy
    obtain ⟨h1, h2⟩ := h.behind w y hy'
    exact ⟨hbegun ▸ h1, by rw [he, hbegun]; exact h2⟩
  · obtain ⟨-, he⟩ := hbehind w y (List.mem_append_left _ hy)
    obtain ⟨hy', hw', hslow', hp'⟩ := hupTo w hw hslow y hy passed hp
    obtain ⟨h1, h2⟩ := h.upTo w hw' hslow' y hy' passed hp'
    exact ⟨h1, by rw [he]; exact h2⟩

theorem Delivered.of_faces (h : Delivered b) (hbegun : b'.begun = b.begun)
    (hdists : b'.dists = b.dists)
    (hbehind : ∀ w, ∀ y ∈ (b'.faces w).all, y ∈ (b.faces w).all ∧
      eventsOf y.id (b'.faces w).placed = eventsOf y.id (b.faces w).placed)
    (hwatches : ∀ w, ∀ y ∈ (b'.faces w).watches, y ∈ (b.faces w).watches)
    (hreg : ∀ w ∈ b'.registered, w ∈ b.registered ∨ (b'.faces w).watches = []) :
    Delivered b' := by
  refine h.frame hbegun hbehind fun w hw hslow y hy passed hp => ?_
  refine ⟨hwatches w y hy, ?_, hdists ▸ hslow, ?_⟩
  · rcases hreg w hw with hw | hw
    · exact hw
    · rw [hw] at hy
      cases hy
  · unfold Passed at hp ⊢
    rwa [hbegun, hdists] at hp

theorem Delivered.setDist {d' : Dist} (h : Delivered b) (hs : Single b)
    (hd : b.dists[i]? = some d) (hfaces : b'.faces = b.faces) (hbegun : b'.begun = b.begun)
    (hdists : b'.dists = b.dists.set i d') (harg : d'.arg = d.arg)
    (howes : ∀ w ∈ b'.registered, w ∉ d'.slow → w ∈ b.registered ∧ w ∉ d.slow ∧
      ∀ y ∈ (b.faces w).watches, Owes d' w y.id ↔ Owes d w y.id) : Delivered b' := by
  obtain ⟨hone, rfl⟩ := hs.dists_eq hd
  have hone' : b'.dists = [d'] := by
    rw [hdists, hone]
    rfl
  refine h.frame hbegun (fun w y hy => ?_) fun w hw hslow y hy passed hp => ?_
  · rw [hfaces] at hy ⊢
    exact ⟨hy, rfl⟩
  · rw [hfaces] at hy
    rw [hone'] at hslow
    obtain ⟨h1, h2, h3⟩ := howes w hw (hslow d' List.mem_cons_self)
    refine ⟨hy, h1, ?_, ?_⟩
    · rw [hone]
      exact fun d₁ hd₁ => List.mem_singleton.mp hd₁ ▸ h2
    · rw [passed_iff hone', hbegun, h3 y hy, harg] at hp
      exact (passed_iff hone).mpr hp

theorem Delivered.upTo_offered {rest : List ℤ} (h : Delivered b) (hs : Single b)
    (hd : b.dists[i]? = some d) (hv : d.visiting = some (w, rest)) (hy : y ∈ (b.faces w).watches)
    (hrest : y.id ∈ rest) :
    ∃ bs, b.begun = bs ++ [d.arg] ∧ UpTo (b.faces w).placed y bs := by
  have hmem := List.mem_of_getElem? hd
  obtain ⟨bs, hbs⟩ := hs.last d hmem
  obtain ⟨hreg, hslow⟩ := hs.registered d hmem w (Or.inr ⟨rest, hv⟩)
  refine ⟨bs, hbs, h.upTo w hreg (fun d' hd' => ?_) y hy bs ?_⟩
  · rw [hs.one d hmem] at hd'
    exact List.mem_singleton.mp hd' ▸ hslow
  · exact Or.inr ⟨d, hmem, Or.inr ⟨rest, hv, hrest⟩, hbs⟩

theorem owes_offered {v : ℕ} {watchID watchID' : ℤ} {rest : List ℤ}
    (hv : d.visiting = some (w, rest)) (hne : v ≠ w ∨ watchID' ≠ watchID) :
    Owes { d with visiting := some (w, rest.filter (· ≠ watchID)) } v watchID' ↔
      Owes d v watchID' := by
  unfold Owes
  rw [hv]
  refine or_congr_right ⟨?_, ?_⟩
  · rintro ⟨_, ⟨⟩, hmem⟩
    exact ⟨rest, rfl, List.mem_of_mem_filter hmem⟩
  · rintro ⟨_, ⟨⟩, hmem⟩
    refine ⟨_, rfl, List.mem_filter.mpr ⟨hmem, ?_⟩⟩
    rcases hne with hne | hne
    · exact absurd rfl hne
    · exact decide_eq_true hne

theorem not_owes_offered {watchID : ℤ} {rest : List ℤ} (hleft : w ∉ d.todo) :
    ¬ Owes { d with visiting := some (w, rest.filter (· ≠ watchID)) } w watchID := by
  rintro (htodo | ⟨_, ⟨⟩, hin⟩)
  · exact hleft htodo
  · simp at hin

theorem Delivered.offered {rest : List ℤ} {placed : List WatchResponse} (h : Delivered b)
    (ht : Tidy b) (hs : Single b) (hd : b.dists[i]? = some d) (hv : d.visiting = some (w, rest))
    (hy : y ∈ (b.faces w).watches) (hnow : UpTo placed y b.begun)
    (hothers : ∀ y' ∈ (b.faces w).all, y'.id ≠ y.id →
      eventsOf y'.id placed = eventsOf y'.id (b.faces w).placed)
    (hbegun : b'.begun = b.begun) (hreg : b'.registered = b.registered)
    (hdists : b'.dists = b.dists.set i { d with visiting := some (w, rest.filter (· ≠ y.id)) })
    (hface : b'.faces w = { b.faces w with placed := placed })
    (hfaces : ∀ v, v ≠ w → b'.faces v = b.faces v) : Delivered b' := by
  have hleft : w ∉ d.todo := hs.left d (List.mem_of_getElem? hd) w rest hv
  obtain ⟨hone, rfl⟩ := hs.dists_eq hd
  have hone' : b'.dists = [{ d with visiting := some (w, rest.filter (· ≠ y.id)) }] := by
    rw [hdists, hone]
    rfl
  have hsubs : ∀ v, (b'.faces v).all = (b.faces v).all ∧
      (b'.faces v).watches = (b.faces v).watches := by
    intro v
    by_cases hvw : v = w
    · rw [hvw, hface]
      exact ⟨rfl, rfl⟩
    · rw [hfaces v hvw]
      exact ⟨rfl, rfl⟩
  -- it is this watch, or one whose events are what they were
  have hcases : ∀ v, ∀ y' ∈ (b.faces v).all, (v = w ∧ y' = y) ∨ ((v ≠ w ∨ y'.id ≠ y.id) ∧
      eventsOf y'.id (b'.faces v).placed = eventsOf y'.id (b.faces v).placed) := by
    intro v y' hy'
    by_cases hvw : v = w
    · subst hvw
      by_cases hid : y'.id = y.id
      · exact Or.inl ⟨rfl, ht.eq_of_id hy' (List.mem_append_left _ hy) hid⟩
      · rw [hface]
        exact Or.inr ⟨Or.inr hid, hothers y' hy' hid⟩
    · rw [hfaces v hvw]
      exact Or.inr ⟨Or.inl hvw, rfl⟩
  refine ⟨fun v y' hy' => ?_, fun v hvreg hslow y' hy' passed hp => ?_⟩
  · rw [(hsubs v).1] at hy'
    rw [hbegun]
    rcases hcases v y' hy' with ⟨rfl, rfl⟩ | ⟨-, he⟩
    · rw [hface]
      exact hnow.behind
    · obtain ⟨h1, h2⟩ := h.behind v y' hy'
      exact ⟨h1, he ▸ h2⟩
  · rw [(hsubs v).2] at hy'
    rw [passed_iff hone', hbegun] at hp
    rcases hcases v y' (List.mem_append_left _ hy') with ⟨rfl, rfl⟩ | ⟨hne, he⟩
    · rcases hp with ⟨rfl, -⟩ | ⟨howes, -⟩
      · rw [hface]
        exact hnow
      · exact absurd howes (not_owes_offered hleft)
    · rw [owes_offered hv hne] at hp
      have hslow' : ∀ d₁ ∈ b.dists, v ∉ d₁.slow := by
        rw [hone', List.forall_mem_singleton] at hslow
        rw [hone, List.forall_mem_singleton]
        exact hslow
      obtain ⟨h1, h2⟩ := h.upTo v (hreg ▸ hvreg) hslow' y' hy' passed ((passed_iff hone).mpr hp)
      exact ⟨h1, he ▸ h2⟩

theorem faces_add {v : ℕ} {y' : Subscription}
    (hy' : y' ∈ ((b.setFace w { b.faces w with
      watches := (b.faces w).watches ++ [y], reserved := none }).faces v).watches) :
    y' ∈ (b.faces v).watches ∨ (v = w ∧ y' = y) := by
  refine Board.forall_setFace
    (P := fun v g => y' ∈ g.watches → y' ∈ (b.faces v).watches ∨ (v = w ∧ y' = y))
    (fun h => ?_) (fun _ _ => Or.inl) v hy'
  exact (List.mem_append.mp h).imp_right fun h => ⟨rfl, List.mem_singleton.mp h⟩

theorem placed_add (v : ℕ) : ((b.setFace w { b.faces w with
    watches := (b.faces w).watches ++ [y], reserved := none }).faces v).placed =
      (b.faces v).placed := by
  refine Board.forall_setFace (P := fun v g => g.placed = (b.faces v).placed) ?_ (fun _ _ => rfl) v
  rfl

theorem Tidy.eventsOf_reserved {r : WatchCreateRequest} {watchID : ℤ} (h : Tidy b)
    (hres : (b.faces w).reserved = some (r, watchID)) :
    eventsOf watchID (b.faces w).placed = [] := by
  refine List.filter_eq_nil_iff.mpr fun msg hmsg => ?_
  intro hev
  obtain ⟨hid, hne⟩ := Bool.and_eq_true_iff.mp hev
  obtain ⟨y, hy, he⟩ := h.known w msg hmsg (by simpa using hne)
  exact (h.reserved w _ hres).2 y hy (he.trans (of_decide_eq_true hid))

theorem Delivered.add {r : WatchCreateRequest} (h : Delivered b) (ht : Tidy b) (hs : Single b)
    (hres : (b.faces w).reserved = some (r, y.id))
    (hfirst : y.first = b.begun.length - b.dists.countP fun d => w ∈ d.todo)
    (hlock : ∀ d ∈ b.dists, ∀ v ∈ d.visiting, v.1 ≠ w) :
    Delivered (b.setFace w
      { b.faces w with watches := (b.faces w).watches ++ [y], reserved := none }) := by
  have hnone := ht.eventsOf_reserved hres
  refine ⟨fun v y' hy' => ?_, fun v hv hslow y' hy' passed hp => ?_⟩
  · rw [placed_add]
    have hcases : y' ∈ (b.faces v).all ∨ (v = w ∧ y' = y) := by
      rcases List.mem_append.mp hy' with hy' | hy'
      · exact (faces_add hy').imp_left (List.mem_append_left _)
      · refine Or.inl (List.mem_append_right _ (Board.forall_setFace
          (P := fun v g => y' ∈ g.ended → y' ∈ (b.faces v).ended) (fun h => ?_)
          (fun _ _ => id) v hy'))
        exact h
    rcases hcases with hy' | ⟨rfl, rfl⟩
    · exact h.behind v y' hy'
    · refine ⟨?_, ?_⟩
      · change y'.first ≤ b.begun.length
        omega
      · rw [hnone]
        exact List.nil_prefix
  · rw [placed_add]
    change Passed b v y'.id passed at hp
    rcases faces_add hy' with hy' | ⟨rfl, rfl⟩
    · exact h.upTo v hv hslow y' hy' passed hp
    · have hlen : y'.first = passed.length := by
        rcases hp with ⟨rfl, hno⟩ | ⟨d, hd, howes, hbs⟩
        · have hcount : (b.dists.countP fun d => v ∈ d.todo) = 0 :=
            List.countP_eq_zero.mpr fun d hd hin => hno d hd (Or.inl (of_decide_eq_true hin))
          omega
        · rcases howes with htodo | ⟨rest, hvis, -⟩
          · rw [hfirst, hs.one d hd, hbs]
            simp [htodo]
          · exact absurd rfl (hlock d hd (v, rest) hvis)
      refine ⟨hlen.le, ?_⟩
      rw [hnone, hlen, List.drop_length]
      rfl

theorem Delivered.reserve {x : Option (WatchCreateRequest × ℤ)} (h : Delivered b)
    (hfaces : b'.faces = (b.setFace w { b.faces w with reserved := x }).faces)
    (hbegun : b'.begun = b.begun) (hdists : b'.dists = b.dists)
    (hreg : b'.registered = b.registered) : Delivered b' := by
  have hsame : ∀ v, (b'.faces v).watches = (b.faces v).watches ∧
      (b'.faces v).all = (b.faces v).all ∧ (b'.faces v).placed = (b.faces v).placed := by
    rw [hfaces]
    exact Board.forall_setFace (P := fun v g => g.watches = (b.faces v).watches ∧
      g.all = (b.faces v).all ∧ g.placed = (b.faces v).placed) ⟨rfl, rfl, rfl⟩
      fun _ _ => ⟨rfl, rfl, rfl⟩
  refine h.of_faces hbegun hdists (fun v y hy => ?_) (fun v y hy => ?_) fun v hv => ?_
  · rw [(hsame v).2.1] at hy
    exact ⟨hy, by rw [(hsame v).2.2]⟩
  · rwa [(hsame v).1] at hy
  · exact Or.inl (hreg ▸ hv)

theorem Delivered.register (h : Delivered b) :
    Delivered { b.setFace w ⟨[], [], [], none⟩ with registered := b.registered ++ [w] } := by
  have hface : ∀ v, (b.setFace w ⟨[], [], [], none⟩).faces v = ⟨[], [], [], none⟩ ∨
      (v ≠ w ∧ (b.setFace w ⟨[], [], [], none⟩).faces v = b.faces v) :=
    Board.forall_setFace (P := fun v g => g = ⟨[], [], [], none⟩ ∨ (v ≠ w ∧ g = b.faces v))
      (Or.inl rfl) fun v hv => Or.inr ⟨hv, rfl⟩
  refine h.of_faces rfl rfl (fun v y hy => ?_) (fun v y hy => ?_) fun v hv => ?_
  · change y ∈ ((b.setFace w ⟨[], [], [], none⟩).faces v).all at hy
    change _ ∧ eventsOf y.id ((b.setFace w ⟨[], [], [], none⟩).faces v).placed = _
    rcases hface v with hv | ⟨-, hv⟩ <;> rw [hv] at hy ⊢
    · cases hy
    · exact ⟨hy, rfl⟩
  · change y ∈ ((b.setFace w ⟨[], [], [], none⟩).faces v).watches at hy
    rcases hface v with hv | ⟨-, hv⟩ <;> rw [hv] at hy
    · cases hy
    · exact hy
  · change _ ∨ ((b.setFace w ⟨[], [], [], none⟩).faces v).watches = []
    rcases hface v with he | ⟨hne, -⟩
    · exact Or.inr (by rw [he])
    · rcases List.mem_append.mp hv with hv | hv
      · exact Or.inl hv
      · exact absurd (List.mem_singleton.mp hv) hne

theorem Delivered.retire {p : Subscription → Bool} (h : Delivered b) :
    Delivered (b.retire w p) := by
  have hface : ∀ v, ((b.retire w p).faces v).placed = (b.faces v).placed ∧
      ∀ y ∈ ((b.retire w p).faces v).watches, y ∈ (b.faces v).watches :=
    Board.forall_setFace (P := fun v g => g.placed = (b.faces v).placed ∧
      ∀ y ∈ g.watches, y ∈ (b.faces v).watches) ⟨rfl, fun _ hy => List.mem_of_mem_filter hy⟩
      fun _ _ => ⟨rfl, fun _ hy => hy⟩
  refine h.of_faces rfl rfl (fun v y hy => ⟨mem_retire.mp hy, ?_⟩)
    (fun v y hy => (hface v).2 y hy) fun v => Or.inl
  rw [(hface v).1]

theorem Delivered.put {msg : WatchResponse} (h : Delivered b) (hmsg : msg.events = []) :
    Delivered (b.put w msg) := by
  have hface : ∀ v, ((b.put w msg).faces v).all = (b.faces v).all ∧
      ((b.put w msg).faces v).watches = (b.faces v).watches ∧
      ∀ id, eventsOf id ((b.put w msg).faces v).placed = eventsOf id (b.faces v).placed :=
    Board.forall_setFace (P := fun v g => g.all = (b.faces v).all ∧
      g.watches = (b.faces v).watches ∧ ∀ id, eventsOf id g.placed = eventsOf id (b.faces v).placed)
      ⟨rfl, rfl, fun _ => eventsOf_append fun _ => hmsg⟩ fun _ _ => ⟨rfl, rfl, fun _ => rfl⟩
  refine h.of_faces rfl rfl (fun v y hy => ?_) (fun v y hy => ?_) fun v => Or.inl
  · rw [(hface v).1] at hy
    exact ⟨hy, (hface v).2.2 y.id⟩
  · rwa [(hface v).2.1] at hy

theorem Delivered.finish (h : Delivered b) (hs : Single b) (hd : b.dists[i]? = some d)
    (hlock : d.unlocked = true) (hslow : d.slow = []) :
    Delivered { b with dists := b.dists.eraseIdx i } := by
  obtain ⟨hone, rfl⟩ := hs.dists_eq hd
  obtain ⟨htodo, hvis⟩ := hs.unlocked d (List.mem_of_getElem? hd) hlock
  refine h.frame rfl (fun _ _ hy => ⟨hy, rfl⟩) fun w hw _ y hy passed hp => ⟨hy, hw, ?_, ?_⟩
  · rw [hone]
    refine List.forall_mem_singleton.mpr ?_
    rw [hslow]
    exact List.not_mem_nil
  · have hno : ¬ Owes d w y.id := by
      rintro (hin | ⟨_, hin, -⟩)
      · rw [htodo] at hin
        cases hin
      · rw [hvis] at hin
        cases hin
    rcases hp with ⟨rfl, -⟩ | ⟨d', hd', -⟩
    · refine Or.inl ⟨rfl, ?_⟩
      rw [hone]
      exact List.forall_mem_singleton.mpr hno
    · dsimp only at hd'
      rw [hone] at hd'
      cases hd'

theorem delivered_move (h : Delivered b) (ht : Tidy b) (hs : Single b) (hm : Move env a b b') :
    Delivered b' := by
  cases hm with
  | keep => exact h
  | register => exact h.register
  | reserve => exact h.reserve rfl rfl rfl rfl
  | release => exact h.reserve rfl rfl rfl rfl
  | add _ hres _ _ hfirst hlock => exact h.add ht hs hres hfirst hlock
  | retire => exact h.retire
  | reports => exact h.of_faces rfl rfl (fun _ _ hy => ⟨hy, rfl⟩) (fun _ _ hy => hy) fun _ => Or.inl
  | @report w j watchID rs r =>
    have hput : Delivered (b.put w (Manager.progressMsg r.revision watchID)) := h.put rfl
    exact hput.of_faces rfl rfl (fun _ _ hy => ⟨hy, rfl⟩) (fun _ _ hy => hy) fun _ => Or.inl
  | unregister hmap =>
    exact h.of_faces rfl rfl (fun _ _ hy => ⟨hy, rfl⟩) (fun _ _ hy => hy)
      fun _ hw => Or.inl (List.mem_of_mem_filter hw)
  | @enter i w d hd hw hlock hv =>
    refine h.setDist hs hd rfl rfl rfl rfl fun v hreg hslow => ⟨hreg, hslow, fun y hy => ?_⟩
    unfold Owes
    rw [hv]
    by_cases hvw : v = w
    · subst hvw
      have hid : y.id ∈ (b.faces v).watches.map Subscription.id := List.mem_map_of_mem hy
      exact ⟨fun _ => Or.inl hw, fun _ => Or.inr ⟨_, rfl, hid⟩⟩
    · simp [hvw, Ne.symm hvw]
  | @pass i w rest d y hd hv hy hrest hmatch =>
    obtain ⟨bs, hbs, hup⟩ := h.upTo_offered hs hd hv hy hrest
    exact h.offered ht hs hd hv hy (hbs ▸ hup.pass hmatch) (fun _ _ _ => rfl) rfl rfl rfl rfl
      fun _ _ => rfl
  | @push i w rest d y hd hv hy hrest hmatch =>
    obtain ⟨bs, hbs, hup⟩ := h.upTo_offered hs hd hv hy hrest
    refine h.offered ht hs hd hv hy (hbs ▸ hup.push hmatch) (fun y' _ hne => ?_) rfl rfl rfl ?_
      fun v hvw => ?_
    · exact eventsOf_append fun he => absurd he.symm hne
    · exact Board.faces_setFace_self _ _ _
    · exact Board.faces_setFace_of_ne _ _ hvw
  | @slow i w rest d hd hv =>
    refine h.setDist hs hd rfl rfl rfl rfl fun v hreg hslow => ?_
    obtain ⟨h1, h2⟩ := not_or.mp (mt List.mem_append.mpr hslow)
    refine ⟨hreg, h1, fun y hy => ?_⟩
    have hvw : v ≠ w := fun he => h2 (List.mem_singleton.mpr he)
    unfold Owes
    rw [hv]
    simp [Ne.symm hvw]
  | @leave i w d hd hv =>
    refine h.setDist hs hd rfl rfl rfl rfl fun v hreg hslow => ⟨hreg, hslow, fun y hy => ?_⟩
    unfold Owes
    rw [hv]
    simp
  | unlock hd =>
    exact h.setDist hs hd rfl rfl rfl rfl fun v hreg hslow => ⟨hreg, hslow, fun y hy => Iff.rfl⟩
  | @nextSlow i w rest d hd hs' hmap =>
    refine h.setDist hs hd rfl rfl rfl rfl fun v hreg hslow => ?_
    obtain ⟨h1, h2⟩ := List.mem_filter.mp hreg
    refine ⟨h1, ?_, fun y hy => Iff.rfl⟩
    rw [hs', List.mem_cons, not_or]
    exact ⟨of_decide_eq_true h2, hslow⟩
  | @closed i w p d hd =>
    have hmove : Move env a b (b.retire w p) := .retire
    exact h.retire.setDist (single_move hs hmove) hd rfl rfl rfl rfl
      fun v hreg hslow => ⟨hreg, hslow, fun y hy => Iff.rfl⟩
  | finish hd hlock hslow => exact h.finish hs hd hlock hslow

/-! ### A call begins -/

/-- The board after a call of `Distribute` took the lock of the manager. -/
def begin (b : Board) (caller : Caller) (arg : Distribution) : Board :=
  { b with dists := b.dists ++ [.new caller arg b.registered], begun := b.begun ++ [arg] }

theorem single_begin (caller : Caller) (hnil : b.dists = []) : Single (begin b caller arg) := by
  refine single_of_dists (.new caller arg b.registered) ?_ ⟨b.begun, rfl⟩
    (fun w rest hv => (by cases hv)) (fun hu => (by cases hu)) fun w hw => ?_
  · change b.dists ++ _ = _
    rw [hnil]
    rfl
  · rcases hw with hw | ⟨_, hw⟩
    · exact ⟨hw, List.not_mem_nil⟩
    · cases hw

theorem delivered_begin (caller : Caller) (h : Delivered b) (hnil : b.dists = []) :
    Delivered (begin b caller arg) := by
  refine ⟨fun w y hy => (h.behind w y hy).append, fun w hw _ y hy passed hp => ?_⟩
  have hold : Passed b w y.id b.begun := by
    refine Or.inl ⟨rfl, fun d hd => ?_⟩
    rw [hnil] at hd
    cases hd
  have howes : ∀ d ∈ (begin b caller arg).dists, Owes d w y.id ∧ d.arg = arg := by
    intro d hd
    change d ∈ b.dists ++ _ at hd
    rw [hnil] at hd
    rw [List.mem_singleton.mp hd]
    exact ⟨Or.inl hw, rfl⟩
  have hslow : ∀ d ∈ b.dists, w ∉ d.slow := by
    rw [hnil]
    exact fun d hd => (by cases hd)
  rcases hp with ⟨-, hno⟩ | ⟨d, hd, -, hbs⟩
  · exact absurd (howes _ (List.mem_append_right _ List.mem_cons_self)).1
      (hno _ (List.mem_append_right _ List.mem_cons_self))
  · rw [(howes d hd).2] at hbs
    obtain rfl := List.append_cancel_right hbs
    exact h.upTo w hw hslow y hy _ hold

end Netsy.Watch.Delivery
