import Netsy.Watch.Notices

/-! # The compaction scheduler

`runCompactionCycle` asks every registered node for the lowest revision that it still needs, and
proposes the revision below the lowest of the answers. A node with watches answers with the lowest
of their start revisions, which a client may choose far in the future. -/

namespace Netsy.Primary.CompactionCycle

open Lib.Run Watch.Admission
open Watch.Hub (Subscription)
open Watch.Notices (Node createsWatch emptyEnv)

/-- The running minimum of the source: a negative number stands for no value yet. -/
def lower (lowest revision : ℤ) : ℤ :=
  if lowest < 0 ∨ revision < lowest then revision else lowest

/-- What the scheduler meets at a registered node. -/
structure Registered where
  /-- The registration has a `PeerAdvertiseAddress`. -/
  hasAddress : Bool := true
  /-- The node answers the query. -/
  answers : Bool := true
  /-- The watches of each watcher when the query reads them. -/
  watches : List (List Subscription)
  committed : ℤ
  /-- The first and the second notice are confirmed. -/
  confirms : Bool × Bool := (true, true)

def minWatchRevision (watches : List (List Subscription)) : ℤ :=
  (watches.flatten.map fun y => y.entry.startRevision).foldl lower (-1)

/-- `GetMinWatchRevision`. -/
def Registered.minRevision (n : Registered) : ℤ :=
  if minWatchRevision n.watches < 0 then n.committed else minWatchRevision n.watches

/-- The loop over the registrations; `none` is an aborted cycle. -/
def globalMin : List Registered → ℤ → Option ℤ
  | [], lowest => some lowest
  | n :: rest, lowest =>
    if !n.hasAddress || !n.answers then none else globalMin rest (lower lowest n.minRevision)

/-- What a cycle sends and stores. -/
structure Outcome where
  proposed : Option ℤ := none
  notices : List ℤ := []
  persisted : Option ℤ := none
  broadcast : Option ℤ := none
deriving DecidableEq, Repr

/-- The compaction revisions of a cycle. -/
def Outcome.revisions (o : Outcome) : List ℤ :=
  o.proposed.toList ++ o.notices ++ o.persisted.toList ++ o.broadcast.toList

/-- Notices are sent before the rest. -/
def Outcome.after (o : Outcome) (notices : List ℤ) : Outcome :=
  { o with notices := notices ++ o.notices }

/-- `runCompactionProtocol`, when `confirmed` nodes have confirmed. -/
def runCompactionProtocol (previousCompaction compactionRevision : ℤ) (persistOk : Bool) :
    List Registered → ℕ → Outcome
  | [], _ =>
    if persistOk then
      { proposed := some compactionRevision, persisted := some compactionRevision
        broadcast := some compactionRevision }
    else { proposed := some compactionRevision }
  | n :: rest, confirmed =>
    let next := runCompactionProtocol previousCompaction compactionRevision persistOk rest
      (confirmed + 1)
    if n.confirms.1 then next.after [compactionRevision]
    else if n.confirms.2 then next.after [compactionRevision, compactionRevision]
    -- the nodes that have confirmed are rolled back
    else
      { proposed := some compactionRevision
        notices := [compactionRevision, compactionRevision] ++
          List.replicate confirmed previousCompaction }

/-- What a cycle finds: the state of the Primary and the registrations, `none` if they cannot be
listed. -/
structure Env where
  active : Bool := true
  registrations : Option (List Registered)
  compaction : ℤ
  persistOk : Bool := true

def runCompactionCycle (env : Env) : Outcome :=
  if !env.active then {}
  else
    match env.registrations with
    | none => {}
    | some nodes =>
      if nodes.isEmpty then {}
      else
        match globalMin nodes (-1) with
        | none => {}
        | some lowest =>
          if lowest ≤ 0 then {}
          else if lowest - 1 ≤ 0 then {}
          else if lowest - 1 ≤ env.compaction then {}
          else runCompactionProtocol env.compaction (lowest - 1) env.persistOk nodes 0

/-! ### The watches that can be admitted -/

/-- The node has no negative revision. -/
def Sane (_ : Node) : Watch.Notices.Action → Prop
  | .hub env _ => 0 ≤ env.committed ∧ ∀ row ∈ env.db, 0 ≤ row.revision
  | _ => True

instance (n : Node) : ∀ a, Decidable (Sane n a) := by
  intro a
  unfold Sane
  split <;> infer_instance

/-- The watches of a watcher in some state of a node: those that `CreateWatch` can admit. -/
def Admitted (ws : List Subscription) : Prop :=
  ∃ as n w, Meets Watch.Notices.step Sane .start as ∧ exec Watch.Notices.step .start as = some n ∧
    (n.manager.watchers w).watches = ws

/-- What a watcher has and what it may add is not negative. -/
def Natural (d : Desk) : Prop :=
  (∀ y ∈ d.watches, 0 ≤ y.entry.startRevision) ∧
    match d.creating with
    | some (.received _ latest) | some (.accepted _ latest _) => 0 ≤ latest
    | some (.found r _ _ _) => 0 ≤ r.startRevision
    | _ => True

variable {env : Env} {hubEnv : Watch.Hub.Env} {n n' : Node} {a : Watch.Hub.Action} {d d' : Desk}
variable {floor lowest revision committed previous : ℤ} {rs : List ℤ} {nodes : List Registered}
variable {persistOk : Bool}

theorem natural_change (h : Change hubEnv floor a d d') (hcommitted : 0 ≤ hubEnv.committed)
    (hdb : ∀ row ∈ hubEnv.db, 0 ≤ row.revision) (hd : Natural d) : Natural d' := by
  obtain ⟨hwatches, hcreating⟩ := hd
  cases h with
  | keep => exact ⟨hwatches, hcreating⟩
  | answered => exact ⟨hwatches, trivial⟩
  | fewer hc =>
    refine ⟨fun y hy => hwatches y (List.mem_of_mem_filter hy), ?_⟩
    rcases hc with rfl | rfl
    · exact hcreating
    · trivial
  | received => exact ⟨hwatches, hcommitted⟩
  | accepted h =>
    rw [h] at hcreating
    exact ⟨hwatches, hcreating⟩
  | found h hstart =>
    rw [h] at hcreating
    refine ⟨hwatches, ?_⟩
    rcases hstart with hzero | hfuture | ⟨row, hrow, he⟩
    · exact hzero.ge
    · exact (le_trans hcreating hfuture.le :)
    · exact ((hdb row hrow).trans he.le :)
  | added ha h hy hfloor =>
    rw [h] at hcreating
    refine ⟨fun z hz => ?_, trivial⟩
    rcases List.mem_append.mp hz with hz | hz
    · exact hwatches z hz
    · obtain rfl := List.mem_singleton.mp hz
      exact hy ▸ hcreating

/-- Every watcher of the node is so. -/
def Natural.All (n : Node) : Prop := ∀ w, Natural (desk (n.manager.watchers w))

theorem natural_hub (h : Natural.All n) (hok : Sane n (.hub hubEnv a))
    (hs : n.hub hubEnv a = some n') : Natural.All n' := by
  unfold Node.hub at hs
  split_ifs at hs with hguard
  obtain ⟨m, hstep, rfl⟩ := Option.map_eq_some_iff.mp hs
  rw [Bool.or_eq_true, not_or, Bool.not_eq_true] at hguard
  have hch := changes_of_step hguard.1 hstep
  exact fun w => natural_change (hch.desks w) hok.1 hok.2 (h w)

theorem natural_step {a : Watch.Notices.Action} (h : Natural.All n) (hok : Sane n a)
    (hs : Watch.Notices.step n a = some n') : Natural.All n' := by
  cases a with
  | hub env a => exact natural_hub h hok hs
  | distribute caller arg =>
    cases hs
    exact h
  | begin revision =>
    cases hs
    exact h
  | store i =>
    obtain ⟨x, -, hs⟩ := Option.bind_eq_some_iff.mp hs
    split_ifs at hs
    cases hs
    exact h
  | check i w =>
    obtain ⟨x, -, hs⟩ := Option.bind_eq_some_iff.mp hs
    split at hs
    · split_ifs at hs <;> cases hs
      · exact h
      · exact h
    · cases hs
  | rollback i =>
    obtain ⟨x, -, hs⟩ := Option.bind_eq_some_iff.mp hs
    split_ifs at hs
    cases hs
    exact h
  | confirm i =>
    obtain ⟨x, -, hs⟩ := Option.bind_eq_some_iff.mp hs
    split_ifs at hs
    cases hs
    exact h

theorem Admitted.nonneg {ws : List Subscription} (h : Admitted ws) :
    ∀ y ∈ ws, 0 ≤ y.entry.startRevision := by
  obtain ⟨as, n, w, hok, hrun, rfl⟩ := h
  have hstart : Natural.All .start := fun _ => ⟨fun y hy => (by cases hy), trivial⟩
  exact (exec_invariant (fun _ _ _ h hok hs => natural_step h hok hs) hstart hok hrun w).1

/-! ### The minimum -/

theorem lower_of_nonneg (h : 0 ≤ lowest) : lower lowest revision = min lowest revision := by
  unfold lower
  split_ifs with hc <;> omega

theorem foldl_lower_le_iff (h : 0 ≤ lowest) (hrs : ∀ r ∈ rs, 0 ≤ r) :
    0 ≤ rs.foldl lower lowest ∧
      (rs.foldl lower lowest ≤ revision ↔ lowest ≤ revision ∨ ∃ r ∈ rs, r ≤ revision) := by
  induction rs generalizing lowest with
  | nil => simpa using h
  | cons r rs ih =>
    have hr : 0 ≤ r := hrs r List.mem_cons_self
    rw [List.foldl_cons, lower_of_nonneg h]
    obtain ⟨hpos, hiff⟩ := ih (le_min h hr) fun x hx => hrs x (List.mem_cons_of_mem r hx)
    refine ⟨hpos, hiff.trans ?_⟩
    simp only [min_le_iff, List.mem_cons, exists_eq_or_imp, or_assoc]

theorem lowest_le_iff (revision : ℤ) (hrs : ∀ r ∈ rs, 0 ≤ r) (hne : rs ≠ []) :
    0 ≤ rs.foldl lower (-1) ∧ (rs.foldl lower (-1) ≤ revision ↔ ∃ r ∈ rs, r ≤ revision) := by
  cases rs with
  | nil => exact absurd rfl hne
  | cons r rs =>
    have hfirst : lower (-1) r = r := if_pos (Or.inl (by decide))
    simp only [List.foldl_cons, hfirst, List.mem_cons, exists_eq_or_imp]
    exact foldl_lower_le_iff (hrs r List.mem_cons_self) fun x hx =>
      hrs x (List.mem_cons_of_mem r hx)

/-- The node still needs this revision or a lower one: a watch starts there, or it has no watch and
has not committed more. -/
def Registered.Needs (n : Registered) (revision : ℤ) : Prop :=
  (∃ y ∈ n.watches.flatten, y.entry.startRevision ≤ revision) ∨
    (n.watches.flatten = [] ∧ n.committed ≤ revision)

instance (n : Registered) (revision : ℤ) : Decidable (n.Needs revision) :=
  inferInstanceAs (Decidable (_ ∨ _))

/-- What a registered node can be. -/
structure Registered.Valid (n : Registered) : Prop where
  committed : 0 ≤ n.committed
  admitted : ∀ ws ∈ n.watches, Admitted ws

theorem minRevision_le_iff {n : Registered} (revision : ℤ) (h : n.Valid) :
    0 ≤ n.minRevision ∧ (n.minRevision ≤ revision ↔ n.Needs revision) := by
  unfold Registered.minRevision Registered.Needs minWatchRevision
  by_cases hnil : n.watches.flatten = []
  · simp [hnil, h.committed]
  · have hrs : ∀ r ∈ n.watches.flatten.map fun y => y.entry.startRevision, 0 ≤ r := by
      intro r hr
      obtain ⟨y, hy, rfl⟩ := List.mem_map.mp hr
      obtain ⟨ws, hws, hy⟩ := List.mem_flatten.mp hy
      exact (h.admitted ws hws).nonneg y hy
    obtain ⟨hpos, hiff⟩ := lowest_le_iff revision hrs (by simpa using hnil)
    rw [if_neg (not_lt.mpr hpos)]
    refine ⟨hpos, hiff.trans ⟨?_, ?_⟩⟩
    · rintro ⟨r, hr, hle⟩
      obtain ⟨y, hy, rfl⟩ := List.mem_map.mp hr
      exact Or.inl ⟨y, hy, hle⟩
    · rintro (⟨y, hy, hle⟩ | ⟨hempty, -⟩)
      · exact ⟨_, List.mem_map_of_mem hy, hle⟩
      · exact absurd hempty hnil

theorem globalMin_eq : globalMin nodes lowest =
    if ∃ n ∈ nodes, n.hasAddress = false ∨ n.answers = false then none
    else some ((nodes.map Registered.minRevision).foldl lower lowest) := by
  induction nodes generalizing lowest with
  | nil => simp [globalMin]
  | cons n rest ih =>
    unfold globalMin
    by_cases hn : n.hasAddress = false ∨ n.answers = false
    · rw [if_pos (by simpa using hn), if_pos ⟨n, List.mem_cons_self, hn⟩]
    · rw [if_neg (by simpa using hn), ih]
      simp [hn]

/-! ### The protocol -/

/-- A cycle that proposes a revision sends and stores this one and, to roll back, the previous
one. -/
theorem mem_revisions_protocol {confirmed : ℕ} {r : ℤ}
    (h : r ∈ (runCompactionProtocol previous revision persistOk nodes confirmed).revisions) :
    r = revision ∨ r = previous := by
  induction nodes generalizing confirmed with
  | nil =>
    unfold runCompactionProtocol Outcome.revisions at h
    split_ifs at h <;> exact Or.inl (by simpa using h)
  | cons n rest ih =>
    have hafter : ∀ (o : Outcome) (l : List ℤ), r ∈ (o.after l).revisions →
        r ∈ l ∨ r ∈ o.revisions := by
      intro o l hr
      simp only [Outcome.after, Outcome.revisions, List.mem_append] at hr ⊢
      tauto
    unfold runCompactionProtocol at h
    dsimp only at h
    split_ifs at h
    · rcases hafter _ _ h with h | h
      · exact Or.inl (List.mem_singleton.mp h)
      · exact ih h
    · rcases hafter _ _ h with h | h
      · exact Or.inl (by simpa using h)
      · exact ih h
    · simp only [Outcome.revisions, List.mem_append, List.mem_replicate] at h
      rcases h with ((h | h | h) | h) | h
      · exact Or.inl (by simpa using h)
      · exact Or.inl (by simpa using h)
      · exact Or.inr h.2
      · simp at h
      · simp at h

theorem proposed_protocol {confirmed : ℕ} :
    (runCompactionProtocol previous revision persistOk nodes confirmed).proposed =
      some revision := by
  induction nodes generalizing confirmed with
  | nil =>
    unfold runCompactionProtocol
    split_ifs <;> rfl
  | cons n rest ih =>
    unfold runCompactionProtocol
    dsimp only
    split_ifs
    · exact ih
    · exact ih
    · rfl

/-- Nothing leads the cycle above the committed revision: it ends early, or some node still needs a
revision that bounds it. -/
def Bounded (env : Env) (committed : ℤ) : Prop :=
  env.active = false ∨ ∀ nodes ∈ env.registrations, nodes = [] ∨
    (∃ n ∈ nodes, n.hasAddress = false ∨ n.answers = false) ∨
    ∃ n ∈ nodes, n.Needs (max committed env.compaction + 1)

theorem lowest_answer_le_iff (revision : ℤ) (hne : nodes ≠ []) (hvalid : ∀ n ∈ nodes, n.Valid) :
    (nodes.map Registered.minRevision).foldl lower (-1) ≤ revision ↔
      ∃ n ∈ nodes, n.Needs revision := by
  have hrs : ∀ r ∈ nodes.map Registered.minRevision, 0 ≤ r := by
    intro r hr
    obtain ⟨n, hn, rfl⟩ := List.mem_map.mp hr
    exact (minRevision_le_iff 0 (hvalid n hn)).1
  rw [(lowest_le_iff revision hrs (by simpa using hne)).2]
  constructor
  · rintro ⟨r, hr, hle⟩
    obtain ⟨n, hn, rfl⟩ := List.mem_map.mp hr
    exact ⟨n, hn, (minRevision_le_iff revision (hvalid n hn)).2.mp hle⟩
  · rintro ⟨n, hn, hneeds⟩
    exact ⟨_, List.mem_map_of_mem hn, (minRevision_le_iff revision (hvalid n hn)).2.mpr hneeds⟩

theorem revisions_idle : (({} : Outcome).revisions) = [] := rfl

/-- **The compaction revision stays at or below the committed revision**, in what a cycle proposes,
sends, stores and broadcasts, exactly if it is bounded. -/
theorem cycle_below_committed_iff (hcommitted : 0 ≤ committed)
    (hvalid : ∀ nodes ∈ env.registrations, ∀ n ∈ nodes, n.Valid) :
    (∀ r ∈ (runCompactionCycle env).revisions, r ≤ committed) ↔ Bounded env committed := by
  unfold Bounded runCompactionCycle
  cases hactive : env.active with
  | false => simp [revisions_idle]
  | true =>
    cases hreg : env.registrations with
    | none => simp [revisions_idle]
    | some nodes =>
      by_cases hne : nodes = []
      · simp [hne, revisions_idle]
      by_cases hbad : ∃ n ∈ nodes, n.hasAddress = false ∨ n.answers = false
      · refine iff_of_true ?_ (Or.inr fun nodes' hn => ?_)
        · simp [hne, globalMin_eq, if_pos hbad, revisions_idle]
        · cases hn
          exact Or.inr (Or.inl hbad)
      have hlowest := lowest_answer_le_iff (max committed env.compaction + 1) hne
        (hvalid nodes hreg)
      simp only [Bool.not_true, Bool.false_eq_true, if_false, List.isEmpty_iff, hne, globalMin_eq,
        hbad, Option.mem_def, Option.some.injEq, forall_eq', false_or, ← hlowest, reduceCtorEq]
      -- what is left is to compare the lowest answer with the two revisions
      generalize (nodes.map Registered.minRevision).foldl lower (-1) = lowest
      split_ifs with h1 h2 h3
      · exact iff_of_true (by simp [revisions_idle]) (by omega)
      · exact iff_of_true (by simp [revisions_idle]) (by omega)
      · exact iff_of_true (by simp [revisions_idle]) (by omega)
      · constructor
        · intro hall
          have hprop := hall (lowest - 1) (by simp [Outcome.revisions, proposed_protocol])
          omega
        · intro hle r hr
          rcases mem_revisions_protocol hr with rfl | rfl <;> omega

theorem exists_admitted (startRevision : ℤ)
    (h : (exec Watch.Notices.step .start
      (.hub emptyEnv .register :: createsWatch 1 startRevision)).any (fun n =>
        (n.manager.watchers 1).watches.map (fun y => y.entry.startRevision) = [startRevision]))
    (hsane : Meets Watch.Notices.step Sane .start
      (.hub emptyEnv .register :: createsWatch 1 startRevision)) :
    ∃ y, Admitted [y] ∧ y.entry.startRevision = startRevision := by
  obtain ⟨n, hrun, hwatches⟩ := exists_exec_of_any Watch.Notices.step .start _ (fun n =>
    (n.manager.watchers 1).watches.map (fun y => y.entry.startRevision) = [startRevision]) h
  obtain ⟨y, hy, hstart⟩ := List.map_eq_singleton_iff.mp hwatches
  exact ⟨y, ⟨_, n, 1, hsane, hrun, hy⟩, hstart⟩

/-- What the scheduler of a Primary with revision 3 committed finds at a node with one watch. -/
def oneWatch (y : Subscription) : Env :=
  { registrations := some [{ watches := [[y]], committed := 3 }], compaction := 0 }

/-- A watch from revision 3 on keeps the proposal at revision 2. -/
theorem cycle_below_committed_past : ∃ y, Admitted [y] ∧
    (runCompactionCycle (oneWatch y)).proposed = some 2 ∧
    ∀ r ∈ (runCompactionCycle (oneWatch y)).revisions, r ≤ 3 := by
  obtain ⟨y, hy, hstart⟩ := exists_admitted 3 (by decide +kernel)
    (by decide +kernel)
  have hvalid : ∀ nodes ∈ (oneWatch y).registrations, ∀ n ∈ nodes, n.Valid := by
    rintro _ ⟨⟩ n hn
    obtain rfl := List.mem_singleton.mp hn
    exact ⟨(by decide : (0 : ℤ) ≤ 3), fun ws hws => List.mem_singleton.mp hws ▸ hy⟩
  have hbounded : Bounded (oneWatch y) 3 := by
    refine Or.inr ?_
    rintro _ ⟨⟩
    refine Or.inr (Or.inr ⟨_, List.mem_singleton_self _, Or.inl ⟨y, by simp, ?_⟩⟩)
    exact hstart.trans_le (by decide : (3 : ℤ) ≤ max 3 0 + 1)
  refine ⟨y, hy, ?_, (cycle_below_committed_iff (by decide) hvalid).mpr hbounded⟩
  simp [runCompactionCycle, oneWatch, globalMin, Registered.minRevision, minWatchRevision, hstart,
    lower, runCompactionProtocol, Outcome.after]

/-- A watch from revision 100 on: the Primary, which has committed revision 3, proposes revision 99,
sends it, stores it and broadcasts it. -/
theorem cycle_above_committed_future : ∃ y, Admitted [y] ∧
    runCompactionCycle (oneWatch y) =
      { proposed := some 99, notices := [99], persisted := some 99, broadcast := some 99 } := by
  obtain ⟨y, hy, hstart⟩ := exists_admitted 100 (by decide +kernel)
    (by decide +kernel)
  refine ⟨y, hy, ?_⟩
  simp [runCompactionCycle, oneWatch, globalMin, Registered.minRevision, minWatchRevision, hstart,
    lower, runCompactionProtocol, Outcome.after]

end Netsy.Primary.CompactionCycle
