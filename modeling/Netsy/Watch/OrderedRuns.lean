import Netsy.Watch.HandOver

/-! # Runs in order

In a run in which the records are numbered in one place at a time and handed to the watch manager
in order, every watch is sent the records that match it in ascending order, without a gap, and, once
the node has handed over all it has, completely. -/

namespace Netsy.Watch.OrderedRuns

open Proto Lib.SortedList
open Primary.LeaderTxn (Config Server)
open Primary.Outcomes (view)
open Watch.Match Watch.Hub Watch.Moves Watch.Delivery
open Watch.System Watch.System.Node Watch.Revisions Watch.HandOver

/-- A watch was added after the calls it does not count had been logged. -/
def Late (start : List Record) (b : Board) : Prop :=
  ∀ w, ∀ y ∈ (b.faces w).all, start.length + y.first ≤ y.since

/-- What holds in a run in order. -/
structure Ordered (alone : Prop) (start : List Record) (n : Node) : Prop where
  counts : Counts alone n
  flow : Flow start n
  tidy : Tidy (board n.manager)
  single : Single (board n.manager)
  delivered : Delivered (board n.manager)
  late : Late start (board n.manager)

variable {alone : Prop} {start : List Record} {c : Config} {n n' : Node} {r : Record}
variable {env : Hub.Env} {a : Hub.Action} {b b' : Board} {w : ℕ} {y : Subscription}

/-! ### The steps -/

theorem all_setFace {v : ℕ} {f : Face} (hy : y ∈ ((b.setFace w f).faces v).all)
    (hf : ∀ y ∈ f.all, y ∈ (b.faces w).all) : y ∈ (b.faces v).all :=
  Board.forall_setFace (P := fun v g => y ∈ g.all → y ∈ (b.faces v).all) (hf y)
    (fun _ _ => id) v hy

theorem all_move (h : Move env a b b') (hy : y ∈ (b'.faces w).all) :
    y ∈ (b.faces w).all ∨ (a = .add w ∧ y.since = env.log ∧
      y.first = (b.begun.length - b.dists.countP fun d => w ∈ d.todo) ∧
      ∃ r, (b.faces w).reserved = some (r, y.id) ∧ y.entry = Manager.watchData r) := by
  cases h with
  | @add v r y' ha hres hentry hsince hfirst _ =>
    by_cases hv : w = v
    · subst hv
      rw [Board.faces_setFace_self] at hy
      simp only [Face.all, List.mem_append, List.mem_singleton] at hy
      rcases hy with (hy | rfl) | hy
      · exact Or.inl (List.mem_append_left _ hy)
      · exact Or.inr ⟨ha, hsince, hfirst, r, hres, hentry⟩
      · exact Or.inl (List.mem_append_right _ hy)
    · rw [Board.faces_setFace_of_ne _ _ hv] at hy
      exact Or.inl hy
  | register => exact Or.inl (all_setFace hy fun _ hy => (by cases hy))
  | reserve => exact Or.inl (all_setFace hy fun _ hy => hy)
  | release => exact Or.inl (all_setFace hy fun _ hy => hy)
  | push => exact Or.inl (all_setFace hy fun _ hy => hy)
  | report => exact Or.inl (all_setFace hy fun _ hy => hy)
  | retire => exact Or.inl (mem_retire.mp hy)
  | closed => exact Or.inl (mem_retire.mp hy)
  | keep => exact Or.inl hy
  | unregister => exact Or.inl hy
  | enter => exact Or.inl hy
  | pass => exact Or.inl hy
  | slow => exact Or.inl hy
  | leave => exact Or.inl hy
  | unlock => exact Or.inl hy
  | nextSlow => exact Or.inl hy
  | finish => exact Or.inl hy
  | reports => exact Or.inl hy

theorem length_le_of_flow (h : Flow start n) :
    start.length + n.manager.begun.length ≤ n.log.length := by
  obtain ⟨rs, -, -, hlog⟩ := h.log
  rw [hlog]
  simp only [List.length_append, List.length_map]
  omega

theorem late_move (hlog : start.length + b.begun.length ≤ env.log) (h : Late start b)
    (hm : Move env a b b') : Late start b' := by
  intro w y hy
  rcases all_move hm hy with hy | ⟨-, hsince, hfirst, -⟩
  · exact h w y hy
  · omega

theorem Ordered.of_manager (h : Ordered alone start n) (hcounts : Counts alone n')
    (hflow : Flow start n') (hm : n'.manager = n.manager) : Ordered alone start n' := by
  refine ⟨hcounts, hflow, ?_, ?_, ?_, ?_⟩ <;> rw [hm]
  · exact h.tidy
  · exact h.single
  · exact h.delivered
  · exact h.late

theorem Ordered.begin {caller : Caller} {arg : Distribution} (h : Ordered alone start n)
    (hcounts : Counts alone n') (hflow : Flow start n') (hnil : n.manager.dists = [])
    (hm : n'.manager = n.manager.distribute caller arg) : Ordered alone start n' := by
  refine ⟨hcounts, hflow, ?_, ?_, ?_, ?_⟩ <;> rw [hm]
  · exact h.tidy.of_faces rfl rfl
  · exact single_begin (b := board n.manager) caller hnil
  · exact delivered_begin caller h.delivered hnil
  · exact h.late

theorem manager_of_move {a : System.Action} (h : move c n a = some n') :
    n'.manager = n.manager ∨
      (∃ caller arg, n'.manager = n.manager.distribute caller arg ∧
        ((∃ i prevOk, a = .distribute i prevOk) ∨
          ∃ readOk prevOk, a = .distributeFromDB readOk prevOk)) ∨
      ∃ b, a = .watch b ∧ Hub.step n.env n.manager b = some n'.manager := by
  cases a with
  | distribute i prevOk =>
    obtain ⟨r, -, rfl⟩ := Option.map_eq_some_iff.mp h
    exact Or.inr (Or.inl ⟨_, _, rfl, Or.inl ⟨i, prevOk, rfl⟩⟩)
  | distributeFromDB readOk prevOk =>
    obtain ⟨revision, rest, -, -, ⟨-, rfl⟩ | ⟨r, -, -, rfl⟩⟩ := distributeFromDB_eq_some h
    · exact Or.inl rfl
    · exact Or.inr (Or.inl ⟨_, _, rfl, Or.inr ⟨readOk, prevOk, rfl⟩⟩)
  | watch b =>
    obtain ⟨m, hstep, rfl⟩ := Option.map_eq_some_iff.mp h
    exact Or.inr (Or.inr ⟨b, rfl, hstep⟩)
  | txn a =>
    obtain ⟨s, -, rfl⟩ := Option.map_eq_some_iff.mp h
    exact Or.inl rfl
  | elected =>
    obtain ⟨-, rfl⟩ : _ ∧ _ = n' := by simpa [move, Node.elected] using h
    exact Or.inl rfl
  | dismissed =>
    obtain ⟨-, rfl⟩ : _ ∧ _ = n' := by simpa [move, Node.dismissed] using h
    exact Or.inl rfl
  | preflight env =>
    obtain ⟨-, -, p, -, rfl | ⟨-, rfl⟩⟩ := preflight_eq_some h
    · exact Or.inl rfl
    · exact Or.inl rfl
  | connect =>
    obtain ⟨-, rfl⟩ : _ ∧ _ = n' := by simpa [move, Node.connect] using h
    exact Or.inl rfl
  | message now msg =>
    obtain ⟨-, pending, -, -, rfl⟩ := message_eq_some h
    exact Or.inl rfl
  | compact now revision =>
    obtain ⟨-, rfl⟩ : _ ∧ _ = n' := by simpa [move, Node.compact] using h
    exact Or.inl rfl

theorem dists_of_inOrder {a : System.Action} (hok : InOrder n a)
    (ha : (∃ i prevOk, a = .distribute i prevOk) ∨
      ∃ readOk prevOk, a = .distributeFromDB readOk prevOk) : n.manager.dists = [] := by
  rcases ha with ⟨i, prevOk, rfl⟩ | ⟨readOk, prevOk, rfl⟩
  · exact hok.2.2
  · exact hok.1

theorem ordered_step {a : System.Action} (h : Ordered alone start n)
    (hok : Numbered alone n a ∧ InOrder n a) (hs : System.step c n a = some n') :
    Ordered alone start n' := by
  obtain ⟨n₁, hmove, rfl⟩ := Option.map_eq_some_iff.mp hs
  have hcounts : Counts alone { n₁ with log := n.log ++ n.newlyCommitted n₁ } :=
    (counts_move h.counts hok.1 hmove).of_eq rfl rfl
  have hflow := flow_move h.flow h.counts hok.1 hok.2 hmove
  rcases manager_of_move hmove with hm | ⟨caller, arg, hm, ha⟩ | ⟨b, -, hstep⟩
  · exact h.of_manager hcounts hflow hm
  · exact h.begin hcounts hflow (dists_of_inOrder hok.2 ha) hm
  · have hm := move_of_step hstep
    exact ⟨hcounts, hflow, tidy_move h.tidy hm, single_move h.single hm,
      delivered_move h.delivered h.tidy h.single hm, late_move (length_le_of_flow h.flow) h.late hm⟩

/-! ### The start -/

theorem tidy_new : Tidy (board .new) :=
  ⟨fun _ _ hy => (by cases hy), fun _ => List.nodup_nil, fun _ _ hmsg => (by cases hmsg),
    fun _ _ hq => (by cases hq)⟩

theorem delivered_new : Delivered (board .new) :=
  ⟨fun _ _ hy => (by cases hy), fun _ hw => (by cases hw)⟩

theorem flow_start {s : Server} {compactions} (hgate : s.gate = none) :
    Flow (Node.start s compactions).log (Node.start s compactions) := by
  have hst : (view s).stage = none := stage_of_gate (n := Node.start s compactions) hgate
  refine ⟨⟨[], rfl, fun _ hr => (by cases hr), ?_⟩, ascending_filter s.db.sorted _, fun r hr => ?_,
    fun r hr => ?_, List.nodup_nil⟩
  · change _ = _ ++ [] ++ [] ++ [] ++ upcoming (view s).stage none
    rw [hst]
    simp [upcoming]
  · exact of_decide_eq_true (List.mem_filter.mp hr).2
  · exact absurd (hst.symm.trans hr) (by simp)

theorem ordered_start {s : Server} {compactions} (hgate : s.gate = none)
    (hcounts : Counts alone (Node.start s compactions)) :
    Ordered alone (Node.start s compactions).log (Node.start s compactions) :=
  ⟨hcounts, flow_start hgate, tidy_new, single_of_nil rfl, delivered_new,
    fun _ _ hy => (by cases hy)⟩

/-! ### What the watches are sent -/

/-- What matches a watch among the calls that passed its watcher since it was added. -/
def answers (m : Manager) (y : Subscription) : List WatchResponse :=
  (m.begun.drop y.first).filterMap (answer y)

theorem answer_eq_some {d : Distribution} {msg : WatchResponse} :
    answer y d = some msg ↔ isWatchMatch y.entry d.record = some true ∧ msg = outMsg y d := by
  unfold answer
  split_ifs with hm
  · simp [hm, eq_comm]
  · simp [hm]

theorem mem_answers {m : Manager} {msg : WatchResponse} :
    msg ∈ answers m y ↔ ∃ d ∈ m.begun.drop y.first,
      isWatchMatch y.entry d.record = some true ∧ msg = outMsg y d := by
  unfold answers
  rw [List.mem_filterMap]
  simp only [answer_eq_some]

theorem ascending_answers (h : Flow start n) :
    Ascending WatchResponse.revision (answers n.manager y) := by
  obtain ⟨rs, -, -, hlog⟩ := h.log
  have hbegun : Ascending Record.revision (n.manager.begun.map Distribution.record) := by
    have hsub : (n.manager.begun.map Distribution.record).Sublist n.log := by
      rw [hlog]
      simp only [List.append_assoc]
      exact (List.sublist_append_left _ _).trans (List.sublist_append_right _ _)
    exact List.Pairwise.sublist hsub h.sorted
  have hdrop := List.Pairwise.sublist (List.drop_sublist y.first _) (List.pairwise_map.mp hbegun)
  refine List.pairwise_filterMap.mpr (hdrop.imp fun {d d'} hlt msg hmsg msg' hmsg' => ?_)
  rw [(answer_eq_some.mp hmsg).2, (answer_eq_some.mp hmsg').2]
  exact hlt

theorem Ordered.eventsOf_isPrefix (h : Ordered alone start n)
    (hy : y ∈ (face (n.manager.watchers w)).all) :
    eventsOf y.id (n.manager.watchers w).placed <+: answers n.manager y :=
  (h.delivered.behind w y hy).events

theorem Ordered.ascending (h : Ordered alone start n)
    (hy : y ∈ (face (n.manager.watchers w)).all) :
    Ascending WatchResponse.revision (eventsOf y.id (n.manager.watchers w).placed) :=
  List.Pairwise.sublist (h.eventsOf_isPrefix hy).sublist (ascending_answers h.flow)

theorem Ordered.exists_record {msg : WatchResponse} (h : Ordered alone start n)
    (hy : y ∈ (face (n.manager.watchers w)).all)
    (hmsg : msg ∈ eventsOf y.id (n.manager.watchers w).placed) :
    ∃ r ∈ n.log, ∃ prev, isWatchMatch y.entry r = some true ∧ msg = outMsg y ⟨r, prev⟩ := by
  obtain ⟨d, hd, hm, rfl⟩ := mem_answers.mp ((h.eventsOf_isPrefix hy).subset hmsg)
  obtain ⟨rs, -, -, hlog⟩ := h.flow.log
  refine ⟨d.record, ?_, d.prevRecord, hm, rfl⟩
  have hin : d.record ∈ n.manager.begun.map Distribution.record :=
    List.mem_map_of_mem (List.mem_of_mem_drop hd)
  rw [hlog]
  simp [hin]

/-- A record that was committed after the watch was added has been handed over, or is still to be
handed over and above everything that was. -/
theorem Ordered.handed (h : Ordered alone start n) (hy : y ∈ (face (n.manager.watchers w)).all)
    (hr : r ∈ n.log.drop y.since) :
    (∃ d ∈ n.manager.begun.drop y.first, d.record = r) ∨
      ((∀ d ∈ n.manager.begun, d.record.revision < r.revision) ∧
        ¬ (n.ready = [] ∧ n.returned = [] ∧ n.server.gate = none)) := by
  obtain ⟨rs, hrs, -, hlog⟩ := h.flow.log
  have hlate := h.late w y hy
  have hsorted := h.flow.sorted
  set records := n.manager.begun.map Distribution.record with hrecords
  set rest := rs ++ n.returned ++ upcoming (view n.server).stage n.inserted with hrest
  have hsplit : n.log = start ++ (records ++ rest) := by
    rw [hlog]
    simp [hrest]
  have hdrop : r ∈ records.drop y.first ++ rest := by
    have hk : r ∈ (n.log.drop (start.length + y.first)) := by
      refine (List.Sublist.subset ?_) hr
      exact List.drop_sublist_drop_left _ hlate
    rw [hsplit, ← List.drop_drop, List.drop_left, List.drop_append] at hk
    rcases List.mem_append.mp hk with hk | hk
    · exact List.mem_append_left _ hk
    · exact List.mem_append_right _ (List.mem_of_mem_drop hk)
  rcases List.mem_append.mp hdrop with hin | hin
  · rw [hrecords, ← List.map_drop] at hin
    obtain ⟨d, hd, he⟩ := List.mem_map.mp hin
    exact Or.inl ⟨d, hd, he⟩
  · refine Or.inr ⟨fun d hd => ?_, ?_⟩
    · rw [hsplit] at hsorted
      have hmid := (List.pairwise_append.mp hsorted).2.1
      exact (List.pairwise_append.mp hmid).2.2 d.record (List.mem_map_of_mem hd) r hin
    · rintro ⟨hready, hret, hgate⟩
      rw [hready] at hrs
      rw [hrest, List.map_eq_nil_iff.mp hrs, hret, stage_of_gate hgate] at hin
      cases hin

theorem Ordered.no_gap {msg : WatchResponse} (h : Ordered alone start n)
    (hy : y ∈ (face (n.manager.watchers w)).all)
    (hmsg : msg ∈ eventsOf y.id (n.manager.watchers w).placed) (hr : r ∈ n.log.drop y.since)
    (hm : isWatchMatch y.entry r = some true) (hlt : r.revision < msg.revision) :
    ∃ prev, outMsg y ⟨r, prev⟩ ∈ eventsOf y.id (n.manager.watchers w).placed := by
  have hpre := h.eventsOf_isPrefix hy
  rcases h.handed hy hr with ⟨d, hd, rfl⟩ | ⟨habove, -⟩
  · refine ⟨d.prevRecord, mem_of_isPrefix_of_lt (ascending_answers h.flow) hpre hmsg ?_ hlt⟩
    exact mem_answers.mpr ⟨d, hd, hm, rfl⟩
  · obtain ⟨d, hd, -, rfl⟩ := mem_answers.mp (hpre.subset hmsg)
    exact absurd (habove d (List.mem_of_mem_drop hd)) hlt.asymm

/-- The node has handed over all it has, and every call of `Distribute` has returned. -/
def Settled (n : Node) : Prop :=
  n.ready = [] ∧ n.returned = [] ∧ n.server.gate = none ∧ n.manager.dists = []

instance (n : Node) : Decidable (Settled n) := inferInstanceAs (Decidable (_ ∧ _ ∧ _ ∧ _))

theorem Ordered.eventsOf_eq (h : Ordered alone start n) (hsettled : Settled n)
    (hw : w ∈ n.manager.registered) (hy : y ∈ (n.manager.watchers w).watches) :
    eventsOf y.id (n.manager.watchers w).placed = answers n.manager y := by
  have hnone : ∀ d, d ∉ (board n.manager).dists := by
    intro d hd
    change d ∈ n.manager.dists at hd
    rw [hsettled.2.2.2] at hd
    cases hd
  have hpassed : Passed (board n.manager) w y.id n.manager.begun :=
    Or.inl ⟨rfl, fun d hd => absurd hd (hnone d)⟩
  exact (h.delivered.upTo w hw (fun d hd => absurd hd (hnone d)) y hy _ hpassed).events

theorem Ordered.complete (h : Ordered alone start n) (hsettled : Settled n)
    (hw : w ∈ n.manager.registered) (hy : y ∈ (n.manager.watchers w).watches)
    (hr : r ∈ n.log.drop y.since) (hm : isWatchMatch y.entry r = some true) :
    ∃ prev, outMsg y ⟨r, prev⟩ ∈ eventsOf y.id (n.manager.watchers w).placed := by
  rw [h.eventsOf_eq hsettled hw hy]
  obtain ⟨hready, hret, hgate, -⟩ := hsettled
  rcases h.handed (List.mem_append_left _ hy) hr with ⟨d, hd, rfl⟩ | ⟨-, hrest⟩
  · exact ⟨d.prevRecord, mem_answers.mpr ⟨d, hd, hm, rfl⟩⟩
  · exact absurd ⟨hready, hret, hgate⟩ hrest

theorem Ordered.log_eq (h : Ordered alone start n) (hsettled : Settled n) :
    n.log = start ++ n.manager.begun.map Distribution.record := by
  obtain ⟨hready, hret, hgate, -⟩ := hsettled
  obtain ⟨rs, hrs, -, hlog⟩ := h.flow.log
  rw [hready] at hrs
  rw [hlog, List.map_eq_nil_iff.mp hrs, hret, stage_of_gate hgate]
  simp [upcoming]

end Netsy.Watch.OrderedRuns
