import Netsy.Watch.ReplicaDelivery

/-! # Progress notifications

A progress report reads the committed revision, which is advanced before the records up to it are
distributed. What a watch is told is a watermark if a report is written only when nothing up to its
revision has still to come; nothing in the program waits for that. -/

namespace Netsy.Watch.Progress

open Proto Datastore Lib.Run LocalDB.Schema LocalDB.Compaction Primary
open Primary.LeaderTxn (Config Server)
open Primary.Follow (Peers)
open Primary.Outcomes (View view CallStep callStep_of_step)
open Replication.ProcessStream (processMessage)
open Watch.Hub Watch.Moves Watch.Delivery
open Watch.System Watch.System.Node Watch.Revisions Watch.HandOver Watch.ReplicaDelivery

/-- After a progress notification, the watches that it addresses are sent no event at or below its
revision. -/
def Watermarks (placed : List WatchResponse) : Prop :=
  placed.Pairwise fun p e => p.events = [] → e.events ≠ [] →
    (p.watchId = invalidWatchID ∨ p.watchId = e.watchId) → p.revision < e.revision

instance (placed : List WatchResponse) : Decidable (Watermarks placed) :=
  inferInstanceAs (Decidable (List.Pairwise _ _))

/-- The call of `Distribute` may still send to the watcher. -/
def Reaches (d : Dist) (w : ℕ) : Prop := w ∈ d.todo ∨ d.visiting.map Prod.fst = some w

instance (d : Dist) (w : ℕ) : Decidable (Reaches d w) := inferInstanceAs (Decidable (_ ∨ _))

/-- All that may still be sent to the watcher is above the revision. -/
def Below (rest : List ℤ) (dists : List Dist) (w : ℕ) (revision : ℤ) : Prop :=
  (∀ later ∈ rest, revision < later) ∧
    ∀ d ∈ dists, Reaches d w → revision < d.arg.record.revision

instance (rest : List ℤ) (dists : List Dist) (w : ℕ) (revision : ℤ) :
    Decidable (Below rest dists w revision) := inferInstanceAs (Decidable (_ ∧ _))

/-- The revisions that are not distributed yet. -/
def undistributed (n : Node) : List ℤ :=
  n.ready ++ n.pending ++ (n.returned ++ upcoming (view n.server).stage n.inserted).map
    Record.revision

/-- A progress notification is written only if all that may still be sent is above it, the committed
revision is never taken back, and no record arrives at or below it. -/
def Awaited (n : Node) : System.Action → Prop
  | .watch (.placeProgress j _) => ∀ r ∈ n.manager.reports[j]?,
      Below (undistributed n) n.manager.dists r.watcher r.revision
  | .message _ (.record r) => n.server.committed < r.revision
  | .message _ (.initial committed _) => n.server.committed ≤ committed
  | .message _ (.commit committed) => n.server.committed ≤ committed
  | .preflight _ => ∃ r ∈ n.server.db, n.server.committed ≤ r.revision
  | _ => True

instance (n : Node) : ∀ a, Decidable (Awaited n a) := by
  intro a
  induction a using System.Action.casesOn with
  | watch b => induction b using Hub.Action.casesOn <;> unfold Awaited <;> infer_instance
  | message now msg =>
    induction msg using PrimaryMessage.casesOn <;> unfold Awaited <;> infer_instance
  | _ =>
    unfold Awaited
    infer_instance

/-! ### The manager -/

/-- Every notification is at or below the committed revision and below all that may still be
sent. -/
structure Marks (k : ℤ) (rest : List ℤ) (b : Board) : Prop where
  watermarks : ∀ w, Watermarks (b.faces w).placed
  le : ∀ w, ∀ p ∈ (b.faces w).placed, p.events = [] → p.revision ≤ k
  below : ∀ w, ∀ p ∈ (b.faces w).placed, p.events = [] → Below rest b.dists w p.revision
  reports : ∀ r ∈ b.reports, r.revision ≤ k

variable {k k' : ℤ} {rest rest' : List ℤ} {env : Hub.Env} {a : Hub.Action} {b b' : Board}
variable {w i : ℕ} {d d' : Dist} {msg : WatchResponse}

theorem Marks.frame (h : Marks k rest b)
    (hplaced : ∀ w, (b'.faces w).placed = (b.faces w).placed ∨ (b'.faces w).placed = [])
    (hdists : ∀ d' ∈ b'.dists, ∀ w, Reaches d' w → ∃ d ∈ b.dists, Reaches d w ∧ d.arg = d'.arg)
    (hreports : ∀ r ∈ b'.reports, r.revision ≤ k) : Marks k rest b' := by
  have hmem : ∀ w, ∀ p ∈ (b'.faces w).placed, p ∈ (b.faces w).placed := by
    intro w p hp
    rcases hplaced w with he | he <;> rw [he] at hp
    · exact hp
    · cases hp
  refine ⟨fun w => ?_, fun w p hp => h.le w p (hmem w p hp), fun w p hp hprog => ?_, hreports⟩
  · rcases hplaced w with he | he <;> rw [he]
    · exact h.watermarks w
    · exact List.Pairwise.nil
  · obtain ⟨hrest, hall⟩ := h.below w p (hmem w p hp) hprog
    refine ⟨hrest, fun d' hd' hr => ?_⟩
    obtain ⟨d, hd, hr, harg⟩ := hdists d' hd' w hr
    exact harg ▸ hall d hd hr

theorem Marks.mono (h : Marks k rest b) (hk : k ≤ k')
    (hrest : ∀ rev ∈ rest', rev ∈ rest ∨ k < rev) : Marks k' rest' b := by
  refine ⟨h.watermarks, fun w p hp hprog => (h.le w p hp hprog).trans hk,
    fun w p hp hprog => ⟨fun later hl => ?_, (h.below w p hp hprog).2⟩,
    fun r hr => (h.reports r hr).trans hk⟩
  rcases hrest later hl with hl | hl
  · exact (h.below w p hp hprog).1 later hl
  · exact (h.le w p hp hprog).trans_lt hl

theorem Marks.put (h : Marks k rest b)
    (hevent : msg.events ≠ [] → ∀ p ∈ (b.faces w).placed, p.events = [] →
      p.revision < msg.revision)
    (hprog : msg.events = [] → msg.revision ≤ k ∧ Below rest b.dists w msg.revision) :
    Marks k rest (b.put w msg) := by
  have hface : ∀ v, ((b.put w msg).faces v).placed = (b.faces v).placed ∨
      (v = w ∧ ((b.put w msg).faces v).placed = (b.faces v).placed ++ [msg]) :=
    Board.forall_setFace (P := fun v g => g.placed = (b.faces v).placed ∨
      (v = w ∧ g.placed = (b.faces v).placed ++ [msg])) (Or.inr ⟨rfl, rfl⟩) fun _ _ => Or.inl rfl
  refine ⟨fun v => ?_, fun v p hp hp' => ?_, fun v p hp hp' => ?_, h.reports⟩
  · rcases hface v with he | ⟨rfl, he⟩ <;> rw [he]
    · exact h.watermarks v
    · refine List.pairwise_append.mpr ⟨h.watermarks v, List.pairwise_singleton _ _, ?_⟩
      intro p hp e he hp' he' _
      rw [List.mem_singleton.mp he] at he' ⊢
      exact hevent he' p hp hp'
  all_goals
    rcases hface v with he | ⟨rfl, he⟩ <;> rw [he] at hp
  · exact h.le v p hp hp'
  · rcases List.mem_append.mp hp with hp | hp
    · exact h.le v p hp hp'
    · rw [List.mem_singleton.mp hp] at hp' ⊢
      exact (hprog hp').1
  · exact h.below v p hp hp'
  · rcases List.mem_append.mp hp with hp | hp
    · exact h.below v p hp hp'
    · rw [List.mem_singleton.mp hp] at hp' ⊢
      exact (hprog hp').2

theorem placed_setFace {f : Face} (hf : f.placed = (b.faces w).placed ∨ f.placed = []) (v : ℕ) :
    ((b.setFace w f).faces v).placed = (b.faces v).placed ∨
      ((b.setFace w f).faces v).placed = [] :=
  Board.forall_setFace (P := fun v g => g.placed = (b.faces v).placed ∨ g.placed = []) hf
    (fun _ _ => Or.inl rfl) v

theorem reaches_set (hd : b.dists[i]? = some d) (harg : d'.arg = d.arg)
    (hsub : ∀ w, Reaches d' w → Reaches d w) :
    ∀ d₁ ∈ b.dists.set i d', ∀ w, Reaches d₁ w →
      ∃ d₂ ∈ b.dists, Reaches d₂ w ∧ d₂.arg = d₁.arg := by
  intro d₁ hd₁ w hr
  rcases List.mem_or_eq_of_mem_set hd₁ with hd₁ | rfl
  · exact ⟨d₁, hd₁, hr, rfl⟩
  · exact ⟨d, List.mem_of_getElem? hd, hsub w hr, harg.symm⟩

theorem Marks.setDist (h : Marks k rest b) (hd : b.dists[i]? = some d) (harg : d'.arg = d.arg)
    (hsub : ∀ w, Reaches d' w → Reaches d w) : Marks k rest (b.setDist i d') :=
  h.frame (fun _ => Or.inl rfl) (reaches_set hd harg hsub) h.reports

theorem Marks.setFace {f : Face} (h : Marks k rest b) (hfaces : b'.faces = (b.setFace w f).faces)
    (hdists : b'.dists = b.dists) (hreports : b'.reports = b.reports)
    (hf : f.placed = (b.faces w).placed ∨ f.placed = []) : Marks k rest b' := by
  refine h.frame (fun v => ?_) (fun d hd _ hr => ⟨d, hdists ▸ hd, hr, rfl⟩) (hreports ▸ h.reports)
  rw [hfaces]
  exact placed_setFace hf v

theorem Marks.of_reports {rs : List Report} (h : Marks k rest b)
    (hrs : Reported k b.reports rs) : Marks k rest { b with reports := rs } := by
  refine h.frame (fun _ => Or.inl rfl) (fun d hd _ hr => ⟨d, hd, hr, rfl⟩) fun r hr => ?_
  rcases hrs r hr with he | ⟨r', hr', he⟩
  · exact he.le
  · exact he ▸ h.reports r' hr'

/-- **A move keeps the watermarks**, if a notification is written only below all that may still be
sent. -/
theorem marks_move (h : Marks env.committed rest b)
    (hok : ∀ j watchID, a = .placeProgress j watchID → ∀ r ∈ b.reports[j]?,
      Below rest b.dists r.watcher r.revision) (hm : Move env a b b') :
    Marks env.committed rest b' := by
  cases hm with
  | keep => exact h
  | register => exact h.setFace rfl rfl rfl (Or.inr rfl)
  | reserve => exact h.setFace rfl rfl rfl (Or.inl rfl)
  | release => exact h.setFace rfl rfl rfl (Or.inl rfl)
  | add => exact h.setFace rfl rfl rfl (Or.inl rfl)
  | retire => exact h.setFace rfl rfl rfl (Or.inl rfl)
  | unregister =>
    exact h.frame (fun _ => Or.inl rfl) (fun d hd _ hr => ⟨d, hd, hr, rfl⟩) h.reports
  | @enter i w d hd hw hlock hv =>
    refine h.setDist hd rfl fun v hr => ?_
    rcases hr with hr | hr
    · exact Or.inl (List.mem_of_mem_filter hr)
    · obtain rfl : w = v := Option.some.inj hr
      exact Or.inl hw
  | @pass i w rest' d y hd hv hy hrest hmatch =>
    refine h.setDist hd rfl fun v hr => hr.imp_right fun hr => ?_
    rw [hv]
    exact hr
  | @push i w rest' d y hd hv hy hrest hmatch =>
    have hreach : Reaches d w := Or.inr (by rw [hv]; rfl)
    have hput : Marks env.committed rest (b.put w (outMsg y d.arg)) := by
      refine h.put (fun _ p hp hprog => ?_) fun hnil => (by cases hnil)
      exact (h.below w p hp hprog).2 d (List.mem_of_getElem? hd) hreach
    refine hput.setDist hd rfl fun v hr => hr.imp_right fun hr => ?_
    rw [hv]
    exact hr
  | @slow i w rest' d hd hv =>
    exact h.setDist hd rfl fun v hr => hr.imp_right fun hr => (by cases hr)
  | leave hd => exact h.setDist hd rfl fun v hr => hr.imp_right fun hr => (by cases hr)
  | unlock hd => exact h.setDist hd rfl fun v hr => hr
  | @nextSlow i w rest' d hd =>
    have hun : Marks env.committed rest (b.unregister w) :=
      h.frame (fun _ => Or.inl rfl) (fun d hd _ hr => ⟨d, hd, hr, rfl⟩) h.reports
    exact hun.setDist hd rfl fun v hr => hr
  | @closed i w p d hd =>
    have hret : Marks env.committed rest (b.retire w p) :=
      h.setFace rfl rfl rfl (Or.inl rfl)
    exact hret.setDist hd rfl fun v hr => hr
  | finish =>
    exact h.frame (fun _ => Or.inl rfl)
      (fun d hd _ hr => ⟨d, List.mem_of_mem_eraseIdx hd, hr, rfl⟩) h.reports
  | reports hrs => exact h.of_reports hrs
  | @report w j watchID rs r ha hr hw hrs =>
    have hput : Marks env.committed rest (b.put w (Manager.progressMsg r.revision watchID)) := by
      refine h.put (fun hne => absurd rfl hne) fun _ => ?_
      exact ⟨h.reports r (List.mem_of_getElem? hr), hw ▸ hok j watchID ha r hr⟩
    exact hput.of_reports hrs

theorem Marks.begin (caller : Caller) {arg : Distribution} (h : Marks k rest b)
    (harg : arg.record.revision ∈ rest) : Marks k rest (begin b caller arg) := by
  refine ⟨h.watermarks, h.le, fun w p hp hprog => ?_, h.reports⟩
  obtain ⟨hrest, hall⟩ := h.below w p hp hprog
  refine ⟨hrest, fun d hd hr => ?_⟩
  rcases List.mem_append.mp hd with hd | hd
  · exact hall d hd hr
  · rw [List.mem_singleton.mp hd]
    exact hrest _ harg

/-! ### The node -/

variable {alone : Prop} {c : Config} {n n' : Node} {v v' : View} {inserted : Option Record}

theorem mem_upcoming_callStep (h : CallStep v v')
    (hst : ∀ st ∈ v.stage, StageOk v.counters inserted st) {r : Record}
    (hr : r ∈ returnedBy inserted v v' ++ upcoming v'.stage (insertedAfter inserted v v')) :
    r ∈ upcoming v.stage inserted ∨ v.counters.committed < r.revision := by
  cases h with
  | keep =>
    refine Or.inl ?_
    obtain ⟨k, st⟩ := v
    rcases st with - | (_ | _ | _ | _) <;> exact hr
  | acquire => cases hr
  | insert => cases hr
  | commit => cases hr
  | advance =>
    obtain ⟨hins, hlt, -⟩ := hst _ rfl
    change r ∈ inserted.toList at hr
    rw [hins] at hr
    rw [List.mem_singleton.mp hr]
    exact Or.inr hlt
  | fail hf => rcases hf with rfl | ⟨tx, rfl⟩ <;> cases hr
  | returns =>
    refine Or.inl ?_
    change r ∈ inserted.toList ++ [] at hr
    rw [List.append_nil] at hr
    exact hr

theorem mem_undistributed {rev : ℤ} :
    rev ∈ undistributed n ↔ (rev ∈ n.ready ∨ rev ∈ n.pending) ∨
      (∃ r ∈ n.returned, r.revision = rev) ∨
      ∃ r ∈ upcoming (view n.server).stage n.inserted, r.revision = rev := by
  simp only [undistributed, List.mem_append, List.map_append, List.mem_map]

/-- What holds of the notifications of a node. -/
def Truthful (n : Node) : Prop :=
  Marks n.server.committed (undistributed n) (board n.manager)

theorem truthful_txn {a : LeaderTxn.Action} (hcounts : Counts alone n) (h : Truthful n)
    (hs : n.txn c a = some n') : Truthful n' := by
  obtain ⟨s, hstep, rfl⟩ := Option.map_eq_some_iff.mp hs
  have hcall := callStep_of_step hcounts.owned hstep
  refine Marks.mono h (committed_le_callStep hcall hcounts.stage) fun rev hrev => ?_
  rw [mem_undistributed] at hrev ⊢
  rcases hrev with hq | ⟨r, hr, rfl⟩ | ⟨r, hr, rfl⟩
  · exact Or.inl (Or.inl hq)
  · rcases List.mem_append.mp hr with hr | hr
    · exact Or.inl (Or.inr (Or.inl ⟨r, hr, rfl⟩))
    · exact (mem_upcoming_callStep hcall hcounts.stage (List.mem_append_left _ hr)).imp_left
        fun hr => Or.inr (Or.inr ⟨r, hr, rfl⟩)
  · exact (mem_upcoming_callStep hcall hcounts.stage (List.mem_append_right _ hr)).imp_left
      fun hr => Or.inr (Or.inr ⟨r, hr, rfl⟩)

theorem truthful_distribute {i : ℕ} {prevOk : Bool} (h : Truthful n)
    (hs : n.distribute i prevOk = some n') : Truthful n' := by
  obtain ⟨r, hr, rfl⟩ := Option.map_eq_some_iff.mp hs
  have hin : r.revision ∈ undistributed n :=
    mem_undistributed.mpr (Or.inr (Or.inl ⟨r, List.mem_of_getElem? hr, rfl⟩))
  have hbegin : Marks _ _ (begin _ _ ⟨r, findPrev n.server.db r prevOk⟩) :=
    Marks.begin .applyTxn h hin
  refine hbegin.mono (le_refl _) fun rev hrev => Or.inl ?_
  rw [mem_undistributed] at hrev ⊢
  refine hrev.imp_right (Or.imp_left ?_)
  rintro ⟨r', hr', rfl⟩
  exact ⟨r', List.mem_of_mem_eraseIdx hr', rfl⟩

theorem truthful_distributeFromDB {readOk prevOk : Bool} (h : Truthful n)
    (hs : n.distributeFromDB readOk prevOk = some n') : Truthful n' := by
  obtain ⟨revision, rest, hready, -, hout⟩ := distributeFromDB_eq_some hs
  have hsub : ∀ rev, rev ∈ undistributed { n with ready := rest } → rev ∈ undistributed n := by
    intro rev hrev
    rw [mem_undistributed] at hrev ⊢
    refine hrev.imp_left (Or.imp_left fun hq => ?_)
    rw [hready]
    exact List.mem_cons_of_mem _ hq
  rcases hout with ⟨-, rfl⟩ | ⟨r, -, hfind, rfl⟩
  · exact Marks.mono h (le_refl _) fun rev hrev => Or.inl (hsub rev hrev)
  · obtain rfl : r.revision = revision := (Table.findRecordByRev_eq_some.mp hfind).2
    have hin : r.revision ∈ undistributed n := by
      rw [mem_undistributed, hready]
      exact Or.inl (Or.inl List.mem_cons_self)
    have hbegin : Marks _ _ (begin _ _ ⟨r, findPrev n.server.db r prevOk⟩) :=
      Marks.begin .follower h hin
    exact hbegin.mono (le_refl _) fun rev hrev => Or.inl (hsub rev hrev)

theorem truthful_message {now : Time} {msg : PrimaryMessage} (h : Truthful n)
    (hgate : n.server.gate = none) (hok : Awaited n (.message now msg))
    (hs : n.message now msg = some n') : Truthful n' := by
  obtain ⟨-, pending, hpending, -, rfl⟩ := message_eq_some hs
  have hst := stage_of_gate (n := n.setFollower (processMessage n.follower now msg).1) hgate
  have hready : ∀ rev ∈ readyAfter n msg, rev ∈ n.ready ∨ rev ∈ n.pending := by
    intro rev hrev
    have hsorted : ∀ k, rev ∈ n.readyFor k → rev ∈ n.pending := fun k hk =>
      List.mem_of_mem_filter ((List.mem_insertionSort _).mp hk)
    cases msg with
    | initial committed compaction => exact Or.inr (hsorted committed hrev)
    | commit committed => exact Or.inr (hsorted committed hrev)
    | record r => exact Or.inl hrev
    | compact compaction => exact Or.inl hrev
  have hle : n.server.committed ≤ (processMessage n.follower now msg).1.committed := by
    cases msg with
    | initial committed compaction => exact hok
    | commit committed => exact hok
    | record r => exact le_refl _
    | compact compaction => exact le_refl _
  refine Marks.mono h hle fun rev hrev => ?_
  rw [mem_undistributed] at hrev ⊢
  rcases hrev with (hq | hq) | hq | ⟨r, hr, rfl⟩
  · exact Or.inl (Or.inl (hready rev hq))
  · rcases hpending rev hq with hq | ⟨r, rfl, rfl⟩
    · exact Or.inl (Or.inl (Or.inr hq))
    · exact Or.inr hok
  · exact Or.inl (Or.inr (Or.inl hq))
  · change r ∈ upcoming (view (n.setFollower _).server).stage _ at hr
    rw [hst] at hr
    cases hr

theorem truthful_preflight {env : Preflight.Env} (h : Truthful n) (hgate : n.server.gate = none)
    (hok : Awaited n (.preflight env)) (hs : n.preflight c env = some n') : Truthful n' := by
  obtain ⟨row, hrow, hk⟩ := hok
  have hst : (view n.server).stage = none := stage_of_gate hgate
  have hkeep : n.server.committed ≤ n'.server.committed ∧ (view n'.server).stage = none ∧
      n'.returned = n.returned ∧ n'.ready = n.ready ∧ n'.pending = n.pending ∧
      n'.manager = n.manager := by
    obtain ⟨-, -, p, rfl, rfl | ⟨-, rfl⟩⟩ := preflight_eq_some hs
    all_goals
      exact ⟨Preflight.le_committed_leaves (n := n.preflightNode) hrow hk (le_refl _),
        stage_of_gate hgate, rfl, rfl, rfl, rfl⟩
  obtain ⟨hle, hstage, hret, hready, hpending, hm⟩ := hkeep
  unfold Truthful
  rw [hm]
  refine Marks.mono h hle fun rev hrev => Or.inl ?_
  rw [mem_undistributed, hstage, hret, hready, hpending] at hrev
  rw [mem_undistributed, hst]
  exact hrev

theorem truthful_step {a : System.Action} (hcounts : Counts False n) (h : Truthful n)
    (hnum : Numbered False n a) (hok : Awaited n a) (hs : System.step c n a = some n') :
    Truthful n' := by
  obtain ⟨n₁, hmove, rfl⟩ := Option.map_eq_some_iff.mp hs
  change Truthful n₁
  cases a with
  | txn a => exact truthful_txn hcounts h hmove
  | distribute i prevOk => exact truthful_distribute h hmove
  | elected =>
    obtain ⟨-, rfl⟩ : _ ∧ _ = n₁ := by simpa [move, Node.elected] using hmove
    exact h
  | dismissed =>
    obtain ⟨-, rfl⟩ : _ ∧ _ = n₁ := by simpa [move, Node.dismissed] using hmove
    exact h
  | preflight env => exact truthful_preflight h hnum.2 hok hmove
  | connect =>
    obtain ⟨-, rfl⟩ : _ ∧ _ = n₁ := by simpa [move, Node.connect] using hmove
    refine Marks.mono h (le_refl _) fun rev hrev => Or.inl ?_
    rw [mem_undistributed] at hrev ⊢
    exact hrev.imp_left fun hq => Or.inl (hq.resolve_right List.not_mem_nil)
  | message now msg => exact truthful_message h hnum.2.2 hok hmove
  | distributeFromDB readOk prevOk => exact truthful_distributeFromDB h hmove
  | compact now revision =>
    obtain ⟨-, rfl⟩ : _ ∧ _ = n₁ := by simpa [move, Node.compact] using hmove
    exact h
  | watch b =>
    obtain ⟨m, hstep, rfl⟩ := Option.map_eq_some_iff.mp hmove
    have hm := move_of_step hstep
    refine marks_move ?_ (fun j watchID ha r hr => ?_) hm
    · exact h
    · subst ha
      exact hok r hr

/-- **Progress notifications**: if a notification is written only when all that may still be sent is
above it, the committed revision is never taken back and no record arrives at or below it, every
notification is a watermark. -/
theorem progress_watermarks {db : Table} {bucket : ObjectStorage} {peers : Peers}
    {compactions : Compactions} {committed : ℤ} {as : List System.Action}
    (hok : Meets (System.step c) (fun n a => Numbered False n a ∧ Awaited n a)
      (Node.start (replica db bucket peers committed) compactions) as)
    (hrun : exec (System.step c) (Node.start (replica db bucket peers committed) compactions) as =
      some n) (w : ℕ) : Watermarks (n.manager.watchers w).placed := by
  have hinv : Counts False n ∧ Truthful n := by
    refine exec_invariant (I := fun n => Counts False n ∧ Truthful n)
      (fun n₁ a n₂ h hok hstep => ?_) ⟨counts_replica db bucket peers committed, ?_⟩ hok hrun
    · refine ⟨?_, truthful_step h.1 h.2 hok.1 hok.2 hstep⟩
      obtain ⟨n₃, hmove, rfl⟩ := Option.map_eq_some_iff.mp hstep
      exact (counts_move h.1 hok.1 hmove).of_eq rfl rfl
    · exact ⟨fun _ => List.Pairwise.nil, fun _ _ hp => (by cases hp), fun _ _ hp => (by cases hp),
        fun _ hr => (by cases hr)⟩
  exact hinv.2.watermarks w

/-- A tick reports the progress of the first watcher, whose watches all want it. -/
def tick : List System.Action :=
  [.watch (.reportProgress 1), .watch (.lockProgress 0), .watch (.placeProgress 0 invalidWatchID),
    .watch (.endProgress 0)]

theorem progress_watermarks_between :
    ∃ n, exec (System.step Gate.syncOnly)
        (Node.start (replica Gate.firstTable Gate.firstBucket Gate.noPeers 1) [])
        (watchKeys 0 true ++ follow 2 97 ++ tick ++ follow 3 98) = some n ∧
      (n.manager.watchers 1).placed.map (fun msg => (msg.revision, msg.events.length)) =
        [(2, 1), (2, 0), (3, 1)] ∧
      Watermarks (n.manager.watchers 1).placed := by
  obtain ⟨n, hrun, hplaced⟩ := exists_exec_of_any (System.step Gate.syncOnly)
    (Node.start (replica Gate.firstTable Gate.firstBucket Gate.noPeers 1) [])
    (watchKeys 0 true ++ follow 2 97 ++ tick ++ follow 3 98)
    (fun n => (n.manager.watchers 1).placed.map (fun msg => (msg.revision, msg.events.length)) =
      [(2, 1), (2, 0), (3, 1)]) (by decide +kernel)
  exact ⟨n, hrun, hplaced, progress_watermarks (by decide +kernel) hrun 1⟩

/-- A tick between the commit of a record and its distribution, on a Primary and on a Replica: the
notification of 2 is written before the event of 2. -/
theorem early_progress_not_watermark :
    (∃ n, exec (System.step Gate.syncOnly) (Node.start Gate.fresh [])
        (watchKeys 0 true ++ commitKey 97 2 ++ tick ++ [.distribute 0 true] ++ deliver) = some n ∧
      ((n.manager.watchers 1).placed.map fun msg =>
        (msg.revision, msg.watchId, msg.events.length)) = [(2, invalidWatchID, 0), (2, 1, 1)] ∧
      ¬ Watermarks (n.manager.watchers 1).placed) ∧
    ∃ n, exec (System.step Gate.syncOnly)
        (Node.start (replica Gate.firstTable Gate.firstBucket Gate.noPeers 1) [])
        (watchKeys 0 true ++
          [.message 2 (.record (created 2 97)), .message 2 (.commit 2)] ++ tick ++
          [.distributeFromDB true true] ++ deliver) = some n ∧
      ((n.manager.watchers 1).placed.map fun msg =>
        (msg.revision, msg.watchId, msg.events.length)) = [(2, invalidWatchID, 0), (2, 1, 1)] ∧
      ¬ Watermarks (n.manager.watchers 1).placed :=
  ⟨exists_exec_of_any _ _ _ _ (by decide +kernel), exists_exec_of_any _ _ _ _ (by decide +kernel)⟩

end Netsy.Watch.Progress
