import Netsy.ClientAPI.CommittedReads
import Netsy.CommonAPI.CompactedAnswers
import Netsy.Primary.VersionedStore
import Netsy.Watch.PrimaryOrder

/-! # A stream of a range while the table changes

A call of `RangeStream` reads the table for every chunk anew, and between these reads transactions
commit, roll back and are compacted. The rows up to the committed revision that the call began with
change in one way only: a compaction empties and marks them. So the stream sends what it would have
sent from the table of its beginning, until it meets a marked row and fails. -/

namespace Netsy.ClientAPI.StreamedReads

open Proto Lib.Run Lib.SortedList LocalDB.Schema LocalDB.Find
open LocalDB.Compaction CommonAPI.RangeQuery CommonAPI.Range
open CommonAPI.CompactedAnswers Primary.VersionedStore Primary.Transitions
open Primary.LeaderTxn (Config Server)
open Primary.Outcomes
open ClientAPI.CommittedReads (limitRevision)
open Watch.System Watch.Revisions

/-- The second table has the rows of the first up to the revision, each as it was or compacted. -/
def KeptUpTo (revision : ℤ) (t t' : Table) : Prop :=
  KeptRows (atRevision t revision) (atRevision t' revision)

variable {size : List KeyValue → ℤ} {t t' t'' : Table} {db : ℕ → Table} {w : Where}
  {revision totalLimit committed limit : ℤ} {f g : Record → Record} {cur : Cursor}
  {afterKey : Bytes} {rounds i : ℕ} {r : RangeRequest}

/-! ### The rounds of a stream -/

theorem KeptUpTo.selected_eq (h : KeptUpTo committed t t') (hpos : 0 < revision)
    (hle : revision ≤ committed) :
    ∃ f, (∀ a, Kept a (f a)) ∧ selected t' w revision = (selected t w revision).map f := by
  obtain ⟨f, hf, hrows⟩ := h
  have hagree : ∀ t, AgreeUpTo committed t (atRevision t committed) := fun t => by
    simp [AgreeUpTo, upTo, atRevision, List.filter_filter]
  refine ⟨f, hf, ?_⟩
  rw [selected_congr (hagree t) hpos hle, selected_congr (hagree t') hpos hle]
  refine selected_of_mem_iff (fun b _ => (hf b).key_eq) (fun b _ => (hf b).revision_eq)
    (fun b _ => (hf b).deleted_eq) fun a => ?_
  rw [Table.mem_def, hrows, List.mem_map]
  rfl

theorem chunkRows_map (hf : ∀ a, Kept a (f a))
    (h : selected t' w revision = (selected t w revision).map f) :
    chunkRows t' w revision limit afterKey =
      ((chunkRows t w revision limit afterKey).1.map f,
        (chunkRows t w revision limit afterKey).2) := by
  have hcursor : afterCursor .asc afterKey ∘ f = afterCursor .asc afterKey := by
    funext a
    simp [afterCursor, (hf a).key_eq]
  have hfind : ∀ limit, findRecordsForRangeStream t' w revision limit .asc afterKey =
      (findRecordsForRangeStream t w revision limit .asc afterKey).map f := by
    intro limit
    unfold findRecordsForRangeStream
    dsimp only
    rw [h, List.filter_map, hcursor]
    split_ifs <;> simp
  unfold chunkRows
  dsimp only
  rw [hfind, List.length_map]
  split_ifs <;> simp

theorem streamRound_kept {u u' : Table} (hf : ∀ a, Kept a (f a))
    (hu : selected u w revision = (selected t w revision).map f)
    (hu' : selected u' w revision = (selected t w revision).map g) :
    streamRound size w revision totalLimit committed u u' cur = .error errCompacted ∨
      streamRound size w revision totalLimit committed u u' cur =
        streamRound size w revision totalLimit committed t t cur := by
  have hresp : ∀ kvs more, chunkResponse size u' w revision totalLimit committed cur kvs more =
      chunkResponse size t w revision totalLimit committed cur kvs more := by
    intro kvs more
    unfold chunkResponse
    rw [count_findRecordsBy_asc, count_findRecordsBy_asc, hu', List.length_map]
  unfold streamRound
  rw [chunkRows_map hf hu]
  have hrows : List.Forall₂ Kept
      (chunkRows t w revision (min cur.keys (totalLimit - cur.count)) cur.afterKey).1
      ((chunkRows t w revision (min cur.keys (totalLimit - cur.count)) cur.afterKey).1.map f) := by
    rw [List.forall₂_map_right_iff, List.forall₂_same]
    exact fun a _ => hf a
  rcases recordsToKeyValues_of_kept hrows with herror | hsame
  · exact Or.inl (by simp [herror, bind, Except.bind])
  · exact Or.inr (by simp only [hsame, hresp])

/-- The first stream is the second, or it fails on its way. -/
def SameOrCompacted (s s' : List RangeResponse × Except RangeError Unit) : Prop :=
  s = s' ∨ (s.2 = .error errCompacted ∧ s.1 <+: s'.1)

theorem streamRounds_kept (h : ∀ i, ∃ f, (∀ a, Kept a (f a)) ∧
      selected (db i) w revision = (selected t w revision).map f) :
    SameOrCompacted (streamRounds size w revision totalLimit committed db rounds i cur)
      (streamRounds size w revision totalLimit committed (fun _ => t) rounds i cur) := by
  induction rounds generalizing i cur with
  | zero => exact Or.inl rfl
  | succ rounds ih =>
    obtain ⟨f, hf, hsel⟩ := h i
    obtain ⟨g, -, hsel'⟩ := h (i + 1)
    have hround : streamRound size w revision totalLimit committed (db i) (db (i + 1)) cur = _ ∨
        streamRound size w revision totalLimit committed (db i) (db (i + 1)) cur = _ :=
      streamRound_kept hf hsel hsel'
    unfold streamRounds
    rcases hround with herror | hsame
    · rw [herror]
      exact Or.inr ⟨rfl, List.nil_prefix⟩
    · rw [hsame]
      cases streamRound size w revision totalLimit committed t t cur with
      | error e => exact Or.inl rfl
      | ok res =>
        obtain ⟨resp, next⟩ := res
        cases next with
        | none => exact Or.inl rfl
        | some cur' =>
          have hrest : SameOrCompacted
              (streamRounds size w revision totalLimit committed db rounds (i + 1) cur') _ := ih
          rcases hrest with hrest | ⟨hend, hpre⟩
          · exact Or.inl (by simp only [hrest])
          · exact Or.inr ⟨hend, (List.prefix_cons_inj resp).mpr hpre⟩

theorem rangeStream_kept (hpos : 0 < (limitRevision committed r).revision)
    (hle : (limitRevision committed r).revision ≤ committed) (h0 : db 0 = t)
    (h : ∀ i, KeptUpTo committed t (db i)) :
    SameOrCompacted (CommittedReads.rangeStream size db rounds committed r)
      (CommittedReads.rangeStream size (fun _ => t) rounds committed r) := by
  unfold CommittedReads.rangeStream CommonAPI.Range.rangeStream
  cases validateRangeRequest (limitRevision committed r) with
  | error e => exact Or.inl rfl
  | ok u =>
    cases buildRangeQuery (limitRevision committed r).key (limitRevision committed r).rangeEnd with
    | none => exact Or.inl rfl
    | some w =>
      have hrounds : ∀ totalLimit, SameOrCompacted
          (streamRounds size w _ totalLimit committed db rounds 0 {}) _ :=
        fun _ => streamRounds_kept fun i => (h i).selected_eq hpos hle
      dsimp only
      split_ifs
      · exact Or.inl rfl
      · rw [h0]
        exact Or.inl rfl
      · exact hrounds _
      · exact hrounds _

/-! ### The past of a node -/

theorem keptUpTo_of_keptRows (h : KeptRows t t') : KeptUpTo revision t t' := by
  obtain ⟨f, hf, hrows⟩ := h
  refine ⟨f, hf, ?_⟩
  have hrev : (fun b => decide (b.revision ≤ revision)) ∘ f =
      fun b : Record => decide (b.revision ≤ revision) := by
    funext a
    simp [(hf a).revision_eq]
  simp only [atRevision, upTo, hrows, List.filter_map, hrev]

theorem keptUpTo_refl (t : Table) : KeptUpTo revision t t := ⟨id, Kept.refl, by simp⟩

theorem keptUpTo_of_txOk {next : ℤ} {tx : Primary.LeaderTxn.Tx} (h : TxOk t next tx)
    (hlt : revision < next) : KeptUpTo revision t tx.table := by
  refine ⟨id, Kept.refl, ?_⟩
  rw [List.map_id]
  refine ascending_ext (atRevision _ _).sorted (atRevision _ _).sorted fun b => ?_
  simp only [atRevision, upTo, List.mem_filter, decide_eq_true_eq]
  refine and_congr_left fun hle => (h.2 b).trans (or_iff_right ?_)
  rintro rfl
  have := h.1
  omega

theorem past_callStep {v v' : View} {inserted : Option Record} (h : CallStep v v')
    (hst : ∀ st ∈ v.stage, StageOk v.counters inserted st)
    (hle : revision ≤ v.counters.committed) :
    KeptUpTo revision v.counters.db v'.counters.db ∧ revision ≤ v'.counters.committed := by
  cases h with
  | commit =>
    obtain ⟨hcounted, htx, -⟩ := hst _ rfl
    exact ⟨keptUpTo_of_txOk htx (hle.trans_lt hcounted.next), hle⟩
  | advance =>
    obtain ⟨-, hlt, -⟩ := hst _ rfl
    exact ⟨keptUpTo_refl _, hle.trans hlt.le⟩
  | _ => exact ⟨keptUpTo_refl _, hle⟩

variable {c : Config} {n n' : Node} {a : Action} {as : List Action}

theorem past_move (h : Counts True n) (hok : Numbered True n a) (hs : move c n a = some n')
    (hle : revision ≤ n.server.committed) :
    KeptUpTo revision n.server.db n'.server.db ∧ revision ≤ n'.server.committed := by
  cases a with
  | txn a =>
    obtain ⟨s, hstep, rfl⟩ := Option.map_eq_some_iff.mp hs
    exact past_callStep (callStep_of_step h.owned hstep) h.stage hle
  | elected =>
    obtain ⟨-, rfl⟩ : _ ∧ _ = n' := by simpa [move, Node.elected] using hs
    exact ⟨keptUpTo_refl _, hle⟩
  | dismissed =>
    obtain ⟨-, rfl⟩ : _ ∧ _ = n' := by simpa [move, Node.dismissed] using hs
    exact ⟨keptUpTo_refl _, hle⟩
  | preflight env => exact absurd trivial hok.1
  | message now msg => exact absurd trivial hok.1
  | compact now rev =>
    unfold move Node.compact at hs
    split_ifs at hs
    cases hs
    exact ⟨keptUpTo_of_keptRows keptRows_executeCompaction, hle⟩
  | connect =>
    unfold move Node.connect at hs
    dsimp only at hs
    split_ifs at hs
    cases hs
    exact ⟨keptUpTo_refl _, hle⟩
  | distribute i prevOk =>
    obtain ⟨x, -, rfl⟩ := Option.map_eq_some_iff.mp hs
    exact ⟨keptUpTo_refl _, hle⟩
  | distributeFromDB readOk prevOk =>
    obtain ⟨_, rest, -, -, ⟨-, rfl⟩ | ⟨x, -, -, rfl⟩⟩ := distributeFromDB_eq_some hs
    · exact ⟨keptUpTo_refl _, hle⟩
    · exact ⟨keptUpTo_refl _, hle⟩
  | watch a =>
    obtain ⟨m, -, rfl⟩ := Option.map_eq_some_iff.mp hs
    exact ⟨keptUpTo_refl _, hle⟩

/-- The node comes from the other with its past kept. -/
structure Past (revision : ℤ) (t : Table) (n : Node) : Prop where
  counts : Counts True n
  kept : KeptUpTo revision t n.server.db
  le : revision ≤ n.server.committed

theorem past_run (h : Past revision t n) (hok : Meets (step c) (Numbered True) n as)
    (hrun : exec (step c) n as = some n') : Past revision t n' := by
  refine exec_invariant (I := Past revision t) (fun n₁ a n₂ h hok hs => ?_) h hok hrun
  obtain ⟨n₃, hmove, rfl⟩ := Option.map_eq_some_iff.mp hs
  obtain ⟨hkept, hle⟩ := past_move h.counts hok hmove h.le
  exact ⟨(counts_move h.counts hok hmove).of_eq rfl rfl, h.kept.trans hkept, hle⟩

/-- **A stream is isolated from what happens meanwhile.** Between two of its reads the Primary takes
any steps: the stream sends what it would have sent from the table that it began with, or it ends
with the compacted error after some of it. -/
theorem stream_isolated {bucket : Datastore.ObjectStorage} {peers : Primary.Follow.Peers}
    {compactions : Compactions} (nodes : ℕ → Node)
    (hok : Meets (step c) (Numbered True) (Node.start (.start t bucket peers) compactions) as)
    (hstart : exec (step c) (Node.start (.start t bucket peers) compactions) as = some (nodes 0))
    (hnext : ∀ i, ∃ bs, Meets (step c) (Numbered True) (nodes i) bs ∧
      exec (step c) (nodes i) bs = some (nodes (i + 1)))
    (hpos : 0 < (limitRevision (nodes 0).server.committed r).revision) :
    SameOrCompacted
      (CommittedReads.rangeStream size (fun i => (nodes i).server.db) rounds
        (nodes 0).server.committed r)
      (CommittedReads.rangeStream size (fun _ => (nodes 0).server.db) rounds
        (nodes 0).server.committed r) := by
  have hcounts : Counts True (nodes 0) :=
    (past_run ⟨Watch.PrimaryOrder.counts_primary t bucket peers, keptUpTo_refl t, le_refl _⟩ hok
      hstart).counts
  have hpast : ∀ i, Past (nodes 0).server.committed (nodes 0).server.db (nodes i) := by
    intro i
    induction i with
    | zero => exact ⟨hcounts, keptUpTo_refl _, le_refl _⟩
    | succ i ih =>
      obtain ⟨bs, hbs, hrun⟩ := hnext i
      exact past_run ih hbs hrun
  refine rangeStream_kept hpos ?_ rfl fun i => (hpast i).kept
  unfold limitRevision
  split_ifs with h
  · exact le_refl _
  · exact not_lt.mp fun hlt => h (Or.inr hlt)

/-- A key is created between the first two reads. -/
def created (n : Node) : ℕ → Node
  | 0 => Node.start Primary.Gate.fresh []
  | _ + 1 => n

theorem stream_isolated_created :
    ∃ n, exec (step Primary.Gate.syncOnly) (Node.start Primary.Gate.fresh []) (commitKey 97 2) =
        some n ∧ n.server.db.latestRevision = 2 ∧
      SameOrCompacted
        (CommittedReads.rangeStream (fun _ => 0) (fun i => (created n i).server.db) 3 1
          { key := [95], rangeEnd := [100] })
        (CommittedReads.rangeStream (fun _ => 0) (fun _ => Primary.Gate.firstTable) 3 1
          { key := [95], rangeEnd := [100] }) := by
  obtain ⟨n, hrun, hlatest⟩ := exists_exec_of_any (step Primary.Gate.syncOnly)
    (Node.start Primary.Gate.fresh []) (commitKey 97 2)
    (fun n => n.server.db.latestRevision = 2) (by decide +kernel)
  have hok : Meets (step Primary.Gate.syncOnly) (Numbered True)
      (Node.start Primary.Gate.fresh []) (commitKey 97 2) := by decide +kernel
  have hnext : ∀ i, ∃ bs, Meets (step Primary.Gate.syncOnly) (Numbered True) (created n i) bs ∧
      exec (step Primary.Gate.syncOnly) (created n i) bs = some (created n (i + 1)) := by
    intro i
    cases i with
    | zero => exact ⟨commitKey 97 2, hok, hrun⟩
    | succ i => exact ⟨[], trivial, rfl⟩
  have hnone : Meets (step Primary.Gate.syncOnly) (Numbered True)
      (Node.start Primary.Gate.fresh []) [] := trivial
  have hpos : 0 < (limitRevision 1 { key := [95], rangeEnd := [100] }).revision := by decide
  exact ⟨n, hrun, hlatest, stream_isolated (created n) hnone rfl hnext hpos⟩

end Netsy.ClientAPI.StreamedReads
