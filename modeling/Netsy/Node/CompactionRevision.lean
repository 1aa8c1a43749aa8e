import Netsy.Bootstrap.Loader
import Netsy.Lib.Run
import Netsy.Replication.ProcessStream
import Netsy.Watch.Hub

/-! # The compaction revision of a node

`state.Compaction` is set by the bootstrap, by every `Initial` and by every `Compact`; the table
`compactions` is written by the first two only while it is empty. A process that starts again has
only the table. A watch is refused at or below the higher of `state.Compaction` and the
watch-admission floor, or when its row is compacted. -/

namespace Netsy.Node.CompactionRevision

open Proto Lib.Run LocalDB.Schema LocalDB.Replicate LocalDB.Compaction Replication.ProcessStream
open Watch.Hub.Manager (getRevision)
open Bootstrap

/-! ### The node -/

/-- What is on the disk of a node. -/
structure DataDir where
  db : Table
  compactions : Compactions
  rows : ∀ r ∈ db, 0 < r.revision
  marks : ∀ c ∈ compactions, 0 < c

structure State where
  follower : Follower
  /-- The watch-admission floor. -/
  floor : ℤ := 0
  /-- The bootstrap has seeded the compaction revision. -/
  seeded : Bool := false
  /-- The Follow stream has been started, after the seeding. -/
  following : Bool := false
  /-- The start revisions refused as compacted so far, by this process and those before it. -/
  refused : List ℤ := []
deriving DecidableEq

/-- A process that starts on the data directory. -/
def start (dir : DataDir) : State where
  follower :=
    { db := dir.db, compactions := dir.compactions, committed := 0, compaction := 0
      compacting := [] }

/-- What the bootstrap sees of the node. -/
def toNode (f : Follower) : Loader.Node :=
  { db := f.db, compactions := f.compactions, committed := f.committed, compaction := f.compaction }

def ofNode (f : Follower) (n : Loader.Node) : Follower :=
  { f with db := n.db, compactions := n.compactions, committed := n.committed
           compaction := n.compaction }

def seedCompactionFromPrimary (f : Follower) : Follower :=
  if 0 < latestCompactionRevision f.compactions ∨ f.compaction = 0 then f
  else { f with compactions := persistCompactionRevision f.compactions f.compaction }

/-- How a request for a watch is answered. -/
inductive Admission
  | admitted | compacted | failed
deriving DecidableEq, Repr

/-- The admission of `CreateWatch` for a start revision. -/
def createWatch (s : State) (startRevision : ℤ) : Admission :=
  let compactionRevision := max s.follower.compaction s.floor
  if 0 < startRevision ∧ 0 < compactionRevision ∧ startRevision ≤ compactionRevision then
    .compacted
  else if startRevision = 0 then .admitted
  else
    match getRevision s.follower.db startRevision with
    | .ok (_, true) => .compacted
    | .ok (_, false) => .admitted
    -- a revision of the future
    | .error _ => if startRevision ≤ s.follower.committed then .failed else .admitted

inductive Action
  /-- The process ends and starts again on its data directory. -/
  | restart
  /-- `seedCompactionFromLocalDB`, with what fails in it. -/
  | seedFromLocalDB (env : Loader.Env) (attempt : ℕ) (after : Bool)
  /-- `ReplicateRecord`, for a record of a snapshot or a chunk. -/
  | importRecord (now : Time) (record : Record)
  | initial (committedRevision compactionRevision : ℤ)
  | seedFromPrimary
  | compact (compactionRevision : ℤ)
  /-- The goroutine of a compaction runs. -/
  | executeCompaction (now : Time) (i : ℕ)
  /-- A compaction notice that is accepted. -/
  | notice (revision : ℤ)
  | watch (startRevision : ℤ)

def Action.isRestart : Action → Bool
  | .restart => true
  | _ => false

/-- One step. The bootstrap seeds before the stream is started, and the servers are started after
the bootstrap. -/
def step (s : State) : Action → Option State
  | .restart =>
    some { s with
      follower := { s.follower with committed := 0, compaction := 0, compacting := [] }
      floor := 0, seeded := false, following := false }
  | .seedFromLocalDB env attempt after =>
    if s.following then none
    else
      match (ExceptT.run (Loader.seedCompactionFromLocalDB env attempt after)).run
          (toNode s.follower) with
      | (.ok _, n) => some { s with follower := ofNode s.follower n, seeded := true }
      | (.error _, n) => some { s with follower := ofNode s.follower n }
  | .importRecord now record =>
    if 0 < record.revision then
      some { s with
        follower := { s.follower with db := (replicateRecordIn s.follower.db now record).1 } }
    else none
  | .initial committed compaction =>
    if s.seeded then
      some { s with follower := handleInitial s.follower committed compaction, following := true }
    else none
  | .seedFromPrimary =>
    if s.following then some { s with follower := seedCompactionFromPrimary s.follower } else none
  | .compact compaction =>
    if s.following then some { s with follower := handleCompact s.follower compaction } else none
  | .executeCompaction now i => some { s with follower := runCompaction s.follower now i }
  | .notice revision => if s.seeded then some { s with floor := revision } else none
  | .watch startRevision =>
    if s.seeded then
      some { s with
        refused :=
          if createWatch s startRevision = .compacted then startRevision :: s.refused
          else s.refused }
    else none

/-- The condition: an `Initial` and a `Compact` carry no lower revision than the node has, a notice
does not lower what is refused, and a process ends only when nothing is refused above what its
table has. -/
def Forward (s : State) : Action → Prop
  | .initial _ compaction => s.follower.compaction ≤ compaction
  | .compact compaction => s.follower.compaction ≤ compaction
  | .notice revision => s.floor ≤ max s.follower.compaction revision
  | .restart =>
    max s.follower.compaction s.floor ≤ latestCompactionRevision s.follower.compactions
  | _ => True

instance (s : State) : ∀ a, Decidable (Forward s a) := by
  intro a
  cases a <;> (unfold Forward; infer_instance)

variable {s s' : State} {a : Action} {as bs : List Action} {f : Follower} {n : Loader.Node}
  {cs : Compactions} {t : Table} {c r : ℤ}

/-! ### The seeding -/

/-- What a seeding that succeeds leaves. -/
def seedNode (n : Loader.Node) : Loader.Node :=
  if 0 < latestCompactionRevision n.compactions then
    { n with compaction := latestCompactionRevision n.compactions }
  else
    { n with
      compactions := persistCompactionRevision n.compactions (deriveCompactionRevision n.db)
      compaction := deriveCompactionRevision n.db }

/-- `m` succeeds and leaves `n'`, or it fails and leaves `n`. -/
def AllOrNothing (m : Loader.Boot PUnit) (n n' : Loader.Node) : Prop :=
  (ExceptT.run m).run n = (.ok PUnit.unit, n') ∨ ∃ e, (ExceptT.run m).run n = (.error e, n)

theorem allOrNothing_check {env : Loader.Env} {attempt : ℕ} {op : Loader.Op}
    {e : Loader.BootstrapError} {m : Unit → Loader.Boot PUnit} {n n' : Loader.Node}
    (h : AllOrNothing (m ()) n n') : AllOrNothing (Loader.check env attempt op e >>= m) n n' := by
  unfold Loader.check
  split_ifs
  · exact h
  · exact Or.inr ⟨e, rfl⟩

theorem allOrNothing_seed (env : Loader.Env) (attempt : ℕ) (after : Bool) (n : Loader.Node) :
    AllOrNothing (Loader.seedCompactionFromLocalDB env attempt after) n (seedNode n) := by
  refine allOrNothing_check (?_ : AllOrNothing (ite _ _ _) n _)
  unfold seedNode
  by_cases hpos : 0 < latestCompactionRevision n.compactions
  · rw [if_pos hpos, if_pos hpos]
    exact Or.inl rfl
  · rw [if_neg hpos, if_neg hpos]
    exact allOrNothing_check (allOrNothing_check (Or.inl rfl))

/-! ### What is refused -/

/-- The revision up to which watches are refused; while the node is not seeded, what the table will
give. -/
def level (s : State) : ℤ :=
  if s.seeded then max s.follower.compaction s.floor
  else latestCompactionRevision s.follower.compactions

/-- The revision is refused as compacted. -/
def Refuses (s : State) (r : ℤ) : Prop :=
  0 < r ∧ (r ≤ level s ∨ Compacted s.follower.db r)

theorem compacted_iff_getRevision : Compacted t r ↔ ∃ v, getRevision t r = .ok (v, true) := by
  unfold getRevision
  constructor
  · rintro ⟨row, hrow, hrev, hcompacted⟩
    have hfind : t.findRecordByRev r = some row :=
      Table.findRecordByRev_eq_some.mpr ⟨hrow, hrev⟩
    exact ⟨r, by simp [hfind, hrev, Option.isSome_iff_ne_none, hcompacted]⟩
  · rintro ⟨v, h⟩
    split at h
    · rename_i row hfind
      obtain ⟨hrow, hrev⟩ := Table.findRecordByRev_eq_some.mp hfind
      have hsome : row.compactedAt.isSome = true := congrArg Prod.snd (Except.ok.inj h)
      exact ⟨row, hrow, hrev, Option.isSome_iff_ne_none.mp hsome⟩
    · cases h

theorem createWatch_compacted_iff (hrows : ∀ row ∈ s.follower.db, 0 < row.revision)
    (hseeded : s.seeded = true) : createWatch s r = .compacted ↔ Refuses s r := by
  have hpos : Compacted s.follower.db r → 0 < r := by
    rintro ⟨row, hrow, rfl, -⟩
    exact hrows row hrow
  unfold createWatch Refuses level
  rw [if_pos hseeded]
  dsimp only
  by_cases hlevel : 0 < r ∧ 0 < max s.follower.compaction s.floor ∧
      r ≤ max s.follower.compaction s.floor
  · rw [if_pos hlevel]
    exact iff_of_true rfl ⟨hlevel.1, Or.inl hlevel.2.2⟩
  have habove : ¬ (0 < r ∧ r ≤ max s.follower.compaction s.floor) := by omega
  have hrow : (0 < r ∧ (r ≤ max s.follower.compaction s.floor ∨ Compacted s.follower.db r)) ↔
      Compacted s.follower.db r := by
    tauto
  rw [if_neg hlevel, hrow, compacted_iff_getRevision]
  by_cases hzero : r = 0
  · rw [if_pos hzero, ← compacted_iff_getRevision]
    exact iff_of_false (by simp) fun hc => by have := hpos hc; omega
  rw [if_neg hzero]
  cases getRevision s.follower.db r with
  | error e =>
    dsimp only
    split_ifs <;> simp
  | ok found =>
    obtain ⟨v, compacted⟩ := found
    cases compacted <;> simp

/-! ### The invariant -/

structure Inv (s : State) : Prop where
  rows : ∀ row ∈ s.follower.db, 0 < row.revision
  marks : ∀ c ∈ s.follower.compactions, 0 < c
  unseeded : s.seeded = false → s.follower.compaction = 0 ∧ s.following = false
  seeded : s.seeded = true → latestCompactionRevision s.follower.compactions ≤ s.follower.compaction
  quiet : s.seeded = true → s.following = false →
    s.follower.compaction = latestCompactionRevision s.follower.compactions
  refused : ∀ r ∈ s.refused, Refuses s r

theorem Refuses.mono (h : Refuses s r) (hlevel : level s ≤ level s')
    (hrow : ∀ r, Compacted s.follower.db r → Compacted s'.follower.db r) :
    Refuses s' r :=
  ⟨h.1, h.2.imp (fun hle => hle.trans hlevel) (hrow r)⟩

theorem inv_start (dir : DataDir) : Inv (start dir) where
  rows := dir.rows
  marks := dir.marks
  unseeded _ := ⟨rfl, rfl⟩
  seeded h := by cases h
  quiet h := by cases h
  refused r hr := absurd hr List.not_mem_nil

theorem level_of_seeded (h : s.seeded = true) : level s = max s.follower.compaction s.floor :=
  if_pos h

theorem Inv.seeded_of_following (hi : Inv s) (h : s.following = true) : s.seeded = true := by
  by_contra hn
  have := (hi.unseeded (by simpa using hn)).2
  rw [h] at this
  cases this

theorem Inv.grow {f' : Follower} {following : Bool} (hi : Inv s) (hseeded : s.seeded = true)
    (hfollowing : following = true) (hdb : f'.db = s.follower.db)
    (hmarks : ∀ c ∈ f'.compactions, 0 < c)
    (hlatest : latestCompactionRevision f'.compactions ≤ f'.compaction)
    (hle : s.follower.compaction ≤ f'.compaction) :
    Inv { s with follower := f', following := following } where
  rows := by
    intro row hrow
    exact hi.rows row (hdb ▸ hrow)
  marks := hmarks
  unseeded h := by rw [hseeded] at h; cases h
  seeded _ := hlatest
  quiet _ h := by rw [hfollowing] at h; cases h
  refused r hr := by
    refine (hi.refused r hr).mono ?_ fun r hc => ?_
    · rw [level_of_seeded hseeded]
      exact (max_le_max hle le_rfl).trans (if_pos hseeded).ge
    · exact hdb ▸ hc

theorem Inv.setDB {db : Table} {compacting : List ℤ} (hi : Inv s)
    (hrows : ∀ row ∈ db, 0 < row.revision)
    (hkept : ∀ r, Compacted s.follower.db r → Compacted db r) :
    Inv { s with follower := { s.follower with db := db, compacting := compacting } } where
  rows := hrows
  marks := hi.marks
  unseeded := hi.unseeded
  seeded := hi.seeded
  quiet := hi.quiet
  refused r hr := (hi.refused r hr).mono le_rfl hkept

theorem seedNode_spec (hrows : ∀ row ∈ n.db, 0 < row.revision)
    (hmarks : ∀ c ∈ n.compactions, 0 < c) :
    (seedNode n).db = n.db ∧ (∀ c ∈ (seedNode n).compactions, 0 < c) ∧
      (seedNode n).compaction = latestCompactionRevision (seedNode n).compactions ∧
      latestCompactionRevision n.compactions ≤ (seedNode n).compaction := by
  have hnonneg := latestCompactionRevision_nonneg hmarks
  have hderive := derive_nonneg hrows
  unfold seedNode
  split_ifs with hpos
  · exact ⟨rfl, hmarks, rfl, le_rfl⟩
  · have hlatest := latest_persist (c := deriveCompactionRevision n.db) hmarks
    refine ⟨rfl, pos_persist hmarks, ?_, ?_⟩
    · dsimp only
      omega
    · dsimp only
      omega

theorem inv_seedFromLocalDB {env : Loader.Env} {attempt : ℕ} {after : Bool} (hi : Inv s)
    (h : step s (.seedFromLocalDB env attempt after) = some s') :
    Inv s' ∧ s.follower.compaction ≤ s'.follower.compaction := by
  obtain ⟨hdb, hmarks, heq, hle⟩ := seedNode_spec (n := toNode s.follower) hi.rows hi.marks
  simp only [step] at h
  split_ifs at h with hfollowing
  rcases allOrNothing_seed env attempt after (toNode s.follower) with hrun | ⟨e, hrun⟩
  · rw [hrun] at h
    obtain rfl := Option.some.inj h
    -- before the stream is started the node has what its table has, or nothing yet
    have hold : s.follower.compaction ≤ latestCompactionRevision s.follower.compactions ∧
        level s ≤ max (latestCompactionRevision s.follower.compactions) s.floor := by
      cases hseeded : s.seeded with
      | false =>
        rw [(hi.unseeded hseeded).1, level, hseeded]
        exact ⟨latestCompactionRevision_nonneg hi.marks, le_max_left _ _⟩
      | true =>
        rw [level_of_seeded hseeded, hi.quiet hseeded (by simpa using hfollowing)]
        exact ⟨le_rfl, le_rfl⟩
    have hsame : (ofNode s.follower (seedNode (toNode s.follower))).db = s.follower.db := hdb
    refine ⟨{
      rows := fun row hrow => hi.rows row (hsame ▸ hrow)
      marks := hmarks
      unseeded := nofun
      seeded := fun _ => heq.ge
      quiet := fun _ _ => heq
      refused := fun r hr => ?_ }, hold.1.trans hle⟩
    exact (hi.refused r hr).mono (hold.2.trans (max_le_max hle le_rfl)) fun r hc =>
      hsame.symm ▸ hc
  · rw [hrun] at h
    obtain rfl := Option.some.inj h
    exact ⟨hi, le_rfl⟩

theorem inv_restart (hi : Inv s) (hok : Forward s .restart) (h : step s .restart = some s') :
    Inv s' := by
  obtain rfl := Option.some.inj h
  refine ⟨hi.rows, hi.marks, fun _ => ⟨rfl, rfl⟩, nofun, nofun, fun r hr =>
    (hi.refused r hr).mono ?_ fun r hc => hc⟩
  cases hseeded : s.seeded with
  | false =>
    rw [level, hseeded]
    exact le_rfl
  | true =>
    rw [level_of_seeded hseeded]
    exact hok

theorem inv_initial {committed : ℤ} (hi : Inv s) (hok : Forward s (.initial committed c))
    (h : step s (.initial committed c) = some s') :
    Inv s' ∧ s.follower.compaction ≤ s'.follower.compaction := by
  simp only [step] at h
  split_ifs at h with hseeded
  obtain rfl := Option.some.inj h
  have hle : s.follower.compaction ≤ c := hok
  have hlatest := hi.seeded hseeded
  refine ⟨hi.grow hseeded rfl rfl ?_ ?_ hle, hle⟩
  · unfold handleInitial
    split_ifs
    · exact pos_persist hi.marks
    · exact hi.marks
  · unfold handleInitial
    dsimp only
    split_ifs
    · rw [latest_persist hi.marks]
      omega
    · omega

theorem inv_compact (hi : Inv s) (hok : Forward s (.compact c))
    (h : step s (.compact c) = some s') :
    Inv s' ∧ s.follower.compaction ≤ s'.follower.compaction := by
  simp only [step] at h
  split_ifs at h with hfollowing
  obtain rfl := Option.some.inj h
  have hseeded : s.seeded = true := hi.seeded_of_following hfollowing
  have hle : s.follower.compaction ≤ c := hok
  have hlatest := hi.seeded hseeded
  refine ⟨hi.grow hseeded hfollowing rfl (pos_persist hi.marks) ?_ hle, hle⟩
  change latestCompactionRevision (persistCompactionRevision s.follower.compactions c) ≤ c
  rw [latest_persist hi.marks]
  omega

theorem inv_seedFromPrimary (hi : Inv s) (h : step s .seedFromPrimary = some s') :
    Inv s' ∧ s.follower.compaction ≤ s'.follower.compaction := by
  simp only [step] at h
  split_ifs at h with hfollowing
  obtain rfl := Option.some.inj h
  have hseeded : s.seeded = true := hi.seeded_of_following hfollowing
  have hlatest := hi.seeded hseeded
  unfold seedCompactionFromPrimary
  split_ifs
  · exact ⟨hi, le_rfl⟩
  · refine ⟨hi.grow hseeded hfollowing rfl (pos_persist hi.marks) ?_ le_rfl, le_rfl⟩
    rw [latest_persist hi.marks]
    exact max_le hlatest le_rfl

theorem inv_importRecord {now : Time} {record : Record} (hi : Inv s)
    (h : step s (.importRecord now record) = some s') :
    Inv s' ∧ s.follower.compaction ≤ s'.follower.compaction := by
  simp only [step] at h
  split_ifs at h with hpos
  obtain rfl := Option.some.inj h
  refine ⟨hi.setDB (fun row hrow => ?_) fun r hc => ?_, le_rfl⟩
  · rcases mem_of_mem_replicateRecordIn hrow with hrow | hsame
    · exact hi.rows row hrow
    · rw [hsame.revision_eq]
      exact hpos
  · obtain ⟨row, hrow, hrest⟩ := hc
    exact ⟨row, subset_replicateRecordIn hrow, hrest⟩

theorem inv_executeCompaction {now : Time} {i : ℕ} (hi : Inv s)
    (h : step s (.executeCompaction now i) = some s') :
    Inv s' ∧ s.follower.compaction ≤ s'.follower.compaction := by
  obtain rfl := Option.some.inj h
  unfold runCompaction
  split
  · refine ⟨hi.setDB (fun row hrow => ?_) fun r hc => Compacted.executeCompaction hc, le_rfl⟩
    obtain ⟨old, hold, hkept⟩ := mem_executeCompaction hrow
    rw [hkept.revision_eq]
    exact hi.rows old hold
  · exact ⟨hi, le_rfl⟩

theorem inv_notice (hi : Inv s) (hok : Forward s (.notice c)) (h : step s (.notice c) = some s') :
    Inv s' ∧ s.follower.compaction ≤ s'.follower.compaction := by
  simp only [step] at h
  split_ifs at h with hseeded
  obtain rfl := Option.some.inj h
  refine ⟨⟨hi.rows, hi.marks, hi.unseeded, hi.seeded, hi.quiet, fun r hr =>
    (hi.refused r hr).mono ?_ fun r hc => hc⟩, le_rfl⟩
  rw [level_of_seeded hseeded]
  exact (max_le (le_max_left _ _) hok).trans (if_pos hseeded).ge

theorem inv_watch (hi : Inv s) (h : step s (.watch r) = some s') :
    Inv s' ∧ s.follower.compaction ≤ s'.follower.compaction := by
  simp only [step] at h
  split_ifs at h with hseeded hrefused
  · obtain rfl := Option.some.inj h
    refine ⟨⟨hi.rows, hi.marks, hi.unseeded, hi.seeded, hi.quiet, ?_⟩, le_rfl⟩
    exact List.forall_mem_cons.mpr
      ⟨(createWatch_compacted_iff hi.rows hseeded).mp hrefused, hi.refused⟩
  · obtain rfl := Option.some.inj h
    exact ⟨hi, le_rfl⟩

/-- **A step** keeps the invariant, and only a restart lowers the compaction revision. -/
theorem inv_step (hi : Inv s) (hok : Forward s a) (h : step s a = some s') :
    Inv s' ∧ (a.isRestart = false → s.follower.compaction ≤ s'.follower.compaction) := by
  cases a with
  | restart => exact ⟨inv_restart hi hok h, fun hr => by cases hr⟩
  | seedFromLocalDB env attempt after => exact (inv_seedFromLocalDB hi h).imp_right fun hle _ => hle
  | importRecord now record => exact (inv_importRecord hi h).imp_right fun hle _ => hle
  | initial committed compaction => exact (inv_initial hi hok h).imp_right fun hle _ => hle
  | seedFromPrimary => exact (inv_seedFromPrimary hi h).imp_right fun hle _ => hle
  | compact compaction => exact (inv_compact hi hok h).imp_right fun hle _ => hle
  | executeCompaction now i => exact (inv_executeCompaction hi h).imp_right fun hle _ => hle
  | notice revision => exact (inv_notice hi hok h).imp_right fun hle _ => hle
  | watch startRevision => exact (inv_watch hi h).imp_right fun hle _ => hle

end Netsy.Node.CompactionRevision
