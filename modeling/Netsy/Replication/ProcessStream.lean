import Netsy.LocalDB.Compaction
import Netsy.LocalDB.Replicate

/-! # The Follower

What a Replica does with the messages of a Follow stream (`processStream`): an `Initial` and a
`Commit` store the committed revision they carry, whatever it is; a `Record` is written as a
tentative row and receipted; a `Compact` is stored and executed later by a goroutine. -/

namespace Netsy.Replication.ProcessStream

open Proto LocalDB.Schema LocalDB.Replicate LocalDB.Compaction

/-- The part of a node that the messages of its Primary change: the local database and
`state.Committed`, `state.Compaction`. -/
structure Follower where
  db : Table
  compactions : Compactions
  committed : ℤ
  compaction : ℤ
  /-- The compactions whose goroutine has not run yet. -/
  compacting : List ℤ
deriving DecidableEq

def handleInitial (f : Follower) (committedRevision compactionRevision : ℤ) : Follower :=
  { f with
    compactions :=
      if 0 < compactionRevision ∧ latestCompactionRevision f.compactions = 0 then
        persistCompactionRevision f.compactions compactionRevision
      else f.compactions
    committed := committedRevision
    compaction := compactionRevision }

/-- `handleRecord`; without an error the record is receipted. -/
def handleRecord (f : Follower) (now : Time) (record : Record) :
    Follower × Except ReplicateError Record :=
  let res := replicateTentativeRecord f.db now record f.committed
  ({ f with db := res.1 }, res.2)

def handleCommit (f : Follower) (committedRevision : ℤ) : Follower :=
  { f with committed := committedRevision }

def handleCompact (f : Follower) (compactionRevision : ℤ) : Follower :=
  { f with
    compactions := persistCompactionRevision f.compactions compactionRevision
    compaction := compactionRevision
    compacting := f.compacting ++ [compactionRevision] }

/-- One round of `processStream`: an error ends the stream, `some r` is a Receipt for `r`. -/
def processMessage (f : Follower) (now : Time) :
    PrimaryMessage → Follower × Except ReplicateError (Option ℤ)
  | .initial committed compaction => (handleInitial f committed compaction, .ok none)
  | .record record =>
    let res := handleRecord f now record
    (res.1, res.2.map fun _ => some record.revision)
  | .commit committed => (handleCommit f committed, .ok none)
  | .compact compaction => (handleCompact f compaction, .ok none)

/-- The goroutine of one of the compactions runs. -/
def runCompaction (f : Follower) (now : Time) (i : ℕ) : Follower :=
  match f.compacting[i]? with
  | some c =>
    { f with db := executeCompaction f.db now c, compacting := f.compacting.eraseIdx i }
  | none => f

/-- The node has a copy of the record. -/
def Held (f : Follower) (r : Record) : Prop := ∃ b ∈ f.db, SameRecord b r

instance (f : Follower) (r : Record) : Decidable (Held f r) :=
  inferInstanceAs (Decidable (∃ b ∈ f.db, SameRecord b r))

theorem held_runCompaction {f : Follower} {r : Record} (h : Held f r) (now : Time) (i : ℕ) :
    Held (runCompaction f now i) r := by
  obtain ⟨b, hb, hs⟩ := h
  unfold runCompaction
  split
  · obtain ⟨b', hb', hk⟩ := exists_mem_executeCompaction hb
    exact ⟨b', hb', hk.sameRecord hs⟩
  · exact ⟨b, hb, hs⟩

/-! ### Runs -/

/-- What happens at a Replica: a message of some Primary arrives, or a compaction runs. -/
inductive Event
  | message (now : Time) (msg : PrimaryMessage)
  | compaction (now : Time) (i : ℕ)
deriving DecidableEq, Repr

def step (f : Follower) : Event → Follower
  | .message now msg => (processMessage f now msg).1
  | .compaction now i => runCompaction f now i

def run (f : Follower) (es : List Event) : Follower := es.foldl step f

/-- The committed revisions that the messages of a run carry, in order. -/
def announced (es : List Event) : List ℤ :=
  es.filterMap fun
    | .message _ (.initial c _) => some c
    | .message _ (.commit c) => some c
    | _ => none

variable {f : Follower} {e : Event} {es as bs : List Event} {c : ℤ} {b : Record}

@[simp] theorem run_nil : run f [] = f := rfl

@[simp] theorem run_cons : run f (e :: es) = run (step f e) es := rfl

theorem run_append : run f (as ++ bs) = run (run f as) bs := List.foldl_append

/-- An event either announces a committed revision, which is then the node's, or leaves the
node's committed revision. -/
theorem step_committed (f : Follower) (e : Event) (es : List Event) :
    announced (e :: es) = (step f e).committed :: announced es ∨
      ((step f e).committed = f.committed ∧ announced (e :: es) = announced es) := by
  cases e with
  | message now msg =>
    cases msg with
    | initial c k => exact Or.inl rfl
    | commit c => exact Or.inl rfl
    | record r => exact Or.inr ⟨rfl, rfl⟩
    | compact k => exact Or.inr ⟨rfl, rfl⟩
  | compaction now i =>
    refine Or.inr ⟨?_, rfl⟩
    simp only [step, runCompaction]
    split <;> rfl

theorem exists_kept_step (hb : b ∈ f.db) (hle : b.revision ≤ f.committed) :
    ∃ b' ∈ (step f e).db, Kept b b' := by
  cases e with
  | message now msg =>
    cases msg with
    | initial c k => exact ⟨b, hb, Kept.refl b⟩
    | commit c => exact ⟨b, hb, Kept.refl b⟩
    | record r => exact ⟨b, subset_replicateTentativeRecord hb hle, Kept.refl b⟩
    | compact k => exact ⟨b, hb, Kept.refl b⟩
  | compaction now i =>
    simp only [step, runCompaction]
    split
    · exact exists_mem_executeCompaction hb
    · exact ⟨b, hb, Kept.refl b⟩

/-! ### The committed revision and the rows below it -/

/-- The announced revisions never go back, from `c` on. -/
def NeverBack (c : ℤ) (es : List Event) : Prop := (c :: announced es).Pairwise (· ≤ ·)

theorem neverBack_cons :
    NeverBack f.committed (e :: es) ↔
      f.committed ≤ (step f e).committed ∧ NeverBack (step f e).committed es := by
  unfold NeverBack
  rcases step_committed f e es with h | ⟨hc, h⟩
  · rw [h]
    constructor
    · intro hp
      obtain ⟨h1, h2⟩ := List.pairwise_cons.mp hp
      exact ⟨h1 _ (by simp), h2⟩
    · rintro ⟨h1, h2⟩
      refine List.pairwise_cons.mpr ⟨fun x hx => ?_, h2⟩
      rcases List.mem_cons.mp hx with rfl | hx
      · exact h1
      · exact h1.trans ((List.pairwise_cons.mp h2).1 x hx)
  · rw [h, hc]
    exact ⟨fun hp => ⟨le_refl _, hp⟩, fun hp => hp.2⟩

theorem neverBack_append (h : NeverBack f.committed (as ++ bs)) :
    f.committed ≤ (run f as).committed ∧ NeverBack (run f as).committed bs := by
  induction as generalizing f with
  | nil => exact ⟨le_refl _, h⟩
  | cons e as ih =>
    obtain ⟨h1, h2⟩ := neverBack_cons.mp h
    obtain ⟨h3, h4⟩ := ih h2
    exact ⟨h1.trans h3, h4⟩

theorem exists_kept_run (h : NeverBack f.committed es) (hb : b ∈ f.db)
    (hle : b.revision ≤ f.committed) : ∃ b' ∈ (run f es).db, Kept b b' := by
  induction es generalizing f b with
  | nil => exact ⟨b, hb, Kept.refl b⟩
  | cons e es ih =>
    obtain ⟨h1, h2⟩ := neverBack_cons.mp h
    obtain ⟨b1, hb1, hk1⟩ := exists_kept_step (e := e) hb hle
    obtain ⟨b2, hb2, hk2⟩ := ih h2 hb1 (by rw [hk1.revision_eq]; omega)
    exact ⟨b2, hb2, hk1.trans hk2⟩

/-- **The committed revision of a node never goes back, and no row at or below a committed
revision it has held is replaced, exactly if the revisions its Primaries announce never go
back.** `as` runs up to the moment the committed revision is held, `bs` up to the moment the row
is there. -/
theorem committed_never_back_iff (f : Follower) (es : List Event) :
    (∀ as bs cs, es = as ++ bs ++ cs →
      (run f as).committed ≤ (run f (as ++ bs)).committed ∧
        ∀ b ∈ (run f (as ++ bs)).db, b.revision ≤ (run f as).committed →
          ∃ b' ∈ (run f es).db, Kept b b') ↔
      NeverBack f.committed es := by
  constructor
  · intro h
    induction es generalizing f with
    | nil => simp [NeverBack, announced]
    | cons e es ih =>
      refine neverBack_cons.mpr ⟨(h [] [e] es rfl).1, ih (step f e) fun as bs cs hs => ?_⟩
      exact h (e :: as) bs cs (by rw [hs]; rfl)
  · rintro h as bs cs rfl
    rw [List.append_assoc] at h
    obtain ⟨-, h1⟩ := neverBack_append h
    obtain ⟨h2, h3⟩ := neverBack_append h1
    refine ⟨by rw [run_append]; exact h2, fun b hb hle => ?_⟩
    rw [run_append] at hb
    rw [List.append_assoc, run_append, run_append]
    exact exists_kept_run h3 hb (hle.trans h2)

/-- A second Primary, elected with the committed revision 1, announces it to a Replica that has
the revision 2 committed, and then streams another record at 2. -/
theorem initial_takes_committed_back :
    let a : Record := { revision := 2, key := [97], created := true, value := [1], leaderId := "p" }
    let b : Record := { a with value := [2], leaderId := "q" }
    let f : Follower :=
      { db := .empty, compactions := [], committed := 0, compaction := 0, compacting := [] }
    let before : List Event :=
      [.message 10 (.initial 1 0), .message 11 (.record a), .message 12 (.commit 2)]
    let after : List Event := [.message 20 (.initial 1 0), .message 21 (.record b)]
    (run f before).committed = 2 ∧ (run f (before ++ after)).committed = 1 ∧
      (∃ r ∈ (run f before).db.rows, r.revision = 2 ∧ SameRecord r a) ∧
      (∃ r ∈ (run f (before ++ after)).db.rows, r.revision = 2 ∧ SameRecord r b) ∧
      ¬ SameRecord a b := by
  decide

end Netsy.Replication.ProcessStream
