import Netsy.Replication.Replay
import Netsy.Snapshot.Restore

/-! # Records in any order

A node gets the records of the log from snapshots and chunks, which overlap, and from Follow
streams, which repeat them. What it answers depends only on which records it has got, not on their
order, on how often they came or on the way. -/

namespace Netsy.Replication.Convergence

open Proto Lib.Run Lib.SortedList Datastore LocalDB.Schema
open LocalDB.Replicate CommonAPI.Range Datafile.Import
open Replication.ProcessStream Replication.Replay Snapshot.Restore

/-- Records arrive at a node that knows this revision to be committed. -/
structure Arrival where
  now : Time
  committed : ℤ
  incoming : Incoming

/-- The node takes the records, unless it fails. -/
def step (t : Table) (x : Arrival) : Option Table :=
  let res := replay ⟨t, [], x.committed, 0, []⟩ x.now x.incoming
  if res.2 then some res.1 else none

/-- A record of the revision is among the arrivals. -/
def arrived (xs : List Arrival) (revision : ℤ) : Bool :=
  xs.any fun x => x.incoming.records.any fun r => r.revision = revision

/-- The rows of the table with these revisions. -/
def restrict (t : Table) (p : ℤ → Bool) : Table where
  rows := t.rows.filter fun r => p r.revision
  sorted := ascending_filter t.sorted _
  unique := t.unique.filter _

/-- The records are copies of rows of the log. -/
def FromLog (log : Table) (rs : List Record) : Prop := ∀ r ∈ rs, ∃ a ∈ log, bare a = bare r

instance (log : Table) (rs : List Record) : Decidable (FromLog log rs) :=
  inferInstanceAs (Decidable (∀ r ∈ rs, _))

variable {log t t' : Table} {now : Time} {committed : ℤ} {a b r : Record} {rs : List Record}
  {p : Incoming} {xs : List Arrival} {x : Arrival} {f : Follower}

/-- What the records do to a table that takes them all. -/
structure Takes (t t' : Table) (rs : List Record) : Prop where
  kept : ∀ b ∈ t, b ∈ t'
  taken : ∀ r ∈ rs, ∃ b ∈ t', bare b = bare r
  new : ∀ b ∈ t', b ∈ t ∨ ∃ r ∈ rs, bare b = bare r

theorem Takes.fromLog (h : Takes t t' rs) (ht : FromLog log t.rows) (hrs : FromLog log rs) :
    FromLog log t'.rows := by
  intro b hb
  rcases h.new b hb with hb | ⟨r, hr, he⟩
  · exact ht b hb
  · obtain ⟨a, ha, he'⟩ := hrs r hr
    exact ⟨a, ha, he'.trans he.symm⟩

/-- The table of a node that has got these revisions of the log. -/
structure Holds (log : Table) (p : ℤ → Bool) (t : Table) : Prop where
  rows : FromLog log t.rows
  revisions : ∀ revision, (∃ b ∈ t, b.revision = revision) ↔ p revision = true

section Accepted

variable (hlog : ∀ a ∈ log, a.revision ≠ 0 ∧ a.key ≠ [])
include hlog

/-- **A record of the log is accepted** by a table of such records: what stands in the way of a copy
would stand in the way of the row of the log. -/
theorem accepts_of_fromLog (ht : FromLog log t.rows) (ha : a ∈ log) (he : bare a = bare r) :
    Accepts t r := by
  obtain ⟨hrev, hkey⟩ := hlog a ha
  have hkeys : a.key = r.key := (congrArg Record.key he :)
  refine ⟨revision_eq_of_bare he ▸ hrev, hkeys ▸ hkey, fun b hb hclash => ?_⟩
  obtain ⟨a', ha', he'⟩ := ht b hb
  have hsame : a' = a := by
    rcases hclash with hclash | hclash
    · exact Table.eq_of_revision_eq ha' ha
        ((revision_eq_of_bare he').trans (hclash.trans (revision_eq_of_bare he).symm))
    · by_contra hne
      have hi : indexKey a' = indexKey b := (congrArg indexKey he' :)
      have hi' : indexKey a = indexKey r := (congrArg indexKey he :)
      exact Table.indexKey_ne_of_ne ha' ha hne (hi.trans (hclash.trans hi'.symm))
  exact recordsEqual_iff_bare.mpr (he'.symm.trans ((congrArg bare hsame).trans he))

theorem exists_importRecords (ht : FromLog log t.rows) (hrs : FromLog log rs) (i : ℕ) :
    ∃ t', importRecords now none i rs t = (t', .ok ()) := by
  induction rs generalizing t i with
  | nil => exact ⟨t, rfl⟩
  | cons r rs ih =>
    obtain ⟨a, ha, he⟩ := hrs r List.mem_cons_self
    obtain ⟨⟨u, row⟩, hok⟩ : ∃ q, replicateRecord t now r = .ok q :=
      exists_replicateRecord_ok_iff.mpr (accepts_of_fromLog hlog ht ha he)
    obtain ⟨hrow, -, -, hnew⟩ := replicateRecord_ok hok
    have hu : FromLog log u.rows := by
      intro b hb
      rcases hnew b hb with hb | rfl
      · exact ht b hb
      · exact ⟨a, ha, he.trans (recordsEqual_iff_bare.mp hrow).symm⟩
    obtain ⟨t', hrest⟩ := ih hu (fun x hx => hrs x (List.mem_cons_of_mem _ hx)) (i + 1)
    exact ⟨t', by simp only [importRecords, reduceCtorEq, if_false, hok, hrest]⟩

theorem exists_replay (ht : FromLog log f.db.rows) (hp : FromLog log p.records) :
    ∃ t', replay f now p = (t', true) ∧ Takes f.db t' p.records := by
  cases p with
  | dataFile records =>
    obtain ⟨t', hok⟩ : ∃ t', importRecords now none 0 records f.db = (t', .ok ()) :=
      exists_importRecords hlog ht hp 0
    obtain ⟨hkept, htaken, hnew⟩ := importRecords_ok hok
    refine ⟨t', by simp only [replay, hok]; rfl, hkept, fun r hr => ?_, fun b hb => ?_⟩
    · obtain ⟨b, hb, he⟩ := htaken r hr
      exact ⟨b, hb, recordsEqual_iff_bare.mp he⟩
    · rcases hnew b hb with hb | ⟨r, hr, he⟩
      · exact Or.inl hb
      · exact Or.inr ⟨r, hr, recordsEqual_iff_bare.mp he⟩
  | broadcast record =>
    obtain ⟨a, ha, he⟩ := hp record List.mem_cons_self
    obtain ⟨⟨t', row⟩, hok⟩ : ∃ q, replicateRecord f.db now record = .ok q :=
      exists_replicateRecord_ok_iff.mpr (accepts_of_fromLog hlog ht ha he)
    obtain ⟨hrow, hmem, hkept, hnew⟩ := replicateRecord_ok hok
    have hcall : replicateTentativeRecord f.db now record f.committed = (t', .ok row) := by
      rw [replicateTentativeRecord_eq, replicateRecordIn_eq]
      split_ifs <;> simp only [hok]
    refine ⟨t', by simp only [replay, handleRecord, hcall]; rfl, hkept, fun r hr => ?_,
      fun b hb => ?_⟩
    · obtain rfl := List.mem_singleton.mp hr
      exact ⟨row, hmem, recordsEqual_iff_bare.mp hrow⟩
    · rcases hnew b hb with hb | rfl
      · exact Or.inl hb
      · exact Or.inr ⟨record, List.mem_cons_self, recordsEqual_iff_bare.mp hrow⟩

theorem holds_step {q : ℤ → Bool} (h : Holds log q t) (hx : FromLog log x.incoming.records) :
    ∃ t', step t x = some t' ∧ Holds log (fun rev => q rev || arrived [x] rev) t' := by
  obtain ⟨t', hreplay, htakes⟩ : ∃ t', replay ⟨t, [], x.committed, 0, []⟩ x.now x.incoming =
      (t', true) ∧ Takes t t' x.incoming.records := exists_replay hlog h.rows hx
  refine ⟨t', by simp only [step, hreplay, if_true], htakes.fromLog h.rows hx, fun rev => ?_⟩
  rw [Bool.or_eq_true, ← h.revisions rev]
  simp only [arrived, List.any_cons, List.any_nil, Bool.or_false, List.any_eq_true,
    decide_eq_true_eq]
  constructor
  · rintro ⟨b, hb, rfl⟩
    rcases htakes.new b hb with hb | ⟨r, hr, he⟩
    · exact Or.inl ⟨b, hb, rfl⟩
    · exact Or.inr ⟨r, hr, (revision_eq_of_bare he).symm⟩
  · rintro (⟨b, hb, rfl⟩ | ⟨r, hr, rfl⟩)
    · exact ⟨b, htakes.kept b hb, rfl⟩
    · obtain ⟨b, hb, he⟩ := htakes.taken r hr
      exact ⟨b, hb, revision_eq_of_bare he⟩

theorem holds_run {q : ℤ → Bool} (h : Holds log q t)
    (hxs : ∀ x ∈ xs, FromLog log x.incoming.records) :
    ∃ t', exec step t xs = some t' ∧ Holds log (fun rev => q rev || arrived xs rev) t' := by
  induction xs generalizing t q with
  | nil => exact ⟨t, rfl, by simpa [arrived] using h⟩
  | cons x xs ih =>
    obtain ⟨t₁, hs, h₁⟩ := holds_step hlog h (hxs x List.mem_cons_self)
    obtain ⟨t', hrun, h'⟩ := ih h₁ fun y hy => hxs y (List.mem_cons_of_mem _ hy)
    refine ⟨t', exec_cons_eq_some.mpr ⟨t₁, hs, hrun⟩, ?_⟩
    simpa [arrived, Bool.or_assoc] using h'

end Accepted

/-- The rows are those of the log, up to what each copy is stamped with. -/
theorem Holds.bareTable_eq {q : ℤ → Bool} (h : Holds log q t) :
    bareTable t = bareTable (restrict log q) := by
  refine bareTable_congr (ascending_ext (bareTable t).sorted (bareTable (restrict log q)).sorted
    fun c => ?_)
  simp only [restrict, List.mem_map, List.mem_filter]
  constructor
  · rintro ⟨b, hb, rfl⟩
    obtain ⟨a, ha, he⟩ := h.rows b hb
    exact ⟨a, ⟨ha, (h.revisions _).mp ⟨b, hb, (revision_eq_of_bare he).symm⟩⟩, he⟩
  · rintro ⟨a, ⟨ha, hq⟩, rfl⟩
    obtain ⟨b, hb, hrev⟩ := (h.revisions _).mpr hq
    obtain ⟨a', ha', he⟩ := h.rows b hb
    have hsame : a' = a := Table.eq_of_revision_eq ha' ha ((revision_eq_of_bare he).trans hrev)
    exact ⟨b, hb, hsame ▸ he.symm⟩

/-- **The answers of a node depend only on which records have arrived.** In whatever order, however
often and by whichever way copies of rows of a log arrive at an empty node, it takes them all, and
it answers every request from the rows of the log that have arrived. -/
theorem arrivals_determine_answers (log : Table) (hlog : ∀ a ∈ log, a.revision ≠ 0 ∧ a.key ≠ [])
    (hxs : ∀ x ∈ xs, FromLog log x.incoming.records) :
    ∃ t, exec step Table.empty xs = some t ∧
      ∀ req committed, range t req committed = range (restrict log (arrived xs)) req committed := by
  have hempty : Holds log (fun _ => false) Table.empty :=
    ⟨fun b hb => absurd hb List.not_mem_nil, fun rev => by simp [Table.empty, Table.mem_def]⟩
  obtain ⟨t, hrun, h⟩ := holds_run hlog hempty hxs
  refine ⟨t, hrun, fun req committed => ?_⟩
  rw [← range_bareTable, h.bareTable_eq, range_bareTable]
  simp

/-- Chunks of the two rows that come in the wrong order and overlap, and a broadcast. -/
def shuffled : List Arrival :=
  [⟨7, 0, .dataFile createdRows.reverse⟩, ⟨8, 0, .dataFile [createdRows[0]]⟩,
    ⟨9, 1, .broadcast createdRows[1]⟩]

theorem arrivals_determine_answers_shuffled :
    ∃ t, exec step Table.empty shuffled = some t ∧
      ∀ req committed, range t req committed = range twoCreated req committed :=
  arrivals_determine_answers twoCreated (by decide) (by decide)

end Netsy.Replication.Convergence
