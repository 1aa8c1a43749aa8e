import Netsy.CommonAPI.RangeQuery
import Netsy.LocalDB.Schema

/-! # Finding records

`FindRecordsBy` and `FindRecordsForRangeStream` select, among the rows that satisfy a `WHERE`
clause and lie at or below a revision, the latest row of each key unless it is a deletion, in the
order of the keys. `FindRecordsBy` puts the number of these rows into a row of its own and takes
the first row of the answer for it. The row's key is the text `''`, which SQLite orders before
every blob: in descending order it comes last. -/

namespace Netsy.LocalDB.Find

open Proto LocalDB.Schema Lib.SortedList CommonAPI.RangeQuery

inductive Order
  | asc | desc
deriving DecidableEq, Repr

/-- The rows of `filtered`. A revision that is not positive leaves out the condition on it. -/
def filtered (t : Table) (w : Where) (revision : ℤ) : List Record :=
  t.rows.filter fun r => w.holds r.key && (revision ≤ 0 || r.revision ≤ revision)

/-- `rn = 1`: no row of the key has a larger revision. -/
def isLatest (rows : List Record) (r : Record) : Bool :=
  rows.all fun b => b.key ≠ r.key || b.revision ≤ r.revision

/-- `WHERE rn = 1 AND deleted = 0`. -/
def latestLive (rows : List Record) : List Record :=
  rows.filter fun r => isLatest rows r && !r.deleted

/-- The records of the answer, in ascending order of their keys. -/
def selected (t : Table) (w : Where) (revision : ℤ) : List Record :=
  sortBy Record.key (latestLive (filtered t w revision))

/-- The row with the count of the records, which is `0` in all its other columns. -/
def metadataRow (recs : List Record) : ℤ × Record := ((recs.length : ℤ), {})

/-- The rows of the answer of `FindRecordsBy`, each with its `records_count`. -/
def answer (recs : List Record) : Order → List (ℤ × Record)
  | .asc => metadataRow recs :: recs.map fun r => (0, r)
  | .desc => (recs.reverse.map fun r => (0, r)) ++ [metadataRow recs]

/-- `LIMIT`, with one row more for the metadata. -/
def limitAnswer (limit : ℤ) (rows : List (ℤ × Record)) : List (ℤ × Record) :=
  if 0 < limit then rows.take (limit + 1).toNat else rows

/-- The loop over the rows of the answer: the first one is taken for the metadata row, whatever it
is. -/
def scanAnswer : List (ℤ × Record) → List Record × ℤ
  | [] => ([], 0)
  | (count, _) :: rest => (rest.map Prod.snd, count)

/-- `FindRecordsBy`: the records and the total count. -/
def findRecordsBy (t : Table) (w : Where) (revision limit : ℤ) (order : Order) :
    List Record × ℤ :=
  scanAnswer (limitAnswer limit (answer (selected t w revision) order))

/-- The cursor clause; an empty `afterKey` leaves it out. -/
def afterCursor (order : Order) (afterKey : Bytes) (r : Record) : Bool :=
  afterKey = [] ||
    match order with
    | .asc => afterKey < r.key
    | .desc => r.key < afterKey

def findRecordsForRangeStream (t : Table) (w : Where) (revision limit : ℤ) (order : Order)
    (afterKey : Bytes) : List Record :=
  let recs := (selected t w revision).filter (afterCursor order afterKey)
  let rows := if order = .asc then recs else recs.reverse
  if 0 < limit then rows.take limit.toNat else rows

/-! ### The rows that a query returns -/

variable {t : Table} {w : Where} {revision limit : ℤ} {order : Order} {rows : List Record}
  {afterKey : Bytes} {r : Record}

theorem mem_filtered : r ∈ filtered t w revision ↔
    r ∈ t ∧ w.holds r.key = true ∧ (revision ≤ 0 ∨ r.revision ≤ revision) := by
  simp [filtered, Table.mem_def]

theorem isLatest_iff : isLatest rows r = true ↔
    ∀ b ∈ rows, b.key = r.key → b.revision ≤ r.revision := by
  simp [isLatest, ← imp_iff_not_or]

theorem mem_latestLive : r ∈ latestLive rows ↔
    r ∈ rows ∧ isLatest rows r = true ∧ r.deleted = false := by
  simp [latestLive]

theorem mem_selected : r ∈ selected t w revision ↔
    r ∈ filtered t w revision ∧ isLatest (filtered t w revision) r = true ∧ r.deleted = false := by
  rw [selected, mem_sortBy, mem_latestLive]

theorem ascending_selected : Ascending Record.key (selected t w revision) := by
  refine ascending_sortBy ?_
  have hrows : (latestLive (filtered t w revision)).Pairwise fun a b => a.revision < b.revision :=
    (t.sorted.filter _).filter _
  refine hrows.imp_of_mem fun {a b} ha hb hab he => ?_
  -- of two rows of one key the earlier one is not the latest
  have hle := isLatest_iff.mp (mem_latestLive.mp ha).2.1 b (mem_latestLive.mp hb).1 he.symm
  omega

theorem length_selected_le : (selected t w revision).length ≤ t.rows.length := by
  rw [selected, length_sortBy]
  exact (List.length_filter_le _ _).trans (List.length_filter_le _ _)

theorem limitAnswer_asc (limit : ℤ) (recs : List Record) :
    ∃ rest, limitAnswer limit (answer recs .asc) = metadataRow recs :: rest := by
  unfold limitAnswer answer
  by_cases hpos : 0 < limit
  · have hone : (limit + 1).toNat = limit.toNat + 1 := by omega
    rw [if_pos hpos, hone, List.take_succ_cons]
    exact ⟨_, rfl⟩
  · rw [if_neg hpos]
    exact ⟨_, rfl⟩

theorem count_findRecordsBy_asc :
    (findRecordsBy t w revision limit .asc).2 = (selected t w revision).length := by
  obtain ⟨rest, hrest⟩ := limitAnswer_asc limit (selected t w revision)
  rw [findRecordsBy, hrest]
  rfl

theorem findRecordsBy_asc : (findRecordsBy t w revision 0 .asc).1 = selected t w revision := by
  simp [findRecordsBy, limitAnswer, answer, scanAnswer, Function.comp_def]

theorem findRecordsBy_asc_of_pos (hpos : 0 < limit) :
    (findRecordsBy t w revision limit .asc).1 = (selected t w revision).take limit.toNat := by
  have hone : (limit + 1).toNat = limit.toNat + 1 := by omega
  rw [findRecordsBy, limitAnswer, if_pos hpos, answer, hone, List.take_succ_cons, ← List.map_take]
  simp [scanAnswer, Function.comp_def]

theorem mem_limitAnswer {rows : List (ℤ × Record)} {row : ℤ × Record}
    (h : row ∈ limitAnswer limit rows) : row ∈ rows := by
  unfold limitAnswer at h
  split_ifs at h
  · exact List.mem_of_mem_take h
  · exact h

theorem mem_answer {recs : List Record} {row : ℤ × Record} (h : row ∈ answer recs order) :
    row.2 ∈ recs ∨ row.2 = {} := by
  cases order with
  | asc =>
    rcases List.mem_cons.mp h with rfl | h
    · exact Or.inr rfl
    · obtain ⟨b, hb, rfl⟩ := List.mem_map.mp h
      exact Or.inl hb
  | desc =>
    rcases List.mem_append.mp h with h | h
    · obtain ⟨b, hb, rfl⟩ := List.mem_map.mp h
      exact Or.inl (List.mem_reverse.mp hb)
    · rw [List.mem_singleton.mp h]
      exact Or.inr rfl

theorem mem_findRecordsBy (h : r ∈ (findRecordsBy t w revision limit order).1) :
    r ∈ selected t w revision ∨ r = {} := by
  unfold findRecordsBy at h
  cases hrows : limitAnswer limit (answer (selected t w revision) order) with
  | nil =>
    rw [hrows] at h
    simp [scanAnswer] at h
  | cons row rest =>
    rw [hrows] at h
    obtain ⟨row', hrow', rfl⟩ := List.mem_map.mp h
    exact mem_answer (mem_limitAnswer (hrows ▸ List.mem_cons_of_mem row hrow'))

theorem findRecordsBy_singleton (h : selected t w revision = [r]) :
    (findRecordsBy t w revision limit order).1 = [if order = .asc then r else {}] := by
  have htake : limitAnswer limit (answer [r] order) = answer [r] order := by
    unfold limitAnswer
    by_cases hpos : 0 < limit
    · have hlen : (answer [r] order).length = 2 := by cases order <;> rfl
      rw [if_pos hpos, List.take_of_length_le (by omega)]
    · rw [if_neg hpos]
  rw [findRecordsBy, h, htake]
  cases order <;> rfl

theorem findRecordsBy_of_nil (h : selected t w revision = []) :
    (findRecordsBy t w revision limit order).1 = [] := by
  have htake : limitAnswer limit (answer [] order) = answer [] order := by
    unfold limitAnswer
    by_cases hpos : 0 < limit
    · have hlen : (answer [] order).length = 1 := by cases order <;> rfl
      rw [if_pos hpos, List.take_of_length_le (by omega)]
    · rw [if_neg hpos]
  rw [findRecordsBy, h, htake]
  cases order <;> rfl

theorem mem_findRecordsForRangeStream
    (h : r ∈ findRecordsForRangeStream t w revision limit order afterKey) :
    r ∈ selected t w revision := by
  unfold findRecordsForRangeStream at h
  dsimp only at h
  have h' : r ∈ (if order = .asc then (selected t w revision).filter (afterCursor order afterKey)
      else ((selected t w revision).filter (afterCursor order afterKey)).reverse) := by
    split_ifs at h ⊢
    all_goals first | exact List.mem_of_mem_take h | exact h
  split_ifs at h'
  · exact List.mem_of_mem_filter h'
  · exact List.mem_of_mem_filter (List.mem_reverse.mp h')

/-! ### Reads at a revision -/

/-- The rows up to a revision. -/
def upTo (t : Table) (revision : ℤ) : List Record := t.rows.filter fun r => r.revision ≤ revision

/-- The tables have the same rows up to a revision. -/
def AgreeUpTo (revision : ℤ) (t t' : Table) : Prop := upTo t revision = upTo t' revision

variable {t' : Table} {committed : ℤ}

theorem filtered_eq_filter_upTo (hpos : 0 < revision) (hle : revision ≤ committed) :
    filtered t w revision =
      (upTo t committed).filter fun r => w.holds r.key && r.revision ≤ revision := by
  rw [upTo, List.filter_filter, filtered]
  refine List.filter_congr fun r _ => ?_
  have hneg : decide (revision ≤ 0) = false := decide_eq_false (by omega)
  rw [hneg, Bool.false_or]
  by_cases hr : r.revision ≤ revision
  · have hr' : r.revision ≤ committed := by omega
    simp [hr, hr']
  · simp [hr]

theorem selected_congr (h : AgreeUpTo committed t t') (hpos : 0 < revision)
    (hle : revision ≤ committed) : selected t w revision = selected t' w revision := by
  have hf : filtered t w revision = filtered t' w revision := by
    rw [filtered_eq_filter_upTo hpos hle, filtered_eq_filter_upTo hpos hle, show upTo t committed =
      upTo t' committed from h]
  rw [selected, selected, hf]

theorem findRecordsBy_congr (h : selected t w revision = selected t' w revision) :
    findRecordsBy t w revision limit order = findRecordsBy t' w revision limit order := by
  unfold findRecordsBy
  rw [h]

theorem findRecordsForRangeStream_congr (h : selected t w revision = selected t' w revision) :
    findRecordsForRangeStream t w revision limit order afterKey =
      findRecordsForRangeStream t' w revision limit order afterKey := by
  unfold findRecordsForRangeStream
  rw [h]

/-! ### Reads of changed rows -/

variable {f : Record → Record}

theorem selected_of_mem_iff (hkey : ∀ b ∈ t, (f b).key = b.key)
    (hrevision : ∀ b ∈ t, (f b).revision = b.revision)
    (hdeleted : ∀ b ∈ t, (f b).deleted = b.deleted)
    (h : ∀ a, a ∈ t' ↔ ∃ b ∈ t, f b = a) :
    selected t' w revision = (selected t w revision).map f := by
  have hmem : ∀ b ∈ t, f b ∈ filtered t' w revision ↔ b ∈ filtered t w revision := by
    intro b hb
    rw [mem_filtered, mem_filtered, hkey b hb, hrevision b hb, h]
    exact and_congr_left fun _ => iff_of_true ⟨b, hb, rfl⟩ hb
  have hlatest : ∀ b ∈ t, isLatest (filtered t' w revision) (f b) = true ↔
      isLatest (filtered t w revision) b = true := by
    intro b hb
    rw [isLatest_iff, isLatest_iff, hkey b hb, hrevision b hb]
    constructor
    · intro hall a ha hk
      have hat : a ∈ t := (mem_filtered.mp ha).1
      have hle := hall (f a) ((hmem a hat).mpr ha) ((hkey a hat).trans hk)
      rwa [hrevision a hat] at hle
    · intro hall a ha hk
      obtain ⟨a, hat, rfl⟩ := (h a).mp (mem_filtered.mp ha).1
      rw [hrevision a hat]
      exact hall a ((hmem a hat).mp ha) ((hkey a hat).symm.trans hk)
  have hmap : Ascending Record.key ((selected t w revision).map f) := by
    refine List.pairwise_map.mpr (ascending_selected.imp_of_mem fun {a b} ha hb hab => ?_)
    rwa [hkey a (mem_filtered.mp (mem_selected.mp ha).1).1,
      hkey b (mem_filtered.mp (mem_selected.mp hb).1).1]
  refine ascending_ext ascending_selected hmap fun a => ?_
  rw [List.mem_map]
  constructor
  · intro ha
    obtain ⟨hfil, hlast, hlive⟩ := mem_selected.mp ha
    obtain ⟨b, hb, rfl⟩ := (h a).mp (mem_filtered.mp hfil).1
    exact ⟨b, mem_selected.mpr ⟨(hmem b hb).mp hfil, (hlatest b hb).mp hlast,
      (hdeleted b hb).symm.trans hlive⟩, rfl⟩
  · rintro ⟨b, hsel, rfl⟩
    obtain ⟨hfil, hlast, hlive⟩ := mem_selected.mp hsel
    have hb : b ∈ t := (mem_filtered.mp hfil).1
    exact mem_selected.mpr ⟨(hmem b hb).mpr hfil, (hlatest b hb).mpr hlast,
      (hdeleted b hb).trans hlive⟩

theorem answer_map (hf : f {} = {}) (recs : List Record) :
    answer (recs.map f) order = (answer recs order).map (Prod.map id f) := by
  cases order <;> simp [answer, metadataRow, hf, Function.comp_def]

theorem limitAnswer_map (rows : List (ℤ × Record)) :
    limitAnswer limit (rows.map (Prod.map id f)) =
      (limitAnswer limit rows).map (Prod.map id f) := by
  unfold limitAnswer
  split_ifs
  · rw [List.map_take]
  · rfl

theorem scanAnswer_map (rows : List (ℤ × Record)) :
    scanAnswer (rows.map (Prod.map id f)) = Prod.map (List.map f) id (scanAnswer rows) := by
  cases rows with
  | nil => rfl
  | cons row rest => simp [scanAnswer, Function.comp_def]

theorem findRecordsBy_map (hf : f {} = {})
    (h : selected t' w revision = (selected t w revision).map f) :
    findRecordsBy t' w revision limit order =
      Prod.map (List.map f) id (findRecordsBy t w revision limit order) := by
  rw [findRecordsBy, findRecordsBy, h, answer_map hf, limitAnswer_map, scanAnswer_map]

/-! ### Reads of related rows -/

variable {R : Record → Record → Prop}

theorem forall₂_scanAnswer {rows rows' : List (ℤ × Record)}
    (h : List.Forall₂ (fun a b => a.1 = b.1 ∧ R a.2 b.2) rows rows') :
    List.Forall₂ R (scanAnswer rows).1 (scanAnswer rows').1 ∧
      (scanAnswer rows).2 = (scanAnswer rows').2 := by
  cases h with
  | nil => exact ⟨List.Forall₂.nil, rfl⟩
  | cons hfirst hrest =>
    refine ⟨?_, hfirst.1⟩
    simp only [scanAnswer]
    rw [List.forall₂_map_left_iff, List.forall₂_map_right_iff]
    exact hrest.imp fun a b hab => hab.2

theorem forall₂_findRecordsBy (hempty : R {} {})
    (h : List.Forall₂ R (selected t w revision) (selected t' w revision)) :
    List.Forall₂ R (findRecordsBy t w revision limit order).1
        (findRecordsBy t' w revision limit order).1 ∧
      (findRecordsBy t w revision limit order).2 = (findRecordsBy t' w revision limit order).2 := by
  have hanswer : List.Forall₂ (fun a b : ℤ × Record => a.1 = b.1 ∧ R a.2 b.2)
      (answer (selected t w revision) order) (answer (selected t' w revision) order) := by
    have hmeta : (metadataRow (selected t w revision)).1 =
        (metadataRow (selected t' w revision)).1 := congrArg Nat.cast h.length_eq
    cases order with
    | asc =>
      refine List.Forall₂.cons ⟨hmeta, hempty⟩ ?_
      rw [List.forall₂_map_left_iff, List.forall₂_map_right_iff]
      exact h.imp fun a b hab => ⟨rfl, hab⟩
    | desc =>
      refine List.rel_append ?_ (List.Forall₂.cons ⟨hmeta, hempty⟩ List.Forall₂.nil)
      rw [List.forall₂_map_left_iff, List.forall₂_map_right_iff, List.forall₂_reverse_iff]
      exact h.imp fun a b hab => ⟨rfl, hab⟩
  have hlimit : List.Forall₂ (fun a b : ℤ × Record => a.1 = b.1 ∧ R a.2 b.2)
      (limitAnswer limit (answer (selected t w revision) order))
      (limitAnswer limit (answer (selected t' w revision) order)) := by
    unfold limitAnswer
    split_ifs
    · exact List.forall₂_take _ hanswer
    · exact hanswer
  exact forall₂_scanAnswer hlimit

end Netsy.LocalDB.Find
