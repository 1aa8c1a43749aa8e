import Netsy.CommonAPI.Range
import Mathlib.Data.Prod.Lex
import Mathlib.Order.OrderDual

/-! # The rows of a range

The query of `FindRecordsBy` as SQLite runs it: the row with the count and the rows of the records
are one compound, which is ordered and limited as a whole. The key of the first row is a text and
the keys of the others are blobs. The loop over the answer takes its first row for the count. -/

namespace Netsy.CommonAPI.RangeResult

open Proto LocalDB.Schema LocalDB.Find Lib.SortedList CommonAPI.RangeQuery CommonAPI.Range

/-! ### The compound query -/

/-- A value of the column `key`. -/
inductive Cell
  | text (s : Bytes) | blob (b : Bytes)
deriving DecidableEq, Repr

/-- Texts sort before blobs; two texts and two blobs compare byte by byte. -/
def Cell.rank : Cell → Bool ×ₗ Bytes
  | .text s => toLex (false, s)
  | .blob b => toLex (true, b)

/-- A row of the compound; `record` is what the loop scans of it. -/
structure Row where
  recordsCount : ℤ
  key : Cell
  record : Record
deriving DecidableEq

/-- The row with the count. -/
def countRow (count : ℕ) : Row := { recordsCount := count, key := .text [], record := {} }

def recordRow (r : Record) : Row := { recordsCount := 0, key := .blob r.key, record := r }

/-- The rows of `filtered`, for any `WHERE` clause. -/
def whereRows (t : Table) (p : Record → Bool) (revision : ℤ) : List Record :=
  t.rows.filter fun r => p r && (revision ≤ 0 || r.revision ≤ revision)

/-- `UNION ALL`. -/
def compound (recs : List Record) : List Row := countRow recs.length :: recs.map recordRow

/-- `ORDER BY key ASC, revision DESC`. -/
def ascKey (r : Row) : (Bool ×ₗ Bytes) ×ₗ ℤᵒᵈ :=
  toLex (r.key.rank, OrderDual.toDual r.record.revision)

/-- `ORDER BY key DESC, revision DESC`. -/
def descKey (r : Row) : (Bool ×ₗ Bytes)ᵒᵈ ×ₗ ℤᵒᵈ :=
  toLex (OrderDual.toDual r.key.rank, OrderDual.toDual r.record.revision)

def orderBy : Order → List Row → List Row
  | .asc => sortBy ascKey
  | .desc => sortBy descKey

/-- `LIMIT`. -/
def limitRows (limit : ℤ) (rows : List Row) : List Row :=
  if 0 < limit then rows.take (limit + 1).toNat else rows

/-- The loop over the rows. -/
def scanRows : List Row → List Record × ℤ
  | [] => ([], 0)
  | first :: rest => (rest.map Row.record, first.recordsCount)

/-- `FindRecordsBy`. -/
def findBy (t : Table) (p : Record → Bool) (revision limit : ℤ) (order : Order) :
    List Record × ℤ :=
  scanRows (limitRows limit (orderBy order (compound (latestLive (whereRows t p revision)))))

/-- What `Range` makes of it: the rows, `Count` and `More`. -/
def rangeRows (t : Table) (p : Record → Bool) (revision limit : ℤ) (order : Order) :
    List Record × ℤ × Bool :=
  let (rows, totalCount) := findBy t p revision limit order
  (rows, totalCount, decide ((rows.length : ℤ) < totalCount))

variable {t : Table} {p : Record → Bool} {revision limit : ℤ} {order : Order}
  {recs rows : List Record} {r : Record}

/-! ### The order of the rows -/

theorem latestLive_keys_ne :
    (latestLive (whereRows t p revision)).Pairwise fun a b => a.key ≠ b.key := by
  have hrows : (latestLive (whereRows t p revision)).Pairwise fun a b => a.revision < b.revision :=
    (t.sorted.filter _).filter _
  refine hrows.imp_of_mem fun {a b} ha hb hab he => ?_
  have hle := isLatest_iff.mp (mem_latestLive.mp ha).2.1 b (mem_latestLive.mp hb).1 he.symm
  omega

theorem ascKey_lt_of_rank_lt {a b : Row} (h : a.key.rank < b.key.rank) : ascKey a < ascKey b :=
  Prod.Lex.toLex_lt_toLex.mpr (Or.inl h)

theorem descKey_lt_of_rank_lt {a b : Row} (h : b.key.rank < a.key.rank) : descKey a < descKey b :=
  Prod.Lex.toLex_lt_toLex.mpr (Or.inl (OrderDual.toDual_lt_toDual.mpr h))

theorem rank_countRow_lt (n : ℕ) (r : Record) : (countRow n).key.rank < (recordRow r).key.rank :=
  Prod.Lex.toLex_lt_toLex.mpr (Or.inl Bool.false_lt_true)

theorem rank_recordRow_lt {a b : Record} (h : a.key < b.key) :
    (recordRow a).key.rank < (recordRow b).key.rank :=
  Prod.Lex.toLex_lt_toLex.mpr (Or.inr ⟨rfl, h⟩)

theorem ascending_asc (h : Ascending Record.key recs) (n : ℕ) :
    Ascending ascKey (countRow n :: recs.map recordRow) := by
  refine List.pairwise_cons.mpr ⟨fun b hb => ?_, List.pairwise_map.mpr ?_⟩
  · obtain ⟨r, -, rfl⟩ := List.mem_map.mp hb
    exact ascKey_lt_of_rank_lt (rank_countRow_lt n r)
  · exact h.imp fun hlt => ascKey_lt_of_rank_lt (rank_recordRow_lt hlt)

theorem ascending_desc (h : Ascending Record.key recs) (n : ℕ) :
    Ascending descKey (recs.reverse.map recordRow ++ [countRow n]) := by
  refine List.pairwise_append.mpr ⟨List.pairwise_map.mpr ?_, List.pairwise_singleton _ _, ?_⟩
  · exact (List.pairwise_reverse.mpr h).imp fun hlt => descKey_lt_of_rank_lt (rank_recordRow_lt hlt)
  · intro a ha b hb
    obtain ⟨r, -, rfl⟩ := List.mem_map.mp ha
    rw [List.mem_singleton.mp hb]
    exact descKey_lt_of_rank_lt (rank_countRow_lt n r)

theorem compound_ranks_ne (h : recs.Pairwise fun a b => a.key ≠ b.key) :
    (compound recs).Pairwise fun a b => a.key.rank ≠ b.key.rank := by
  refine List.pairwise_cons.mpr ⟨fun b hb => ?_, List.pairwise_map.mpr (h.imp fun hne he => ?_)⟩
  · obtain ⟨r, -, rfl⟩ := List.mem_map.mp hb
    exact (rank_countRow_lt _ r).ne
  · exact hne (congrArg Prod.snd (toLex_inj.mp he))

theorem orderBy_compound (h : recs.Pairwise fun a b => a.key ≠ b.key) (order : Order) :
    orderBy order (compound recs) =
      match order with
      | .asc => countRow recs.length :: (sortBy Record.key recs).map recordRow
      | .desc => (sortBy Record.key recs).reverse.map recordRow ++ [countRow recs.length] := by
  have hsorted : Ascending Record.key (sortBy Record.key recs) := ascending_sortBy h
  have hranks := compound_ranks_ne h
  cases order with
  | asc =>
    refine ascending_ext (ascending_sortBy (hranks.imp fun hne he => ?_)) (ascending_asc hsorted _)
      fun b => ?_
    · exact hne (congrArg Prod.fst (toLex_inj.mp he))
    · simp [orderBy, compound]
  | desc =>
    refine ascending_ext (ascending_sortBy (hranks.imp fun hne he => ?_)) (ascending_desc hsorted _)
      fun b => ?_
    · exact hne (OrderDual.toDual_inj.mp (congrArg Prod.fst (toLex_inj.mp he)))
    · simp [orderBy, compound, or_comm]

/-- **The query by its rows is the query of `FindRecordsBy`.** -/
theorem findRecordsBy_eq (w : Where) :
    findRecordsBy t w revision limit order =
      findBy t (fun r => w.holds r.key) revision limit order := by
  have hrows : filtered t w revision = whereRows t (fun r => w.holds r.key) revision := rfl
  unfold findRecordsBy findBy
  rw [← hrows, orderBy_compound (hrows ▸ latestLive_keys_ne)]
  have hscan : ∀ l : List Row,
      scanAnswer (limitAnswer limit (l.map fun x => (x.recordsCount, x.record))) =
        scanRows (limitRows limit l) := by
    intro l
    have hlimit : limitAnswer limit (l.map fun x => (x.recordsCount, x.record)) =
        (limitRows limit l).map fun x => (x.recordsCount, x.record) := by
      unfold limitAnswer limitRows
      split_ifs
      · rw [List.map_take]
      · rfl
    rw [hlimit]
    cases limitRows limit l with
    | nil => rfl
    | cons x rest => simp [scanAnswer, scanRows, Function.comp_def]
  rw [← hscan]
  cases order with
  | asc =>
    simp [answer, metadataRow, countRow, recordRow, length_sortBy, selected, Function.comp_def]
  | desc =>
    simp [answer, metadataRow, countRow, recordRow, length_sortBy, selected, Function.comp_def]

/-- **`Range` answers with these rows.** -/
theorem range_eq (db : Table) (req : RangeRequest) (committedRevision : ℤ) :
    range db req committedRevision = do
      validateRangeRequest req
      let some w := buildRangeQuery req.key req.rangeEnd | .error .indexOutOfRange
      let order := if req.sortOrder = .descend then Order.desc else .asc
      let (rows, count, more) :=
        rangeRows db (fun r => w.holds r.key) req.revision req.limit order
      if req.countOnly then
        return { headerRevision := some committedRevision, count := count, more := more }
      let kvs ← recordsToKeyValues rows
      return { headerRevision := some committedRevision, kvs := kvs, count := count,
               more := more } := by
  unfold range
  cases validateRangeRequest req with
  | error e => rfl
  | ok u =>
    cases buildRangeQuery req.key req.rangeEnd with
    | none => rfl
    | some w => simp only [rangeRows, ← findRecordsBy_eq w]

/-! ### What a range is to be -/

/-- The row is the newest of its key among those that the request is about, and not a deletion. -/
structure Matches (t : Table) (p : Record → Bool) (revision : ℤ) (r : Record) : Prop where
  mem : r ∈ t
  holds : p r = true
  bound : 0 < revision → r.revision ≤ revision
  newest : ∀ b ∈ t, p b = true → (0 < revision → b.revision ≤ revision) → b.key = r.key →
    b.revision ≤ r.revision
  live : r.deleted = false

/-- The order that is asked for. -/
def InKeyOrder : Order → Record → Record → Prop
  | .asc, a, b => a.key < b.key
  | .desc, a, b => b.key < a.key

/-- **The answer to a range request**: of all rows that match, in the order asked for, the first
ones up to the limit, their number, and whether some were cut off. -/
def IsRange (t : Table) (p : Record → Bool) (revision limit : ℤ) (order : Order)
    (answer : List Record × ℤ × Bool) : Prop :=
  ∃ all : List Record,
    (∀ r, r ∈ all ↔ Matches t p revision r) ∧ all.Pairwise (InKeyOrder order) ∧
      answer.1 = (if 0 < limit then all.take limit.toNat else all) ∧
      answer.2.1 = all.length ∧ (answer.2.2 = true ↔ answer.1.length < all.length)

/-- All rows that match, in ascending order of their keys. -/
def matching (t : Table) (p : Record → Bool) (revision : ℤ) : List Record :=
  sortBy Record.key (latestLive (whereRows t p revision))

theorem mem_whereRows :
    r ∈ whereRows t p revision ↔
      r ∈ t ∧ p r = true ∧ (0 < revision → r.revision ≤ revision) := by
  simp [whereRows, Table.mem_def, imp_iff_not_or]

theorem mem_matching : r ∈ matching t p revision ↔ Matches t p revision r := by
  simp only [matching, mem_sortBy, mem_latestLive, isLatest_iff, mem_whereRows]
  constructor
  · rintro ⟨⟨hmem, hp, hbound⟩, hnewest, hlive⟩
    exact ⟨hmem, hp, hbound, fun b hb hpb hbb => hnewest b ⟨hb, hpb, hbb⟩, hlive⟩
  · intro h
    exact ⟨⟨h.mem, h.holds, h.bound⟩, fun b hb => h.newest b hb.1 hb.2.1 hb.2.2, h.live⟩

theorem ascending_matching : Ascending Record.key (matching t p revision) :=
  ascending_sortBy latestLive_keys_ne

theorem findBy_asc :
    findBy t p revision limit .asc =
      (if 0 < limit then (matching t p revision).take limit.toNat else matching t p revision,
        ((matching t p revision).length : ℤ)) := by
  unfold findBy
  rw [orderBy_compound latestLive_keys_ne]
  simp only [limitRows]
  by_cases hpos : 0 < limit
  · have hone : (limit + 1).toNat = limit.toNat + 1 := by omega
    simp [hpos, hone, scanRows, countRow, recordRow, ← List.map_take, matching, length_sortBy,
      Function.comp_def]
  · simp [hpos, scanRows, countRow, recordRow, matching, length_sortBy, Function.comp_def]

/-- **A descending query that matches a row counts none.** The first row of the answer is that of
the last key. -/
theorem findBy_desc (h : matching t p revision ≠ []) : (findBy t p revision limit .desc).2 = 0 := by
  unfold findBy
  rw [orderBy_compound latestLive_keys_ne]
  change (scanRows (limitRows limit ((matching t p revision).reverse.map recordRow ++ _))).2 = 0
  obtain ⟨r, rest, hrest⟩ := List.exists_cons_of_ne_nil (List.reverse_ne_nil_iff.mpr h)
  rw [hrest]
  unfold limitRows
  split_ifs with hpos
  · have hone : (limit + 1).toNat = limit.toNat + 1 := by omega
    rw [hone]
    rfl
  · rfl

theorem findBy_of_nil (h : matching t p revision = []) (order : Order) :
    findBy t p revision limit order = ([], 0) := by
  have hnil : latestLive (whereRows t p revision) = [] := by
    have hlen : (matching t p revision).length = (latestLive (whereRows t p revision)).length :=
      length_sortBy
    rw [h, List.length_nil] at hlen
    exact List.length_eq_zero_iff.mp hlen.symm
  have hone : orderBy order [countRow 0] = [countRow 0] := by cases order <;> rfl
  have hlimit : limitRows limit [countRow 0] = [countRow 0] := by
    unfold limitRows
    split_ifs
    · exact List.take_of_length_le (by simp; omega)
    · rfl
  unfold findBy
  rw [hnil, compound, List.map_nil, List.length_nil, hone, hlimit]
  rfl

theorem not_isRange_desc (h : matching t p revision ≠ []) :
    ¬ IsRange t p revision limit .desc (rangeRows t p revision limit .desc) := by
  rintro ⟨all, hall, -, -, hcount, -⟩
  have hzero : (rangeRows t p revision limit .desc).2.1 = 0 := findBy_desc h
  rw [hzero] at hcount
  have hnil : all = [] := List.length_eq_zero_iff.mp (by omega)
  obtain ⟨r, hr⟩ := List.exists_mem_of_ne_nil _ h
  simpa [hnil] using (hall r).mpr (mem_matching.mp hr)

/-- **`Range` meets its specification exactly in ascending order, and where nothing matches.** -/
theorem isRange_iff (t : Table) (p : Record → Bool) (revision limit : ℤ) (order : Order) :
    IsRange t p revision limit order (rangeRows t p revision limit order) ↔
      order = .asc ∨ ∀ r, ¬ Matches t p revision r := by
  have hmore : ∀ (rows : List Record) (n : ℕ),
      decide ((rows.length : ℤ) < (n : ℤ)) = true ↔ rows.length < n := by simp
  constructor
  · intro h
    cases order with
    | asc => exact Or.inl rfl
    | desc =>
      refine Or.inr fun r hr => ?_
      exact not_isRange_desc (List.ne_nil_of_mem (mem_matching.mpr hr)) h
  · rintro (rfl | hnone)
    · refine ⟨matching t p revision, fun r => mem_matching, ascending_matching, ?_⟩
      simp only [rangeRows, findBy_asc, hmore, true_and]
    · have hnil : matching t p revision = [] :=
        List.eq_nil_iff_forall_not_mem.mpr fun r hr => hnone r (mem_matching.mp hr)
      refine ⟨[], fun r => iff_of_false List.not_mem_nil (hnone r), List.Pairwise.nil, ?_⟩
      simp [rangeRows, findBy_of_nil hnil]

/-- Two keys, `a` at revision 1 and `b` at revision 2. -/
def twoKeys : Table where
  rows :=
    [{ revision := 1, key := [97], created := true, createRevision := 1, version := 1 },
      { revision := 2, key := [98], created := true, createRevision := 2, version := 1 }]
  sorted := by decide
  unique := by decide

/-- **A descending range of two keys** leaves out the last key, has a row with an empty key in the
place of the first, and counts none. -/
theorem descending_range_two_keys :
    (rangeRows twoKeys (fun _ => true) 0 0 .desc).1.map Record.key = [[97], []] ∧
      (rangeRows twoKeys (fun _ => true) 0 0 .desc).2 = (0, false) ∧
      ¬ IsRange twoKeys (fun _ => true) 0 0 .desc (rangeRows twoKeys (fun _ => true) 0 0 .desc) :=
  ⟨by decide, by decide, not_isRange_desc (by decide)⟩

end Netsy.CommonAPI.RangeResult
