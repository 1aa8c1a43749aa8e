import Netsy.CommonAPI.RangeStream
import Netsy.LocalDB.Compaction
import Netsy.LocalDB.Replicate

/-! # Reads after a compaction

`ExecuteCompaction` keeps the newest row of a key, and on a Replica the newest row may be tentative:
then the row that reads at the committed revision return is emptied, and they fail. -/

namespace Netsy.CommonAPI.CompactedReads

open Proto Lib.SortedList LocalDB.Schema LocalDB.Find LocalDB.Compaction LocalDB.Replicate
open CommonAPI.RangeQuery CommonAPI.Range CommonAPI.RangeStream

/-- The row that a read at the revision returns for its key. -/
structure Current (t : Table) (revision : ℤ) (b : Record) : Prop where
  mem : b ∈ t
  le : b.revision ≤ revision
  live : b.deleted = false
  latest : ∀ a ∈ t, a.key = b.key → a.revision ≤ revision → a.revision ≤ b.revision

/-- The compaction empties the row, because a tentative row of its key is newer. -/
structure Emptied (t : Table) (committed compaction : ℤ) (b : Record) : Prop where
  current : Current t committed b
  pos : 0 < compaction
  le : b.revision ≤ compaction
  kept : b.compactedAt = none
  tentative : ∃ a ∈ t, a.key = b.key ∧ committed < a.revision

/-- The table after tentative records have arrived. -/
def afterTentative (committed : ℤ) (t : Table) (later : List (Time × Record)) : Table :=
  later.foldl (fun t x => (replicateTentativeRecord t x.1 x.2 committed).1) t

variable {t t' : Table} {w : Where} {r : RangeRequest} {now : Time} {committed compaction : ℤ}
variable {a b : Record} {later : List (Time × Record)}

/-! ### Reads at a revision -/

theorem mem_selected_of_pos (h : 0 < committed) :
    b ∈ selected t w committed ↔ Current t committed b ∧ w.holds b.key = true := by
  rw [mem_selected, mem_filtered, isLatest_iff]
  constructor
  · rintro ⟨⟨hmem, hw, hle⟩, hlatest, hlive⟩
    refine ⟨⟨hmem, by omega, hlive, fun a ha hk hle' => ?_⟩, hw⟩
    exact hlatest a (mem_filtered.mpr ⟨ha, by rw [hk]; exact hw, Or.inr hle'⟩) hk
  · rintro ⟨hc, hw⟩
    refine ⟨⟨hc.mem, hw, Or.inr hc.le⟩, fun a ha hk => ?_, hc.live⟩
    obtain ⟨hmem, -, hle⟩ := mem_filtered.mp ha
    exact hc.latest a hmem hk (by omega)

theorem selected_eq (h : ∀ b, b ∈ selected t w committed ↔ b ∈ selected t' w committed) :
    selected t w committed = selected t' w committed :=
  ascending_ext ascending_selected ascending_selected h

theorem range_congr (h : ∀ w, selected t w r.revision = selected t' w r.revision) :
    range t r committed = range t' r committed := by
  unfold range
  simp only [findRecordsBy_congr (h _)]

theorem range_eq_of_current (hpos : 0 < committed) (hr : r.revision = committed)
    (h : ∀ b, Current t committed b ↔ Current t' committed b) :
    range t r committed = range t' r committed := by
  refine range_congr fun w => ?_
  rw [hr]
  refine selected_eq fun b => ?_
  rw [mem_selected_of_pos hpos, mem_selected_of_pos hpos, h]

theorem Current.of_mem_iff (h : Current t committed b)
    (hmem : ∀ a, a.revision ≤ committed → (a ∈ t ↔ a ∈ t')) : Current t' committed b :=
  ⟨(hmem b h.le).mp h.mem, h.le, h.live,
    fun a ha hk hle => h.latest a ((hmem a hle).mpr ha) hk hle⟩

/-! ### Tentative records -/

theorem mem_afterTentative (hlater : ∀ x ∈ later, committed < x.2.revision)
    (hle : a.revision ≤ committed) : a ∈ afterTentative committed t later ↔ a ∈ t := by
  induction later generalizing t with
  | nil => rfl
  | cons x later ih =>
    have hx : committed < x.2.revision := hlater x List.mem_cons_self
    have hrest := ih (t := (replicateTentativeRecord t x.1 x.2 committed).1)
      fun y hy => hlater y (List.mem_cons_of_mem x hy)
    exact hrest.trans (mem_replicateTentativeRecord_of_ne (by omega))

/-! ### Compaction -/

theorem key_compactRow : (compactRow t now compaction b).key = b.key := by
  unfold compactRow
  split_ifs <;> rfl

theorem deleted_compactRow : (compactRow t now compaction b).deleted = b.deleted := by
  unfold compactRow
  split_ifs <;> rfl

theorem mem_executeCompaction_iff (hpos : 0 < compaction) :
    a ∈ executeCompaction t now compaction ↔ ∃ b ∈ t, compactRow t now compaction b = a := by
  unfold executeCompaction
  rw [if_neg (by omega)]
  exact Table.mem_update

theorem current_executeCompaction (hpos : 0 < compaction) :
    Current (executeCompaction t now compaction) committed a ↔
      ∃ b, Current t committed b ∧ compactRow t now compaction b = a := by
  constructor
  · rintro ⟨hmem, hle, hlive, hlatest⟩
    obtain ⟨b, hb, rfl⟩ := (mem_executeCompaction_iff hpos).mp hmem
    rw [revision_compactRow] at hle
    rw [deleted_compactRow] at hlive
    refine ⟨b, ⟨hb, hle, hlive, fun a ha hk hle' => ?_⟩, rfl⟩
    have hlast := hlatest (compactRow t now compaction a)
      ((mem_executeCompaction_iff hpos).mpr ⟨a, ha, rfl⟩)
    rw [key_compactRow, key_compactRow, revision_compactRow, revision_compactRow] at hlast
    exact hlast hk hle'
  · rintro ⟨b, hb, rfl⟩
    refine ⟨(mem_executeCompaction_iff hpos).mpr ⟨b, hb.mem, rfl⟩, ?_, ?_, fun a ha hk hle' => ?_⟩
    · rw [revision_compactRow]
      exact hb.le
    · rw [deleted_compactRow]
      exact hb.live
    · obtain ⟨a, hmem, rfl⟩ := (mem_executeCompaction_iff hpos).mp ha
      rw [key_compactRow, key_compactRow] at hk
      rw [revision_compactRow] at hle'
      rw [revision_compactRow, revision_compactRow]
      exact hb.latest a hmem hk hle'

theorem compactable_iff (hpos : 0 < compaction) (hb : Current t committed b) :
    compactable t compaction b = true ↔ Emptied t committed compaction b := by
  unfold compactable
  simp only [hb.live, Bool.false_or, Bool.and_eq_true, decide_eq_true_eq, List.any_eq_true,
    Option.isNone_iff_eq_none]
  constructor
  · rintro ⟨⟨hle, hkept⟩, a, ha, hk, hlt⟩
    refine ⟨hb, hpos, hle, hkept, a, ha, hk, ?_⟩
    by_contra hnot
    have := hb.latest a ha hk (not_lt.mp hnot)
    omega
  · rintro ⟨-, -, hle, hkept, a, ha, hk, hlt⟩
    have := hb.le
    exact ⟨⟨hle, hkept⟩, a, ha, hk, by omega⟩

theorem current_of_not_emptied (hno : ∀ b ∈ t, ¬ Emptied t committed compaction b) :
    Current (executeCompaction t now compaction) committed a ↔ Current t committed a := by
  by_cases hpos : 0 < compaction
  · have hsame : ∀ b, Current t committed b → compactRow t now compaction b = b := by
      intro b hb
      unfold compactRow
      rw [if_neg]
      exact fun h => hno b hb.mem ((compactable_iff hpos hb).mp h)
    rw [current_executeCompaction hpos]
    constructor
    · rintro ⟨b, hb, rfl⟩
      rw [hsame b hb]
      exact hb
    · exact fun ha => ⟨a, ha, hsame a ha⟩
  · unfold executeCompaction
    rw [if_pos (not_lt.mp hpos)]

/-! ### A request for one row -/

/-- A request that finds one row. -/
structure Finds (t : Table) (r : RangeRequest) (b : Record) : Prop where
  valid : validateRangeRequest r = .ok ()
  sort : r.sortOrder = .none
  count : r.countOnly = false
  query : ∃ w, buildRangeQuery r.key r.rangeEnd = some w ∧
    (findRecordsBy t w r.revision r.limit .asc).1 = [b]

theorem range_of_finds (h : Finds t r b) :
    (∃ resp, range t r committed = .ok resp) ↔ b.compactedAt = none := by
  obtain ⟨w, hw, hfind⟩ := h.query
  rw [range_eq h.valid hw h.sort, h.count, hfind]
  unfold answerOf recordsToKeyValues
  cases hb : b.compactedAt with
  | none => simp [hb, Except.map]
  | some time => simp [hb, Except.map]

theorem buildRangeQuery_single {key : Bytes} (hk : key ≠ []) :
    buildRangeQuery key [] = some (.eq key) := by
  obtain ⟨k, x, rfl⟩ : ∃ k x, key = k ++ [x] := ⟨_, _, (List.dropLast_append_getLast hk).symm⟩
  simp [buildRangeQuery, rangeEndPrefixValue, rangeWhere]

theorem exists_finds (hpos : 0 < committed) (key : Bytes) :
    ∃ r, r.revision = committed ∧ ∀ u a, Current u committed a → a.key = key → Finds u r a := by
  by_cases hk : key = []
  · refine ⟨{ key := [0], rangeEnd := [0], limit := 1, revision := committed }, rfl,
      fun u a ha hak => ⟨rfl, rfl, rfl, .all, rfl, ?_⟩⟩
    have hmem : a ∈ selected u .all committed := (mem_selected_of_pos hpos).mpr ⟨ha, rfl⟩
    rw [findRecordsBy_asc_of_pos zero_lt_one]
    cases hsel : selected u .all committed with
    | nil =>
      rw [hsel] at hmem
      cases hmem
    | cons c rest =>
      have hasc : Ascending Record.key (c :: rest) := hsel ▸ ascending_selected
      rw [hsel] at hmem
      rcases List.mem_cons.mp hmem with rfl | hmem
      · rfl
      · have hlt := (List.pairwise_cons.mp hasc).1 a hmem
        rw [hak, hk] at hlt
        exact absurd hlt (by simp)
  · refine ⟨{ key := key, revision := committed }, rfl,
      fun u a ha hak => ⟨rfl, rfl, rfl, .eq key, buildRangeQuery_single hk, ?_⟩⟩
    rw [findRecordsBy_asc]
    refine eq_singleton_of_mem_iff ascending_selected fun c => ?_
    rw [mem_selected_of_pos hpos]
    constructor
    · rintro ⟨hc, hkc⟩
      have hkc' : c.key = key := of_decide_eq_true hkc
      have h1 := hc.latest a ha.mem (hak.trans hkc'.symm) ha.le
      have h2 := ha.latest c hc.mem (hkc'.trans hak.symm) hc.le
      exact Table.eq_of_revision_eq hc.mem ha.mem (le_antisymm h2 h1)
    · rintro rfl
      exact ⟨ha, decide_eq_true hak⟩

theorem range_ne_of_emptied (hb : Emptied t committed compaction b) (hle : compaction ≤ committed) :
    ∃ r, r.revision = committed ∧
      range (executeCompaction t now compaction) r committed ≠ range t r committed := by
  have hpos : 0 < committed := hb.pos.trans_le hle
  obtain ⟨r, hr, hfinds⟩ := exists_finds hpos b.key
  have hafter : Current (executeCompaction t now compaction) committed
      (compactRow t now compaction b) :=
    (current_executeCompaction hb.pos).mpr ⟨b, hb.current, rfl⟩
  refine ⟨r, hr, fun he => ?_⟩
  obtain ⟨resp, hresp⟩ := (range_of_finds (hfinds t b hb.current rfl)).mpr hb.kept
  have hnone := (range_of_finds (hfinds _ _ hafter key_compactRow)).mp ⟨resp, he.trans hresp⟩
  unfold compactRow at hnone
  rw [if_pos ((compactable_iff hb.pos hb.current).mpr hb)] at hnone
  cases hnone

/-! ### Reads without a committed revision -/

theorem exists_fresh_key (t : Table) : ∃ k : Bytes, k ≠ [] ∧ ∀ b ∈ t, b.key ≠ k := by
  refine ⟨(t.rows.map Record.key).flatten ++ [1], by simp, fun b hb he => ?_⟩
  have hsub : b.key.Sublist (t.rows.map Record.key).flatten :=
    List.sublist_flatten_of_mem (List.mem_map_of_mem hb)
  have hle := hsub.length_le
  rw [he, List.length_append, List.length_singleton] at hle
  omega

theorem replicateTentativeRecord_fresh (now : Time) (hb : b ∈ t) (hlt : 0 < b.revision)
    {k : Bytes} (hk : k ≠ []) (hfresh : ∀ b ∈ t, b.key ≠ k) :
    ∀ a, a ∈ (replicateTentativeRecord t now { revision := b.revision, key := k } 0).1 ↔
      a = replicatedRow now { revision := b.revision, key := k } ∨
        (a ∈ t ∧ a.revision ≠ b.revision) := by
  have hdiffer : recordsEqualForReplication b { revision := b.revision, key := k } = false := by
    simp [recordsEqualForReplication, hfresh b hb]
  have hfits : (t.delete b.revision).Fits
      (replicatedRow now { revision := b.revision, key := k }) := by
    refine ⟨fun a ha => (Table.mem_delete.mp ha).2, fun a ha he => ?_⟩
    exact hfresh a (Table.mem_delete.mp ha).1 (congrArg Prod.fst he).symm
  obtain ⟨u, htable, hmem⟩ := replicateTentativeRecord_overwrites
    (r := { revision := b.revision, key := k }) hb rfl hlt.ne' hk hlt hdiffer hfits
  rw [htable]
  exact hmem

/-- A read at revision 0 sees tentative rows, so it changes when one is overwritten. -/
theorem range_ne_of_tentative (hb : b ∈ t) (hlt : 0 < b.revision) :
    ∃ x : Time × Record, x.2.revision = b.revision ∧ ∃ r : RangeRequest, r.revision = 0 ∧
      range (afterTentative 0 t [x]) r 0 ≠ range t r 0 := by
  obtain ⟨k, hk, hfresh⟩ := exists_fresh_key t
  refine ⟨(0, { revision := b.revision, key := k }), rfl, { key := k }, rfl, fun he => ?_⟩
  have hmem := replicateTentativeRecord_fresh 0 hb hlt hk hfresh
  have hbefore : selected t (.eq k) 0 = [] := by
    refine List.eq_nil_iff_forall_not_mem.mpr fun a ha => ?_
    obtain ⟨ha, hka, -⟩ := mem_filtered.mp (mem_selected.mp ha).1
    exact hfresh a ha (of_decide_eq_true hka)
  have hafter : selected (afterTentative 0 t [(0, { revision := b.revision, key := k })])
      (.eq k) 0 = [replicatedRow 0 { revision := b.revision, key := k }] := by
    have honly : ∀ a, a ∈ filtered (afterTentative 0 t [(0, { revision := b.revision, key := k })])
        (.eq k) 0 ↔ a = replicatedRow 0 { revision := b.revision, key := k } := by
      intro a
      rw [mem_filtered]
      constructor
      · rintro ⟨ha, hka, -⟩
        exact ((hmem a).mp ha).resolve_right fun h => hfresh a h.1 (of_decide_eq_true hka)
      · rintro rfl
        exact ⟨(hmem _).mpr (Or.inl rfl), decide_eq_true rfl, Or.inl (le_refl 0)⟩
    refine eq_singleton_of_mem_iff ascending_selected fun a => ?_
    rw [mem_selected, honly, isLatest_iff]
    refine ⟨fun h => h.1, fun h => ⟨h, fun c hc _ => ?_, ?_⟩⟩
    · rw [(honly c).mp hc, h]
    · rw [h]
      rfl
  have hquery := buildRangeQuery_single hk
  rw [range_eq rfl hquery rfl, range_eq rfl hquery rfl] at he
  simp only [hbefore, hafter, findRecordsBy_asc] at he
  simp [answerOf, recordsToKeyValues, replicatedRow, Except.map] at he

theorem range_afterTentative (hpos : 0 < committed) (hr : r.revision = committed)
    (hno : ∀ b ∈ t, ¬ Emptied t committed compaction b)
    (hlater : ∀ x ∈ later, committed < x.2.revision) :
    range (afterTentative committed (executeCompaction t now compaction) later) r committed =
      range t r committed := by
  refine range_eq_of_current hpos hr fun a => ?_
  have hmem : ∀ a, a.revision ≤ committed →
      (a ∈ afterTentative committed (executeCompaction t now compaction) later ↔
        a ∈ executeCompaction t now compaction) := fun a ha => mem_afterTentative hlater ha
  calc Current (afterTentative committed (executeCompaction t now compaction) later) committed a
      ↔ Current (executeCompaction t now compaction) committed a :=
        ⟨fun h => h.of_mem_iff hmem, fun h => h.of_mem_iff fun a ha => (hmem a ha).symm⟩
    _ ↔ Current t committed a := current_of_not_emptied hno

/-- **Compaction keeps the reads at the committed revision**, also while tentative rows are
overwritten, exactly if it empties no current row, and something has been committed or no row is
tentative. -/
theorem compaction_keeps_reads_iff (now : Time) (hcommitted : 0 ≤ committed)
    (hle : compaction ≤ committed) :
    (∀ later : List (Time × Record),
        (∀ x ∈ later, ∃ b ∈ t, committed < b.revision ∧ x.2.revision = b.revision) →
      ∀ r : RangeRequest, r.revision = committed →
        range (afterTentative committed (executeCompaction t now compaction) later) r committed =
          range t r committed) ↔
      (∀ b ∈ t, ¬ Emptied t committed compaction b) ∧
        (0 < committed ∨ ∀ b ∈ t, b.revision ≤ committed) := by
  constructor
  · intro hkeep
    refine ⟨fun b _ hb => ?_, ?_⟩
    · obtain ⟨r, hr, hne⟩ := range_ne_of_emptied hb hle
      exact hne (hkeep [] (by simp) r hr)
    · by_contra hnot
      rw [not_or, not_lt] at hnot
      obtain ⟨hzero, hall⟩ := hnot
      obtain rfl : committed = 0 := le_antisymm hzero hcommitted
      simp only [not_forall, not_le] at hall
      obtain ⟨b, hb, hlt⟩ := hall
      obtain ⟨x, hx, r, hr, hne⟩ := range_ne_of_tentative hb hlt
      have hsame : executeCompaction t now compaction = t := if_pos hle
      refine hne ?_
      have h := hkeep [x] (fun y hy => ⟨b, hb, hlt, List.mem_singleton.mp hy ▸ hx⟩) r hr
      rwa [hsame] at h
  · rintro ⟨hno, hsome⟩ later hlater r hr
    have hlt : ∀ x ∈ later, committed < x.2.revision := by
      intro x hx
      obtain ⟨b, -, hb, he⟩ := hlater x hx
      omega
    rcases hcommitted.lt_or_eq with hpos | rfl
    · exact range_afterTentative hpos hr hno hlt
    · -- no row is tentative, so none is overwritten
      have hsame : executeCompaction t now compaction = t := if_pos hle
      rw [hsame]
      cases later with
      | nil => rfl
      | cons x later =>
        obtain ⟨b, hb, hlt, -⟩ := hlater x List.mem_cons_self
        exact absurd (hsome.resolve_left (lt_irrefl 0) b hb) (not_le.mpr hlt)

/-- A tentative row of another key: the compaction leaves the reads, also when another record takes
the place of that row. -/
theorem compaction_keeps_reads_twoKeys :
    range (afterTentative 1 (executeCompaction twoKeys 7 1)
        [(8, { revision := 2, key := [99], created := true, createRevision := 2, version := 1 })])
      { key := [0], rangeEnd := [0], revision := 1 } 1 =
    range twoKeys { key := [0], rangeEnd := [0], revision := 1 } 1 := by
  have hempties : ∀ b ∈ twoKeys, ¬ Emptied twoKeys 1 1 b := by
    intro b hb he
    obtain ⟨a, ha, hk, hlt⟩ := he.tentative
    have hle := he.le
    have hfew : ∀ b ∈ twoKeys, ∀ a ∈ twoKeys, b.revision ≤ 1 → 1 < a.revision →
        a.key ≠ b.key := by decide
    exact hfew b hb a ha hle hlt hk
  exact (compaction_keeps_reads_iff 7 zero_le_one (le_refl 1)).mpr ⟨hempties, Or.inl zero_lt_one⟩
    _ (by decide) _ rfl

/-- A committed row of a key and a tentative one above it. -/
def tentativeUpdate : Table where
  rows := [
    { revision := 1, key := [97], created := true, createRevision := 1, version := 1 },
    { revision := 2, key := [97], createRevision := 1, version := 2, prevRevision := 1 }]
  sorted := by decide
  unique := by decide

/-- The compaction at the committed revision 1 empties the committed row of the key. -/
theorem compaction_raises_compacted :
    range tentativeUpdate { key := [97], revision := 1 } 1 =
        .ok { headerRevision := some 1, kvs := [⟨[97], 1, 1, [], 1, 0⟩], count := 1 } ∧
      range (executeCompaction tentativeUpdate 7 1) { key := [97], revision := 1 } 1 =
        .error errCompacted := by
  constructor <;> rfl

end Netsy.CommonAPI.CompactedReads
