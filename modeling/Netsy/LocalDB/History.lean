import Netsy.LocalDB.Insert
import Mathlib.Data.List.Chain

/-! # The history of a key

The rows of a key, in the order of their revisions, split into generations: a generation starts
with the creation of the key, goes on with its updates and may end with its deletion. -/

namespace Netsy.LocalDB.History

open Proto LocalDB.Schema LocalDB.Insert Lib.SortedList

/-- The rows of a key in ascending order of the revision. -/
def rowsOf (t : Table) (key : Bytes) : List Record := t.rows.filter fun r => r.key = key

/-- The first row of a generation. -/
def Starts (r : Record) : Prop :=
  r.created = true ∧ r.deleted = false ∧ r.version = 1 ∧ r.prevRevision = 0 ∧
    r.createRevision = r.revision

/-- The row `b` goes on after the live row `a`. -/
def Follows (a b : Record) : Prop :=
  a.deleted = false ∧ b.created = false ∧ b.createRevision = a.createRevision ∧
    b.prevRevision = a.revision ∧ b.version = if b.deleted then 0 else a.version + 1

structure Generation (g : List Record) : Prop where
  starts : ∃ r, g.head? = some r ∧ Starts r
  follows : g.IsChain Follows

/-- The generation ends with a deletion. -/
def Ended (g : List Record) : Prop := ∃ r, g.getLast? = some r ∧ r.deleted = true

/-- Only the last generation may be without a deletion. -/
structure Generations (gens : List (List Record)) : Prop where
  each : ∀ g ∈ gens, Generation g
  ended : gens.IsChain fun g _ => Ended g

/-! ### One row more -/

section

variable {gens : List (List Record)} {g : List Record} {a b r : Record}

theorem generations_nil : Generations [] := ⟨by simp, List.isChain_nil⟩

theorem generations_start (h : Generations gens) (hend : ∀ g ∈ gens.getLast?, Ended g)
    (hr : Starts r) : Generations (gens ++ [[r]]) := by
  refine ⟨fun g hg => ?_, ?_⟩
  · rcases List.mem_append.mp hg with hg | hg
    · exact h.each g hg
    · rw [List.mem_singleton.mp hg]
      exact ⟨⟨r, rfl, hr⟩, List.isChain_singleton r⟩
  · rw [List.isChain_append]
    exact ⟨h.ended, List.isChain_singleton _, fun g hg _ _ => hend g hg⟩

theorem generations_follow (h : Generations (gens ++ [g])) (ha : g.getLast? = some a)
    (hab : Follows a b) : Generations (gens ++ [g ++ [b]]) := by
  obtain ⟨⟨r, hr, hstart⟩, hchain⟩ := h.each g (by simp)
  refine ⟨fun g' hg' => ?_, ?_⟩
  · rcases List.mem_append.mp hg' with hg' | hg'
    · exact h.each g' (List.mem_append_left _ hg')
    · rw [List.mem_singleton.mp hg']
      refine ⟨⟨r, ?_, hstart⟩, ?_⟩
      · rw [List.head?_append, hr]
        rfl
      · rw [List.isChain_append]
        refine ⟨hchain, List.isChain_singleton b, fun x hx y hy => ?_⟩
        rw [ha] at hx
        cases hx
        cases hy
        exact hab
  · have hended := h.ended
    rw [List.isChain_append] at hended ⊢
    exact ⟨hended.1, List.isChain_singleton _, fun x hx _ _ => hended.2.2 x hx g rfl⟩

theorem Generation.getLast?_isSome (h : Generation g) : ∃ a, g.getLast? = some a := by
  obtain ⟨⟨r, hr, -⟩, -⟩ := h
  cases hl : g.getLast? with
  | none =>
    rw [List.getLast?_eq_none_iff.mp hl] at hr
    cases hr
  | some a => exact ⟨a, rfl⟩

theorem getLast?_flatten (h : Generations (gens ++ [g])) :
    (gens ++ [g]).flatten.getLast? = g.getLast? := by
  obtain ⟨a, ha⟩ := (h.each g (by simp)).getLast?_isSome
  rw [List.flatten_append, List.getLast?_append]
  simp [ha]

theorem exists_generations_follow (h : Generations gens) (ha : gens.flatten.getLast? = some a)
    (hab : Follows a b) : ∃ gens', gens'.flatten = gens.flatten ++ [b] ∧ Generations gens' := by
  rcases List.eq_nil_or_concat gens with rfl | ⟨gens', g, rfl⟩
  · simp at ha
  · rw [List.concat_eq_append] at h ha ⊢
    rw [getLast?_flatten h] at ha
    exact ⟨gens' ++ [g ++ [b]], by simp, generations_follow h ha hab⟩

theorem exists_generations_start (h : Generations gens)
    (ha : ∀ a ∈ gens.flatten.getLast?, a.deleted = true) (hr : Starts r) :
    ∃ gens', gens'.flatten = gens.flatten ++ [r] ∧ Generations gens' := by
  refine ⟨gens ++ [[r]], by simp, generations_start h (fun g hg => ?_) hr⟩
  obtain ⟨gens', rfl⟩ := List.getLast?_eq_some_iff.mp hg
  obtain ⟨a, hga⟩ := (h.each g (by simp)).getLast?_isSome
  exact ⟨a, hga, ha a (by rw [getLast?_flatten h, hga]; rfl)⟩

theorem Generations.of_concat (h : Generations (gens ++ [g])) : Generations gens :=
  ⟨fun g' hg' => h.each g' (List.mem_append_left _ hg'), (List.isChain_append.mp h.ended).1⟩

theorem starts_of_generations (h : Generations (gens ++ [[r]])) :
    (∀ a ∈ gens.flatten.getLast?, a.deleted = true) ∧ Starts r := by
  obtain ⟨⟨r', hr, hstart⟩, -⟩ := h.each [r] (by simp)
  obtain rfl : r = r' := Option.some.inj hr
  refine ⟨fun a ha => ?_, hstart⟩
  rcases List.eq_nil_or_concat gens with rfl | ⟨gens, g, rfl⟩
  · cases ha
  · rw [List.concat_eq_append] at h ha
    rw [getLast?_flatten h.of_concat] at ha
    obtain ⟨a', ha', hdeleted⟩ := (List.isChain_append.mp h.ended).2.2 g (by simp) [r] rfl
    obtain rfl : a' = a := Option.some.inj (ha'.symm.trans ha)
    exact hdeleted

theorem follows_of_generations (h : Generations (gens ++ [g ++ [b]])) (ha : g.getLast? = some a) :
    Generations (gens ++ [g]) ∧ Follows a b := by
  obtain ⟨⟨r, hr, hstart⟩, hchain⟩ := h.each (g ++ [b]) (by simp)
  obtain ⟨hfront, -, hlast⟩ := List.isChain_append.mp hchain
  obtain ⟨hended, -, hbefore⟩ := List.isChain_append.mp h.ended
  have hfirst : g.head? = some r := by
    cases g with
    | nil => cases ha
    | cons x xs => exact hr
  refine ⟨⟨fun g' hg' => ?_, ?_⟩, hlast a ha b rfl⟩
  · rcases List.mem_append.mp hg' with hg' | hg'
    · exact h.each g' (List.mem_append_left _ hg')
    · rw [List.mem_singleton.mp hg']
      exact ⟨⟨r, hfirst, hstart⟩, hfront⟩
  · exact List.isChain_append.mpr
      ⟨hended, List.isChain_singleton _, fun x hx _ _ => hbefore x hx _ rfl⟩

/-- The row goes on after these rows of its key: it starts a generation after a deletion or at the
beginning, or it follows the last row. -/
def Continues (l : List Record) (b : Record) : Prop :=
  ((∀ a ∈ l.getLast?, a.deleted = true) ∧ Starts b) ∨ ∃ a, l.getLast? = some a ∧ Follows a b

theorem exists_generations_concat {l : List Record} :
    (∃ gens, gens.flatten = l ++ [b] ∧ Generations gens) ↔
      (∃ gens, gens.flatten = l ∧ Generations gens) ∧ Continues l b := by
  constructor
  · rintro ⟨gens, hflat, h⟩
    rcases List.eq_nil_or_concat gens with rfl | ⟨gens, g, rfl⟩
    · simp at hflat
    rw [List.concat_eq_append] at h hflat
    obtain ⟨x, hx⟩ := (h.each g (by simp)).getLast?_isSome
    obtain ⟨g, rfl⟩ := List.getLast?_eq_some_iff.mp hx
    have hsplit : gens.flatten ++ g ++ [x] = l ++ [b] := by simpa using hflat
    obtain ⟨rfl, hlast⟩ := List.append_inj' hsplit rfl
    obtain rfl := List.singleton_inj.mp hlast
    cases ha : g.getLast? with
    | none =>
      obtain rfl := List.getLast?_eq_none_iff.mp ha
      rw [List.append_nil]
      exact ⟨⟨gens, rfl, h.of_concat⟩, Or.inl (starts_of_generations h)⟩
    | some a =>
      obtain ⟨hgens, hfollow⟩ := follows_of_generations h ha
      refine ⟨⟨gens ++ [g], by simp, hgens⟩, Or.inr ⟨a, ?_, hfollow⟩⟩
      simp [ha]
  · rintro ⟨⟨gens, rfl, h⟩, ⟨hend, hstart⟩ | ⟨a, ha, hfollow⟩⟩
    · exact exists_generations_start h hend hstart
    · exact exists_generations_follow h ha hfollow

/-- **Revisions in a history** point backwards, and no two rows share an entry of the unique
index. -/
theorem ordered_of_generations {l : List Record} (hasc : Ascending Record.revision l)
    (hpos : ∀ r ∈ l, 0 < r.revision) (h : ∃ gens, gens.flatten = l ∧ Generations gens) :
    (∀ r ∈ l, r.prevRevision < r.revision ∧ r.createRevision ≤ r.revision) ∧
      l.Pairwise fun a b => indexKey a ≠ indexKey b := by
  -- from the last row on: all rows before it are in order
  induction l using List.reverseRecOn with
  | nil => exact ⟨fun r hr => absurd hr List.not_mem_nil, List.Pairwise.nil⟩
  | append_singleton l b ih =>
    obtain ⟨hstart, hcontinues⟩ := exists_generations_concat.mp h
    obtain ⟨hfront, -, hbefore⟩ := List.pairwise_append.mp hasc
    obtain ⟨hrows, hpairs⟩ := ih hfront (fun r hr => hpos r (List.mem_append_left _ hr)) hstart
    have hlt : ∀ x ∈ l, x.revision < b.revision := fun x hx => hbefore x hx b (by simp)
    have hb : 0 < b.revision := hpos b (by simp)
    have hlast : (b.prevRevision < b.revision ∧ b.createRevision ≤ b.revision) ∧
        ∀ x ∈ l, indexKey x ≠ indexKey b := by
      rcases hcontinues with ⟨-, -, -, -, hprev, hcreate⟩ | ⟨a, ha, -, -, hcreate, hprev, -⟩
      · refine ⟨by omega, fun x hx he => ?_⟩
        have hsame : x.createRevision = b.createRevision := congrArg (fun k => k.2.1) he
        have := hlt x hx
        have := (hrows x hx).2
        omega
      · have hmem : a ∈ l := List.mem_of_getLast? ha
        have := hlt a hmem
        have := (hrows a hmem).2
        refine ⟨by omega, fun x hx he => ?_⟩
        have hsame : x.prevRevision = b.prevRevision := congrArg (fun k => k.2.2) he
        have := key_le_getLast? hfront hx ha
        have := (hrows x hx).1
        omega
    refine ⟨fun r hr => ?_, List.pairwise_append.mpr
      ⟨hpairs, List.pairwise_singleton _ _, fun x hx y hy => ?_⟩⟩
    · rcases List.mem_append.mp hr with hr | hr
      · exact hrows r hr
      · rw [List.mem_singleton.mp hr]
        exact hlast.1
    · rw [List.mem_singleton.mp hy]
      exact hlast.2 x hx

end

/-! ### Tables that grow by one revision at a time -/

/-- What holds of every row. -/
structure RowOk (r : Record) : Prop where
  pos : 0 < r.revision
  prev : r.prevRevision < r.revision
  create : r.createRevision ≤ r.revision
  compacted : r.compactedAt = none
  version : r.deleted = true → r.version = 0

/-- The rows of every key split into generations. -/
structure Sound (t : Table) : Prop where
  rows : ∀ r ∈ t, RowOk r
  history : ∀ key, ∃ gens, gens.flatten = rowsOf t key ∧ Generations gens

/-- What the comparisons and the unique index need of the rows. -/
def Ordered (t : Table) : Prop :=
  ∀ r ∈ t, 0 < r.revision ∧ r.prevRevision < r.revision ∧ r.createRevision ≤ r.revision

theorem Sound.ordered {t : Table} (hs : Sound t) : Ordered t := fun r hr =>
  ⟨(hs.rows r hr).pos, (hs.rows r hr).prev, (hs.rows r hr).create⟩

/-- The record is what `LeaderTxn` or preflight insert: it has the next revision, and it creates a
key or compares with a positive revision. -/
structure Requested (t : Table) (r : Record) : Prop where
  next : r.revision = t.latestRevision + 1
  kind : (r.created = true ∧ r.deleted = false ∧ r.prevRevision = 0) ∨
    (r.created = false ∧ 0 < r.prevRevision)

/-- The revision of the key's live row, `0` if the key is absent or deleted. -/
def currentModRevision (t : Table) (key : Bytes) : ℤ :=
  ((liveRevisionForKey t key).map Record.revision).getD 0

variable {t t' : Table} {now : Time} {r row a : Record} {key : Bytes}

theorem Requested.of_created (hr : Requested t r) (hc : r.created = true) :
    r.deleted = false ∧ r.prevRevision = 0 := by
  rcases hr.kind with ⟨-, hd, hp⟩ | ⟨hcf, -⟩
  · exact ⟨hd, hp⟩
  · exact absurd (hc.symm.trans hcf) (by simp)

theorem Requested.of_deleted (hr : Requested t r) (hd : r.deleted = true) :
    r.created = false ∧ 0 < r.prevRevision := by
  rcases hr.kind with ⟨-, hdf, -⟩ | ⟨hc, hp⟩
  · exact absurd (hd.symm.trans hdf) (by simp)
  · exact ⟨hc, hp⟩

theorem sound_empty : Sound Table.empty where
  rows := fun r hr => by simp [Table.mem_def, Table.empty] at hr
  history := fun key => ⟨[], rfl, generations_nil⟩

theorem mem_of_mem_rowsOf (h : r ∈ rowsOf t key) : r ∈ t ∧ r.key = key := by
  simpa [rowsOf, Table.mem_def] using h

theorem liveRevisionForKey_eq_some : liveRevisionForKey t key = some a ↔
    (rowsOf t key).getLast? = some a ∧ a.deleted = false := by
  simp [liveRevisionForKey, latestRevisionForKey, rowsOf, Option.filter_eq_some_iff]

theorem liveRevisionForKey_eq_none : liveRevisionForKey t key = none ↔
    ∀ a ∈ (rowsOf t key).getLast?, a.deleted = true := by
  simp [liveRevisionForKey, latestRevisionForKey, rowsOf, Option.filter_eq_none_iff]

theorem mem_of_live (h : liveRevisionForKey t key = some a) : a ∈ t ∧ a.key = key :=
  mem_of_mem_rowsOf (List.mem_of_getLast? (liveRevisionForKey_eq_some.mp h).1)

/-- The three comparisons of `insertRecordSQL` amount to one. -/
theorem checks_iff (ho : Ordered t) (hr : Requested t r) :
    ((r.created && (liveRevisionForKey t r.key).isSome) = false ∧
      (r.deleted && (liveRevisionForKey t r.key).isNone) = false ∧ compareFails t r = false) ↔
      currentModRevision t r.key = r.prevRevision := by
  unfold compareFails currentModRevision
  cases hl : liveRevisionForKey t r.key with
  | none =>
    rcases hr.kind with ⟨hc, hd, hp⟩ | ⟨hc, hp⟩
    · simp [hc, hd, hp]
    · simp [hc, hp]
      omega
  | some a =>
    have hpos := (ho a (mem_of_live hl).1).1
    rcases hr.kind with ⟨hc, hd, hp⟩ | ⟨hc, hp⟩
    · simp [hc, hd, hp]
      omega
    · simp [hc, hp]
      omega

theorem rowsOf_append (h : t'.rows = t.rows ++ [row]) :
    rowsOf t' key = if row.key = key then rowsOf t key ++ [row] else rowsOf t key := by
  unfold rowsOf
  rw [h, List.filter_append]
  split_ifs with hk
  · simp [hk]
  · simp [hk]

theorem latestRevision_append (h : t'.rows = t.rows ++ [row]) :
    t'.latestRevision = row.revision := by
  simp [Table.latestRevision, h]

theorem revision_lt_of_requested (hr : Requested t r) {b : Record} (hb : b ∈ t) :
    b.revision < r.revision := by
  have := Table.revision_le_latestRevision hb
  have := hr.next
  omega

theorem latestRevision_nonneg (hs : Sound t) : 0 ≤ t.latestRevision := by
  unfold Table.latestRevision
  cases hl : t.rows.getLast? with
  | none => exact le_rfl
  | some b => exact (hs.rows b (List.mem_of_getLast? hl)).pos.le

theorem next_pos (hs : Sound t) : 0 < t.latestRevision + 1 := by
  have := latestRevision_nonneg hs
  omega

/-- A row that follows the live row of its key is new to the unique index: a created row has a
larger `create_revision` than all rows before, any other row a larger `prev_revision` than all rows
of its key. -/
theorem fits_insertedRow (ho : Ordered t) (hr : Requested t r)
    (hcur : currentModRevision t r.key = r.prevRevision) : t.Fits (insertedRow t now r) := by
  refine ⟨fun b hb => (revision_lt_of_requested hr hb).ne, fun b hb he => ?_⟩
  obtain ⟨hkey, hcreate, hprev⟩ : r.key = b.key ∧
      (insertedRow t now r).createRevision = b.createRevision ∧
      r.prevRevision = b.prevRevision := by
    simpa [indexKey, insertedRow] using he
  obtain ⟨-, hbefore, hcreated⟩ := ho b hb
  unfold currentModRevision at hcur
  cases hl : liveRevisionForKey t r.key with
  | none =>
    have hnew : (insertedRow t now r).createRevision = t.latestRevision + 1 := by
      simp [insertedRow, hl]
    have := Table.revision_le_latestRevision hb
    omega
  | some a =>
    have ha : a.revision = r.prevRevision := by simpa [hl] using hcur
    -- `a` is the last of the key's rows
    have hba : b.revision ≤ a.revision :=
      key_le_getLast? (ascending_filter t.sorted _)
        (show b ∈ rowsOf t r.key by simp [rowsOf, hkey, Table.mem_def.mp hb])
        (liveRevisionForKey_eq_some.mp hl).1
    omega

/-- **An insert succeeds** exactly if the record is valid and compares with the key's current
revision: the unique index rejects nothing else. -/
theorem insertRecord_ok_iff (ho : Ordered t) (hr : Requested t r) :
    (∃ res, insertRecord t now r = .ok res) ↔
      validForInsert r = true ∧ currentModRevision t r.key = r.prevRevision := by
  constructor
  · rintro ⟨⟨t', row⟩, h⟩
    obtain ⟨hv, h1, h2, h3, -, -⟩ := insertRecord_eq_ok.mp h
    exact ⟨hv, (checks_iff ho hr).mp ⟨h1, h2, h3⟩⟩
  · rintro ⟨hv, hcur⟩
    obtain ⟨h1, h2, h3⟩ := (checks_iff ho hr).mpr hcur
    have hfits : t.Fits (insertedRow t now r) := fits_insertedRow ho hr hcur
    cases hi : t.insert (insertedRow t now r) with
    | none => exact absurd hfits (Table.insert_eq_none.mp hi)
    | some t' => exact ⟨(t', _), insertRecord_eq_ok.mpr ⟨hv, h1, h2, h3, rfl, hi⟩⟩

theorem rows_insertRecord (hr : Requested t r) (h : insertRecord t now r = .ok (t', row)) :
    t'.rows = t.rows ++ [row] := by
  refine Table.rows_insert (insertRecord_ok h).2.2 fun b hb => ?_
  rw [revision_insertRecord h]
  exact revision_lt_of_requested hr hb

theorem starts_or_follows (hs : Sound t) (hr : Requested t r)
    (h : insertRecord t now r = .ok (t', row)) :
    (liveRevisionForKey t r.key = none ∧ Starts row) ∨
      ∃ a, liveRevisionForKey t r.key = some a ∧ Follows a row := by
  obtain ⟨-, h1, h2, h3, rfl, -⟩ := insertRecord_eq_ok.mp h
  have hcur := (checks_iff hs.ordered hr).mp ⟨h1, h2, h3⟩
  unfold currentModRevision at hcur
  cases hl : liveRevisionForKey t r.key with
  | none =>
    refine Or.inl ⟨rfl, ?_⟩
    rw [hl] at hcur
    have hp : r.prevRevision = 0 := hcur.symm
    obtain ⟨hc, hd, -⟩ : r.created = true ∧ r.deleted = false ∧ r.prevRevision = 0 := by
      rcases hr.kind with h | ⟨-, h⟩
      · exact h
      · omega
    refine ⟨hc, hd, ?_, hp, ?_⟩
    · -- the row before, if there is one, is a deletion
      have hversion : ((latestRevisionForKey t r.key).map Record.version).getD 0 = 0 := by
        cases hlast : latestRevisionForKey t r.key with
        | none => rfl
        | some a =>
          have ha := List.mem_of_getLast? (show (rowsOf t r.key).getLast? = some a from hlast)
          exact (hs.rows a (mem_of_mem_rowsOf ha).1).version
            (liveRevisionForKey_eq_none.mp hl a hlast)
      simp [insertedRow, hd, hversion]
    · simp [insertedRow, hl, hr.next]
  | some a =>
    refine Or.inr ⟨a, rfl, ?_⟩
    have hpos := (hs.rows a (mem_of_live hl).1).pos
    have hp : a.revision = r.prevRevision := by simpa [hl] using hcur
    have hc : r.created = false := by
      rcases hr.kind with ⟨-, -, h⟩ | ⟨h, -⟩
      · omega
      · exact h
    obtain ⟨hlast, hd⟩ := liveRevisionForKey_eq_some.mp hl
    refine ⟨hd, hc, ?_, hp.symm, ?_⟩
    · simp [insertedRow, hl]
    · simp [insertedRow, show latestRevisionForKey t r.key = some a from hlast]

theorem rowOk_insertRecord (hs : Sound t) (hr : Requested t r)
    (h : insertRecord t now r = .ok (t', row)) : RowOk row := by
  have hnext : row.revision = t.latestRevision + 1 := by rw [revision_insertRecord h, hr.next]
  have hnonneg := latestRevision_nonneg hs
  have hcomp : row.compactedAt = none := by
    obtain ⟨hv, rfl, -⟩ := insertRecord_ok h
    have : r.compactedAt = none := by simp_all [validForInsert]
    exact this
  rcases starts_or_follows hs hr h with ⟨-, -, hd, -, hp, hcr⟩ | ⟨a, hl, -, -, hcr, hp, hversion⟩
  · exact ⟨by omega, by omega, by omega, hcomp, fun h => by simp [hd] at h⟩
  · have ha := mem_of_live hl
    have := Table.revision_le_latestRevision ha.1
    have := (hs.rows a ha.1).create
    exact ⟨by omega, by omega, by omega, hcomp, fun h => by rw [hversion, if_pos h]⟩

theorem sound_insertRecord (hs : Sound t) (hr : Requested t r)
    (h : insertRecord t now r = .ok (t', row)) : Sound t' := by
  have hrows := rows_insertRecord hr h
  have hkey : row.key = r.key := by rw [(insertRecord_ok h).2.1]; rfl
  refine ⟨fun b hb => ?_, fun key => ?_⟩
  · rcases (mem_insertRecord h).mp hb with rfl | hb
    · exact rowOk_insertRecord hs hr h
    · exact hs.rows b hb
  · obtain ⟨gens, hflat, hgens⟩ := hs.history key
    rw [rowsOf_append hrows]
    by_cases hk : row.key = key
    · subst hk
      rw [if_pos rfl, ← hflat]
      rcases starts_or_follows hs hr h with ⟨hl, hstart⟩ | ⟨a, hl, hfollow⟩
      · refine exists_generations_start hgens ?_ hstart
        rw [hflat, hkey]
        exact liveRevisionForKey_eq_none.mp hl
      · refine exists_generations_follow hgens ?_ hfollow
        rw [hflat, hkey]
        exact (liveRevisionForKey_eq_some.mp hl).1
    · rw [if_neg hk]
      exact ⟨gens, hflat, hgens⟩

end Netsy.LocalDB.History
