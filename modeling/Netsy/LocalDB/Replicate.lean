import Netsy.LocalDB.Schema

/-! # Replicating a record

`ReplicateRecord` inserts a record as it is and accepts a row that is already there if it is
semantically identical. `ReplicateTentativeRecord` may also replace a row above the committed
revision, by a `DELETE` and a second insert that are not one transaction: when the second insert
fails, the row is gone.

The columns for times are texts, and a text that is no time is read as if there were none. Such a
row is not identical to the record it was inserted for. A table whose times are all of the years
with a text is as good as one with times in its columns, and that is the table of `replicateRecord`
and `replicateTentativeRecord`. -/

namespace Netsy.LocalDB.Replicate

open Proto LocalDB.Schema

/-- The errors of `ReplicateRecord`. `replicateConflict` is `ErrReplicateConflict`. -/
inductive ReplicateError
  | zeroRevision | notNull | readExisting (revision : ℤ) | replicateConflict (revision : ℤ)
deriving DecidableEq, Repr

def ReplicateError.message : ReplicateError → String
  | .zeroRevision => "cannot insert record with revision=0"
  | .notNull => "NOT NULL constraint failed: records.key"
  | .readExisting revision => s!"read existing revision {revision} after duplicate insert"
  | .replicateConflict revision =>
    s!"replicate conflict: revision {revision} already exists with different contents"

def recordsEqualForReplication (a b : Record) : Bool :=
  a.revision = b.revision && a.key = b.key && a.created = b.created && a.deleted = b.deleted &&
    a.createRevision = b.createRevision && a.prevRevision = b.prevRevision &&
    a.version = b.version && a.lease = b.lease && a.dek = b.dek && a.value = b.value &&
    a.leaderId = b.leaderId && a.createdAt = b.createdAt && a.compactedAt = b.compactedAt

/-- The row that `ReplicateRecord` inserts: the table has no column for the checksum. -/
def replicatedRow (now : Time) (r : Record) : Record :=
  { r with replicatedAt := some now, crc := 0 }

/-! ### Times as texts -/

/-- The time lies in the years 1 to 9999. -/
def InYears (t : Time) : Prop :=
  -62135596800 * nanosPerSecond ≤ t ∧ t < 253402300800 * nanosPerSecond

instance (t : Time) : Decidable (InYears t) := inferInstanceAs (Decidable (_ ∧ _))

/-- `Format` and `Parse` of package `time` with the layout `RFC3339Nano`: a time of these years is
parsed back. -/
structure TimeText where
  Text : Type
  format : Time → Text
  parse : Text → Option Time
  parse_format : ∀ t, InYears t → parse (format t) = some t

/-- The law can be met, by times that are their own texts. -/
instance : Inhabited TimeText := ⟨⟨Time, id, some, fun _ _ => rfl⟩⟩

/-- What is parsed of a column that was formatted; a text that is no time leaves the field nil. -/
def TimeText.reparse (x : TimeText) (o : Option Time) : Option Time :=
  o.bind fun t => x.parse (x.format t)

/-- The record that `selectRecord` scans of a row. -/
def selectRecord (x : TimeText) (row : Record) : Record :=
  { row with
    createdAt := x.reparse row.createdAt
    compactedAt := x.reparse row.compactedAt
    replicatedAt := x.reparse row.replicatedAt }

/-- The rows as they are read. -/
def asRead (x : TimeText) (t : Table) : Table :=
  t.update (selectRecord x) (fun _ => rfl) fun _ => rfl

namespace TimeText

variable (x : TimeText)

/-- `ReplicateRecord`: the table after the call and the row returned. -/
def replicateRecord (t : Table) (now : Time) (r : Record) :
    Except ReplicateError (Table × Record) :=
  if r.revision = 0 then .error .zeroRevision
  -- an empty key binds NULL
  else if r.key = [] then .error .notNull
  else
    match t.insert (replicatedRow now r) with
    | some t' => .ok (t', selectRecord x (replicatedRow now r))
    | none =>
      match (asRead x t).findRecordByRev r.revision with
      | none => .error (.readExisting r.revision)
      | some existing =>
        if recordsEqualForReplication existing r then .ok (t, existing)
        else .error (.replicateConflict r.revision)

/-- The table after a `ReplicateRecord` and its result. -/
def replicateRecordIn (t : Table) (now : Time) (r : Record) :
    Table × Except ReplicateError Record :=
  match x.replicateRecord t now r with
  | .ok (t', r') => (t', .ok r')
  | .error e => (t, .error e)

/-- `ReplicateTentativeRecord`: the table after the call and its result. -/
def replicateTentativeRecord (t : Table) (now : Time) (r : Record) (committedRevision : ℤ) :
    Table × Except ReplicateError Record :=
  if r.revision ≤ committedRevision then x.replicateRecordIn t now r
  else
    match x.replicateRecord t now r with
    | .ok (t', r') => (t', .ok r')
    | .error (.replicateConflict _) => x.replicateRecordIn (t.delete r.revision) now r
    | .error e => (t, .error e)

end TimeText

/-- `ReplicateRecord` on a table that holds the times; see `replicateTentativeRecord_of_inYears`. -/
def replicateRecord (t : Table) (now : Time) (r : Record) :
    Except ReplicateError (Table × Record) := (default : TimeText).replicateRecord t now r

def replicateRecordIn (t : Table) (now : Time) (r : Record) :
    Table × Except ReplicateError Record := (default : TimeText).replicateRecordIn t now r

/-- `ReplicateTentativeRecord` on a table that holds the times. -/
def replicateTentativeRecord (t : Table) (now : Time) (r : Record) (committedRevision : ℤ) :
    Table × Except ReplicateError Record :=
  (default : TimeText).replicateTentativeRecord t now r committedRevision

variable {x : TimeText} {t t' : Table} {now : Time} {r r' b : Record} {committed : ℤ}

theorem recordsEqualForReplication_iff :
    recordsEqualForReplication r' r ↔
      r'.identity = r.identity ∧ r'.value = r.value ∧ r'.compactedAt = r.compactedAt := by
  cases r
  cases r'
  simp only [recordsEqualForReplication, Record.identity, Bool.and_eq_true, decide_eq_true_eq,
    Record.mk.injEq]
  tauto

theorem recordsEqualForReplication_replicatedRow (now : Time) (r : Record) :
    recordsEqualForReplication (replicatedRow now r) r :=
  recordsEqualForReplication_iff.mpr ⟨rfl, rfl, rfl⟩

theorem sameRecord_congr (h : recordsEqualForReplication r' r) :
    SameRecord r' b ↔ SameRecord r b := by
  obtain ⟨h1, h2, h3⟩ := recordsEqualForReplication_iff.mp h
  unfold SameRecord
  rw [h1, h2, h3]

theorem sameRecord_of_recordsEqual (h : recordsEqualForReplication r' r) : SameRecord r' r :=
  (sameRecord_congr h).mpr (SameRecord.refl r)

/-! ### Rows as they are read -/

theorem TimeText.reparse_eq {o : Option Time} (h : ∀ t ∈ o, InYears t) : x.reparse o = o := by
  cases o with
  | none => rfl
  | some t => exact x.parse_format t (h t rfl)

theorem reparse_default (o : Option Time) : (default : TimeText).reparse o = o := by
  cases o <;> rfl

theorem selectRecord_default (row : Record) : selectRecord default row = row := by
  simp [selectRecord, reparse_default]

theorem asRead_default (t : Table) : asRead default t = t := by
  have hid : selectRecord default = id := funext selectRecord_default
  cases t
  simp [asRead, Table.update, hid]

theorem mem_asRead : r ∈ asRead x t ↔ ∃ b ∈ t, selectRecord x b = r := Table.mem_update

/-- The columns of the keys hold no time. -/
theorem fits_asRead : (asRead x t).Fits r ↔ t.Fits r := by
  simp only [Table.Fits, asRead, Table.update, List.forall_mem_map]
  rfl

/-! ### `ReplicateRecord` -/

/-- The record is inserted, or the row of its revision is a copy already. -/
theorem TimeText.replicateRecord_cases (h : x.replicateRecord t now r = .ok (t', r')) :
    t.insert (replicatedRow now r) = some t' ∧ r' = selectRecord x (replicatedRow now r) ∨
      t' = t ∧ r' ∈ asRead x t ∧ recordsEqualForReplication r' r := by
  unfold TimeText.replicateRecord at h
  split_ifs at h
  cases hi : t.insert (replicatedRow now r) with
  | some u =>
    simp only [hi, Except.ok.injEq, Prod.mk.injEq] at h
    obtain ⟨rfl, rfl⟩ := h
    exact Or.inl ⟨rfl, rfl⟩
  | none =>
    cases hf : (asRead x t).findRecordByRev r.revision with
    | none => simp [hi, hf] at h
    | some e =>
      simp only [hi, hf] at h
      split_ifs at h with he
      simp only [Except.ok.injEq, Prod.mk.injEq] at h
      obtain ⟨rfl, rfl⟩ := h
      exact Or.inr ⟨rfl, (Table.findRecordByRev_eq_some.mp hf).1, he⟩

theorem replicateRecord_cases (h : replicateRecord t now r = .ok (t', r')) :
    t.insert (replicatedRow now r) = some t' ∧ r' = replicatedRow now r ∨
      t' = t ∧ r' ∈ t ∧ recordsEqualForReplication r' r := by
  have hcases := TimeText.replicateRecord_cases h
  rwa [selectRecord_default, asRead_default] at hcases

theorem replicateRecord_eq (t : Table) (now : Time) (r : Record) :
    replicateRecord t now r =
      if r.revision = 0 then .error .zeroRevision
      else if r.key = [] then .error .notNull
      else
        match t.insert (replicatedRow now r) with
        | some t' => .ok (t', replicatedRow now r)
        | none =>
          match t.findRecordByRev r.revision with
          | none => .error (.readExisting r.revision)
          | some existing =>
            if recordsEqualForReplication existing r then .ok (t, existing)
            else .error (.replicateConflict r.revision) := by
  unfold replicateRecord TimeText.replicateRecord
  simp only [selectRecord_default, asRead_default]

/-- **What a successful call did.** The row returned is in the table and is a copy of the record;
the other rows are the old ones. -/
theorem replicateRecord_ok (h : replicateRecord t now r = .ok (t', r')) :
    recordsEqualForReplication r' r ∧ r' ∈ t' ∧ (∀ b ∈ t, b ∈ t') ∧
      ∀ b ∈ t', b ∈ t ∨ b = r' := by
  rcases replicateRecord_cases h with ⟨hi, rfl⟩ | ⟨rfl, hmem, he⟩
  · refine ⟨recordsEqualForReplication_replicatedRow now r, (Table.mem_insert hi).mpr (Or.inl rfl),
      fun b hb => (Table.mem_insert hi).mpr (Or.inr hb), fun b hb => ?_⟩
    exact ((Table.mem_insert hi).mp hb).symm
  · exact ⟨he, hmem, fun b hb => hb, fun b hb => Or.inl hb⟩

theorem TimeText.replicateRecord_of_copy (hpos : r.revision ≠ 0) (hkey : r.key ≠ [])
    (hb : b ∈ asRead x t) (heq : recordsEqualForReplication b r) :
    x.replicateRecord t now r = .ok (t, b) := by
  have hrev : b.revision = r.revision := (sameRecord_of_recordsEqual heq).revision_eq
  have hins : t.insert (replicatedRow now r) = none :=
    Table.insert_eq_none.mpr fun hfits => (fits_asRead.mpr hfits).1 b hb hrev
  have hfind : (asRead x t).findRecordByRev r.revision = some b :=
    Table.findRecordByRev_eq_some.mpr ⟨hb, hrev⟩
  unfold TimeText.replicateRecord
  rw [if_neg hpos, if_neg hkey, hins]
  simp only [hfind, if_pos heq]

theorem replicateRecord_of_mem (now : Time) (hb : b ∈ t) (hrev : b.revision = r.revision)
    (hpos : r.revision ≠ 0) (hkey : r.key ≠ []) :
    replicateRecord t now r =
      if recordsEqualForReplication b r then .ok (t, b)
      else .error (.replicateConflict r.revision) := by
  have hins : t.insert (replicatedRow now r) = none :=
    Table.insert_eq_none.mpr fun hfits => hfits.1 b hb hrev
  have hfind : t.findRecordByRev r.revision = some b :=
    Table.findRecordByRev_eq_some.mpr ⟨hb, hrev⟩
  rw [replicateRecord_eq, if_neg hpos, if_neg hkey, hins]
  simp only [hfind]

theorem replicateRecordIn_eq (t : Table) (now : Time) (r : Record) :
    replicateRecordIn t now r =
      match replicateRecord t now r with
      | .ok (t', r') => (t', .ok r')
      | .error e => (t, .error e) := rfl

theorem subset_replicateRecordIn (hb : b ∈ t) : b ∈ (replicateRecordIn t now r).1 := by
  rw [replicateRecordIn_eq]
  cases h : replicateRecord t now r with
  | error e => exact hb
  | ok p => exact (replicateRecord_ok h).2.2.1 b hb

theorem mem_of_mem_replicateRecordIn (hb : b ∈ (replicateRecordIn t now r).1) :
    b ∈ t ∨ SameRecord b r := by
  rw [replicateRecordIn_eq] at hb
  cases h : replicateRecord t now r with
  | error e =>
    simp only [h] at hb
    exact Or.inl hb
  | ok p =>
    simp only [h] at hb
    obtain ⟨hs, -, -, hall⟩ := replicateRecord_ok h
    rcases hall b hb with hb | rfl
    · exact Or.inl hb
    · exact Or.inr (sameRecord_of_recordsEqual hs)

theorem exists_of_replicateRecordIn_ok (h : (replicateRecordIn t now r).2 = .ok r') :
    r' ∈ (replicateRecordIn t now r).1 ∧ recordsEqualForReplication r' r := by
  rw [replicateRecordIn_eq] at h ⊢
  cases hr : replicateRecord t now r with
  | error e => simp [hr] at h
  | ok p =>
    simp only [hr, Except.ok.injEq] at h ⊢
    obtain ⟨hs, hm, -⟩ := replicateRecord_ok hr
    exact h ▸ ⟨hm, hs⟩

/-! ### When a record is accepted -/

/-- The row does not stand in the way of the record: it has neither its revision nor its entry of
the unique index, or it is the record. -/
def Agrees (b r : Record) : Prop :=
  b.revision = r.revision ∨ indexKey b = indexKey r → recordsEqualForReplication b r

instance (b r : Record) : Decidable (Agrees b r) := inferInstanceAs (Decidable (_ → _))

def Accepts (t : Table) (r : Record) : Prop :=
  r.revision ≠ 0 ∧ r.key ≠ [] ∧ ∀ b ∈ t, Agrees b r

instance (t : Table) (r : Record) : Decidable (Accepts t r) := inferInstanceAs (Decidable (_ ∧ _))

theorem Accepts.mono (h : ∀ b ∈ t, b ∈ t') (ht : Accepts t' r) : Accepts t r :=
  ⟨ht.1, ht.2.1, fun b hb => ht.2.2 b (h b hb)⟩

theorem indexKey_eq_of_recordsEqual (h : recordsEqualForReplication r' r) :
    indexKey r' = indexKey r := (congrArg indexKey (recordsEqualForReplication_iff.mp h).1 :)

theorem TimeText.exists_replicateRecord_ok_iff :
    (∃ p, x.replicateRecord t now r = .ok p) ↔ Accepts (asRead x t) r := by
  constructor
  · rintro ⟨p, h⟩
    unfold TimeText.replicateRecord at h
    split_ifs at h with h0 hk
    refine ⟨h0, hk, fun b hb hclash => ?_⟩
    cases hi : t.insert (replicatedRow now r) with
    | some u =>
      have hfits : (asRead x t).Fits (replicatedRow now r) := by
        by_contra hn
        rw [Table.insert_eq_none.mpr (mt fits_asRead.mpr hn)] at hi
        cases hi
      rcases hclash with hrev | hidx
      · exact absurd hrev (hfits.1 b hb)
      · exact absurd hidx.symm (hfits.2 b hb)
    | none =>
      cases hf : (asRead x t).findRecordByRev r.revision with
      | none => simp [hi, hf] at h
      | some e =>
        obtain ⟨he, hrev⟩ := Table.findRecordByRev_eq_some.mp hf
        simp only [hi, hf] at h
        split_ifs at h with heq
        -- the row that was found is the only one with the revision or the entry
        have hbe : b = e := by
          rcases hclash with hbrev | hidx
          · exact Table.eq_of_revision_eq hb he (hbrev.trans hrev.symm)
          · by_contra hne
            have := Table.indexKey_ne_of_ne hb he hne
            exact this (hidx.trans (indexKey_eq_of_recordsEqual heq).symm)
        exact hbe ▸ heq
  · rintro ⟨h0, hk, hagrees⟩
    by_cases hfits : (asRead x t).Fits (replicatedRow now r)
    · obtain ⟨u, hu⟩ : ∃ u, t.insert (replicatedRow now r) = some u :=
        Option.ne_none_iff_exists'.mp
          (mt Table.insert_eq_none.mp (not_not.mpr (fits_asRead.mp hfits)))
      exact ⟨(u, selectRecord x (replicatedRow now r)),
        by simp [TimeText.replicateRecord, h0, hk, hu]⟩
    · have hclash : ∃ b ∈ asRead x t, b.revision = r.revision ∨ indexKey b = indexKey r := by
        by_contra hnone
        push Not at hnone
        exact hfits ⟨fun b hb => (hnone b hb).1, fun b hb he => (hnone b hb).2 he.symm⟩
      obtain ⟨b, hb, hc⟩ := hclash
      have heq := hagrees b hb hc
      exact ⟨(t, b), TimeText.replicateRecord_of_copy h0 hk hb heq⟩

theorem exists_replicateRecord_ok_iff :
    (∃ p, replicateRecord t now r = .ok p) ↔ Accepts t r := by
  have hiff : (∃ p, (default : TimeText).replicateRecord t now r = .ok p) ↔
      Accepts (asRead default t) r := TimeText.exists_replicateRecord_ok_iff
  rwa [asRead_default] at hiff

/-! ### Tables with readable times -/

/-- The times that are compared are read back from their columns. -/
def Readable (x : TimeText) (r : Record) : Prop :=
  x.reparse r.createdAt = r.createdAt ∧ x.reparse r.compactedAt = r.compactedAt

theorem readable_of_inYears (hcreated : ∀ t ∈ r.createdAt, InYears t)
    (hcompacted : ∀ t ∈ r.compactedAt, InYears t) : Readable x r :=
  ⟨x.reparse_eq hcreated, x.reparse_eq hcompacted⟩

theorem Readable.recordsEqual_iff (h : Readable x b) :
    recordsEqualForReplication (selectRecord x b) r ↔ recordsEqualForReplication b r := by
  simp only [recordsEqualForReplication, selectRecord, h.1, h.2]

theorem findRecordByRev_asRead {rev : ℤ} :
    (asRead x t).findRecordByRev rev = (t.findRecordByRev rev).map (selectRecord x) :=
  List.find?_map

theorem replicateRecord_of_readable (h : ∀ b ∈ t, Readable x b) (now : Time) (r : Record) :
    (x.replicateRecord t now r).map Prod.fst = (replicateRecord t now r).map Prod.fst := by
  rw [replicateRecord_eq, TimeText.replicateRecord, findRecordByRev_asRead]
  split_ifs
  · rfl
  · rfl
  · cases t.insert (replicatedRow now r) with
    | some t' => rfl
    | none =>
      cases hf : t.findRecordByRev r.revision with
      | none => rfl
      | some e =>
        have heq := (h e (Table.findRecordByRev_eq_some.mp hf).1).recordsEqual_iff (r := r)
        simp only [Option.map_some, heq]
        split_ifs <;> rfl

theorem replicateRecordIn_of_readable (h : ∀ b ∈ t, Readable x b) :
    (x.replicateRecordIn t now r).1 = (replicateRecordIn t now r).1 := by
  have hsame := replicateRecord_of_readable h now r
  rw [replicateRecordIn_eq, TimeText.replicateRecordIn]
  cases hx : x.replicateRecord t now r <;> cases hp : replicateRecord t now r <;>
    simp_all [Except.map]

/-! ### `ReplicateTentativeRecord` -/

theorem replicateTentativeRecord_eq (t : Table) (now : Time) (r : Record) (committed : ℤ) :
    replicateTentativeRecord t now r committed =
      if r.revision ≤ committed then replicateRecordIn t now r
      else
        match replicateRecord t now r with
        | .ok (t', r') => (t', .ok r')
        | .error (.replicateConflict _) => replicateRecordIn (t.delete r.revision) now r
        | .error e => (t, .error e) := rfl

/-- **The cases of the call**: it is a `ReplicateRecord` on the table, or on the table without the
row of that revision, which is then above the committed revision. -/
theorem replicateTentativeRecord_cases (t : Table) (now : Time) (r : Record) (committed : ℤ) :
    replicateTentativeRecord t now r committed = replicateRecordIn t now r ∨
      (committed < r.revision ∧
        (∃ rev, replicateRecord t now r = .error (.replicateConflict rev)) ∧
        replicateTentativeRecord t now r committed =
          replicateRecordIn (t.delete r.revision) now r) := by
  rw [replicateTentativeRecord_eq]
  split_ifs with hc
  · exact Or.inl rfl
  · cases h : replicateRecord t now r with
    | ok p => exact Or.inl (by simp [replicateRecordIn_eq, h])
    | error e =>
      cases e with
      | replicateConflict rev => exact Or.inr ⟨not_le.mp hc, ⟨rev, rfl⟩, rfl⟩
      | zeroRevision => exact Or.inl (by simp [replicateRecordIn_eq, h])
      | notNull => exact Or.inl (by simp [replicateRecordIn_eq, h])
      | readExisting rev => exact Or.inl (by simp [replicateRecordIn_eq, h])

theorem replicateTentativeRecord_of_readable (h : ∀ b ∈ t, Readable x b) :
    (x.replicateTentativeRecord t now r committed).1 =
      (replicateTentativeRecord t now r committed).1 := by
  have hsame := replicateRecord_of_readable h now r
  have hdelete : ∀ b ∈ t.delete r.revision, Readable x b := fun b hb =>
    h b (Table.mem_delete.mp hb).1
  rw [replicateTentativeRecord_eq, TimeText.replicateTentativeRecord]
  split_ifs
  · exact replicateRecordIn_of_readable h
  · cases hx : x.replicateRecord t now r with
    | ok p =>
      cases hp : replicateRecord t now r with
      | ok q => simpa [hx, hp, Except.map] using hsame
      | error e => simp [hx, hp, Except.map] at hsame
    | error e =>
      cases hp : replicateRecord t now r with
      | ok q => simp [hx, hp, Except.map] at hsame
      | error e' =>
        simp only [hx, hp, Except.map, Except.error.injEq] at hsame
        subst hsame
        cases e with
        | replicateConflict rev => exact replicateRecordIn_of_readable hdelete
        | zeroRevision => rfl
        | notNull => rfl
        | readExisting rev => rfl

/-- **In the years 1 to 9999 the columns may be taken for the times**, whatever their texts are. -/
theorem replicateTentativeRecord_of_inYears
    (h : ∀ b ∈ t, (∀ c ∈ b.createdAt, InYears c) ∧ ∀ c ∈ b.compactedAt, InYears c) :
    (x.replicateTentativeRecord t now r committed).1 =
      (replicateTentativeRecord t now r committed).1 :=
  replicateTentativeRecord_of_readable fun b hb => readable_of_inYears (h b hb).1 (h b hb).2

theorem mem_replicateTentativeRecord_of_ne (hne : b.revision ≠ r.revision) :
    b ∈ (replicateTentativeRecord t now r committed).1 ↔ b ∈ t := by
  have hsame : ∀ u : Table, b ∈ (replicateRecordIn u now r).1 ↔ b ∈ u := fun u =>
    ⟨fun hb => (mem_of_mem_replicateRecordIn hb).resolve_right fun hs => hne hs.revision_eq,
      subset_replicateRecordIn⟩
  rcases replicateTentativeRecord_cases t now r committed with h | ⟨-, -, h⟩
  · rw [h, hsame]
  · rw [h, hsame, Table.mem_delete]
    exact and_iff_left hne

theorem subset_replicateTentativeRecord (hb : b ∈ t) (hle : b.revision ≤ committed) :
    b ∈ (replicateTentativeRecord t now r committed).1 := by
  rcases replicateTentativeRecord_cases t now r committed with h | ⟨hlt, -, h⟩
  · rw [h]
    exact subset_replicateRecordIn hb
  · rw [h]
    exact subset_replicateRecordIn (Table.mem_delete.mpr ⟨hb, by omega⟩)

theorem exists_of_replicateTentativeRecord_ok
    (h : (replicateTentativeRecord t now r committed).2 = .ok r') :
    r' ∈ (replicateTentativeRecord t now r committed).1 ∧ recordsEqualForReplication r' r := by
  rcases replicateTentativeRecord_cases t now r committed with he | ⟨-, -, he⟩
  · rw [he] at h ⊢
    exact exists_of_replicateRecordIn_ok h
  · rw [he] at h ⊢
    exact exists_of_replicateRecordIn_ok h

theorem replicateTentativeRecord_overwrites (hb : b ∈ t) (hrev : b.revision = r.revision)
    (hpos : r.revision ≠ 0) (hkey : r.key ≠ []) (hlt : committed < r.revision)
    (hdiffer : recordsEqualForReplication b r = false)
    (hfits : (t.delete r.revision).Fits (replicatedRow now r)) :
    ∃ u, replicateTentativeRecord t now r committed = (u, .ok (replicatedRow now r)) ∧
      ∀ a, a ∈ u ↔ a = replicatedRow now r ∨ (a ∈ t ∧ a.revision ≠ r.revision) := by
  obtain ⟨u, hu⟩ := Option.ne_none_iff_exists'.mp (mt Table.insert_eq_none.mp (not_not.mpr hfits))
  refine ⟨u, ?_, fun a => by rw [Table.mem_insert hu, Table.mem_delete]⟩
  rw [replicateTentativeRecord_eq, if_neg (not_le.mpr hlt),
    replicateRecord_of_mem now hb hrev hpos hkey, hdiffer]
  simp [replicateRecordIn_eq, replicateRecord_eq, hpos, hkey, hu]

/-- A record fits where the row of another copy of it has just been deleted. -/
theorem fits_delete_of_sameRecord (hb : b ∈ t) (hs : SameRecord b r) :
    (t.delete r.revision).Fits (replicatedRow now r) := by
  refine ⟨fun a ha => (Table.mem_delete.mp ha).2, fun a ha he => ?_⟩
  obtain ⟨hmem, hne⟩ := Table.mem_delete.mp ha
  have hab : b ≠ a := fun h => hne (h ▸ hs.revision_eq)
  have hidx : indexKey b = indexKey r := (congrArg indexKey hs.1 :)
  exact Table.indexKey_ne_of_ne hb hmem hab (hidx.trans he)

theorem exists_sameRecord_replicateTentativeRecord (hb : b ∈ t) (hs : SameRecord b r) :
    ∃ b' ∈ (replicateTentativeRecord t now r committed).1, SameRecord b' r := by
  rcases replicateTentativeRecord_cases t now r committed with h | ⟨-, ⟨rev, hc⟩, h⟩ <;> rw [h]
  · exact ⟨b, subset_replicateRecordIn hb, hs⟩
  · rw [replicateRecord_eq] at hc
    split_ifs at hc with h0 hk
    · cases hc
    · cases hc
    have hins : (t.delete r.revision).insert (replicatedRow now r) ≠ none := fun hn =>
      Table.insert_eq_none.mp hn (fits_delete_of_sameRecord hb hs)
    obtain ⟨u, hu⟩ := Option.ne_none_iff_exists'.mp hins
    refine ⟨replicatedRow now r, ?_, SameRecord.refl r⟩
    simp only [replicateRecordIn_eq, replicateRecord_eq, if_neg h0, if_neg hk, hu]
    exact (Table.mem_insert hu).mpr (Or.inl rfl)

theorem latestRevision_replicateTentativeRecord (hb : b ∈ t)
    (hr : r.revision < b.revision ∨ SameRecord b r) :
    (replicateTentativeRecord t now r committed).1.latestRevision = t.latestRevision := by
  obtain ⟨top, htop, hlatest⟩ := Table.exists_latestRevision hb
  have hle : ∀ a ∈ t, a.revision ≤ top.revision := fun a ha =>
    hlatest ▸ Table.revision_le_latestRevision ha
  have hrle : r.revision ≤ top.revision := by
    rcases hr with hlt | hs
    · exact hlt.le.trans (hle b hb)
    · exact hs.revision_eq ▸ hle b hb
  have hall : ∀ a ∈ (replicateTentativeRecord t now r committed).1,
      a.revision ≤ top.revision := by
    intro a ha
    by_cases hne : a.revision = r.revision
    · exact hne ▸ hrle
    · exact hle a ((mem_replicateTentativeRecord_of_ne hne).mp ha)
  rw [← hlatest]
  by_cases hne : top.revision = r.revision
  · have hs : SameRecord b r := by
      refine hr.resolve_left fun hlt => ?_
      have := hle b hb
      omega
    obtain ⟨a, ha, hs'⟩ : ∃ a ∈ (replicateTentativeRecord t now r committed).1, SameRecord a r :=
      exists_sameRecord_replicateTentativeRecord hb hs
    have he : a.revision = top.revision := hs'.revision_eq.trans hne.symm
    exact he ▸ Table.latestRevision_eq ha (he ▸ hall)
  · exact Table.latestRevision_eq ((mem_replicateTentativeRecord_of_ne hne).mpr htop) hall

/-! ### The contract of a tentative record -/

theorem replicateRecordIn_error {e : ReplicateError}
    (h : (replicateRecordIn t now r).2 = .error e) : (replicateRecordIn t now r).1 = t := by
  rw [replicateRecordIn_eq] at h ⊢
  cases hr : replicateRecord t now r with
  | error e' => rfl
  | ok p => simp [hr] at h

theorem replicateRecord_conflict_iff :
    (∃ rev, replicateRecord t now r = .error (.replicateConflict rev)) ↔
      r.revision ≠ 0 ∧ r.key ≠ [] ∧
        ∃ b ∈ t, b.revision = r.revision ∧ recordsEqualForReplication b r = false := by
  constructor
  · rintro ⟨rev, h⟩
    rw [replicateRecord_eq] at h
    split_ifs at h with h0 hk
    · cases h
    · cases h
    refine ⟨h0, hk, ?_⟩
    cases hi : t.insert (replicatedRow now r) with
    | some u => simp [hi] at h
    | none =>
      cases hf : t.findRecordByRev r.revision with
      | none => simp [hi, hf] at h
      | some b =>
        obtain ⟨hb, hrev⟩ := Table.findRecordByRev_eq_some.mp hf
        simp only [hi, hf] at h
        split_ifs at h with heq
        exact ⟨b, hb, hrev, Bool.eq_false_iff.mpr heq⟩
  · rintro ⟨h0, hk, b, hb, hrev, hdiffer⟩
    exact ⟨r.revision, by rw [replicateRecord_of_mem now hb hrev h0 hk, hdiffer]; rfl⟩

theorem fits_delete_iff :
    (t.delete r.revision).Fits (replicatedRow now r) ↔
      ¬ ∃ b ∈ t, b.revision ≠ r.revision ∧ indexKey b = indexKey r := by
  constructor
  · rintro ⟨-, hfits⟩ ⟨b, hb, hne, hidx⟩
    exact hfits b (Table.mem_delete.mpr ⟨hb, hne⟩) hidx.symm
  · intro hnone
    refine ⟨fun b hb => (Table.mem_delete.mp hb).2, fun b hb hidx => hnone ?_⟩
    obtain ⟨hmem, hne⟩ := Table.mem_delete.mp hb
    exact ⟨b, hmem, hne, hidx.symm⟩

/-- What a call promises: the committed rows stay; a call that succeeds leaves a row equal to the
record and no other change; a call that fails changes nothing. -/
structure TentativeContract (t : Table) (now : Time) (r : Record) (committed : ℤ) : Prop where
  kept : ∀ b ∈ t, b.revision ≤ committed → b ∈ (replicateTentativeRecord t now r committed).1
  tentative : ∀ r', (replicateTentativeRecord t now r committed).2 = .ok r' →
    committed < r.revision →
      (∃ b ∈ (replicateTentativeRecord t now r committed).1,
        b.revision = r.revision ∧ recordsEqualForReplication b r) ∧
      ∀ b : Record, b.revision ≠ r.revision →
        (b ∈ (replicateTentativeRecord t now r committed).1 ↔ b ∈ t)
  stored : ∀ r', (replicateTentativeRecord t now r committed).2 = .ok r' →
    r.revision ≤ committed →
      ∃ b ∈ (replicateTentativeRecord t now r committed).1,
        b.revision = r.revision ∧ recordsEqualForReplication b r
  failed : ∀ e, (replicateTentativeRecord t now r committed).2 = .error e →
    (replicateTentativeRecord t now r committed).1 = t

/-- A different tentative row is stored at the revision of the record, and a row of another
revision has its entry of the unique index. -/
def Blocked (t : Table) (r : Record) (committed : ℤ) : Prop :=
  committed < r.revision ∧ r.key ≠ [] ∧
    (∃ b ∈ t, b.revision = r.revision ∧ recordsEqualForReplication b r = false) ∧
    ∃ b ∈ t, b.revision ≠ r.revision ∧ indexKey b = indexKey r

instance (t : Table) (r : Record) (committed : ℤ) : Decidable (Blocked t r committed) :=
  inferInstanceAs (Decidable (_ ∧ _))

/-- **A blocked record loses the row it was to replace**: the second insert fails after the
`DELETE`. -/
theorem replicateTentativeRecord_of_blocked (hpos : 1 ≤ r.revision) (h : Blocked t r committed) :
    replicateTentativeRecord t now r committed =
      (t.delete r.revision, .error (.readExisting r.revision)) := by
  obtain ⟨hlt, hkey, hother, htaken⟩ := h
  have h0 : r.revision ≠ 0 := by omega
  obtain ⟨rev, hconflict⟩ : ∃ rev, replicateRecord t now r = .error (.replicateConflict rev) :=
    replicateRecord_conflict_iff.mpr ⟨h0, hkey, hother⟩
  have hins : (t.delete r.revision).insert (replicatedRow now r) = none :=
    Table.insert_eq_none.mpr fun hfits => fits_delete_iff.mp hfits htaken
  have hfind : (t.delete r.revision).findRecordByRev r.revision = none := by
    rw [Option.eq_none_iff_forall_ne_some]
    intro b hb
    obtain ⟨hmem, hrev⟩ := Table.findRecordByRev_eq_some.mp hb
    exact (Table.mem_delete.mp hmem).2 hrev
  rw [replicateTentativeRecord_eq, if_neg (not_le.mpr hlt), hconflict]
  simp [replicateRecordIn_eq, replicateRecord_eq, h0, hkey, hins, hfind]

theorem replicateTentativeRecord_error_of_not_blocked {e : ReplicateError}
    (hblocked : ¬ Blocked t r committed)
    (h : (replicateTentativeRecord t now r committed).2 = .error e) :
    (replicateTentativeRecord t now r committed).1 = t := by
  rcases replicateTentativeRecord_cases t now r committed with hc | ⟨hlt, hconflict, -⟩
  · rw [hc] at h ⊢
    exact replicateRecordIn_error h
  · obtain ⟨h0, hkey, b, hb, hrev, hdiffer⟩ := replicateRecord_conflict_iff.mp hconflict
    have hfree : ¬ ∃ a ∈ t, a.revision ≠ r.revision ∧ indexKey a = indexKey r := fun htaken =>
      hblocked ⟨hlt, hkey, ⟨b, hb, hrev, hdiffer⟩, htaken⟩
    obtain ⟨u, hu, -⟩ : ∃ u, replicateTentativeRecord t now r committed =
        (u, .ok (replicatedRow now r)) ∧ _ :=
      replicateTentativeRecord_overwrites hb hrev h0 hkey hlt hdiffer (fits_delete_iff.mpr hfree)
    rw [hu] at h
    cases h

/-- **The contract of `ReplicateTentativeRecord`** is kept by a call exactly when the record is not
blocked. -/
theorem tentativeContract_iff (t : Table) (now : Time) (r : Record) (committed : ℤ)
    (hpos : 1 ≤ r.revision) :
    TentativeContract t now r committed ↔ ¬ Blocked t r committed := by
  constructor
  · intro hcontract hblocked
    obtain ⟨-, -, ⟨b, hb, hrev, -⟩, -⟩ := id hblocked
    have hcall : replicateTentativeRecord t now r committed =
        (t.delete r.revision, .error (.readExisting r.revision)) :=
      replicateTentativeRecord_of_blocked hpos hblocked
    have hsame : t.delete r.revision = t := by
      have := hcontract.failed (.readExisting r.revision) (by rw [hcall])
      rwa [hcall] at this
    have hmem : b ∈ t.delete r.revision := hsame.symm ▸ hb
    exact (Table.mem_delete.mp hmem).2 hrev
  · intro hblocked
    have hcopy : ∀ r', (replicateTentativeRecord t now r committed).2 = .ok r' →
        ∃ b ∈ (replicateTentativeRecord t now r committed).1,
          b.revision = r.revision ∧ recordsEqualForReplication b r := fun r' h =>
      have ⟨hmem, heq⟩ := exists_of_replicateTentativeRecord_ok h
      ⟨r', hmem, (sameRecord_of_recordsEqual heq).revision_eq, heq⟩
    exact
      { kept := fun b hb hle => subset_replicateTentativeRecord hb hle
        tentative := fun r' h _ =>
          ⟨hcopy r' h, fun b hne => mem_replicateTentativeRecord_of_ne hne⟩
        stored := fun r' h _ => hcopy r' h
        failed := fun e h => replicateTentativeRecord_error_of_not_blocked hblocked h }

/-- Key `a` at revision 1 and key `b` at revision 2, both created there. -/
def createdRows : List Record :=
  [{ revision := 1, key := [97], created := true, createRevision := 1, version := 1 },
    { revision := 2, key := [98], created := true, createRevision := 2, version := 1 }]

def twoCreated : Table :=
  ⟨createdRows, by decide, by decide⟩

/-- A tentative record of revision 2 takes the place of key `b`. -/
theorem tentativeContract_replaced :
    1 ≤ ({ revision := 2, key := [99], createRevision := 2 } : Record).revision ∧
      TentativeContract twoCreated 7 { revision := 2, key := [99], createRevision := 2 } 1 :=
  ⟨by decide, (tentativeContract_iff twoCreated 7
    { revision := 2, key := [99], createRevision := 2 } 1 (by decide)).mpr (by decide)⟩

/-- The record repeats the entry of key `a` at revision 1: the call fails, and revision 2 is
gone. -/
theorem tentativeContract_blocked :
    (replicateTentativeRecord twoCreated 7
        { revision := 2, key := [97], createRevision := 1 } 1).2 = .error (.readExisting 2) ∧
      (replicateTentativeRecord twoCreated 7
        { revision := 2, key := [97], createRevision := 1 } 1).1.rows.map Record.revision = [1] ∧
      ¬ TentativeContract twoCreated 7 { revision := 2, key := [97], createRevision := 1 } 1 := by
  refine ⟨by decide, by decide, fun h => ?_⟩
  have hsame := h.failed (.readExisting 2) (by decide)
  exact absurd hsame (by decide)

end Netsy.LocalDB.Replicate
