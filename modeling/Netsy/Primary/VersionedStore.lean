import Netsy.CommonAPI.Range
import Netsy.Lib.VersionedMap
import Netsy.Primary.InsertHistory

/-! # The records table as a versioned map

The live rows of a table are the entries of a versioned map, and an insert is an operation of that
map. A range over all keys at a revision therefore returns the map after as many successful
operations, however many inserts follow. -/

namespace Netsy.Primary.VersionedStore

open Proto Lib.Run Lib.SortedList Lib.VersionedMap
open LocalDB.Schema LocalDB.Insert LocalDB.History LocalDB.Find CommonAPI.Range CommonAPI.RangeQuery
open Primary.ParseTxn Primary.Preflight Primary.InsertHistory

/-- The value and the lease of a key. -/
abbrev Payload := Bytes × ℤ

def entryOf (r : Record) : Entry Payload :=
  ⟨(r.value, r.lease), r.createRevision, r.revision, r.version⟩

/-- The map of the live rows. -/
def storeOf (t : Table) : Store Bytes Payload :=
  ⟨t.latestRevision, fun key => (liveRevisionForKey t key).map entryOf⟩

/-- The operation that a record asks for. -/
def opOf (r : Record) : Op Bytes Payload :=
  if r.created then .create r.key (r.value, r.lease)
  else if r.deleted then .delete r.key r.prevRevision
  else .update r.key (r.value, r.lease) r.prevRevision

/-- The operation of a call. A record without a key or with a negative lease asks for none: etcd
knows no such key and no such lease. -/
def operation : Call → Option (Op Bytes Payload)
  | .txn request nodeID _ =>
    match parseTxnRequest request with
    | .ok r => if r.key ≠ [] ∧ 0 ≤ r.lease ∧ nodeID ≠ "" then some (opOf r) else none
    | .error _ => none
  | .initial nodeID _ => if nodeID ≠ "" then some (opOf (initialRecord nodeID)) else none

/-! ### An insert is an operation -/

variable {t t' t'' : Table} {now : Time} {r row : Record} {key : Bytes} {c : Call}

theorem key_opOf (r : Record) : (opOf r).key = r.key := by
  unfold opOf
  split_ifs
  · rfl
  · rfl
  · rfl

theorem live_append (h : t'.rows = t.rows ++ [row]) :
    liveRevisionForKey t' key = if row.key = key then (if row.deleted then none else some row)
      else liveRevisionForKey t key := by
  change (rowsOf t' key).getLast?.filter _ = _
  rw [rowsOf_append h]
  by_cases hk : row.key = key
  · rw [if_pos hk, if_pos hk, List.getLast?_append]
    cases hd : row.deleted with
    | true => simp [Option.filter, hd]
    | false => simp [Option.filter, hd]
  · rw [if_neg hk, if_neg hk]
    rfl

theorem write_of_ok (hs : Sound t) (hr : Requested t r)
    (h : insertRecord t now r = .ok (t', row)) :
    (opOf r).write (t.latestRevision + 1) ((liveRevisionForKey t r.key).map entryOf) =
      some (if row.deleted then none else some (entryOf row)) := by
  have hrow := (insertRecord_ok h).2.1
  have hrev : row.revision = t.latestRevision + 1 := by rw [revision_insertRecord h, hr.next]
  have hc : row.created = r.created := by rw [hrow]; rfl
  have hd : row.deleted = r.deleted := by rw [hrow]; rfl
  have hp : row.prevRevision = r.prevRevision := by rw [hrow]; rfl
  have hvalue : row.value = r.value ∧ row.lease = r.lease := by rw [hrow]; exact ⟨rfl, rfl⟩
  rcases starts_or_follows hs hr h with ⟨hl, hst⟩ | ⟨a, hl, hfo⟩
  · obtain ⟨h1, h2, h3, h4, h5⟩ := hst
    have hop : opOf r = .create r.key (r.value, r.lease) := by
      rw [opOf, if_pos (hc ▸ h1)]
    rw [hop, hl, h2]
    simp [Op.write, entryOf, hvalue, h3, h5, hrev]
  · obtain ⟨h1, h2, h3, h4, h5⟩ := hfo
    have hcf : ¬ r.created = true := by rw [← hc, h2]; simp
    rw [hl]
    cases hdel : r.deleted with
    | true =>
      have hop : opOf r = .delete r.key r.prevRevision := by
        rw [opOf, if_neg hcf, if_pos hdel]
      rw [hop, hd, hdel, ← hp, h4]
      simp [Op.write, entryOf]
    | false =>
      have hop : opOf r = .update r.key (r.value, r.lease) r.prevRevision := by
        rw [opOf, if_neg hcf, if_neg (by simp [hdel])]
      rw [hop, hd, hdel, ← hp, h4]
      rw [hd, hdel] at h5
      simp [Op.write, entryOf, hvalue, h3, h5, hrev]

theorem write_of_ne (hs : Sound t) (hr : Requested t r)
    (hne : currentModRevision t r.key ≠ r.prevRevision) :
    (opOf r).write (t.latestRevision + 1) ((liveRevisionForKey t r.key).map entryOf) = none := by
  unfold currentModRevision at hne
  unfold opOf
  cases hl : liveRevisionForKey t r.key with
  | none =>
    rcases hr.kind with ⟨hc, hd, hp⟩ | ⟨hc, hp⟩
    · rw [hl, hp] at hne
      exact absurd rfl hne
    · cases r.deleted <;> simp [hc, Op.write]
  | some a =>
    have hpos := (hs.rows a (mem_of_live hl).1).pos
    rw [hl] at hne
    rcases hr.kind with ⟨hc, hd, hp⟩ | ⟨hc, hp⟩
    · simp [hc, Op.write]
    · cases hd : r.deleted <;> simpa [hc, hd, Op.write, entryOf] using hne

theorem apply_of_ok (hs : Sound t) (hr : Requested t r) (h : insertRecord t now r = .ok (t', row)) :
    (storeOf t).apply (opOf r) = some (storeOf t') := by
  have hrows := rows_insertRecord hr h
  have hkey : row.key = r.key := by rw [(insertRecord_ok h).2.1]; rfl
  have hwrite := write_of_ok hs hr h
  have hlatest : t'.latestRevision = t.latestRevision + 1 := by
    rw [latestRevision_append hrows, revision_insertRecord h, hr.next]
  unfold Store.apply
  rw [key_opOf]
  change Option.map _ ((opOf r).write (t.latestRevision + 1)
    ((liveRevisionForKey t r.key).map entryOf)) = _
  rw [hwrite, Option.map_some]
  refine congrArg some ?_
  unfold storeOf
  rw [hlatest]
  refine congrArg _ (funext fun key => ?_)
  rw [live_append hrows, hkey]
  by_cases hk : r.key = key
  · subst hk
    rw [Function.update_self, if_pos rfl]
    cases row.deleted <;> rfl
  · rw [Function.update_of_ne (Ne.symm hk), if_neg hk]

theorem apply_of_ne (hs : Sound t) (hr : Requested t r)
    (hne : currentModRevision t r.key ≠ r.prevRevision) : (storeOf t).apply (opOf r) = none := by
  unfold Store.apply
  rw [key_opOf]
  change Option.map _ ((opOf r).write (t.latestRevision + 1)
    ((liveRevisionForKey t r.key).map entryOf)) = _
  rw [write_of_ne hs hr hne, Option.map_none]

theorem validForInsert_parsed {request : TxnRequest} {revision : ℤ} {nodeID : NodeID}
    (h : parseTxnRequest request = .ok r) (hrev : 0 < revision) :
    validForInsert { r with revision := revision, leaderId := nodeID } =
      decide (r.key ≠ [] ∧ 0 ≤ r.lease ∧ nodeID ≠ "") := by
  obtain ⟨modRevision, op, hasFailure, hrec⟩ := parseTxnRequest_ok h
  cases op with
  | put p =>
    unfold recordOf at hrec
    dsimp only at hrec
    split_ifs at hrec with h1 h2
    · cases hrec
      simp [validForInsert, hrev, Bool.and_assoc]
    · cases hrec
      simp [validForInsert, hrev, h2.1.le, Bool.and_assoc]
  | deleteRange d =>
    unfold recordOf at hrec
    dsimp only at hrec
    split_ifs at hrec with h1
    cases hrec
    simp [validForInsert, hrev, h1.1.le]
  | range _ => cases hrec
  | txn => cases hrec

theorem operation_eq (hs : Sound t) (hr : c.record t = some r) :
    operation c = if validForInsert r then some (opOf r) else none := by
  have hpos := next_pos hs
  cases c with
  | txn request nodeID now =>
    unfold Call.record at hr
    unfold operation
    cases hp : parseTxnRequest request with
    | error e => simp [hp] at hr
    | ok r' =>
      simp only [hp, Option.some.injEq] at hr
      rw [← hr, validForInsert_parsed hp hpos]
      simp only [hp, decide_eq_true_eq]
      rfl
  | initial nodeID now =>
    unfold Call.record at hr
    unfold operation
    dsimp only at hr
    split_ifs at hr
    cases hr
    have hv : validForInsert (initialRecord nodeID) = decide (nodeID ≠ "") := by
      by_cases hid : nodeID = "" <;> simp [validForInsert, initialRecord, initialRecordKey, hid]
    rw [hv]
    simp only [decide_eq_true_eq]

theorem storeOf_step (hs : Sound t) (h : step t c = some t') :
    (operation c = none ∧ t' = t) ∨
      ∃ op, operation c = some op ∧
        (((storeOf t).apply op = none ∧ t' = t) ∨
          ((storeOf t).apply op = some (storeOf t') ∧ ∃ row, t'.rows = t.rows ++ [row] ∧
            row.revision = t.latestRevision + 1)) := by
  obtain ⟨r, hr, rfl⟩ := Option.map_eq_some_iff.mp h
  have hreq := requested_record hr
  rw [operation_eq hs hr]
  cases hi : insertRecord t c.now r with
  | error e =>
    by_cases hv : validForInsert r = true
    · refine Or.inr ⟨opOf r, by rw [if_pos hv], Or.inl ⟨apply_of_ne hs hreq fun hcur => ?_, rfl⟩⟩
      have hok : ∃ res, insertRecord t c.now r = .ok res :=
        (insertRecord_ok_iff hs.ordered hreq).mpr ⟨hv, hcur⟩
      obtain ⟨res, hok⟩ := hok
      rw [hi] at hok
      cases hok
    · exact Or.inl ⟨by rw [if_neg hv], rfl⟩
  | ok res =>
    obtain ⟨t', row⟩ := res
    refine Or.inr ⟨opOf r, by rw [if_pos (insertRecord_ok hi).1],
      Or.inr ⟨apply_of_ok hs hreq hi, row, rows_insertRecord hreq hi, ?_⟩⟩
    rw [revision_insertRecord hi, hreq.next]

/-! ### Past revisions -/

/-- The table as it was at a revision. -/
def atRevision (t : Table) (revision : ℤ) : Table :=
  ⟨upTo t revision, ascending_filter t.sorted _, t.unique.filter _⟩

theorem atRevision_append {revision : ℤ} (h : t'.rows = t.rows ++ [row])
    (hrow : revision < row.revision) : atRevision t' revision = atRevision t revision := by
  have hrow' : ¬ row.revision ≤ revision := not_le.mpr hrow
  simp [atRevision, upTo, h, List.filter_append, hrow']

theorem atRevision_latest {revision : ℤ} (h : t.latestRevision ≤ revision) :
    atRevision t revision = t := by
  have hall : upTo t revision = t.rows :=
    List.filter_eq_self.mpr fun b hb => by
      have := Table.revision_le_latestRevision (show b ∈ t from hb)
      simpa using this.trans h
  unfold atRevision
  cases t
  simp [hall]

/-- The map after the first successful operations of the calls. -/
def afterFirst (n : ℕ) (calls : List Call) : Store Bytes Payload :=
  Store.empty.run ((Store.empty.successful (calls.filterMap operation)).take n)

theorem storeOf_exec {calls : List Call} (hrun : exec step Table.empty calls = some t) :
    storeOf t = Store.empty.run (calls.filterMap operation) ∧
      ∀ revision : ℤ, 0 ≤ revision → revision ≤ t.latestRevision →
        storeOf (atRevision t revision) = afterFirst revision.toNat calls := by
  induction calls using List.reverseRecOn generalizing t with
  | nil =>
    cases hrun
    refine ⟨rfl, fun revision h0 hle => ?_⟩
    have : revision = 0 := le_antisymm hle h0
    subst this
    rfl
  | append_singleton calls c ih =>
    obtain ⟨t₀, hcalls, hc⟩ := exec_append_eq_some.mp hrun
    obtain ⟨t₁, hstep, hnil⟩ := exec_cons_eq_some.mp hc
    cases hnil
    obtain ⟨ih1, ih2⟩ := ih hcalls
    have hs := sound_exec sound_empty hcalls
    unfold afterFirst at ih2 ⊢
    rw [List.filterMap_append]
    rcases storeOf_step hs hstep with
      ⟨hop, rfl⟩ | ⟨op, hop, ⟨happly, rfl⟩ | ⟨happly, row, hrows, hrev⟩⟩
    · -- the call is no operation
      simp only [List.filterMap_cons_none hop, List.filterMap_nil, List.append_nil]
      exact ⟨ih1, ih2⟩
    · -- the operation fails
      rw [List.filterMap_cons_some hop, List.filterMap_nil]
      rw [ih1] at happly
      rw [run_append_none happly, successful_append, happly]
      simp only [Option.isSome_none, Bool.false_eq_true, if_false, List.append_nil]
      exact ⟨ih1, ih2⟩
    · rw [List.filterMap_cons_some hop, List.filterMap_nil]
      have hlen := length_successful (Store.empty (κ := Bytes) (V := Payload))
        (calls.filterMap operation)
      rw [← ih1] at hlen
      have hlen' : ((Store.empty.successful (calls.filterMap operation)).length : ℤ) =
          t₀.latestRevision := by
        rw [hlen]
        exact sub_zero _
      have hlatest : t.latestRevision = t₀.latestRevision + 1 := by
        rw [latestRevision_append hrows, hrev]
      rw [ih1] at happly
      rw [run_append_some happly, successful_append, happly]
      refine ⟨rfl, fun revision h0 hle => ?_⟩
      rw [Option.isSome_some, if_pos rfl]
      by_cases hnew : revision ≤ t₀.latestRevision
      · rw [atRevision_append hrows (by omega), ih2 revision h0 hnew,
          List.take_append_of_le_length (by omega)]
      · rw [atRevision_latest (by omega), List.take_of_length_le (by simp; omega)]
        refine (run_append_some ?_).symm
        rw [run_successful, happly]

theorem atRevision_exec {calls : List Call} {revision : ℤ} (hs : Sound t)
    (hrun : exec step t calls = some t') (hle : revision ≤ t.latestRevision) :
    atRevision t' revision = atRevision t revision := by
  induction calls generalizing t with
  | nil =>
    cases hrun
    rfl
  | cons c calls ih =>
    obtain ⟨t₁, hstep, hrest⟩ := exec_cons_eq_some.mp hrun
    have hs₁ := sound_step hs hstep
    rcases storeOf_step hs hstep with ⟨-, rfl⟩ | ⟨op, -, ⟨-, rfl⟩ | ⟨-, row, hrows, hrev⟩⟩
    · exact ih hs₁ hrest hle
    · exact ih hs₁ hrest hle
    · have hlatest := latestRevision_append hrows
      rw [ih hs₁ hrest (by omega), atRevision_append hrows (by omega)]

/-! ### Ranges over all keys -/

/-- The key-values are the entries of the map, in the order of the keys. -/
def Lists (kvs : List KeyValue) (s : Store Bytes Payload) : Prop :=
  Ascending KeyValue.key kvs ∧ ∀ kv : KeyValue, kv ∈ kvs ↔
    s.entries kv.key = some ⟨(kv.value, kv.lease), kv.createRevision, kv.modRevision, kv.version⟩

theorem mem_selected_all {revision : ℤ} (hpos : 0 < revision) :
    row ∈ selected t .all revision ↔
      liveRevisionForKey (atRevision t revision) row.key = some row := by
  have hf : filtered t .all revision = upTo t revision := by
    refine List.filter_congr fun b _ => ?_
    have hneg : decide (revision ≤ 0) = false := decide_eq_false (by omega)
    simp [Where.holds, hneg]
  have hasc : Ascending Record.revision (rowsOf (atRevision t revision) row.key) :=
    ascending_filter (atRevision t revision).sorted _
  have hmem : ∀ b, b ∈ rowsOf (atRevision t revision) row.key ↔
      b ∈ upTo t revision ∧ b.key = row.key := fun b => by simp [rowsOf, atRevision]
  rw [mem_selected, hf, liveRevisionForKey_eq_some, getLast?_eq_some_iff_max hasc, isLatest_iff]
  simp only [hmem, and_true, and_imp]
  tauto

/-- The request for all keys at a revision. -/
def allKeys (revision : ℤ) (order : SortOrder) : CommonAPI.Range.RangeRequest :=
  { key := [0], rangeEnd := [0], revision := revision, sortOrder := order }

theorem range_allKeys (hs : Sound t) {revision committed : ℤ} {order : SortOrder}
    (horder : order ≠ .descend) :
    range t (allKeys revision order) committed = .ok
      { headerRevision := some committed
        kvs := (selected t .all revision).map keyValueOf
        count := (selected t .all revision).length
        more := false } := by
  have hfound : findRecordsBy t .all revision 0 .asc =
      (selected t .all revision, ((selected t .all revision).length : ℤ)) :=
    Prod.ext findRecordsBy_asc count_findRecordsBy_asc
  have hcomp : ((selected t .all revision).any fun row => row.compactedAt.isSome) = false := by
    rw [List.any_eq_false]
    intro row hrow
    have hmem := (mem_filtered.mp (mem_selected.mp hrow).1).1
    simp [(hs.rows row hmem).compacted]
  have hvalid : validateRangeRequest (allKeys revision order) = .ok () := rfl
  have hwhere : buildRangeQuery (allKeys revision order).key (allKeys revision order).rangeEnd =
      some .all := rfl
  have hasc : (if (allKeys revision order).sortOrder = .descend then Order.desc else .asc) = .asc :=
    if_neg horder
  unfold range
  simp only [hvalid, hwhere, hasc, bind, Except.bind]
  rw [show (allKeys revision order).revision = revision from rfl,
    show (allKeys revision order).limit = 0 from rfl, hfound]
  simp [allKeys, recordsToKeyValues, hcomp, pure, Except.pure]

theorem lists_selected {revision : ℤ} (hpos : 0 < revision) :
    Lists ((selected t .all revision).map keyValueOf) (storeOf (atRevision t revision)) := by
  refine ⟨List.pairwise_map.mpr ascending_selected, fun kv => ?_⟩
  rw [List.mem_map]
  change _ ↔ (liveRevisionForKey (atRevision t revision) kv.key).map entryOf = _
  constructor
  · rintro ⟨row, hrow, rfl⟩
    rw [show (keyValueOf row).key = row.key from rfl, (mem_selected_all hpos).mp hrow]
    rfl
  · intro h
    obtain ⟨row, hlive, hentry⟩ := Option.map_eq_some_iff.mp h
    have hkey : row.key = kv.key := (mem_of_live hlive).2
    refine ⟨row, (mem_selected_all hpos).mpr (hkey ▸ hlive), ?_⟩
    cases kv
    simp only [entryOf, Entry.mk.injEq, Prod.mk.injEq] at hentry
    obtain ⟨⟨h1, h2⟩, h3, h4, h5⟩ := hentry
    simp_all [keyValueOf]

/-- **The table refines the versioned map**: the range over all keys at a revision lists the map
after as many successful operations, and keeps doing so after further inserts. -/
theorem range_refines_map {calls more : List Call} {revision committed : ℤ} {order : SortOrder}
    (hrun : exec step Table.empty calls = some t) (hmore : exec step t more = some t')
    (hpos : 1 ≤ revision) (hle : revision ≤ t.latestRevision) (horder : order ≠ .descend) :
    ∃ resp, range t' (allKeys revision order) committed = .ok resp ∧
      Lists resp.kvs (afterFirst revision.toNat calls) := by
  have hs := sound_exec sound_empty hrun
  refine ⟨_, range_allKeys (sound_exec hs hmore) horder, ?_⟩
  rw [← (storeOf_exec hrun).2 revision (by omega) hle, ← atRevision_exec hs hmore hle]
  exact lists_selected (by omega)

/-- A key is deleted at revision 4; the range at revision 3 still has it. -/
theorem range_refines_map_life : ∃ t, exec step Table.empty lifeOfAKey = some t ∧
    ∃ resp, range t (allKeys 3 .ascend) 5 = .ok resp ∧
      Lists resp.kvs (afterFirst 3 lifeOfAKey) :=
  ⟨_, rfl, @range_refines_map _ _ lifeOfAKey [] 3 5 .ascend rfl rfl (by decide) (by decide +kernel)
    (by decide)⟩

end Netsy.Primary.VersionedStore
