import Netsy.CommonAPI.KeyRange
import Netsy.CommonAPI.Range

/-! # Reads of clients

A client's request is limited to the committed revision before it is answered. The limit fails
where the limited revision is not positive, because the query then has no condition on the
revision. -/

namespace Netsy.ClientAPI.CommittedReads

open Proto LocalDB.Schema LocalDB.Find Lib.SortedList
open CommonAPI CommonAPI.Range CommonAPI.RangeQuery CommonAPI.KeyRange

/-- The limit that both handlers put on the request revision. -/
def limitRevision (committed : ℤ) (r : RangeRequest) : RangeRequest :=
  if r.revision = 0 ∨ committed < r.revision then { r with revision := committed } else r

def range (db : Table) (committed : ℤ) (r : RangeRequest) : Except RangeError RangeResponse :=
  Range.range db (limitRevision committed r) committed

def rangeStream (size : List KeyValue → ℤ) (db : ℕ → Table) (rounds : ℕ) (committed : ℤ)
    (r : RangeRequest) : List RangeResponse × Except RangeError Unit :=
  Range.rangeStream size db rounds (limitRevision committed r) committed

/-- The key-values that `Range` returns. -/
def returned (res : Except RangeError RangeResponse) : List KeyValue :=
  match res with
  | .ok resp => resp.kvs
  | .error _ => []

/-- The key-values and counts that `RangeStream` sends. -/
def sent (res : List RangeResponse × Except RangeError Unit) : List (List KeyValue × ℤ) :=
  res.1.map fun resp => (resp.kvs, resp.count)

/-- What a request returns depends only on rows up to the committed revision, and has no revision
above it. -/
def ReadsCommitted (size : List KeyValue → ℤ) (committed : ℤ) (r : RangeRequest) : Prop :=
  ∀ (db db' : ℕ → Table) (rounds : ℕ), (∀ i, AgreeUpTo committed (db i) (db' i)) →
    returned (range (db 0) committed r) = returned (range (db' 0) committed r) ∧
    sent (rangeStream size db rounds committed r) = sent (rangeStream size db' rounds committed r) ∧
    (∀ kv ∈ returned (range (db 0) committed r), kv.modRevision ≤ committed) ∧
    ∀ chunk ∈ sent (rangeStream size db rounds committed r), ∀ kv ∈ chunk.1,
      kv.modRevision ≤ committed

/-! ### Answers -/

section

variable {size : List KeyValue → ℤ} {t t' : Table} {db db' : ℕ → Table} {r : RangeRequest}
  {w : Where} {committed revision totalLimit : ℤ} {c : Cursor} {rounds i : ℕ}

theorem streamRounds_congr
    (h : ∀ i, selected (db i) w revision = selected (db' i) w revision) :
    streamRounds size w revision totalLimit committed db rounds i c =
      streamRounds size w revision totalLimit committed db' rounds i c := by
  induction rounds generalizing i c with
  | zero => rfl
  | succ rounds ih =>
    have hround : streamRound size w revision totalLimit committed (db i) (db (i + 1)) c =
        streamRound size w revision totalLimit committed (db' i) (db' (i + 1)) c := by
      have hchunk : ∀ chunkLimit afterKey, chunkRows (db i) w revision chunkLimit afterKey =
          chunkRows (db' i) w revision chunkLimit afterKey := by
        intro chunkLimit afterKey
        rw [chunkRows, chunkRows, findRecordsForRangeStream_congr (h i)]
      have hresp : ∀ kvs more,
          chunkResponse size (db (i + 1)) w revision totalLimit committed c kvs more =
            chunkResponse size (db' (i + 1)) w revision totalLimit committed c kvs more := by
        intro kvs more
        rw [chunkResponse, chunkResponse, findRecordsBy_congr (h (i + 1))]
      simp only [streamRound, hchunk, hresp]
    simp only [streamRounds, hround, ih]

/-! ### Key-values come from rows -/

theorem mem_recordsToKeyValues {rows : List Record} {kvs : List KeyValue} {kv : KeyValue}
    (h : recordsToKeyValues rows = .ok kvs) (hkv : kv ∈ kvs) : ∃ b ∈ rows, keyValueOf b = kv := by
  unfold recordsToKeyValues at h
  split_ifs at h
  cases h
  exact List.mem_map.mp hkv

/-- The records that answer a request. -/
def found (t : Table) (w : Where) (r : RangeRequest) : List Record × ℤ :=
  findRecordsBy t w r.revision r.limit (if r.sortOrder = .descend then .desc else .asc)

theorem returned_range_of_none (hv : validateRangeRequest r = .ok ())
    (hw : buildRangeQuery r.key r.rangeEnd = none) :
    returned (Range.range t r committed) = [] := by
  simp [Range.range, hv, hw, returned, bind, Except.bind]

theorem returned_range_of_some (hv : validateRangeRequest r = .ok ())
    (hw : buildRangeQuery r.key r.rangeEnd = some w) :
    returned (Range.range t r committed) =
      if r.countOnly then [] else
        match recordsToKeyValues (found t w r).1 with
        | .ok kvs => kvs
        | .error _ => [] := by
  unfold returned Range.range found
  simp only [hv, hw, bind, Except.bind]
  cases r.countOnly with
  | true => simp [pure, Except.pure]
  | false =>
    cases recordsToKeyValues (findRecordsBy t w r.revision r.limit
      (if r.sortOrder = .descend then .desc else .asc)).1 with
    | error e => simp
    | ok kvs => simp [pure, Except.pure]

theorem mem_returned_range {kv : KeyValue} (hv : validateRangeRequest r = .ok ())
    (h : kv ∈ returned (Range.range t r committed)) :
    ∃ w, buildRangeQuery r.key r.rangeEnd = some w ∧
      ∃ b ∈ (found t w r).1, keyValueOf b = kv := by
  cases hw : buildRangeQuery r.key r.rangeEnd with
  | none => simp [returned_range_of_none hv hw] at h
  | some w =>
    rw [returned_range_of_some hv hw] at h
    split_ifs at h
    · simp at h
    · cases hk : recordsToKeyValues (found t w r).1 with
      | error e => simp [hk] at h
      | ok kvs =>
        rw [hk] at h
        exact ⟨w, rfl, mem_recordsToKeyValues hk h⟩

theorem mem_chunkRows {chunkLimit : ℤ} {afterKey : Bytes} {b : Record}
    (h : b ∈ (chunkRows t w revision chunkLimit afterKey).1) : b ∈ selected t w revision := by
  unfold chunkRows at h
  dsimp only at h
  split_ifs at h
  · exact mem_findRecordsForRangeStream (List.mem_of_mem_take h)
  · exact mem_findRecordsForRangeStream h

theorem kvs_chunkResponse {resp : RangeResponse} {next : Option Cursor} {kvs : List KeyValue}
    {more : Bool}
    (h : chunkResponse size t w revision totalLimit committed c kvs more = .ok (resp, next)) :
    resp.kvs = kvs := by
  unfold chunkResponse at h
  dsimp only at h
  by_cases hdone : (!more || decide (c.count + (kvs.length : ℤ) = totalLimit)) = true
  · rw [if_pos hdone] at h
    cases h
    rfl
  · rw [if_neg hdone] at h
    cases hl : kvs.getLast? with
    | none =>
      rw [hl] at h
      cases h
    | some last =>
      rw [hl] at h
      cases h
      rfl

theorem mem_streamRound {resp : RangeResponse} {next : Option Cursor} {kv : KeyValue}
    (h : streamRound size w revision totalLimit committed t t' c = .ok (resp, next))
    (hkv : kv ∈ resp.kvs) : ∃ b ∈ selected t w revision, keyValueOf b = kv := by
  unfold streamRound at h
  dsimp only at h
  cases hk : recordsToKeyValues
    (chunkRows t w revision (min c.keys (totalLimit - c.count)) c.afterKey).1 with
  | error e =>
    rw [hk] at h
    cases h
  | ok kvs =>
    rw [hk] at h
    rw [kvs_chunkResponse h] at hkv
    obtain ⟨b, hb, rfl⟩ := mem_recordsToKeyValues hk hkv
    exact ⟨b, mem_chunkRows hb, rfl⟩

theorem mem_streamRounds {chunk : List KeyValue × ℤ} {kv : KeyValue}
    (h : chunk ∈ sent (streamRounds size w revision totalLimit committed db rounds i c))
    (hkv : kv ∈ chunk.1) : ∃ i, ∃ b ∈ selected (db i) w revision, keyValueOf b = kv := by
  induction rounds generalizing i c with
  | zero => simp [sent, streamRounds] at h
  | succ rounds ih =>
    unfold streamRounds at h
    cases hr : streamRound size w revision totalLimit committed (db i) (db (i + 1)) c with
    | error e => simp [hr, sent] at h
    | ok res =>
      obtain ⟨resp, next⟩ := res
      have hresp : kv ∈ resp.kvs → ∃ i, ∃ b ∈ selected (db i) w revision, keyValueOf b = kv :=
        fun hkv => ⟨i, mem_streamRound hr hkv⟩
      cases next with
      | none =>
        simp only [hr, sent, List.map_cons, List.map_nil, List.mem_singleton] at h
        subst h
        exact hresp hkv
      | some c' =>
        simp only [hr, sent, List.map_cons, List.mem_cons] at h
        rcases h with rfl | h
        · exact hresp hkv
        · exact ih h

theorem sent_rangeStream (hv : validateRangeRequest r = .ok ()) :
    sent (Range.rangeStream size db rounds r committed) =
      if r.sortOrder ≠ .none then [] else
        match buildRangeQuery r.key r.rangeEnd with
        | none => []
        | some w =>
          if r.countOnly then [([], (findRecordsBy (db 0) w r.revision 1 .asc).2)] else
            sent (streamRounds size w r.revision (if r.limit = 0 then 2 ^ 63 - 1 else r.limit)
              committed db rounds 0 {}) := by
  unfold Range.rangeStream
  rw [hv]
  dsimp only
  by_cases hs : r.sortOrder ≠ .none
  · rw [if_pos hs, if_pos hs]
    rfl
  · rw [if_neg hs, if_neg hs]
    cases buildRangeQuery r.key r.rangeEnd with
    | none => rfl
    | some w =>
      cases r.countOnly with
      | true => rfl
      | false => rfl

theorem mem_rangeStream {chunk : List KeyValue × ℤ} {kv : KeyValue}
    (hv : validateRangeRequest r = .ok ())
    (h : chunk ∈ sent (Range.rangeStream size db rounds r committed)) (hkv : kv ∈ chunk.1) :
    ∃ w, buildRangeQuery r.key r.rangeEnd = some w ∧
      ∃ i, ∃ b ∈ selected (db i) w r.revision, keyValueOf b = kv := by
  rw [sent_rangeStream hv] at h
  by_cases hs : r.sortOrder ≠ .none
  · rw [if_pos hs] at h
    simp at h
  · rw [if_neg hs] at h
    cases hw : buildRangeQuery r.key r.rangeEnd with
    | none =>
      rw [hw] at h
      simp at h
    | some w =>
      rw [hw] at h
      cases hco : r.countOnly with
      | true =>
        rw [hco] at h
        rw [List.mem_singleton.mp h] at hkv
        simp at hkv
      | false =>
        rw [hco] at h
        exact ⟨w, rfl, mem_streamRounds h hkv⟩

/-! ### Answers depend on what is selected -/

theorem returned_congr (hv : validateRangeRequest r = .ok ())
    (h : ∀ w, buildRangeQuery r.key r.rangeEnd = some w →
      selected t w r.revision = selected t' w r.revision) :
    returned (Range.range t r committed) = returned (Range.range t' r committed) := by
  cases hw : buildRangeQuery r.key r.rangeEnd with
  | none => rw [returned_range_of_none hv hw, returned_range_of_none hv hw]
  | some w =>
    have hfound : found t w r = found t' w r := findRecordsBy_congr (h w hw)
    rw [returned_range_of_some hv hw, returned_range_of_some hv hw, hfound]

theorem sent_congr (hv : validateRangeRequest r = .ok ())
    (h : ∀ w, buildRangeQuery r.key r.rangeEnd = some w →
      ∀ i, selected (db i) w r.revision = selected (db' i) w r.revision) :
    sent (Range.rangeStream size db rounds r committed) =
      sent (Range.rangeStream size db' rounds r committed) := by
  rw [sent_rangeStream hv, sent_rangeStream hv]
  cases hw : buildRangeQuery r.key r.rangeEnd with
  | none => rfl
  | some w => simp only [findRecordsBy_congr (h w hw 0), streamRounds_congr (h w hw)]

/-! ### The limited revision -/

theorem limitRevision_eq (committed : ℤ) (r : RangeRequest) :
    limitRevision committed r = { r with revision := (limitRevision committed r).revision } := by
  unfold limitRevision
  split_ifs
  · rfl
  · rfl

@[simp] theorem validateRangeRequest_limitRevision :
    validateRangeRequest (limitRevision committed r) = validateRangeRequest r := by
  rw [limitRevision_eq]
  rfl

@[simp] theorem key_limitRevision : (limitRevision committed r).key = r.key := by
  rw [limitRevision_eq]

@[simp] theorem rangeEnd_limitRevision : (limitRevision committed r).rangeEnd = r.rangeEnd := by
  rw [limitRevision_eq]

@[simp] theorem countOnly_limitRevision : (limitRevision committed r).countOnly = r.countOnly := by
  rw [limitRevision_eq]

@[simp] theorem sortOrder_limitRevision : (limitRevision committed r).sortOrder = r.sortOrder := by
  rw [limitRevision_eq]

theorem limitRevision_le (committed : ℤ) (r : RangeRequest) :
    (limitRevision committed r).revision ≤ committed := by
  unfold limitRevision
  split_ifs with h
  · exact le_rfl
  · omega

/-- The limit puts a condition on the revision exactly if the request has no negative revision and
something has been committed. -/
theorem limitRevision_pos_iff (hc : 0 ≤ committed) :
    0 < (limitRevision committed r).revision ↔ 0 < committed ∧ 0 ≤ r.revision := by
  unfold limitRevision
  split_ifs with h
  · change 0 < committed ↔ _
    omega
  · omega

theorem readsCommitted_of_selected (hv : validateRangeRequest r = .ok ()) (hc : 0 ≤ committed)
    (hrev : ∀ w, buildRangeQuery r.key r.rangeEnd = some w → ∀ t,
      ∀ b ∈ selected t w (limitRevision committed r).revision, b.revision ≤ committed)
    (hsel : ∀ w, buildRangeQuery r.key r.rangeEnd = some w → ∀ t t', AgreeUpTo committed t t' →
      selected t w (limitRevision committed r).revision =
        selected t' w (limitRevision committed r).revision) :
    ReadsCommitted size committed r := by
  intro db db' rounds hagree
  have hv' : validateRangeRequest (limitRevision committed r) = .ok () := by simpa using hv
  refine ⟨?_, ?_, fun kv hkv => ?_, fun chunk hchunk kv hkv => ?_⟩
  · exact returned_congr hv' fun w hw => hsel w (by simpa using hw) _ _ (hagree 0)
  · exact sent_congr hv' fun w hw i => hsel w (by simpa using hw) _ _ (hagree i)
  · obtain ⟨w, hw, b, hb, rfl⟩ := mem_returned_range hv' hkv
    rcases mem_findRecordsBy hb with hb | rfl
    · exact hrev w (by simpa using hw) _ b hb
    · exact hc
  · obtain ⟨w, hw, i, b, hb, rfl⟩ := mem_rangeStream hv' hchunk hkv
    exact hrev w (by simpa using hw) _ b hb

theorem readsCommitted_of_pos (hv : validateRangeRequest r = .ok ()) (hc : 0 ≤ committed)
    (hpos : 0 < (limitRevision committed r).revision) : ReadsCommitted size committed r := by
  have hle := limitRevision_le committed r
  refine readsCommitted_of_selected hv hc (fun w _ t b hb => ?_)
    fun w _ t t' h => selected_congr h hpos hle
  have := (mem_filtered.mp (mem_selected.mp hb).1).2.2
  omega

/-! ### Requests that are not limited -/

theorem selected_eq_nil (h : ∀ k, w.holds k = false) : selected t w revision = [] := by
  rw [List.eq_nil_iff_forall_not_mem]
  intro b hb
  have hb' := (mem_filtered.mp (mem_selected.mp hb).1).2.1
  rw [h] at hb'
  cases hb'

theorem readsCommitted_of_not_queried (hv : validateRangeRequest r = .ok ()) (hc : 0 ≤ committed)
    (hk : ¬ ∃ k, Queried r.key r.rangeEnd k) : ReadsCommitted size committed r := by
  have hnil : ∀ w, buildRangeQuery r.key r.rangeEnd = some w → ∀ t revision,
      selected t w revision = [] := by
    intro w hw t revision
    refine selected_eq_nil fun k => ?_
    by_contra hne
    exact hk ⟨k, w, hw, by simpa using hne⟩
  refine readsCommitted_of_selected hv hc (fun w hw t b hb => ?_) fun w hw t t' _ => ?_
  · rw [hnil w hw] at hb
    simp at hb
  · rw [hnil w hw, hnil w hw]

theorem readsCommitted_of_countOnly (hv : validateRangeRequest r = .ok ())
    (hco : r.countOnly = true) (hs : r.sortOrder ≠ .none) : ReadsCommitted size committed r := by
  have hv' : validateRangeRequest (limitRevision committed r) = .ok () := by simpa using hv
  have hreturned : ∀ t, returned (range t committed r) = [] := by
    intro t
    cases hw : buildRangeQuery (limitRevision committed r).key
      (limitRevision committed r).rangeEnd with
    | none => exact returned_range_of_none hv' hw
    | some w => rw [range, returned_range_of_some hv' hw, if_pos (by simpa using hco)]
  have hsent : ∀ db rounds, sent (rangeStream size db rounds committed r) = [] := by
    intro db rounds
    rw [rangeStream, sent_rangeStream hv', if_pos (by simpa using hs)]
  intro db db' rounds _
  rw [hreturned, hreturned, hsent, hsent]
  simp

/-- The table with one row. -/
def oneRow (b : Record) : Table :=
  ⟨[b], List.pairwise_singleton _ _, List.pairwise_singleton _ _⟩

theorem selected_oneRow {b : Record} (hk : w.holds b.key = true) (hd : b.deleted = false)
    (hrev : revision ≤ 0) : selected (oneRow b) w revision = [b] := by
  have hf : filtered (oneRow b) w revision = [b] := by simp [filtered, oneRow, hk, hrev]
  simp [selected, hf, latestLive, isLatest, hd, sortBy, insertBy]

theorem not_readsCommitted (hv : validateRangeRequest r = .ok ())
    (hpos : ¬ 0 < (limitRevision committed r).revision) (hk : ∃ k, Queried r.key r.rangeEnd k)
    (hco : ¬ (r.countOnly = true ∧ r.sortOrder ≠ .none)) : ¬ ReadsCommitted size committed r := by
  obtain ⟨k, w, hw, hk⟩ := hk
  intro hall
  have hv' : validateRangeRequest (limitRevision committed r) = .ok () := by simpa using hv
  have hw' : buildRangeQuery (limitRevision committed r).key (limitRevision committed r).rangeEnd =
      some w := by simpa using hw
  set b : Record := { revision := committed + 1, key := k } with hb
  have hagree : AgreeUpTo committed Table.empty (oneRow b) := by
    simp [AgreeUpTo, upTo, Table.empty, oneRow, hb]
  have hempty : selected Table.empty w (limitRevision committed r).revision = [] := rfl
  have hone : selected (oneRow b) w (limitRevision committed r).revision = [b] :=
    selected_oneRow hk rfl (not_lt.mp hpos)
  obtain ⟨hret, hsent, -, -⟩ :=
    hall (fun _ => Table.empty) (fun _ => oneRow b) 0 fun _ => hagree
  cases hcount : r.countOnly with
  | true =>
    -- the counts differ
    have hs : ¬ r.sortOrder ≠ .none := fun hs => hco ⟨hcount, hs⟩
    rw [rangeStream, rangeStream, sent_rangeStream hv', sent_rangeStream hv'] at hsent
    simp [hw, hcount, hs, count_findRecordsBy_asc, hempty, hone] at hsent
  | false =>
    -- only the second table has a key-value
    have hnone : (found Table.empty w (limitRevision committed r)).1 = [] :=
      findRecordsBy_of_nil hempty
    have hsome : ∃ x : Record, x.compactedAt = none ∧
        (found (oneRow b) w (limitRevision committed r)).1 = [x] := by
      refine ⟨_, ?_, findRecordsBy_singleton hone⟩
      split_ifs <;> rfl
    obtain ⟨x, hx, hsome⟩ := hsome
    rw [range, range, returned_range_of_some hv' hw', returned_range_of_some hv' hw', hnone,
      hsome] at hret
    simp [hcount, recordsToKeyValues, hx] at hret

/-- **A request reads only what is committed** exactly if something has been committed and its
revision is not negative, or its query takes no key, or it returns no key-values and no counts. -/
theorem reads_committed_iff (hv : validateRangeRequest r = .ok ()) (hc : 0 ≤ committed) :
    ReadsCommitted size committed r ↔
      (0 < committed ∧ 0 ≤ r.revision) ∨ (¬ ∃ k, Queried r.key r.rangeEnd k) ∨
        (r.countOnly = true ∧ r.sortOrder ≠ .none) := by
  constructor
  · intro hall
    by_contra hnot
    rw [not_or, not_or, not_not] at hnot
    obtain ⟨hpos, hk, hco⟩ := hnot
    exact not_readsCommitted hv (fun h => hpos ((limitRevision_pos_iff hc).mp h)) hk hco hall
  · rintro (hpos | hk | ⟨hco, hs⟩)
    · exact readsCommitted_of_pos hv hc ((limitRevision_pos_iff hc).mpr hpos)
    · exact readsCommitted_of_not_queried hv hc hk
    · exact readsCommitted_of_countOnly hv hco hs

end

/-- A request for the key `a` at revision 0 when revision 2 is committed. -/
theorem reads_committed_current : ReadsCommitted (fun _ => 0) 2 { key := [97] } :=
  (reads_committed_iff (by decide) (by decide)).mpr (Or.inl (by decide))

/-- A table whose second row is not committed yet. -/
def tentative : Table where
  rows := [
    { revision := 1, key := [98], created := true, createRevision := 1, version := 1 },
    { revision := 2, key := [97], created := true, createRevision := 2, version := 1 }]
  sorted := by decide
  unique := by decide

/-- A request with a negative revision returns the row that is not committed. -/
theorem negative_revision_reads_tentative :
    validateRangeRequest { key := [97], revision := -1 } = .ok () ∧
      returned (range tentative 1 { key := [97], revision := -1 }) = [⟨[97], 2, 2, [], 1, 0⟩] := by
  decide

end Netsy.ClientAPI.CommittedReads
