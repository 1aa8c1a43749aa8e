import Netsy.CommonAPI.Range

/-! # A stream of a range is the range

While the table does not change, a stream is at a place of the selected records: those sent so far
are a first part of them, and the query of the next chunk goes on with the rest
(`filter_afterCursor`). Each chunk is the first part of the rest, so the chunks together are the
records that `Range` returns, and the stream ends after as many rounds. -/

namespace Netsy.CommonAPI.RangeStream

open Proto Lib.SortedList LocalDB.Schema LocalDB.Find CommonAPI.RangeQuery CommonAPI.Range

/-- The chunks of a stream that ended well are the response: their key-values one after the other,
and the rest in the last chunk. -/
structure Merges (sent : List RangeResponse × Except RangeError Unit) (resp : RangeResponse) :
    Prop where
  ended : sent.2 = .ok ()
  kvs : sent.1.flatMap RangeResponse.kvs = resp.kvs
  last : ∃ last, sent.1.getLast? = some last ∧ last.headerRevision = resp.headerRevision ∧
    last.count = resp.count ∧ last.more = resp.more

/-- The stream does what the call did: it ends with the same error, or its chunks are the
response. -/
def Follows (sent : List RangeResponse × Except RangeError Unit) :
    Except RangeError RangeResponse → Prop
  | .error e => sent.2 = .error e
  | .ok resp => Merges sent resp

/-- The stream has sent these records. -/
structure At (c : Cursor) (done : List Record) : Prop where
  count : c.count = done.length
  keys : 1 ≤ c.keys
  afterKey : c.afterKey = (done.getLast?.map Record.key).getD []

variable {size : List KeyValue → ℤ} {t : Table} {w : Where} {r : RangeRequest}
variable {revision totalLimit committed : ℤ} {c : Cursor} {done rest rows : List Record}

theorem one_le_observe {keys chunkBytes : ℤ} (h : 1 ≤ keys) : 1 ≤ observe keys chunkBytes := by
  unfold observe rangeStreamMaxChunkKeys
  split_ifs
  · omega
  · omega
  · exact h

theorem at_start : At {} [] := ⟨rfl, by decide, rfl⟩

theorem filter_afterCursor (hasc : Ascending Record.key (done ++ rest))
    (hkeys : ∀ b ∈ done ++ rest, b.key ≠ []) (hc : At c done) :
    (done ++ rest).filter (afterCursor .asc c.afterKey) = rest := by
  cases hlast : done.getLast? with
  | none =>
    obtain rfl := List.getLast?_eq_none_iff.mp hlast
    rw [hc.afterKey]
    exact List.filter_eq_self.mpr fun b _ => rfl
  | some a =>
    have hne : a.key ≠ [] := hkeys a (List.mem_append_left _ (List.mem_of_getLast? hlast))
    refine (List.filter_congr fun b _ => ?_).trans (filter_lt_getLast? hasc hlast)
    rw [hc.afterKey, hlast]
    simp [afterCursor, hne]

theorem chunkRows_eq (hsel : selected t w revision = done ++ rest)
    (hkeys : ∀ b ∈ t, b.key ≠ []) (hc : At c done) {chunkLimit : ℤ} (hpos : 0 < chunkLimit) :
    chunkRows t w revision chunkLimit c.afterKey =
      (rest.take chunkLimit.toNat, decide (chunkLimit < rest.length)) := by
  have hasc : Ascending Record.key (done ++ rest) := hsel ▸ ascending_selected
  have hkeys' : ∀ b ∈ done ++ rest, b.key ≠ [] := by
    intro b hb
    rw [← hsel, mem_selected, mem_filtered] at hb
    exact hkeys b hb.1.1
  have hone : (chunkLimit + 1).toNat = chunkLimit.toNat + 1 := by omega
  have hrows : findRecordsForRangeStream t w revision (chunkLimit + 1) .asc c.afterKey =
      rest.take (chunkLimit.toNat + 1) := by
    unfold findRecordsForRangeStream
    rw [hsel, filter_afterCursor hasc hkeys' hc]
    dsimp only
    rw [if_pos rfl, if_pos (by omega), hone]
  unfold chunkRows
  rw [hrows]
  by_cases hmore : chunkLimit < rest.length
  · have hlen : chunkLimit < ((rest.take (chunkLimit.toNat + 1)).length : ℤ) := by
      rw [List.length_take]
      omega
    simp only [hmore, hlen, decide_true, if_true, Prod.mk.injEq, and_true]
    rw [List.take_take, Nat.min_eq_left (by omega)]
  · have hlen : ¬ chunkLimit < ((rest.take (chunkLimit.toNat + 1)).length : ℤ) := by
      rw [List.length_take]
      omega
    simp only [hmore, hlen, decide_false, Bool.false_eq_true, if_false, Prod.mk.injEq, and_true]
    rw [List.take_of_length_le (by omega), List.take_of_length_le (by omega)]

/-! ### The response for a list of records -/

/-- What `Range` answers if it finds these records. -/
def answerOf (committed total : ℤ) (more : Bool) (rows : List Record) :
    Except RangeError RangeResponse :=
  (recordsToKeyValues rows).map fun kvs =>
    { headerRevision := some committed, kvs := kvs, count := total, more := more }

variable {total : ℤ} {more : Bool} {rows' : List Record} {kvs : List KeyValue}

theorem recordsToKeyValues_ok (h : recordsToKeyValues rows = .ok kvs) :
    kvs = rows.map keyValueOf := by
  unfold recordsToKeyValues at h
  split_ifs at h
  exact (Except.ok.inj h).symm

theorem recordsToKeyValues_error {e : RangeError} (h : recordsToKeyValues rows = .error e) :
    recordsToKeyValues (rows ++ rows') = .error e := by
  unfold recordsToKeyValues at h ⊢
  split_ifs at h with hany
  rw [List.any_append, hany, Bool.true_or, if_pos rfl]
  exact h

theorem recordsToKeyValues_append (h : recordsToKeyValues rows = .ok kvs) :
    recordsToKeyValues (rows ++ rows') = (recordsToKeyValues rows').map (kvs ++ ·) := by
  rw [recordsToKeyValues_ok h]
  unfold recordsToKeyValues at h ⊢
  split_ifs at h with hany
  rw [List.any_append, eq_false_of_ne_true hany, Bool.false_or]
  split_ifs
  · rfl
  · rw [List.map_append]
    rfl

theorem Follows.cons {sent : List RangeResponse × Except RangeError Unit}
    (h : Follows sent (answerOf committed total more rows'))
    (hrows : recordsToKeyValues rows = .ok kvs) :
    Follows ({ kvs := kvs } :: sent.1, sent.2)
      (answerOf committed total more (rows ++ rows')) := by
  unfold answerOf at h ⊢
  rw [recordsToKeyValues_append hrows]
  cases hrest : recordsToKeyValues rows' with
  | error e =>
    rw [hrest] at h
    exact h
  | ok kvs' =>
    rw [hrest] at h
    obtain ⟨hended, hkvs, last, hlast, hsame⟩ := h
    refine ⟨hended, ?_, last, ?_, hsame⟩
    · rw [List.flatMap_cons, hkvs]
    · rw [List.getLast?_cons, hlast]
      rfl

/-! ### A round -/

theorem streamRound_eq {chunk : List Record}
    (h : chunkRows t w revision (min c.keys (totalLimit - c.count)) c.afterKey = (chunk, more)) :
    streamRound size w revision totalLimit committed t t c =
      (recordsToKeyValues chunk).bind fun kvs =>
        chunkResponse size t w revision totalLimit committed c kvs more := by
  unfold streamRound
  rw [h]
  rfl

theorem chunkResponse_limit (h : c.count + kvs.length = totalLimit) :
    chunkResponse size t w revision totalLimit committed c kvs true =
      .ok ({ headerRevision := some committed, kvs := kvs,
             count := (selected t w revision).length, more := true }, none) := by
  simp [chunkResponse, h, count_findRecordsBy_asc]

theorem chunkResponse_end :
    chunkResponse size t w revision totalLimit committed c kvs false =
      .ok ({ headerRevision := some committed, kvs := kvs, count := c.count + kvs.length,
             more := false }, none) := by
  simp [chunkResponse]

theorem chunkResponse_next {last : KeyValue} (h : c.count + kvs.length ≠ totalLimit)
    (hlast : kvs.getLast? = some last) :
    chunkResponse size t w revision totalLimit committed c kvs true =
      .ok ({ kvs := kvs },
        some ⟨observe c.keys (size kvs), c.count + kvs.length, last.key⟩) := by
  simp [chunkResponse, h, hlast]

theorem At.next {chunk : List Record} {last : KeyValue} (hc : At c done)
    (hlast : (chunk.map keyValueOf).getLast? = some last) :
    At ⟨observe c.keys (size (chunk.map keyValueOf)), c.count + (chunk.map keyValueOf).length,
      last.key⟩ (done ++ chunk) := by
  refine ⟨?_, one_le_observe hc.keys, ?_⟩
  · rw [hc.count, List.length_map, List.length_append]
    push_cast
    rfl
  · rw [List.getLast?_map] at hlast
    obtain ⟨b, hb, rfl⟩ := Option.map_eq_some_iff.mp hlast
    rw [List.getLast?_append, hb]
    rfl

theorem follows_last (h : recordsToKeyValues rows = .ok kvs) :
    Follows ([{ headerRevision := some committed, kvs := kvs, count := total, more := more }],
      .ok ()) (answerOf committed total more rows) := by
  unfold answerOf
  rw [h]
  exact ⟨rfl, List.flatMap_singleton _ _, _, rfl, rfl, rfl, rfl⟩

/-! ### The loop -/

section

variable {fuel i : ℕ} {resp : RangeResponse}

theorem streamRounds_of_error {e : RangeError}
    (h : streamRound size w revision totalLimit committed t t c = .error e) :
    streamRounds size w revision totalLimit committed (fun _ => t) (fuel + 1) i c =
      ([], .error e) := by
  rw [streamRounds, h]

theorem streamRounds_of_last
    (h : streamRound size w revision totalLimit committed t t c = .ok (resp, none)) :
    streamRounds size w revision totalLimit committed (fun _ => t) (fuel + 1) i c =
      ([resp], .ok ()) := by
  rw [streamRounds, h]

theorem streamRounds_of_next {c' : Cursor}
    (h : streamRound size w revision totalLimit committed t t c = .ok (resp, some c')) :
    streamRounds size w revision totalLimit committed (fun _ => t) (fuel + 1) i c =
      (resp :: (streamRounds size w revision totalLimit committed (fun _ => t) fuel (i + 1) c').1,
        (streamRounds size w revision totalLimit committed (fun _ => t) fuel (i + 1) c').2) := by
  rw [streamRounds, h]

/-- **The loop** answers for the records that are left, as far as the limit goes. The induction is
on the rounds: a chunk that is not the last one has a record. -/
theorem streamRounds_follows (hkeys : ∀ b ∈ t, b.key ≠ [])
    (hsel : selected t w revision = done ++ rest) (hc : At c done)
    (hlimit : (done.length : ℤ) < totalLimit) (hfuel : rest.length < fuel) :
    Follows (streamRounds size w revision totalLimit committed (fun _ => t) fuel i c)
      (answerOf committed (selected t w revision).length
        (decide (totalLimit < (selected t w revision).length))
        (rest.take (totalLimit - done.length).toNat)) := by
  induction fuel generalizing i c done rest with
  | zero => omega
  | succ fuel ih =>
    have hlen : (selected t w revision).length = done.length + rest.length := by
      rw [hsel, List.length_append]
    have hcount := hc.count
    have hkeys1 := hc.keys
    obtain ⟨k, hk⟩ : ∃ k : ℕ, min c.keys (totalLimit - c.count) = k + 1 :=
      ⟨(min c.keys (totalLimit - c.count) - 1).toNat, by omega⟩
    have hround : streamRound size w revision totalLimit committed t t c =
        (recordsToKeyValues (rest.take (k + 1))).bind fun kvs =>
          chunkResponse size t w revision totalLimit committed c kvs
            (decide ((k : ℤ) + 1 < rest.length)) := by
      refine streamRound_eq ?_
      rw [chunkRows_eq hsel hkeys hc (by omega), hk]
      rfl
    -- the records that are left, up to the limit, begin with the chunk
    have hsplit : rest.take (totalLimit - done.length).toNat = rest.take (k + 1) ++
        (rest.drop (k + 1)).take ((totalLimit - done.length).toNat - (k + 1)) := by
      rw [← List.take_add]
      congr 1
      omega
    cases hkvs : recordsToKeyValues (rest.take (k + 1)) with
    | error e =>
      rw [hkvs] at hround
      rw [streamRounds_of_error hround, hsplit, answerOf, recordsToKeyValues_error hkvs]
      rfl
    | ok kvs =>
      rw [hkvs, Except.bind] at hround
      obtain rfl := recordsToKeyValues_ok hkvs
      have hkvlen : ((rest.take (k + 1)).map keyValueOf).length = min (k + 1) rest.length := by
        rw [List.length_map, List.length_take]
      by_cases hmore : (k : ℤ) + 1 < rest.length
      · rw [decide_eq_true hmore] at hround
        by_cases hfull : c.count + (((rest.take (k + 1)).map keyValueOf).length : ℤ) = totalLimit
        · -- the limit is reached
          have htotal : totalLimit < ((selected t w revision).length : ℤ) := by omega
          have htake : (totalLimit - done.length).toNat = k + 1 := by omega
          rw [chunkResponse_limit hfull] at hround
          rw [streamRounds_of_last hround, decide_eq_true htotal, htake]
          exact follows_last hkvs
        · -- the stream goes on after the last record of the chunk
          have hne : ((rest.take (k + 1)).map keyValueOf) ≠ [] := by
            rw [← List.length_pos_iff]
            omega
          obtain ⟨last, hlast⟩ := Option.isSome_iff_exists.mp (List.getLast?_isSome.mpr hne)
          rw [chunkResponse_next hfull hlast] at hround
          rw [streamRounds_of_next hround, hsplit]
          refine Follows.cons ?_ hkvs
          have hdone : ((done ++ rest.take (k + 1)).length : ℤ) = done.length + (k + 1) := by
            rw [List.length_append, List.length_take]
            omega
          have htake : (totalLimit - done.length).toNat - (k + 1) =
              (totalLimit - ((done ++ rest.take (k + 1)).length : ℤ)).toNat := by omega
          rw [htake]
          refine ih ?_ (hc.next hlast) (by omega) ?_
          · rw [hsel, List.append_assoc, List.take_append_drop]
          · rw [List.length_drop]
            omega
      · -- the records are exhausted
        have htotal : c.count + (((rest.take (k + 1)).map keyValueOf).length : ℤ) =
            ((selected t w revision).length : ℤ) := by omega
        have hless : ¬ totalLimit < ((selected t w revision).length : ℤ) := by omega
        have htake : rest.take (totalLimit - done.length).toNat = rest.take (k + 1) := by
          rw [List.take_of_length_le (by omega), List.take_of_length_le (by omega)]
        rw [decide_eq_false hmore, chunkResponse_end, htotal] at hround
        rw [streamRounds_of_last hround, decide_eq_false hless, htake]
        exact follows_last hkvs

end

/-! ### The stream -/

/-- The limit of a stream, as of a query: a limit of 0 is none. -/
def streamLimit (limit : ℤ) : ℤ := if limit = 0 then 2 ^ 63 - 1 else limit

theorem rows_findRecordsBy_asc {limit : ℤ} (h : 0 ≤ limit)
    (hsize : ((selected t w revision).length : ℤ) < 2 ^ 63) :
    (findRecordsBy t w revision limit .asc).1 =
      (selected t w revision).take (streamLimit limit).toNat := by
  unfold streamLimit
  split_ifs with hzero
  · rw [hzero, findRecordsBy_asc, List.take_of_length_le (by omega)]
  · exact findRecordsBy_asc_of_pos (by omega)

theorem more_iff {limit : ℤ} (h : 0 ≤ limit)
    (hsize : ((selected t w revision).length : ℤ) < 2 ^ 63) :
    ((findRecordsBy t w revision limit .asc).1.length : ℤ) < (selected t w revision).length ↔
      streamLimit limit < (selected t w revision).length := by
  rw [rows_findRecordsBy_asc h hsize, List.length_take]
  unfold streamLimit
  split_ifs <;> omega

theorem range_eq (hv : validateRangeRequest r = .ok ())
    (hw : buildRangeQuery r.key r.rangeEnd = some w) (hsort : r.sortOrder = .none) :
    range t r committed =
      if r.countOnly then
        .ok { headerRevision := some committed, count := (selected t w r.revision).length,
              more := decide (((findRecordsBy t w r.revision r.limit .asc).1.length : ℤ) <
                (selected t w r.revision).length) }
      else
        answerOf committed (selected t w r.revision).length
          (decide (((findRecordsBy t w r.revision r.limit .asc).1.length : ℤ) <
            (selected t w r.revision).length))
          (findRecordsBy t w r.revision r.limit .asc).1 := by
  have horder : (if r.sortOrder = .descend then Order.desc else .asc) = .asc := by
    rw [hsort]
    rfl
  unfold range
  simp only [hv, hw, horder, bind, Except.bind, count_findRecordsBy_asc]
  cases r.countOnly with
  | true => rfl
  | false =>
    unfold answerOf
    cases recordsToKeyValues (findRecordsBy t w r.revision r.limit .asc).1 <;> rfl

theorem limit_nonneg (hv : validateRangeRequest r = .ok ()) : 0 ≤ r.limit := by
  by_contra hneg
  unfold validateRangeRequest at hv
  dsimp only at hv
  rw [if_pos (not_le.mp hneg)] at hv
  cases hv

/-- **A stream of a range is the range.** After enough rounds it ends as the call ends: with the
same error, or with chunks that are the response. -/
theorem rangeStream_follows_range (committed : ℤ) (hsort : r.sortOrder = .none)
    (hkeys : ∀ b ∈ t, b.key ≠ []) (hsize : (t.rows.length : ℤ) < 2 ^ 63) :
    ∃ enough, ∀ rounds, enough ≤ rounds →
      Follows (rangeStream size (fun _ => t) rounds r committed) (range t r committed) := by
  cases hv : validateRangeRequest r with
  | error e =>
    refine ⟨0, fun rounds _ => ?_⟩
    simp [rangeStream, range, hv, Follows, bind, Except.bind]
  | ok u =>
    cases u
    cases hw : buildRangeQuery r.key r.rangeEnd with
    | none =>
      refine ⟨0, fun rounds _ => ?_⟩
      simp [rangeStream, range, hv, hw, hsort, Follows, bind, Except.bind]
    | some w =>
      have hlimit := limit_nonneg hv
      have hlen : ((selected t w r.revision).length : ℤ) < 2 ^ 63 :=
        lt_of_le_of_lt (by exact_mod_cast length_selected_le) hsize
      have hmore := more_iff hlimit hlen
      refine ⟨(selected t w r.revision).length + 1, fun rounds hrounds => ?_⟩
      rw [range_eq hv hw hsort, decide_eq_decide.mpr hmore]
      unfold rangeStream
      simp only [hv, hw, hsort, ne_eq, not_true_eq_false, if_false]
      cases hco : r.countOnly with
      | true =>
        have hcut : (0 < r.limit ∧ r.limit < ((selected t w r.revision).length : ℤ)) ↔
            streamLimit r.limit < ((selected t w r.revision).length : ℤ) := by
          unfold streamLimit
          split_ifs <;> omega
        simp only [if_true, count_findRecordsBy_asc, decide_eq_decide.mpr hcut]
        exact ⟨rfl, rfl, _, rfl, rfl, rfl, rfl⟩
      | false =>
        simp only [Bool.false_eq_true, if_false]
        have hpos : 0 < streamLimit r.limit := by
          unfold streamLimit
          split_ifs <;> omega
        rw [rows_findRecordsBy_asc hlimit hlen]
        have hrun : Follows (streamRounds size w r.revision (streamLimit r.limit) committed
            (fun _ => t) rounds 0 {}) _ :=
          streamRounds_follows hkeys (List.nil_append (selected t w r.revision)).symm at_start hpos
            hrounds
        rwa [List.length_nil, Int.natCast_zero, sub_zero] at hrun

/-- A table with two keys. -/
def twoRows : List Record :=
  [{ revision := 1, key := [97], created := true, createRevision := 1, version := 1 },
    { revision := 2, key := [98], created := true, createRevision := 2, version := 1 }]

def twoKeys : Table where
  rows := twoRows
  sorted := by decide
  unique := by decide

/-- The first key of two: there are more. -/
theorem rangeStream_follows_range_first :
    ∃ enough, ∀ rounds, enough ≤ rounds →
      Follows (rangeStream (fun _ => 0) (fun _ => twoKeys) rounds
        { key := [0], rangeEnd := [0], limit := 1 } 2)
        (.ok { headerRevision := some 2, kvs := [⟨[97], 1, 1, [], 1, 0⟩], count := 2
               more := true })
    :=
  rangeStream_follows_range 2 rfl (by decide) (by decide)

end Netsy.CommonAPI.RangeStream
