import Netsy.Primary.VersionedStore

/-! # The answer to a transaction

`ApplyTxn` on the Primary when every step of the commit succeeds: `LeaderTxn` parses the request,
inserts the record, and on a failed comparison of revisions runs the failure range; two more errors
of the insert also say that the comparison failed. -/

namespace Netsy.ClientAPI.TxnAnswer

open Proto Lib.Run Lib.SortedList LocalDB.Schema LocalDB.Insert
open LocalDB.History LocalDB.Find CommonAPI.RangeQuery
open CommonAPI.Range (range RangeError RangeResponse KeyValue keyValueOf recordsToKeyValues)
open Primary.ParseTxn Primary.InsertHistory Primary.VersionedStore

inductive ResponseOp
  | put (revision : ℤ)
  | deleteRange (revision deleted : ℤ)
  | range (resp : RangeResponse)
deriving DecidableEq, Repr

structure TxnResponse where
  headerRevision : ℤ := 0
  succeeded : Bool := false
  responses : List ResponseOp := []
deriving DecidableEq, Repr

def buildTxnResponse (record : Option Record) (rangeResp : Option RangeResponse) : TxnResponse :=
  match rangeResp, record with
  | some resp, _ =>
    { headerRevision := resp.headerRevision.getD 0, succeeded := false, responses := [.range resp] }
  | none, some r =>
    { headerRevision := r.revision, succeeded := true
      responses := [if r.deleted then .deleteRange r.revision 1 else .put r.revision] }
  | none, none => {}

inductive TxnError
  | parse (e : ParseError)
  | insert (e : InsertError)
  | range (e : RangeError)
deriving DecidableEq, Repr

/-- `LeaderTxn` when the commit succeeds: the table afterwards, and the answer. -/
def leaderTxn (nodeID : NodeID) (committed : ℤ) (t : Table) (now : Time) (request : TxnRequest) :
    Table × Except TxnError TxnResponse :=
  match parseTxnRequest request with
  | .error e => (t, .error (.parse e))
  | .ok r =>
    match insertRecord t now { r with revision := t.latestRevision + 1, leaderId := nodeID } with
    | .ok (t', inserted) => (t', .ok (buildTxnResponse (some inserted) none))
    | .error e =>
      if e = .compareRevisionFailed ∧ request.failure.length = 1 then
        match range t { key := r.key } committed with
        | .ok rangeResp => (t, .ok (buildTxnResponse none (some rangeResp)))
        | .error err => (t, .error (.range err))
      else (t, .error (.insert e))

/-- The codes that `ApplyTxn` answers with. -/
inductive Status
  | invalidArgument | internal
deriving DecidableEq, Repr

def applyTxn (nodeID : NodeID) (committed : ℤ) (t : Table) (now : Time) (request : TxnRequest) :
    Table × Except Status TxnResponse :=
  match leaderTxn nodeID committed t now request with
  | (t', .ok resp) => (t', .ok resp)
  | (t', .error (.insert .compareRevisionFailed)) => (t', .ok { headerRevision := committed })
  | (t', .error (.insert .createKeyExists)) => (t', .ok { headerRevision := committed })
  | (t', .error (.insert .deleteKeyNotFound)) => (t', .ok { headerRevision := committed })
  | (t', .error (.parse _)) => (t', .error .invalidArgument)
  | (t', .error _) => (t', .error .internal)

/-- **What an answer is to be.** `Succeeded` says whether the key is at the compared revision. If it
is, the record is written and the answer has the new revision; if not, nothing is written, and a
failure operation is answered with the key's current row. -/
structure Answers (t : Table) (request : TxnRequest) (cmp : Compare) (deleted : Bool) (t' : Table)
    (resp : TxnResponse) : Prop where
  succeeded : resp.succeeded = true ↔ currentModRevision t cmp.key = cmp.modRevision
  written : currentModRevision t cmp.key = cmp.modRevision →
    ∃ row, t'.rows = t.rows ++ [row] ∧ row.key = cmp.key ∧ row.deleted = deleted ∧
      row.revision = t.latestRevision + 1 ∧
      resp.responses = [if deleted then .deleteRange row.revision 1 else .put row.revision]
  unchanged : currentModRevision t cmp.key ≠ cmp.modRevision → t' = t
  ranged : currentModRevision t cmp.key ≠ cmp.modRevision → request.failure ≠ [] →
    ∃ rangeResp, resp.responses = [.range rangeResp] ∧
      rangeResp.kvs = (liveRevisionForKey t cmp.key).toList.map keyValueOf

variable {t t' : Table} {request : TxnRequest} {r : Record} {nodeID : NodeID} {now : Time}
  {committed : ℤ} {calls : List Call}

/-! ### The request -/

theorem parseTxnRequest_spec (h : parseTxnRequest request = .ok r) :
    ∃ cmp, request.compare = [cmp] ∧ r.key = cmp.key ∧ r.prevRevision = cmp.modRevision ∧
      request.failure.length ≤ 1 ∧ (r.created = false → request.failure ≠ []) := by
  obtain ⟨cmp, op, hparsed⟩ := exists_parsed h
  have h1 := hparsed.checked
  have h2 := hparsed.makes
  refine ⟨cmp, hparsed.compare, ?_⟩
  cases op with
  | put p =>
    simp only [checkSuccess] at h1
    split_ifs at h1 with h3 h4
    simp only [recordOf] at h2
    split_ifs at h2 with h5 h6
    · cases h2
      exact ⟨(not_not.mp h4).symm, h5.symm, hparsed.failure, fun hc => nomatch hc⟩
    · cases h2
      exact ⟨(not_not.mp h4).symm, rfl, hparsed.failure, fun _ => by simpa using h6.2⟩
  | deleteRange d =>
    simp only [checkSuccess] at h1
    split_ifs at h1 with h3 h4
    simp only [recordOf] at h2
    split_ifs at h2 with h5
    cases h2
    exact ⟨(not_not.mp h4).symm, rfl, hparsed.failure, fun _ => by simpa using h5.2⟩
  | range _ => cases h2
  | txn => cases h2

/-! ### The failure range -/

theorem selected_key (t : Table) (key : Bytes) :
    selected t (.eq key) 0 = (liveRevisionForKey t key).toList := by
  have hf : ∀ b, b ∈ filtered t (.eq key) 0 ↔ b ∈ rowsOf t key := fun b => by
    simp [mem_filtered, Where.holds, rowsOf, Table.mem_def]
  have hasc : Ascending Record.revision (rowsOf t key) := ascending_filter t.sorted _
  have hmem : ∀ b, b ∈ selected t (.eq key) 0 ↔ liveRevisionForKey t key = some b := by
    intro b
    rw [mem_selected, liveRevisionForKey_eq_some, getLast?_eq_some_iff_max hasc, isLatest_iff]
    simp only [hf]
    constructor
    · rintro ⟨hb, hmax, hlive⟩
      refine ⟨⟨hb, fun a ha => hmax a ha ?_⟩, hlive⟩
      exact (mem_of_mem_rowsOf ha).2.trans (mem_of_mem_rowsOf hb).2.symm
    · rintro ⟨⟨hb, hmax⟩, hlive⟩
      exact ⟨hb, fun a ha _ => hmax a ha, hlive⟩
  cases hl : liveRevisionForKey t key with
  | none =>
    refine List.eq_nil_iff_forall_not_mem.mpr fun b hb => ?_
    have := (hmem b).mp hb
    rw [hl] at this
    cases this
  | some a =>
    refine eq_singleton_of_mem_iff ascending_selected fun b => ?_
    rw [hmem, hl, Option.some.injEq, eq_comm]

theorem range_key (hs : Sound t) {key : Bytes} (hk : key ≠ []) (committed : ℤ) :
    ∃ resp, range t { key := key } committed = .ok resp ∧
      resp.kvs = (liveRevisionForKey t key).toList.map keyValueOf := by
  have hwhere : buildRangeQuery key [] = some (.eq key) := by
    obtain ⟨k, x, rfl⟩ : ∃ k x, key = k ++ [x] := ⟨_, _, (List.dropLast_append_getLast hk).symm⟩
    simp [buildRangeQuery, rangeEndPrefixValue, rangeWhere]
  have hcomp :
      ((liveRevisionForKey t key).toList.any fun row => row.compactedAt.isSome) = false := by
    rw [List.any_eq_false]
    intro row hrow
    have hmem := (mem_of_live (Option.mem_toList.mp hrow)).1
    simp [(hs.rows row hmem).compacted]
  have hfound : findRecordsBy t (.eq key) 0 0 .asc =
      ((liveRevisionForKey t key).toList, ((liveRevisionForKey t key).toList.length : ℤ)) := by
    rw [← selected_key]
    exact Prod.ext findRecordsBy_asc count_findRecordsBy_asc
  refine ⟨{ headerRevision := some committed
            kvs := (liveRevisionForKey t key).toList.map keyValueOf
            count := (liveRevisionForKey t key).toList.length }, ?_, rfl⟩
  unfold range
  simp [CommonAPI.Range.validateRangeRequest, hwhere, recordsToKeyValues, hfound, hcomp, bind,
    Except.bind, pure, Except.pure]

/-! ### The insert -/

theorem live_eq_none_iff (hs : Sound t) {key : Bytes} :
    liveRevisionForKey t key = none ↔ currentModRevision t key = 0 := by
  unfold currentModRevision
  cases hl : liveRevisionForKey t key with
  | none => simp
  | some a =>
    have := (hs.rows a (mem_of_live hl).1).pos
    simp
    omega

/-- **Which error an insert at another revision meets.** Only the third one leads to the failure
range. -/
theorem insertRecord_of_ne (hs : Sound t) (hr : Requested t r) (hv : validForInsert r = true)
    (hne : currentModRevision t r.key ≠ r.prevRevision) :
    insertRecord t now r = .error
      (if r.created then .createKeyExists
       else if r.deleted ∧ liveRevisionForKey t r.key = none then .deleteKeyNotFound
       else .compareRevisionFailed) := by
  have hfails : ¬ ((r.created && (liveRevisionForKey t r.key).isSome) = false ∧
      (r.deleted && (liveRevisionForKey t r.key).isNone) = false ∧ compareFails t r = false) :=
    fun h => hne ((checks_iff hs.ordered hr).mp h)
  rcases hr.kind with ⟨hc, hd, hp⟩ | ⟨hc, -⟩
  · -- a creation fails on a live key
    have hlive : (liveRevisionForKey t r.key).isSome = true := by
      rw [Option.isSome_iff_ne_none, Ne, live_eq_none_iff hs, ← hp]
      exact hne
    simp [insertRecord, hv, hc, hlive]
  · cases hl : liveRevisionForKey t r.key with
    | none =>
      cases hd : r.deleted with
      | true => simp [insertRecord, hv, hc, hd, hl]
      | false =>
        have hcompare : compareFails t r = true := by simpa [hc, hd] using hfails
        simp [insertRecord, hv, hc, hd, hcompare]
    | some a =>
      have hcompare : compareFails t r = true := by simpa [hc, hl] using hfails
      simp [insertRecord, hv, hc, hl, hcompare]

theorem applyTxn_cases (hs : Sound t) (hparse : parseTxnRequest request = .ok r)
    (nodeID : NodeID) (committed : ℤ) (now : Time) :
    let record := { r with revision := t.latestRevision + 1, leaderId := nodeID }
    (validForInsert record = false ∧
        applyTxn nodeID committed t now request = (t, .error .internal)) ∨
      (validForInsert record = true ∧ currentModRevision t r.key = r.prevRevision ∧
        ∃ t' row, insertRecord t now record = .ok (t', row) ∧
          applyTxn nodeID committed t now request = (t', .ok (buildTxnResponse (some row) none))) ∨
      (validForInsert record = true ∧ currentModRevision t r.key ≠ r.prevRevision ∧
        (r.created = true ∨ r.deleted = true ∧ liveRevisionForKey t r.key = none) ∧
        applyTxn nodeID committed t now request = (t, .ok { headerRevision := committed })) ∨
      (validForInsert record = true ∧ currentModRevision t r.key ≠ r.prevRevision ∧
        r.created = false ∧ (r.deleted = true → liveRevisionForKey t r.key ≠ none) ∧
        ∃ rangeResp, rangeResp.kvs = (liveRevisionForKey t r.key).toList.map keyValueOf ∧
          applyTxn nodeID committed t now request =
            (t, .ok (buildTxnResponse none (some rangeResp)))) := by
  intro record
  obtain ⟨cmp, -, -, -, hlen, hfail⟩ := parseTxnRequest_spec hparse
  have hreq : Requested t record := requested_record (@record_txn t _ _ _ now hparse)
  have hvalid : validForInsert record = decide (r.key ≠ [] ∧ 0 ≤ r.lease ∧ nodeID ≠ "") :=
    validForInsert_parsed hparse (next_pos hs)
  have hleader : leaderTxn nodeID committed t now request =
      match insertRecord t now record with
      | .ok (t', inserted) => (t', .ok (buildTxnResponse (some inserted) none))
      | .error e =>
        if e = .compareRevisionFailed ∧ request.failure.length = 1 then
          match range t { key := r.key } committed with
          | .ok rangeResp => (t, .ok (buildTxnResponse none (some rangeResp)))
          | .error err => (t, .error (.range err))
        else (t, .error (.insert e)) := by
    unfold leaderTxn
    rw [hparse]
  cases hv : validForInsert record with
  | false =>
    have hi : insertRecord t now record = .error .invalidRecordData := by simp [insertRecord, hv]
    exact Or.inl ⟨rfl, by simp [applyTxn, hleader, hi]⟩
  | true =>
    refine Or.inr ?_
    by_cases hcur : currentModRevision t r.key = r.prevRevision
    · have hok : ∃ res, insertRecord t now record = .ok res :=
        (insertRecord_ok_iff hs.ordered hreq).mpr ⟨hv, hcur⟩
      obtain ⟨⟨t', row⟩, hok⟩ := hok
      exact Or.inl ⟨rfl, hcur, t', row, hok, by simp [applyTxn, hleader, hok]⟩
    · refine Or.inr ?_
      have hi : insertRecord t now record = .error
          (if r.created then .createKeyExists
           else if r.deleted ∧ liveRevisionForKey t r.key = none then .deleteKeyNotFound
           else .compareRevisionFailed) := insertRecord_of_ne hs hreq hv hcur
      by_cases hc : r.created = true
      · rw [if_pos hc] at hi
        exact Or.inl ⟨rfl, hcur, Or.inl hc, by simp [applyTxn, hleader, hi]⟩
      · rw [if_neg hc] at hi
        by_cases hd : r.deleted = true ∧ liveRevisionForKey t r.key = none
        · rw [if_pos hd] at hi
          exact Or.inl ⟨rfl, hcur, Or.inr hd, by simp [applyTxn, hleader, hi]⟩
        · rw [if_neg hd] at hi
          have hcf : r.created = false := by simpa using hc
          have hone : request.failure.length = 1 := by
            have := List.length_pos_iff.mpr (hfail hcf)
            omega
          have hkey : r.key ≠ [] := (of_decide_eq_true (hvalid.symm.trans hv)).1
          obtain ⟨rangeResp, hrange, hkvs⟩ := range_key hs hkey committed
          refine Or.inr ⟨rfl, hcur, hcf, fun hdel hl => hd ⟨hdel, hl⟩, rangeResp, hkvs, ?_⟩
          simp [applyTxn, hleader, hi, hone, hrange]

/-! ### The answer and the comparison -/

variable {cmp : Compare} {row : Record} {deleted : Bool}

theorem answers_of_written (hcur : currentModRevision t cmp.key = cmp.modRevision)
    (hrows : t'.rows = t.rows ++ [row]) (hkey : row.key = cmp.key) (hdel : row.deleted = deleted)
    (hrev : row.revision = t.latestRevision + 1) :
    Answers t request cmp deleted t' (buildTxnResponse (some row) none) where
  succeeded := iff_of_true rfl hcur
  written := fun _ => ⟨row, hrows, hkey, hdel, hrev, by rw [← hdel]; rfl⟩
  unchanged := fun h => absurd hcur h
  ranged := fun h => absurd hcur h

theorem answers_of_failed (hne : currentModRevision t cmp.key ≠ cmp.modRevision) (committed : ℤ) :
    Answers t request cmp deleted t { headerRevision := committed } ↔ request.failure = [] := by
  constructor
  · intro h
    by_contra hfail
    obtain ⟨rangeResp, hresp, -⟩ := h.ranged hne hfail
    cases hresp
  · intro hfail
    exact ⟨iff_of_false (by simp) hne, fun h => absurd h hne, fun _ => rfl,
      fun _ h => absurd hfail h⟩

theorem answers_of_ranged (hne : currentModRevision t cmp.key ≠ cmp.modRevision)
    {rangeResp : RangeResponse}
    (hkvs : rangeResp.kvs = (liveRevisionForKey t cmp.key).toList.map keyValueOf) :
    Answers t request cmp deleted t (buildTxnResponse none (some rangeResp)) where
  succeeded := iff_of_false (by simp [buildTxnResponse]) hne
  written := fun h => absurd h hne
  unchanged := fun _ => rfl
  ranged := fun _ _ => ⟨rangeResp, rfl, hkvs⟩

/-- **The answer matches the comparison** exactly for a valid record that does not create a live key
with a failure operation and does not delete an absent one. -/
theorem answers_compare_iff (hrun : exec step Table.empty calls = some t)
    (hparse : parseTxnRequest request = .ok r) (hcmp : request.compare = [cmp]) (nodeID : NodeID)
    (committed : ℤ) (now : Time) :
    (∃ resp, (applyTxn nodeID committed t now request).2 = .ok resp ∧
        Answers t request cmp r.deleted (applyTxn nodeID committed t now request).1 resp) ↔
      (r.key ≠ [] ∧ 0 ≤ r.lease ∧ nodeID ≠ "") ∧
        (r.created = true → request.failure ≠ [] → liveRevisionForKey t r.key = none) ∧
        (r.deleted = true → liveRevisionForKey t r.key ≠ none) := by
  have hs := sound_exec sound_empty hrun
  obtain ⟨cmp', hcmp', hkey, hprev, -, hfail⟩ := parseTxnRequest_spec hparse
  obtain rfl : cmp' = cmp := by simpa [hcmp'] using hcmp
  have hvalid := @validForInsert_parsed _ _ _ nodeID hparse (next_pos hs)
  have hreq := requested_record (@record_txn t _ _ nodeID now hparse)
  have hlive : liveRevisionForKey t r.key = none ↔ currentModRevision t r.key = 0 :=
    live_eq_none_iff hs
  rw [← decide_eq_true_iff (p := r.key ≠ [] ∧ 0 ≤ r.lease ∧ nodeID ≠ ""), ← hvalid]
  rcases applyTxn_cases hs hparse nodeID committed now with
    ⟨hv, happly⟩ | ⟨hv, hcur, t', row, hins, happly⟩ | ⟨hv, hne, herr, happly⟩ |
      ⟨hv, hne, hc, hd, rangeResp, hkvs, happly⟩
  · -- the record is not valid
    rw [happly]
    exact iff_of_false (by simp) (by simp [hv])
  · -- the record is written
    have hrow := (insertRecord_ok hins).2.1
    rw [happly]
    refine iff_of_true ⟨_, rfl, answers_of_written ?_ (rows_insertRecord hreq hins) ?_ ?_ ?_⟩
      ⟨hv, fun hc _ => ?_, fun hd => ?_⟩
    · rw [← hkey, ← hprev, hcur]
    · rw [hrow, ← hkey]
      rfl
    · rw [hrow]
      rfl
    · rw [hrow]
      rfl
    · exact hlive.mpr (hcur.trans (hreq.of_created hc).2)
    · rw [Ne, hlive, hcur]
      exact (hreq.of_deleted hd).2.ne'
  · -- the insert fails on a live key, or on an absent one
    rw [happly]
    have hfailed : Answers t request cmp' r.deleted t { headerRevision := committed } ↔
        request.failure = [] := answers_of_failed (hkey ▸ hprev ▸ hne) committed
    have hanswers : (∃ resp, Except.ok (ε := Status) (α := TxnResponse)
        { headerRevision := committed } = .ok resp ∧ Answers t request cmp' r.deleted t resp) ↔
        request.failure = [] := by
      constructor
      · rintro ⟨resp, hresp, h⟩
        cases hresp
        exact hfailed.mp h
      · exact fun h => ⟨_, rfl, hfailed.mpr h⟩
    refine hanswers.trans ?_
    rcases herr with hc | ⟨hd, hl⟩
    · have hd : r.deleted = false := (hreq.of_created hc).1
      have hsome : liveRevisionForKey t r.key ≠ none := fun h =>
        hne ((hlive.mp h).trans (hreq.of_created hc).2.symm)
      constructor
      · exact fun h => ⟨hv, fun _ hf => absurd h hf, fun h' => absurd (h'.symm.trans hd) (by simp)⟩
      · rintro ⟨-, h, -⟩
        by_contra hf
        exact hsome (h hc hf)
    · exact iff_of_false (hfail (hreq.of_deleted hd).1) fun h => h.2.2 hd hl
  · -- the failure range runs
    rw [happly]
    refine iff_of_true ⟨_, rfl, answers_of_ranged (hkey ▸ hprev ▸ hne) (hkey ▸ hkvs)⟩
      ⟨hv, fun h => absurd (h.symm.trans hc) (by simp), hd⟩

/-- The table after the creation of the key `a`. -/
def createdTable : Table where
  rows :=
    [{ revision := 1, key := [97], created := true, createRevision := 1, version := 1,
       createdAt := some 0, leaderId := "n" }]
  sorted := by decide
  unique := by decide

theorem exec_create :
    exec step Table.empty [.txn (putRequest [97] 0 0) "n" 0] = some createdTable := by
  decide +kernel

/-- An update at another revision is answered with the current key-value. -/
theorem answers_compare_update :
    ∃ resp, (applyTxn "n" 1 createdTable 0 (putRequest [97] 7 0)).2 = .ok resp ∧
      Answers createdTable (putRequest [97] 7 0) ⟨.mod, .equal, [97], 7⟩ false
        (applyTxn "n" 1 createdTable 0 (putRequest [97] 7 0)).1 resp := by
  have hparse : parseTxnRequest (putRequest [97] 7 0) =
    .ok { key := [97], prevRevision := 7 } := rfl
  exact (answers_compare_iff exec_create hparse rfl "n" 1 0).mpr (by decide +kernel)

/-- **Two failed comparisons are answered without the failure range**: the creation of a key that is
there, and the deletion of one that is not. -/
theorem failure_range_left_out :
    exec step Table.empty [.txn (putRequest [97] 0 0) "n" 0] = some createdTable ∧
      applyTxn "n" 1 createdTable 0 (putRequest [97] 0 0) =
        (createdTable, .ok { headerRevision := 1 }) ∧
      (putRequest [97] 0 0).failure ≠ [] ∧ currentModRevision createdTable [97] = 1 ∧
      applyTxn "n" 1 createdTable 0 (deleteRequest [98] 1) =
        (createdTable, .ok { headerRevision := 1 }) ∧
      (deleteRequest [98] 1).failure ≠ [] ∧ currentModRevision createdTable [98] = 0 := by
  decide +kernel

end Netsy.ClientAPI.TxnAnswer
