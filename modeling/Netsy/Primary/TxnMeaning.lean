import Netsy.Primary.EtcdTxn

/-! # The meaning of a transaction

`ParseTxnRequest` makes one record of a request, and the insert writes or deletes one key if the key
is at the compared revision. Of the fields that it does not look at, four change what etcd does: the
range ends of the comparison and of the deletion, and the two flags of a put that keep what the key
has. -/

namespace Netsy.Primary.TxnMeaning

open Proto Lib.Run Lib.LexOrder Lib.VersionedMap LocalDB.Schema LocalDB.Insert LocalDB.History
open CommonAPI.KeyRange Primary.InsertHistory Primary.VersionedStore Primary.EtcdTxn
open Primary.ParseTxn (parseTxnRequest)

/-- What becomes of each key. -/
abbrev Effect := Bytes → Option (Option Payload)

/-- The effect of the insert of the parsed record; `none` if there is no insert. -/
def insertEffect (r : TxnRequest) (nodeID : NodeID) (now : Time) (t : Table) : Option Effect :=
  match parseTxnRequest r.seen with
  | .error _ => none
  | .ok record =>
    let record := { record with revision := t.latestRevision + 1, leaderId := nodeID }
    match insertRecord t now record with
    | .error _ => none
    | .ok (t', _) => some ((storeOf t).effect (storeOf t'))

/-- The effect that etcd specifies. -/
noncomputable def commitEffect (r : TxnRequest) (s : Store Bytes Payload) : Option Effect :=
  (r.commit s).map s.effect

/-- etcd gives the compared key this new value if the key is at the compared revision, and does
nothing else. -/
def MeansSingle (r : TxnRequest) (cmp : Compare) (new : Option Payload) : Prop :=
  ∀ s : Store Bytes Payload, s.WellFormed → commitEffect r s =
    if s.modRevision cmp.key = cmp.getModRevision then some (single cmp.key new) else none

/-- etcd writes or deletes one key, on the condition that the key is at the compared revision. -/
def IsSingleKey (r : TxnRequest) : Prop :=
  ∃ cmp new, r.compare = [cmp] ∧ MeansSingle r cmp new

/-- **The request keeps its meaning**: in every store of the program in which the comparison holds
the insert does what etcd does, and that is a conditional write or deletion of one key. -/
def KeepsMeaning (r : TxnRequest) : Prop :=
  (∀ (calls : List InsertHistory.Call) (t : Table) (nodeID : NodeID) (now : Time),
    exec step Table.empty calls = some t → nodeID ≠ "" →
      (∀ cmp ∈ r.compare, cmp.Holds (storeOf t)) →
      insertEffect r nodeID now t = commitEffect r (storeOf t)) ∧
  IsSingleKey r

/-- The range is the key alone. -/
def SingleRange (key rangeEnd : Bytes) : Prop := rangeEnd = [] ∨ rangeEnd = key ++ [0]

instance (key rangeEnd : Bytes) : Decidable (SingleRange key rangeEnd) :=
  inferInstanceAs (Decidable (_ ∨ _))

def PlainOp : RequestOp → Prop
  | .put p => p.ignoreValue = false ∧ p.ignoreLease = false ∧ 0 ≤ p.lease
  | .deleteRange d => SingleRange d.key d.rangeEnd
  | _ => True

instance : ∀ op, Decidable (PlainOp op)
  | .put _ => inferInstanceAs (Decidable (_ ∧ _))
  | .deleteRange _ => inferInstanceAs (Decidable (SingleRange _ _))
  | .range _ => inferInstanceAs (Decidable True)
  | .txn => inferInstanceAs (Decidable True)
  | .unset => inferInstanceAs (Decidable True)

/-- **The comparison and the operation are about one key**, which is not empty, a put sets both its
value and its lease, and the lease is not negative. -/
def Plain (r : TxnRequest) : Prop :=
  (∀ cmp ∈ r.compare, cmp.key ≠ [] ∧ SingleRange cmp.key cmp.rangeEnd) ∧
    ∀ op ∈ r.success, PlainOp op

instance (r : TxnRequest) : Decidable (Plain r) := inferInstanceAs (Decidable (_ ∧ _))

variable {r : TxnRequest} {record : Record} {t t' : Table} {s s' : Store Bytes Payload}
variable {cmp : Compare} {p : PutRequest} {d : DeleteRangeRequest} {key rangeEnd k : Bytes}
variable {new : Option Payload} {e : Entry Payload}

/-! ### Ranges of keys -/

/-- A range that is not the key alone either leaves the key out, and then it is empty, or takes in
the next key as well. -/
theorem inInterval_of_not_singleRange (h : ¬ SingleRange key rangeEnd) :
    (∀ k, ¬ InInterval key rangeEnd k) ∨
      InInterval key rangeEnd key ∧ InInterval key rangeEnd (key ++ [0]) := by
  obtain ⟨hne, hne'⟩ := not_or.mp h
  have hnext : key ≤ key ++ [0] := by
    have := between_append_bot_iff (p := key) (k := key) (isBot_zero)
    exact (this.mpr rfl).2.le
  unfold InInterval
  simp only [if_neg hne]
  by_cases hzero : rangeEnd = [0]
  · simp only [if_pos hzero]
    exact Or.inr ⟨le_rfl, hnext⟩
  · simp only [if_neg hzero]
    by_cases hlt : key < rangeEnd
    · refine Or.inr ⟨⟨le_rfl, hlt⟩, hnext, ?_⟩
      by_contra hge
      have hend : rangeEnd < key ++ [0] := lt_of_le_of_ne (not_lt.mp hge) hne'
      exact hlt.ne' ((between_append_bot_iff isBot_zero).mp ⟨hlt.le, hend⟩)
    · exact Or.inl fun k hk => hlt (hk.1.trans_lt hk.2)

/-! ### The request -/

/-- The record of an operation whose shape has been checked. -/
inductive Makes (cmp : Compare) : RequestOp → Record → Prop
  | create {p : PutRequest} : p.key = cmp.key → cmp.getModRevision = 0 →
    Makes cmp (.put p) { key := p.key, value := p.value, lease := p.lease, created := true }
  | update {p : PutRequest} : p.key = cmp.key → 0 < cmp.getModRevision →
    Makes cmp (.put p)
      { key := p.key, value := p.value, lease := p.lease, prevRevision := cmp.getModRevision }
  | delete {d : DeleteRangeRequest} : d.key = cmp.key → 0 < cmp.getModRevision →
    Makes cmp (.deleteRange d)
      { key := d.key, deleted := true, prevRevision := cmp.getModRevision }

/-- What `ParseTxnRequest` accepts. -/
structure Accepted (r : TxnRequest) (cmp : Compare) (op : RequestOp) (record : Record) : Prop where
  compare : r.compare = [cmp]
  success : r.success = [op]
  target : cmp.target = .mod
  result : cmp.result = .equal
  makes : Makes cmp op record

variable {op : RequestOp}

theorem exists_accepted (h : parseTxnRequest r.seen = .ok record) :
    ∃ cmp op, Accepted r cmp op record := by
  obtain ⟨cmp', op', hparsed⟩ := ParseTxn.exists_parsed h
  obtain ⟨cmp, hcmp, rfl⟩ := List.map_eq_singleton_iff.mp hparsed.compare
  obtain ⟨op, hop, rfl⟩ := List.map_eq_singleton_iff.mp hparsed.success
  have h1 := hparsed.checked
  have h2 := hparsed.makes
  refine ⟨cmp, op, hcmp, hop, hparsed.target, hparsed.result, ?_⟩
  cases op with
  | put p =>
    simp only [RequestOp.seen, ParseTxn.checkSuccess] at h1
    split_ifs at h1 with _ hkey
    have hkey : p.key = cmp.key := (not_not.mp hkey).symm
    simp only [RequestOp.seen, ParseTxn.recordOf] at h2
    split_ifs at h2 with hzero hpos
    · cases h2
      exact .create hkey hzero
    · cases h2
      exact .update hkey hpos.1
  | deleteRange d =>
    simp only [RequestOp.seen, ParseTxn.checkSuccess] at h1
    split_ifs at h1 with _ hkey
    have hkey : d.key = cmp.key := (not_not.mp hkey).symm
    simp only [RequestOp.seen, ParseTxn.recordOf] at h2
    split_ifs at h2 with hpos
    cases h2
    exact .delete hkey hpos.1
  | range _ => cases h2
  | txn => cases h2
  | unset => cases h2

theorem Makes.key_eq (h : Makes cmp op record) : record.key = cmp.key := by
  cases h <;> assumption

theorem Makes.nonneg (h : Makes cmp op record) : 0 ≤ cmp.getModRevision := by
  cases h with
  | create _ hzero => exact hzero.ge
  | update _ hpos => exact hpos.le
  | delete _ hpos => exact hpos.le

theorem Accepted.commit (h : Accepted r cmp op record) :
    r.commit s = open Classical in if cmp.key ≠ [] ∧ cmp.Holds s then op.apply s else none := by
  unfold TxnRequest.commit
  rw [h.compare, h.success]

theorem Accepted.test (h : Accepted r cmp op record) {e : Option (Entry Payload)} :
    cmp.test e = true ↔ (e.map Entry.modRevision).getD 0 = cmp.getModRevision := by
  unfold Compare.test
  rw [h.target, h.result]
  simp [tests]

theorem Accepted.holds (h : Accepted r cmp op record) (hkey : cmp.key ≠ [])
    (hrange : SingleRange cmp.key cmp.rangeEnd) :
    cmp.Holds s ↔ s.modRevision cmp.key = cmp.getModRevision := by
  unfold Compare.Holds Store.modRevision
  simp only [inInterval_single hkey hrange, forall_eq, h.test]
  cases s.entries cmp.key with
  | none => simp
  | some e => simp

/-! ### Plain requests -/

theorem wellFormed_storeOf (hs : Sound t) : (storeOf t).WellFormed := by
  intro key e he
  obtain ⟨row, hrow, rfl⟩ := Option.map_eq_some_iff.mp he
  have hmem := (mem_of_live hrow).1
  exact ⟨(hs.rows row hmem).pos, Table.revision_le_latestRevision hmem⟩

theorem put_apply (hkey : p.key ≠ []) (hvalue : p.ignoreValue = false)
    (hlease : p.ignoreLease = false) :
    p.apply s = some ⟨s.revision + 1, Function.update s.entries p.key (some
      (match s.entries p.key with
      | none => ⟨(p.value, p.lease), s.revision + 1, s.revision + 1, 1⟩
      | some e => ⟨(p.value, p.lease), e.createRevision, s.revision + 1, e.version + 1⟩))⟩ := by
  unfold PutRequest.apply PutRequest.write
  cases s.entries p.key <;> simp [hkey, hvalue, hlease]

theorem delete_apply (hkey : d.key ≠ []) (hrange : SingleRange d.key d.rangeEnd)
    (hlive : s.entries d.key ≠ none) :
    d.apply s = some ⟨s.revision + 1, Function.update s.entries d.key none⟩ := by
  have hself : ∀ k, InInterval d.key d.rangeEnd k ↔ k = d.key := fun k =>
    inInterval_single hkey hrange
  unfold DeleteRangeRequest.apply
  rw [if_neg hkey, if_pos ⟨d.key, (hself _).mpr rfl, hlive⟩]
  congr 2
  funext k
  by_cases hk : k = d.key
  · rw [if_pos ((hself k).mpr hk), hk, Function.update_self]
  · rw [if_neg (mt (hself k).mp hk), Function.update_of_ne hk]

theorem Makes.proper (h : Makes cmp op record) : (opOf record).Proper := by
  cases h with
  | create _ _ => trivial
  | update _ hpos => exact hpos
  | delete _ hpos => exact hpos

theorem Makes.modRevision_eq (h : Makes cmp op record) :
    (opOf record).modRevision = cmp.getModRevision := by
  cases h with
  | create _ hzero => exact hzero.symm
  | update _ _ => rfl
  | delete _ _ => rfl

theorem commit_of_plain (h : Accepted r cmp op record) (hplain : Plain r) (hs : s.WellFormed) :
    r.commit s = s.apply (opOf record) := by
  obtain ⟨hcmp, hop⟩ := hplain
  rw [h.compare] at hcmp
  rw [h.success] at hop
  obtain ⟨hkey, hrange⟩ := hcmp cmp List.mem_cons_self
  have hop := hop op List.mem_cons_self
  rw [h.commit]
  simp only [h.holds hkey hrange, ne_eq, hkey, not_false_eq_true, true_and]
  cases h.makes with
  | @create p hpkey hzero =>
    obtain ⟨hvalue, hlease, -⟩ := hop
    rw [hzero]
    unfold Store.apply Store.modRevision
    change _ = Option.map _ (Op.write _ (.create p.key (p.value, p.lease)) (s.entries p.key))
    change (if _ then p.apply s else none) = _
    rw [put_apply (hpkey ▸ hkey) hvalue hlease, ← hpkey]
    cases he : s.entries p.key with
    | none => rfl
    | some e =>
      have hpos : e.modRevision ≠ 0 := (hs _ _ he).1.ne'
      simp [Op.write, hpos]
  | @update p hpkey hpos =>
    obtain ⟨hvalue, hlease, -⟩ := hop
    unfold Store.apply Store.modRevision
    change _ = Option.map _ (Op.write _ (.update p.key (p.value, p.lease) _) (s.entries p.key))
    change (if _ then p.apply s else none) = _
    rw [put_apply (hpkey ▸ hkey) hvalue hlease, ← hpkey]
    cases he : s.entries p.key with
    | none =>
      simp [Op.write, hpos.ne]
    | some e =>
      by_cases hm : e.modRevision = cmp.getModRevision
      · simp [Op.write, hm]
        rfl
      · simp [Op.write, hm]
  | @delete d hdkey hpos =>
    unfold Store.apply Store.modRevision
    change _ = Option.map _ (Op.write _ (.delete d.key _) (s.entries d.key))
    change (if _ then d.apply s else none) = _
    rw [← hdkey]
    cases he : s.entries d.key with
    | none => simp [Op.write, hpos.ne]
    | some e =>
      rw [delete_apply (hdkey ▸ hkey) hop (by rw [he]; simp)]
      by_cases hm : e.modRevision = cmp.getModRevision
      · simp [Op.write, hm]
        rfl
      · simp [Op.write, hm]

theorem isSingleKey_of_plain (h : Accepted r cmp op record) (hplain : Plain r) :
    IsSingleKey r := by
  refine ⟨cmp, (opOf record).new, h.compare, fun s hs => ?_⟩
  unfold commitEffect
  rw [commit_of_plain h hplain hs, map_effect_apply hs h.makes.proper, key_opOf, h.makes.key_eq,
    h.makes.modRevision_eq]

theorem insertEffect_eq (hs : Sound t) (h : parseTxnRequest r.seen = .ok record) {nodeID : NodeID}
    {now : Time} (hv : record.key ≠ [] ∧ 0 ≤ record.lease ∧ nodeID ≠ "") :
    insertEffect r nodeID now t =
      ((storeOf t).apply (opOf record)).map (storeOf t).effect := by
  have hreq : Requested t { record with revision := t.latestRevision + 1, leaderId := nodeID } :=
    requested_record (c := .txn r.seen nodeID now) (record_txn h)
  have hvalid : validForInsert
      { record with revision := t.latestRevision + 1, leaderId := nodeID } = true :=
    (validForInsert_parsed h (next_pos hs)).trans (decide_eq_true hv)
  have hop : opOf { record with revision := t.latestRevision + 1, leaderId := nodeID } =
      opOf record := rfl
  unfold insertEffect
  rw [h]
  dsimp only
  cases hi : insertRecord t now { record with revision := t.latestRevision + 1, leaderId := nodeID }
    with
  | ok res =>
    have happly := apply_of_ok hs hreq hi
    rw [hop] at happly
    rw [happly]
    rfl
  | error e =>
    have hne : currentModRevision t record.key ≠ record.prevRevision := by
      intro hcur
      have hok : ∃ res, insertRecord t now
          { record with revision := t.latestRevision + 1, leaderId := nodeID } = .ok res :=
        (insertRecord_ok_iff hs.ordered hreq).mpr ⟨hvalid, hcur⟩
      obtain ⟨res, hok⟩ := hok
      rw [hi] at hok
      cases hok
    have happly := apply_of_ne hs hreq hne
    rw [hop] at happly
    rw [happly]
    rfl

theorem Makes.lease_nonneg (h : Makes cmp op record) (hop : PlainOp op) : 0 ≤ record.lease := by
  cases h with
  | create _ _ => exact hop.2.2
  | update _ _ => exact hop.2.2
  | delete _ _ => exact le_rfl

theorem keepsMeaning_of_plain (h : parseTxnRequest r.seen = .ok record) (hplain : Plain r) :
    KeepsMeaning r := by
  obtain ⟨cmp, op, hacc⟩ := exists_accepted h
  refine ⟨fun calls t nodeID now hrun hnode _ => ?_, isSingleKey_of_plain hacc hplain⟩
  have hs := sound_exec sound_empty hrun
  have hkey : record.key ≠ [] := by
    rw [hacc.makes.key_eq]
    exact (hplain.1 cmp (by simp [hacc.compare])).1
  have hlease := hacc.makes.lease_nonneg (hplain.2 op (by simp [hacc.success]))
  rw [insertEffect_eq hs h ⟨hkey, hlease, hnode⟩]
  unfold commitEffect
  rw [commit_of_plain hacc hplain (wellFormed_storeOf hs)]

/-! ### Requests that mean one key -/

/-- A store in which the key is at this revision, and absent if the revision is `0`. -/
def holding (key : Bytes) (revision : ℤ) (x : Payload) : Store Bytes Payload :=
  if revision = 0 then .empty else Store.empty.withKey key x revision

section

variable {m : ℤ} {x : Payload}

theorem wellFormed_holding (key : Bytes) (x : Payload) (hm : 0 ≤ m) :
    (holding key m x).WellFormed := by
  unfold holding
  split_ifs with hz
  · exact wellFormed_empty
  · exact wellFormed_withKey wellFormed_empty (lt_of_le_of_ne hm (Ne.symm hz))

theorem modRevision_holding : (holding key m x).modRevision key = m := by
  unfold holding Store.modRevision
  split_ifs with hz
  · exact hz.symm
  · rw [entries_withKey]
    rfl

/-- The same with another key, which is at the next revision. -/
def withNext (s : Store Bytes Payload) (key : Bytes) (m : ℤ) : Store Bytes Payload :=
  s.withKey (key ++ [0]) ([], 0) (m + 1)

theorem modRevision_withNext : (withNext s key m).modRevision key = s.modRevision key := by
  unfold withNext Store.modRevision
  rw [entries_withKey_of_ne (by simp)]

theorem wellFormed_withNext (hs : s.WellFormed) (hm : 0 ≤ m) : (withNext s key m).WellFormed :=
  wellFormed_withKey hs (by omega)

end

theorem MeansSingle.commit (h : MeansSingle r cmp new) (hacc : Accepted r cmp op record)
    (hs : s.WellFormed) (hm : s.modRevision cmp.key = cmp.getModRevision) :
    cmp.key ≠ [] ∧ cmp.Holds s ∧ ∃ s', op.apply s = some s' ∧ s.effect s' = single cmp.key new := by
  have he := h s hs
  rw [if_pos hm] at he
  obtain ⟨s', hs', heffect⟩ := Option.map_eq_some_iff.mp he
  rw [hacc.commit] at hs'
  split_ifs at hs' with hc
  exact ⟨hc.1, hc.2, s', hs', heffect⟩

theorem MeansSingle.not_commit (h : MeansSingle r cmp new) (hacc : Accepted r cmp op record)
    (hs : s.WellFormed) (hm : s.modRevision cmp.key ≠ cmp.getModRevision) (hkey : cmp.key ≠ [])
    (hholds : cmp.Holds s) : op.apply s = none := by
  have he := h s hs
  rw [if_neg hm] at he
  have hnone := Option.map_eq_none_iff.mp he
  rwa [hacc.commit, if_pos ⟨hkey, hholds⟩] at hnone

theorem flags_of_absent (h : p.apply s = some s') (habsent : s.entries p.key = none) :
    p.ignoreValue = false ∧ p.ignoreLease = false := by
  unfold PutRequest.apply PutRequest.write at h
  rw [habsent] at h
  dsimp only at h
  split_ifs at h with _ hflags
  · cases h
  · cases h
  · simpa using hflags

theorem effect_put (hs : s.WellFormed) (h : p.apply s = some s') (he : s.entries p.key = some e) :
    s.effect s' p.key = some (some (if p.ignoreValue then e.value.1 else p.value,
      if p.ignoreLease then e.value.2 else p.lease)) := by
  obtain ⟨written, hwrite, rfl⟩ := Option.map_eq_some_iff.mp h
  unfold PutRequest.write at hwrite
  rw [he] at hwrite
  by_cases hbad : p.key = [] ∨ (p.ignoreValue ∧ p.value ≠ []) ∨ (p.ignoreLease ∧ p.lease ≠ 0)
  · rw [if_pos hbad] at hwrite
    cases hwrite
  · rw [if_neg hbad] at hwrite
    cases hwrite
    rw [effect_update]
    · simp [single]
    · intro heq
      have hle := (hs _ _ he).2
      rw [he, Option.some.injEq] at heq
      rw [← heq] at hle
      dsimp only at hle
      omega

theorem MeansSingle.compare_single (h : MeansSingle r cmp new)
    (hacc : Accepted r cmp op record) : SingleRange cmp.key cmp.rangeEnd := by
  by_contra hno
  have hm := hacc.makes.nonneg
  rcases inInterval_of_not_singleRange hno with hempty | ⟨-, hnext⟩
  · -- the range is empty: the comparison does not depend on the key
    obtain ⟨hkey, hholds, s', happly, -⟩ := h.commit hacc
      (wellFormed_holding cmp.key ([], 0) hm) modRevision_holding
    have hnone : cmp.test none = true := hholds.2 fun k hk => absurd hk (hempty k)
    have hzero : 0 = cmp.getModRevision := hacc.test.mp hnone
    cases hacc.makes with
    | @create p hpkey _ =>
      have habsent : (holding cmp.key cmp.getModRevision ([], 0)).entries p.key = none := by
        rw [← hzero]
        rfl
      obtain ⟨hvalue, hlease⟩ := flags_of_absent happly habsent
      have hother : (holding cmp.key 1 ([], 0)).modRevision cmp.key ≠ cmp.getModRevision := by
        rw [modRevision_holding, ← hzero]
        decide
      have hfails := h.not_commit hacc (wellFormed_holding _ _ (by decide)) hother hkey
        ⟨fun k hk => absurd hk (hempty k), fun _ => hnone⟩
      have hworks := put_apply (s := holding cmp.key 1 ([], 0)) (hpkey ▸ hkey) hvalue hlease
      exact absurd (hworks.symm.trans hfails) (by simp)
    | update _ hpos => exact absurd hzero hpos.ne
    | delete _ hpos => exact absurd hzero hpos.ne
  · -- another key of the range is at another revision
    obtain ⟨-, hholds, -⟩ := h.commit hacc
      (wellFormed_withNext (wellFormed_holding cmp.key ([], 0) hm) hm)
      (modRevision_withNext.trans modRevision_holding)
    have htest := hacc.test.mp (hholds.1 _ hnext _ entries_withKey)
    simp at htest

theorem MeansSingle.put_flags (h : MeansSingle r cmp new) (hacc : Accepted r cmp (.put p) record) :
    p.ignoreValue = false ∧ p.ignoreLease = false := by
  have hm := hacc.makes.nonneg
  have hpkey : p.key = cmp.key := by
    cases hacc.makes with
    | create hpkey _ => exact hpkey
    | update hpkey _ => exact hpkey
  by_cases hzero : cmp.getModRevision = 0
  · obtain ⟨-, -, s', happly, -⟩ := h.commit hacc
      (wellFormed_holding cmp.key ([], 0) hm) modRevision_holding
    refine flags_of_absent happly ?_
    rw [hzero]
    rfl
  · have hnew : ∀ x : Payload, new = some (if p.ignoreValue then x.1 else p.value,
        if p.ignoreLease then x.2 else p.lease) := by
      intro x
      have hs := wellFormed_holding cmp.key x hm
      obtain ⟨-, -, s', happly, heffect⟩ := h.commit hacc hs modRevision_holding
      have hentry : (holding cmp.key cmp.getModRevision x).entries p.key =
          some ⟨x, cmp.getModRevision, cmp.getModRevision, 1⟩ := by
        unfold holding
        rw [if_neg hzero, hpkey, entries_withKey]
      have hput := effect_put hs happly hentry
      rw [heffect, hpkey] at hput
      simpa [single] using hput
    have hsame := (hnew ([], 0)).symm.trans (hnew ([1], 1))
    cases hvalue : p.ignoreValue <;> cases hlease : p.ignoreLease <;>
      simp [hvalue, hlease] at hsame ⊢

theorem MeansSingle.delete_single (h : MeansSingle r cmp new)
    (hacc : Accepted r cmp (.deleteRange d) record) : SingleRange d.key d.rangeEnd := by
  by_contra hno
  have hm := hacc.makes.nonneg
  have hdkey : d.key = cmp.key := by
    cases hacc.makes with
    | delete hdkey _ => exact hdkey
  obtain ⟨hkey, -, s', happly, heffect⟩ := h.commit hacc
    (wellFormed_withNext (wellFormed_holding cmp.key ([], 0) hm) hm)
    (modRevision_withNext.trans modRevision_holding)
  unfold RequestOp.apply DeleteRangeRequest.apply at happly
  dsimp only at happly
  rw [if_neg (hdkey ▸ hkey), Option.some.injEq] at happly
  subst happly
  rcases inInterval_of_not_singleRange hno with hempty | ⟨-, hnext⟩
  · -- nothing is deleted
    have hself := congrFun heffect cmp.key
    simp [Store.effect, hempty, single] at hself
  · -- another key is deleted as well
    have hother := congrFun heffect (cmp.key ++ [0])
    rw [hdkey] at hnext
    simp [Store.effect, hdkey, hnext, withNext, entries_withKey, single] at hother

/-! ### A store for every revision -/

theorem modRevision_storeOf : (storeOf t).modRevision key = currentModRevision t key := by
  unfold Store.modRevision currentModRevision storeOf
  dsimp only
  rw [Option.map_map]
  rfl

theorem parse_putRequest {m : ℤ} (hm : 0 ≤ m) : parseTxnRequest (putRequest key m 0) =
    .ok { key := key, created := decide (m = 0), prevRevision := m } := by
  rcases hm.eq_or_lt with rfl | hpos
  · simp [parseTxnRequest, putRequest, ParseTxn.checkSuccess, ParseTxn.checkFailure,
      ParseTxn.recordOf, bind, Except.bind]
  · simp [parseTxnRequest, putRequest, ParseTxn.checkSuccess, ParseTxn.checkFailure,
      ParseTxn.recordOf, bind, Except.bind, hpos, hpos.ne']

theorem exists_exec_modRevision (hkey : key ≠ []) (n : ℕ) :
    ∃ calls t, exec step Table.empty calls = some t ∧ currentModRevision t key = n := by
  have hall : ∃ calls t, exec step Table.empty calls = some t ∧ currentModRevision t key = n ∧
      t.latestRevision = n := by
    induction n with
    | zero => exact ⟨[], _, rfl, rfl, rfl⟩
    | succ n ih =>
      obtain ⟨calls, t, hrun, hcur, hlatest⟩ := ih
      have hs := sound_exec sound_empty hrun
      have hparse : parseTxnRequest (putRequest key n 0) =
          .ok { key := key, created := decide ((n : ℤ) = 0), prevRevision := n } :=
        parse_putRequest (by simp)
      have hrecord := @record_txn t _ _ "n" 0 hparse
      have hreq := requested_record hrecord
      have hvalid := (@validForInsert_parsed _ _ _ "n" hparse (next_pos hs)).trans
        (decide_eq_true ⟨hkey, le_rfl, by decide⟩)
      have hinsert : ∃ res, insertRecord t 0 _ = .ok res :=
        (insertRecord_ok_iff hs.ordered hreq).mpr ⟨hvalid, hcur⟩
      obtain ⟨⟨t', row⟩, hok⟩ := hinsert
      have hrows := rows_insertRecord hreq hok
      have hrow := (insertRecord_ok hok).2.1
      have hrev : row.revision = t.latestRevision + 1 := by rw [revision_insertRecord hok]
      refine ⟨calls ++ [.txn (putRequest key n 0) "n" 0], t', exec_append_eq_some.mpr
        ⟨t, hrun, exec_cons_eq_some.mpr ⟨t', ?_, rfl⟩⟩, ?_, ?_⟩
      · exact step_eq_of_ok hrecord hok
      · unfold currentModRevision
        rw [live_append hrows, if_pos (by rw [hrow]; rfl),
          if_neg (by rw [hrow]; simp [insertedRow])]
        change row.revision = _
        rw [hrev, hlatest]
        rfl
      · rw [latestRevision_append hrows, hrev, hlatest]
        rfl
  obtain ⟨calls, t, hrun, hcur, -⟩ := hall
  exact ⟨calls, t, hrun, hcur⟩

theorem KeepsMeaning.lease_nonneg (h : KeepsMeaning r) (hmeans : MeansSingle r cmp new)
    (hparse : parseTxnRequest r.seen = .ok record) (hacc : Accepted r cmp op record) :
    0 ≤ record.lease := by
  by_contra hneg
  have hkey : cmp.key ≠ [] := (hmeans.commit hacc
    (wellFormed_holding cmp.key ([], 0) hacc.makes.nonneg) modRevision_holding).1
  obtain ⟨calls, t, hrun, hcur⟩ := exists_exec_modRevision hkey cmp.getModRevision.toNat
  rw [Int.toNat_of_nonneg hacc.makes.nonneg] at hcur
  have hs := sound_exec sound_empty hrun
  have hm : (storeOf t).modRevision cmp.key = cmp.getModRevision := modRevision_storeOf.trans hcur
  have hholds := (hmeans.commit hacc (wellFormed_storeOf hs) hm).2.1
  have hsame := h.1 calls t "n" 0 hrun (by decide) (by simpa [hacc.compare] using hholds)
  -- the insert refuses the record
  have hinvalid : validForInsert
      { record with revision := t.latestRevision + 1, leaderId := "n" } = false :=
    (validForInsert_parsed hparse (next_pos hs)).trans (decide_eq_false fun hv => hneg hv.2.1)
  have hrefused : insertEffect r "n" 0 t = none := by
    unfold insertEffect
    rw [hparse]
    simp [insertRecord, hinvalid]
  rw [hrefused, hmeans _ (wellFormed_storeOf hs), if_pos hm] at hsame
  cases hsame

theorem plain_of_keepsMeaning (hparse : parseTxnRequest r.seen = .ok record)
    (h : KeepsMeaning r) : Plain r := by
  obtain ⟨cmp, op, hacc⟩ := exists_accepted hparse
  obtain ⟨cmp', new, hcmp, hmeans⟩ := h.2
  obtain rfl : cmp = cmp' := by simpa [hacc.compare] using hcmp
  have hkey : cmp.key ≠ [] := (hmeans.commit hacc
    (wellFormed_holding cmp.key ([], 0) hacc.makes.nonneg) modRevision_holding).1
  have hlease := h.lease_nonneg hmeans hparse hacc
  have hop : PlainOp op := by
    cases op with
    | put p =>
      obtain ⟨hvalue, hkeep⟩ := hmeans.put_flags hacc
      refine ⟨hvalue, hkeep, ?_⟩
      cases hacc.makes with
      | create _ _ => exact hlease
      | update _ _ => exact hlease
    | deleteRange d => exact hmeans.delete_single hacc
    | _ => trivial
  refine ⟨?_, ?_⟩
  · rw [hacc.compare]
    simpa using ⟨hkey, hmeans.compare_single hacc⟩
  · rw [hacc.success]
    simpa using hop

/-- **An accepted transaction keeps its meaning** exactly if it is plain. -/
theorem keepsMeaning_iff (hparse : parseTxnRequest r.seen = .ok record) :
    KeepsMeaning r ↔ Plain r :=
  ⟨plain_of_keepsMeaning hparse, keepsMeaning_of_plain hparse⟩

/-! ### Requests that do not -/

def creates (key value : Bytes) : InsertHistory.Call :=
  .txn ⟨[⟨.mod, .equal, key, 0⟩], [.put ⟨key, value, 0, false⟩], []⟩ "n" 0

/-- A table with the keys `"a"` and `"b"`. -/
def twoKeys : Table :=
  (exec step Table.empty [creates [97] [1], creates [98] [2]]).getD Table.empty

theorem exec_twoKeys :
    exec step Table.empty [creates [97] [1], creates [98] [2]] = some twoKeys := by
  decide +kernel

/-- A transaction on the key `"a"`, which is at revision 1. -/
def onA (rangeEnd : Bytes) (op : RequestOp) : TxnRequest :=
  { compare := [{ target := .mod, key := [97], targetUnion := some (.modRevision 1), rangeEnd }]
    success := [op]
    failure := [.range { key := [97] }] }

/-- A plain update. -/
theorem keepsMeaning_update : KeepsMeaning (onA [] (.put { key := [97], value := [3] })) := by
  have hparse : parseTxnRequest (onA [] (.put { key := [97], value := [3] })).seen =
      .ok { key := [97], value := [3], prevRevision := 1 } := rfl
  exact (keepsMeaning_iff hparse).mpr (by decide)

/-- `"a"` and `"b"` are to be deleted. -/
def deletesBoth : TxnRequest := onA [] (.deleteRange { key := [97], rangeEnd := [99] })

/-- The lease of `"a"` is to be set and its value is to be kept. -/
def keepsValue : TxnRequest := onA [] (.put { key := [97], lease := 5, ignoreValue := true })

/-- `"a"` is to be put if both keys are at revision 1. -/
def comparesBoth : TxnRequest := onA [99] (.put { key := [97], value := [3] })

theorem entries_twoKeys : (storeOf twoKeys).entries [97] = some ⟨([1], 0), 1, 1, 1⟩ ∧
    (storeOf twoKeys).entries [98] = some ⟨([2], 0), 2, 2, 1⟩ := by
  decide +kernel

theorem holds_onA (op : RequestOp) :
    ∀ cmp ∈ (onA [] op).compare, cmp.Holds (storeOf twoKeys) := by
  intro cmp hcmp
  obtain rfl := List.mem_singleton.mp hcmp
  have hentry := entries_twoKeys.1
  refine ⟨fun k hk e he => ?_, fun hnone => ?_⟩
  · obtain rfl : k = [97] := hk
    rw [hentry] at he
    cases he
    rfl
  · rw [hnone [97] rfl] at hentry
    cases hentry

theorem commit_onA {op : RequestOp} :
    (onA [] op).commit (storeOf twoKeys) = op.apply (storeOf twoKeys) :=
  if_pos ⟨by decide, holds_onA op _ List.mem_cons_self⟩

theorem not_commit_comparesBoth : comparesBoth.commit (storeOf twoKeys) = none := by
  refine if_neg fun h => ?_
  have htest := h.2.1 [98] (by decide) _ entries_twoKeys.2
  exact absurd htest (by decide)

/-- **Three accepted requests change their meaning**: `"b"` is not deleted, the value of `"a"` is
lost, and `"a"` is put although `"b"` is at another revision. -/
theorem meaning_changed :
    exec step Table.empty [creates [97] [1], creates [98] [2]] = some twoKeys ∧
    ((parseTxnRequest deletesBoth.seen).isOk ∧
      (∀ cmp ∈ deletesBoth.compare, cmp.Holds (storeOf twoKeys)) ∧
      (insertEffect deletesBoth "n" 0 twoKeys).map (· [98]) = some none ∧
      (commitEffect deletesBoth (storeOf twoKeys)).map (· [98]) = some (some none)) ∧
    ((parseTxnRequest keepsValue.seen).isOk ∧
      (∀ cmp ∈ keepsValue.compare, cmp.Holds (storeOf twoKeys)) ∧
      (insertEffect keepsValue "n" 0 twoKeys).map (· [97]) = some (some (some ([], 5))) ∧
      (commitEffect keepsValue (storeOf twoKeys)).map (· [97]) = some (some (some ([1], 5)))) ∧
    (parseTxnRequest comparesBoth.seen).isOk ∧
      (insertEffect comparesBoth "n" 0 twoKeys).map (· [97]) = some (some (some ([3], 0))) ∧
      commitEffect comparesBoth (storeOf twoKeys) = none := by
  obtain ⟨hfirst, hsecond⟩ := entries_twoKeys
  have hin : InInterval [97] [99] [98] := by decide
  refine ⟨exec_twoKeys, ⟨rfl, holds_onA _, by decide +kernel, ?_⟩,
    ⟨rfl, holds_onA _, by decide +kernel, ?_⟩, rfl, by decide +kernel, ?_⟩
  · unfold commitEffect deletesBoth
    rw [commit_onA]
    simp [RequestOp.apply, DeleteRangeRequest.apply, Store.effect, hin, hsecond]
  · unfold commitEffect keepsValue
    rw [commit_onA]
    simp [RequestOp.apply, PutRequest.apply, PutRequest.write, Store.effect, hfirst]
  · unfold commitEffect
    rw [not_commit_comparesBoth]
    rfl

end Netsy.Primary.TxnMeaning
