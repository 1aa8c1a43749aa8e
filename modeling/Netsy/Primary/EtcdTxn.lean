import Netsy.CommonAPI.KeyRange
import Netsy.Primary.VersionedStore

/-! # Transactions of etcd

The requests with all their fields, what `ParseTxnRequest` sees of them, and what etcd makes of a
request with one comparison and one operation. A comparison and a deletion are about a range of
keys, and a put may keep the value or the lease that the key has. A lease is a number here: whether
it has been granted is not part of a store. -/

namespace Netsy.Primary.EtcdTxn

open Proto Lib.VersionedMap CommonAPI.KeyRange
open CommonAPI.Range (SortOrder SortTarget)
open Primary.ParseTxn (CompareTarget CompareResult)
open Primary.VersionedStore (Payload)

/-- The oneof `target_union` of a comparison. -/
inductive TargetUnion
  | version (version : ℤ)
  | createRevision (revision : ℤ)
  | modRevision (revision : ℤ)
  | value (value : Bytes)
  | lease (lease : ℤ)
deriving DecidableEq, Repr

/-- `pb.Compare`. A nil and an empty `range_end` are one value here. -/
structure Compare where
  result : CompareResult := .equal
  target : CompareTarget := .version
  key : Bytes := []
  targetUnion : Option TargetUnion := none
  rangeEnd : Bytes := []
deriving DecidableEq, Repr

structure PutRequest where
  key : Bytes := []
  value : Bytes := []
  lease : ℤ := 0
  prevKv : Bool := false
  ignoreValue : Bool := false
  ignoreLease : Bool := false
deriving DecidableEq, Repr

/-- `pb.DeleteRangeRequest`. A nil and an empty `range_end` are one value here. -/
structure DeleteRangeRequest where
  key : Bytes := []
  rangeEnd : Bytes := []
  prevKv : Bool := false
deriving DecidableEq, Repr

/-- `pb.RangeRequest`; `none` is a nil `range_end`. -/
structure RangeRequest where
  key : Bytes := []
  rangeEnd : Option Bytes := none
  limit : ℤ := 0
  revision : ℤ := 0
  sortOrder : SortOrder := .none
  sortTarget : SortTarget := .key
  serializable : Bool := false
  keysOnly : Bool := false
  countOnly : Bool := false
  minModRevision : ℤ := 0
  maxModRevision : ℤ := 0
  minCreateRevision : ℤ := 0
  maxCreateRevision : ℤ := 0
deriving DecidableEq, Repr

/-- `pb.RequestOp`. What a nested transaction holds is left out. -/
inductive RequestOp
  | range (r : RangeRequest)
  | put (r : PutRequest)
  | deleteRange (r : DeleteRangeRequest)
  | txn
  /-- The oneof is not set. -/
  | unset
deriving DecidableEq, Repr

structure TxnRequest where
  compare : List Compare := []
  success : List RequestOp := []
  failure : List RequestOp := []
deriving DecidableEq, Repr

/-! ### What `ParseTxnRequest` sees -/

def Compare.getModRevision (c : Compare) : ℤ :=
  match c.targetUnion with
  | some (.modRevision revision) => revision
  | _ => 0

def Compare.seen (c : Compare) : ParseTxn.Compare :=
  ⟨c.target, c.result, c.key, c.getModRevision⟩

def RequestOp.seen : RequestOp → ParseTxn.RequestOp
  | .range r => .range ⟨r.key, r.rangeEnd⟩
  | .put p => .put ⟨p.key, p.value, p.lease, p.prevKv⟩
  | .deleteRange d => .deleteRange ⟨d.key, d.prevKv⟩
  -- neither a put nor a deletion nor a range
  | .txn => .txn
  | .unset => .txn

def TxnRequest.seen (r : TxnRequest) : ParseTxn.TxnRequest :=
  ⟨r.compare.map Compare.seen, r.success.map RequestOp.seen, r.failure.map RequestOp.seen⟩

/-! ### What etcd makes of it -/

/-- The result that is asked for, of the comparison of what the key has with what is given. -/
def tests : CompareResult → Ordering → Bool
  | .equal, o => o = .eq
  | .greater, o => o = .gt
  | .less, o => o = .lt
  | .notEqual, o => o ≠ .eq

/-- The comparison with one key; an absent key has zeros, and no value at all. -/
def Compare.test (c : Compare) (e : Option (Entry Payload)) : Bool :=
  match c.target with
  | .version =>
    let given := match c.targetUnion with | some (.version v) => v | _ => 0
    tests c.result (Ord.compare ((e.map Entry.version).getD 0) given)
  | .create =>
    let given := match c.targetUnion with | some (.createRevision v) => v | _ => 0
    tests c.result (Ord.compare ((e.map Entry.createRevision).getD 0) given)
  | .mod => tests c.result (Ord.compare ((e.map Entry.modRevision).getD 0) c.getModRevision)
  | .lease =>
    let given := match c.targetUnion with | some (.lease v) => v | _ => 0
    tests c.result (Ord.compare ((e.map fun e => e.value.2).getD 0) given)
  | .value =>
    let given := match c.targetUnion with | some (.value v) => v | _ => []
    match e with
    | none => false
    | some e => tests c.result (Ord.compare e.value.1 given)

/-- The comparison holds of every key in the range, or of an absent key if there is none. -/
def Compare.Holds (c : Compare) (s : Store Bytes Payload) : Prop :=
  (∀ k, InInterval c.key c.rangeEnd k → ∀ e, s.entries k = some e → c.test (some e) = true) ∧
    ((∀ k, InInterval c.key c.rangeEnd k → s.entries k = none) → c.test none = true)

/-- The entry that a put writes; `none` is an error. -/
def PutRequest.write (p : PutRequest) (revision : ℤ) (old : Option (Entry Payload)) :
    Option (Entry Payload) :=
  if p.key = [] ∨ (p.ignoreValue ∧ p.value ≠ []) ∨ (p.ignoreLease ∧ p.lease ≠ 0) then none
  else
    match old with
    | none =>
      if p.ignoreValue ∨ p.ignoreLease then none
      else some ⟨(p.value, p.lease), revision, revision, 1⟩
    | some e =>
      some ⟨(if p.ignoreValue then e.value.1 else p.value,
        if p.ignoreLease then e.value.2 else p.lease), e.createRevision, revision, e.version + 1⟩

def PutRequest.apply (p : PutRequest) (s : Store Bytes Payload) : Option (Store Bytes Payload) :=
  (p.write (s.revision + 1) (s.entries p.key)).map fun e =>
    ⟨s.revision + 1, Function.update s.entries p.key (some e)⟩

open Classical in
/-- All keys of the range are deleted; the revision is taken if there is one. -/
noncomputable def DeleteRangeRequest.apply (d : DeleteRangeRequest) (s : Store Bytes Payload) :
    Option (Store Bytes Payload) :=
  if d.key = [] then none
  else
    some ⟨if ∃ k, InInterval d.key d.rangeEnd k ∧ s.entries k ≠ none then s.revision + 1
        else s.revision,
      fun k => if InInterval d.key d.rangeEnd k then none else s.entries k⟩

/-- The operations that write. -/
noncomputable def RequestOp.apply (s : Store Bytes Payload) :
    RequestOp → Option (Store Bytes Payload)
  | .put p => p.apply s
  | .deleteRange d => d.apply s
  | _ => none

open Classical in
/-- **What etcd commits** for a request of one comparison and one operation; `none` if the
comparison fails or the request is refused. -/
noncomputable def TxnRequest.commit (r : TxnRequest) (s : Store Bytes Payload) :
    Option (Store Bytes Payload) :=
  match r.compare, r.success with
  | [cmp], [op] => if cmp.key ≠ [] ∧ cmp.Holds s then op.apply s else none
  | _, _ => none

end Netsy.Primary.EtcdTxn
