import Netsy.Proto

/-! # Transaction requests

The part of etcd's transaction API that `ParseTxnRequest` reads: one comparison of a key's
modification revision, one put or delete of that key, and at most one range of it for the case that
the comparison fails. -/

namespace Netsy.Primary.ParseTxn

open Proto

inductive CompareTarget
  | version | create | mod | value | lease
deriving DecidableEq, Repr

inductive CompareResult
  | equal | greater | less | notEqual
deriving DecidableEq, Repr

structure Compare where
  target : CompareTarget
  result : CompareResult
  key : Bytes
  modRevision : ℤ
deriving DecidableEq, Repr

structure PutRequest where
  key : Bytes
  value : Bytes
  lease : ℤ
  prevKv : Bool
deriving DecidableEq, Repr

structure DeleteRangeRequest where
  key : Bytes
  prevKv : Bool
deriving DecidableEq, Repr

/-- A range request; `none` is a nil `range_end`. -/
structure RangeRequest where
  key : Bytes
  rangeEnd : Option Bytes
deriving DecidableEq, Repr

inductive RequestOp
  | put (r : PutRequest)
  | deleteRange (r : DeleteRangeRequest)
  | range (r : RangeRequest)
  | txn
deriving DecidableEq, Repr

structure TxnRequest where
  compare : List Compare
  success : List RequestOp
  failure : List RequestOp
deriving DecidableEq, Repr

inductive ParseError
  | missingFields | prevKvPut | prevKvDelete | keyMismatchSuccess | failureNotRange
  | failureRangeEnd | keyMismatchFailure | unsupported
deriving DecidableEq, Repr

def ParseError.message : ParseError → String
  | .missingFields => "invalid request - missing required fields"
  | .prevKvPut => "invalid request - prevKv not supported for success put operations"
  | .prevKvDelete => "invalid request - prevKv not supported for success delete operations"
  | .keyMismatchSuccess => "invalid request - key mismatch between compare and success operations"
  | .failureNotRange => "invalid request - failure operation must contain a range request"
  | .failureRangeEnd => "invalid request - rangeEnd not supported for failure range operations"
  | .keyMismatchFailure => "invalid request - key mismatch between compare and failure operations"
  | .unsupported =>
    "Unsupported request - netsy only implementes the Kubernetes etcd API subet"

/-- The checks on the failure operation. -/
def checkFailure (compareKey : Bytes) : List RequestOp → Except ParseError Unit
  | [] => .ok ()
  | .range r :: _ =>
    if r.rangeEnd.isSome then .error .failureRangeEnd
    else if compareKey ≠ r.key then .error .keyMismatchFailure
    else .ok ()
  | _ :: _ => .error .failureNotRange

/-- The record of a request whose shape has been checked. -/
def recordOf (modRevision : ℤ) (success : RequestOp) (hasFailure : Bool) :
    Except ParseError Record :=
  match success with
  | .put p =>
    if modRevision = 0 then
      .ok { key := p.key, value := p.value, lease := p.lease, created := true }
    else if 0 < modRevision ∧ hasFailure then
      .ok { key := p.key, value := p.value, lease := p.lease, prevRevision := modRevision }
    else .error .unsupported
  | .deleteRange d =>
    if 0 < modRevision ∧ hasFailure then
      .ok { key := d.key, deleted := true, prevRevision := modRevision }
    else .error .unsupported
  | _ => .error .unsupported

/-- The checks on the success operation. -/
def checkSuccess (compareKey : Bytes) : RequestOp → Except ParseError Unit
  | .put p =>
    if p.prevKv then .error .prevKvPut
    else if compareKey ≠ p.key then .error .keyMismatchSuccess
    else .ok ()
  | .deleteRange d =>
    if d.prevKv then .error .prevKvDelete
    else if compareKey ≠ d.key then .error .keyMismatchSuccess
    else .ok ()
  | _ => .ok ()

def parseTxnRequest (r : TxnRequest) : Except ParseError Record :=
  match r.compare, r.success with
  | [cmp], [success] =>
    if 1 < r.failure.length ∨ cmp.target ≠ .mod ∨ cmp.result ≠ .equal then .error .missingFields
    else do
      checkSuccess cmp.key success
      checkFailure cmp.key r.failure
      recordOf cmp.modRevision success (r.failure ≠ [])
  | _, _ => .error .missingFields

/-- What `ParseTxnRequest` accepts, and what it makes of it. -/
structure Parsed (r : TxnRequest) (cmp : Compare) (op : RequestOp) (record : Record) : Prop where
  compare : r.compare = [cmp]
  success : r.success = [op]
  failure : r.failure.length ≤ 1
  target : cmp.target = .mod
  result : cmp.result = .equal
  checked : checkSuccess cmp.key op = .ok ()
  makes : recordOf cmp.modRevision op (r.failure ≠ []) = .ok record

theorem exists_parsed {r : TxnRequest} {record : Record} (h : parseTxnRequest r = .ok record) :
    ∃ cmp op, Parsed r cmp op record := by
  unfold parseTxnRequest at h
  split at h
  swap
  · cases h
  rename_i cmp op hcmp hop
  split_ifs at h with hshape
  obtain ⟨hfailure, htarget, hresult⟩ : ¬ 1 < r.failure.length ∧ cmp.target = .mod ∧
      cmp.result = .equal := by
    simpa only [not_or, not_not, ne_eq] using hshape
  cases h1 : checkSuccess cmp.key op with
  | error e => simp [h1, bind, Except.bind] at h
  | ok u =>
    cases h2 : checkFailure cmp.key r.failure with
    | error e => simp [h1, h2, bind, Except.bind] at h
    | ok u =>
      simp only [h1, h2, bind, Except.bind] at h
      exact ⟨cmp, op, hcmp, hop, Nat.not_lt.mp hfailure, htarget, hresult, h1, h⟩

end Netsy.Primary.ParseTxn
