import Netsy.LocalDB.Blob

/-! # The query of a range request

`buildRangeQuery` turns the key and the range end of a request into a `WHERE` clause. It tells five
cases apart; one of them, a range end that is the key with its last byte incremented, is a prefix
search with `LIKE`. -/

namespace Netsy.CommonAPI.RangeQuery

open Proto LocalDB

inductive Where
  | all
  | eq (key : Bytes)
  | ge (key : Bytes)
  | like (pattern : Bytes)
  | between (key rangeEnd : Bytes)
deriving DecidableEq, Repr

/-- The condition on the column `key`. A `LIKE` that fails takes no key: the error ends the
query. -/
def Where.holds : Where → Bytes → Bool
  | .all, _ => true
  | .eq key, k => k = key
  | .ge key, k => key ≤ k
  | .like pattern, k => Blob.like pattern k = some true
  | .between key rangeEnd, k => key ≤ k && k < rangeEnd

/-- The key with its last byte incremented, where `0xff` becomes `0x00`. An empty key panics. -/
def rangeEndPrefixValue (key : Bytes) : Option Bytes :=
  key.getLast?.map fun b => key.dropLast ++ [b + 1]

/-- The five cases of `buildRangeQuery`. -/
def rangeWhere (key rangeEnd prefixValue : Bytes) : Where :=
  if rangeEnd = [] ∨ rangeEnd = key ++ [0] then .eq key
  else if key = [0] ∧ rangeEnd = [0] then .all
  else if rangeEnd = [0] then .ge key
  else if rangeEnd = prefixValue then .like (key ++ [37])
  else .between key rangeEnd

/-- `buildRangeQuery`; `none` is its panic on an empty key. -/
def buildRangeQuery (key rangeEnd : Bytes) : Option Where :=
  (rangeEndPrefixValue key).map (rangeWhere key rangeEnd)

end Netsy.CommonAPI.RangeQuery
