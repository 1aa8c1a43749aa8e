import Netsy.CommonAPI.RangeQuery
import Mathlib.Data.List.DropRight

/-! # The records of a watch -/

namespace Netsy.Watch.Match

open Proto CommonAPI.RangeQuery

/-- The five cases of `isInRange`; a `prefixValue` that is `none` is nil. -/
def inRange (key rangeKey rangeEnd : Bytes) (prefixValue : Option Bytes) : Bool :=
  if rangeEnd = [] ∨ rangeEnd = rangeKey ++ [0] then
    -- `bytes.TrimRight(rangeKey, "\x00")`
    key = rangeKey.rdropWhile (· = 0)
  else if rangeKey = [0] ∧ rangeEnd = [0] then true
  else if rangeEnd = [0] then rangeKey ≤ key
  else if prefixValue = some rangeEnd then rangeKey.isPrefixOf key
  else rangeKey ≤ key ∧ key < rangeEnd

/-- `isInRange`; `none` is its panic on an empty range key. -/
def isInRange (key rangeKey rangeEnd : Bytes) : Option Bool :=
  if key = [] then some (inRange key rangeKey rangeEnd none)
  else (rangeEndPrefixValue rangeKey).map fun v => inRange key rangeKey rangeEnd (some v)

structure WatchEntry where
  key : Bytes
  rangeEnd : Bytes
  startRevision : ℤ
  prevKv : Bool
  progressNotify : Bool
  filtersNoPut : Bool
  filtersNoDelete : Bool
deriving DecidableEq, Repr

/-- `isWatchMatch`; `none` is the panic of `isInRange`. -/
def isWatchMatch (w : WatchEntry) (record : Record) : Option Bool :=
  if w.filtersNoPut ∧ !record.deleted then some false
  else if w.filtersNoDelete ∧ record.deleted then some false
  else if record.revision < w.startRevision then some false
  else isInRange record.key w.key w.rangeEnd

end Netsy.Watch.Match
