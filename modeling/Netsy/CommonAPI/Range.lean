import Netsy.LocalDB.Find

/-! # Range requests

`Range` answers a request with one query; `RangeStream` sends the answer in chunks, each with a
query of its own that goes on after the last key sent. The tables that successive queries see may
differ. -/

namespace Netsy.CommonAPI.Range

open Proto LocalDB.Schema LocalDB.Find CommonAPI.RangeQuery

inductive SortOrder
  | none | ascend | descend
deriving DecidableEq, Repr

inductive SortTarget
  | key | version | create | mod | value
deriving DecidableEq, Repr

/-- `pb.RangeRequest`. A nil and an empty `range_end` are one value here. -/
structure RangeRequest where
  key : Bytes
  rangeEnd : Bytes := []
  limit : ℤ := 0
  revision : ℤ := 0
  sortOrder : SortOrder := .none
  sortTarget : SortTarget := .key
  serializable : Bool := false
  keysOnly : Bool := false
  countOnly : Bool := false
  minModRevision : ℤ := 0
  maxModRevision : ℤ := 0
  minCreateRevision : ℤ := 0
  maxCreateRevision : ℤ := 0
deriving DecidableEq, Repr

structure KeyValue where
  key : Bytes
  createRevision : ℤ
  modRevision : ℤ
  value : Bytes
  version : ℤ
  lease : ℤ
deriving DecidableEq, Repr

/-- `pb.RangeResponse`; `none` is a nil header. -/
structure RangeResponse where
  headerRevision : Option ℤ := .none
  kvs : List KeyValue := []
  count : ℤ := 0
  more : Bool := false
deriving DecidableEq, Repr

inductive Code
  | invalidArgument | unimplemented | outOfRange
deriving DecidableEq, Repr

inductive RangeError
  | status (code : Code) (message : String)
  | contextDone
  | indexOutOfRange
deriving DecidableEq, Repr

/-- `rpctypes.ErrGRPCCompacted`. -/
def errCompacted : RangeError :=
  .status .outOfRange "etcdserver: mvcc: required revision has been compacted"

def validateRangeRequest (r : RangeRequest) : Except RangeError Unit :=
  let unsupported (option : String) : Except RangeError Unit :=
    .error (.status .unimplemented (option ++ " not supported"))
  if r.limit < 0 then .error (.status .invalidArgument "limit must be non-negative")
  else if r.keysOnly then unsupported "keys_only"
  else if r.maxCreateRevision ≠ 0 then unsupported "max_create_revision"
  else if r.maxModRevision ≠ 0 then unsupported "max_mod_revision"
  else if r.minModRevision ≠ 0 then unsupported "min_mod_revision"
  else if r.minCreateRevision ≠ 0 then unsupported "min_create_revision"
  else if r.serializable then unsupported "serializable"
  else if r.sortTarget ≠ .key then unsupported "sort_target"
  else .ok ()

/-- The key-value of a record. -/
def keyValueOf (row : Record) : KeyValue where
  key := row.key
  createRevision := row.createRevision
  modRevision := row.revision
  value := row.value
  version := row.version
  lease := row.lease

def recordsToKeyValues (rows : List Record) : Except RangeError (List KeyValue) :=
  if rows.any fun row => row.compactedAt.isSome then .error errCompacted
  else .ok (rows.map keyValueOf)

def range (db : Table) (r : RangeRequest) (committedRevision : ℤ) :
    Except RangeError RangeResponse := do
  validateRangeRequest r
  let some w := buildRangeQuery r.key r.rangeEnd | .error .indexOutOfRange
  let order := if r.sortOrder = .descend then Order.desc else .asc
  let (rows, totalCount) := findRecordsBy db w r.revision r.limit order
  let more := decide ((rows.length : ℤ) < totalCount)
  if r.countOnly then
    return { headerRevision := some committedRevision, count := totalCount, more := more }
  let kvs ← recordsToKeyValues rows
  return { headerRevision := some committedRevision, kvs := kvs, count := totalCount, more := more }

/-! ### Streams -/

def rangeStreamInitialChunkKeys : ℤ := 10
def rangeStreamMaxChunkKeys : ℤ := 10000
def rangeStreamTargetChunkBytes : ℤ := 1536 * 1024

/-- `Observe` of the chunk sizer: the number of keys of the next chunk. -/
def observe (keys chunkBytes : ℤ) : ℤ :=
  if chunkBytes < rangeStreamTargetChunkBytes / 2 then min (keys * 2) rangeStreamMaxChunkKeys
  else if rangeStreamTargetChunkBytes * 2 < chunkBytes then max (keys / 2) 1
  else keys

/-- Where a stream is: the keys of the next chunk, the records sent and the last key sent. -/
structure Cursor where
  keys : ℤ := rangeStreamInitialChunkKeys
  count : ℤ := 0
  afterKey : Bytes := []
deriving DecidableEq, Repr

/-- The records of the next chunk, and whether there are more: the query asks for one record more
than the chunk has. -/
def chunkRows (db : Table) (w : Where) (revision chunkLimit : ℤ) (afterKey : Bytes) :
    List Record × Bool :=
  let rows := findRecordsForRangeStream db w revision (chunkLimit + 1) .asc afterKey
  let more := decide (chunkLimit < rows.length)
  (if more then rows.take chunkLimit.toNat else rows, more)

/-- What is sent for a chunk, and where the stream goes on unless it is done. The table is the one
of the query that counts. -/
def chunkResponse (size : List KeyValue → ℤ) (db : Table) (w : Where)
    (revision totalLimit committedRevision : ℤ) (c : Cursor) (kvs : List KeyValue) (more : Bool) :
    Except RangeError (RangeResponse × Option Cursor) :=
  let count := c.count + kvs.length
  if !more || count = totalLimit then
    let total := if more then (findRecordsBy db w revision 1 .asc).2 else count
    .ok ({ headerRevision := some committedRevision, kvs := kvs, count := total, more := more },
      none)
  else
    match kvs.getLast? with
    | none => .error .indexOutOfRange
    | some last => .ok ({ kvs := kvs }, some ⟨observe c.keys (size kvs), count, last.key⟩)

/-- One round of the loop of `RangeStream`. -/
def streamRound (size : List KeyValue → ℤ) (w : Where) (revision totalLimit committedRevision : ℤ)
    (db db' : Table) (c : Cursor) : Except RangeError (RangeResponse × Option Cursor) := do
  let chunk := chunkRows db w revision (min c.keys (totalLimit - c.count)) c.afterKey
  let kvs ← recordsToKeyValues chunk.1
  chunkResponse size db' w revision totalLimit committedRevision c kvs chunk.2

/-- The loop of `RangeStream` for as many rounds as the context lasts: what is sent, and the result.
Round `i` reads the table `db i`. -/
def streamRounds (size : List KeyValue → ℤ) (w : Where) (revision totalLimit committedRevision : ℤ)
    (db : ℕ → Table) : ℕ → ℕ → Cursor → List RangeResponse × Except RangeError Unit
  | 0, _, _ => ([], .error .contextDone)
  | fuel + 1, i, c =>
    match streamRound size w revision totalLimit committedRevision (db i) (db (i + 1)) c with
    | .error e => ([], .error e)
    | .ok (resp, none) => ([resp], .ok ())
    | .ok (resp, some c') =>
      let rest := streamRounds size w revision totalLimit committedRevision db fuel (i + 1) c'
      (resp :: rest.1, rest.2)

def rangeStream (size : List KeyValue → ℤ) (db : ℕ → Table) (rounds : ℕ) (r : RangeRequest)
    (committedRevision : ℤ) : List RangeResponse × Except RangeError Unit :=
  match validateRangeRequest r with
  | .error e => ([], .error e)
  | .ok () =>
    if r.sortOrder ≠ .none then
      ([], .error (.status .unimplemented "custom sort orders not supported"))
    else
      match buildRangeQuery r.key r.rangeEnd with
      | none => ([], .error .indexOutOfRange)
      | some w =>
        if r.countOnly then
          let totalCount := (findRecordsBy (db 0) w r.revision 1 .asc).2
          let more := decide (0 < r.limit ∧ r.limit < totalCount)
          ([{ headerRevision := some committedRevision, count := totalCount, more := more }],
            .ok ())
        else
          let totalLimit := if r.limit = 0 then 2 ^ 63 - 1 else r.limit
          streamRounds size w r.revision totalLimit committedRevision db rounds 0 {}

end Netsy.CommonAPI.Range
