import HandOfMidas.Core.Bar
import HandOfMidas.Lib.Sql
import HandOfMidas.Lib.Store

/-! The candle database (crate `midas-store`, `queries/mod.rs`): the candles themselves, and an index
    with one row for each symbol and timeframe. Each function runs its statements over one
    connection. -/

namespace Midas.CandleDb

/-- One entry of each array of a `CandleBuffer`. -/
structure Candle (F : Type) where
  timestamp : ℤ
  o : F
  h : F
  l : F
  c : F
  volume : UInt32

/-- A row of `market.candles`. -/
structure CandleRow (F : Type) where
  symbol : String
  timeframeSecs : ℤ
  candle : Candle F

def CandleRow.primaryKey {F : Type} (r : CandleRow F) : String × ℤ × ℤ :=
  (r.symbol, r.timeframeSecs, r.candle.timestamp)

/-- A row of `meta.data_ranges`. -/
structure DataRange where
  symbol : String
  timeframeSecs : ℤ
  candleCount : ℤ
  firstTs : ℤ
  lastTs : ℤ
  source : String

def DataRange.primaryKey (r : DataRange) : String × ℤ := (r.symbol, r.timeframeSecs)

structure Tables (F : Type) where
  candles : Store (CandleRow.primaryKey (F := F))
  dataRanges : Store DataRange.primaryKey

structure DataKey where
  symbol : String
  timeframe : Timeframe
  deriving DecidableEq

inductive StoreError where
  | invalidTimeframe (secs : ℕ)
  | duckDb (e : SqlError)

def I32_MAX : ℕ := 2147483647

/-- `timeframe_to_i32`. -/
def timeframeToI32 (tf : Timeframe) : Except StoreError ℤ :=
  if tf.asSecs ≤ I32_MAX then .ok tf.asSecs else .error (.invalidTimeframe tf.asSecs)

/-- `timeframe_from_secs`. -/
def timeframeFromSecs : ℕ → Option Timeframe
  | 1 => some .s1
  | 5 => some .s5
  | 15 => some .s15
  | 30 => some .s30
  | 60 => some .m1
  | 300 => some .m5
  | 900 => some .m15
  | 1800 => some .m30
  | 3600 => some .h1
  | 14400 => some .h4
  | 86400 => some .d1
  | 604800 => some .w1
  | 2592000 => some .mn1
  | _ => none

/-- `i32::try_from(len).unwrap_or(i32::MAX)`. -/
def countToI32 (len : ℕ) : ℤ := (min len I32_MAX : ℕ)

variable {F : Type}

namespace Tables

/-- The candles of a symbol and timeframe, in the order of the table. -/
def candlesOf (t : Tables F) (k : String × ℤ) : List (Candle F) :=
  (t.candles.items.filter fun r => (r.symbol, r.timeframeSecs) = k).map (·.candle)

def deleteCandles (t : Tables F) (k : String × ℤ) : Tables F :=
  { t with candles := t.candles.retain fun r => (r.symbol, r.timeframeSecs) ≠ k }

def deleteRange (t : Tables F) (k : String × ℤ) : Tables F :=
  { t with dataRanges := t.dataRanges.erase k }

/-- `INSERT`, which the primary key may refuse. -/
def insertRange (t : Tables F) (r : DataRange) : Except SqlError (Unit × Tables F) :=
  if (t.dataRanges.get? r.primaryKey).isSome then .error .constraint
  else .ok ((), { t with dataRanges := t.dataRanges.put r })

/-- What the appender has taken in is written, unless the primary key refuses a row. -/
def flush : List (CandleRow F) → Tables F → Except SqlError (Unit × Tables F)
  | [], t => .ok ((), t)
  | r :: rows, t =>
    if (t.candles.get? r.primaryKey).isSome then .error .constraint
    else flush rows { t with candles := t.candles.put r }

/-- `ORDER BY timestamp_ms ASC`. -/
def orderByTimestamp (candles : List (Candle F)) : List (Candle F) :=
  candles.mergeSort fun a b => decide (a.timestamp ≤ b.timestamp)

/-- The keys that candles have. -/
def candleKeys (t : Tables F) : List (String × ℤ) :=
  (t.candles.items.map fun r => (r.symbol, r.timeframeSecs)).dedup

/-- Count, first and last of some timestamps. -/
def summary (timestamps : List ℤ) : Option (ℤ × ℤ × ℤ) :=
  match timestamps.min?, timestamps.max? with
  | some first, some last => some (timestamps.length, first, last)
  | _, _ => none

/-- `COUNT(*)`, `MIN` and `MAX`, grouped by symbol and timeframe. -/
def groups (t : Tables F) : List ((String × ℤ) × ℤ × ℤ × ℤ) :=
  t.candleKeys.filterMap fun k => (summary ((t.candlesOf k).map (·.timestamp))).map fun g => (k, g)

end Tables

section
variable (fails ends : ℕ → Bool)

/-- A statement that reads and writes the tables, and that they do not refuse. -/
def execute (f : Tables F → Tables F) : Sql (Tables F) Unit := Sql.statement fails fun t => .ok ((), f t)

/-- A statement that reads. -/
def query {α : Type} (f : Tables F → α) : Sql (Tables F) α := Sql.statement fails fun t => .ok (f t, t)

/-- The appender takes rows in, one after another, and writes them when it is flushed. -/
def append (rows : List (CandleRow F)) : Sql (Tables F) Unit := do
  query fails fun _ => ()
  Sql.forEach (fun _ => query fails fun _ => ()) rows
  Sql.statement fails (Tables.flush rows)

/-- `bulk_insert_inner`. -/
def bulkInsertInner (symbol : String) (buf : List (Candle F)) (source : String)
    (tfSecs firstTs lastTs : ℤ) : Sql (Tables F) ℕ := do
  execute fails (·.deleteCandles (symbol, tfSecs))
  append fails (buf.map fun candle => ⟨symbol, tfSecs, candle⟩)
  execute fails (·.deleteRange (symbol, tfSecs))
  Sql.statement fails (·.insertRange ⟨symbol, tfSecs, countToI32 buf.length, firstTs, lastTs, source⟩)
  pure buf.length

/-- The error of a statement is an error of the store. -/
def asStoreError {α : Type} : Except SqlError α → Except StoreError α
  | .ok a => .ok a
  | .error e => .error (.duckDb e)

/-- `bulk_insert`. -/
def bulkInsert (key : DataKey) (buf : List (Candle F)) (source : String) (c : Conn (Tables F)) :
    Except StoreError ℕ × Conn (Tables F) :=
  match buf with
  | [] => (.ok 0, c)
  | first :: rest =>
    match timeframeToI32 key.timeframe with
    | .error e => (.error e, c)
    | .ok tfSecs =>
      let lastTs := (rest.getLastD first).timestamp
      let (r, c) := Sql.guarded fails ends
        (bulkInsertInner fails key.symbol (first :: rest) source tfSecs first.timestamp lastTs) c
      (asStoreError r, c)

/-- The closure of `delete_symbol`. -/
def deleteSymbolInner (symbol : String) (tfSecs : ℤ) : Sql (Tables F) Unit := do
  execute fails (·.deleteCandles (symbol, tfSecs))
  execute fails (·.deleteRange (symbol, tfSecs))

/-- `delete_symbol`. -/
def deleteSymbol (key : DataKey) (c : Conn (Tables F)) : Except StoreError Unit × Conn (Tables F) :=
  match timeframeToI32 key.timeframe with
  | .error e => (.error e, c)
  | .ok tfSecs =>
    let (r, c) := Sql.guarded fails ends (deleteSymbolInner fails key.symbol tfSecs) c
    (asStoreError r, c)

/-- `query_all`. The capacity is read from the index, and 5000 where that fails; there is no result when
    it is negative, since no buffer is that large. -/
def queryAll (key : DataKey) (c : Conn (Tables F)) :
    Option (Except StoreError (List (Candle F))) × Conn (Tables F) :=
  match timeframeToI32 key.timeframe with
  | .error e => (some (.error e), c)
  | .ok tfSecs =>
    let (range, c) := query fails (·.dataRanges.get? (key.symbol, tfSecs)) c
    let capacity : ℤ :=
      match range with
      | .ok (some r) => r.candleCount
      | _ => 5000
    let (r, c) := query fails (fun t => Tables.orderByTimestamp (t.candlesOf (key.symbol, tfSecs))) c
    match r with
    | .error e => (some (.error (.duckDb e)), c)
    | .ok buf => (if capacity < 0 then none else some (.ok buf), c)

/-- `query_range`. -/
def queryRange (key : DataKey) (startTs endTs : ℤ) (c : Conn (Tables F)) :
    Except StoreError (List (Candle F)) × Conn (Tables F) :=
  match timeframeToI32 key.timeframe with
  | .error e => (.error e, c)
  | .ok tfSecs =>
    let within (x : Candle F) : Bool := startTs ≤ x.timestamp ∧ x.timestamp ≤ endTs
    let (r, c) := query fails
      (fun t => Tables.orderByTimestamp ((t.candlesOf (key.symbol, tfSecs)).filter within)) c
    (asStoreError r, c)

/-- A row of the index is made anew; a count that is no `INTEGER` is refused. -/
def insertReconciled (g : (String × ℤ) × ℤ × ℤ × ℤ) : Sql (Tables F) Unit :=
  Sql.statement fails fun t =>
    if g.2.1 ≤ I32_MAX then
      t.insertRange ⟨g.1.1, g.1.2, g.2.1, g.2.2.1, g.2.2.2, "reconciled"⟩
    else .error .constraint

/-- The closure of `reconcile_data_ranges`. -/
def reconcileInner (rowsData : List ((String × ℤ) × ℤ × ℤ × ℤ)) : Sql (Tables F) Unit := do
  execute fails fun t => { t with dataRanges := .empty }
  query fails fun _ => ()
  Sql.forEach (insertReconciled fails) rowsData

/-- `reconcile_data_ranges`. -/
def reconcileDataRanges : Sql (Tables F) Unit := do
  let metaCount ← query fails (·.dataRanges.items.length)
  let candleKeys ← query fails (·.candleKeys.length)
  if metaCount = candleKeys ∧ 0 < candleKeys then pure ()
  else if candleKeys = 0 ∧ metaCount = 0 then pure ()
  else do
    let rowsData ← query fails Tables.groups
    Sql.guarded fails ends (reconcileInner fails rowsData)

end

end Midas.CandleDb
