import HandOfMidas.Lib.Store

/-! The store of ticker states (`ticker_state/persist.rs`): what it keeps in memory, how it is
    opened on its two tables, and the flush thread beside the calls. A call and an iteration of the
    thread are cut where a lock is let go. Rows are under the text of a normalised symbol, which is
    the symbol here; which fields are persisted, and how a state becomes text and back, is a
    parameter. -/

namespace Midas.TickerDb

/-- `serde_json` on ticker states. A state that is written and read back has the persisted fields as
    they were. -/
structure Json (State Bytes P : Type) where
  toVecPretty : State → Bytes
  fromSlice : Bytes → Option State
  /-- `from_slice::<TickerOrderIntentV1>`, then `migrate_v1_v2`. -/
  fromSliceV1 : Bytes → Option State
  persisted : State → P
  fromSlice_toVecPretty : ∀ state, (fromSlice (toVecPretty state)).map persisted =
    some (persisted state)

structure Entry (K State : Type) where
  symbol : K
  state : State

structure Row (K Bytes : Type) where
  symbol : K
  value : Bytes

variable {K State Bytes P : Type} [DecidableEq K]

/-- The map of a `StateCache`. -/
abbrev Cache (K State : Type) := Store (@Entry.symbol K State)

/-- A table of the database. -/
abbrev Table (K Bytes : Type) := Store (@Row.symbol K Bytes)

/-! ### The cache -/

/-- `snapshot`. -/
def snapshot (cache : Cache K State) (symbol : K) : Option State :=
  (cache.get? symbol).map (·.state)

/-- `seed`. -/
def seed (cache : Cache K State) (symbol : K) (state : State) : Cache K State :=
  cache.put ⟨symbol, state⟩

/-- What `re_mark_dirty` does with one symbol. -/
def reMark (cache : Cache K State) (dirty : List K) (symbol : K) : List K :=
  if (snapshot cache symbol).isSome then dirty.insert symbol else dirty

/-- `re_mark_dirty`. -/
def reMarkDirty (cache : Cache K State) (dirty symbols : List K) : List K :=
  symbols.foldl (reMark cache) dirty

/-- The second half of `drain_dirty`: what the cache has of the symbols that were marked. -/
def collect (cache : Cache K State) (symbols : List K) : List (Entry K State) :=
  symbols.filterMap fun symbol => cache.get? symbol

/-! ### The tables -/

namespace Json

variable (json : Json State Bytes P)

def rowOf (e : Entry K State) : Row K Bytes := ⟨e.symbol, json.toVecPretty e.state⟩

/-- `write_batch_to_v2`, where its transaction succeeds. -/
def writeBatchToV2 (v2 : Table K Bytes) (batch : List (Entry K State)) : Table K Bytes :=
  (batch.map json.rowOf).foldl .put v2

/-- One row of the second version. -/
def hydrateRow (cache : Cache K State) (row : Row K Bytes) : Cache K State :=
  match json.fromSlice row.value with
  | some state => seed cache row.symbol state
  | none => cache

/-- `hydrate_v2`. -/
def hydrateV2 (v2 : Table K Bytes) (cache : Cache K State) : Cache K State :=
  v2.items.foldl json.hydrateRow cache

/-- One row of the first version, with the count of those that were migrated. -/
def migrateRow (acc : Cache K State × ℕ) (row : Row K Bytes) : Cache K State × ℕ :=
  if (snapshot acc.1 row.symbol).isSome then acc
  else
    match json.fromSliceV1 row.value with
    | some state => (seed acc.1 row.symbol state, acc.2 + 1)
    | none => acc

/-- `migrate_v1_to_v2`, where its write succeeds: no seed has marked a symbol, so all that is cached is
    written. -/
def migrateV1ToV2 (v1 v2 : Table K Bytes) (cache : Cache K State) : Cache K State × Table K Bytes :=
  let (cache, migrated) := v1.items.foldl json.migrateRow (cache, 0)
  (cache, if migrated > 0 then json.writeBatchToV2 v2 cache.items else v2)

/-- `open`, up to the flush thread: the cache, and the second table as it is left. -/
def openStore (v1 v2 : Table K Bytes) : Cache K State × Table K Bytes :=
  json.migrateV1ToV2 v1 v2 (json.hydrateV2 v2 .empty)

end Json

/-! ### Calls and the flush thread -/

/-- What a call has still to do. -/
inductive Call (K : Type) where
  | mark (symbol : K)
  | wake
  deriving DecidableEq

/-- Where the flush thread is, with whether it has seen the shutdown. -/
inductive Thread (K State : Type) where
  | waiting
  | draining (isShutdown : Bool)
  | collecting (isShutdown : Bool) (symbols : List K)
  | writing (isShutdown : Bool) (batch : List (Entry K State))
  | reMarking (isShutdown : Bool) (symbols : List K)
  | finishing (isShutdown : Bool) (flushed : Bool)
  | exited (flushed : Bool)

/-- `FlushCtl`, without its clock. -/
structure FlushCtl where
  wake : Bool := false
  shutdown : Bool := false
  done : Bool := false

structure World (K State Bytes : Type) where
  cache : Cache K State
  dirty : List K := []
  calls : List (Call K) := []
  ctl : FlushCtl := {}
  thread : Thread K State := .waiting
  v2 : Table K Bytes

inductive Act (K State : Type) where
  /-- An `upsert` writes to the cache. -/
  | upsert (symbol : K) (state : State)
  /-- A `forget` takes out of the cache. -/
  | forget (symbol : K)
  /-- A call goes on: it marks its symbol, or wakes the thread. -/
  | goOn (call : Call K)
  /-- `shutdown_blocking`. -/
  | shutdown
  /-- The flush thread goes on; a write of it succeeds or fails. -/
  | flush (ok : Bool)

namespace World

variable (json : Json State Bytes P) (v1 : Table K Bytes)

/-- `open`. -/
def opened (v2 : Table K Bytes) : World K State Bytes where
  cache := (json.openStore v1 v2).1
  v2 := (json.openStore v1 v2).2

def upsert (w : World K State Bytes) (symbol : K) (state : State) : World K State Bytes :=
  { w with cache := w.cache.put ⟨symbol, state⟩, calls := .mark symbol :: w.calls }

/-- Only a symbol that was there is marked. -/
def forget (w : World K State Bytes) (symbol : K) : World K State Bytes :=
  if (snapshot w.cache symbol).isSome then
    { w with cache := w.cache.erase symbol, calls := .mark symbol :: w.calls }
  else { w with calls := .wake :: w.calls }

def goOn (w : World K State Bytes) : Call K → World K State Bytes
  | .mark symbol =>
    { w with dirty := w.dirty.insert symbol, calls := .wake :: w.calls.erase (.mark symbol) }
  | .wake => { w with ctl := { w.ctl with wake := true }, calls := w.calls.erase .wake }

/-- One stage of `flush_loop`. -/
def flush (w : World K State Bytes) (ok : Bool) : World K State Bytes :=
  match w.thread with
  | .waiting =>
    { w with thread := .draining w.ctl.shutdown, ctl := { w.ctl with wake := false } }
  | .draining isShutdown => { w with thread := .collecting isShutdown w.dirty, dirty := [] }
  | .collecting isShutdown symbols =>
    match collect w.cache symbols with
    | [] => { w with thread := .finishing isShutdown true }
    | e :: batch => { w with thread := .writing isShutdown (e :: batch) }
  | .writing isShutdown batch =>
    if ok then { w with v2 := json.writeBatchToV2 w.v2 batch, thread := .finishing isShutdown true }
    else { w with thread := .reMarking isShutdown (batch.map (·.symbol)) }
  | .reMarking isShutdown symbols =>
    { w with dirty := reMarkDirty w.cache w.dirty symbols, thread := .finishing isShutdown false }
  | .finishing isShutdown flushed =>
    if isShutdown then { w with thread := .exited flushed, ctl := { w.ctl with done := true } }
    else { w with thread := .waiting }
  | .exited _ => w

/-- One act. There are no calls after the shutdown, and it comes when none is under way; an act that
    cannot be taken changes nothing. -/
def step (w : World K State Bytes) : Act K State → World K State Bytes
  | .upsert symbol state => if w.ctl.shutdown then w else w.upsert symbol state
  | .forget symbol => if w.ctl.shutdown then w else w.forget symbol
  | .goOn call => if call ∈ w.calls then w.goOn call else w
  | .shutdown => if w.calls = [] then { w with ctl := { w.ctl with shutdown := true } } else w
  | .flush ok => w.flush json ok

end World

end Midas.TickerDb
