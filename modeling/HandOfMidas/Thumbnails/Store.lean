import HandOfMidas.Candles.Stores
import Mathlib.Data.Finset.Card

/-! The data of the thumbnails (`thumbnail_data.rs`): the last closes of each symbol and timeframe, cut
    from a candle buffer or from a series, and the queue of the loads that fetch them. -/

namespace Midas.Thumbnails

open Bars Candles

/-- `f32` with the constants that bound a range of prices. -/
class F32Range (F : Type) extends F32 F where
  zero : F
  one : F
  max : F
  min : F
  infinity : F
  negInfinity : F

/-- Exact numbers; 2^128 stands for what is beyond them. -/
instance : F32Range ℚ where
  zero := 0
  one := 1
  max := 2 ^ 128
  min := -2 ^ 128
  infinity := 2 ^ 128
  negInfinity := -2 ^ 128

variable {F : Type} [F32Range F]

open F32Range

abbrev Key := String × Timeframe

structure Entry (F : Type) where
  closes : List F
  yMin : F
  yMax : F
  sourceVersion : ℕ
deriving DecidableEq

structure LoadTask where
  symbol : String
  tf : Timeframe
  days : UInt32
deriving DecidableEq

def LoadTask.key (task : LoadTask) : Key := (task.symbol, task.tf)

structure ThumbnailDataStore (F : Type) where
  cache : Key → Option (Entry F)
  pending : Finset Key
  waiting : List LoadTask
  maxConcurrent : ℕ
  tailLen : ℕ

def emptyEntry : Entry F := ⟨[], zero, one, 0⟩

/-- `price_range` of a range that ends with the buffer. -/
def priceRange (buf : CandleBuffer F) (start : ℕ) : F × F :=
  ((buf.lows.drop start).foldl (fun m l => lower l m) max,
    (buf.highs.drop start).foldl (fun m h => raise h m) min)

def sliceFromBuffer (buf : CandleBuffer F) (tailLen : ℕ) : Entry F :=
  let len := buf.timestamps.length
  if len = 0 then ⟨[], zero, one, buf.version⟩
  else
    let start := len - tailLen
    let (yMin, yMax) := priceRange buf start
    ⟨(buf.closes.drop start).take (len - start), yMin, yMax, buf.version⟩

/-- The prices of a row are widened and narrowed again, which changes none of them. -/
def sliceFromSeries (series : CandleSeries F) (tailLen : ℕ) : Entry F :=
  let len := series.timestamps.length
  if len = 0 then ⟨[], zero, one, series.version⟩
  else
    let start := len - tailLen
    let yMin := (series.lows.drop start).foldl (fun m l => lower l m) infinity
    let yMax := (series.highs.drop start).foldl (fun m h => raise h m) negInfinity
    ⟨(series.closes.drop start).take (len - start), if F32.isFinite yMin then yMin else zero,
      if F32.isFinite yMax then yMax else one, series.version⟩

namespace ThumbnailDataStore

/-- `with_tail_len` and `with_max_concurrent`. -/
def new (tailLen maxConcurrent : ℕ) : ThumbnailDataStore F :=
  ⟨fun _ => none, ∅, [], Nat.max maxConcurrent 1, tailLen⟩

variable (store : ThumbnailDataStore F)

/-- Real data are cached under the key. -/
def isLoaded (key : Key) : Bool := (store.cache key).any fun entry => 0 < entry.sourceVersion

/-- `cache.insert`. -/
def cacheInsert (key : Key) (entry : Entry F) : ThumbnailDataStore F :=
  { store with cache := Function.update store.cache key (some entry) }

def fetch (symbol : String) (tf : Timeframe) (source : Option (CandleBuffer F)) :
    Entry F × ThumbnailDataStore F :=
  let key := (symbol, tf)
  let store :=
    match source with
    | none => store
    | some buf =>
      let needsReslice := (store.cache key).all fun entry => entry.sourceVersion ≠ buf.version
      if needsReslice then store.cacheInsert key (sliceFromBuffer buf store.tailLen) else store
  ((store.cache key).getD emptyEntry, store)

def fetchFromSeries (symbol : String) (tf : Timeframe) (source : Option (CandleSeries F)) :
    Entry F × ThumbnailDataStore F :=
  let key := (symbol, tf)
  let store :=
    match source with
    | none => store
    | some series =>
      let needsReslice := (store.cache key).all fun entry => entry.sourceVersion ≠ series.version
      if needsReslice then store.cacheInsert key (sliceFromSeries series store.tailLen) else store
  ((store.cache key).getD emptyEntry, store)

def requestLoad (symbol : String) (tf : Timeframe) (days : UInt32) :
    Option LoadTask × ThumbnailDataStore F :=
  let key := (symbol, tf)
  if store.isLoaded key then (none, store)
  else if key ∈ store.pending then (none, store)
  else if store.waiting.any fun t => t.symbol = symbol ∧ t.tf = tf then (none, store)
  else if store.maxConcurrent ≤ store.pending.card then
    (none, { store with waiting := store.waiting ++ [⟨symbol, tf, days⟩] })
  else (some ⟨symbol, tf, days⟩, { store with pending := insert key store.pending })

/-- The loop of `drain_next` over what is left of the queue. -/
def drainFrom (store : ThumbnailDataStore F) : List LoadTask → Option LoadTask × ThumbnailDataStore F
  | [] => (none, { store with waiting := [] })
  | task :: waiting =>
    if store.maxConcurrent ≤ store.pending.card then (none, { store with waiting := task :: waiting })
    else if store.isLoaded task.key then drainFrom store waiting
    else if task.key ∈ store.pending then drainFrom store waiting
    else
      (some task, { store with pending := insert task.key store.pending, waiting := waiting })

def drainNext : Option LoadTask × ThumbnailDataStore F := store.drainFrom store.waiting

/-- The pending marker is cleared and an entry cached, as all three ways to install do. -/
def settle (key : Key) (entry : Entry F) : ThumbnailDataStore F :=
  { store with pending := store.pending.erase key }.cacheInsert key entry

def install (symbol : String) (tf : Timeframe) (buffer : CandleBuffer F) : ThumbnailDataStore F :=
  store.settle (symbol, tf) (sliceFromBuffer buffer store.tailLen)

def installEmpty (symbol : String) (tf : Timeframe) : ThumbnailDataStore F :=
  store.settle (symbol, tf) emptyEntry

def installSeries (symbol : String) (tf : Timeframe) (series : CandleSeries F) :
    ThumbnailDataStore F :=
  store.settle (symbol, tf) (sliceFromSeries series store.tailLen)

end ThumbnailDataStore

end Midas.Thumbnails
