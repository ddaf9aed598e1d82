import HandOfMidas.Calendar.Types
import HandOfMidas.Lib.Search
import HandOfMidas.Lib.Upsert

/-! The candle buffer of the desktop charts (`candle_buffer/mod.rs` of `midas-core`): seven columns, one
    row for each candle. -/

namespace Midas.Candles

open Calendar Upsert

/-- `f32`: its comparison, which is a strict order that a NaN takes no part in. -/
class F32 (F : Type) extends LT F where
  decidableLT : DecidableLT F
  isFinite : F → Bool
  irrefl : ∀ x : F, ¬x < x
  trans : ∀ x y z : F, x < y → y < z → x < z

instance F32.instDecidableLT {F : Type} [F32 F] : DecidableLT F := F32.decidableLT

/-- Exact numbers. -/
instance : F32 ℚ where
  decidableLT := inferInstance
  isFinite _ := true
  irrefl := lt_irrefl
  trans _ _ _ := lt_trans

/-- `u32::saturating_add`. -/
def saturatingAdd (a b : UInt32) : UInt32 := UInt32.ofNat (min (a.toNat + b.toNat) (2 ^ 32 - 1))

/-- A candle: the arguments of `apply_bar` and of `merge_bar`. -/
structure Row (F : Type) where
  ts : ℤ
  o : F
  h : F
  l : F
  c : F
  v : UInt32
  session : SessionKind

/-- `CandleBuffer`. A session is kept as its kind. -/
structure CandleBuffer (F : Type) where
  timestamps : List ℤ
  opens : List F
  highs : List F
  lows : List F
  closes : List F
  volumes : List UInt32
  sessions : List SessionKind
  version : ℕ

/-- Write on the last entry of a column. `expect` panics on a column without one. -/
def modifyLast {α : Type} (f : α → α) (column : List α) : Option (List α) :=
  column.getLast?.map fun x => column.dropLast ++ [f x]

theorem modifyLast_concat {α : Type} (f : α → α) (l : List α) (x : α) :
    modifyLast f (l ++ [x]) = some (l ++ [f x]) := by
  simp [modifyLast]

/-- `if x > *last { *last = x }`. -/
def raise {F : Type} [F32 F] (x last : F) : F := if last < x then x else last

/-- `if x < *last { *last = x }`. -/
def lower {F : Type} [F32 F] (x last : F) : F := if x < last then x else last

namespace CandleBuffer

variable {F : Type} [F32 F]

def new : CandleBuffer F := ⟨[], [], [], [], [], [], [], 0⟩

/-- `push_with_session`. Its assertion that time goes forward is for debug builds only. -/
def pushWithSession (b : CandleBuffer F) (bar : Row F) : CandleBuffer F where
  timestamps := b.timestamps ++ [bar.ts]
  opens := b.opens ++ [bar.o]
  highs := b.highs ++ [bar.h]
  lows := b.lows ++ [bar.l]
  closes := b.closes ++ [bar.c]
  volumes := b.volumes ++ [bar.v]
  sessions := b.sessions ++ [bar.session]
  version := b.version + 1

def findIndexGe (b : CandleBuffer F) (targetTs : ℤ) : ℕ :=
  Search.partitionPoint (fun ts => decide (ts < targetTs)) b.timestamps

def findIndexGt (b : CandleBuffer F) (targetTs : ℤ) : ℕ :=
  Search.partitionPoint (fun ts => decide (ts ≤ targetTs)) b.timestamps

/-- `visible_range`: the bounds of a half-open range of indices. -/
def visibleRange (b : CandleBuffer F) (startTs endTs : ℤ) : ℕ × ℕ :=
  (b.findIndexGe startTs, b.findIndexGt endTs)

/-- `update_last`. It panics where this is `none`, as do the other mutators. -/
def updateLast (b : CandleBuffer F) (ts : ℤ) (o h l c : F) (v : UInt32) : Option (CandleBuffer F) :=
  if b.timestamps = [] then some b
  else do
    let timestamps ← modifyLast (fun _ => ts) b.timestamps
    let opens ← modifyLast (fun _ => o) b.opens
    let highs ← modifyLast (fun _ => h) b.highs
    let lows ← modifyLast (fun _ => l) b.lows
    let closes ← modifyLast (fun _ => c) b.closes
    let volumes ← modifyLast (fun _ => v) b.volumes
    some ⟨timestamps, opens, highs, lows, closes, volumes, b.sessions, b.version + 1⟩

/-- `apply_bar`. -/
def applyBar (b : CandleBuffer F) (bar : Row F) : Option (CandleBuffer F) :=
  match b.timestamps.getLast? with
  | none => some (b.pushWithSession bar)
  | some ts =>
    if ts = bar.ts then do
      let opens ← modifyLast (fun _ => bar.o) b.opens
      let highs ← modifyLast (fun _ => bar.h) b.highs
      let lows ← modifyLast (fun _ => bar.l) b.lows
      let closes ← modifyLast (fun _ => bar.c) b.closes
      let volumes ← modifyLast (fun _ => bar.v) b.volumes
      let sessions ← modifyLast (fun _ => bar.session) b.sessions
      some ⟨b.timestamps, opens, highs, lows, closes, volumes, sessions, b.version + 1⟩
    else if ts > bar.ts then some b
    else some (b.pushWithSession bar)

/-- `update_last_price`. -/
def updateLastPrice (b : CandleBuffer F) (price : F) : Option (CandleBuffer F) :=
  if !F32.isFinite price then some b
  else if b.closes.isEmpty then some b
  else do
    let highs ← modifyLast (raise price) b.highs
    let lows ← modifyLast (lower price) b.lows
    let closes ← modifyLast (fun _ => price) b.closes
    some { b with highs := highs, lows := lows, closes := closes, version := b.version + 1 }

/-- `merge_bar`. -/
def mergeBar (b : CandleBuffer F) (bar : Row F) : Option (CandleBuffer F) :=
  match b.timestamps.getLast? with
  | none => some (b.pushWithSession bar)
  | some ts =>
    if ts = bar.ts then do
      let highs ← modifyLast (raise bar.h) b.highs
      let lows ← modifyLast (lower bar.l) b.lows
      let closes ← modifyLast (fun _ => bar.c) b.closes
      let volumes ← modifyLast (saturatingAdd · bar.v) b.volumes
      some { b with
        highs := highs, lows := lows, closes := closes, volumes := volumes, version := b.version + 1 }
    else if ts > bar.ts then some b
    else some (b.pushWithSession bar)

/-! ### Columns and rows -/

/-- The buffer with these rows. -/
def ofRows (rows : List (Row F)) (version : ℕ) : CandleBuffer F where
  timestamps := rows.map (·.ts)
  opens := rows.map (·.o)
  highs := rows.map (·.h)
  lows := rows.map (·.l)
  closes := rows.map (·.c)
  volumes := rows.map (·.v)
  sessions := rows.map (·.session)
  version := version

omit [F32 F] in
theorem pushWithSession_ofRows (rows : List (Row F)) (version : ℕ) (bar : Row F) :
    (ofRows rows version).pushWithSession bar = ofRows (rows ++ [bar]) (version + 1) := by
  simp [pushWithSession, ofRows]

omit [F32 F] in
theorem getLast?_ofRows (init : List (Row F)) (x : Row F) (version : ℕ) :
    (ofRows (init ++ [x]) version).timestamps.getLast? = some x.ts := by
  simp [ofRows]

omit [F32 F] in
/-- `apply_bar` puts a bar over the last row, or behind it. -/
theorem applyBar_ofRows (rows : List (Row F)) (version : ℕ) (bar : Row F) :
    ∃ version', (ofRows rows version).applyBar bar =
      some (ofRows (upsert (·.ts) (fun _ bar => bar) rows bar) version') := by
  rcases List.eq_nil_or_concat' rows with rfl | ⟨init, x, rfl⟩
  · exact ⟨_, rfl⟩
  have hlast := getLast?_ofRows init x version
  rcases lt_trichotomy x.ts bar.ts with hlt | heq | hgt
  · refine ⟨version + 1, ?_⟩
    rw [upsert_later Row.ts init hlt, ← pushWithSession_ofRows]
    simp [applyBar, hlast, hlt.ne, hlt.not_gt]
  · refine ⟨version + 1, ?_⟩
    rw [upsert_same Row.ts init heq]
    simp [applyBar, heq, ofRows, modifyLast_concat]
  · refine ⟨version, ?_⟩
    rw [upsert_earlier Row.ts init hgt]
    simp [applyBar, hlast, hgt.ne', hgt]

/-- A sub-bar merged into the bar of its bucket. -/
def mergeRow (x bar : Row F) : Row F :=
  { x with h := raise bar.h x.h, l := lower bar.l x.l, c := bar.c, v := saturatingAdd x.v bar.v }

/-- `merge_bar` merges a bar into the last row, or puts it behind. -/
theorem mergeBar_ofRows (rows : List (Row F)) (version : ℕ) (bar : Row F) :
    ∃ version', (ofRows rows version).mergeBar bar =
      some (ofRows (upsert (·.ts) mergeRow rows bar) version') := by
  rcases List.eq_nil_or_concat' rows with rfl | ⟨init, x, rfl⟩
  · exact ⟨_, rfl⟩
  have hlast := getLast?_ofRows init x version
  rcases lt_trichotomy x.ts bar.ts with hlt | heq | hgt
  · refine ⟨version + 1, ?_⟩
    rw [upsert_later Row.ts init hlt, ← pushWithSession_ofRows]
    simp [mergeBar, hlast, hlt.ne, hlt.not_gt]
  · refine ⟨version + 1, ?_⟩
    rw [upsert_same Row.ts init heq]
    simp [mergeBar, heq, ofRows, modifyLast_concat, mergeRow]
  · refine ⟨version, ?_⟩
    rw [upsert_earlier Row.ts init hgt]
    simp [mergeBar, hlast, hgt.ne', hgt]

omit [F32 F] in
/-- `update_last` writes over the last row, its time included. -/
theorem updateLast_ofRows (init : List (Row F)) (x : Row F) (version : ℕ) (ts : ℤ) (o h l c : F)
    (v : UInt32) : (ofRows (init ++ [x]) version).updateLast ts o h l c v =
      some (ofRows (init ++ [⟨ts, o, h, l, c, v, x.session⟩]) (version + 1)) := by
  simp [updateLast, ofRows, modifyLast_concat]

/-- A price folded into a row. -/
def priceRow (price : F) (x : Row F) : Row F :=
  { x with h := raise price x.h, l := lower price x.l, c := price }

theorem updateLastPrice_nil (version : ℕ) (price : F) :
    (ofRows [] version).updateLastPrice price = some (ofRows [] version) := by
  simp [updateLastPrice, ofRows]

/-- `update_last_price` folds a finite price into the last row. -/
theorem updateLastPrice_ofRows (init : List (Row F)) (x : Row F) (version : ℕ) {price : F}
    (h : F32.isFinite price = true) : (ofRows (init ++ [x]) version).updateLastPrice price =
      some (ofRows (init ++ [priceRow price x]) (version + 1)) := by
  simp [updateLastPrice, h, ofRows, modifyLast_concat, priceRow]

end CandleBuffer

end Midas.Candles
