import HandOfMidas.Candles.CandleBuffer
import HandOfMidas.Scenario.Duration
import Mathlib.Data.List.Sort

/-! The import of candles from a CSV text (`csv/mod.rs` of `midas-feed`). The `csv` crate hands over the
    header and the records, `chrono` reads the dates, and the clock stands still. -/

namespace Midas.Feed

open Candles

/-- `f32` as a price in a file. -/
class Price (F : Type) extends F32 F where
  zero : F
  parse : String → Option F
  /-- `{value}`. -/
  display : F → String

/-- `f64` as a volume in a file. -/
class Volume (D : Type) extends LE D where
  decidableLE : DecidableLE D
  zero : D
  ofU32 : UInt32 → D
  parse : String → Option D
  /-- `v as u32`. -/
  asU32 : D → UInt32

instance Volume.instDecidableLE {D : Type} [Volume D] : DecidableLE D := Volume.decidableLE

/-- Exact numbers. -/
instance : Price ℚ where
  zero := 0
  parse s := Dsl.Expression.parseF64 s.toList
  display q := toString q

instance : Volume ℚ where
  decidableLE := inferInstance
  zero := 0
  ofU32 n := n.toNat
  parse s := Dsl.Expression.parseF64 s.toList
  asU32 q := .ofNat q.floor.toNat

/-- `parse_from_str` of `chrono` for the three formats, as milliseconds of the epoch: `%Y-%m-%d`, at
    midnight, and `%H:%M:%S` behind it after a blank or a `T`. -/
structure Chrono where
  parseDate : String → Option ℤ
  parseDateTime : String → Option ℤ
  parseIso : String → Option ℤ

/-- `CsvError`. The failure of a file to open is none of a text. -/
inductive CsvError (F : Type) where
  | parseError (row : ℕ) (message : String)
  | missingColumn (name : String)
  | invalidDate (row : ℕ) (value : String)
  | emptyFile
  | csvReader (message : String)
  | negativePrice (row : ℕ) (value : F)
  | futureTimestamp (row : ℕ) (tsMs : ℤ)
  | duplicateTimestamp (row : ℕ) (tsMs : ℤ)

abbrev Record := List String

/-- The indices of the columns; the prices are `open`, `high`, `low` and `close`. -/
structure ColumnMap where
  date : ℕ
  o : ℕ
  h : ℕ
  l : ℕ
  c : ℕ
  volume : ℕ
deriving DecidableEq

/-- `RawCandle`, and `IndexedCandle`, which has the same fields. -/
structure RawCandle (F : Type) where
  ts : ℤ
  o : F
  h : F
  l : F
  c : F
  volume : UInt32

def trim (s : String) : String := .ofList (Dsl.Expression.trim s.toList)

/-! ### Columns -/

def findCol (fields : List String) (candidates : List String) : Option ℕ :=
  fields.findIdx? fun f => candidates.any (f == ·)

def findCloseCol (fields : List String) : Option ℕ :=
  fields.findIdx? fun f => (f == "close" || f == "c") && f != "adj close"

section Import

variable {F : Type}

def orMissing (name : String) (col : Option ℕ) : Except (CsvError F) ℕ :=
  match col with
  | some i => .ok i
  | none => .error (.missingColumn name)

/-- `detect_columns`. No letter from outside ASCII has a lower case that one of the names is made of. -/
def detectColumns (headers : Record) : Except (CsvError F) ColumnMap := do
  let fields := headers.map fun h => (trim h).toLower
  let date ← orMissing "date/time/timestamp" (findCol fields ["date", "time", "timestamp", "datetime"])
  let o ← orMissing "open" (findCol fields ["open", "o"])
  let h ← orMissing "high" (findCol fields ["high", "h"])
  let l ← orMissing "low" (findCol fields ["low", "l"])
  let c ← orMissing "close" (findCloseCol fields)
  let volume ← orMissing "volume" (findCol fields ["volume", "vol", "v"])
  return ⟨date, o, h, l, c, volume⟩

/-! ### Cells -/

/-- An integer as milliseconds or as seconds. A small one falls through to the dates. -/
def parseEpoch (trimmed : String) : Option ℤ :=
  match Dsl.Expression.parseI64 trimmed.toList with
  | some n =>
    if n.toInt > 1000000000000 then some n.toInt
    else if n.toInt > 1000000000 then some (n.toInt * 1000)
    else none
  | none => none

/-- The formats in the order in which they are tried. -/
def readTimestamp (chrono : Chrono) (trimmed : String) : Option ℤ :=
  (parseEpoch trimmed).or <| (chrono.parseDate trimmed).or <|
    (chrono.parseDateTime trimmed).or (chrono.parseIso trimmed)

def parseTimestamp (chrono : Chrono) (value : String) (row : ℕ) : Except (CsvError F) ℤ :=
  match readTimestamp chrono (trim value) with
  | some ts => .ok ts
  | none => .error (.invalidDate row (trim value))

/-- The closure `get` of `parse_row`. -/
def get (record : Record) (row idx : ℕ) (name : String) : Except (CsvError F) String :=
  match record[idx]? with
  | some s => .ok s
  | none => .error (.parseError row ("missing column `" ++ name ++ "` (index " ++ idx.repr ++ ")"))

def parseF32 [Price F] (s : String) (row : ℕ) (field : String) : Except (CsvError F) F :=
  match Price.parse (trim s) with
  | some v => .ok v
  | none => .error (.parseError row ("cannot parse `" ++ field ++ "` as f32: \"" ++ s ++ "\""))

/-- `s.parse::<u32>()`. -/
def parseU32 (s : String) : Option UInt32 :=
  let digits := if s.toList.head? = some '+' then s.toList.drop 1 else s.toList
  (Protocol.parseDigits digits).bind fun n => if n < 2 ^ 32 then some (.ofNat n) else none

/-- What `parse_volume` makes of a decimal number. -/
def parseWhole (D : Type) [Volume D] (trimmed : String) : Option UInt32 :=
  match Volume.parse (D := D) trimmed with
  | some v => if Volume.zero ≤ v ∧ v ≤ Volume.ofU32 0xFFFFFFFF then some (Volume.asU32 v) else none
  | none => none

def parseVolume (D : Type) [Volume D] (s : String) (row : ℕ) : Except (CsvError F) UInt32 :=
  match (parseU32 (trim s)).or (parseWhole D (trim s)) with
  | some v => .ok v
  | none => .error (.parseError row ("cannot parse volume: \"" ++ trim s ++ "\""))

/-! ### Rows -/

variable [Price F] (D : Type) [Volume D] (chrono : Chrono) (nowMs : ℤ)

def parseRow (record : Record) (cols : ColumnMap) (row : ℕ) : Except (CsvError F) (RawCandle F) := do
  let ts ← parseTimestamp chrono (← get record row cols.date "date/timestamp") row
  let o ← parseF32 (← get record row cols.o "open") row "open"
  let h ← parseF32 (← get record row cols.h "high") row "high"
  let l ← parseF32 (← get record row cols.l "low") row "low"
  let c ← parseF32 (← get record row cols.c "close") row "close"
  let volume ← parseVolume D (← get record row cols.volume "volume") row
  return ⟨ts, o, h, l, c, volume⟩

def validatePrice (row : ℕ) (value : F) (name : String) : Except (CsvError F) Unit :=
  if value < Price.zero then .error (.negativePrice row value)
  else if !F32.isFinite value then
    .error (.parseError row ("`" ++ name ++ "` is not finite: " ++ Price.display value))
  else .ok ()

def validatePrices (candle : RawCandle F) (row : ℕ) : Except (CsvError F) Unit := do
  validatePrice row candle.o "open"
  validatePrice row candle.h "high"
  validatePrice row candle.l "low"
  validatePrice row candle.c "close"

/-- `validate_timestamp_not_future`, with a grace of 48 hours. -/
def validateTimestampNotFuture (tsMs : ℤ) (row : ℕ) : Except (CsvError F) Unit :=
  if tsMs > nowMs + 48 * 60 * 60 * 1000 then .error (.futureTimestamp row tsMs) else .ok ()

/-- The body of the loop of `import_csv_from_str`. A reader that fails on a record leaves a message. -/
def importRow (cols : ColumnMap) (row : ℕ) (result : Except String Record) :
    Except (CsvError F) (RawCandle F) := do
  let record ← result.mapError (.parseError row)
  let raw ← parseRow D chrono record cols row
  validatePrices raw row
  validateTimestampNotFuture nowMs raw.ts row
  return raw

/-- The loop. Rows count from 1, and the header is the first. -/
def importRows (cols : ColumnMap) :
    ℕ → List (Except String Record) → Except (CsvError F) (List (RawCandle F))
  | _, [] => .ok []
  | idx, result :: results => do
    let candle ← importRow D chrono nowMs cols (idx + 2) result
    let candles ← importRows cols (idx + 1) results
    return candle :: candles

/-- The first index whose timestamp is the one before it. -/
def findDuplicate : ℕ → List (RawCandle F) → Option (ℕ × ℤ)
  | i, a :: b :: candles => if b.ts = a.ts then some (i, b.ts) else findDuplicate (i + 1) (b :: candles)
  | _, _ => none

def RawCandle.toRow (c : RawCandle F) : Row F := ⟨c.ts, c.o, c.h, c.l, c.c, c.volume, .regular⟩

/-- `sort_by_key(|c| c.ts)`, which is stable. -/
def sortCandles (candles : List (RawCandle F)) : List (RawCandle F) :=
  candles.insertionSort fun a b => a.ts ≤ b.ts

/-- What `import_csv_from_str` does after its loop. -/
def buildBuffer (candles : List (RawCandle F)) : Except (CsvError F) (CandleBuffer F) :=
  if candles.isEmpty then .error .emptyFile
  else
    let candles := sortCandles candles
    match findDuplicate 1 candles with
    | some (i, ts) => .error (.duplicateTimestamp (i + 1) ts)
    | none => .ok (candles.foldl (fun buffer c => buffer.pushWithSession c.toRow) .new)

def importCsvFromStr (headers : Except String Record) (records : List (Except String Record)) :
    Except (CsvError F) (CandleBuffer F) := do
  let headers ← headers.mapError .csvReader
  let cols ← detectColumns headers
  let candles ← importRows D chrono nowMs cols 0 records
  buildBuffer candles

end Import

/-! ### What a record carries -/

theorem toOption_bind {ε α β : Type} (x : Except ε α) (f : α → Except ε β) :
    (x >>= f).toOption = x.toOption.bind fun a => (f a).toOption := by
  cases x <;> rfl

theorem ok_bind {ε α β : Type} (a : α) (f : α → Except ε β) : (.ok a >>= f) = f a := rfl

theorem toOption_eq_some {ε α : Type} {x : Except ε α} {a : α} : x.toOption = some a ↔ x = .ok a := by
  cases x <;> simp [Except.toOption]

section Carried

variable {F : Type}

theorem toOption_get (record : Record) (row idx : ℕ) (name : String) :
    (get record row idx name : Except (CsvError F) String).toOption = record[idx]? := by
  rw [get]
  cases record[idx]? <;> rfl

theorem toOption_parseTimestamp (chrono : Chrono) (s : String) (row : ℕ) :
    (parseTimestamp chrono s row : Except (CsvError F) ℤ).toOption = readTimestamp chrono (trim s) := by
  unfold parseTimestamp
  cases readTimestamp chrono (trim s) <;> rfl

theorem toOption_parseVolume (D : Type) [Volume D] (s : String) (row : ℕ) :
    (parseVolume D s row : Except (CsvError F) UInt32).toOption =
      (parseU32 (trim s)).or (parseWhole D (trim s)) := by
  unfold parseVolume
  cases (parseU32 (trim s)).or (parseWhole D (trim s)) <;> rfl

theorem toOption_mapError {ε : Type} (result : Except ε Record) (f : ε → CsvError F) :
    (result.mapError f).toOption = result.toOption := by
  cases result <;> rfl

variable [Price F] (D : Type) [Volume D] (chrono : Chrono) (nowMs : ℤ)

theorem toOption_parseF32 (s : String) (row : ℕ) (field : String) :
    (parseF32 s row field : Except (CsvError F) F).toOption = Price.parse (trim s) := by
  rw [parseF32]
  cases (Price.parse (trim s) : Option F) <;> rfl

theorem toOption_validatePrice (row row' : ℕ) (value : F) (name : String) :
    (validatePrice row value name).toOption = (validatePrice row' value name).toOption := by
  unfold validatePrice
  split_ifs <;> rfl

theorem toOption_validatePrices (candle : RawCandle F) (row row' : ℕ) :
    (validatePrices candle row).toOption = (validatePrices candle row').toOption := by
  simp only [validatePrices, toOption_bind, toOption_validatePrice row row']

omit [Price F] in
theorem toOption_validateTimestampNotFuture (tsMs : ℤ) (row row' : ℕ) :
    (validateTimestampNotFuture nowMs tsMs row : Except (CsvError F) Unit).toOption =
      (validateTimestampNotFuture nowMs tsMs row' : Except (CsvError F) Unit).toOption := by
  unfold validateTimestampNotFuture
  split_ifs <;> rfl

theorem toOption_parseRow (record : Record) (cols : ColumnMap) (row row' : ℕ) :
    (parseRow D chrono record cols row : Except (CsvError F) _).toOption =
      (parseRow D chrono record cols row').toOption := by
  simp only [parseRow, toOption_bind, toOption_get, toOption_parseTimestamp, toOption_parseF32,
    toOption_parseVolume]

/-- Row numbers are in the errors only. -/
theorem toOption_importRow (cols : ColumnMap) (row row' : ℕ) (result : Except String Record) :
    (importRow D chrono nowMs cols row result : Except (CsvError F) _).toOption =
      (importRow D chrono nowMs cols row' result).toOption := by
  simp only [importRow, toOption_bind, toOption_mapError, toOption_parseRow D chrono _ cols row row',
    toOption_validatePrices _ row row', toOption_validateTimestampNotFuture nowMs _ row row']

/-- The record is accepted, in whichever row, and these are its values. -/
def Carries (cols : ColumnMap) (result : Except String Record) (candle : RawCandle F) : Prop :=
  ∀ row, importRow D chrono nowMs cols row result = .ok candle

theorem importRow_eq_ok {cols : ColumnMap} {row : ℕ} {result : Except String Record}
    {candle : RawCandle F} :
    importRow D chrono nowMs cols row result = .ok candle ↔
      Carries D chrono nowMs cols result candle := by
  refine ⟨fun h row' => ?_, fun h => h row⟩
  rw [← toOption_eq_some, toOption_importRow D chrono nowMs cols row' row, toOption_eq_some]
  exact h

/-- The loop ends when every record is accepted. -/
theorem importRows_eq_ok {cols : ColumnMap} {idx : ℕ} {records : List (Except String Record)}
    {candles : List (RawCandle F)} :
    importRows D chrono nowMs cols idx records = .ok candles ↔
      List.Forall₂ (Carries D chrono nowMs cols) records candles := by
  induction records generalizing idx candles with
  | nil =>
    rw [importRows, List.forall₂_nil_left_iff]
    exact ⟨fun h => (Except.ok.inj h).symm, fun h => by rw [h]⟩
  | cons result records ih =>
    rw [importRows, List.forall₂_cons_left_iff, ← toOption_eq_some]
    simp only [toOption_bind, Option.bind_eq_some_iff, toOption_eq_some, importRow_eq_ok, ih]
    constructor
    · rintro ⟨candle, hcandle, candles', hcandles, heq⟩
      exact ⟨candle, candles', hcandle, hcandles, (Except.ok.inj heq).symm⟩
    · rintro ⟨candle, candles', hcandle, hcandles, rfl⟩
      exact ⟨candle, hcandle, candles', hcandles, rfl⟩

end Carried

/-! ### Sorting -/

section Sorted

variable {F : Type}

theorem sortCandles_perm (candles : List (RawCandle F)) : (sortCandles candles).Perm candles :=
  List.perm_insertionSort _ _

theorem sortCandles_sorted (candles : List (RawCandle F)) :
    (sortCandles candles).Pairwise fun a b => a.ts ≤ b.ts :=
  List.pairwise_insertionSort _ _

/-- Sorted candles are strictly sorted when no two of them have one time. -/
theorem strict_of_sorted {candles : List (RawCandle F)}
    (hsorted : candles.Pairwise fun a b => a.ts ≤ b.ts) :
    candles.Pairwise (fun a b => a.ts < b.ts) ↔ (candles.map (·.ts)).Nodup := by
  rw [List.Nodup, List.pairwise_map]
  constructor
  · exact fun h => h.imp fun hab => hab.ne
  · intro h
    exact (hsorted.and h).imp fun hab => lt_of_le_of_ne hab.1 hab.2

/-- Neighbours are enough. -/
theorem findDuplicate_eq_none {i : ℕ} {candles : List (RawCandle F)}
    (hsorted : candles.Pairwise fun a b => a.ts ≤ b.ts) :
    findDuplicate i candles = none ↔ candles.Pairwise fun a b => a.ts < b.ts := by
  induction candles generalizing i with
  | nil => simp [findDuplicate]
  | cons a candles ih =>
    obtain ⟨hfirst, hrest⟩ := List.pairwise_cons.mp hsorted
    cases candles with
    | nil => simp [findDuplicate]
    | cons b candles =>
      have hab : a.ts ≤ b.ts := hfirst b List.mem_cons_self
      rw [findDuplicate, List.pairwise_cons]
      split_ifs with heq
      · refine ⟨nofun, fun h => ?_⟩
        have := h.1 b List.mem_cons_self
        omega
      · rw [ih hrest]
        refine ⟨fun h => ⟨?_, h⟩, And.right⟩
        intro c hc
        have hbc : b.ts ≤ c.ts := by
          rcases List.mem_cons.mp hc with rfl | hc
          · exact le_rfl
          · exact (List.rel_of_pairwise_cons h hc).le
        omega

/-- Candles of different times are sorted in one way only. -/
theorem sortCandles_eq_of_perm {candles candles' : List (RawCandle F)} (hperm : candles.Perm candles')
    (hnodup : (candles.map (·.ts)).Nodup) : sortCandles candles = sortCandles candles' := by
  have hstrict : ∀ {l : List (RawCandle F)}, candles.Perm l →
      (sortCandles l).Pairwise fun a b => a.ts < b.ts := by
    intro l hl
    rw [strict_of_sorted (sortCandles_sorted l)]
    exact (((sortCandles_perm l).trans hl.symm).map _).nodup_iff.mpr hnodup
  refine List.Perm.eq_of_pairwise ?_ (hstrict (.refl _)) (hstrict hperm)
    ((sortCandles_perm _).trans (hperm.trans (sortCandles_perm _).symm))
  intro a b ha hb hab hba
  omega

/-- The buffer with these candles. -/
def bufferOf (candles : List (RawCandle F)) : CandleBuffer F :=
  .ofRows (candles.map RawCandle.toRow) candles.length

theorem foldl_push (candles : List (RawCandle F)) :
    candles.foldl (fun buffer c => buffer.pushWithSession c.toRow) .new = bufferOf candles := by
  induction candles using List.reverseRecOn with
  | nil => rfl
  | append_singleton candles c ih =>
    rw [List.foldl_append, ih, List.foldl_cons, List.foldl_nil, bufferOf,
      CandleBuffer.pushWithSession_ofRows, bufferOf, List.map_append, List.length_append]
    rfl

theorem buildBuffer_eq_ok {candles : List (RawCandle F)} {buffer : CandleBuffer F} :
    buildBuffer candles = .ok buffer ↔
      candles ≠ [] ∧ (candles.map (·.ts)).Nodup ∧ buffer = bufferOf (sortCandles candles) := by
  have hdup := findDuplicate_eq_none (i := 1) (sortCandles_sorted candles)
  rw [strict_of_sorted (sortCandles_sorted candles),
    ((sortCandles_perm candles).map RawCandle.ts).nodup_iff] at hdup
  rw [buildBuffer]
  rcases candles with _ | ⟨c, candles⟩
  · simp
  rcases hfound : findDuplicate 1 (sortCandles (c :: candles)) with _ | ⟨i, ts⟩
  · simpa [hfound, foldl_push, eq_comm] using fun _ => hdup.mp hfound
  · have hnodup : ¬((c :: candles).map (·.ts)).Nodup := by
      intro hnodup
      rw [hdup.mpr hnodup] at hfound
      cases hfound
    simp only [List.isEmpty_cons, hfound, Bool.false_eq_true, if_false, reduceCtorEq, false_iff]
    exact fun h => hnodup h.2.1

end Sorted

section Outcome

variable {F : Type} [Price F] (D : Type) [Volume D] (chrono : Chrono) (nowMs : ℤ)

/-- What an import needs, and what it makes: every record is accepted, there is one, and no two have one
    time. -/
theorem importCsvFromStr_eq_ok {headers : Except String Record} {records : List (Except String Record)}
    {buffer : CandleBuffer F} :
    importCsvFromStr D chrono nowMs headers records = .ok buffer ↔
      ∃ names cols candles, headers = .ok names ∧
        (detectColumns names : Except (CsvError F) ColumnMap) = .ok cols ∧
        List.Forall₂ (Carries D chrono nowMs cols) records candles ∧ candles ≠ [] ∧
        (candles.map (·.ts)).Nodup ∧ buffer = bufferOf (sortCandles candles) := by
  rw [importCsvFromStr, ← toOption_eq_some]
  simp only [toOption_bind, toOption_mapError, Option.bind_eq_some_iff, toOption_eq_some,
    importRows_eq_ok, buildBuffer_eq_ok]
  constructor
  · rintro ⟨names, hnames, cols, hcols, candles, hcandles, hrest⟩
    exact ⟨names, cols, candles, hnames, hcols, hcandles, hrest⟩
  · rintro ⟨names, cols, candles, hnames, hcols, hcandles, hrest⟩
    exact ⟨names, hnames, cols, hcols, candles, hcandles, hrest⟩

/-- The order of the records makes no difference to it. -/
theorem importCsvFromStr_perm {headers : Except String Record}
    {records records' : List (Except String Record)} {buffer : CandleBuffer F}
    (hperm : records.Perm records') (h : importCsvFromStr D chrono nowMs headers records = .ok buffer) :
    importCsvFromStr D chrono nowMs headers records' = .ok buffer := by
  obtain ⟨names, cols, candles, hnames, hcols, hcandles, hne, hnodup, rfl⟩ :=
    (importCsvFromStr_eq_ok D chrono nowMs).mp h
  obtain ⟨candles', hcandles', hperm'⟩ := List.perm_comp_forall₂ hperm.symm hcandles
  refine (importCsvFromStr_eq_ok D chrono nowMs).mpr
    ⟨names, cols, candles', hnames, hcols, hcandles', ?_, ?_, ?_⟩
  · rintro rfl
    exact hne (List.nil_perm.mp hperm')
  · exact (hperm'.map _).nodup_iff.mpr hnodup
  · rw [sortCandles_eq_of_perm hperm'.symm hnodup]

end Outcome

/-! ### Spellings -/

/-- What `chrono` promises of the three formats, one of which the whole text has to be: the year has a
    digit before the hyphen, a time has colons and a date has none, and the `T` is in one format only. -/
structure Chrono.Reads (chrono : Chrono) : Prop where
  date : ∀ s t, chrono.parseDate s = some t → '-' ∈ s.toList.tail ∧ ':' ∉ s.toList
  dateTime : ∀ s t, chrono.parseDateTime s = some t →
    '-' ∈ s.toList.tail ∧ ':' ∈ s.toList ∧ 'T' ∉ s.toList
  iso : ∀ s t, chrono.parseIso s = some t → '-' ∈ s.toList.tail ∧ ':' ∈ s.toList ∧ 'T' ∈ s.toList

/-- A text that is accepted for an instant. The integers that are documented as milliseconds spell no
    seconds. -/
inductive Spells (chrono : Chrono) : String → ℤ → Prop
  | millis {s n} : Dsl.Expression.parseI64 s.toList = some n → 1000000000000 < n.toInt →
    Spells chrono s n.toInt
  | seconds {s n} : Dsl.Expression.parseI64 s.toList = some n → n.toInt ≤ 1000000000000 →
    Spells chrono s (n.toInt * 1000)
  | date {s t} : chrono.parseDate s = some t → Spells chrono s t
  | dateTime {s t} : chrono.parseDateTime s = some t → Spells chrono s t
  | iso {s t} : chrono.parseIso s = some t → Spells chrono s t

/-- A hyphen in an integer is its sign. -/
theorem not_hyphen_of_parseI64 {cs : List Char} {n : Int64} (h : Dsl.Expression.parseI64 cs = some n) :
    '-' ∉ cs.tail := by
  have hdigits : ∀ {digits : List Char} {f : ℤ → ℤ} {z : ℤ},
      ((Protocol.parseDigits digits).bind fun k => some (k : ℤ)).map f = some z → '-' ∉ digits := by
    intro digits f z hz hmem
    obtain ⟨z', hz', -⟩ := Option.map_eq_some_iff.mp hz
    obtain ⟨k, hk, -⟩ := Option.bind_eq_some_iff.mp hz'
    exact absurd ((Dsl.Expression.parseDigits_eq_some.mp hk).1.2 '-' hmem) (by decide)
  rw [Dsl.Expression.parseI64] at h
  split at h
  · rename_i z hz
    unfold Protocol.parseInt at hz
    split at hz
    · exact hdigits hz
    · exact hdigits hz
    · exact fun hmem => hdigits hz (List.mem_of_mem_tail hmem)
  · cases h

/-- No format is tried before the one of the cell that has an answer for it. -/
theorem Spells.readTimestamp_eq {chrono : Chrono} (hreads : chrono.Reads) {s : String} {t : ℤ}
    (h : Spells chrono s t) (hlate : 1000000000000 < t) : readTimestamp chrono s = some t := by
  have hepoch : '-' ∈ s.toList.tail → parseEpoch s = none := by
    intro hmem
    rw [parseEpoch]
    rcases hn : Dsl.Expression.parseI64 s.toList with _ | n
    · rfl
    · exact absurd hmem (not_hyphen_of_parseI64 hn)
  have hdate : ':' ∈ s.toList → chrono.parseDate s = none := by
    intro hmem
    rw [Option.eq_none_iff_forall_ne_some]
    exact fun t' h' => (hreads.date s t' h').2 hmem
  have hdateTime : 'T' ∈ s.toList → chrono.parseDateTime s = none := by
    intro hmem
    rw [Option.eq_none_iff_forall_ne_some]
    exact fun t' h' => (hreads.dateTime s t' h').2.2 hmem
  cases h with
  | millis hn hlarge => simp [readTimestamp, parseEpoch, hn, hlarge]
  | @seconds n hn hsmall =>
    have hseconds : 1000000000 < n.toInt := by omega
    simp [readTimestamp, parseEpoch, hn, hsmall.not_gt, hseconds]
  | date h => simp [readTimestamp, hepoch (hreads.date s t h).1, h]
  | dateTime h =>
    obtain ⟨hhyphen, hcolon, -⟩ := hreads.dateTime s t h
    simp [readTimestamp, hepoch hhyphen, hdate hcolon, h]
  | iso h =>
    obtain ⟨hhyphen, hcolon, hT⟩ := hreads.iso s t h
    simp [readTimestamp, hepoch hhyphen, hdate hcolon, hdateTime hT, h]

/-! ### The date column is its own -/

section Respelled

variable {F : Type}

theorem toOption_orMissing (name : String) (col : Option ℕ) :
    (orMissing name col : Except (CsvError F) ℕ).toOption = col := by
  cases col <;> rfl

theorem findCol_eq_some {fields candidates : List String} {i : ℕ}
    (h : findCol fields candidates = some i) : ∃ f ∈ candidates, fields[i]? = some f := by
  obtain ⟨hi, hany, -⟩ := List.findIdx?_eq_some_iff_getElem.mp h
  obtain ⟨f, hf, heq⟩ := List.any_eq_true.mp hany
  exact ⟨f, hf, by rw [List.getElem?_eq_getElem hi, beq_iff_eq.mp heq]⟩

theorem findCloseCol_eq_some {fields : List String} {i : ℕ} (h : findCloseCol fields = some i) :
    ∃ f ∈ ["close", "c"], fields[i]? = some f := by
  obtain ⟨hi, hname, -⟩ := List.findIdx?_eq_some_iff_getElem.mp h
  refine ⟨fields[i], ?_, List.getElem?_eq_getElem hi⟩
  simpa using (Bool.and_eq_true_iff.mp hname).1

theorem ne_of_disjoint {fields names names' : List String} {i j : ℕ}
    (hi : ∃ f ∈ names, fields[i]? = some f) (hj : ∃ f ∈ names', fields[j]? = some f)
    (hdisjoint : ∀ f ∈ names, f ∉ names') : j ≠ i := by
  rintro rfl
  obtain ⟨f, hf, heq⟩ := hi
  obtain ⟨f', hf', heq'⟩ := hj
  rw [heq, Option.some.injEq] at heq'
  exact hdisjoint f hf (heq' ▸ hf')

structure ColumnMap.DateApart (cols : ColumnMap) : Prop where
  o : cols.o ≠ cols.date
  h : cols.h ≠ cols.date
  l : cols.l ≠ cols.date
  c : cols.c ≠ cols.date
  volume : cols.volume ≠ cols.date

/-- No name of the date column is a name of another one. -/
theorem dateApart_of_detectColumns {names : Record} {cols : ColumnMap}
    (h : (detectColumns names : Except (CsvError F) ColumnMap) = .ok cols) : cols.DateApart := by
  rw [← toOption_eq_some] at h
  simp only [detectColumns, toOption_bind, toOption_orMissing, Option.bind_eq_some_iff] at h
  obtain ⟨date, hdate, o, ho, h', hh, l, hl, c, hc, volume, hvolume, heq⟩ := h
  obtain rfl := Option.some.inj heq
  have hapart : ∀ {names' : List String} {j : ℕ}, (∃ f ∈ names', _) → (∀ f ∈ _, f ∉ names') → j ≠ date :=
    ne_of_disjoint (findCol_eq_some hdate)
  exact ⟨hapart (findCol_eq_some ho) (by decide), hapart (findCol_eq_some hh) (by decide),
    hapart (findCol_eq_some hl) (by decide), hapart (findCloseCol_eq_some hc) (by decide),
    hapart (findCol_eq_some hvolume) (by decide)⟩

variable [Price F] (D : Type) [Volume D] (chrono : Chrono) (nowMs : ℤ)

omit [Price F] in
theorem get_set_of_ne {record : Record} {date idx : ℕ} (h : idx ≠ date) (s' : String) (row : ℕ)
    (name : String) :
    (get (record.set date s') row idx name : Except (CsvError F) String) = get record row idx name := by
  rw [get, get, List.getElem?_set_ne h.symm]

/-- A cell with another spelling of the instant makes the same row. -/
theorem parseRow_set {chrono : Chrono} {record : Record} {cols : ColumnMap}
    (hcols : cols.DateApart) {s s' : String} (hs : record[cols.date]? = some s)
    (heq : readTimestamp chrono (trim s') = readTimestamp chrono (trim s))
    (hsome : (readTimestamp chrono (trim s)).isSome) (row : ℕ) :
    (parseRow D chrono (record.set cols.date s') cols row : Except (CsvError F) _) =
      parseRow D chrono record cols row := by
  have hlt := (List.getElem?_eq_some_iff.mp hs).1
  have hget : (get (record.set cols.date s') row cols.date "date/timestamp" :
      Except (CsvError F) String) = .ok s' := by
    rw [get, List.getElem?_set_self hlt]
  have hget' : (get record row cols.date "date/timestamp" : Except (CsvError F) String) = .ok s := by
    rw [get, hs]
  have hts : (parseTimestamp chrono s' row : Except (CsvError F) ℤ) = parseTimestamp chrono s row := by
    obtain ⟨t, ht⟩ := Option.isSome_iff_exists.mp hsome
    rw [parseTimestamp, parseTimestamp, heq, ht]
  simp only [parseRow, hget, hget', ok_bind, hts, get_set_of_ne hcols.o, get_set_of_ne hcols.h,
    get_set_of_ne hcols.l, get_set_of_ne hcols.c, get_set_of_ne hcols.volume]

theorem importRows_set {cols : ColumnMap} {records : List (Except String Record)} {i : ℕ}
    {result result' : Except String Record} (hi : records[i]? = some result)
    (h : ∀ row, (importRow D chrono nowMs cols row result' : Except (CsvError F) _) =
      importRow D chrono nowMs cols row result) (idx : ℕ) :
    (importRows D chrono nowMs cols idx (records.set i result') : Except (CsvError F) _) =
      importRows D chrono nowMs cols idx records := by
  induction records generalizing i idx with
  | nil => rfl
  | cons first records ih =>
    cases i with
    | zero =>
      obtain rfl : first = result := by simpa using hi
      rw [List.set_cons_zero, importRows, importRows, h]
    | succ i =>
      rw [List.getElem?_cons_succ] at hi
      rw [List.set_cons_succ, importRows, importRows, ih hi]

end Respelled

/-! ### Order and spelling -/

section Insensitive

variable {F : Type} [Price F] (D : Type) [Volume D] (chrono : Chrono) (nowMs : ℤ)

/-- What a cell is read as. -/
def cell {α : Type} (record : Record) (idx : ℕ) (read : String → Option α) : Option α :=
  record[idx]?.bind fun s => read (trim s)

/-- The candle has the values of the record. -/
structure RawCandle.Of (cols : ColumnMap) (record : Record) (candle : RawCandle F) : Prop where
  ts : cell record cols.date (readTimestamp chrono) = some candle.ts
  o : cell record cols.o Price.parse = some candle.o
  h : cell record cols.h Price.parse = some candle.h
  l : cell record cols.l Price.parse = some candle.l
  c : cell record cols.c Price.parse = some candle.c
  volume : cell record cols.volume (fun s => (parseU32 s).or (parseWhole D s)) = some candle.volume

theorem of_parseRow {record : Record} {cols : ColumnMap} {row : ℕ} {candle : RawCandle F}
    (h : parseRow D chrono record cols row = .ok candle) : candle.Of D chrono cols record := by
  rw [← toOption_eq_some] at h
  simp only [parseRow, toOption_bind, toOption_get, toOption_parseTimestamp, toOption_parseF32,
    toOption_parseVolume, Option.bind_eq_some_iff] at h
  obtain ⟨date, hdate, ts, hts, o, ho, o', ho', h, hh, h', hh', l, hl, l', hl', c, hc, c', hc', v, hv,
    v', hv', heq⟩ := h
  obtain rfl := Option.some.inj heq
  constructor <;> simp [cell, *]

theorem Carries.of {cols : ColumnMap} {result : Except String Record} {candle : RawCandle F}
    (h : Carries D chrono nowMs cols result candle) :
    ∃ record, result = .ok record ∧ candle.Of D chrono cols record := by
  cases result with
  | error e => exact nomatch h 0
  | ok record =>
    obtain ⟨_, hrecord, hrest⟩ := Calendar.bind_ok (h 0)
    obtain rfl := Except.ok.inj hrecord
    obtain ⟨raw, hraw, hrest⟩ := Calendar.bind_ok hrest
    obtain ⟨_, -, hrest⟩ := Calendar.bind_ok hrest
    obtain ⟨_, -, hrest⟩ := Calendar.bind_ok hrest
    obtain rfl := Except.ok.inj hrest
    exact ⟨record, rfl, of_parseRow D chrono hraw⟩

/-- Every order of the records has the same buffer or none. It is strictly sorted and has the values of
    each record once. A date that is spelled in another way makes no difference, not even to an error. -/
theorem importCsvFromStr_insensitive (hreads : chrono.Reads) (headers : Except String Record)
    (records : List (Except String Record)) :
    (∀ records', records.Perm records' → ∀ buffer : CandleBuffer F,
      importCsvFromStr D chrono nowMs headers records = .ok buffer ↔
        importCsvFromStr D chrono nowMs headers records' = .ok buffer) ∧
    (∀ buffer : CandleBuffer F, importCsvFromStr D chrono nowMs headers records = .ok buffer →
      buffer.timestamps.Pairwise (· < ·) ∧
      ∃ names cols records' candles, headers = .ok names ∧
        (detectColumns names : Except (CsvError F) ColumnMap) = .ok cols ∧ records'.Perm records ∧
        List.Forall₂ (fun result candle => ∃ record, result = .ok record ∧
          candle.Of D chrono cols record) records' candles ∧
        buffer = bufferOf candles) ∧
    ∀ names cols i record s s' t, headers = .ok names →
      (detectColumns names : Except (CsvError F) ColumnMap) = .ok cols →
      records[i]? = some (.ok record) → record[cols.date]? = some s →
      Spells chrono (trim s) t → Spells chrono (trim s') t → 1000000000000 < t →
      (importCsvFromStr D chrono nowMs headers (records.set i (.ok (record.set cols.date s'))) :
          Except (CsvError F) _) =
        importCsvFromStr D chrono nowMs headers records := by
  refine ⟨fun records' hperm buffer => ?_, fun buffer h => ?_, ?_⟩
  · exact ⟨importCsvFromStr_perm D chrono nowMs hperm, importCsvFromStr_perm D chrono nowMs hperm.symm⟩
  · obtain ⟨names, cols, candles, hnames, hcols, hcandles, -, hnodup, rfl⟩ :=
      (importCsvFromStr_eq_ok D chrono nowMs).mp h
    have hsorted : Relation.Comp List.Perm (List.Forall₂ (Carries D chrono nowMs cols)) records
        (sortCandles candles) := by
      rw [← List.forall₂_comp_perm_eq_perm_comp_forall₂]
      exact ⟨candles, hcandles, (sortCandles_perm candles).symm⟩
    obtain ⟨records', hperm, hrecords'⟩ := hsorted
    refine ⟨?_, names, cols, records', _, hnames, hcols, hperm.symm, ?_, rfl⟩
    · have hstrict := (strict_of_sorted (sortCandles_sorted candles)).mpr
        (((sortCandles_perm candles).map _).nodup_iff.mpr hnodup)
      simpa [bufferOf, CandleBuffer.ofRows, RawCandle.toRow, List.pairwise_map] using hstrict
    · exact hrecords'.imp fun result candle h => h.of D chrono nowMs
  · intro names cols i record s s' t hnames hcols hi hs hspells hspells' hlate
    have heq := hspells.readTimestamp_eq hreads hlate
    have heq' := hspells'.readTimestamp_eq hreads hlate
    have hrow : ∀ row, (importRow D chrono nowMs cols row (.ok (record.set cols.date s')) :
        Except (CsvError F) _) = importRow D chrono nowMs cols row (.ok record) := by
      intro row
      have hset := parseRow_set (F := F) D (dateApart_of_detectColumns hcols) hs (heq'.trans heq.symm)
        (by rw [heq]; rfl) row
      simp only [importRow, Except.mapError, ok_bind, hset]
    subst hnames
    simp only [importCsvFromStr, Except.mapError, ok_bind, hcols,
      importRows_set D chrono nowMs hi hrow]

end Insensitive

/-- `chrono` on the spellings of one day. -/
def secondOfJanuary : Chrono where
  parseDate s := if s = "2024-01-02" then some 1704153600000 else none
  parseDateTime s := if s = "2024-01-02 00:00:00" then some 1704153600000 else none
  parseIso s := if s = "2024-01-02T00:00:00" then some 1704153600000 else none

theorem secondOfJanuary_reads : secondOfJanuary.Reads where
  date s t h := by
    obtain ⟨rfl, -⟩ := Option.ite_none_right_eq_some.mp h
    decide
  dateTime s t h := by
    obtain ⟨rfl, -⟩ := Option.ite_none_right_eq_some.mp h
    decide
  iso s t h := by
    obtain ⟨rfl, -⟩ := Option.ite_none_right_eq_some.mp h
    decide

theorem importCsvFromStr_insensitive_twoRows :
    let run := fun rows : List Record => (importCsvFromStr ℚ secondOfJanuary 1704326400000
      (.ok ["Date", "Open", "High", "Low", "Close", "Volume"]) (rows.map .ok) :
        Except (CsvError ℚ) (CandleBuffer ℚ))
    let first := ["2024-01-02", "185.33", "186.35", "184.01", "185.64", "42500000"]
    let second := ["1704240000", "184.22", "185.88", "183.43", "184.25", "38700000.0"]
    (run [second, first]).toOption.map (·.timestamps) = some [1704153600000, 1704240000000] ∧
      (run [second, first]).toOption = (run [first, second]).toOption ∧
      run [second, first.set 0 "2024-01-02T00:00:00"] = run [second, first] := by
  intro run first second
  have hall := importCsvFromStr_insensitive (F := ℚ) ℚ secondOfJanuary 1704326400000
    secondOfJanuary_reads (.ok ["Date", "Open", "High", "Low", "Close", "Volume"])
    [.ok second, .ok first]
  refine ⟨by decide +kernel, Option.ext fun buffer => ?_, ?_⟩
  · rw [toOption_eq_some, toOption_eq_some]
    exact hall.1 _ (.swap _ _ _) buffer
  · exact hall.2.2 _ ⟨0, 1, 2, 3, 4, 5⟩ 1 first "2024-01-02" "2024-01-02T00:00:00" 1704153600000 rfl
      (toOption_eq_some.mp (by decide +kernel)) rfl rfl (.date (by decide +kernel))
      (.iso (by decide +kernel)) (by decide)

end Midas.Feed
