import HandOfMidas.Candles.Binary
import HandOfMidas.Candles.Sorted

/-! What is written to a candle file is read back from it, in whichever way it is read. A range of time
    is read by two searches, whose bounds cross when the range is the wrong way round and a candle
    lies inside: then the slice panics. -/

namespace Midas.Candles

namespace CandleBuffer

variable {F : Type}

/-- The rows of a buffer. -/
def rows (b : CandleBuffer F) : List (Row F) :=
  (b.timestamps.zip (b.opens.zip (b.highs.zip (b.lows.zip (b.closes.zip
    (b.volumes.zip b.sessions)))))).map
    fun (ts, o, h, l, c, v, session) => ⟨ts, o, h, l, c, v, session⟩

/-- A buffer whose columns have one length is the buffer of its rows. -/
theorem ofRows_rows {b : CandleBuffer F} (h : b.Sorted) : ofRows b.rows b.version = b := by
  obtain ⟨ts, os, hs, ls, cs, vs, ss, version⟩ := b
  have ho := h.opens
  have hh := h.highs
  have hl := h.lows
  have hc := h.closes
  have hv := h.volumes
  have hse := h.sessions
  dsimp only at ho hh hl hc hv hse
  clear h
  induction ts generalizing os hs ls cs vs ss with
  | nil =>
    rw [List.length_nil, List.length_eq_zero_iff] at ho hh hl hc hv hse
    subst ho hh hl hc hv hse
    rfl
  | cons t ts ih =>
    obtain ⟨o, os, rfl⟩ := List.exists_cons_of_length_eq_add_one ho
    obtain ⟨x, hs, rfl⟩ := List.exists_cons_of_length_eq_add_one hh
    obtain ⟨l, ls, rfl⟩ := List.exists_cons_of_length_eq_add_one hl
    obtain ⟨c, cs, rfl⟩ := List.exists_cons_of_length_eq_add_one hc
    obtain ⟨v, vs, rfl⟩ := List.exists_cons_of_length_eq_add_one hv
    obtain ⟨s, ss, rfl⟩ := List.exists_cons_of_length_eq_add_one hse
    simp only [List.length_cons, Nat.add_right_cancel_iff] at ho hh hl hc hv hse
    have hrest := ih os hs ls cs vs ss ho hh hl hc hv hse
    simp only [ofRows, rows, mk.injEq, List.zip_cons_cons, List.map_cons, List.cons.injEq, true_and,
      and_true] at hrest ⊢
    exact hrest

/-- What the types of the columns hold: timestamps of 64 bits, and no more rows than a file in memory
    can have. -/
structure Typed (b : CandleBuffer F) : Prop where
  timestamps : ∀ t ∈ b.timestamps, -2 ^ 63 ≤ t ∧ t < 2 ^ 63
  size : HEADER_SIZE + b.timestamps.length * RECORD_SIZE < 2 ^ 63

/-- The same timestamps, prices and volumes in the same order. -/
structure SameColumns (b b' : CandleBuffer F) : Prop where
  timestamps : b'.timestamps = b.timestamps
  opens : b'.opens = b.opens
  highs : b'.highs = b.highs
  lows : b'.lows = b.lows
  closes : b'.closes = b.closes
  volumes : b'.volumes = b.volumes

end CandleBuffer

open CandleBuffer

/-! ### Rows and records -/

/-- A row as it is read: the session is not kept. -/
def Row.regular (x : Row F32Bits) : Row F32Bits := { x with session := .regular }

/-- The record that is written for a row. -/
def recordOf (x : Row F32Bits) : CandleRecord := ⟨.ofInt x.ts, x.o, x.h, x.l, x.c, x.v, 0⟩

/-- The row that is pushed for a record. -/
def CandleRecord.row (r : CandleRecord) : Row F32Bits :=
  ⟨r.timestamp.toInt, r.opens, r.high, r.low, r.closes, r.volume, .regular⟩

theorem toInt_timestamp {x : Row F32Bits} (h : -2 ^ 63 ≤ x.ts ∧ x.ts < 2 ^ 63) :
    (recordOf x).timestamp.toInt = x.ts :=
  Int64.toInt_ofInt_of_le h.1 h.2

theorem row_recordOf {x : Row F32Bits} (h : -2 ^ 63 ≤ x.ts ∧ x.ts < 2 ^ 63) :
    (recordOf x).row = x.regular := by
  unfold CandleRecord.row
  rw [toInt_timestamp h]
  rfl

theorem foldl_pushRecord (records : List CandleRecord) (rows : List (Row F32Bits)) (version : ℕ) :
    records.foldl pushRecord (ofRows rows version) =
      ofRows (rows ++ records.map CandleRecord.row) (version + records.length) := by
  induction records generalizing rows version with
  | nil => simp
  | cons r records ih =>
    have hpush : pushRecord (ofRows rows version) r = ofRows (rows ++ [r.row]) (version + 1) :=
      pushWithSession_ofRows rows version r.row
    rw [List.foldl_cons, hpush, ih, List.append_assoc, List.map_cons, List.length_cons]
    congr 1
    omega

theorem sameColumns_regular (rows : List (Row F32Bits)) (version version' : ℕ) :
    SameColumns (ofRows rows version) (ofRows (rows.map Row.regular) version') := by
  constructor <;> exact List.map_map

theorem recordAt_ofRows (rows : List (Row F32Bits)) (version i : ℕ) :
    recordAt (ofRows rows version) i = rows[i]?.map recordOf := by
  unfold recordAt ofRows
  simp only [List.getElem?_map]
  cases rows[i]? <;> rfl

theorem mapM_recordAt (rows : List (Row F32Bits)) (version : ℕ) :
    (List.range rows.length).mapM (recordAt (ofRows rows version)) = some (rows.map recordOf) := by
  have hall : (List.range rows.length).mapM (recordAt (ofRows rows version)) =
      (List.range rows.length).mapM fun i => rows[i]?.map recordOf :=
    congrArg (fun f => List.mapM f (List.range rows.length)) (funext (recordAt_ofRows rows version))
  rw [hall]
  have h : ∀ (l : List (Row F32Bits)) (is : List ℕ), is.map (fun i => rows[i]?) = l.map some →
      is.mapM (fun i => rows[i]?.map recordOf) = some (l.map recordOf) := by
    intro l is
    induction is generalizing l with
    | nil =>
      intro hmap
      obtain rfl : l = [] := by simpa using hmap.symm
      rfl
    | cons i is ih =>
      intro hmap
      cases l with
      | nil => simp at hmap
      | cons x l =>
        rw [List.map_cons, List.map_cons] at hmap
        obtain ⟨hi, hrest⟩ := List.cons.inj hmap
        rw [List.mapM_cons, hi, ih l hrest]
        rfl
  refine h rows _ (List.ext_getElem (by simp) fun i hi _ => ?_)
  simp

/-! ### The file -/

theorem take_put_header (h : MidasHeader) : (MidasHeader.layout.put h).take 0x40 =
    MidasHeader.covered.put (h.magic, h.version, h.flags, h.symbolId, h.timeframeSecs, h.startTs,
      h.endTs,
      h.candleCount, h.recordSize, h.lodLevels, h.lodOffset, h.writeSeq) :=
  Layout.take_put_pair MidasHeader.covered _ _

/-- The checksum does not cover itself, so a header that is given its checksum is valid. -/
theorem validate_sealed (h : MidasHeader) (hmagic : h.magic = MIDAS_MAGIC)
    (hversion : h.version = MIDAS_VERSION) :
    validateHeader { h with checksum := crc32c ((MidasHeader.layout.put h).take 0x40) } = .ok () := by
  unfold validateHeader
  rw [take_put_header, take_put_header]
  simp [hmagic, hversion]

theorem validate_buildHeader (symbolId timeframeSecs : UInt32) (symbol : String)
    (candles : CandleBuffer F32Bits) :
    validateHeader (buildHeader symbolId timeframeSecs symbol candles) = .ok () :=
  validate_sealed _ rfl rfl

/-- The file of a header and records. -/
def fileOf (header : MidasHeader) (records : List CandleRecord) : Bytes :=
  MidasHeader.layout.put header ++ CandleRecord.layout.putAll records

theorem length_fileOf (header : MidasHeader) (records : List CandleRecord) :
    (fileOf header records).length = HEADER_SIZE + records.length * RECORD_SIZE := by
  rw [fileOf, List.length_append, MidasHeader.layout.length_put, Layout.length_putAll]
  rfl

theorem drop_fileOf (header : MidasHeader) (records : List CandleRecord) :
    (fileOf header records).drop HEADER_SIZE = CandleRecord.layout.putAll records :=
  List.drop_left' (MidasHeader.layout.length_put header)

/-- The header announces these records, and is valid. -/
structure Announces (header : MidasHeader) (records : List CandleRecord) : Prop where
  valid : validateHeader header = .ok ()
  count : header.candleCount.toNat = records.length
  size : header.recordSize.toNat = RECORD_SIZE
  small : HEADER_SIZE + records.length * RECORD_SIZE < 2 ^ 63

variable {header : MidasHeader} {records : List CandleRecord}

theorem Announces.usize_body (h : Announces header records) :
    usize (records.length * RECORD_SIZE) = records.length * RECORD_SIZE := by
  have := h.small
  exact usize_of_lt (by omega)

theorem checkFile_fileOf (h : Announces header records) :
    checkFile (fileOf header records) = .ok (header, records.length * RECORD_SIZE) := by
  have hextract : (fileOf header records).extract 0 HEADER_SIZE = MidasHeader.layout.put header := by
    rw [List.extract_eq_take_drop, List.drop_zero, Nat.sub_zero]
    exact List.take_left' (MidasHeader.layout.length_put header)
  have hlen := length_fileOf header records
  unfold checkFile
  rw [if_neg (by omega), hextract, MidasHeader.layout.get_put]
  simp only [h.valid, h.count, h.size, h.usize_body]
  rw [if_neg (by omega)]

theorem slice_fileOf (header : MidasHeader) (records : List CandleRecord) :
    slice (fileOf header records) HEADER_SIZE (HEADER_SIZE + records.length * RECORD_SIZE) =
      some (CandleRecord.layout.putAll records) := by
  have hlen := length_fileOf header records
  unfold slice
  rw [if_pos ⟨Nat.le_add_right _ _, hlen.ge⟩, List.extract_eq_take_drop, drop_fileOf]
  refine congrArg some (List.take_of_length_le ?_)
  rw [Layout.length_putAll, CandleRecord.width_layout]
  omega

theorem castSlice_putAll (records : List CandleRecord) :
    castSlice (CandleRecord.layout.putAll records) = some records := by
  have hlen : (CandleRecord.layout.putAll records).length = records.length * RECORD_SIZE :=
    Layout.length_putAll _ _
  unfold castSlice
  rw [hlen, if_pos (Nat.mul_mod_left _ _), Nat.mul_div_cancel _ (by decide), Layout.getAll_putAll]

theorem withCapacity_of_le {n : ℕ} (h : n * 8 < 2 ^ 63) : withCapacity n = some .new := if_pos h

theorem Announces.capacity (h : Announces header records) :
    withCapacity records.length = some .new := by
  have hsmall := h.small
  unfold RECORD_SIZE at hsmall
  exact withCapacity_of_le (by omega)

theorem readMidasFile_fileOf (h : Announces header records) :
    readMidasFile (fileOf header records) = some (.ok (records.foldl pushRecord .new)) := by
  unfold readMidasFile
  rw [checkFile_fileOf h]
  simp only [slice_fileOf, castSlice_putAll, h.count, h.capacity, Option.bind_eq_bind,
    Option.bind_some]

theorem openFile_fileOf (h : Announces header records) :
    MmapCandleFile.openFile (fileOf header records) =
      .ok ⟨fileOf header records, header, records.length⟩ := by
  unfold MmapCandleFile.openFile
  rw [checkFile_fileOf h]
  simp only [h.count]

theorem records_fileOf (h : Announces header records) :
    MmapCandleFile.records ⟨fileOf header records, header, records.length⟩ = some records := by
  have hsize : usize (HEADER_SIZE + records.length * RECORD_SIZE) =
      HEADER_SIZE + records.length * RECORD_SIZE := usize_of_lt (by have := h.small; omega)
  unfold MmapCandleFile.records
  simp only [hsize, slice_fileOf, Option.bind_eq_bind, Option.bind_some, castSlice_putAll]

theorem record_fileOf (h : Announces header records) {i : ℕ} {r : CandleRecord}
    (hr : records[i]? = some r) :
    MmapCandleFile.record ⟨fileOf header records, header, records.length⟩ i = some (.ok r) := by
  obtain ⟨hi, -⟩ := List.getElem?_eq_some_iff.mp hr
  have hsmall := h.small
  have hoff : i * RECORD_SIZE + RECORD_SIZE ≤ records.length * RECORD_SIZE := by
    rw [← Nat.succ_mul]
    exact Nat.mul_le_mul_right _ hi
  have hlen := length_fileOf header records
  have hdrop : (fileOf header records).drop (HEADER_SIZE + i * RECORD_SIZE) =
      (CandleRecord.layout.putAll records).drop (i * RECORD_SIZE) := by
    rw [← List.drop_drop, drop_fileOf]
  have hone : ((CandleRecord.layout.putAll records).drop (i * RECORD_SIZE)).take RECORD_SIZE =
      CandleRecord.layout.put r :=
    Layout.take_drop_putAll CandleRecord.layout hr
  unfold MmapCandleFile.record
  dsimp only
  rw [if_neg (not_le.mpr hi), usize_of_lt (by omega), usize_of_lt (by omega)]
  unfold slice
  rw [if_pos ⟨Nat.le_add_right _ _, by omega⟩, List.extract_eq_take_drop, Nat.add_sub_cancel_left,
    hdrop,
    hone]
  simp only [Option.bind_eq_bind, Option.bind_some, CandleRecord.layout.get_put]

theorem writeMidasFile_eq (symbolId timeframeSecs : UInt32) (symbol : String)
    {b : CandleBuffer F32Bits} (h : b.Sorted) : writeMidasFile symbolId timeframeSecs symbol b =
      some (fileOf (buildHeader symbolId timeframeSecs symbol b) (b.rows.map recordOf)) := by
  have hb := ofRows_rows h
  have hlen : b.timestamps.length = b.rows.length := by
    rw [← List.length_map Row.ts]
    exact congrArg (fun b => b.timestamps.length) hb.symm
  have hmapM := mapM_recordAt b.rows b.version
  rw [hb] at hmapM
  unfold writeMidasFile
  simp only [hlen, hmapM, Option.bind_eq_bind, Option.bind_some]
  rfl

/-! ### Ranges of time -/

/-- The rows with a timestamp from `startTs` to `endTs`. -/
def rowsWithin (rows : List (Row F32Bits)) (startTs endTs : Int64) : List (Row F32Bits) :=
  rows.filter fun x => decide (startTs.toInt ≤ x.ts) && decide (x.ts ≤ endTs.toInt)

/-- A range of time is read exactly when no candle lies between its bounds the wrong way round, and
    then it is the rows within. -/
theorem sliceByTime_iff {rows : List (Row F32Bits)} (hts : ∀ x ∈ rows, -2 ^ 63 ≤ x.ts ∧ x.ts < 2 ^ 63)
    (hasc : Upsert.Ascending Row.ts rows) {file : MmapCandleFile}
    (hcount : file.recordCount = rows.length) (hrecords : file.records = some (rows.map recordOf))
    (hcapacity : rows.length * 8 < 2 ^ 63) (startTs endTs : Int64) :
    ((∀ x ∈ rows, x.ts < startTs.toInt → x.ts ≤ endTs.toInt) → file.sliceByTime startTs endTs =
      some (ofRows ((rowsWithin rows startTs endTs).map Row.regular)
        (rowsWithin rows startTs endTs).length)) ∧
    ((¬ ∀ x ∈ rows, x.ts < startTs.toInt → x.ts ≤ endTs.toInt) →
      file.sliceByTime startTs endTs = none) := by
  have hlt : ∀ x ∈ rows, ((recordOf x).timestamp < startTs ↔ x.ts < startTs.toInt) := by
    intro x hx
    rw [Int64.lt_iff_toInt_lt, toInt_timestamp (hts x hx)]
  have hle : ∀ x ∈ rows, ((recordOf x).timestamp ≤ endTs ↔ x.ts ≤ endTs.toInt) := by
    intro x hx
    rw [Int64.le_iff_toInt_le, toInt_timestamp (hts x hx)]
  have horder : rows.Pairwise fun x y => x.ts < y.ts := List.pairwise_map.mp hasc
  have hlo : (rows.map recordOf).Pairwise fun x y =>
      decide (y.timestamp < startTs) = true → decide (x.timestamp < startTs) = true := by
    refine List.pairwise_map.mpr (horder.imp_of_mem fun hx hy hxy h => ?_)
    rw [decide_eq_true_iff] at h ⊢
    exact (hlt _ hx).mpr (hxy.trans ((hlt _ hy).mp h))
  have hhi : (rows.map recordOf).Pairwise fun x y =>
      decide (y.timestamp ≤ endTs) = true → decide (x.timestamp ≤ endTs) = true := by
    refine List.pairwise_map.mpr (horder.imp_of_mem fun hx hy hxy h => ?_)
    rw [decide_eq_true_iff] at h ⊢
    exact (hle _ hx).mpr (hxy.le.trans ((hle _ hy).mp h))
  have hbounds := Search.partitionPoint_le_iff hlo hhi
  have hsame : (∀ r ∈ rows.map recordOf, decide (r.timestamp < startTs) = true →
      decide (r.timestamp ≤ endTs) = true) ↔ ∀ x ∈ rows, x.ts < startTs.toInt → x.ts ≤ endTs.toInt := by
    rw [List.forall_mem_map]
    refine forall₂_congr fun x hx => ?_
    rw [decide_eq_true_iff, decide_eq_true_iff, hlt x hx, hle x hx]
  have hend : Search.partitionPoint (fun r => decide (r.timestamp ≤ endTs)) (rows.map recordOf) ≤
      (rows.map recordOf).length := (List.takeWhile_prefix _).length_le
  have hroom : ∀ lo, withCapacity (Search.partitionPoint (fun r => decide (r.timestamp ≤ endTs))
      (rows.map recordOf) - lo) = some .new := by
    intro lo
    rw [List.length_map] at hend
    exact withCapacity_of_le (by omega)
  unfold MmapCandleFile.sliceByTime MmapCandleFile.sliceByTimeWith
  rw [hcount, hrecords]
  constructor
  · intro h
    split
    · rename_i hnil
      obtain rfl := List.length_eq_zero_iff.mp hnil
      rfl
    · have hrange := Search.extract_partitionPoint hlo hhi (hsame.mpr h)
      have hwithin : (rows.map recordOf).filter (fun r => !decide (r.timestamp < startTs) &&
          decide (r.timestamp ≤ endTs)) = (rowsWithin rows startTs endTs).map recordOf := by
        rw [List.filter_map]
        refine congrArg (List.map recordOf) (List.filter_congr fun x hx => ?_)
        simp only [Function.comp, hlt x hx, hle x hx, ← decide_not, not_lt]
      simp only [hroom, Option.bind_eq_bind, Option.bind_some, slice]
      rw [if_pos ⟨hbounds.mpr (hsame.mpr h), hend⟩, hrange, hwithin]
      have hrows : ((rowsWithin rows startTs endTs).map recordOf).map CandleRecord.row =
          (rowsWithin rows startTs endTs).map Row.regular := by
        rw [List.map_map]
        exact List.map_congr_left fun x hx => row_recordOf (hts x (List.mem_of_mem_filter hx))
      have hpush := foldl_pushRecord ((rowsWithin rows startTs endTs).map recordOf) [] 0
      rw [List.nil_append, hrows, List.length_map, Nat.zero_add] at hpush
      exact congrArg some hpush
  · intro h
    have hcross := fun hb => h (hsame.mp (hbounds.mp hb))
    rw [if_neg]
    · simp only [hroom, Option.bind_eq_bind, Option.bind_some, slice]
      rw [if_neg fun hs => hcross hs.1]
      rfl
    · intro hnil
      obtain rfl := List.length_eq_zero_iff.mp hnil
      exact h fun x hx => absurd hx List.not_mem_nil

/-! ### The round trip -/

/-- The file is read back as what was written, by every reader. -/
structure ReadsBack (b : CandleBuffer F32Bits) (data : Bytes) (file : MmapCandleFile) : Prop where
  opened : MmapCandleFile.openFile data = .ok file
  read : ∃ b', readMidasFile data = some (.ok b') ∧ SameColumns b b'
  converted : ∃ b', file.toCandleBuffer = some b' ∧ SameColumns b b'
  record : ∀ i x, b.rows[i]? = some x → ∃ r, file.record i = some (.ok r) ∧ r.row = x.regular
  beyond : ∀ i, b.rows.length ≤ i →
    file.record i = some (.error (.indexOutOfBounds i b.rows.length))

/-- The range of time is read as the rows within it. -/
def Slices (b : CandleBuffer F32Bits) (file : MmapCandleFile) (startTs endTs : Int64) : Prop :=
  ∃ b', file.sliceByTime startTs endTs = some b' ∧
    SameColumns (ofRows (rowsWithin b.rows startTs endTs) b.version) b'

/-- What is written for a buffer is read back, and `slice_by_time` yields the rows of a range exactly
    when no timestamp lies strictly between the end and the start of the range. -/
theorem round_trips_and_slices_iff (symbolId timeframeSecs : UInt32) (symbol : String)
    (b : CandleBuffer F32Bits) (hsorted : b.Sorted) (htyped : b.Typed) :
    ∃ data file, writeMidasFile symbolId timeframeSecs symbol b = some data ∧ ReadsBack b data file ∧
      ∀ startTs endTs, Slices b file startTs endTs ↔
        ¬ ∃ t ∈ b.timestamps, endTs.toInt < t ∧ t < startTs.toInt := by
  have hb := ofRows_rows hsorted
  have hcolumn : b.timestamps = b.rows.map Row.ts := congrArg CandleBuffer.timestamps hb.symm
  have hlen : b.timestamps.length = b.rows.length := by rw [hcolumn, List.length_map]
  have hts : ∀ x ∈ b.rows, -2 ^ 63 ≤ x.ts ∧ x.ts < 2 ^ 63 := by
    intro x hx
    exact htyped.timestamps x.ts (hcolumn ▸ List.mem_map_of_mem hx)
  have hasc : Upsert.Ascending Row.ts b.rows := by
    refine (sorted_ofRows_iff b.rows b.version).mp ?_
    rw [hb]
    exact hsorted
  have hmany : (b.rows.map recordOf).length = b.rows.length := List.length_map _
  have hsmall : HEADER_SIZE + b.rows.length * RECORD_SIZE < 2 ^ 63 := hlen ▸ htyped.size
  have hannounces : Announces (buildHeader symbolId timeframeSecs symbol b) (b.rows.map recordOf) := by
    refine ⟨validate_buildHeader _ _ _ _, ?_, rfl, by rwa [hmany]⟩
    have hcount : (UInt64.ofNat b.timestamps.length).toNat = b.timestamps.length := by
      refine UInt64.toNat_ofNat_of_lt' ?_
      simp only [HEADER_SIZE, RECORD_SIZE, UInt64.size] at hsmall ⊢
      omega
    rw [hmany, ← hlen]
    exact hcount
  have hpushed : SameColumns b ((b.rows.map recordOf).foldl pushRecord .new) := by
    have hrows : (b.rows.map recordOf).map CandleRecord.row = b.rows.map Row.regular := by
      rw [List.map_map]
      exact List.map_congr_left fun x hx => row_recordOf (hts x hx)
    have hpush := foldl_pushRecord (b.rows.map recordOf) [] 0
    rw [List.nil_append, hrows] at hpush
    have hsame := sameColumns_regular b.rows b.version (0 + (b.rows.map recordOf).length)
    rw [hb, ← hpush] at hsame
    exact hsame
  have hrecords := records_fileOf hannounces
  rw [hmany] at hrecords
  have hopen := openFile_fileOf hannounces
  rw [hmany] at hopen
  refine ⟨_, _, writeMidasFile_eq _ _ _ hsorted,
    ⟨hopen, ⟨_, readMidasFile_fileOf hannounces, hpushed⟩, ?_, ?_, ?_⟩, ?_⟩
  · refine ⟨_, ?_, hpushed⟩
    have hroom : withCapacity b.rows.length = some .new := hmany ▸ hannounces.capacity
    simp only [MmapCandleFile.toCandleBuffer, hroom, hrecords, Option.bind_eq_bind, Option.bind_some]
  · intro i x hx
    have hr : (b.rows.map recordOf)[i]? = some (recordOf x) := by
      rw [List.getElem?_map, hx, Option.map_some]
    have hrecord := record_fileOf hannounces hr
    rw [hmany] at hrecord
    exact ⟨_, hrecord, row_recordOf (hts x (List.mem_of_getElem? hx))⟩
  · intro i hi
    unfold MmapCandleFile.record
    exact if_pos hi
  · intro startTs endTs
    have hcapacity : b.rows.length * 8 < 2 ^ 63 := by
      unfold RECORD_SIZE at hsmall
      omega
    obtain ⟨hread, hpanic⟩ := sliceByTime_iff hts hasc rfl hrecords hcapacity startTs endTs
    have hcond : (¬ ∃ t ∈ b.timestamps, endTs.toInt < t ∧ t < startTs.toInt) ↔
        ∀ x ∈ b.rows, x.ts < startTs.toInt → x.ts ≤ endTs.toInt := by
      rw [hcolumn]
      simp only [List.mem_map, exists_exists_and_eq_and, not_exists, not_and, not_lt]
      exact forall₂_congr fun x _ => ⟨fun h hlt => not_lt.mp fun hgt => absurd hlt (not_lt.mpr (h hgt)),
        fun h hgt => not_lt.mp fun hlt => absurd (h hlt) (not_le.mpr hgt)⟩
    rw [hcond]
    constructor
    · rintro ⟨b', hb', -⟩
      by_contra hcross
      rw [hpanic hcross] at hb'
      cases hb'
    · exact fun h => ⟨_, hread h, sameColumns_regular _ _ _⟩

/-- Three candles, a millisecond apart. -/
def threeCandles : CandleBuffer F32Bits :=
  ofRows [⟨1, 0, 0, 0, 0, 10, .regular⟩, ⟨2, 0, 0, 0, 0, 20, .regular⟩, ⟨3, 0, 0, 0, 0, 30, .regular⟩] 3

theorem sorted_threeCandles : threeCandles.Sorted :=
  (sorted_ofRows_iff _ _).mpr (by unfold Upsert.Ascending; decide)

theorem typed_threeCandles : threeCandles.Typed := ⟨by decide, by decide⟩

theorem round_trips_threeCandles :
    ∃ data file, writeMidasFile 1 60 "AAPL" threeCandles = some data ∧
      ReadsBack threeCandles data file ∧
      ∀ startTs endTs, Slices threeCandles file startTs endTs ↔
        ¬ ∃ t ∈ threeCandles.timestamps, endTs.toInt < t ∧ t < startTs.toInt :=
  round_trips_and_slices_iff 1 60 "AAPL" threeCandles sorted_threeCandles typed_threeCandles

/-- The range from 3 to 1 panics, for the candle at 2 lies between its bounds. -/
theorem crossed_bounds_panic :
    ¬ ∀ (symbolId timeframeSecs : UInt32) (symbol : String) (b : CandleBuffer F32Bits),
      b.Sorted → b.Typed → ∀ data file startTs endTs,
        writeMidasFile symbolId timeframeSecs symbol b = some data →
          MmapCandleFile.openFile data = .ok file → Slices b file startTs endTs := by
  intro h
  have hannounces : Announces (buildHeader 1 60 "AAPL" threeCandles)
      (threeCandles.rows.map recordOf) := ⟨validate_buildHeader _ _ _ _, rfl, rfl, by decide⟩
  obtain ⟨b', hslice, -⟩ := h 1 60 "AAPL" threeCandles sorted_threeCandles typed_threeCandles _ _ 3 1
    (writeMidasFile_eq 1 60 "AAPL" sorted_threeCandles) (openFile_fileOf hannounces)
  have hts : ∀ x ∈ threeCandles.rows, -2 ^ 63 ≤ x.ts ∧ x.ts < 2 ^ 63 := by decide
  have hasc : Upsert.Ascending Row.ts threeCandles.rows := by unfold Upsert.Ascending; decide
  have hpanic := (sliceByTime_iff hts hasc rfl (records_fileOf hannounces) (by decide) 3 1).2 (by decide)
  rw [hslice] at hpanic
  cases hpanic

end Midas.Candles
