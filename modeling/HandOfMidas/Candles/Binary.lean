import HandOfMidas.Candles.CandleBuffer
import HandOfMidas.Lib.Layout

/-! The binary file format of candles (`binary/mod.rs` of `midas-data`): a header of 128 bytes, then a
    record of 32 bytes for each candle. A file is the row of its bytes here, whose reads and writes do
    not fail; a price is its 32 bits. Where the code panics the result is `none`. -/

namespace Midas.Candles

abbrev Bytes := List UInt8

/-- `f32`, by its bits. -/
abbrev F32Bits := UInt32

/-- `usize` arithmetic. -/
def usize (n : ℕ) : ℕ := n % 2 ^ 64

theorem usize_of_lt {n : ℕ} (h : n < 2 ^ 64) : usize n = n := Nat.mod_eq_of_lt h

/-- `&data[lo..hi]`. -/
def slice {α : Type} (data : List α) (lo hi : ℕ) : Option (List α) :=
  if lo ≤ hi ∧ hi ≤ data.length then some (data.extract lo hi) else none

def MIDAS_MAGIC : UInt32 := 0x4D494441

def MIDAS_VERSION : UInt16 := 1

def HEADER_SIZE : ℕ := 128

def RECORD_SIZE : ℕ := 32

/-- `BinaryError`, but for the errors of the file system. -/
inductive BinaryError where
  | fileTooSmall (size : ℕ)
  | invalidMagic (got : UInt32)
  | unsupportedVersion (got : UInt16)
  | checksumMismatch (stored computed : UInt32)
  | truncatedBody (expected actual : ℕ)
  | indexOutOfBounds (index count : ℕ)
  deriving DecidableEq

/-! ### Header and records -/

structure MidasHeader where
  magic : UInt32
  version : UInt16
  flags : UInt16
  symbolId : UInt32
  timeframeSecs : UInt32
  startTs : Int64
  endTs : Int64
  candleCount : UInt64
  recordSize : UInt32
  lodLevels : UInt32
  lodOffset : UInt64
  writeSeq : UInt64
  checksum : UInt32
  reserved : Vector UInt8 28
  symbolAscii : Vector UInt8 32
  deriving DecidableEq

structure CandleRecord where
  timestamp : Int64
  opens : F32Bits
  high : F32Bits
  low : F32Bits
  closes : F32Bits
  volume : UInt32
  padding : UInt32
  deriving DecidableEq

namespace MidasHeader

open Layout

/-- The fields that the checksum covers. -/
def covered : Layout (UInt32 × UInt16 × UInt16 × UInt32 × UInt32 × Int64 × Int64 × UInt64 × UInt32 ×
    UInt32 × UInt64 × UInt64) :=
  u32.pair <| u16.pair <| u16.pair <| u32.pair <| u32.pair <| i64.pair <| i64.pair <| u64.pair <|
    u32.pair <| u32.pair <| u64.pair u64

def layout : Layout MidasHeader :=
  (covered.pair (u32.pair ((bytes 28).pair (bytes 32)))).via
    (fun h => ((h.magic, h.version, h.flags, h.symbolId, h.timeframeSecs, h.startTs, h.endTs,
      h.candleCount, h.recordSize, h.lodLevels, h.lodOffset, h.writeSeq),
      h.checksum, h.reserved, h.symbolAscii))
    (fun ((magic, version, flags, symbolId, timeframeSecs, startTs, endTs, candleCount, recordSize,
      lodLevels, lodOffset, writeSeq), checksum, reserved, symbolAscii) =>
      ⟨magic, version, flags, symbolId, timeframeSecs, startTs, endTs, candleCount, recordSize,
        lodLevels, lodOffset, writeSeq, checksum, reserved, symbolAscii⟩)
    (fun _ => rfl)

end MidasHeader

namespace CandleRecord

open Layout

def layout : Layout CandleRecord :=
  (i64.pair <| u32.pair <| u32.pair <| u32.pair <| u32.pair <| u32.pair u32).via
    (fun r => (r.timestamp, r.opens, r.high, r.low, r.closes, r.volume, r.padding))
    (fun (timestamp, opens, high, low, closes, volume, padding) =>
      ⟨timestamp, opens, high, low, closes, volume, padding⟩)
    (fun _ => rfl)

theorem width_layout : layout.width = RECORD_SIZE := rfl

end CandleRecord

/-- `bytemuck::cast_slice` to records. -/
def castSlice (body : Bytes) : Option (List CandleRecord) :=
  if body.length % RECORD_SIZE = 0
    then some (CandleRecord.layout.getAll (body.length / RECORD_SIZE) body)
  else none

/-- One bit of the checksum. -/
def crcBit (crc : UInt32) : UInt32 :=
  if crc &&& 1 ≠ 0 then (crc >>> 1) ^^^ 0x82F63B78 else crc >>> 1

/-- `crc32c`. -/
def crc32c (data : Bytes) : UInt32 :=
  ~~~(data.foldl (fun crc byte => crcBit^[8] (crc ^^^ byte.toUInt32)) 0xFFFFFFFF)

def validateHeader (header : MidasHeader) : Except BinaryError Unit :=
  if header.magic ≠ MIDAS_MAGIC then .error (.invalidMagic header.magic)
  else if MIDAS_VERSION < header.version then .error (.unsupportedVersion header.version)
  else
    let computed := crc32c ((MidasHeader.layout.put header).take 0x40)
    if header.checksum ≠ computed then .error (.checksumMismatch header.checksum computed)
    else .ok ()

def buildHeader (symbolId timeframeSecs : UInt32) (symbol : String) (candles : CandleBuffer F32Bits) :
    MidasHeader :=
  let symbolBytes := symbol.toUTF8.toList
  let copyLen := min symbolBytes.length 31
  let header : MidasHeader :=
    { magic := MIDAS_MAGIC
      version := MIDAS_VERSION
      flags := 0
      symbolId := symbolId
      timeframeSecs := timeframeSecs
      startTs := .ofInt (candles.timestamps.head?.getD 0)
      endTs := .ofInt (candles.timestamps.getLast?.getD 0)
      candleCount := .ofNat candles.timestamps.length
      recordSize := .ofNat RECORD_SIZE
      lodLevels := 0
      lodOffset := 0
      writeSeq := 1
      checksum := 0
      reserved := .replicate 28 0
      symbolAscii := .ofFn fun i => if i < copyLen then symbolBytes.getD i 0 else 0 }
  { header with checksum := crc32c ((MidasHeader.layout.put header).take 0x40) }

/-! ### Writing -/

/-- The record of row `i`. -/
def recordAt (candles : CandleBuffer F32Bits) (i : ℕ) : Option CandleRecord := do
  let timestamp ← candles.timestamps[i]?
  let opens ← candles.opens[i]?
  let high ← candles.highs[i]?
  let low ← candles.lows[i]?
  let closes ← candles.closes[i]?
  let volume ← candles.volumes[i]?
  some ⟨.ofInt timestamp, opens, high, low, closes, volume, 0⟩

/-- `write_midas_file`: the file it leaves. -/
def writeMidasFile (symbolId timeframeSecs : UInt32) (symbol : String)
    (candles : CandleBuffer F32Bits) :
    Option Bytes := do
  let header := buildHeader symbolId timeframeSecs symbol candles
  let records ← (List.range candles.timestamps.length).mapM (recordAt candles)
  some (MidasHeader.layout.put header ++ CandleRecord.layout.putAll records)

/-! ### Reading -/

/-- What both readers check: the header, and the size of the body that it announces. -/
def checkFile (data : Bytes) : Except BinaryError (MidasHeader × ℕ) :=
  if data.length < HEADER_SIZE then .error (.fileTooSmall data.length)
  else
    let header := MidasHeader.layout.get (data.extract 0 HEADER_SIZE)
    match validateHeader header with
    | .error e => .error e
    | .ok () =>
      let expectedBody := usize (header.candleCount.toNat * header.recordSize.toNat)
      let actualBody := data.length - HEADER_SIZE
      if actualBody < expectedBody then .error (.truncatedBody expectedBody actualBody)
      else .ok (header, expectedBody)

/-- `buf.push` of a record. -/
def pushRecord (buf : CandleBuffer F32Bits) (r : CandleRecord) : CandleBuffer F32Bits :=
  buf.pushWithSession ⟨r.timestamp.toInt, r.opens, r.high, r.low, r.closes, r.volume, .regular⟩

/-- `CandleBuffer::with_capacity`. No allocation takes more than `isize::MAX` bytes, and a timestamp,
    the widest entry of a row, takes eight. -/
def withCapacity (n : ℕ) : Option (CandleBuffer F32Bits) :=
  if n * 8 < 2 ^ 63 then some .new else none

/-- `read_midas_file`. -/
def readMidasFile (data : Bytes) : Option (Except BinaryError (CandleBuffer F32Bits)) :=
  match checkFile data with
  | .error e => some (.error e)
  | .ok (header, expectedBody) => do
    let body ← slice data HEADER_SIZE (HEADER_SIZE + expectedBody)
    let records ← castSlice body
    let buf ← withCapacity header.candleCount.toNat
    some (.ok (records.foldl pushRecord buf))

structure MmapCandleFile where
  mmap : Bytes
  header : MidasHeader
  recordCount : ℕ

namespace MmapCandleFile

/-- `open`. -/
def openFile (mmap : Bytes) : Except BinaryError MmapCandleFile :=
  match checkFile mmap with
  | .error e => .error e
  | .ok (header, _) => .ok ⟨mmap, header, header.candleCount.toNat⟩

/-- The records of the body. -/
def records (f : MmapCandleFile) : Option (List CandleRecord) := do
  let body ← slice f.mmap HEADER_SIZE (usize (HEADER_SIZE + f.recordCount * RECORD_SIZE))
  castSlice body

def record (f : MmapCandleFile) (idx : ℕ) : Option (Except BinaryError CandleRecord) :=
  if f.recordCount ≤ idx then some (.error (.indexOutOfBounds idx f.recordCount))
  else do
    let offset := usize (HEADER_SIZE + idx * RECORD_SIZE)
    let bytes ← slice f.mmap offset (usize (offset + RECORD_SIZE))
    some (.ok (CandleRecord.layout.get bytes))

def toCandleBuffer (f : MmapCandleFile) : Option (CandleBuffer F32Bits) := do
  let buf ← withCapacity f.recordCount
  let records ← f.records
  some (records.foldl pushRecord buf)

/-- `slice_by_time`, with a search for the end of the prefix that a predicate holds of. The bounds of
    the range are found one without the other. -/
def sliceByTimeWith (partitionPoint : (CandleRecord → Bool) → List CandleRecord → ℕ)
    (f : MmapCandleFile) (startTs endTs : Int64) : Option (CandleBuffer F32Bits) :=
  if f.recordCount = 0 then some .new
  else do
    let records ← f.records
    let lo := partitionPoint (fun r => decide (r.timestamp < startTs)) records
    let hi := partitionPoint (fun r => decide (r.timestamp ≤ endTs)) records
    let buf ← withCapacity (hi - lo)
    let range ← slice records lo hi
    some (range.foldl pushRecord buf)

/-- `slice_by_time`. -/
def sliceByTime : MmapCandleFile → Int64 → Int64 → Option (CandleBuffer F32Bits) :=
  sliceByTimeWith Search.partitionPoint

end MmapCandleFile

end Midas.Candles
