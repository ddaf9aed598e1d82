import HandOfMidas.Lib.Layout
import HandOfMidas.Lib.Records

/-! The log of wire bytes (`session/pcap.rs`): a header, then records one after another. Files are rows
    of bytes here, whose writes do not fail. -/

namespace Midas.Session

abbrev Bytes := List UInt8

inductive ErrorKind where | unexpectedEof | invalidData | invalidInput
  deriving DecidableEq

/-- `io::Error`. -/
structure IoError where
  kind : ErrorKind
  message : String
  deriving DecidableEq

/-- `b"TWSC"`. -/
def PCAP_MAGIC : Bytes := [0x54, 0x57, 0x53, 0x43]

def PCAP_VERSION : UInt16 := 1

def HEADER_BYTES : ℕ := 4 + 2 + 2 + 16

def RECORD_HEADER_BYTES : ℕ := 8 + 1 + 1 + 4

/-- `start_ts_nanos` is an `i128`, by its bits. -/
structure TwsPcapHeader where
  magic : Bytes
  version : UInt16
  serverVersionNeg : UInt16
  startTsNanos : BitVec 128
  deriving DecidableEq

namespace TwsPcapHeader

def new (serverVersionNeg : UInt16) (startTsNanos : BitVec 128) : TwsPcapHeader :=
  ⟨PCAP_MAGIC, PCAP_VERSION, serverVersionNeg, startTsNanos⟩

def encode (h : TwsPcapHeader) : Bytes :=
  h.magic ++ leBytes 2 h.version.toNat ++ leBytes 2 h.serverVersionNeg.toNat ++
    leBytes 16 h.startTsNanos.toNat

def decode (buf : Bytes) : Except IoError TwsPcapHeader :=
  let magic := buf.extract 0 4
  if magic ≠ PCAP_MAGIC then
    .error ⟨.invalidData, s!"bad pcap magic: {magic}, expected {PCAP_MAGIC}"⟩
  else
    .ok
      { magic
        version := .ofNat (ofLeBytes (buf.extract 4 6))
        serverVersionNeg := .ofNat (ofLeBytes (buf.extract 6 8))
        startTsNanos := .ofNat 128 (ofLeBytes (buf.extract 8 24)) }

end TwsPcapHeader

inductive Direction where | clientToSim | simToClient
  deriving DecidableEq

def Direction.toU8 : Direction → UInt8
  | .clientToSim => 0
  | .simToClient => 1

def Direction.fromU8 (b : UInt8) : Except IoError Direction :=
  if b = 0 then .ok .clientToSim
  else if b = 1 then .ok .simToClient
  else .error ⟨.invalidData, s!"invalid direction byte: {b}"⟩

structure TwsPcapRecord where
  tsNanosSinceStart : UInt64
  direction : Direction
  flags : UInt8
  payload : Bytes
  deriving DecidableEq

def TwsPcapRecord.new (tsNanosSinceStart : UInt64) (direction : Direction) (payload : Bytes) :
    TwsPcapRecord :=
  ⟨tsNanosSinceStart, direction, 0, payload⟩

/-! ### The writer -/

structure TwsPcapWriter where
  inner : Bytes
  recordsWritten : ℕ
  bytesWritten : ℕ

namespace TwsPcapWriter

def withWriter (inner : Bytes) (header : TwsPcapHeader) : TwsPcapWriter :=
  ⟨inner ++ header.encode, 0, 0⟩

/-- The `head` that stands before a payload of `len` bytes. -/
def head (record : TwsPcapRecord) (len : ℕ) : Bytes :=
  leBytes 8 record.tsNanosSinceStart.toNat ++ [record.direction.toU8] ++ [record.flags] ++ leBytes 4 len

def writeRecord (w : TwsPcapWriter) (record : TwsPcapRecord) : Except IoError TwsPcapWriter :=
  if record.payload.length < 2 ^ 32 then
    .ok
      { inner := w.inner ++ head record record.payload.length ++ record.payload
        recordsWritten := w.recordsWritten + 1
        bytesWritten := w.bytesWritten + record.payload.length }
  else .error ⟨.invalidInput, "record payload exceeds u32::MAX bytes"⟩

/-- Write a header and records into an empty file. -/
def capture (header : TwsPcapHeader) (records : List TwsPcapRecord) : Except IoError TwsPcapWriter :=
  records.foldlM writeRecord (withWriter [] header)

end TwsPcapWriter

/-! ### The reader -/

/-- `read_exact`: the bytes, and those after them. -/
def readExact (inner : Bytes) (n : ℕ) : Except IoError (Bytes × Bytes) :=
  if n ≤ inner.length then .ok (inner.take n, inner.drop n)
  else .error ⟨.unexpectedEof, "failed to fill whole buffer"⟩

/-- A payload of no bytes is not read for. -/
def readPayload (inner : Bytes) (len : ℕ) : Except IoError (Bytes × Bytes) :=
  if len > 0 then readExact inner len else .ok ([], inner)

/-- `read_record`. -/
def readRecord (inner : Bytes) : Except IoError (Option (TwsPcapRecord × Bytes)) :=
  match readExact inner RECORD_HEADER_BYTES with
  | .error e =>
    -- the end is taken for a clean one also after some bytes of the head
    if e.kind = .unexpectedEof then .ok none else .error e
  | .ok (head, inner) => do
    let direction ← Direction.fromU8 (head.getD 8 0)
    let (payload, inner) ← readPayload inner (ofLeBytes (head.extract 10 14))
    .ok (some (⟨.ofNat (ofLeBytes (head.extract 0 8)), direction, head.getD 9 0, payload⟩, inner))

theorem readExact_append (buf rest : Bytes) : readExact (buf ++ rest) buf.length = .ok (buf, rest) := by
  unfold readExact
  rw [if_pos (by simp), List.take_left, List.drop_left]

theorem readExact_of_lt {inner : Bytes} {n : ℕ} (h : inner.length < n) :
    readExact inner n = .error ⟨.unexpectedEof, "failed to fill whole buffer"⟩ :=
  if_neg (not_le.mpr h)

theorem readExact_eq_ok {inner buf rest : Bytes} {n : ℕ} (h : readExact inner n = .ok (buf, rest)) :
    inner = buf ++ rest ∧ buf.length = n := by
  unfold readExact at h
  split at h
  · rename_i hle
    obtain ⟨rfl, rfl⟩ := Prod.mk.inj (Except.ok.inj h)
    exact ⟨(List.take_append_drop n inner).symm, List.length_take_of_le hle⟩
  · cases h

theorem readPayload_eq (inner : Bytes) (len : ℕ) : readPayload inner len = readExact inner len := by
  unfold readPayload
  split
  · rfl
  · rename_i hzero
    obtain rfl : len = 0 := by omega
    rfl

/-- A record that is read was there as a head and a payload. -/
theorem readRecord_eq_some {inner rest : Bytes} {record : TwsPcapRecord}
    (h : readRecord inner = .ok (some (record, rest))) :
    ∃ head, head.length = RECORD_HEADER_BYTES ∧ inner = head ++ (record.payload ++ rest) := by
  unfold readRecord at h
  cases hhead : readExact inner RECORD_HEADER_BYTES with
  | error e =>
    rw [hhead] at h
    dsimp only at h
    split at h <;> cases h
  | ok read =>
    obtain ⟨head, inner'⟩ := read
    obtain ⟨rfl, hlen⟩ := readExact_eq_ok hhead
    rw [hhead] at h
    dsimp only at h
    cases hd : Direction.fromU8 (head.getD 8 0) with
    | error e =>
      rw [hd] at h
      cases h
    | ok direction =>
      cases hpayload : readPayload inner' (ofLeBytes (head.extract 10 14)) with
      | error e =>
        rw [hd, hpayload] at h
        cases h
      | ok read =>
        rw [hd, hpayload] at h
        obtain ⟨payload, rest'⟩ := read
        obtain ⟨rfl, rfl⟩ := Prod.mk.inj (Option.some.inj (Except.ok.inj h))
        rw [readPayload_eq] at hpayload
        exact ⟨head, hlen, by rw [(readExact_eq_ok hpayload).1]⟩

theorem readRecord_shorter {inner rest : Bytes} {record : TwsPcapRecord}
    (h : readRecord inner = .ok (some (record, rest))) : rest.length < inner.length := by
  obtain ⟨head, hlen, rfl⟩ := readRecord_eq_some h
  rw [List.length_append, List.length_append, hlen, RECORD_HEADER_BYTES]
  omega

def recordReader : RecordReader IoError UInt8 TwsPcapRecord := ⟨readRecord, readRecord_shorter⟩

structure TwsPcapReader where
  inner : Bytes
  header : TwsPcapHeader
  deriving DecidableEq

namespace TwsPcapReader

def withReader (inner : Bytes) : Except IoError TwsPcapReader := do
  let (buf, inner) ← readExact inner HEADER_BYTES
  let header ← TwsPcapHeader.decode buf
  if header.version ≠ PCAP_VERSION then
    throw ⟨.invalidData, s!"unsupported pcap version {header.version} (expected {PCAP_VERSION})"⟩
  else pure ⟨inner, header⟩

def readAll (r : TwsPcapReader) : Except IoError (List TwsPcapRecord) := recordReader.drain r.inner

end TwsPcapReader

/-! ### The header -/

theorem length_encode_new (serverVersionNeg : UInt16) (startTsNanos : BitVec 128) :
    (TwsPcapHeader.new serverVersionNeg startTsNanos).encode.length = HEADER_BYTES := by
  simp [TwsPcapHeader.encode, TwsPcapHeader.new, PCAP_MAGIC, HEADER_BYTES]

theorem decode_header_encode (serverVersionNeg : UInt16) (startTsNanos : BitVec 128) :
    TwsPcapHeader.decode (TwsPcapHeader.new serverVersionNeg startTsNanos).encode =
      .ok (.new serverVersionNeg startTsNanos) := by
  have hversion : ofLeBytes (leBytes 2 serverVersionNeg.toNat) = serverVersionNeg.toNat :=
    ofLeBytes_of_lt serverVersionNeg.toNat_lt
  have hstart : ofLeBytes (leBytes 16 startTsNanos.toNat) = startTsNanos.toNat :=
    ofLeBytes_of_lt startTsNanos.isLt
  let buf := (TwsPcapHeader.new serverVersionNeg startTsNanos).encode
  have hmagic : buf.extract 0 4 = PCAP_MAGIC := rfl
  have hcurrent : buf.extract 4 6 = leBytes 2 PCAP_VERSION.toNat := rfl
  have hneg : buf.extract 6 8 = leBytes 2 serverVersionNeg.toNat := rfl
  have hts : buf.extract 8 24 = leBytes 16 startTsNanos.toNat := rfl
  have hone : ofLeBytes (leBytes 2 PCAP_VERSION.toNat) = PCAP_VERSION.toNat := rfl
  unfold TwsPcapHeader.decode
  rw [if_neg (not_not.mpr hmagic), hmagic, hcurrent, hneg, hts, hone, hversion, hstart,
    UInt16.ofNat_toNat,
    UInt16.ofNat_toNat, BitVec.ofNat_toNat, BitVec.setWidth_eq]
  rfl

/-! ### One record -/

/-- What is written of a record. -/
def TwsPcapRecord.encode (record : TwsPcapRecord) : Bytes :=
  TwsPcapWriter.head record record.payload.length ++ record.payload

theorem length_head (record : TwsPcapRecord) (len : ℕ) :
    (TwsPcapWriter.head record len).length = RECORD_HEADER_BYTES := by
  simp [TwsPcapWriter.head, RECORD_HEADER_BYTES]

theorem encode_ne_nil (record : TwsPcapRecord) : record.encode ≠ [] := by
  intro h
  have hlen := congrArg List.length h
  rw [TwsPcapRecord.encode, List.length_append, length_head, RECORD_HEADER_BYTES,
    List.length_nil] at hlen
  omega

theorem fromU8_toU8 (d : Direction) : Direction.fromU8 d.toU8 = .ok d := by
  cases d <;> rfl

/-- After the head of a record its payload is read. -/
theorem readRecord_head (record : TwsPcapRecord) {len : ℕ} (h : len < 2 ^ 32) (inner : Bytes) :
    readRecord (TwsPcapWriter.head record len ++ inner) =
      (readExact inner len).map fun read => some ({ record with payload := read.1 }, read.2) := by
  have hhead : readExact (TwsPcapWriter.head record len ++ inner) RECORD_HEADER_BYTES =
      .ok (TwsPcapWriter.head record len, inner) := by
    rw [← length_head record len, readExact_append]
  have hts : (TwsPcapWriter.head record len).extract 0 8 =
    leBytes 8 record.tsNanosSinceStart.toNat := rfl
  have hdirection : (TwsPcapWriter.head record len).getD 8 0 = record.direction.toU8 := rfl
  have hflags : (TwsPcapWriter.head record len).getD 9 0 = record.flags := rfl
  have hlen : (TwsPcapWriter.head record len).extract 10 14 = leBytes 4 len := rfl
  have hback : ofLeBytes (leBytes 8 record.tsNanosSinceStart.toNat) = record.tsNanosSinceStart.toNat :=
    ofLeBytes_of_lt record.tsNanosSinceStart.toNat_lt
  unfold readRecord
  rw [hhead]
  dsimp only
  rw [hts, hdirection, hflags, hlen, hback, ofLeBytes_of_lt h, fromU8_toU8, UInt64.ofNat_toNat,
    readPayload_eq]
  cases readExact inner len <;> rfl

theorem readRecord_encode {record : TwsPcapRecord} (h : record.payload.length < 2 ^ 32) (rest : Bytes) :
    readRecord (record.encode ++ rest) = .ok (some (record, rest)) := by
  rw [TwsPcapRecord.encode, List.append_assoc, readRecord_head record h, readExact_append]
  rfl

/-- Less than a head is taken for the end. -/
theorem readRecord_of_lt {inner : Bytes} (h : inner.length < RECORD_HEADER_BYTES) :
    readRecord inner = .ok none := by
  unfold readRecord
  rw [readExact_of_lt h]
  rfl

/-- A head whose payload is not all there is an error. -/
theorem readRecord_of_part {record : TwsPcapRecord} (hlen : record.payload.length < 2 ^ 32)
    {part : Bytes}
    (hpart : part <+: record.encode) (hlt : part.length < record.encode.length)
    (hge : RECORD_HEADER_BYTES ≤ part.length) :
    readRecord part = .error ⟨.unexpectedEof, "failed to fill whole buffer"⟩ := by
  have hhead : TwsPcapWriter.head record record.payload.length <+: part :=
    List.prefix_of_prefix_length_le (List.prefix_append _ _) hpart (by rwa [length_head])
  obtain ⟨inner, rfl⟩ := hhead
  have hinner : inner.length < record.payload.length := by
    rw [TwsPcapRecord.encode, List.length_append, List.length_append] at hlt
    omega
  rw [readRecord_head record hlen, readExact_of_lt hinner]
  rfl

theorem writeRecord_eq {record : TwsPcapRecord} (h : record.payload.length < 2 ^ 32)
    (w : TwsPcapWriter) :
    w.writeRecord record = .ok ⟨w.inner ++ record.encode, w.recordsWritten + 1,
      w.bytesWritten + record.payload.length⟩ := by
  unfold TwsPcapWriter.writeRecord TwsPcapRecord.encode
  rw [if_pos h, List.append_assoc]

/-! ### Whole files -/

/-- The bytes of a file with these records. -/
def fileOf (header : TwsPcapHeader) (records : List TwsPcapRecord) : Bytes :=
  header.encode ++ records.flatMap TwsPcapRecord.encode

theorem foldlM_writeRecord {records : List TwsPcapRecord} (h : ∀ r ∈ records, r.payload.length < 2 ^ 32)
    (w : TwsPcapWriter) : records.foldlM TwsPcapWriter.writeRecord w =
      .ok
        { inner := w.inner ++ records.flatMap TwsPcapRecord.encode
          recordsWritten := w.recordsWritten + records.length
          bytesWritten := w.bytesWritten + (records.map (·.payload.length)).sum } := by
  induction records generalizing w with
  | nil => simp; rfl
  | cons r records ih =>
    rw [List.foldlM_cons, writeRecord_eq (h r List.mem_cons_self)]
    refine (ih (fun r' hr' => h r' (List.mem_cons_of_mem r hr')) _).trans ?_
    simp [Nat.add_assoc, Nat.add_comm 1]

theorem capture_eq (header : TwsPcapHeader) {records : List TwsPcapRecord}
    (h : ∀ r ∈ records, r.payload.length < 2 ^ 32) : ∃ w, TwsPcapWriter.capture header records = .ok w ∧
      w.inner = fileOf header records := by
  refine ⟨_, foldlM_writeRecord h _, ?_⟩
  rw [TwsPcapWriter.withWriter, List.nil_append, fileOf]

/-- Behind the header, the reader is at the first record. -/
theorem withReader_new (serverVersionNeg : UInt16) (startTsNanos : BitVec 128) (body : Bytes) :
    TwsPcapReader.withReader ((TwsPcapHeader.new serverVersionNeg startTsNanos).encode ++ body) =
      .ok ⟨body, .new serverVersionNeg startTsNanos⟩ := by
  unfold TwsPcapReader.withReader
  rw [← length_encode_new serverVersionNeg startTsNanos, readExact_append]
  dsimp only [bind, Except.bind]
  rw [decode_header_encode]
  rfl

theorem reads_encode {record : TwsPcapRecord} (h : record.payload.length < 2 ^ 32) :
    recordReader.Reads TwsPcapRecord.encode record :=
  readRecord_encode h

/-- A file is read up to the cut, and there it ends or fails. -/
theorem drain_cut {records done : List TwsPcapRecord} {body part : Bytes}
    (h : ∀ r ∈ records, r.payload.length < 2 ^ 32)
    (hcut : Cut TwsPcapRecord.encode records body done part) :
    recordReader.drain body = if part.length < RECORD_HEADER_BYTES then .ok done
      else .error ⟨.unexpectedEof, "failed to fill whole buffer"⟩ := by
  rw [hcut.eq,
    RecordReader.drain_flatMap_append fun r hr => reads_encode (h r (hcut.initial.subset hr))]
  split
  · rename_i hlt
    rw [RecordReader.drain_of_none (readRecord_of_lt hlt), Except.map, List.append_nil]
  · rename_i hge
    have hne : part ≠ [] := by
      rintro rfl
      exact hge (by decide)
    obtain ⟨r, hr, hpart, hlt⟩ := hcut.next hne
    have hlen : r.payload.length < 2 ^ 32 := h r (hr.subset (by simp))
    rw [RecordReader.drain_of_error (readRecord_of_part hlen hpart hlt (not_lt.mp hge))]
    rfl

variable (header : TwsPcapHeader) (records : List TwsPcapRecord)

/-- The whole records of the cut file `p` are read, or an error if there is a piece of another one. -/
structure DetectsCut (p : Bytes) : Prop where
  complete : ∀ done, done <+: records → p = fileOf header done →
    ∃ r, TwsPcapReader.withReader p = .ok r ∧ r.header = header ∧ r.readAll = .ok done
  torn : (∀ done, done <+: records → p ≠ fileOf header done) →
    ∃ r e, TwsPcapReader.withReader p = .ok r ∧ r.header = header ∧ r.readAll = .error e

/-- The cut is in the head of a record. -/
def CutInHead (p : Bytes) : Prop :=
  ∃ done r part, done ++ [r] <+: records ∧ p = fileOf header done ++ part ∧ part <+: r.encode ∧
    0 < part.length ∧ part.length < RECORD_HEADER_BYTES

variable {header records}

/-- The places of a cut in the body are those in the file. -/
theorem cut_of_eq {done : List TwsPcapRecord} (hdone : done <+: records) {body : Bytes}
    (h : header.encode ++ body = fileOf header done) :
    Cut TwsPcapRecord.encode records body done [] := by
  refine ⟨hdone, ?_, fun hne => absurd rfl hne⟩
  rw [List.append_nil]
  exact List.append_cancel_left h

theorem cutInHead_iff {body part : Bytes} {done : List TwsPcapRecord}
    (hcut : Cut TwsPcapRecord.encode records body done part) :
    CutInHead header records (header.encode ++ body) ↔
      part ≠ [] ∧ part.length < RECORD_HEADER_BYTES := by
  constructor
  · rintro ⟨done', r, part', hr, heq, hpart', hpos, hlt⟩
    have hcut' : Cut TwsPcapRecord.encode records body done' part' := by
      refine ⟨(List.prefix_append _ _).trans hr, ?_, fun _ => ⟨r, hr, hpart', ?_⟩⟩
      · rw [fileOf, List.append_assoc] at heq
        exact List.append_cancel_left heq
      · rw [TwsPcapRecord.encode, List.length_append, length_head]
        omega
    obtain ⟨-, rfl⟩ := hcut.unique hcut' fun r _ => encode_ne_nil r
    exact ⟨List.length_pos_iff.mp hpos, hlt⟩
  · rintro ⟨hne, hlt⟩
    obtain ⟨r, hr, hpart, -⟩ := hcut.next hne
    refine ⟨done, r, part, hr, ?_, hpart, List.length_pos_iff.mpr hne, hlt⟩
    rw [fileOf, List.append_assoc, ← hcut.eq]

/-- A cut is detected exactly when it is not in the head of a record. -/
theorem detectsCut_iff (serverVersionNeg : UInt16) (startTsNanos : BitVec 128)
    (h : ∀ r ∈ records, r.payload.length < 2 ^ 32) {p : Bytes}
    (hp : p <+: fileOf (.new serverVersionNeg startTsNanos) records)
    (hheader : HEADER_BYTES ≤ p.length) :
    DetectsCut (.new serverVersionNeg startTsNanos) records p ↔
      ¬CutInHead (.new serverVersionNeg startTsNanos) records p := by
  obtain ⟨body, rfl⟩ : (TwsPcapHeader.new serverVersionNeg startTsNanos).encode <+: p :=
    List.prefix_of_prefix_length_le (List.prefix_append _ _) hp (by rwa [length_encode_new])
  obtain ⟨done, part, hcut⟩ := exists_cut ((List.prefix_append_right_inj _).mp hp)
  have hread := withReader_new serverVersionNeg startTsNanos body
  have hdrain := drain_cut h hcut
  rw [cutInHead_iff hcut]
  constructor
  · rintro ⟨-, htorn⟩ ⟨hne, hlt⟩
    rw [if_pos hlt] at hdrain
    obtain ⟨r, e, hr, -, herror⟩ := htorn fun done' hdone' heq => by
      obtain ⟨-, rfl⟩ := hcut.unique (cut_of_eq hdone' heq) fun r _ => encode_ne_nil r
      exact hne rfl
    rw [hread] at hr
    obtain rfl := Except.ok.inj hr
    rw [TwsPcapReader.readAll, hdrain] at herror
    cases herror
  · intro hnot
    constructor
    case complete =>
      intro done' hdone' heq
      obtain ⟨rfl, rfl⟩ := hcut.unique (cut_of_eq hdone' heq) fun r _ => encode_ne_nil r
      exact ⟨_, hread, rfl, hdrain.trans (if_pos (by decide))⟩
    case torn =>
      intro htorn
      have hne : part ≠ [] := by
        rintro rfl
        refine htorn done hcut.initial ?_
        rw [fileOf, hcut.eq, List.append_nil]
      have hge : ¬part.length < RECORD_HEADER_BYTES := fun hlt => hnot ⟨hne, hlt⟩
      exact ⟨_, _, hread, rfl, hdrain.trans (if_neg hge)⟩

/-- What was captured is read back, and a cut of the file is detected exactly when it is not in the
    head of a record. -/
theorem reads_back_and_detects_iff (serverVersionNeg : UInt16) (startTsNanos : BitVec 128)
    (h : ∀ r ∈ records, r.payload.length < 2 ^ 32) :
    ∃ w, TwsPcapWriter.capture (.new serverVersionNeg startTsNanos) records = .ok w ∧
      (∃ r, TwsPcapReader.withReader w.inner = .ok r ∧ r.header = .new serverVersionNeg startTsNanos ∧
        r.readAll = .ok records) ∧
      ∀ p, p <+: w.inner → p ≠ w.inner → HEADER_BYTES ≤ p.length →
        (DetectsCut (.new serverVersionNeg startTsNanos) records p ↔
          ¬CutInHead (.new serverVersionNeg startTsNanos) records p) := by
  obtain ⟨w, hcapture, hinner⟩ := capture_eq (.new serverVersionNeg startTsNanos) h
  refine ⟨w, hcapture, ⟨_, by rw [hinner]; exact withReader_new _ _ _, rfl, ?_⟩,
    fun p hp _ hheader => ?_⟩
  · have hcut : Cut TwsPcapRecord.encode records (records.flatMap TwsPcapRecord.encode) records [] :=
      ⟨List.prefix_rfl, (List.append_nil _).symm, fun hne => absurd rfl hne⟩
    exact (drain_cut h hcut).trans (if_pos (by decide))
  · exact detectsCut_iff _ _ h (hinner ▸ hp) hheader

/-- The handshake of a client. -/
def apiRecord : TwsPcapRecord := .new 100 .clientToSim [0x41, 0x50, 0x49, 0]

theorem reads_back_apiRecord : ∃ w, TwsPcapWriter.capture (.new 201 0) [apiRecord] = .ok w ∧
    w.inner.length = HEADER_BYTES + RECORD_HEADER_BYTES + 4 := by
  have hlen : ∀ r ∈ [apiRecord], r.payload.length < 2 ^ 32 := by decide
  obtain ⟨w, hcapture, -⟩ := reads_back_and_detects_iff 201 0 hlen
  refine ⟨w, hcapture, ?_⟩
  obtain rfl := Except.ok.inj hcapture
  rfl

/-- A file that ends in the middle of a time stamp is read as a complete one without records. -/
theorem torn_head_reads_as_complete : ¬ ∀ (serverVersionNeg : UInt16) (startTsNanos : BitVec 128)
    (records : List TwsPcapRecord) (p : Bytes), (∀ r ∈ records, r.payload.length < 2 ^ 32) →
    p <+: fileOf (.new serverVersionNeg startTsNanos) records →
    p ≠ fileOf (.new serverVersionNeg startTsNanos) records → HEADER_BYTES ≤ p.length →
    DetectsCut (.new serverVersionNeg startTsNanos) records p := by
  intro hall
  have hlen : ∀ r ∈ [apiRecord], r.payload.length < 2 ^ 32 := by decide
  have hp : fileOf (.new 201 0) [] ++ [100, 0, 0] <+: fileOf (.new 201 0) [apiRecord] := ⟨_, rfl⟩
  have hdetects := hall 201 0 [apiRecord] _ hlen hp (by decide) (by decide)
  refine (detectsCut_iff 201 0 hlen hp (by decide)).mp hdetects ?_
  exact ⟨[], apiRecord, [100, 0, 0], List.prefix_rfl, rfl, ⟨_, rfl⟩, by decide, by decide⟩

end Midas.Session
