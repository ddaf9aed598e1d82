import HandOfMidas.Candles.RoundTrip

/-! What a file of any content does to its readers. The checks go by the size of a record that the file
    announces and the accessors by the size that the code has, so the two have to agree; and the two
    searches of `slice_by_time` may cross as soon as one candle has a time with another on each
    side. -/

namespace Midas.Candles

/-- `partition_point` as its documentation has it: the end of the prefix that the predicate holds of,
    and some index where the row is not partitioned. -/
structure PartitionPoint where
  find : (CandleRecord → Bool) → List CandleRecord → ℕ
  le : ∀ p l, find p l ≤ l.length
  asks : ∀ p q l, (∀ r ∈ l, p r = q r) → find p l = find q l
  point : ∀ p l, (l.Pairwise fun x y => p y = true → p x = true) → find p l = Search.partitionPoint p l

/-- No crash and no overflow: the reader returns, and of a file that is opened every record is there,
    the buffer is what the reader returns, and every range of time is read. -/
structure Safe (data : Bytes) : Prop where
  read : ∃ result, readMidasFile data = some result
  fits : ∀ file, MmapCandleFile.openFile data = .ok file →
    file.recordCount * file.header.recordSize.toNat < 2 ^ 64 ∧
      HEADER_SIZE + file.recordCount * RECORD_SIZE < 2 ^ 64
  record : ∀ file, MmapCandleFile.openFile data = .ok file →
    ∀ i < file.recordCount, ∃ r, file.record i = some (.ok r)
  converted : ∀ file, MmapCandleFile.openFile data = .ok file →
    ∃ b, file.toCandleBuffer = some b ∧ readMidasFile data = some (.ok b)
  sliced : ∀ file, MmapCandleFile.openFile data = .ok file →
    ∀ (search : PartitionPoint) (startTs endTs : Int64),
      ∃ b, file.sliceByTimeWith search.find startTs endTs = some b

/-- The records that a header announces. -/
def announced (header : MidasHeader) (data : Bytes) : List CandleRecord :=
  let count := header.candleCount.toNat
  CandleRecord.layout.getAll count (data.extract HEADER_SIZE (HEADER_SIZE + count * RECORD_SIZE))

/-- A file that is let through announces no record, or its records have the size that the code knows,
    are all there, and have no time with another on each side. -/
def Sound (data : Bytes) : Prop :=
  ∀ header expectedBody, checkFile data = .ok (header, expectedBody) → header.candleCount.toNat = 0 ∨
    header.recordSize.toNat = RECORD_SIZE ∧
      HEADER_SIZE + header.candleCount.toNat * RECORD_SIZE ≤ data.length ∧
      ∀ r ∈ announced header data, r.timestamp = Int64.minValue ∨ r.timestamp = Int64.maxValue

/-! ### Records -/

theorem length_foldl_pushRecord (records : List CandleRecord) :
    (records.foldl pushRecord .new).timestamps.length = records.length := by
  have h := foldl_pushRecord records [] 0
  rw [List.nil_append] at h
  change (records.foldl pushRecord (CandleBuffer.ofRows [] 0)).timestamps.length = _
  rw [h]
  simp [CandleBuffer.ofRows]

theorem checkFile_spec {data : Bytes} {header : MidasHeader} {expectedBody : ℕ}
    (h : checkFile data = .ok (header, expectedBody)) :
    expectedBody = usize (header.candleCount.toNat * header.recordSize.toNat) ∧
      HEADER_SIZE + expectedBody ≤ data.length := by
  unfold checkFile at h
  split at h
  · cases h
  rename_i hlen
  dsimp only at h
  split at h
  · cases h
  split at h
  · cases h
  rename_i hbody
  obtain ⟨rfl, rfl⟩ := Prod.mk.inj (Except.ok.inj h)
  exact ⟨rfl, by omega⟩

theorem openFile_of_check {data : Bytes} {header : MidasHeader} {expectedBody : ℕ}
    (h : checkFile data = .ok (header, expectedBody)) :
    MmapCandleFile.openFile data = .ok ⟨data, header, header.candleCount.toNat⟩ := by
  unfold MmapCandleFile.openFile
  rw [h]

theorem length_slice {α : Type} {data body : List α} {lo hi : ℕ} (h : slice data lo hi = some body) :
    lo ≤ hi ∧ hi ≤ data.length ∧ body = data.extract lo hi ∧ body.length = hi - lo := by
  unfold slice at h
  split at h
  · rename_i hbounds
    obtain rfl := Option.some.inj h
    refine ⟨hbounds.1, hbounds.2, rfl, ?_⟩
    rw [List.extract_eq_take_drop, List.length_take, List.length_drop]
    omega
  · cases h

theorem slice_of_le {α : Type} {data : List α} {lo hi : ℕ} (hle : lo ≤ hi) (hhi : hi ≤ data.length) :
    slice data lo hi = some (data.extract lo hi) := if_pos ⟨hle, hhi⟩

/-- The body of whole records is cast to them. -/
theorem castSlice_spec {body : Bytes} {records : List CandleRecord} (h : castSlice body = some records) :
    body.length = records.length * RECORD_SIZE ∧
      records = CandleRecord.layout.getAll records.length body := by
  unfold castSlice at h
  split at h
  · rename_i hmod
    obtain rfl := Option.some.inj h
    rw [Layout.length_getAll]
    exact ⟨(Nat.div_mul_cancel (Nat.dvd_of_mod_eq_zero hmod)).symm, rfl⟩
  · cases h

theorem castSlice_of_length {body : Bytes} {n : ℕ} (h : body.length = n * RECORD_SIZE) :
    castSlice body = some (CandleRecord.layout.getAll n body) := by
  unfold castSlice
  rw [h, if_pos (Nat.mul_mod_left _ _), Nat.mul_div_cancel _ (by decide)]

/-! ### A sound file -/

variable {data : Bytes} {header : MidasHeader}

/-- The records that a header announces are all in the file. -/
def Holds (header : MidasHeader) (data : Bytes) : Prop :=
  HEADER_SIZE + header.candleCount.toNat * RECORD_SIZE ≤ data.length

theorem records_of_holds (hsmall : data.length < 2 ^ 63) (h : Holds header data) :
    MmapCandleFile.records ⟨data, header, header.candleCount.toNat⟩ = some (announced header data) := by
  unfold Holds at h
  have hslice := slice_of_le (Nat.le_add_right HEADER_SIZE (header.candleCount.toNat * RECORD_SIZE)) h
  have hlen := (length_slice hslice).2.2.2
  rw [Nat.add_sub_cancel_left] at hlen
  have hfits : usize (HEADER_SIZE + header.candleCount.toNat * RECORD_SIZE) =
      HEADER_SIZE + header.candleCount.toNat * RECORD_SIZE := usize_of_lt (by omega)
  unfold MmapCandleFile.records
  simp only [hfits, hslice, Option.bind_eq_bind, Option.bind_some]
  exact castSlice_of_length hlen

theorem capacity_of_holds (hsmall : data.length < 2 ^ 63) (h : Holds header data) :
    withCapacity header.candleCount.toNat = some .new := by
  unfold Holds RECORD_SIZE at h
  exact withCapacity_of_le (by omega)

theorem record_of_holds (hsmall : data.length < 2 ^ 63) (h : Holds header data) {i : ℕ}
    (hi : i < header.candleCount.toNat) :
    ∃ r, MmapCandleFile.record ⟨data, header, header.candleCount.toNat⟩ i = some (.ok r) := by
  unfold Holds at h
  have hoff : i * RECORD_SIZE + RECORD_SIZE ≤ header.candleCount.toNat * RECORD_SIZE := by
    rw [← Nat.succ_mul]
    exact Nat.mul_le_mul_right _ hi
  unfold MmapCandleFile.record
  dsimp only
  rw [if_neg (not_le.mpr hi), usize_of_lt (by omega), usize_of_lt (by omega),
    slice_of_le (Nat.le_add_right _ _) (by omega)]
  exact ⟨_, rfl⟩

/-- Of records at the ends of time the first search stops no further than the second. -/
theorem find_le_find (search : PartitionPoint) {records : List CandleRecord}
    (hends : ∀ r ∈ records, r.timestamp = Int64.minValue ∨ r.timestamp = Int64.maxValue)
    (startTs endTs : Int64) :
    search.find (fun r => decide (r.timestamp < startTs)) records ≤
      search.find (fun r => decide (r.timestamp ≤ endTs)) records := by
  by_cases hstart : startTs = Int64.minValue
  · -- Nothing lies before the start.
    have hnone : ∀ r : CandleRecord, decide (r.timestamp < startTs) = false := by
      intro r
      rw [hstart, decide_eq_false_iff_not, Int64.not_lt]
      exact Int64.minValue_le r.timestamp
    rw [search.point _ records (List.pairwise_of_forall fun x y h => by simp [hnone] at h)]
    unfold Search.partitionPoint
    cases records with
    | nil => exact Nat.zero_le _
    | cons r rest => rw [List.takeWhile_cons_of_neg (by simp [hnone])]; exact Nat.zero_le _
  · by_cases hend : endTs = Int64.maxValue
    · -- Nothing lies behind the end.
      have hall : ∀ r : CandleRecord, decide (r.timestamp ≤ endTs) = true := by
        intro r
        rw [hend, decide_eq_true_iff]
        exact Int64.le_maxValue r.timestamp
      rw [search.point _ records (List.pairwise_of_forall fun x y _ => hall x)]
      unfold Search.partitionPoint
      rw [List.takeWhile_eq_self_iff.mpr fun r _ => hall r]
      exact search.le _ _
    · -- Both predicates hold of the records at the beginning of time.
      refine le_of_eq (search.asks _ _ records fun r hr => ?_)
      rw [decide_eq_decide]
      rcases hends r hr with h | h
      · rw [h]
        refine iff_of_true ?_ (Int64.minValue_le endTs)
        exact Int64.lt_of_le_of_ne (Int64.minValue_le startTs) (Ne.symm hstart)
      · rw [h]
        refine iff_of_false (Int64.not_lt.mpr (Int64.le_maxValue startTs)) fun hle => hend ?_
        exact Int64.le_antisymm (Int64.le_maxValue endTs) hle

/-- Whatever the range of time, a file with such records is cut. -/
theorem slice_of_holds (hsmall : data.length < 2 ^ 63) (h : Holds header data)
    (hends : ∀ r ∈ announced header data, r.timestamp = Int64.minValue ∨ r.timestamp = Int64.maxValue)
    (search : PartitionPoint) (startTs endTs : Int64) :
    ∃ b, MmapCandleFile.sliceByTimeWith search.find ⟨data, header, header.candleCount.toNat⟩ startTs
      endTs = some b := by
  have hlen : (announced header data).length = header.candleCount.toNat := Layout.length_getAll _ _ _
  have hend := search.le (fun r => decide (r.timestamp ≤ endTs)) (announced header data)
  have hslice := slice_of_le (find_le_find search hends startTs endTs) hend
  have hroom : header.candleCount.toNat * 8 < 2 ^ 63 := by
    unfold Holds RECORD_SIZE at h
    omega
  unfold MmapCandleFile.sliceByTimeWith
  dsimp only
  split
  · exact ⟨_, rfl⟩
  · rw [records_of_holds hsmall h]
    simp only [Option.bind_eq_bind, Option.bind_some, hslice]
    rw [withCapacity_of_le (by omega)]
    exact ⟨_, rfl⟩

theorem safe_of_holds (hsmall : data.length < 2 ^ 63) {expectedBody : ℕ}
    (hcheck : checkFile data = .ok (header, expectedBody)) (h : Holds header data)
    (hbody : header.candleCount.toNat * header.recordSize.toNat =
      header.candleCount.toNat * RECORD_SIZE)
    (hends : ∀ r ∈ announced header data, r.timestamp = Int64.minValue ∨ r.timestamp = Int64.maxValue) :
    Safe data := by
  have hfits : HEADER_SIZE + header.candleCount.toNat * RECORD_SIZE < 2 ^ 64 := by
    unfold Holds at h
    omega
  have hread : readMidasFile data = some (.ok ((announced header data).foldl pushRecord .new)) := by
    obtain ⟨hexpected, -⟩ := checkFile_spec hcheck
    rw [hbody, usize_of_lt (by omega)] at hexpected
    have hrecords := records_of_holds hsmall h
    unfold MmapCandleFile.records at hrecords
    dsimp only at hrecords
    rw [usize_of_lt hfits] at hrecords
    unfold readMidasFile
    rw [hcheck]
    simp only [hexpected, capacity_of_holds hsmall h]
    obtain ⟨body, hslice, hcast⟩ := Option.bind_eq_some_iff.mp hrecords
    simp only [hslice, hcast, Option.bind_eq_bind, Option.bind_some]
  have hopen := openFile_of_check hcheck
  refine ⟨⟨_, hread⟩, ?_, ?_, ?_, ?_⟩ <;> intro file hfile <;>
    obtain rfl := Except.ok.inj (hfile.symm.trans hopen)
  · exact ⟨by rw [hbody]; omega, hfits⟩
  · exact fun i hi => record_of_holds hsmall h hi
  · refine ⟨_, ?_, hread⟩
    unfold MmapCandleFile.toCandleBuffer
    simp only [capacity_of_holds hsmall h, records_of_holds hsmall h, Option.bind_eq_bind,
      Option.bind_some]
  · exact fun search startTs endTs => slice_of_holds hsmall h hends search startTs endTs

/-- A file that the checks refuse is safe. -/
theorem safe_of_refused {e : BinaryError} (hcheck : checkFile data = .error e) : Safe data := by
  have hopen : ∀ file, MmapCandleFile.openFile data ≠ .ok file := by
    intro file
    unfold MmapCandleFile.openFile
    rw [hcheck]
    exact nofun
  refine ⟨⟨.error e, ?_⟩, fun file h => absurd h (hopen file), fun file h => absurd h (hopen file),
    fun file h => absurd h (hopen file), fun file h => absurd h (hopen file)⟩
  unfold readMidasFile
  rw [hcheck]

theorem safe_of_sound (hsmall : data.length < 2 ^ 63) (h : Sound data) : Safe data := by
  cases hcheck : checkFile data with
  | error e => exact safe_of_refused hcheck
  | ok p =>
    obtain ⟨header, expectedBody⟩ := p
    obtain ⟨hexpected, hlen⟩ := checkFile_spec hcheck
    rcases h header expectedBody hcheck with hzero | ⟨hsize, hholds, hends⟩
    · have hnone : announced header data = [] := by simp [announced, hzero, Layout.getAll]
      refine safe_of_holds hsmall hcheck ?_ (by rw [hzero, Nat.zero_mul, Nat.zero_mul]) ?_
      · unfold Holds
        rw [hzero]
        omega
      · rw [hnone]
        exact fun r hr => absurd hr List.not_mem_nil
    · exact safe_of_holds hsmall hcheck hholds (by rw [hsize]) hends

/-! ### A safe file -/

/-- A search that is as wrong as it may be, so as to tell apart the predicates that a time is on the
    two sides of. -/
noncomputable def worstSearch (t : Int64) : PartitionPoint := by
  classical
  exact {
    find := fun p l =>
      if l.Pairwise fun x y => p y = true → p x = true then Search.partitionPoint p l
      else if ∃ r ∈ l, r.timestamp = t ∧ p r = true then l.length else 0
    le := by
      intro p l
      split
      · exact (List.takeWhile_prefix p).length_le
      · split
        · exact le_rfl
        · exact Nat.zero_le _
    asks := by
      intro p q l h
      have hpair : (l.Pairwise fun x y => p y = true → p x = true) ↔
          l.Pairwise fun x y => q y = true → q x = true :=
        List.Pairwise.iff_of_mem fun hx hy => by rw [h _ hx, h _ hy]
      have hexists : (∃ r ∈ l, r.timestamp = t ∧ p r = true) ↔
          ∃ r ∈ l, r.timestamp = t ∧ q r = true :=
        exists_congr fun r => and_congr_right fun hr => by rw [h r hr]
      have hpoint : Search.partitionPoint p l = Search.partitionPoint q l :=
        Search.partitionPoint_congr h
      simp only [hpair, hexists, hpoint]
    point := fun p l h => if_pos h }

/-- Of a row with this record the worst search takes the first bound behind the second. -/
theorem find_lt_find {records : List CandleRecord} {r : CandleRecord} (hr : r ∈ records)
    (hmin : r.timestamp ≠ Int64.minValue) (hmax : r.timestamp ≠ Int64.maxValue) :
    (worstSearch r.timestamp).find (fun x => decide (x.timestamp ≤ Int64.minValue)) records <
      (worstSearch r.timestamp).find (fun x => decide (x.timestamp < Int64.maxValue)) records := by
  set p : CandleRecord → Bool := fun x => decide (x.timestamp < Int64.maxValue)
  set q : CandleRecord → Bool := fun x => decide (x.timestamp ≤ Int64.minValue)
  have hp : p r = true :=
    decide_eq_true (Int64.lt_of_le_of_ne (Int64.le_maxValue _) hmax)
  have hq : q r ≠ true := fun h =>
    hmin (Int64.le_antisymm (of_decide_eq_true h) (Int64.minValue_le _))
  have hnone : ¬ ∃ x ∈ records, x.timestamp = r.timestamp ∧ q x = true := by
    rintro ⟨x, -, hx, hqx⟩
    exact hq (by simpa [q, hx] using hqx)
  have hpos : 0 < records.length := List.length_pos_of_mem hr
  have hqlt : (records.Pairwise fun x y => q y = true → q x = true) →
      Search.partitionPoint q records < records.length := by
    intro hpair
    unfold Search.partitionPoint
    rw [Search.takeWhile_eq_filter hpair]
    exact List.length_filter_lt_length_iff_exists.mpr ⟨r, hr, hq⟩
  have hppos : (records.Pairwise fun x y => p y = true → p x = true) →
      0 < Search.partitionPoint p records := by
    intro hpair
    unfold Search.partitionPoint
    rw [Search.takeWhile_eq_filter hpair]
    exact List.length_pos_of_mem (List.mem_filter.mpr ⟨hr, hp⟩)
  have hexists : ∃ x ∈ records, x.timestamp = r.timestamp ∧ p x = true := ⟨r, hr, rfl, hp⟩
  dsimp only [worstSearch]
  by_cases hqpair : records.Pairwise fun x y => q y = true → q x = true <;>
    by_cases hppair : records.Pairwise fun x y => p y = true → p x = true
  · rw [if_pos hqpair, if_pos hppair]
    refine not_le.mp fun hle => ?_
    exact hq ((Search.partitionPoint_le_iff hppair hqpair).mp hle r hr hp)
  · rw [if_pos hqpair, if_neg hppair, if_pos hexists]
    exact hqlt hqpair
  · rw [if_neg hqpair, if_neg hnone, if_pos hppair]
    exact hppos hppair
  · rw [if_neg hqpair, if_neg hnone, if_neg hppair, if_pos hexists]
    exact hpos

theorem sound_of_safe (hsmall : data.length < 2 ^ 63) (h : Safe data) : Sound data := by
  intro header expectedBody hcheck
  by_contra hnot
  obtain ⟨hcount, hnot⟩ := not_or.mp hnot
  have hopen := openFile_of_check hcheck
  obtain ⟨hexpected, -⟩ := checkFile_spec hcheck
  obtain ⟨hproduct, hfits⟩ := h.fits _ hopen
  dsimp only at hproduct hfits
  -- The buffer of the mapped file shows that the announced records are there.
  obtain ⟨buf, hbuf, hread⟩ := h.converted _ hopen
  unfold MmapCandleFile.toCandleBuffer at hbuf
  obtain ⟨fresh, hfresh, hbuf⟩ := Option.bind_eq_some_iff.mp hbuf
  obtain ⟨records, hrecords, hbuf⟩ := Option.bind_eq_some_iff.mp hbuf
  obtain ⟨body, hslice, hcast⟩ := Option.bind_eq_some_iff.mp hrecords
  dsimp only at hslice
  rw [usize_of_lt hfits] at hslice
  obtain ⟨-, hholds, -, -⟩ := length_slice hslice
  have hhere := records_of_holds hsmall hholds
  obtain rfl : records = announced header data := Option.some.inj (hrecords.symm.trans hhere)
  have hlen : (announced header data).length = header.candleCount.toNat := Layout.length_getAll _ _ _
  refine hnot ⟨?_, hholds, ?_⟩
  · -- Both buffers have one length, so both sizes of a record make the same body.
    unfold readMidasFile at hread
    rw [hcheck] at hread
    obtain ⟨body', hslice', hread⟩ := Option.bind_eq_some_iff.mp hread
    obtain ⟨records', hcast', hread⟩ := Option.bind_eq_some_iff.mp hread
    obtain ⟨fresh', hfresh', hread⟩ := Option.bind_eq_some_iff.mp hread
    obtain rfl : fresh = .new := by
      rw [capacity_of_holds hsmall hholds] at hfresh
      exact (Option.some.inj hfresh).symm
    obtain rfl : fresh' = .new := by
      rw [capacity_of_holds hsmall hholds] at hfresh'
      exact (Option.some.inj hfresh').symm
    have hsame : records'.length = header.candleCount.toNat := by
      rw [← hlen, ← length_foldl_pushRecord, ← length_foldl_pushRecord]
      rw [Except.ok.inj (Option.some.inj hread), Option.some.inj hbuf]
    have hbody := (castSlice_spec hcast').1
    rw [(length_slice hslice').2.2.2, Nat.add_sub_cancel_left, hexpected, usize_of_lt hproduct, hsame]
      at hbody
    exact Nat.eq_of_mul_eq_mul_left (Nat.pos_of_ne_zero hcount) hbody
  · intro r hr
    by_contra hinside
    obtain ⟨hmin, hmax⟩ := not_or.mp hinside
    obtain ⟨b, hb⟩ := h.sliced _ hopen (worstSearch r.timestamp) Int64.maxValue Int64.minValue
    unfold MmapCandleFile.sliceByTimeWith at hb
    dsimp only at hb
    rw [if_neg hcount] at hb
    obtain ⟨records, hrecords, hb⟩ := Option.bind_eq_some_iff.mp hb
    obtain rfl : records = announced header data := Option.some.inj (hrecords.symm.trans hhere)
    obtain ⟨room, -, hb⟩ := Option.bind_eq_some_iff.mp hb
    obtain ⟨range, hrange, -⟩ := Option.bind_eq_some_iff.mp hb
    exact absurd (length_slice hrange).1 (not_le.mpr (find_lt_find hr hmin hmax))

/-- A header with its checksum that announces one record of 31 bytes. -/
def header31 : MidasHeader :=
  let h := buildHeader 1 60 "AAPL" .new
  let h := { h with candleCount := 1, recordSize := 31 }
  { h with checksum := crc32c ((MidasHeader.layout.put h).take 0x40) }

/-- The header, and 31 bytes behind it. -/
def file31 : Bytes := MidasHeader.layout.put header31 ++ List.replicate 31 0

theorem length_file31 : file31.length = HEADER_SIZE + 31 := by
  rw [file31, List.length_append, MidasHeader.layout.length_put, List.length_replicate]
  rfl

theorem check_file31 : checkFile file31 = .ok (header31, 31) := by
  have hvalid : validateHeader header31 = .ok () := validate_sealed _ rfl rfl
  have hbody : usize (header31.candleCount.toNat * header31.recordSize.toNat) = 31 := rfl
  have hextract : file31.extract 0 HEADER_SIZE = MidasHeader.layout.put header31 := by
    rw [List.extract_eq_take_drop, List.drop_zero, Nat.sub_zero]
    exact List.take_left' (MidasHeader.layout.length_put header31)
  unfold checkFile
  rw [length_file31, if_neg (by decide), hextract, MidasHeader.layout.get_put]
  simp only [hvalid, hbody]
  rfl

end Midas.Candles
