import HandOfMidas.Thumbnails.Store
import HandOfMidas.Lib.Stamped

/-! What the thumbnails show, over a run in which the buffers and series they are cut from change. Each
    source counts its own changes, and the cache compares the counts only. -/

namespace Midas.Thumbnails

open Bars Candles Stamped

variable {F : Type} [F32Range F]

/-! ### The mutators of both sources -/

inductive BufferOp (F : Type)
  | push (bar : Row F)
  | updateLast (ts : ℤ) (o h l c : F) (v : UInt32)
  | applyBar (bar : Row F)
  | updateLastPrice (price : F)
  | mergeBar (bar : Row F)

def BufferOp.apply (b : CandleBuffer F) : BufferOp F → Option (CandleBuffer F)
  | push bar => some (b.pushWithSession bar)
  | updateLast ts o h l c v => b.updateLast ts o h l c v
  | applyBar bar => b.applyBar bar
  | updateLastPrice price => b.updateLastPrice price
  | mergeBar bar => b.mergeBar bar

inductive SeriesOp
  | push (candle : Candle)
  | apply (candle : Candle)
  | updateLastPrice (price : ℚ)

variable (asF32 : ℚ → F) (nan : F)

/-- `CandleSeries::push`: a row behind the last one, whatever its time. -/
def seriesPush (s : CandleSeries F) (candle : Candle) : Option (CandleSeries F) :=
  match s.validateCandle candle with
  | .error _ => none
  | .ok () => (s.pushColumns asF32 nan candle).map fun s => s.enforceCap.bumpVersion

def SeriesOp.run (s : CandleSeries F) : SeriesOp → Option (CandleSeries F)
  | push candle => seriesPush asF32 nan s candle
  | apply candle => s.apply asF32 nan candle
  | updateLastPrice price => Candles.updateLastPrice asF32 s price

inductive Source (F : Type)
  | buffer (b : CandleBuffer F)
  | series (s : CandleSeries F)

namespace Source

def version : Source F → ℕ
  | buffer b => b.version
  | series s => s.version

def closes : Source F → List F
  | buffer b => b.closes
  | series s => s.closes

def timestamps : Source F → List ℤ
  | buffer b => b.timestamps
  | series s => s.timestamps

/-- The last `n` closes, or all of them. -/
def lastCloses (n : ℕ) (src : Source F) : List F := src.closes.drop (src.closes.length - n)

def slice (tailLen : ℕ) : Source F → Entry F
  | buffer b => sliceFromBuffer b tailLen
  | series s => sliceFromSeries s tailLen

end Source

/-! ### What the mutators count -/

/-- A close for each row; and none before the first change. -/
structure Kept (src : Source F) : Prop where
  level : src.closes.length = src.timestamps.length
  fresh : src.version = 0 → src.closes = []

/-- What a mutator does: nothing, or a change that is counted. -/
def Mutates (src src' : Source F) : Prop :=
  src' = src ∨ src'.version = src.version + 1 ∧ src'.closes.length = src'.timestamps.length

omit [F32Range F] in
theorem Kept.mutates {src src' : Source F} (h : Kept src) (hmut : Mutates src src') : Kept src' := by
  rcases hmut with rfl | ⟨hversion, hlevel⟩
  · exact h
  · exact ⟨hlevel, fun hzero => by omega⟩

omit [F32Range F] in
theorem Mutates.counts {src src' : Source F} (h : Mutates src src') :
    Counts Source.version src src' := by
  rcases h with rfl | ⟨hversion, -⟩
  · exact .inl rfl
  · exact .inr (by omega)

theorem modifyLast_length {α : Type} {f : α → α} {l l' : List α} (h : modifyLast f l = some l') :
    l'.length = l.length := by
  obtain ⟨x, hx, rfl⟩ := Option.map_eq_some_iff.mp h
  obtain ⟨init, rfl⟩ := List.getLast?_eq_some_iff.mp hx
  simp

theorem mutates_buffer {b b' : CandleBuffer F} (h : Kept (.buffer b)) {op : BufferOp F}
    (hop : op.apply b = some b') : Mutates (.buffer b) (.buffer b') := by
  have hlevel : b.closes.length = b.timestamps.length := h.level
  have hpush : ∀ bar : Row F, Mutates (.buffer b) (.buffer (b.pushWithSession bar)) := by
    intro bar
    exact .inr ⟨rfl, by simp [Source.closes, Source.timestamps, CandleBuffer.pushWithSession, hlevel]⟩
  cases op with
  | push bar => exact Option.some.inj hop ▸ hpush bar
  | updateLast ts o hi l c v =>
    simp only [BufferOp.apply, CandleBuffer.updateLast, Option.bind_eq_bind] at hop
    split_ifs at hop
    · exact .inl (congrArg _ (Option.some.inj hop).symm)
    · simp only [Option.bind_eq_some_iff] at hop
      obtain ⟨times, htimes, _, -, _, -, _, -, closes, hcloses, _, -, heq⟩ := hop
      cases heq
      refine .inr ⟨rfl, ?_⟩
      exact (modifyLast_length hcloses).trans (hlevel.trans (modifyLast_length htimes).symm)
  | applyBar bar =>
    simp only [BufferOp.apply, CandleBuffer.applyBar, Option.bind_eq_bind] at hop
    split at hop
    · exact Option.some.inj hop ▸ hpush bar
    · split_ifs at hop
      · simp only [Option.bind_eq_some_iff] at hop
        obtain ⟨_, -, _, -, _, -, closes, hcloses, _, -, _, -, heq⟩ := hop
        cases heq
        exact .inr ⟨rfl, (modifyLast_length hcloses).trans hlevel⟩
      · exact .inl (congrArg _ (Option.some.inj hop).symm)
      · exact Option.some.inj hop ▸ hpush bar
  | updateLastPrice price =>
    simp only [BufferOp.apply, CandleBuffer.updateLastPrice, Option.bind_eq_bind] at hop
    split_ifs at hop
    · exact .inl (congrArg _ (Option.some.inj hop).symm)
    · exact .inl (congrArg _ (Option.some.inj hop).symm)
    · simp only [Option.bind_eq_some_iff] at hop
      obtain ⟨_, -, _, -, closes, hcloses, heq⟩ := hop
      cases heq
      exact .inr ⟨rfl, (modifyLast_length hcloses).trans hlevel⟩
  | mergeBar bar =>
    simp only [BufferOp.apply, CandleBuffer.mergeBar, Option.bind_eq_bind] at hop
    split at hop
    · exact Option.some.inj hop ▸ hpush bar
    · split_ifs at hop
      · simp only [Option.bind_eq_some_iff] at hop
        obtain ⟨_, -, _, -, closes, hcloses, _, -, heq⟩ := hop
        cases heq
        exact .inr ⟨rfl, (modifyLast_length hcloses).trans hlevel⟩
      · exact .inl (congrArg _ (Option.some.inj hop).symm)
      · exact Option.some.inj hop ▸ hpush bar

omit [F32Range F] in
theorem level_enforceCap {s : CandleSeries F} (h : s.closes.length = s.timestamps.length) :
    s.enforceCap.closes.length = s.enforceCap.timestamps.length := by
  unfold CandleSeries.enforceCap
  split
  · exact h
  · split
    · exact h
    · simp [h]

omit [F32Range F] in
theorem mutates_pushed {s pushed : CandleSeries F} (h : Kept (.series s)) {candle : Candle}
    (hpush : s.pushColumns asF32 nan candle = some pushed) :
    Mutates (.series s) (.series pushed.enforceCap.bumpVersion) := by
  have hlevel : s.closes.length = s.timestamps.length := h.level
  obtain ⟨ns, -, heq⟩ := Option.bind_eq_some_iff.mp hpush
  cases heq
  refine .inr ⟨congrArg (· + 1) (CandleSeries.version_enforceCap _), ?_⟩
  apply level_enforceCap
  simp [hlevel]

theorem mutates_series {s s' : CandleSeries F} (h : Kept (.series s)) {op : SeriesOp}
    (hop : op.run asF32 nan s = some s') : Mutates (.series s) (.series s') := by
  have hlevel : s.closes.length = s.timestamps.length := h.level
  cases op with
  | push candle =>
    simp only [SeriesOp.run, seriesPush] at hop
    split at hop
    · cases hop
    · obtain ⟨pushed, hpush, rfl⟩ := Option.map_eq_some_iff.mp hop
      exact mutates_pushed asF32 nan h hpush
  | apply candle =>
    simp only [SeriesOp.run, CandleSeries.apply] at hop
    split at hop
    · cases hop
    · obtain ⟨ns, hns, hop⟩ := Option.bind_eq_some_iff.mp hop
      split at hop
      · obtain ⟨written, hwrite, hop⟩ := Option.bind_eq_some_iff.mp hop
        obtain ⟨_, -, heq⟩ := Option.bind_eq_some_iff.mp hwrite
        cases heq
        cases hop
        exact .inr ⟨rfl, by simp [Source.closes, Source.timestamps, CandleSeries.bumpVersion, hlevel]⟩
      · obtain ⟨pushed, hpush, hop⟩ := Option.bind_eq_some_iff.mp hop
        cases hop
        exact mutates_pushed asF32 nan h hpush
  | updateLastPrice price =>
    simp only [SeriesOp.run, Candles.updateLastPrice, Option.bind_eq_bind] at hop
    split_ifs at hop
    · exact .inl (congrArg _ (Option.some.inj hop).symm)
    · simp only [Option.bind_eq_some_iff] at hop
      obtain ⟨_, -, _, -, heq⟩ := hop
      cases heq
      exact .inr ⟨rfl, by simp [Source.closes, Source.timestamps, hlevel]⟩

/-! ### Runs -/

inductive CacheOp (F : Type)
  | newBuffer
  | cloneBuffer (i : ℕ)
  | newSeries (calendar : Calendar.CalendarId) (period : Calendar.BarPeriod) (symbol : Symbol)
      (maxRows : Option ℕ)
  | mutateBuffer (i : ℕ) (op : BufferOp F)
  | mutateSeries (i : ℕ) (op : SeriesOp)
  | install (symbol : String) (tf : Timeframe) (i : ℕ)
  | installEmpty (symbol : String) (tf : Timeframe)
  | fetch (symbol : String) (tf : Timeframe) (i : ℕ)

/-- The store with the sources there are, each under the number it was made with. -/
structure Cached (F : Type) where
  store : ThumbnailDataStore F
  sources : List (Source F)
  /-- The source that the entry of a key was cut from. -/
  origin : Key → Option ℕ

namespace Cached

variable (s : Cached F)

def start (tailLen maxConcurrent : ℕ) : Cached F := ⟨.new tailLen maxConcurrent, [], fun _ => none⟩

/-- `fetch` and `fetch_from_series`. -/
def fetch (key : Key) : Source F → Entry F × ThumbnailDataStore F
  | .buffer b => s.store.fetch key.1 key.2 (some b)
  | .series series => s.store.fetchFromSeries key.1 key.2 (some series)

/-- `install` and `install_series`. -/
def installFrom (key : Key) : Source F → ThumbnailDataStore F
  | .buffer b => s.store.install key.1 key.2 b
  | .series series => s.store.installSeries key.1 key.2 series

/-- The entry of the key does not have the version of the source. -/
def needsReslice (key : Key) (src : Source F) : Bool :=
  (s.store.cache key).all fun entry => entry.sourceVersion ≠ src.version

/-- A call that panics changes nothing. -/
def step (s : Cached F) : CacheOp F → Cached F
  | .newBuffer => { s with sources := s.sources ++ [.buffer .new] }
  | .cloneBuffer i =>
    match s.sources[i]? with
    | some (.buffer b) => { s with sources := s.sources ++ [.buffer b] }
    | _ => s
  | .newSeries calendar period symbol maxRows =>
    { s with sources := s.sources ++ [.series { CandleSeries.new calendar period symbol with
        maxRows := maxRows }] }
  | .mutateBuffer i op =>
    match s.sources[i]? with
    | some (.buffer b) => { s with sources := s.sources.set i (.buffer ((op.apply b).getD b)) }
    | _ => s
  | .mutateSeries i op =>
    match s.sources[i]? with
    | some (.series series) =>
      { s with sources := s.sources.set i (.series ((op.run asF32 nan series).getD series)) }
    | _ => s
  | .install symbol tf i =>
    match s.sources[i]? with
    | some src =>
      { s with
        store := s.installFrom (symbol, tf) src
        origin := Function.update s.origin (symbol, tf) (some i) }
    | none => s
  | .installEmpty symbol tf =>
    { s with
      store := s.store.installEmpty symbol tf
      origin := Function.update s.origin (symbol, tf) none }
  | .fetch symbol tf i =>
    match s.sources[i]? with
    | some src =>
      { s with
        store := (s.fetch (symbol, tf) src).2
        origin :=
          if s.needsReslice (symbol, tf) src then Function.update s.origin (symbol, tf) (some i)
          else s.origin }
    | none => s

/-- A fetch returns the last closes of the source as it is. -/
def Serves (s : Cached F) : CacheOp F → Prop
  | .fetch symbol tf i => ∀ src ∈ s.sources[i]?,
      (s.fetch (symbol, tf) src).1.closes = src.lastCloses s.store.tailLen
  | _ => True

/-- A source is fetched under a key whose entry was not cut from another source with the version number
    that it has itself. -/
def OwnVersion (s : Cached F) : CacheOp F → Prop
  | .fetch symbol tf i => ∀ src ∈ s.sources[i]?, ∀ entry ∈ s.store.cache (symbol, tf),
      ∀ j ∈ s.origin (symbol, tf), entry.sourceVersion = src.version → j = i
  | _ => True

/-! ### The invariant -/

/-- An entry is the placeholder, or was cut from a source that has at most changed since. -/
def Coherent (s : Cached F) (key : Key) (entry : Entry F) : Prop :=
  match s.origin key with
  | none => entry = emptyEntry
  | some i => ∃ src, s.sources[i]? = some src ∧
      CutFrom Source.version (Source.lastCloses s.store.tailLen) entry.sourceVersion entry.closes src

structure Sound (s : Cached F) : Prop where
  kept : ∀ src ∈ s.sources, Kept src
  coherent : ∀ key entry, s.store.cache key = some entry → Coherent s key entry

variable {s : Cached F} {asF32 : ℚ → F} {nan : F}

omit [F32Range F] in
/-- Both cuts take as many closes as there are rows. -/
theorem take_drop_level {closes : List F} {len : ℕ} (h : closes.length = len) (n : ℕ) :
    (closes.drop (len - n)).take (len - (len - n)) = closes.drop (closes.length - n) := by
  rw [h]
  exact List.take_of_length_le (by simp [h])

theorem slice_spec {src : Source F} (h : Kept src) (n : ℕ) :
    (src.slice n).closes = src.lastCloses n ∧ (src.slice n).sourceVersion = src.version := by
  have hlevel := h.level
  cases src with
  | buffer b =>
    simp only [Source.slice, sliceFromBuffer, Source.lastCloses, Source.version]
    by_cases hlen : b.timestamps.length = 0
    · have hnil : b.closes = [] := List.eq_nil_of_length_eq_zero (hlevel.trans hlen)
      rw [if_pos hlen]
      exact ⟨by simp [Source.closes, hnil], rfl⟩
    · rw [if_neg hlen]
      exact ⟨take_drop_level hlevel n, rfl⟩
  | series series =>
    simp only [Source.slice, sliceFromSeries, Source.lastCloses, Source.version]
    by_cases hlen : series.timestamps.length = 0
    · have hnil : series.closes = [] := List.eq_nil_of_length_eq_zero (hlevel.trans hlen)
      rw [if_pos hlen]
      exact ⟨by simp [Source.closes, hnil], rfl⟩
    · rw [if_neg hlen]
      exact ⟨take_drop_level hlevel n, rfl⟩

/-- A fetch cuts the entry anew where the versions differ. -/
theorem fetch_eq (s : Cached F) (key : Key) (src : Source F) :
    s.fetch key src =
      if s.needsReslice key src then
        (src.slice s.store.tailLen, s.store.cacheInsert key (src.slice s.store.tailLen))
      else ((s.store.cache key).getD emptyEntry, s.store) := by
  obtain ⟨symbol, tf⟩ := key
  cases src with
  | buffer b =>
    rcases hcache : s.store.cache (symbol, tf) with _ | entry
    · simp [fetch, ThumbnailDataStore.fetch, needsReslice, Source.slice, hcache,
        ThumbnailDataStore.cacheInsert]
    · by_cases hversion : entry.sourceVersion = b.version
      · simp [fetch, ThumbnailDataStore.fetch, needsReslice, Source.version, hcache, hversion]
      · simp [fetch, ThumbnailDataStore.fetch, needsReslice, Source.version, Source.slice, hcache,
          hversion, ThumbnailDataStore.cacheInsert]
  | series series =>
    rcases hcache : s.store.cache (symbol, tf) with _ | entry
    · simp [fetch, ThumbnailDataStore.fetchFromSeries, needsReslice, Source.slice, hcache,
        ThumbnailDataStore.cacheInsert]
    · by_cases hversion : entry.sourceVersion = series.version
      · simp [fetch, ThumbnailDataStore.fetchFromSeries, needsReslice, Source.version, hcache, hversion]
      · simp [fetch, ThumbnailDataStore.fetchFromSeries, needsReslice, Source.version, Source.slice,
          hcache, hversion, ThumbnailDataStore.cacheInsert]

theorem installFrom_eq (s : Cached F) (key : Key) (src : Source F) :
    s.installFrom key src = s.store.settle key (src.slice s.store.tailLen) := by
  cases src <;> rfl

/-- New data under a key, cut from a source that there is. -/
theorem Sound.recut (h : Sound s) {key : Key} {i : ℕ} {src : Source F}
    (hsrc : s.sources[i]? = some src) {store : ThumbnailDataStore F}
    (hcache : store.cache = Function.update s.store.cache key (some (src.slice s.store.tailLen)))
    (htail : store.tailLen = s.store.tailLen) :
    Sound { s with store := store, origin := Function.update s.origin key (some i) } := by
  refine ⟨h.kept, ?_⟩
  intro key' entry hentry
  rw [hcache] at hentry
  by_cases heq : key' = key
  · subst heq
    rw [Function.update_self] at hentry
    cases hentry
    have hkept := h.kept src (List.mem_of_getElem? hsrc)
    obtain ⟨hcloses, hversion⟩ := slice_spec hkept s.store.tailLen
    simp only [Coherent, Function.update_self, htail, hcloses, hversion]
    exact ⟨src, hsrc, cutFrom_self src⟩
  · rw [Function.update_of_ne heq] at hentry
    have hold := h.coherent key' entry hentry
    simp only [Coherent, Function.update_of_ne heq, htail] at hold ⊢
    exact hold

/-- A source that changes as its mutators change it. -/
theorem Sound.mutate (h : Sound s) {i : ℕ} {src src' : Source F} (hsrc : s.sources[i]? = some src)
    (hmut : Mutates src src') : Sound { s with sources := s.sources.set i src' } := by
  refine ⟨?_, ?_⟩
  · intro x hx
    rcases List.mem_or_eq_of_mem_set hx with hold | rfl
    · exact h.kept x hold
    · exact (h.kept src (List.mem_of_getElem? hsrc)).mutates hmut
  · intro key entry hentry
    have hold := h.coherent key entry hentry
    unfold Coherent at hold ⊢
    rcases horigin : s.origin key with _ | j
    · rw [horigin] at hold
      exact hold
    · rw [horigin] at hold
      exact CutFrom.set hsrc hmut.counts hold

/-- A new source leaves the others where they are. -/
theorem Sound.append (h : Sound s) {src : Source F} (hsrc : Kept src) :
    Sound { s with sources := s.sources ++ [src] } := by
  refine ⟨?_, ?_⟩
  · intro x hx
    rcases List.mem_append.mp hx with hold | hnew
    · exact h.kept x hold
    · exact List.mem_singleton.mp hnew ▸ hsrc
  · intro key entry hentry
    have hold := h.coherent key entry hentry
    unfold Coherent at hold ⊢
    rcases horigin : s.origin key with _ | j
    · rw [horigin] at hold
      exact hold
    · rw [horigin] at hold
      obtain ⟨old, hj, hcut⟩ := hold
      have hlt := (List.getElem?_eq_some_iff.mp hj).1
      exact ⟨old, by rw [List.getElem?_append_left hlt, hj], hcut⟩

theorem sound_start (tailLen maxConcurrent : ℕ) : Sound (start tailLen maxConcurrent : Cached F) :=
  ⟨fun _ h => (nomatch h), fun _ _ h => (nomatch h)⟩

theorem Sound.step (h : Sound s) (op : CacheOp F) : Sound (step asF32 nan s op) := by
  cases op with
  | newBuffer => exact h.append ⟨rfl, fun _ => rfl⟩
  | newSeries calendar period symbol maxRows => exact h.append ⟨rfl, fun _ => rfl⟩
  | cloneBuffer i =>
    simp only [Cached.step]
    split
    · rename_i b hb
      exact h.append (h.kept _ (List.mem_of_getElem? hb))
    · exact h
  | mutateBuffer i op =>
    simp only [Cached.step]
    split
    · rename_i b hb
      refine h.mutate hb ?_
      rcases hop : op.apply b with _ | b'
      · exact .inl rfl
      · exact mutates_buffer (h.kept _ (List.mem_of_getElem? hb)) hop
    · exact h
  | mutateSeries i op =>
    simp only [Cached.step]
    split
    · rename_i series hseries
      refine h.mutate hseries ?_
      rcases hop : op.run asF32 nan series with _ | series'
      · exact .inl rfl
      · exact mutates_series asF32 nan (h.kept _ (List.mem_of_getElem? hseries)) hop
    · exact h
  | install symbol tf i =>
    simp only [Cached.step]
    split
    · rename_i src hsrc
      rw [installFrom_eq]
      exact h.recut hsrc rfl rfl
    · exact h
  | installEmpty symbol tf =>
    refine ⟨h.kept, ?_⟩
    intro key entry hentry
    by_cases heq : key = (symbol, tf)
    · subst heq
      obtain rfl : emptyEntry = entry := by
        simpa [Cached.step, ThumbnailDataStore.installEmpty, ThumbnailDataStore.settle,
          ThumbnailDataStore.cacheInsert] using hentry
      simp [Coherent, Cached.step]
    · have hold : s.store.cache key = some entry := by
        simpa [Cached.step, ThumbnailDataStore.installEmpty, ThumbnailDataStore.settle,
          ThumbnailDataStore.cacheInsert, heq] using hentry
      have hcoherent := h.coherent key entry hold
      simp only [Coherent, Cached.step, Function.update_of_ne heq] at hcoherent ⊢
      exact hcoherent
  | fetch symbol tf i =>
    simp only [Cached.step]
    split
    · rename_i src hsrc
      rw [fetch_eq]
      split_ifs
      · exact h.recut hsrc rfl rfl
      · exact h
    · exact h

/-- A fetch of a source serves it, if no other source lends its entry the same version. -/
theorem Sound.serves (h : Sound s) {op : CacheOp F} (hop : OwnVersion s op) : Serves s op := by
  cases op with
  | fetch symbol tf i =>
    intro src hsrc
    have hkept := h.kept src (List.mem_of_getElem? hsrc)
    rw [fetch_eq]
    split_ifs with hslice
    · exact (slice_spec hkept s.store.tailLen).1
    · obtain ⟨entry, hentry, hversion⟩ : ∃ entry, s.store.cache (symbol, tf) = some entry ∧
          entry.sourceVersion = src.version := by
        rcases hcache : s.store.cache (symbol, tf) with _ | entry
        · simp [needsReslice, hcache] at hslice
        · exact ⟨entry, rfl, by simpa [needsReslice, hcache] using hslice⟩
      have hcoherent := h.coherent _ _ hentry
      rw [hentry, Option.getD_some]
      unfold Coherent at hcoherent
      rcases horigin : s.origin (symbol, tf) with _ | j
      · rw [horigin] at hcoherent
        obtain rfl : entry = emptyEntry := hcoherent
        rw [Source.lastCloses, hkept.fresh hversion.symm, List.drop_nil]
        rfl
      · rw [horigin] at hcoherent
        obtain ⟨cutSrc, hj, hcut⟩ := hcoherent
        obtain rfl := hop src hsrc entry hentry j horigin hversion
        obtain rfl := Option.some.inj (hj.symm.trans hsrc)
        exact hcut.eq hversion
  | _ => trivial

/-- Over a run in which no source is fetched under a key that holds another one's entry of the same
    version, every fetch returns the last closes of the source as it is. -/
theorem serves_of_ownVersion (tailLen maxConcurrent : ℕ) (ops : List (CacheOp F))
    (h : AllSteps (Cached.step asF32 nan) OwnVersion (start tailLen maxConcurrent) ops) :
    AllSteps (Cached.step asF32 nan) Serves (start tailLen maxConcurrent) ops := by
  intro pre op hpre
  have hsound : Sound (run (Cached.step asF32 nan) (start tailLen maxConcurrent) pre) :=
    inv_run (Cached.step asF32 nan) (I := Sound) (fun _ op hs => hs.step op)
      (sound_start tailLen maxConcurrent) pre
  exact hsound.serves (h pre op hpre)

/-! ### Two buffers under one key -/

/-- A candle without a range. -/
def flatRow (ts : ℤ) (price : ℚ) : Row ℚ := ⟨ts, price, price, price, price, 1, .regular⟩

/-- A buffer is fetched, grows, and is fetched again. -/
theorem serves_of_ownVersion_grown :
    AllSteps (Cached.step id 0) Serves (start 100 6) [.newBuffer, .mutateBuffer 0 (.push (flatRow 0 1)),
      .fetch "A" .m1 0, .mutateBuffer 0 (.push (flatRow 1 2)), .fetch "A" .m1 0] := by
  refine serves_of_ownVersion 100 6 _ ?_
  simp only [allSteps_cons]
  refine ⟨trivial, trivial, ?_, trivial, ?_, allSteps_nil _⟩
  · exact fun _ _ _ _ _ hj _ => (nomatch hj)
  · exact fun _ _ _ _ _ hj _ => (Option.some.inj hj).symm

/-- Two buffers of one candle each have the same version: the second is shown as the first. -/
theorem fetch_serves_other_buffer :
    ¬AllSteps (Cached.step id 0) Serves (start 100 6) [.newBuffer, .newBuffer,
      .mutateBuffer 0 (.push (flatRow 0 1)), .mutateBuffer 1 (.push (flatRow 0 2)),
      .fetch "A" .m1 0, .fetch "A" .m1 1] := by
  intro h
  have hserved := h [.newBuffer, .newBuffer, .mutateBuffer 0 (.push (flatRow 0 1)),
    .mutateBuffer 1 (.push (flatRow 0 2)), .fetch "A" .m1 0] (.fetch "A" .m1 1) List.prefix_rfl
  exact absurd (hserved _ rfl) (by decide +kernel)

end Cached

end Midas.Thumbnails
