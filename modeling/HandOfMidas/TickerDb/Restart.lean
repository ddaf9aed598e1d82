import HandOfMidas.Lib.Run
import HandOfMidas.TickerDb.Persist

/-! What is there after a restart. A state that is cached is on disk, or marked, or about to be
    marked, or in the hands of the flush thread; so at the end of a shutdown it is on disk. Nothing
    is ever taken out of the tables, so what a symbol that was forgotten had there comes back. -/

namespace Midas.TickerDb

variable {K State Bytes P : Type} [DecidableEq K]

/-! ### Opening -/

/-- A fold over rows under different symbols, where each row changes what its own symbol has. -/
theorem foldl_rows {α : Type} (look : α → K → Option State) (f : α → Row K Bytes → α)
    (g : Row K Bytes → Option State → Option State)
    (hf : ∀ c row k, look (f c row) k = if k = row.symbol then g row (look c k) else look c k)
    {rows : List (Row K Bytes)} (hnodup : (rows.map (·.symbol)).Nodup) (c : α) (k : K) :
    look (rows.foldl f c) k =
      (rows.find? fun row => row.symbol = k).elim (look c k) fun row => g row (look c k) := by
  induction rows generalizing c with
  | nil => rfl
  | cons row rows ih =>
    rw [List.map_cons, List.nodup_cons] at hnodup
    rw [List.foldl_cons, ih hnodup.2, hf]
    by_cases hk : row.symbol = k
    · have hnone : (rows.find? fun row => decide (row.symbol = k)) = none :=
        List.find?_eq_none.mpr fun row' hrow' heq =>
          hnodup.1 (hk.trans (of_decide_eq_true heq).symm ▸ List.mem_map_of_mem hrow')
      rw [hnone, List.find?_cons_of_pos (by simpa using hk), if_pos hk.symm]
      rfl
    · rw [List.find?_cons_of_neg (by simpa using hk), if_neg (Ne.symm hk)]

theorem snapshot_seed (cache : Cache K State) (symbol k : K) (state : State) :
    snapshot (seed cache symbol state) k = if k = symbol then some state else snapshot cache k := by
  rw [snapshot, seed, Store.get?_put]
  split <;> rfl

/-- The text a table has for a symbol. -/
def value? (table : Table K Bytes) (k : K) : Option Bytes := (table.get? k).map (·.value)

namespace Json

variable (json : Json State Bytes P) (v1 : Table K Bytes)

/-- What the two tables have for a symbol: the second one goes first. -/
def onDisk (v2 : Table K Bytes) (k : K) : Option State :=
  ((value? v2 k).bind json.fromSlice).or ((value? v1 k).bind json.fromSliceV1)

theorem snapshot_hydrateV2 (v2 : Table K Bytes) (cache : Cache K State) (k : K) :
    snapshot (json.hydrateV2 v2 cache) k =
      ((value? v2 k).bind json.fromSlice).or (snapshot cache k) := by
  have hrow : ∀ (c : Cache K State) (row : Row K Bytes) (k : K), snapshot (json.hydrateRow c row) k =
      if k = row.symbol then (json.fromSlice row.value).or (snapshot c k) else snapshot c k := by
    intro c row k
    rw [hydrateRow]
    cases json.fromSlice row.value with
    | none => rw [Option.none_or, ite_self]
    | some state => rw [snapshot_seed, Option.some_or]
  rw [hydrateV2, foldl_rows snapshot json.hydrateRow (fun row s => (json.fromSlice row.value).or s) hrow
    v2.nodup, value?, Store.get?]
  cases v2.items.find? fun row => decide (row.symbol = k) with
  | none => rfl
  | some row => rfl

/-- The cache after opening is what the tables have. -/
theorem snapshot_openStore (v2 : Table K Bytes) (k : K) :
    snapshot (json.openStore v1 v2).1 k = json.onDisk v1 v2 k := by
  have hrow : ∀ (c : Cache K State × ℕ) (row : Row K Bytes) (k : K),
      snapshot (json.migrateRow c row).1 k =
        if k = row.symbol then (snapshot c.1 k).or (json.fromSliceV1 row.value) else snapshot c.1 k := by
    intro c row k
    rw [migrateRow]
    by_cases hk : k = row.symbol
    · subst hk
      cases hc : snapshot c.1 row.symbol with
      | some state => rw [if_pos rfl, Option.isSome_some, if_pos rfl, hc, Option.some_or]
      | none =>
        rw [if_pos rfl, Option.isSome_none, if_neg Bool.false_ne_true, Option.none_or]
        cases json.fromSliceV1 row.value with
        | none => exact hc
        | some state => exact (snapshot_seed c.1 row.symbol row.symbol state).trans (if_pos rfl)
    · rw [if_neg hk]
      split
      · rfl
      · cases json.fromSliceV1 row.value with
        | none => rfl
        | some state => exact (snapshot_seed c.1 row.symbol k state).trans (if_neg hk)
  have hfold := foldl_rows (fun c : Cache K State × ℕ => snapshot c.1) json.migrateRow
    (fun row s => s.or (json.fromSliceV1 row.value)) hrow v1.nodup (json.hydrateV2 v2 .empty, 0) k
  have hempty : snapshot (.empty : Cache K State) k = none := rfl
  rw [snapshot_hydrateV2, hempty, Option.or_none] at hfold
  change snapshot (v1.items.foldl json.migrateRow (json.hydrateV2 v2 .empty, 0)).1 k = _
  rw [hfold, onDisk, value?, value?, Store.get?, Store.get?]
  cases v1.items.find? fun row => decide (row.symbol = k) with
  | none => exact (Option.or_none).symm
  | some row => rfl

/-- Opening writes all that is cached or nothing. -/
theorem openStore_snd (v2 : Table K Bytes) :
    (json.openStore v1 v2).2 = json.writeBatchToV2 v2 (json.openStore v1 v2).1.items ∨
      (json.openStore v1 v2).2 = v2 := by
  rw [openStore, migrateV1ToV2]
  by_cases h : (v1.items.foldl json.migrateRow (json.hydrateV2 v2 .empty, 0)).2 > 0
  · exact Or.inl (if_pos h)
  · exact Or.inr (if_neg h)

/-! ### Writing -/

theorem value?_writeBatch_of_not_mem {v2 : Table K Bytes} {batch : List (Entry K State)} {k : K}
    (h : k ∉ batch.map (·.symbol)) : value? (json.writeBatchToV2 v2 batch) k = value? v2 k := by
  have hrows : k ∉ (batch.map json.rowOf).map Row.symbol := by rwa [List.map_map]
  rw [value?, writeBatchToV2, Store.get?_foldl_put_of_not_mem _ _ hrows, value?]

theorem value?_writeBatch_of_mem {v2 : Table K Bytes} {batch : List (Entry K State)}
    (hone : ∀ e ∈ batch, ∀ e' ∈ batch, e.symbol = e'.symbol → e = e') {e : Entry K State}
    (he : e ∈ batch) :
    value? (json.writeBatchToV2 v2 batch) e.symbol = some (json.toVecPretty e.state) := by
  have hget := Store.get?_foldl_put_of_unique v2 (List.mem_map_of_mem (f := json.rowOf) he) (by
    intro row hrow hkey
    obtain ⟨e', he', rfl⟩ := List.mem_map.mp hrow
    rw [hone e' he' e he hkey])
  rw [value?, writeBatchToV2]
  exact congrArg (Option.map (·.value)) hget

/-- The tables have the entry, as far as it is persisted. -/
def Kept (v2 : Table K Bytes) (e : Entry K State) : Prop :=
  (json.onDisk v1 v2 e.symbol).map json.persisted = some (json.persisted e.state)

theorem kept_writeBatch {v2 : Table K Bytes} {batch : List (Entry K State)}
    (hone : ∀ e ∈ batch, ∀ e' ∈ batch, e.symbol = e'.symbol → e = e') {e : Entry K State}
    (he : e ∈ batch) :
    json.Kept v1 (json.writeBatchToV2 v2 batch) e := by
  obtain ⟨state, hslice, hpers⟩ := Option.map_eq_some_iff.mp (json.fromSlice_toVecPretty e.state)
  rw [Kept, onDisk, value?_writeBatch_of_mem json hone he, Option.bind_some, hslice, Option.some_or,
    Option.map_some, hpers]

theorem onDisk_writeBatch_of_not_mem {v2 : Table K Bytes} {batch : List (Entry K State)} {k : K}
    (h : k ∉ batch.map (·.symbol)) : json.onDisk v1 (json.writeBatchToV2 v2 batch) k =
      json.onDisk v1 v2 k := by
  rw [onDisk, onDisk, value?_writeBatch_of_not_mem json h]

end Json

/-! ### Where a cached state is -/

namespace Thread

/-- The symbols that the flush thread holds. -/
def symbols : Thread K State → List K
  | collecting _ symbols | reMarking _ symbols => symbols
  | _ => []

/-- The states that it is writing. -/
def batch : Thread K State → List (Entry K State)
  | writing _ batch => batch
  | _ => []

/-- It has seen the shutdown. -/
def isShutdown : Thread K State → Bool
  | waiting => false
  | draining isShutdown | collecting isShutdown _ | writing isShutdown _ | reMarking isShutdown _
  | finishing isShutdown _ => isShutdown
  | exited _ => true

/-- It has taken the marks after the shutdown, and has not put them back. -/
def drained : Thread K State → Bool
  | collecting isShutdown _ | writing isShutdown _ => isShutdown
  | finishing isShutdown flushed => isShutdown && flushed
  | exited flushed => flushed
  | _ => false

end Thread

namespace World

/-- A cached state is marked, or about to be, or in the hands of the flush thread, or on disk with
    nothing older on its way there. -/
def Safe (json : Json State Bytes P) (v1 : Table K Bytes) (w : World K State Bytes)
    (e : Entry K State) :
    Prop :=
  e.symbol ∈ w.dirty ∨ .mark e.symbol ∈ w.calls ∨ e.symbol ∈ w.thread.symbols ∨ e ∈ w.thread.batch ∨
    e.symbol ∉ w.thread.batch.map (·.symbol) ∧ json.Kept v1 w.v2 e

structure Sound (json : Json State Bytes P) (v1 : Table K Bytes) (w : World K State Bytes) : Prop where
  safe : ∀ e ∈ w.cache.items, w.Safe json v1 e
  batch : ∀ e ∈ w.thread.batch, ∀ e' ∈ w.thread.batch, e.symbol = e'.symbol → e = e'
  seen : w.thread.isShutdown = true → w.ctl.shutdown = true
  calls : w.ctl.shutdown = true → w.calls = []
  drained : w.thread.drained = true → w.thread.isShutdown = true ∧ w.dirty = []

variable {json : Json State Bytes P} {v1 : Table K Bytes} {w : World K State Bytes}

theorem snapshot_eq_some_iff {cache : Cache K State} {k : K} {state : State} :
    snapshot cache k = some state ↔ ⟨k, state⟩ ∈ cache.items := by
  rw [snapshot, Option.map_eq_some_iff]
  constructor
  · rintro ⟨e, he, rfl⟩
    obtain rfl := Store.key_of_get? he
    exact Store.mem_of_get? he
  · intro h
    exact ⟨⟨k, state⟩, Store.get?_of_mem h, rfl⟩

theorem mem_collect {cache : Cache K State} {symbols : List K} {e : Entry K State} :
    e ∈ collect cache symbols ↔ e.symbol ∈ symbols ∧ e ∈ cache.items := by
  rw [collect, List.mem_filterMap]
  constructor
  · rintro ⟨k, hk, he⟩
    obtain rfl := Store.key_of_get? he
    exact ⟨hk, Store.mem_of_get? he⟩
  · exact fun h => ⟨e.symbol, h.1, Store.get?_of_mem h.2⟩

theorem sound_opened (json : Json State Bytes P) (v1 v2 : Table K Bytes) :
    (opened json v1 v2).Sound json v1 where
  safe e he := by
    refine Or.inr (Or.inr (Or.inr (Or.inr ⟨List.not_mem_nil, ?_⟩)))
    have hsnap : json.onDisk v1 v2 e.symbol = some e.state := by
      rw [← json.snapshot_openStore]
      exact snapshot_eq_some_iff.mpr he
    change json.Kept v1 (json.openStore v1 v2).2 e
    obtain h2 | h2 := json.openStore_snd v1 v2
    · rw [h2]
      exact json.kept_writeBatch v1 (fun e he e' he' => Store.eq_of_mem_of_key_eq he he') he
    · rw [h2, Json.Kept, hsnap, Option.map_some]
  batch e he := absurd he List.not_mem_nil
  seen h := absurd h Bool.false_ne_true
  calls _ := rfl
  drained h := absurd h Bool.false_ne_true

theorem Sound.upsert (h : w.Sound json v1) (hctl : w.ctl.shutdown = false) (symbol : K)
    (state : State) :
    (w.upsert symbol state).Sound json v1 where
  safe e he := by
    obtain rfl | ⟨he, -⟩ := Store.mem_put.mp he
    · exact Or.inr (Or.inl List.mem_cons_self)
    · exact (h.safe e he).imp id (Or.imp (List.mem_cons_of_mem _) id)
  batch := h.batch
  seen := h.seen
  calls hs := Bool.noConfusion (hctl.symm.trans hs)
  drained := h.drained

theorem Sound.forget (h : w.Sound json v1) (hctl : w.ctl.shutdown = false) (symbol : K) :
    (w.forget symbol).Sound json v1 := by
  have hno : ¬w.ctl.shutdown = true := by rw [hctl]; exact Bool.false_ne_true
  rw [World.forget]
  split
  · refine ⟨fun e he => ?_, h.batch, h.seen, fun hs => absurd hs hno, h.drained⟩
    exact (h.safe e (Store.mem_erase.mp he).1).imp id (Or.imp (List.mem_cons_of_mem _) id)
  · refine ⟨fun e he => ?_, h.batch, h.seen, fun hs => absurd hs hno, h.drained⟩
    exact (h.safe e he).imp id (Or.imp (List.mem_cons_of_mem _) id)

theorem Sound.goOn (h : w.Sound json v1) {call : Call K} (hcall : call ∈ w.calls) :
    (w.goOn call).Sound json v1 := by
  have hno : ¬w.ctl.shutdown = true := fun hs => by
    rw [h.calls hs] at hcall
    exact List.not_mem_nil hcall
  cases call with
  | mark symbol =>
    refine ⟨fun e he => ?_, h.batch, h.seen, fun hs => absurd hs hno, fun hd => ?_⟩
    · by_cases hk : e.symbol = symbol
      · exact Or.inl (hk ▸ List.mem_insert_self)
      · refine (h.safe e he).imp List.mem_insert_of_mem (Or.imp (fun hm => ?_) id)
        refine List.mem_cons_of_mem _ ((List.mem_erase_of_ne ?_).mpr hm)
        exact fun heq => hk (Call.mark.inj heq)
    · exact absurd (h.seen (h.drained hd).1) hno
  | wake =>
    refine ⟨fun e he => ?_, h.batch, h.seen, fun hs => absurd hs hno, h.drained⟩
    refine (h.safe e he).imp id (Or.imp (fun hm => ?_) id)
    have hne : Call.mark e.symbol ≠ .wake := nofun
    exact (List.mem_erase_of_ne hne).mpr hm

theorem mem_reMarkDirty {cache : Cache K State} {dirty symbols : List K} {k : K} :
    k ∈ reMarkDirty cache dirty symbols ↔
      k ∈ dirty ∨ k ∈ symbols ∧ (snapshot cache k).isSome = true := by
  induction symbols generalizing dirty with
  | nil => simp [reMarkDirty]
  | cons symbol symbols ih =>
    rw [reMarkDirty, List.foldl_cons, ← reMarkDirty, ih, reMark]
    split
    · rename_i hsome
      rw [List.mem_insert_iff, List.mem_cons]
      constructor
      · rintro ((rfl | hd) | ⟨hk, hc⟩)
        · exact Or.inr ⟨Or.inl rfl, hsome⟩
        · exact Or.inl hd
        · exact Or.inr ⟨Or.inr hk, hc⟩
      · rintro (hd | ⟨rfl | hk, hc⟩)
        · exact Or.inl (Or.inr hd)
        · exact Or.inl (Or.inl rfl)
        · exact Or.inr ⟨hk, hc⟩
    · rename_i hnone
      rw [List.mem_cons]
      constructor
      · rintro (hd | ⟨hk, hc⟩)
        · exact Or.inl hd
        · exact Or.inr ⟨Or.inr hk, hc⟩
      · rintro (hd | ⟨rfl | hk, hc⟩)
        · exact Or.inl hd
        · exact absurd hc hnone
        · exact Or.inr ⟨hk, hc⟩

/-- What the marks come to is all that is cached of them, once each. -/
theorem Sound.collect {shut : Bool} {symbols : List K} (h : w.Sound json v1)
    (hth : w.thread = .collecting shut symbols) {e : Entry K State} (he : e ∈ w.cache.items) :
    e.symbol ∈ w.dirty ∨ .mark e.symbol ∈ w.calls ∨ e ∈ TickerDb.collect w.cache symbols ∨
      e.symbol ∉ (TickerDb.collect w.cache symbols).map (·.symbol) ∧ json.Kept v1 w.v2 e := by
  have hsafe := h.safe e he
  rw [Safe, hth] at hsafe
  obtain hd | hc | hs | hb | ⟨-, hk⟩ := hsafe
  · exact Or.inl hd
  · exact Or.inr (Or.inl hc)
  · exact Or.inr (Or.inr (Or.inl (mem_collect.mpr ⟨hs, he⟩)))
  · exact absurd hb List.not_mem_nil
  · by_cases hs : e.symbol ∈ symbols
    · exact Or.inr (Or.inr (Or.inl (mem_collect.mpr ⟨hs, he⟩)))
    · refine Or.inr (Or.inr (Or.inr ⟨fun hmem => ?_, hk⟩))
      obtain ⟨e', he', heq⟩ := List.mem_map.mp hmem
      exact hs (heq ▸ (mem_collect.mp he').1)

/-- Each stage of the flush thread hands on what it holds. -/
theorem Sound.flush (h : w.Sound json v1) (ok : Bool) : (w.flush json ok).Sound json v1 := by
  have hsafe := h.safe
  have hseen := h.seen
  have hdrained := h.drained
  have hbatch := h.batch
  simp only [Safe] at hsafe
  rw [World.flush]
  split <;> rename_i hth <;> rw [hth] at hsafe hseen hdrained hbatch
  case h_1 => exact ⟨hsafe, hbatch, id, h.calls, nofun⟩
  case h_2 shut =>
    refine ⟨fun e he => ?_, hbatch, hseen, h.calls, fun hd => ⟨hd, rfl⟩⟩
    obtain hd | hc | hs | hb | hk := hsafe e he
    · exact Or.inr (Or.inr (Or.inl hd))
    · exact Or.inr (Or.inl hc)
    · exact absurd hs List.not_mem_nil
    · exact absurd hb List.not_mem_nil
    · exact Or.inr (Or.inr (Or.inr (Or.inr hk)))
  case h_3 shut symbols =>
    have hcollect := fun e he => h.collect hth (e := e) he
    have hone : ∀ e ∈ TickerDb.collect w.cache symbols, ∀ e' ∈ TickerDb.collect w.cache symbols,
        e.symbol = e'.symbol → e = e' := fun e he e' he' =>
      Store.eq_of_mem_of_key_eq (mem_collect.mp he).2 (mem_collect.mp he').2
    split <;> rename_i hbt <;> rw [hbt] at hcollect hone
    case h_1 =>
      refine ⟨fun e he => ?_, fun e he => absurd he List.not_mem_nil, hseen, h.calls, fun hd => ?_⟩
      · exact (hcollect e he).imp id (Or.imp id Or.inr)
      · rw [Thread.drained, Bool.and_true] at hd
        exact hdrained hd
    case h_2 e₀ batch =>
      refine ⟨fun e he => ?_, hone, hseen, h.calls, hdrained⟩
      exact (hcollect e he).imp id (Or.imp id Or.inr)
  case h_4 shut batch =>
    split
    · refine ⟨fun e he => ?_, fun e he => absurd he List.not_mem_nil, hseen, h.calls, fun hd => ?_⟩
      · obtain hd | hc | hs | hb | ⟨hnot, hk⟩ := hsafe e he
        · exact Or.inl hd
        · exact Or.inr (Or.inl hc)
        · exact absurd hs List.not_mem_nil
        · refine Or.inr (Or.inr (Or.inr (Or.inr ⟨List.not_mem_nil, ?_⟩)))
          exact json.kept_writeBatch v1 hbatch hb
        · refine Or.inr (Or.inr (Or.inr (Or.inr ⟨List.not_mem_nil, ?_⟩)))
          exact (congrArg (Option.map json.persisted)
            (json.onDisk_writeBatch_of_not_mem v1 hnot)).trans hk
      · rw [Thread.drained, Bool.and_true] at hd
        exact hdrained hd
    · refine ⟨fun e he => ?_, fun e he => absurd he List.not_mem_nil, hseen, h.calls, nofun⟩
      obtain hd | hc | hs | hb | ⟨-, hk⟩ := hsafe e he
      · exact Or.inl hd
      · exact Or.inr (Or.inl hc)
      · exact absurd hs List.not_mem_nil
      · exact Or.inr (Or.inr (Or.inl (List.mem_map_of_mem hb)))
      · exact Or.inr (Or.inr (Or.inr (Or.inr ⟨List.not_mem_nil, hk⟩)))
  case h_5 shut symbols =>
    refine ⟨fun e he => ?_, fun e he => absurd he List.not_mem_nil, hseen, h.calls, fun hd => ?_⟩
    · obtain hd | hc | hs | hb | hk := hsafe e he
      · exact Or.inl (mem_reMarkDirty.mpr (Or.inl hd))
      · exact Or.inr (Or.inl hc)
      · refine Or.inl (mem_reMarkDirty.mpr (Or.inr ⟨hs, ?_⟩))
        rw [Option.isSome_iff_exists]
        exact ⟨e.state, snapshot_eq_some_iff.mpr he⟩
      · exact absurd hb List.not_mem_nil
      · exact Or.inr (Or.inr (Or.inr (Or.inr hk)))
    · rw [Thread.drained, Bool.and_false] at hd
      exact absurd hd Bool.false_ne_true
  case h_6 shut flushed =>
    split
    · rename_i hshut
      refine ⟨hsafe, hbatch, fun _ => hseen hshut, h.calls, fun hd => ⟨rfl, ?_⟩⟩
      exact (hdrained (by rw [Thread.drained, hshut]; exact hd)).2
    · exact ⟨hsafe, hbatch, nofun, h.calls, nofun⟩
  case h_7 flushed => exact h

theorem Sound.step (h : w.Sound json v1) (a : Act K State) : (w.step json a).Sound json v1 := by
  cases a with
  | upsert symbol state =>
    rw [World.step]
    split
    · exact h
    · exact h.upsert (eq_false_of_ne_true ‹_›) symbol state
  | forget symbol =>
    rw [World.step]
    split
    · exact h
    · exact h.forget (eq_false_of_ne_true ‹_›) symbol
  | goOn call =>
    rw [World.step]
    split
    · exact h.goOn ‹_›
    · exact h
  | shutdown =>
    rw [World.step]
    split
    · rename_i hcalls
      exact ⟨h.safe, h.batch, fun _ => rfl, fun _ => hcalls, h.drained⟩
    · exact h
  | flush ok => exact h.flush ok

/-! ### What comes back -/

/-- The act leaves a row that no state in the cache goes with: a symbol is forgotten that has a row,
    or a batch lands with a symbol that was forgotten since. -/
def Strands (json : Json State Bytes P) (v1 : Table K Bytes) (w : World K State Bytes) (k : K) :
    Act K State → Prop
  | .forget symbol =>
    symbol = k ∧ w.ctl.shutdown = false ∧ (snapshot w.cache k).isSome = true ∧
      (json.onDisk v1 w.v2 k).isSome = true
  | .flush ok => ok = true ∧ k ∈ w.thread.batch.map (·.symbol) ∧ snapshot w.cache k = none
  | _ => False

theorem v2_flush (w : World K State Bytes) (ok : Bool) :
    (w.flush json ok).v2 = if ok then json.writeBatchToV2 w.v2 w.thread.batch else w.v2 := by
  have hnil : (if ok then json.writeBatchToV2 w.v2 ([] : List (Entry K State)) else w.v2) = w.v2 :=
    ite_self _
  rw [World.flush]
  split <;> rename_i hth <;> rw [hth]
  case h_3 =>
    split
    · exact hnil.symm
    · exact hnil.symm
  case h_4 => split <;> rfl
  case h_6 =>
    split
    · exact hnil.symm
    · exact hnil.symm
  all_goals exact hnil.symm

theorem cache_flush (w : World K State Bytes) (ok : Bool) : (w.flush json ok).cache = w.cache := by
  rw [World.flush]
  split
  case h_3 => split <;> rfl
  case h_4 => split <;> rfl
  case h_6 => split <;> rfl
  all_goals rfl

/-- A row that is written can be read. -/
theorem onDisk_writeBatch {v2 : Table K Bytes} {batch : List (Entry K State)}
    (hone : ∀ e ∈ batch, ∀ e' ∈ batch, e.symbol = e'.symbol → e = e') (k : K) :
    (json.onDisk v1 (json.writeBatchToV2 v2 batch) k).isSome = true ↔
      k ∈ batch.map (·.symbol) ∨ (json.onDisk v1 v2 k).isSome = true := by
  by_cases hk : k ∈ batch.map (·.symbol)
  · refine iff_of_true ?_ (Or.inl hk)
    obtain ⟨e, he, rfl⟩ := List.mem_map.mp hk
    have hkept : json.Kept v1 (json.writeBatchToV2 v2 batch) e := json.kept_writeBatch v1 hone he
    obtain ⟨state, hstate, -⟩ := Option.map_eq_some_iff.mp hkept
    rw [hstate]
    rfl
  · rw [json.onDisk_writeBatch_of_not_mem v1 hk, or_iff_right hk]

/-- Rows come by batches and never go. -/
theorem onDisk_step (h : w.Sound json v1) (a : Act K State) (k : K) :
    (json.onDisk v1 (w.step json a).v2 k).isSome = true ↔
      (json.onDisk v1 w.v2 k).isSome = true ∨ a = .flush true ∧ k ∈ w.thread.batch.map (·.symbol) := by
  have hsame : (w.step json a).v2 = w.v2 → a ≠ .flush true →
      ((json.onDisk v1 (w.step json a).v2 k).isSome = true ↔
        (json.onDisk v1 w.v2 k).isSome = true ∨ a = .flush true ∧
          k ∈ w.thread.batch.map (·.symbol)) := by
    intro hv hne
    rw [hv, or_iff_left fun hf => hne hf.1]
  cases a with
  | upsert symbol state => exact hsame (by rw [step]; split <;> rfl) nofun
  | forget symbol =>
    refine hsame ?_ nofun
    rw [step]
    split
    · rfl
    · rw [World.forget]
      split <;> rfl
  | goOn call =>
    refine hsame ?_ nofun
    rw [step]
    split
    · cases call <;> rfl
    · rfl
  | shutdown => exact hsame (by rw [step]; split <;> rfl) nofun
  | flush ok =>
    cases ok with
    | false => exact hsame (v2_flush w false) nofun
    | true =>
      rw [step, v2_flush, if_pos rfl, onDisk_writeBatch h.batch, or_comm]
      exact or_congr Iff.rfl (and_iff_right rfl).symm

/-- A symbol without a state only comes to have a row by an act that strands it. -/
theorem strands_or_before (h : w.Sound json v1) {a : Act K State} {k : K}
    (hcache : snapshot (w.step json a).cache k = none)
    (hdisk : (json.onDisk v1 (w.step json a).v2 k).isSome = true) :
    Strands json v1 w k a ∨ snapshot w.cache k = none ∧ (json.onDisk v1 w.v2 k).isSome = true := by
  rw [onDisk_step h] at hdisk
  cases a with
  | upsert symbol state =>
    have hdisk := hdisk.resolve_right fun hf => nomatch hf.1
    refine Or.inr ⟨?_, hdisk⟩
    rw [step] at hcache
    split at hcache
    · exact hcache
    · change snapshot (seed w.cache symbol state) k = none at hcache
      rw [snapshot_seed] at hcache
      split at hcache
      · cases hcache
      · exact hcache
  | forget symbol =>
    have hdisk := hdisk.resolve_right fun hf => nomatch hf.1
    rw [step] at hcache
    split at hcache
    · exact Or.inr ⟨hcache, hdisk⟩
    · rename_i hctl
      rw [World.forget] at hcache
      split at hcache
      · rename_i hsome
        by_cases hk : symbol = k
        · subst hk
          exact Or.inl ⟨rfl, eq_false_of_ne_true hctl, hsome, hdisk⟩
        · refine Or.inr ⟨?_, hdisk⟩
          have hget := Store.get?_erase w.cache symbol k
          rw [if_neg (Ne.symm hk)] at hget
          rw [snapshot, ← hget]
          exact hcache
      · exact Or.inr ⟨hcache, hdisk⟩
  | goOn call =>
    have hdisk := hdisk.resolve_right fun hf => nomatch hf.1
    refine Or.inr ⟨?_, hdisk⟩
    rw [step] at hcache
    split at hcache
    · cases call <;> exact hcache
    · exact hcache
  | shutdown =>
    have hdisk := hdisk.resolve_right fun hf => nomatch hf.1
    refine Or.inr ⟨?_, hdisk⟩
    rw [step] at hcache
    split at hcache <;> exact hcache
  | flush ok =>
    rw [step, cache_flush] at hcache
    obtain hdisk | ⟨hok, hbatch⟩ := hdisk
    · exact Or.inr ⟨hcache, hdisk⟩
    · exact Or.inl ⟨Act.flush.inj hok, hbatch, hcache⟩

theorem onDisk_of_strands (h : w.Sound json v1) {a : Act K State} {k : K}
    (hs : Strands json v1 w k a) : (json.onDisk v1 (w.step json a).v2 k).isSome = true := by
  rw [onDisk_step h]
  cases a with
  | forget symbol => exact Or.inl hs.2.2.2
  | flush ok =>
    obtain ⟨rfl, hbatch, -⟩ := hs
    exact Or.inr ⟨rfl, hbatch⟩
  | upsert symbol state => exact absurd hs id
  | goOn call => exact absurd hs id
  | shutdown => exact absurd hs id

/-! ### Runs -/

theorem sound_run (json : Json State Bytes P) (v1 v2 : Table K Bytes) (acts : List (Act K State)) :
    (run (step json) (opened json v1 v2) acts).Sound json v1 :=
  inv_run (step json) (I := Sound json v1) (fun _ a h => h.step a) (sound_opened json v1 v2) acts

theorem onDisk_run (h : w.Sound json v1) {k : K} (hk : (json.onDisk v1 w.v2 k).isSome = true)
    (acts : List (Act K State)) : (json.onDisk v1 (run (step json) w acts).v2 k).isSome = true :=
  (inv_run (step json) (I := fun w => w.Sound json v1 ∧ (json.onDisk v1 w.v2 k).isSome = true)
    (fun _ a hw => ⟨hw.1.step a, (onDisk_step hw.1 a k).mpr (Or.inl hw.2)⟩) ⟨h, hk⟩ acts).2

/-- A row without a state goes back to an act that stranded its symbol. -/
theorem stranded_before (json : Json State Bytes P) (v1 v2 : Table K Bytes) {k : K}
    (acts : List (Act K State))
    (hcache : snapshot (run (step json) (opened json v1 v2) acts).cache k = none)
    (hdisk : (json.onDisk v1 (run (step json) (opened json v1 v2) acts).v2 k).isSome = true) :
    ∃ pre a, pre ++ [a] <+: acts ∧ Strands json v1 (run (step json) (opened json v1 v2) pre) k a := by
  induction acts using List.reverseRecOn with
  | nil =>
    exfalso
    change snapshot (json.openStore v1 v2).1 k = none at hcache
    change (json.onDisk v1 (json.openStore v1 v2).2 k).isSome = true at hdisk
    have hnot : k ∉ (json.openStore v1 v2).1.items.map (·.symbol) := by
      intro hmem
      obtain ⟨e, he, rfl⟩ := List.mem_map.mp hmem
      rw [snapshot_eq_some_iff.mpr he] at hcache
      cases hcache
    have hsame : json.onDisk v1 (json.openStore v1 v2).2 k = json.onDisk v1 v2 k := by
      obtain h2 | h2 := json.openStore_snd v1 v2
      · rw [h2, json.onDisk_writeBatch_of_not_mem v1 hnot]
      · rw [h2]
    rw [hsame, ← json.snapshot_openStore, hcache] at hdisk
    cases hdisk
  | append_singleton acts a ih =>
    rw [run_concat] at hcache hdisk
    obtain hs | ⟨hcache, hdisk⟩ := strands_or_before (sound_run json v1 v2 acts) hcache hdisk
    · exact ⟨acts, a, List.prefix_rfl, hs⟩
    · obtain ⟨pre, b, hpre, hs⟩ := ih hcache hdisk
      exact ⟨pre, b, hpre.trans (List.prefix_append acts [a]), hs⟩

/-- After the last write nothing cached is missing on disk. -/
theorem kept_of_exited (h : w.Sound json v1) (hexit : w.thread = .exited true) {e : Entry K State}
    (he : e ∈ w.cache.items) : json.Kept v1 w.v2 e := by
  have hdirty : w.dirty = [] := (h.drained (by rw [hexit]; rfl)).2
  have hcalls : w.calls = [] := h.calls (h.seen (by rw [hexit]; rfl))
  have hsafe := h.safe e he
  rw [Safe, hdirty, hcalls, hexit] at hsafe
  obtain hd | hc | hs | hb | ⟨-, hk⟩ := hsafe
  · exact absurd hd List.not_mem_nil
  · exact absurd hc List.not_mem_nil
  · exact absurd hs List.not_mem_nil
  · exact absurd hb List.not_mem_nil
  · exact hk

/-- A store that is shut down and opened again has what was cached, as far as it is persisted, just
    where every symbol that was stranded on the way is cached at the end. -/
theorem restart_exact_iff (json : Json State Bytes P) (v1 v2 : Table K Bytes)
    (acts : List (Act K State))
    (hexit : (run (step json) (opened json v1 v2) acts).thread = .exited true) :
    (∀ k,
      (snapshot (json.openStore v1 (run (step json) (opened json v1 v2) acts).v2).1 k).map json.persisted =
      (snapshot (run (step json) (opened json v1 v2) acts).cache k).map json.persisted) ↔
    AllSteps (step json) (fun w a => ∀ k, Strands json v1 w k a →
      (snapshot (run (step json) (opened json v1 v2) acts).cache k).isSome = true)
        (opened json v1 v2) acts := by
  have hsound := sound_run json v1 v2 acts
  simp only [json.snapshot_openStore]
  constructor
  · intro h pre a hpre k hs
    obtain ⟨post, hpost⟩ := hpre
    have hdisk := onDisk_run ((sound_run json v1 v2 pre).step a)
      (onDisk_of_strands (sound_run json v1 v2 pre) hs) post
    rw [← run_concat (step json) _ pre a, ← run_append, hpost] at hdisk
    rw [← Option.isSome_map (f := json.persisted), ← h k, Option.isSome_map]
    exact hdisk
  · intro h k
    cases hk : snapshot (run (step json) (opened json v1 v2) acts).cache k with
    | some state => exact kept_of_exited hsound hexit (snapshot_eq_some_iff.mp hk)
    | none =>
      have hnone : ¬(json.onDisk v1 (run (step json) (opened json v1 v2) acts).v2 k).isSome = true := by
        intro hdisk
        obtain ⟨pre, a, hpre, hs⟩ := stranded_before json v1 v2 acts hk hdisk
        have := h pre a hpre k hs
        rw [hk] at this
        cases this
      rw [Option.not_isSome_iff_eq_none.mp hnone]

/-! ### One symbol -/

/-- States that are numbers, and their own text. -/
def plain : Json ℕ ℕ ℕ where
  toVecPretty := id
  fromSlice := some
  fromSliceV1 := some
  persisted := id
  fromSlice_toVecPretty _ := rfl

/-- What is left of a call after its first lock. -/
def rest (symbol : String) : List (Act String ℕ) := [.goOn (.mark symbol), .goOn .wake]

/-- An iteration of the flush thread that writes, and one that has nothing to write. -/
def flushed : List (Act String ℕ) := List.replicate 5 (.flush true)

def idle : List (Act String ℕ) := List.replicate 4 (.flush true)

/-- A symbol is written, forgotten, and there again after the restart. -/
theorem forgotten_comes_back :
    let acts := [.upsert "GOOG" 7] ++ rest "GOOG" ++ flushed ++ [.forget "GOOG"] ++ rest "GOOG" ++
      [.shutdown] ++ idle
    let w := run (step plain) (opened plain .empty .empty) acts
    w.thread matches .exited true ∧ snapshot w.cache "GOOG" = none ∧
      snapshot (plain.openStore .empty w.v2).1 "GOOG" = some 7 := by
  decide +kernel

/-- The same without the call to forget. -/
theorem restart_exact_iff_oneUpsert :
    let acts := [.upsert "GOOG" 7] ++ rest "GOOG" ++ [.shutdown] ++ flushed
    let w := run (step plain) (opened plain .empty .empty) acts
    (∀ k, (snapshot (plain.openStore .empty w.v2).1 k).map plain.persisted =
        (snapshot w.cache k).map plain.persisted) ↔
      AllSteps (step plain) (fun w' a => ∀ k, Strands plain .empty w' k a →
        (snapshot w.cache k).isSome = true) (opened plain .empty .empty) acts :=
  restart_exact_iff plain .empty .empty _ rfl

end World

end Midas.TickerDb
