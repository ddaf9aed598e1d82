import HandOfMidas.Bars.Series
import HandOfMidas.Core.Symbol
import HandOfMidas.Lib.Store
import HandOfMidas.Calendar.CryptoSpot
import HandOfMidas.Lib.Run

/-! The drivers of the session charts and the registry of their series (`driver.rs` and `registry.rs` of
    `session_chart`). A driver that is dropped takes its key out of the registry and lets go of the
    handle of its pump; a task whose handle is dropped goes on by itself, only `abort` would stop it.
    The registry has weak handles, which find a series as long as a driver, a pump or somebody outside
    holds it. An entry of the registry always belongs to a live driver, for whoever is dropped takes the
    entry of its key away; but it may be the entry of another panel that is taken. And a pump goes on
    with whatever its stream yields after its driver is dropped. -/

namespace Midas.SessionChart

open Bars

abbrev SeriesId := ℕ

abbrev DriverId := ℕ

/-! ### The registry -/

/-- An entry of the registry: a weak handle under its key. -/
structure Entry where
  key : SymbolKey
  series : SeriesId

/-- `SymbolSeriesRegistry`. -/
abbrev SymbolSeriesRegistry := Store Entry.key

namespace SymbolSeriesRegistry

def register (r : SymbolSeriesRegistry) (sym : SymbolKey) (series : SeriesId) : SymbolSeriesRegistry :=
  r.put ⟨sym, series⟩

def deregister (r : SymbolSeriesRegistry) (sym : SymbolKey) : SymbolSeriesRegistry := r.erase sym

/-- `get`, where `strong` says which series are still held. -/
def get (r : SymbolSeriesRegistry) (strong : SeriesId → Bool) (sym : SymbolKey) : Option SeriesId := do
  let entry ← r.get? sym
  if strong entry.series then some entry.series else none

def cleanup (r : SymbolSeriesRegistry) (strong : SeriesId → Bool) : SymbolSeriesRegistry :=
  r.retain fun entry => strong entry.series

end SymbolSeriesRegistry

/-! ### Drivers and pumps -/

/-- `SessionChartDriver`, of `spawn_with_registry`. -/
structure Driver where
  id : DriverId
  key : SymbolKey
  series : SeriesId

/-- A pump task that has not ended. -/
structure Pump where
  driver : DriverId
  series : SeriesId

structure World (F : Type) where
  contents : SeriesId → CandleSeries F
  registry : SymbolSeriesRegistry
  /-- The drivers that have not been dropped. -/
  drivers : List Driver
  pumps : List Pump
  /-- Clones of series that others hold. -/
  outside : List SeriesId
  spawned : ℕ

inductive Op where
  | spawnWithRegistry (series : SeriesId) (key : SymbolKey)
  | drop (driver : DriverId)
  /-- The stream of a pump yields a candle, or closes. -/
  | pump (driver : DriverId) (next : Option Candle)
  | cleanup
  | clone (series : SeriesId)
  | release (series : SeriesId)

namespace World

variable {F : Type} (asF32 : ℚ → F) (nan : F)

/-- Nothing is spawned yet; the series are as they will be handed over. -/
def start (contents : SeriesId → CandleSeries F) : World F := ⟨contents, .empty, [], [], [], 0⟩

/-- `strong_count() > 0`. -/
def strong (w : World F) (series : SeriesId) : Bool :=
  w.drivers.any (·.series = series) || w.pumps.any (·.series = series) || w.outside.contains series

/-- `SymbolSeriesRegistry::get`. -/
def get (w : World F) (sym : SymbolKey) : Option SeriesId :=
  SymbolSeriesRegistry.get w.registry w.strong sym

/-- `spawn_with_registry`, with `spawn_inner`. -/
def spawnWithRegistry (w : World F) (series : SeriesId) (key : SymbolKey) : World F :=
  { w with
    registry := SymbolSeriesRegistry.register w.registry key series
    drivers := w.drivers ++ [⟨w.spawned, key, series⟩]
    pumps := w.pumps ++ [⟨w.spawned, series⟩]
    spawned := w.spawned + 1 }

/-- `Drop::drop`, and the drop of the fields after it. The handle of the pump is one of them. -/
def drop (w : World F) (d : DriverId) : World F :=
  match w.drivers.find? (·.id = d) with
  | none => w
  | some driver =>
    { w with
      registry := SymbolSeriesRegistry.deregister w.registry driver.key
      drivers := w.drivers.filter (·.id ≠ d) }

/-- A pump comes to its end. -/
def endPump (w : World F) (d : DriverId) : World F :=
  { w with pumps := w.pumps.filter (·.driver ≠ d) }

/-- One round of a pump. A candle that the series panics on ends the task, as the end of the stream
    does. -/
def pump (w : World F) (d : DriverId) (next : Option Candle) : World F :=
  match w.pumps.find? (·.driver = d), next with
  | none, _ => w
  | some _, none => w.endPump d
  | some p, some candle =>
    match (w.contents p.series).apply asF32 nan candle with
    | none => w.endPump d
    | some series => { w with contents := Function.update w.contents p.series series }

def step (w : World F) : Op → World F
  | .spawnWithRegistry series key => w.spawnWithRegistry series key
  | .drop d => w.drop d
  | .pump d next => w.pump asF32 nan d next
  | .cleanup => { w with registry := SymbolSeriesRegistry.cleanup w.registry w.strong }
  | .clone series => { w with outside := series :: w.outside }
  | .release series => { w with outside := w.outside.erase series }

end World

end Midas.SessionChart

/-! ### Charts on several panels -/

namespace Midas.SessionChart.World

open Bars

variable {F : Type} (asF32 : ℚ → F) (nan : F)

/-- The registry finds the series of a live driver wherever there is one, and nothing elsewhere. -/
structure Serves (w : World F) : Prop where
  live : ∀ key, (∃ d ∈ w.drivers, d.key = key) →
    ∃ d ∈ w.drivers, d.key = key ∧ w.get key = some d.series
  gone : ∀ key, (∀ d ∈ w.drivers, d.key ≠ key) → w.get key = none

/-- The pump of a driver that is dropped applies nothing to any series. -/
def Quiet (w : World F) (op : Op) : Prop :=
  ∀ d next, op = .pump d next → (∀ x ∈ w.drivers, x.id ≠ d) →
    (step asF32 nan w op).contents = w.contents

/-- A driver that is dropped is the only live one of its key. -/
def Alone (w : World F) (op : Op) : Prop :=
  ∀ d, op = .drop d → ∀ x ∈ w.drivers, x.id = d → ∀ y ∈ w.drivers, y.key = x.key → y.id = d

/-- The stream of a dropped driver yields no candle, or the pump has ended, or the series panics on the
    candle. -/
def Spent (w : World F) (op : Op) : Prop :=
  ∀ d candle, op = .pump d (some candle) → (∀ x ∈ w.drivers, x.id ≠ d) →
    ∀ p, w.pumps.find? (·.driver = d) = some p → (w.contents p.series).apply asF32 nan candle = none

/-! ### The registry -/

/-- Entries of the registry belong to live drivers. -/
structure Sound (w : World F) : Prop where
  entry : ∀ e ∈ w.registry.items, ∃ d ∈ w.drivers, d.key = e.key ∧ d.series = e.series
  fresh : ∀ d ∈ w.drivers, d.id < w.spawned
  nodup : (w.drivers.map Driver.id).Nodup

variable {w : World F}

theorem strong_of_mem {d : Driver} (hd : d ∈ w.drivers) : w.strong d.series = true := by
  unfold strong
  simp only [Bool.or_eq_true, List.any_eq_true, decide_eq_true_eq]
  exact .inl (.inl ⟨d, hd, rfl⟩)

theorem Sound.strong (h : w.Sound) {e : Entry} (he : e ∈ w.registry.items) :
    w.strong e.series = true := by
  obtain ⟨d, hd, -, hseries⟩ := h.entry e he
  exact hseries ▸ strong_of_mem hd

/-- The series of an entry is held by its driver, so the weak handle finds it. -/
theorem Sound.get_eq (h : w.Sound) (key : SymbolKey) :
    w.get key = (w.registry.get? key).map Entry.series := by
  unfold World.get SymbolSeriesRegistry.get
  cases hentry : w.registry.get? key with
  | none => rfl
  | some e =>
    simp only [Option.bind_eq_bind, Option.bind_some, Option.map_some]
    exact if_pos (h.strong (Store.mem_of_get? hentry))

/-- Every live driver has an entry under its key. -/
def Covered (w : World F) : Prop := ∀ d ∈ w.drivers, ∃ e, w.registry.get? d.key = some e

theorem Sound.serves_iff (h : w.Sound) : w.Serves ↔ w.Covered := by
  constructor
  · intro hserves d hd
    obtain ⟨d', -, -, hget⟩ := hserves.live d.key ⟨d, hd, rfl⟩
    rw [h.get_eq, Option.map_eq_some_iff] at hget
    obtain ⟨e, he, -⟩ := hget
    exact ⟨e, he⟩
  · intro hcovered
    constructor
    · rintro key ⟨d, hd, rfl⟩
      obtain ⟨e, he⟩ := hcovered d hd
      obtain ⟨d', hd', hkey, hseries⟩ := h.entry e (Store.mem_of_get? he)
      refine ⟨d', hd', hkey.trans (Store.key_of_get? he), ?_⟩
      rw [h.get_eq, he, Option.map_some, hseries]
    · intro key hnone
      rw [h.get_eq]
      cases he : w.registry.get? key with
      | none => rfl
      | some e =>
        obtain ⟨d, hd, hkey, -⟩ := h.entry e (Store.mem_of_get? he)
        exact absurd (hkey.trans (Store.key_of_get? he)) (hnone d hd)

/-! ### One step -/

theorem find?_driver (h : w.Sound) {driver : Driver} (hd : driver ∈ w.drivers) :
    w.drivers.find? (·.id = driver.id) = some driver := by
  cases hfind : w.drivers.find? (·.id = driver.id) with
  | none => simpa using List.find?_eq_none.mp hfind driver hd
  | some x =>
    have hid : x.id = driver.id := by simpa using List.find?_some hfind
    rw [List.inj_on_of_nodup_map h.nodup (List.mem_of_find?_eq_some hfind) hd hid]

/-- The drop of a live driver. -/
theorem drop_live (h : w.Sound) {driver : Driver} (hd : driver ∈ w.drivers) :
    w.drop driver.id = { w with
      registry := w.registry.erase driver.key
      drivers := w.drivers.filter (·.id ≠ driver.id) } := by
  unfold World.drop
  rw [find?_driver h hd]
  rfl

theorem drop_gone {d : DriverId} (h : ∀ x ∈ w.drivers, x.id ≠ d) : w.drop d = w := by
  unfold World.drop
  rw [List.find?_eq_none.mpr fun x hx => by simpa using h x hx]

/-- A round of a pump touches pumps and contents only. -/
theorem pump_frame (w : World F) (d : DriverId) (next : Option Candle) :
    (w.pump asF32 nan d next).registry = w.registry ∧
      (w.pump asF32 nan d next).drivers = w.drivers ∧
      (w.pump asF32 nan d next).spawned = w.spawned := by
  unfold World.pump
  split
  · exact ⟨rfl, rfl, rfl⟩
  · exact ⟨rfl, rfl, rfl⟩
  · split <;> exact ⟨rfl, rfl, rfl⟩

theorem sound_of_frame {w' : World F} (h : w.Sound) (hregistry : w'.registry = w.registry)
    (hdrivers : w'.drivers = w.drivers) (hspawned : w'.spawned = w.spawned) : w'.Sound := by
  refine ⟨?_, ?_, ?_⟩
  · rw [hregistry, hdrivers]
    exact h.entry
  · rw [hdrivers, hspawned]
    exact h.fresh
  · rw [hdrivers]
    exact h.nodup

theorem Sound.spawn (h : w.Sound) (series : SeriesId) (key : SymbolKey) :
    (w.spawnWithRegistry series key).Sound := by
  refine ⟨fun e he => ?_, fun d hd => ?_, ?_⟩
  · rcases Store.mem_put.mp he with rfl | ⟨he, -⟩
    · exact ⟨⟨w.spawned, key, series⟩, List.mem_append_right _ (List.mem_singleton.mpr rfl), rfl, rfl⟩
    · obtain ⟨d, hd, hkey, hseries⟩ := h.entry e he
      exact ⟨d, List.mem_append_left _ hd, hkey, hseries⟩
  · change d.id < w.spawned + 1
    rcases List.mem_append.mp hd with hd | hd
    · exact Nat.lt_succ_of_lt (h.fresh d hd)
    · rw [List.mem_singleton.mp hd]
      exact Nat.lt_succ_self _
  · change ((w.drivers ++ [_]).map Driver.id).Nodup
    rw [List.map_append, List.nodup_append]
    refine ⟨h.nodup, List.nodup_singleton _, fun a ha b hb => ?_⟩
    obtain ⟨d, hd, rfl⟩ := List.mem_map.mp ha
    rw [List.mem_singleton.mp hb]
    exact (h.fresh d hd).ne

theorem Sound.drop (h : w.Sound) {driver : Driver} (hd : driver ∈ w.drivers) :
    (w.drop driver.id).Sound := by
  rw [drop_live h hd]
  refine ⟨fun e he => ?_, fun d hd => h.fresh d (List.mem_filter.mp hd).1,
    h.nodup.sublist (List.filter_sublist.map _)⟩
  obtain ⟨he, hkey⟩ := Store.mem_erase.mp he
  obtain ⟨d, hd', hdkey, hseries⟩ := h.entry e he
  refine ⟨d, List.mem_filter.mpr ⟨hd', ?_⟩, hdkey, hseries⟩
  -- Another driver's entry stays, for it has another key.
  simp only [ne_eq, decide_eq_true_eq]
  intro hid
  obtain rfl := List.inj_on_of_nodup_map h.nodup hd' hd hid
  exact hkey hdkey.symm

theorem Sound.cleanup_eq (h : w.Sound) :
    (SymbolSeriesRegistry.cleanup w.registry w.strong).items = w.registry.items :=
  List.filter_eq_self.mpr fun _ he => h.strong he

theorem Sound.step (h : w.Sound) (op : Op) : (step asF32 nan w op).Sound := by
  cases op with
  | spawnWithRegistry series key => exact h.spawn series key
  | drop d =>
    by_cases hlive : ∃ x ∈ w.drivers, x.id = d
    · obtain ⟨driver, hd, rfl⟩ := hlive
      exact h.drop hd
    · change (w.drop d).Sound
      rw [drop_gone fun x hx hid => hlive ⟨x, hx, hid⟩]
      exact h
  | pump d next =>
    obtain ⟨hregistry, hdrivers, hspawned⟩ := pump_frame asF32 nan w d next
    exact sound_of_frame h hregistry hdrivers hspawned
  | cleanup => exact ⟨fun e he => h.entry e (h.cleanup_eq ▸ he), h.fresh, h.nodup⟩
  | clone series => exact sound_of_frame h rfl rfl rfl
  | release series => exact sound_of_frame h rfl rfl rfl

/-- The drop of a driver keeps the entries of the others exactly when its key is its own. -/
theorem covered_drop_iff (h : w.Sound) (hc : w.Covered) {driver : Driver} (hd : driver ∈ w.drivers) :
    (w.drop driver.id).Covered ↔ ∀ y ∈ w.drivers, y.key = driver.key → y.id = driver.id := by
  rw [drop_live h hd]
  constructor
  · intro hcovered y hy hkey
    by_contra hid
    obtain ⟨e, he⟩ := hcovered y (List.mem_filter.mpr ⟨hy, decide_eq_true hid⟩)
    change (w.registry.erase driver.key).get? y.key = some e at he
    rw [Store.get?_erase, if_pos hkey] at he
    cases he
  · intro hown y hy
    obtain ⟨hy, hid⟩ := List.mem_filter.mp hy
    obtain ⟨e, he⟩ := hc y hy
    refine ⟨e, ?_⟩
    change (w.registry.erase driver.key).get? y.key = some e
    rw [Store.get?_erase, if_neg fun hkey => of_decide_eq_true hid (hown y hy hkey), he]

theorem covered_of_frame {w' : World F} (hregistry : w'.registry = w.registry)
    (hdrivers : w'.drivers = w.drivers) : w'.Covered ↔ w.Covered := by
  unfold Covered
  rw [hregistry, hdrivers]

theorem covered_spawn (hc : w.Covered) (series : SeriesId) (key : SymbolKey) :
    (w.spawnWithRegistry series key).Covered := by
  intro d hd
  change ∃ e, (w.registry.put ⟨key, series⟩).get? d.key = some e
  rw [Store.get?_put]
  split
  · exact ⟨_, rfl⟩
  · rename_i hne
    rcases List.mem_append.mp hd with hd | hd
    · exact hc d hd
    · rw [List.mem_singleton.mp hd] at hne
      exact absurd rfl hne

theorem covered_cleanup (h : w.Sound) (hc : w.Covered) :
    (step asF32 nan w .cleanup).Covered := by
  intro d hd
  obtain ⟨e, he⟩ := hc d hd
  refine ⟨e, ?_⟩
  change (w.registry.retain fun entry => w.strong entry.series).get? d.key = some e
  rw [Store.get?_retain, he, Option.filter_some, if_pos (h.strong (Store.mem_of_get? he))]

/-- Only the drop of a driver beside another one of its key leaves a live driver without an entry. -/
theorem covered_step_iff (h : w.Sound) (hc : w.Covered) (op : Op) :
    (step asF32 nan w op).Covered ↔ w.Alone op := by
  cases op with
  | spawnWithRegistry series key => exact iff_of_true (covered_spawn hc series key) nofun
  | drop d =>
    by_cases hlive : ∃ x ∈ w.drivers, x.id = d
    · obtain ⟨driver, hd, rfl⟩ := hlive
      refine (covered_drop_iff h hc hd).trans ⟨fun hown d' hop x hx hid => ?_, fun halone => ?_⟩
      · obtain rfl := Op.drop.inj hop
        obtain rfl := List.inj_on_of_nodup_map h.nodup hx hd hid
        exact hown
      · exact halone driver.id rfl driver hd rfl
    · refine iff_of_true ?_ fun d' hop x hx hid => ?_
      · change (w.drop d).Covered
        rw [drop_gone fun x hx hid => hlive ⟨x, hx, hid⟩]
        exact hc
      · obtain rfl := Op.drop.inj hop
        exact absurd ⟨x, hx, hid⟩ hlive
  | pump d next =>
    obtain ⟨hregistry, hdrivers, -⟩ := pump_frame asF32 nan w d next
    exact iff_of_true ((covered_of_frame hregistry hdrivers).mpr hc) nofun
  | cleanup => exact iff_of_true (covered_cleanup asF32 nan h hc) nofun
  | clone series => exact iff_of_true hc nofun
  | release series => exact iff_of_true hc nofun

/-- A candle that is applied leaves its mark on the series. -/
theorem quiet_iff_spent (w : World F) (op : Op) :
    w.Quiet asF32 nan op ↔ w.Spent asF32 nan op := by
  constructor
  · rintro hquiet d candle rfl hgone p hp
    have hsame := hquiet d (some candle) rfl hgone
    change (w.pump asF32 nan d (some candle)).contents = w.contents at hsame
    unfold World.pump at hsame
    rw [hp] at hsame
    dsimp only at hsame
    split at hsame
    · assumption
    · rename_i series happly
      have hseries := congrFun hsame p.series
      dsimp only at hseries
      rw [Function.update_self] at hseries
      have hversion := CandleSeries.version_apply asF32 nan happly
      rw [hseries] at hversion
      omega
  · rintro hspent d next rfl hgone
    change (w.pump asF32 nan d next).contents = w.contents
    unfold World.pump
    split
    · rfl
    · rfl
    · rename_i p candle hp
      rw [hspent d candle rfl hgone p hp]
      rfl

/-! ### Runs -/

theorem sound_start (contents : SeriesId → CandleSeries F) : (start contents).Sound :=
  ⟨nofun, nofun, List.nodup_nil⟩

/-- In every run the registry serves the live drivers, and no dropped driver's pump writes any more,
    exactly when every driver is alone on its key at its drop and its stream is spent. -/
theorem drivers_independent_iff (contents : SeriesId → CandleSeries F) (ops : List Op) :
    AllStates (step asF32 nan) Serves (start contents) ops ∧
        AllSteps (step asF32 nan) (Quiet asF32 nan) (start contents) ops ↔
      AllSteps (step asF32 nan) (fun w op => w.Alone op ∧ w.Spent asF32 nan op) (start contents)
        ops := by
  have hserves : AllStates (step asF32 nan) Serves (start contents) ops ↔
      AllSteps (step asF32 nan) Alone (start contents) ops := by
    refine allStates_iff_allSteps (step asF32 nan) (I := Sound) (fun w op h => h.step asF32 nan op)
      (fun w op h hw => ?_) (sound_start contents) ⟨nofun, fun _ _ => rfl⟩ ops
    rw [(h.step asF32 nan op).serves_iff, covered_step_iff asF32 nan h (h.serves_iff.mp hw)]
  rw [hserves]
  constructor
  · rintro ⟨halone, hquiet⟩ pre op hpre
    exact ⟨halone pre op hpre, (quiet_iff_spent asF32 nan _ op).mp (hquiet pre op hpre)⟩
  · intro h
    exact ⟨fun pre op hpre => (h pre op hpre).1,
      fun pre op hpre => (quiet_iff_spent asF32 nan _ op).mpr (h pre op hpre).2⟩

/-! ### Two panels of one symbol -/

def btc : SymbolKey := ⟨0, "BTC-USD"⟩

/-- The first minute of 1970. -/
def firstMinute : Candle :=
  let session := Calendar.Session.new Calendar.CryptoSpot.cryptoSpotId .regular 0 (Instant.ofDate 1)
  ⟨⟨"BTC-USD", Calendar.CryptoSpot.cryptoSpotId⟩, Calendar.CryptoSpot.cryptoSpotId,
    .clock (.minutes 1), session, ⟨0, Instant.ofTimestamp 60, session⟩, 1, 1, 1, 1, 0, 0, none,
    .completed⟩

/-- Series of minutes without a candle. -/
def emptySeries : SeriesId → CandleSeries ℚ := fun _ =>
  .new Calendar.CryptoSpot.cryptoSpotId (.clock (.minutes 1))
    ⟨"BTC-USD", Calendar.CryptoSpot.cryptoSpotId⟩

/-- The drop of the first of two panels hides the second, and the pump of a panel that is closed takes
    one more candle. -/
theorem shared_key_and_late_candle :
    (¬ ∀ (contents : SeriesId → CandleSeries ℚ) (ops : List Op),
        AllStates (step id 0) Serves (start contents) ops) ∧
      ¬ ∀ (contents : SeriesId → CandleSeries ℚ) (ops : List Op),
        AllSteps (step id 0) (Quiet id 0) (start contents) ops := by
  constructor
  · intro h
    have hlast := (h emptySeries [.spawnWithRegistry 0 btc, .spawnWithRegistry 1 btc, .drop 0]).last
    obtain ⟨d, -, -, hget⟩ := hlast.live btc ⟨⟨1, btc, 1⟩, List.mem_singleton.mpr rfl, rfl⟩
    cases hget
  · intro h
    have hquiet := h emptySeries [.spawnWithRegistry 0 btc, .drop 0, .pump 0 (some firstMinute)]
      [.spawnWithRegistry 0 btc, .drop 0] (.pump 0 (some firstMinute)) List.prefix_rfl
    have hsame := congrFun (hquiet 0 (some firstMinute) rfl nofun) 0
    exact absurd (congrArg CandleSeries.version hsame) (by decide)

end Midas.SessionChart.World
