import Mathlib.Data.String.Basic
import Mathlib.Data.Rat.Defs
import HandOfMidas.Lib.Preorder
import HandOfMidas.Lib.SortedMap

/-! The configuration of the desktop app (crate `midas-core`) as far as its migrations read and
    write it: the panel pools, the layout of each window, and the lists that older versions kept. And the
    migrations (`config/migrations.rs`), from version 1 on, with the validation after them. -/

namespace Midas.Config

inductive LinkColor where | blue | red | orange | green | purple | violet | teal | brown
  deriving DecidableEq

inductive LinkMode where
  | unlinked
  | color (color : LinkColor)
  | listenAll
  deriving DecidableEq

/-- `ChartConfig`: its id and what it shows. How it shows it is left out. -/
structure ChartConfig where
  id : ℕ
  symbol : String
  timeframe : String
  deriving DecidableEq

/-- `WatchlistConfig`, without its look. -/
structure WatchlistConfig where
  id : ℕ
  name : String
  tickers : List String
  deriving DecidableEq

/-- `OrderPanelConfig`, without its look. -/
structure OrderPanelConfig where
  id : ℕ
  symbol : String
  side : String
  quantity : String
  deriving DecidableEq

/-- `OrderBlotterConfig`. -/
structure OrderBlotterConfig where
  name : String
  columnWidths : List ℚ
  symbolLink : LinkMode
  hiddenColumns : List String
  deriving DecidableEq

inductive AccountTab where | positions | orders | tradeHistory | recents
  deriving DecidableEq

/-- `OrdersTabConfig`. -/
structure OrdersTabConfig where
  columnWidths : List ℚ
  symbolLink : LinkMode
  hiddenColumns : List String
  deriving DecidableEq

/-- `AccountPanelConfig`. -/
structure AccountPanelConfig where
  id : ℕ
  name : String
  activeTab : AccountTab
  orders : OrdersTabConfig
  deriving DecidableEq

/-- A kind of panel that is kept in a pool under ids. Pools have fewer than `2 ^ 32` panels, so the
    `u32` ids are natural numbers here. -/
class Panel (α : Type) where
  id : α → ℕ
  withId : α → ℕ → α
  id_withId : ∀ a n, id (withId a n) = n

instance : Panel ChartConfig := ⟨(·.id), fun c id => { c with id }, fun _ _ => rfl⟩
instance : Panel WatchlistConfig := ⟨(·.id), fun w id => { w with id }, fun _ _ => rfl⟩
instance : Panel OrderPanelConfig := ⟨(·.id), fun o id => { o with id }, fun _ _ => rfl⟩
instance : Panel AccountPanelConfig := ⟨(·.id), fun a id => { a with id }, fun _ _ => rfl⟩

/-- `PanelSlot`. -/
inductive PanelSlot where
  | chart (chartIndex : ℕ)
  | watchlist (watchlistIndex : ℕ)
  | orderPanel (orderPanelIndex : ℕ)
  | orderBlotter (orderBlotterIndex : ℕ)
  | account (accountPanelIndex : ℕ)
  | unknown
  deriving DecidableEq

/-- `LayoutNode`. The ids of version 3 stand where versions 1 and 2 had indices. -/
inductive LayoutNode where
  | split (axis : String) (ratio : ℚ)
  | chart (chartId : ℕ)
  | watchlist (watchlistId : ℕ)
  | orderPanel (orderPanelId : ℕ)
  | orderBlotter (orderBlotterIndex : ℕ)
  | account (accountPanelId : ℕ)
  | unknown
  deriving DecidableEq

def LayoutNode.isSplit : LayoutNode → Bool
  | .split _ _ => true
  | _ => false

/-- `WindowGeometryConfig`. -/
structure WindowGeometryConfig where
  width : ℕ
  height : ℕ
  maximized : Bool
  x : Option ℤ
  y : Option ℤ
  monitorWidth : Option ℕ
  monitorHeight : Option ℕ
  deriving DecidableEq

/-- `WindowConfig`. -/
structure WindowConfig where
  isMain : Bool
  geometry : WindowGeometryConfig
  layoutTree : List LayoutNode
  deriving DecidableEq

/-- `AppConfig`, as far as migrations go. -/
structure AppConfig where
  version : ℕ
  windows : SortedMap String WindowConfig
  charts : List ChartConfig
  watchlists : List WatchlistConfig
  orderPanels : List OrderPanelConfig
  orderBlotters : List OrderBlotterConfig
  accountPanels : List AccountPanelConfig
  legacyWindow : Option WindowGeometryConfig
  legacyPanelOrder : List PanelSlot
  legacyLayoutTree : List LayoutNode

/-- A layout is nothing, or a tree in pre-order: every `Split` is followed by two subtrees. -/
def WellFormed (layout : List LayoutNode) : Prop :=
  layout = [] ∨ Preorder.IsTree LayoutNode.isSplit layout

end Midas.Config

/-! ### Migrations -/

namespace Midas.Config

/-- `CURRENT_CONFIG_VERSION`. -/
def currentConfigVersion : ℕ := 3

/-- `WindowKey::MAIN_DEFAULT`. -/
def mainDefault : String := "Main"

/-- The account panel made from a blotter. -/
def accountOf (blotter : OrderBlotterConfig) : AccountPanelConfig where
  id := 0
  name := if blotter.name = "Orders" then "Account" else blotter.name
  activeTab := .orders
  orders := ⟨blotter.columnWidths, blotter.symbolLink, blotter.hiddenColumns⟩

/-- A slot with its blotter index moved to the account panels. The sum is a `usize`. -/
def slotAfterBlotters (base : ℕ) : PanelSlot → PanelSlot
  | .orderBlotter i => .account ((base + i) % 2 ^ 64)
  | slot => slot

/-- A layout node with its blotter index moved to the account panels, cast to `u32`. -/
def nodeAfterBlotters (base : ℕ) : LayoutNode → LayoutNode
  | .orderBlotter i => .account ((base + i) % 2 ^ 32)
  | node => node

/-- `migrate_order_blotters_to_account_panels`, with the number of entries migrated. -/
def migrateOrderBlottersToAccountPanels (cfg : AppConfig) : AppConfig × ℕ :=
  if cfg.orderBlotters.isEmpty then (cfg, 0)
  else
    let base := cfg.accountPanels.length
    ({ cfg with
        orderBlotters := []
        accountPanels := cfg.accountPanels ++ cfg.orderBlotters.map accountOf
        legacyPanelOrder := cfg.legacyPanelOrder.map (slotAfterBlotters base)
        legacyLayoutTree := cfg.legacyLayoutTree.map (nodeAfterBlotters base) },
      cfg.orderBlotters.length)

/-- `migrate_v1_to_v2`. -/
def migrateV1ToV2 (cfg : AppConfig) : AppConfig :=
  { (migrateOrderBlottersToAccountPanels cfg).1 with version := 2 }

/-- The ids stamped on one pool, from `next` on: a panel without an id gets the next one. -/
def stampIds {α : Type} [Panel α] (next : ℕ) : List α → List α
  | [] => []
  | a :: pool =>
    let a := if Panel.id a = 0 then Panel.withId a next else a
    a :: stampIds (max next (Panel.id a) + 1) pool

/-- A layout node with its index replaced by the id of the panel there, if there is one. -/
def nodeById (cfg : AppConfig) : LayoutNode → LayoutNode
  | .chart i => .chart ((cfg.charts[i]?).elim i Panel.id)
  | .watchlist i => .watchlist ((cfg.watchlists[i]?).elim i Panel.id)
  | .orderPanel i => .orderPanel ((cfg.orderPanels[i]?).elim i Panel.id)
  | .account i => .account ((cfg.accountPanels[i]?).elim i Panel.id)
  | node => node

/-- The leaf for a slot, if there is such a panel. -/
def leafOfSlot (cfg : AppConfig) : PanelSlot → Option LayoutNode
  | .chart i => (cfg.charts[i]?).map (.chart <| Panel.id ·)
  | .watchlist i => (cfg.watchlists[i]?).map (.watchlist <| Panel.id ·)
  | .orderPanel i => (cfg.orderPanels[i]?).map (.orderPanel <| Panel.id ·)
  | .account i => (cfg.accountPanels[i]?).map (.account <| Panel.id ·)
  | .orderBlotter _ | .unknown => none

/-- `synthesise_from_panel_order`. -/
def synthesiseFromPanelOrder (cfg : AppConfig) : List LayoutNode :=
  Preorder.chain (.split "vertical" (1 / 2)) (cfg.legacyPanelOrder.filterMap (leafOfSlot cfg))

/-- `default_window_geometry`. -/
def defaultWindowGeometry : WindowGeometryConfig := ⟨1280, 800, false, none, none, none, none⟩

/-- `migrate_v2_to_v3`. -/
def migrateV2ToV3 (cfg : AppConfig) : AppConfig :=
  let stamped :=
    { cfg with
      charts := stampIds 0 cfg.charts
      watchlists := stampIds 0 cfg.watchlists
      orderPanels := stampIds 0 cfg.orderPanels
      accountPanels := stampIds 0 cfg.accountPanels }
  let layoutTree := stamped.legacyLayoutTree.map (nodeById stamped)
  let layoutTree :=
    if layoutTree.isEmpty && !stamped.legacyPanelOrder.isEmpty then synthesiseFromPanelOrder stamped
    else layoutTree
  { stamped with
    legacyLayoutTree := []
    legacyPanelOrder := []
    legacyWindow := none
    windows := stamped.windows.insert mainDefault
      ⟨true, stamped.legacyWindow.getD defaultWindowGeometry, layoutTree⟩
    version := 3 }

/-- The rounds of the loop of `migrate_to_current`, at most `rounds` of them. -/
def migrateRounds : ℕ → AppConfig → AppConfig × List String
  | 0, cfg => (cfg, [])
  | rounds + 1, cfg =>
    if currentConfigVersion ≤ cfg.version then (cfg, [])
    else
      match cfg.version with
      | 1 =>
        let (cfg, steps) := migrateRounds rounds (migrateV1ToV2 cfg)
        (cfg, "v1→v2 (order_blotters → account_panels)" :: steps)
      | 2 =>
        let (cfg, steps) := migrateRounds rounds (migrateV2ToV3 cfg)
        (cfg, "v2→v3 (single window → windows[] map; layout indices → ids)" :: steps)
      | _ => (cfg, [])

/-- `migrate_to_current`. Each round takes the version one up, so there are at most as many rounds
    as versions. -/
def migrateToCurrent (cfg : AppConfig) : AppConfig × List String :=
  migrateRounds currentConfigVersion cfg

/-- Every main window but the first one is demoted. -/
def demoteRest : List WindowConfig → List WindowConfig
  | [] => []
  | w :: ws =>
    if w.isMain then w :: ws.map fun w => { w with isMain := false } else w :: demoteRest ws

/-- The windows with exactly one main among them: the first one is promoted if there is none, all
    but the first main one are demoted if there are more. -/
def oneMain (ws : List WindowConfig) : List WindowConfig :=
  match ws.countP (·.isMain) with
  | 0 =>
    match ws with
    | [] => []
    | w :: ws => { w with isMain := true } :: ws
  | 1 => ws
  | _ => demoteRest ws

/-- Whether `validate` keeps a layout node: it drops the leaves without a panel. -/
def keepsNode (cfg : AppConfig) : LayoutNode → Bool
  | .chart i => cfg.charts.any (·.id = i)
  | .watchlist i => cfg.watchlists.any (·.id = i)
  | .orderPanel i => cfg.orderPanels.any (·.id = i)
  | .account i => cfg.accountPanels.any (·.id = i)
  | .split _ _ | .orderBlotter _ | .unknown => true

theorem length_demoteRest (ws : List WindowConfig) : (demoteRest ws).length = ws.length := by
  induction ws with
  | nil => rfl
  | cons w ws ih =>
    unfold demoteRest
    split <;> simp [ih]

theorem length_oneMain (ws : List WindowConfig) : (oneMain ws).length = ws.length := by
  unfold oneMain
  split
  · cases ws <;> rfl
  · rfl
  · exact length_demoteRest ws

/-- A window with the leaves without a panel dropped from its layout. -/
def prune (cfg : AppConfig) (w : WindowConfig) : WindowConfig :=
  { w with layoutTree := w.layoutTree.filter (keepsNode cfg) }

/-- `validate`. -/
def validate (cfg : AppConfig) : AppConfig :=
  let windows :=
    if cfg.windows.entries.isEmpty then
      cfg.windows.insert mainDefault ⟨true, defaultWindowGeometry, []⟩
    else cfg.windows
  let windows := windows.withValues oneMain length_oneMain
  { cfg with windows := windows.withValues (·.map (prune cfg)) fun _ => List.length_map _ }

end Midas.Config
