import HandOfMidas.Config.Kept
import HandOfMidas.Core.Bar
import Mathlib.Algebra.Order.Field.Rat
import Mathlib.Logic.Function.Basic

/-! The workspace of the desktop app (crate `midas-app`): its windows with the panes in them, how it is
    saved in the configuration (`app/persistence.rs`) and how the app starts with it (`app.rs`). -/

namespace Midas

/-- `display_name`. -/
def Timeframe.displayName : Timeframe → String
  | .s1 => "1s"
  | .s5 => "5s"
  | .s15 => "15s"
  | .s30 => "30s"
  | .m1 => "1m"
  | .m5 => "5m"
  | .m15 => "15m"
  | .m30 => "30m"
  | .h1 => "1H"
  | .h4 => "4H"
  | .d1 => "1D"
  | .w1 => "1W"
  | .mn1 => "1M"

/-- `from_suffix`. -/
def Timeframe.fromSuffix : String → Option Timeframe
  | "1s" => some .s1
  | "5s" => some .s5
  | "15s" => some .s15
  | "30s" => some .s30
  | "1m" => some .m1
  | "5m" => some .m5
  | "15m" => some .m15
  | "30m" => some .m30
  | "1H" => some .h1
  | "4H" => some .h4
  | "1D" => some .d1
  | "1W" => some .w1
  | "1M" => some .mn1
  | _ => none

theorem Timeframe.fromSuffix_displayName (tf : Timeframe) : fromSuffix tf.displayName = some tf := by
  cases tf <;> rfl

end Midas

namespace Midas.Workspace

open Config (AccountPanelConfig AccountTab AppConfig ChartConfig LayoutNode LinkMode OrderPanelConfig
  OrdersTabConfig WatchlistConfig WindowConfig WindowGeometryConfig defaultWindowGeometry mainDefault
  mainLayout)

/-! ### Panels -/

/-- `ChartPanel`: what it shows. How it shows it is left out, as it is of `ChartConfig`. -/
structure ChartPanel where
  symbol : String
  timeframe : Timeframe
  deriving DecidableEq

/-- `make_empty_panel`. -/
def makeEmptyPanel : ChartPanel := ⟨"", .d1⟩

/-- `restore_panel`. -/
def restorePanel (cfg : ChartConfig) : ChartPanel where
  symbol := cfg.symbol
  timeframe := (Timeframe.fromSuffix cfg.timeframe).getD .d1

/-- `WatchlistPanel`, without its look. -/
structure WatchlistPanel where
  id : ℕ
  name : String
  tickers : List String
  deriving DecidableEq

/-- `OrderSide`. -/
inductive OrderSide where | buy | sell
  deriving DecidableEq

def OrderSide.name : OrderSide → String
  | .buy => "BUY"
  | .sell => "SELL"

/-- `OrderPanel`, without its look. -/
structure OrderPanel where
  id : ℕ
  symbol : String
  side : OrderSide
  quantity : String
  deriving DecidableEq

/-- `OrderBlotterColumn::default_widths`, in the order of the columns. -/
def defaultWidths : List ℚ := [96, 52, 96, 72, 96, 96, 96, 96, 96, 80, 140, 140, 110, 120]

/-- The least width that a column is given. -/
def minWidth : ℚ := 20

/-- `OrdersTab`: the widths of its 14 columns in their order, and the hidden ones as a list. -/
structure OrdersTab where
  columnWidths : List ℚ
  symbolLink : LinkMode
  hiddenColumns : List String
  complete : columnWidths.length = defaultWidths.length
  wide : ∀ w ∈ columnWidths, minWidth ≤ w
  deriving DecidableEq

/-- `OrdersTab::new`. -/
def OrdersTab.new : OrdersTab where
  columnWidths := defaultWidths
  symbolLink := .unlinked
  hiddenColumns := []
  complete := rfl
  wide := by simp [defaultWidths, minWidth]; norm_num

/-- `OrdersTab::from_config`. -/
def OrdersTab.fromConfig (cfg : OrdersTabConfig) : OrdersTab where
  columnWidths :=
    if cfg.columnWidths.length = defaultWidths.length then cfg.columnWidths.map (max · minWidth)
    else defaultWidths
  symbolLink := cfg.symbolLink
  hiddenColumns := cfg.hiddenColumns
  complete := by
    split
    · next h => rwa [List.length_map]
    · rfl
  wide := by
    split
    · simp
    · exact OrdersTab.new.wide

/-- `OrdersTab::to_config`. -/
def OrdersTab.toConfig (tab : OrdersTab) : OrdersTabConfig :=
  ⟨tab.columnWidths, tab.symbolLink, tab.hiddenColumns⟩

/-- `AccountPanel`, as far as it is saved. -/
structure AccountPanel where
  id : ℕ
  name : String
  activeTab : AccountTab
  orders : OrdersTab
  deriving DecidableEq

/-- The kinds of panels that are saved, as in `PanelId`. -/
inductive PanelKind where | chart | watchlist | order | account
  deriving DecidableEq

namespace PanelKind

abbrev State : PanelKind → Type
  | chart => ChartPanel
  | watchlist => WatchlistPanel
  | order => OrderPanel
  | account => AccountPanel

abbrev Config : PanelKind → Type
  | chart => ChartConfig
  | watchlist => WatchlistConfig
  | order => OrderPanelConfig
  | account => AccountPanelConfig

instance instPanel : (k : PanelKind) → Config.Panel k.Config
  | chart => inferInstanceAs (Config.Panel ChartConfig)
  | watchlist => inferInstanceAs (Config.Panel WatchlistConfig)
  | order => inferInstanceAs (Config.Panel OrderPanelConfig)
  | account => inferInstanceAs (Config.Panel AccountPanelConfig)

/-- A panel goes by the id that it is kept under. A chart has none of its own. -/
def goesBy : (k : PanelKind) → ℕ → k.State → Prop
  | chart, _, _ => True
  | watchlist, id, p => p.id = id
  | order, id, p => p.id = id
  | account, id, p => p.id = id

/-- The panels kept under an id. -/
abbrev At (k : PanelKind) (id : ℕ) : Type := {p : k.State // k.goesBy id p}

/-- `to_config`; for a chart, the literal in `walk_node`. -/
def toConfig : (k : PanelKind) → (id : ℕ) → k.At id → k.Config
  | chart, id, p => ⟨id, p.1.symbol, p.1.timeframe.displayName⟩
  | watchlist, _, p => ⟨p.1.id, p.1.name, p.1.tickers⟩
  | order, _, p => ⟨p.1.id, p.1.symbol, p.1.side.name, p.1.quantity⟩
  | account, _, p => ⟨p.1.id, p.1.name, p.1.activeTab, p.1.orders.toConfig⟩

/-- `from_config`; for a chart, `restore_panel`. -/
def fromConfig : (k : PanelKind) → (id : ℕ) → k.Config → k.At id
  | chart, _, cfg => ⟨restorePanel cfg, trivial⟩
  | watchlist, id, cfg => ⟨⟨id, cfg.name, cfg.tickers⟩, rfl⟩
  | order, id, cfg => ⟨⟨id, cfg.symbol, if cfg.side = "SELL" then .sell else .buy, cfg.quantity⟩, rfl⟩
  | account, id, cfg => ⟨⟨id, cfg.name, cfg.activeTab, .fromConfig cfg.orders⟩, rfl⟩

/-- What a leaf gets whose panel is not in its pool: an empty chart, a new account panel, or none. -/
def missing : (k : PanelKind) → (id : ℕ) → Option (k.At id)
  | chart, _ => some ⟨makeEmptyPanel, trivial⟩
  | watchlist, _ => none
  | order, _ => none
  | account, id => some ⟨⟨id, "Account", .orders, .new⟩, rfl⟩

/-- The leaf of a saved layout for a panel. -/
def node : PanelKind → ℕ → LayoutNode
  | chart => .chart
  | watchlist => .watchlist
  | order => .orderPanel
  | account => .account

end PanelKind

/-- The pool of a kind of panels in the configuration. -/
def pool (cfg : AppConfig) : (k : PanelKind) → List k.Config
  | .chart => cfg.charts
  | .watchlist => cfg.watchlists
  | .order => cfg.orderPanels
  | .account => cfg.accountPanels

/-- The panels of the app under their ids: its maps `charts`, `watchlists`, `order_panels` and
    `account_panels`. -/
abbrev Panels : Type := (k : PanelKind) → (id : ℕ) → Option (k.At id)

namespace Panels

def empty : Panels := fun _ _ => none

def insert (ps : Panels) (k : PanelKind) (id : ℕ) (p : k.At id) : Panels :=
  Function.update ps k (Function.update (ps k) id (some p))

/-- `ps` with the panels of `new` put into it. -/
def merge (ps new : Panels) : Panels := fun k id => (new k id).or (ps k id)

end Panels

/-! ### Panes and windows -/

/-- `pane_grid::Axis`. -/
inductive Axis where | horizontal | vertical
  deriving DecidableEq

def Axis.name : Axis → String
  | .horizontal => "horizontal"
  | .vertical => "vertical"

/-- The axis of a saved split: anything but `"horizontal"` is vertical. -/
def Axis.parse (axis : String) : Axis := if axis = "horizontal" then .horizontal else .vertical

structure Split where
  axis : Axis
  ratio : ℚ
  deriving DecidableEq

/-- `pane_grid::Node` and `pane_grid::Configuration`: splits with panes below them. -/
abbrev Grid (α : Type) : Type := Preorder.Tree Split α

/-- `PanelContent`: a panel of one of the kinds that are saved, or one of the two that are not. -/
inductive PanelContent where
  | panel (kind : PanelKind) (id : ℕ)
  | sessionChart (id : ℕ)
  | placeholder
  deriving DecidableEq

/-- `WindowGeometry`, the controller of the main window. -/
structure WindowGeometry where
  position : Option (ℤ × ℤ)
  size : ℕ × ℕ
  monitorSize : Option (ℕ × ℕ)
  deriving DecidableEq

/-- A pair that is there when both its parts are. -/
def both {α : Type} : Option α → Option α → Option (α × α)
  | some a, some b => some (a, b)
  | _, _ => none

/-- `WindowGeometry::from_config`. -/
def WindowGeometry.fromConfig (cfg : WindowGeometryConfig) (initialSizeFallback : ℕ × ℕ) :
    WindowGeometry where
  position := both cfg.x cfg.y
  size := if 0 < cfg.width ∧ 0 < cfg.height then (cfg.width, cfg.height) else initialSizeFallback
  monitorSize := both cfg.monitorWidth cfg.monitorHeight

/-- `WindowGeometry::to_config`. -/
def WindowGeometry.toConfig (g : WindowGeometry) : WindowGeometryConfig where
  width := g.size.1
  height := g.size.2
  maximized := false
  x := g.position.map Prod.fst
  y := g.position.map Prod.snd
  monitorWidth := g.monitorSize.map Prod.fst
  monitorHeight := g.monitorSize.map Prod.snd

/-- `WindowState` with the `pane_grid::State` of its layout: the grid of its pane handles, and what
    is in the pane of a handle. The handles that it knows are those of its grid. -/
structure WindowState (π : Type) where
  layout : Grid π
  panes : π → Option PanelContent
  geometry : WindowGeometryConfig
  known : ∀ pane, (panes pane).isSome → pane ∈ layout.leaves

/-- `MidasApp`, as far as it is saved. The main window is among its windows. -/
structure MidasApp (π : Type) where
  windows : SortedMap String (WindowState π)
  mainWindowKey : String
  window : WindowGeometry
  panels : Panels
  hasMain : (windows.get? mainWindowKey).isSome

variable {π : Type}

/-! ### Saving -/

/-- The vectors that `walk_node` writes to. -/
structure Walk where
  pools : (k : PanelKind) → List k.Config
  tree : List LayoutNode

def Walk.push (w : Walk) (k : PanelKind) (id : ℕ) (p : k.At id) : Walk where
  pools := Function.update w.pools k (w.pools k ++ [k.toConfig id p])
  tree := w.tree ++ [k.node id]

namespace MidasApp

/-- What a pane holds: it is looked up in each window, and the first one that knows it tells. -/
def paneState (app : MidasApp π) (pane : π) : Option PanelContent :=
  app.windows.values.findSome? fun ws => ws.panes pane

/-- `walk_node`. Panes that hold a placeholder, a session chart or no panel leave no leaf. -/
def walkNode (app : MidasApp π) : Grid π → Walk → Walk
  | .node split a b, w =>
    app.walkNode b (app.walkNode a { w with tree := w.tree ++ [.split split.axis.name split.ratio] })
  | .leaf pane, w =>
    match app.paneState pane with
    | some (.panel k id) =>
      match app.panels k id with
      | some p => w.push k id p
      | none => w
    | some (.sessionChart _) => w
    | some .placeholder => w
    | none => w

/-- One round of the loop of `build_config`. The geometry of the main window is the controller's. -/
def saveWindow (app : MidasApp π)
    (out : ((k : PanelKind) → List k.Config) × SortedMap String WindowConfig)
    (entry : String × WindowState π) :
    ((k : PanelKind) → List k.Config) × SortedMap String WindowConfig :=
  let (key, ws) := entry
  let w := app.walkNode ws.layout ⟨out.1, []⟩
  let isMain : Bool := key = app.mainWindowKey
  let geometry := if isMain then app.window.toConfig else ws.geometry
  (w.pools, out.2.insert key ⟨isMain, geometry, w.tree⟩)

/-- `build_config`. -/
def buildConfig (app : MidasApp π) : AppConfig :=
  let (pools, windows) := app.windows.entries.foldl app.saveWindow (fun _ => [], .empty)
  let windows :=
    if (windows.get? app.mainWindowKey).isSome then windows
    else windows.insert app.mainWindowKey ⟨true, app.window.toConfig, []⟩
  { version := Config.currentConfigVersion
    windows
    charts := pools .chart
    watchlists := pools .watchlist
    orderPanels := pools .order
    orderBlotters := []
    accountPanels := pools .account
    legacyWindow := none
    legacyPanelOrder := []
    legacyLayoutTree := [] }

end MidasApp

/-! ### Starting -/

/-- `PanelIdAllocator`: the next id of each kind. -/
structure PanelIdAllocator where
  next : PanelKind → ℕ := fun _ => 1

/-- The allocator after it has given out the next id of a kind. -/
def PanelIdAllocator.bump (alloc : PanelIdAllocator) (k : PanelKind) : PanelIdAllocator :=
  ⟨Function.update alloc.next k (alloc.next k + 1)⟩

/-- `RestoreCtx`, with the nodes from the cursor on. -/
structure RestoreCtx where
  panels : Panels
  alloc : PanelIdAllocator
  rest : List LayoutNode

/-- A pane with a new id of a kind, and under the id the panel that is made for it, if any. -/
def RestoreCtx.seat (ctx : RestoreCtx) (k : PanelKind) (panel : (id : ℕ) → Option (k.At id)) :
    Grid PanelContent × RestoreCtx :=
  let id := ctx.alloc.next k
  let panels :=
    match panel id with
    | some p => ctx.panels.insert k id p
    | none => ctx.panels
  (.leaf (.panel k id), { ctx with panels, alloc := ctx.alloc.bump k })

def emptyChart (id : ℕ) : Option (PanelKind.chart.At id) := some ⟨makeEmptyPanel, trivial⟩

/-- The panel for a leaf, from the first configuration of its id. -/
def restored (cfg : AppConfig) (k : PanelKind) (saved id : ℕ) : Option (k.At id) :=
  match (pool cfg k).find? fun c => Config.Panel.id c = saved with
  | some c => some (k.fromConfig id c)
  | none => k.missing id

/-- `parse_node`, at a depth of less than `fuel`. -/
def parseNode (cfg : AppConfig) : ℕ → RestoreCtx → Grid PanelContent × RestoreCtx
  | 0, ctx => ctx.seat .chart emptyChart
  | fuel + 1, ctx =>
    match ctx.rest with
    | [] => ctx.seat .chart emptyChart
    | .split axis ratio :: rest =>
      let (a, ctx) := parseNode cfg fuel { ctx with rest }
      let (b, ctx) := parseNode cfg fuel ctx
      (.node ⟨Axis.parse axis, ratio⟩ a b, ctx)
    | .chart id :: rest => { ctx with rest }.seat .chart (restored cfg .chart id)
    | .watchlist id :: rest => { ctx with rest }.seat .watchlist (restored cfg .watchlist id)
    | .orderPanel id :: rest => { ctx with rest }.seat .order (restored cfg .order id)
    | .account id :: rest => { ctx with rest }.seat .account (restored cfg .account id)
    | .orderBlotter _ :: rest => { ctx with rest }.seat .chart emptyChart
    | .unknown :: rest => { ctx with rest }.seat .chart emptyChart

/-- A layout with the panels made for it, and the allocator after them. -/
structure Restored where
  layout : Grid PanelContent
  panels : Panels
  alloc : PanelIdAllocator

/-- `restore_from_layout_tree`. A node is at a depth of at most the length of the list. -/
def restoreFromLayoutTree (cfg : AppConfig) (tree : List LayoutNode) (alloc : PanelIdAllocator) :
    Restored :=
  let (layout, ctx) := parseNode cfg (tree.length + 1) ⟨.empty, alloc, tree⟩
  ⟨layout, ctx.panels, ctx.alloc⟩

/-- `split` of the first pane, with the new pane in the second half. -/
def splitFirst (axis : Axis) (new : PanelContent) : Grid PanelContent → Grid PanelContent
  | .leaf a => .node ⟨axis, 1 / 2⟩ (.leaf a) (.leaf new)
  | .node split a b => .node split (splitFirst axis new a) b

/-- Another chart beside those there are. -/
def addChart (out : Restored) (cfg : ChartConfig) : Restored :=
  let id := out.alloc.next .chart
  ⟨splitFirst .vertical (.panel .chart id) out.layout,
    out.panels.insert .chart id ⟨restorePanel cfg, trivial⟩, out.alloc.bump .chart⟩

/-- `WorkspaceLayout::single` with a chart in it. -/
def single (panel : ChartPanel) (alloc : PanelIdAllocator) : Restored :=
  let id := alloc.next .chart
  ⟨.leaf (.panel .chart id), Panels.empty.insert .chart id ⟨panel, trivial⟩, alloc.bump .chart⟩

/-- One slot of the old panel order, and whether one was taken before. The first one takes the pane
    that is there, for which a chart id is given out already. -/
def addSlot (cfg : AppConfig) (firstId : ℕ) (out : Restored × Bool) (slot : Config.PanelSlot) :
    Restored × Bool :=
  match slot with
  | .chart i =>
    match cfg.charts[i]? with
    | none => out
    | some c =>
      if out.2 then (addChart out.1 c, true)
      else
        ({ out.1 with panels := out.1.panels.insert .chart firstId ⟨restorePanel c, trivial⟩ }, true)
  | .watchlist i =>
    match cfg.watchlists[i]? with
    | none => out
    | some c =>
      let id := out.1.alloc.next .watchlist
      let panels := out.1.panels.insert .watchlist id (PanelKind.watchlist.fromConfig id c)
      let alloc := out.1.alloc.bump .watchlist
      if out.2 then
        (⟨splitFirst .vertical (.panel .watchlist id) out.1.layout, panels, alloc.bump .chart⟩, true)
      else (⟨.leaf (.panel .watchlist id), panels, alloc⟩, true)
  | .orderPanel _ | .orderBlotter _ | .account _ | .unknown => out

/-- The layout from the old panel order. -/
def restoreFromPanelOrder (cfg : AppConfig) (alloc : PanelIdAllocator) : Restored :=
  let firstId := alloc.next .chart
  let blank : Restored := ⟨.leaf (.panel .chart firstId), .empty, alloc.bump .chart⟩
  let (out, taken) := cfg.legacyPanelOrder.foldl (addSlot cfg firstId) (blank, false)
  if taken then out
  else { out with panels := out.panels.insert .chart firstId ⟨makeEmptyPanel, trivial⟩ }

/-- The workspace of the main window. -/
def openMain (cfg : AppConfig) : Restored :=
  if !(mainLayout cfg).isEmpty then restoreFromLayoutTree cfg (mainLayout cfg) {}
  else if !cfg.legacyPanelOrder.isEmpty then restoreFromPanelOrder cfg {}
  else
    match cfg.charts with
    | first :: charts => charts.foldl addChart (single (restorePanel first) {})
    | [] => single makeEmptyPanel {}

/-- A window that the app opens when it starts. -/
structure OpenedWindow where
  isMain : Bool
  layout : Grid PanelContent
  geometry : WindowGeometryConfig

/-- `MidasApp` after `new`, as far as it is read from the configuration. -/
structure Started where
  windows : SortedMap String OpenedWindow
  window : WindowGeometry
  panels : Panels
  panelIds : PanelIdAllocator

/-- One round of the loop over the windows in `new`. -/
def openWindow (cfg : AppConfig) (app : Started) (entry : String × WindowConfig) : Started :=
  let (key, w) := entry
  if key = mainDefault then app
  else
    let out :=
      if w.layoutTree.isEmpty then ⟨.leaf .placeholder, .empty, app.panelIds⟩
      else restoreFromLayoutTree cfg w.layoutTree app.panelIds
    { app with
      windows := app.windows.insert key ⟨false, out.layout, w.geometry⟩
      panels := app.panels.merge out.panels
      panelIds := out.alloc }

/-- `main_geometry` in `new`. -/
def mainGeometry (cfg : AppConfig) : WindowGeometryConfig :=
  ((cfg.windows.get? mainDefault).map (·.geometry)).getD defaultWindowGeometry

/-- The app in `new` when its main window is open. -/
def openedMain (cfg : AppConfig) : Started where
  windows := SortedMap.empty.insert mainDefault ⟨true, (openMain cfg).layout, mainGeometry cfg⟩
  window := .fromConfig (mainGeometry cfg) ((mainGeometry cfg).width, (mainGeometry cfg).height)
  panels := (openMain cfg).panels
  panelIds := (openMain cfg).alloc

/-- `MidasApp::new`. -/
def MidasApp.new (cfg : AppConfig) : Started :=
  cfg.windows.entries.foldl (openWindow cfg) (openedMain cfg)

end Midas.Workspace
