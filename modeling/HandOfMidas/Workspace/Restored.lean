import HandOfMidas.Workspace.Layout

/-! The workspace comes back. What the panes of a started app show is what was saved, and what was saved
    is what the panes showed, but for three things: a pane handle is looked up in all windows; panes
    without a panel leave no leaf, so that the leaves after them move up; and the app starts with the
    window that is called Main, whichever the main window was. -/

namespace Midas.Workspace

open Config (AppConfig LayoutNode WindowConfig WindowGeometryConfig keepsNode mainDefault mainLayout)

/-! ### What is shown -/

/-- What a panel shows: its configuration, whatever id it goes by. -/
abbrev Shown : Type := (k : PanelKind) × k.Config

def PanelKind.shown (k : PanelKind) {id : ℕ} (p : k.At id) : Shown :=
  ⟨k, Config.Panel.withId (k.toConfig id p) 0⟩

def emptyShown : Shown := PanelKind.shown .chart (⟨makeEmptyPanel, trivial⟩ : PanelKind.chart.At 0)

namespace Panels

/-- What a pane shows. -/
def shownIn (ps : Panels) : PanelContent → Option Shown
  | .panel k id => (ps k id).map k.shown
  | .sessionChart _ => none
  | .placeholder => none

end Panels

namespace MidasApp

variable {π : Type}

/-- What a pane shows in its own window. -/
def shown (app : MidasApp π) (w : WindowState π) (pane : π) : Option Shown :=
  (w.panes pane).bind app.panels.shownIn

/-- What the first window with a pane of the handle shows there. -/
def firstShown (app : MidasApp π) (pane : π) : Option Shown :=
  (app.paneState pane).bind app.panels.shownIn

end MidasApp

/-! ### Panels and their configurations -/

theorem restorePanel_toConfig (p : ChartPanel) (id : ℕ) :
    restorePanel ⟨id, p.symbol, p.timeframe.displayName⟩ = p := by
  simp [restorePanel, Timeframe.fromSuffix_displayName]

theorem OrderSide.name_eq_sell (side : OrderSide) :
    (if side.name = "SELL" then OrderSide.sell else .buy) = side := by
  cases side <;> rfl

theorem OrdersTab.fromConfig_toConfig (tab : OrdersTab) : fromConfig tab.toConfig = tab := by
  have hwide : tab.columnWidths.map (max · minWidth) = tab.columnWidths := by
    conv_rhs => rw [← List.map_id tab.columnWidths]
    exact List.map_congr_left fun w hw => max_eq_left (tab.wide w hw)
  have hwidths : (fromConfig tab.toConfig).columnWidths = tab.columnWidths :=
    (if_pos tab.complete).trans hwide
  cases tab
  simpa [fromConfig, toConfig] using hwidths

namespace PanelKind

theorem id_toConfig (k : PanelKind) (id : ℕ) (p : k.At id) :
    Config.Panel.id (k.toConfig id p) = id := by
  cases k with
  | chart => rfl
  | watchlist => exact p.2
  | order => exact p.2
  | account => exact p.2

/-- A panel comes back as it was, under its new id. -/
theorem shown_fromConfig_toConfig (k : PanelKind) (id new : ℕ) (p : k.At id) :
    k.shown (k.fromConfig new (k.toConfig id p)) = k.shown p := by
  cases k with
  | chart =>
    unfold shown fromConfig toConfig
    dsimp only
    rw [restorePanel_toConfig]
    rfl
  | watchlist => rfl
  | order =>
    unfold shown fromConfig toConfig
    dsimp only
    rw [OrderSide.name_eq_sell]
    rfl
  | account =>
    unfold shown fromConfig toConfig
    dsimp only
    rw [OrdersTab.fromConfig_toConfig]
    rfl

end PanelKind

/-! ### What is saved -/

section Save
variable {π : Type} (app : MidasApp π)

namespace MidasApp

/-- The panel that is saved for a pane handle. -/
def held (pane : π) : Option ((k : PanelKind) × (id : ℕ) × k.At id) :=
  match app.paneState pane with
  | some (.panel k id) => (app.panels k id).map fun p => ⟨k, id, p⟩
  | _ => none

/-- The node that is saved for a node of a grid. -/
def savedNode : Split ⊕ π → Option LayoutNode
  | .inl split => some (.split split.axis.name split.ratio)
  | .inr pane => (app.held pane).map fun h => h.1.node h.2.1

variable {app}

theorem panels_of_held {pane : π} {k : PanelKind} {id : ℕ} {p : k.At id}
    (h : app.held pane = some ⟨k, id, p⟩) : app.panels k id = some p := by
  unfold held at h
  split at h
  · obtain ⟨p', hp', heq⟩ := Option.map_eq_some_iff.mp h
    cases heq
    exact hp'
  · cases h

theorem firstShown_eq (pane : π) : app.firstShown pane = (app.held pane).map fun h =>
      h.1.shown h.2.2 := by
  unfold firstShown held
  cases app.paneState pane with
  | none => rfl
  | some content =>
    cases content with
    | panel k id => simp [Panels.shownIn, Function.comp_def]
    | sessionChart id => rfl
    | placeholder => rfl

/-- What a walk over a grid writes. -/
theorem walkNode_leaf (pane : π) (w : Walk) :
    app.walkNode (.leaf pane) w = (app.held pane).elim w fun h => w.push h.1 h.2.1 h.2.2 := by
  unfold walkNode held
  cases app.paneState pane with
  | none => rfl
  | some content =>
    cases content with
    | panel k id =>
      dsimp only
      cases app.panels k id <;> rfl
    | sessionChart id => rfl
    | placeholder => rfl

theorem walkNode_tree (t : Grid π) (w : Walk) :
    (app.walkNode t w).tree = w.tree ++ t.nodes.filterMap app.savedNode := by
  induction t generalizing w with
  | leaf pane =>
    rw [walkNode_leaf, Preorder.Tree.nodes]
    cases hheld : app.held pane <;> simp [savedNode, hheld, Walk.push]
  | node split a b iha ihb =>
    simp [walkNode, Preorder.Tree.nodes, iha, ihb, savedNode]

theorem mem_push {w : Walk} {k k' : PanelKind} {id : ℕ} {p : k.At id} {c : k'.Config} :
    c ∈ (w.push k id p).pools k' ↔ c ∈ w.pools k' ∨ ∃ h : k = k', h ▸ k.toConfig id p = c := by
  rcases eq_or_ne k' k with rfl | hne
  · simp [Walk.push, eq_comm]
  · have hne' : k ≠ k' := hne.symm
    simp [Walk.push, hne, hne']

/-- The configurations that a walk over a grid writes. -/
theorem mem_walkNode {t : Grid π} {w : Walk} {k : PanelKind} {c : k.Config} :
    c ∈ (app.walkNode t w).pools k ↔
      c ∈ w.pools k ∨ ∃ pane ∈ t.leaves, ∃ id p,
        app.held pane = some ⟨k, id, p⟩ ∧ k.toConfig id p = c := by
  induction t generalizing w with
  | leaf pane =>
    rw [walkNode_leaf]
    cases hheld : app.held pane with
    | none => simp [Preorder.Tree.leaves, hheld]
    | some h =>
      obtain ⟨k', id, p⟩ := h
      rw [Option.elim_some, mem_push]
      refine or_congr_right ⟨?_, ?_⟩
      · rintro ⟨rfl, rfl⟩
        exact ⟨pane, List.mem_singleton_self pane, id, p, hheld, rfl⟩
      · rintro ⟨pane', hpane', id', p', hheld', rfl⟩
        obtain rfl := List.mem_singleton.mp hpane'
        rw [hheld] at hheld'
        cases hheld'
        exact ⟨rfl, rfl⟩
  | node split a b iha ihb =>
    simp only [walkNode, iha, ihb, Preorder.Tree.leaves, List.mem_append, or_and_right, exists_or,
      or_assoc]

variable (app) in
/-- The entry that is saved for a window. -/
def savedEntry (entry : String × WindowState π) : String × WindowConfig :=
  (entry.1, ⟨entry.1 = app.mainWindowKey,
    if entry.1 = app.mainWindowKey then app.window.toConfig else entry.2.geometry,
    entry.2.layout.nodes.filterMap app.savedNode⟩)

theorem saveWindow_entries {out : ((k : PanelKind) → List k.Config) × SortedMap String WindowConfig}
    {entry : String × WindowState π} (h : ∀ e ∈ out.2.entries, e.1 < entry.1) :
    (app.saveWindow out entry).2.entries = out.2.entries ++ [app.savedEntry entry] := by
  rw [saveWindow, SortedMap.entries_insert_of_lt h, walkNode_tree]
  simp [savedEntry]

theorem foldl_saveWindow_entries {es : List (String × WindowState π)}
    {out : ((k : PanelKind) → List k.Config) × SortedMap String WindowConfig}
    (hes : (es.map Prod.fst).Pairwise (· < ·)) (h : ∀ e ∈ out.2.entries, ∀ e' ∈ es, e.1 < e'.1) :
    (es.foldl app.saveWindow out).2.entries = out.2.entries ++ es.map app.savedEntry := by
  induction es generalizing out with
  | nil => simp
  | cons e es ih =>
    rw [List.map_cons, List.pairwise_cons] at hes
    have hstep : (app.saveWindow out e).2.entries = out.2.entries ++ [app.savedEntry e] :=
      saveWindow_entries fun e' he' => h e' he' e List.mem_cons_self
    rw [List.foldl_cons, ih hes.2, hstep, List.append_assoc]
    · rfl
    · intro a ha b hb
      rw [hstep, List.mem_append, List.mem_singleton] at ha
      rcases ha with ha | rfl
      · exact h a ha b (List.mem_cons_of_mem e hb)
      · exact hes.1 b.1 (List.mem_map_of_mem hb)

theorem mem_foldl_saveWindow {es : List (String × WindowState π)}
    {out : ((k : PanelKind) → List k.Config) × SortedMap String WindowConfig} {k : PanelKind}
    {c : k.Config} :
    c ∈ (es.foldl app.saveWindow out).1 k ↔ c ∈ out.1 k ∨ ∃ e ∈ es, ∃ pane ∈ e.2.layout.leaves,
      ∃ id p, app.held pane = some ⟨k, id, p⟩ ∧ k.toConfig id p = c := by
  induction es generalizing out with
  | nil => simp
  | cons e es ih =>
    have hstep : (app.saveWindow out e).1 = (app.walkNode e.2.layout ⟨out.1, []⟩).pools := rfl
    rw [List.foldl_cons, ih, hstep, mem_walkNode]
    simp [or_assoc]

/-- The windows are saved one by one. -/
theorem entries_buildConfig :
    app.buildConfig.windows.entries = app.windows.entries.map app.savedEntry := by
  have hfold : (app.windows.entries.foldl app.saveWindow (fun _ => [], .empty)).2.entries =
      app.windows.entries.map app.savedEntry := by
    rw [foldl_saveWindow_entries app.windows.sorted (by simp [SortedMap.empty])]
    rfl
  obtain ⟨w, hw⟩ := Option.isSome_iff_exists.mp app.hasMain
  have hmain : ((app.windows.entries.foldl app.saveWindow (fun _ => [], .empty)).2.get?
      app.mainWindowKey).isSome := by
    rw [Option.isSome_iff_exists]
    refine ⟨(app.savedEntry (app.mainWindowKey, w)).2, ?_⟩
    rw [SortedMap.get?_eq_some_iff, hfold]
    exact List.mem_map_of_mem (SortedMap.get?_eq_some_iff.mp hw)
  have hwindows : app.buildConfig.windows =
      (app.windows.entries.foldl app.saveWindow (fun _ => [], .empty)).2 := if_pos hmain
  rw [hwindows, hfold]

theorem get?_buildConfig (key : String) : app.buildConfig.windows.get? key =
    (app.windows.get? key).map fun w => (app.savedEntry (key, w)).2 := by
  refine Option.ext fun wcfg => ?_
  rw [SortedMap.get?_eq_some_iff, entries_buildConfig, List.mem_map, Option.map_eq_some_iff]
  constructor
  · rintro ⟨e, he, heq⟩
    obtain ⟨rfl, rfl⟩ := Prod.ext_iff.mp heq
    exact ⟨e.2, SortedMap.get?_eq_some_iff.mpr he, rfl⟩
  · rintro ⟨w, hw, rfl⟩
    exact ⟨(key, w), SortedMap.get?_eq_some_iff.mp hw, rfl⟩

/-- The pools that are saved: every panel that some pane handle of a window leads to. -/
theorem mem_pool_buildConfig {k : PanelKind} {c : k.Config} :
    c ∈ pool app.buildConfig k ↔ ∃ e ∈ app.windows.entries, ∃ pane ∈ e.2.layout.leaves,
      ∃ id p, app.held pane = some ⟨k, id, p⟩ ∧ k.toConfig id p = c := by
  have hpool : pool app.buildConfig k =
      (app.windows.entries.foldl app.saveWindow (fun _ => [], .empty)).1 k := by cases k <;> rfl
  rw [hpool, mem_foldl_saveWindow]
  simp

/-- A configuration in a pool is the one of the panel of its id. -/
theorem toConfig_of_mem_pool {k : PanelKind} {c : k.Config} (h : c ∈ pool app.buildConfig k) {id : ℕ}
    (hid : Config.Panel.id c = id) : ∃ p, app.panels k id = some p ∧ k.toConfig id p = c := by
  obtain ⟨_, _, pane, _, id', p, hheld, rfl⟩ := mem_pool_buildConfig.mp h
  rw [k.id_toConfig] at hid
  subst hid
  exact ⟨p, panels_of_held hheld, rfl⟩

/-- The panel of a saved leaf is found again by its id. -/
theorem find?_pool_buildConfig {e : String × WindowState π} (he : e ∈ app.windows.entries) {pane : π}
    (hpane : pane ∈ e.2.layout.leaves) {k : PanelKind} {id : ℕ} {p : k.At id}
    (hheld : app.held pane = some ⟨k, id, p⟩) :
    (pool app.buildConfig k).find? (fun c => Config.Panel.id c = id) = some (k.toConfig id p) := by
  have hmem : k.toConfig id p ∈ pool app.buildConfig k :=
    mem_pool_buildConfig.mpr ⟨e, he, pane, hpane, id, p, hheld, rfl⟩
  cases hfind : (pool app.buildConfig k).find? fun c => Config.Panel.id c = id with
  | none => exact absurd (by simp [k.id_toConfig]) (List.find?_eq_none.mp hfind _ hmem)
  | some c =>
    have hid : Config.Panel.id c = id := by simpa using List.find?_some hfind
    obtain ⟨p', hp', rfl⟩ := toConfig_of_mem_pool (List.mem_of_find?_eq_some hfind) hid
    rw [panels_of_held hheld, Option.some.injEq] at hp'
    rw [hp']

theorem keepsNode_node (cfg : AppConfig) (k : PanelKind) (id : ℕ) :
    keepsNode cfg (k.node id) = (pool cfg k).any fun c => Config.Panel.id c = id := by
  cases k <;> rfl

theorem keepsNode_saved {e : String × WindowState π} (he : e ∈ app.windows.entries) {node : LayoutNode}
    (hnode : node ∈ e.2.layout.nodes.filterMap app.savedNode) :
    keepsNode app.buildConfig node = true := by
  obtain ⟨x, hx, hsaved⟩ := List.mem_filterMap.mp hnode
  rcases x with split | pane
  · cases hsaved
    rfl
  · obtain ⟨⟨k, id, p⟩, hheld, rfl⟩ := Option.map_eq_some_iff.mp hsaved
    rw [keepsNode_node, List.any_eq_true]
    exact ⟨k.toConfig id p, mem_pool_buildConfig.mpr
      ⟨e, he, pane, Preorder.Tree.mem_nodes_inr.mp hx, id, p, hheld, rfl⟩, by simp [k.id_toConfig]⟩

/-- What is saved is loaded as it is. -/
theorem loaded_buildConfig : Config.loaded app.buildConfig = app.buildConfig := by
  have hmigrated : Config.migrated app.buildConfig = app.buildConfig := by
    rw [Config.migrated, Config.migrateToCurrent, Config.migrateRounds_of_current rfl]
  have hvalues : app.buildConfig.windows.values =
      app.windows.entries.map fun e => (app.savedEntry e).2 := by
    rw [SortedMap.values, entries_buildConfig, List.map_map]
    rfl
  have hmain : app.buildConfig.windows.values.countP (·.isMain) = 1 := by
    obtain ⟨w, hw⟩ := Option.isSome_iff_exists.mp app.hasMain
    have hkeys : (app.windows.entries.map Prod.fst).Nodup := app.windows.sorted.imp fun hlt => hlt.ne
    have hcount : (app.windows.entries.map Prod.fst).count app.mainWindowKey = 1 :=
      List.count_eq_one_of_mem hkeys (List.mem_map_of_mem (SortedMap.get?_eq_some_iff.mp hw))
    rw [hvalues, List.countP_map, ← hcount, List.count, List.countP_map]
    rfl
  have hone : Config.oneMain app.buildConfig.windows.values = app.buildConfig.windows.values :=
    Config.oneMain_of_one hmain
  have hprune : app.buildConfig.windows.values.map (Config.prune app.buildConfig) =
      app.buildConfig.windows.values := by
    rw [hvalues, List.map_map]
    refine List.map_congr_left fun e he => ?_
    have hall : (e.2.layout.nodes.filterMap app.savedNode).filter (keepsNode app.buildConfig) =
        e.2.layout.nodes.filterMap app.savedNode :=
      List.filter_eq_self.mpr fun node hnode => keepsNode_saved he hnode
    simp [Config.prune, savedEntry, hall]
  have hne : app.buildConfig.windows.entries.isEmpty = false := by
    rw [List.isEmpty_eq_false_iff]
    intro hnil
    rw [SortedMap.values, hnil] at hmain
    cases hmain
  rw [Config.loaded, hmigrated, Config.validate, hne]
  simp only [Bool.false_eq_true, if_false]
  rw [SortedMap.withValues_of_eq _ _ hone, SortedMap.withValues_of_eq _ _ hprune]

end MidasApp

end Save

/-! ### What is opened -/

/-- No panel is kept under an id that is still to be given out. -/
def Fresh (ps : Panels) (alloc : PanelIdAllocator) : Prop := ∀ k id, alloc.next k ≤ id → ps k id = none

/-- The panel of a pane goes by an id that was given out between two states of the allocator. -/
def Between (lo hi : PanelIdAllocator) (content : PanelContent) : Prop :=
  ∀ k id, content = .panel k id → lo.next k ≤ id ∧ id < hi.next k

/-- Only panels under ids that were given out on the way have come in. -/
structure Grown (ps : Panels) (alloc : PanelIdAllocator) (ps' : Panels) (alloc' : PanelIdAllocator) :
    Prop where
  le : ∀ k, alloc.next k ≤ alloc'.next k
  frame : ∀ k id, id < alloc.next k ∨ alloc'.next k ≤ id → ps' k id = ps k id

namespace Grown

variable {ps ps' ps'' : Panels} {alloc alloc' alloc'' : PanelIdAllocator}

theorem refl : Grown ps alloc ps alloc := ⟨fun _ => le_rfl, fun _ _ _ => rfl⟩

theorem trans (h : Grown ps alloc ps' alloc') (h' : Grown ps' alloc' ps'' alloc'') :
    Grown ps alloc ps'' alloc'' := by
  refine ⟨fun k => (h.le k).trans (h'.le k), fun k id hid => ?_⟩
  have hle := h.le k
  have hle' := h'.le k
  rw [h'.frame k id (by omega), h.frame k id (by omega)]

theorem fresh (h : Grown ps alloc ps' alloc') (hf : Fresh ps alloc) : Fresh ps' alloc' := by
  intro k id hid
  rw [h.frame k id (.inr hid)]
  exact hf k id ((h.le k).trans hid)

/-- A pane from before shows what it did. -/
theorem shownIn (h : Grown ps alloc ps' alloc') {lo : PanelIdAllocator} {content : PanelContent}
    (hc : Between lo alloc content) : ps'.shownIn content = ps.shownIn content := by
  cases content with
  | panel k id => exact congrArg (Option.map k.shown) (h.frame k id (.inl (hc k id rfl).2))
  | sessionChart id => rfl
  | placeholder => rfl

end Grown

theorem Between.mono {lo lo' hi hi' : PanelIdAllocator} {content : PanelContent}
    (h : Between lo hi content) (hlo : ∀ k, lo'.next k ≤ lo.next k)
    (hhi : ∀ k, hi.next k ≤ hi'.next k) :
    Between lo' hi' content := by
  intro k id hc
  obtain ⟨hle, hlt⟩ := h k id hc
  exact ⟨(hlo k).trans hle, hlt.trans_le (hhi k)⟩

theorem PanelIdAllocator.next_bump (alloc : PanelIdAllocator) (k k' : PanelKind) :
    (alloc.bump k).next k' = if k' = k then alloc.next k + 1 else alloc.next k' := by
  simp [bump, Function.update_apply]

theorem Panels.insert_self (ps : Panels) (k : PanelKind) (id : ℕ) (p : k.At id) :
    ps.insert k id p k id = some p := by
  simp [insert]

theorem Panels.insert_of_ne (ps : Panels) {k k' : PanelKind} {id id' : ℕ} (p : k.At id)
    (h : k' = k → id' ≠ id) : ps.insert k id p k' id' = ps k' id' := by
  rcases eq_or_ne k' k with rfl | hk
  · simp [insert, h rfl]
  · simp [insert, hk]

/-- A new panel of a kind under the next id. -/
theorem grown_insert (ps : Panels) (alloc : PanelIdAllocator) (k : PanelKind)
    (p : k.At (alloc.next k)) : Grown ps alloc (ps.insert k (alloc.next k) p) (alloc.bump k) := by
  refine ⟨fun k' => ?_, fun k' id hid => ps.insert_of_ne p ?_⟩
  · rw [alloc.next_bump]
    split
    · next h => exact h ▸ Nat.le_succ _
    · exact le_rfl
  · rintro rfl rfl
    rw [alloc.next_bump, if_pos rfl] at hid
    omega

theorem grown_bump (ps : Panels) (alloc : PanelIdAllocator) (k : PanelKind) :
    Grown ps alloc ps (alloc.bump k) := by
  refine ⟨fun k' => ?_, fun _ _ _ => rfl⟩
  rw [alloc.next_bump]
  split
  · next h => exact h ▸ Nat.le_succ _
  · exact le_rfl

theorem between_bump (alloc : PanelIdAllocator) (k : PanelKind) :
    Between alloc (alloc.bump k) (.panel k (alloc.next k)) := by
  rintro k' id hc
  cases hc
  rw [alloc.next_bump, if_pos rfl]
  omega

/-- What a leaf for a saved panel shows. -/
def restoredShown (cfg : AppConfig) (k : PanelKind) (saved : ℕ) : Option Shown :=
  (restored cfg k saved 0).map k.shown

theorem shown_restored (cfg : AppConfig) (k : PanelKind) (saved id : ℕ) :
    (restored cfg k saved id).map k.shown = restoredShown cfg k saved := by
  unfold restoredShown restored
  split
  · cases k <;> rfl
  · cases k <;> rfl

/-- What is read for a saved node. -/
def label (cfg : AppConfig) : LayoutNode → Split ⊕ Option Shown
  | .split axis ratio => .inl ⟨Axis.parse axis, ratio⟩
  | .chart id => .inr (restoredShown cfg .chart id)
  | .watchlist id => .inr (restoredShown cfg .watchlist id)
  | .orderPanel id => .inr (restoredShown cfg .order id)
  | .account id => .inr (restoredShown cfg .account id)
  | .orderBlotter _ => .inr (some emptyShown)
  | .unknown => .inr (some emptyShown)

/-- What parsing comes to: a tree is read off the labels of the nodes, with an empty chart at the end,
    and its panes show new panels. -/
structure Parsed (cfg : AppConfig) (read : Grid (Option Shown) × List (Split ⊕ Option Shown))
    (ctx : RestoreCtx) (out : Grid PanelContent × RestoreCtx) : Prop where
  shown : out.1.map out.2.panels.shownIn = read.1
  rest : out.2.rest.map (label cfg) = read.2
  grown : Grown ctx.panels ctx.alloc out.2.panels out.2.alloc
  between : ∀ c ∈ out.1.leaves, Between ctx.alloc out.2.alloc c

theorem parsed_seat {cfg : AppConfig} (ctx : RestoreCtx) (hf : Fresh ctx.panels ctx.alloc)
    {k : PanelKind} {panel : (id : ℕ) → Option (k.At id)} {o : Option Shown}
    (ho : (panel (ctx.alloc.next k)).map k.shown = o) :
    Parsed cfg (.leaf o, ctx.rest.map (label cfg)) ctx (ctx.seat k panel) := by
  have hbetween : ∀ c ∈ (ctx.seat k panel).1.leaves, Between ctx.alloc (ctx.alloc.bump k) c := by
    intro c hc
    rw [List.mem_singleton.mp hc]
    exact between_bump ctx.alloc k
  cases hp : panel (ctx.alloc.next k) with
  | none =>
    have hpanels : (ctx.seat k panel).2.panels = ctx.panels := by simp [RestoreCtx.seat, hp]
    refine ⟨?_, rfl, ?_, hbetween⟩
    · rw [hpanels, ← ho, hp]
      simp [RestoreCtx.seat, Preorder.Tree.map, Panels.shownIn, hf k _ le_rfl]
    · rw [hpanels]
      exact grown_bump ctx.panels ctx.alloc k
  | some p =>
    have hpanels : (ctx.seat k panel).2.panels = ctx.panels.insert k (ctx.alloc.next k) p := by
      simp [RestoreCtx.seat, hp]
    refine ⟨?_, rfl, ?_, hbetween⟩
    · rw [hpanels, ← ho, hp]
      simp [RestoreCtx.seat, Preorder.Tree.map, Panels.shownIn, Panels.insert_self]
    · rw [hpanels]
      exact grown_insert ctx.panels ctx.alloc k p

theorem parsed_parseNode (cfg : AppConfig) (fuel : ℕ) (ctx : RestoreCtx)
    (hf : Fresh ctx.panels ctx.alloc) :
    Parsed cfg (Preorder.Tree.readBack (some emptyShown) fuel (ctx.rest.map (label cfg))) ctx
      (parseNode cfg fuel ctx) := by
  have hempty (c : RestoreCtx) (hc : Fresh c.panels c.alloc) :
      Parsed cfg (.leaf (some emptyShown), c.rest.map (label cfg)) c (c.seat .chart emptyChart) :=
    parsed_seat c hc rfl
  induction fuel generalizing ctx with
  | zero => exact hempty ctx hf
  | succ fuel ih =>
    unfold parseNode
    cases hrest : ctx.rest with
    | nil =>
      have hnil := hempty ctx hf
      rw [hrest] at hnil
      exact hnil
    | cons node rest =>
      have hseat (k : PanelKind) (saved : ℕ) :
          Parsed cfg (.leaf (restoredShown cfg k saved), rest.map (label cfg)) ctx
            ({ ctx with rest }.seat k (restored cfg k saved)) := by
        have h : Parsed cfg (.leaf (restoredShown cfg k saved), rest.map (label cfg)) { ctx with rest }
            ({ ctx with rest }.seat k (restored cfg k saved)) :=
          parsed_seat { ctx with rest } hf (shown_restored cfg k saved _)
        exact ⟨h.shown, h.rest, h.grown, h.between⟩
      have hblank : Parsed cfg (.leaf (some emptyShown), rest.map (label cfg)) ctx
          ({ ctx with rest }.seat .chart emptyChart) := by
        have h := hempty { ctx with rest } hf
        exact ⟨h.shown, h.rest, h.grown, h.between⟩
      cases node with
      | split axis ratio =>
        have ha := ih { ctx with rest } hf
        have hb := ih (parseNode cfg fuel { ctx with rest }).2 (ha.grown.fresh hf)
        rw [ha.rest] at hb
        refine ⟨?_, hb.rest, ha.grown.trans hb.grown, ?_⟩
        · have hkept : (parseNode cfg fuel { ctx with rest }).1.map
              (parseNode cfg fuel (parseNode cfg fuel { ctx with rest }).2).2.panels.shownIn =
                (parseNode cfg fuel { ctx with rest }).1.map
                  (parseNode cfg fuel { ctx with rest }).2.panels.shownIn :=
            Preorder.Tree.map_congr fun c hc => hb.grown.shownIn (ha.between c hc)
          simp only [Preorder.Tree.map, hkept, ha.shown, hb.shown]
          rfl
        · intro c hc
          rcases List.mem_append.mp hc with hc | hc
          · exact (ha.between c hc).mono (fun _ => le_rfl) hb.grown.le
          · exact (hb.between c hc).mono ha.grown.le fun _ => le_rfl
      | chart id => exact hseat .chart id
      | watchlist id => exact hseat .watchlist id
      | orderPanel id => exact hseat .order id
      | account id => exact hseat .account id
      | orderBlotter i => exact hblank
      | unknown => exact hblank

/-- What a layout shows that is opened from a saved tree. -/
def reopened (cfg : AppConfig) (tree : List LayoutNode) : Grid (Option Shown) :=
  if tree.isEmpty then .leaf none
  else (Preorder.Tree.readBack (some emptyShown) (tree.length + 1) (tree.map (label cfg))).1

/-- A layout with new panels, from a state of the allocator on. -/
structure Opened (alloc : PanelIdAllocator) (out : Restored) : Prop where
  grown : Grown .empty alloc out.panels out.alloc
  between : ∀ c ∈ out.layout.leaves, Between alloc out.alloc c

theorem fresh_empty (alloc : PanelIdAllocator) : Fresh .empty alloc := fun _ _ _ => rfl

theorem restoreFromLayoutTree_spec (cfg : AppConfig) {tree : List LayoutNode} (htree : tree ≠ [])
    (alloc : PanelIdAllocator) : Opened alloc (restoreFromLayoutTree cfg tree alloc) ∧
      (restoreFromLayoutTree cfg tree alloc).layout.map
        (restoreFromLayoutTree cfg tree alloc).panels.shownIn = reopened cfg tree := by
  have h := parsed_parseNode cfg (tree.length + 1) ⟨.empty, alloc, tree⟩ (fresh_empty alloc)
  refine ⟨⟨h.grown, h.between⟩, ?_⟩
  rw [reopened, if_neg (by simpa using htree)]
  exact h.shown

theorem opened_single (panel : ChartPanel) (alloc : PanelIdAllocator) :
    Opened alloc (single panel alloc) := by
  refine ⟨grown_insert .empty alloc .chart _, fun c hc => ?_⟩
  rw [List.mem_singleton.mp hc]
  exact between_bump alloc .chart

theorem mem_leaves_splitFirst {axis : Axis} {new c : PanelContent} {t : Grid PanelContent} :
    c ∈ (splitFirst axis new t).leaves ↔ c ∈ t.leaves ∨ c = new := by
  induction t with
  | leaf a => simp [splitFirst, Preorder.Tree.leaves]
  | node split a b iha _ => simp [splitFirst, Preorder.Tree.leaves, iha, or_right_comm]

theorem Opened.addChart {alloc : PanelIdAllocator} {out : Restored} (h : Opened alloc out)
    (c : Config.ChartConfig) : Opened alloc (addChart out c) := by
  have hstep := grown_insert out.panels out.alloc .chart ⟨restorePanel c, trivial⟩
  refine ⟨h.grown.trans hstep, fun content hc => ?_⟩
  rcases mem_leaves_splitFirst.mp hc with hc | rfl
  · exact (h.between content hc).mono (fun _ => le_rfl) hstep.le
  · exact (between_bump out.alloc .chart).mono h.grown.le fun _ => le_rfl

theorem Opened.addCharts {alloc : PanelIdAllocator} (charts : List Config.ChartConfig) {out : Restored}
    (h : Opened alloc out) : Opened alloc (charts.foldl Workspace.addChart out) := by
  induction charts generalizing out with
  | nil => exact h
  | cons c charts ih => exact ih (h.addChart c)

theorem opened_openMain {cfg : AppConfig} (h : cfg.legacyPanelOrder = []) :
    Opened {} (openMain cfg) := by
  unfold openMain
  split
  · next htree => exact (restoreFromLayoutTree_spec cfg (by simpa using htree) {}).1
  · split
    · next horder => simp [h] at horder
    · split
      · exact (opened_single _ _).addCharts _
      · exact opened_single _ _

/-- The windows of a started app show panels under ids that were given out. -/
structure Started.Sound (app : Started) : Prop where
  fresh : Fresh app.panels app.panelIds
  between : ∀ key w, app.windows.get? key = some w → ∀ c ∈ w.layout.leaves,
    Between ⟨fun _ => 0⟩ app.panelIds c

/-- What there is to see of a window: whether it is the main one, where it is, and what is in its
    panes. -/
abbrev Look : Type := Bool × WindowGeometryConfig × Grid (Option Shown)

def Started.look (app : Started) (key : String) : Option Look :=
  (app.windows.get? key).map fun w =>
    (w.isMain, if w.isMain then app.window.toConfig else w.geometry, w.layout.map app.panels.shownIn)

theorem Panels.shownIn_merge_old (ps : Panels) {new : Panels} {lo alloc alloc' : PanelIdAllocator}
    (h : Grown .empty alloc new alloc') {c : PanelContent} (hc : Between lo alloc c) :
    (ps.merge new).shownIn c = ps.shownIn c := by
  cases c with
  | panel k id =>
    have hnew : new k id = none := h.frame k id (.inl (hc k id rfl).2)
    exact congrArg (Option.map k.shown) (by rw [merge, hnew, Option.none_or])
  | sessionChart id => rfl
  | placeholder => rfl

theorem Panels.shownIn_merge_new {ps : Panels} (new : Panels) {alloc hi : PanelIdAllocator}
    (hf : Fresh ps alloc) {c : PanelContent} (hc : Between alloc hi c) :
    (ps.merge new).shownIn c = new.shownIn c := by
  cases c with
  | panel k id =>
    have hold : ps k id = none := hf k id (hc k id rfl).1
    exact congrArg (Option.map k.shown) (by rw [merge, hold, Option.or_none])
  | sessionChart id => rfl
  | placeholder => rfl

/-- The layout of another window. -/
theorem opened_other (cfg : AppConfig) (w : WindowConfig) (alloc : PanelIdAllocator) :
    let out : Restored := if w.layoutTree.isEmpty then ⟨.leaf .placeholder, .empty, alloc⟩
      else restoreFromLayoutTree cfg w.layoutTree alloc
    Opened alloc out ∧ out.layout.map out.panels.shownIn = reopened cfg w.layoutTree := by
  intro out
  by_cases htree : w.layoutTree.isEmpty = true
  · have hout : out = ⟨.leaf .placeholder, .empty, alloc⟩ := if_pos htree
    rw [hout, reopened, if_pos htree]
    refine ⟨⟨.refl, fun c hc k id heq => ?_⟩, rfl⟩
    rw [List.mem_singleton.mp hc] at heq
    cases heq
  · have hout : out = restoreFromLayoutTree cfg w.layoutTree alloc := if_neg htree
    rw [hout]
    exact restoreFromLayoutTree_spec cfg (by simpa using htree) alloc

theorem Started.Sound.openWindow {app : Started} (h : app.Sound) (cfg : AppConfig)
    (entry : String × WindowConfig) :
    (openWindow cfg app entry).Sound ∧ ∀ key, (openWindow cfg app entry).look key =
      if key = entry.1 ∧ key ≠ mainDefault then
        some (false, entry.2.geometry, reopened cfg entry.2.layoutTree)
      else app.look key := by
  obtain ⟨key', w⟩ := entry
  by_cases hkey : key' = mainDefault
  · rw [Workspace.openWindow, if_pos hkey]
    refine ⟨h, fun key => ?_⟩
    rw [if_neg]
    rintro ⟨rfl, hne⟩
    exact hne hkey
  · obtain ⟨hopened, hshown⟩ := opened_other cfg w app.panelIds
    rw [Workspace.openWindow, if_neg hkey]
    generalize (if w.layoutTree.isEmpty then
      (⟨.leaf .placeholder, .empty, app.panelIds⟩ : Restored)
      else restoreFromLayoutTree cfg w.layoutTree app.panelIds) = out at hopened hshown
    have hfresh : Fresh (app.panels.merge out.panels) out.alloc := by
      intro k id hid
      have hold := h.fresh k id ((hopened.grown.le k).trans hid)
      have hnew := hopened.grown.fresh (fresh_empty _) k id hid
      rw [Panels.merge, hold, hnew, Option.none_or]
    refine ⟨⟨hfresh, fun key w' hw' c hc => ?_⟩, fun key => ?_⟩
    · rcases eq_or_ne key key' with rfl | hne
      · rw [SortedMap.get?_insert, Option.some.injEq] at hw'
        subst hw'
        exact (hopened.between c hc).mono (fun _ => Nat.zero_le _) fun _ => le_rfl
      · rw [SortedMap.get?_insert_of_ne _ hne] at hw'
        exact (h.between key w' hw' c hc).mono (fun _ => le_rfl) hopened.grown.le
    · rcases eq_or_ne key key' with rfl | hne
      · rw [if_pos ⟨rfl, hkey⟩, Started.look, SortedMap.get?_insert, ← hshown]
        have hmerge := Preorder.Tree.map_congr fun c hc =>
          Panels.shownIn_merge_new out.panels h.fresh (hopened.between c hc)
        simp [hmerge]
      · rw [if_neg fun hand => hne hand.1, Started.look, Started.look,
          SortedMap.get?_insert_of_ne _ hne]
        refine Option.map_congr fun w' hw' => ?_
        have hmerge := Preorder.Tree.map_congr fun c hc =>
          Panels.shownIn_merge_old app.panels hopened.grown (h.between key w' hw' c hc)
        rw [hmerge]

theorem look_foldl (cfg : AppConfig) {es : List (String × WindowConfig)} {app : Started} (h : app.Sound)
    {key : String} (hkey : key ≠ mainDefault) (hnone : ∀ e ∈ es, e.1 ≠ key) :
    (es.foldl (openWindow cfg) app).look key = app.look key := by
  induction es generalizing app with
  | nil => rfl
  | cons e es ih =>
    obtain ⟨hsound, hlook⟩ := h.openWindow cfg e
    rw [List.foldl_cons, ih hsound fun e' he' => hnone e' (List.mem_cons_of_mem e he'), hlook, if_neg]
    rintro ⟨rfl, -⟩
    exact hnone e List.mem_cons_self rfl

theorem look_foldl_main (cfg : AppConfig) {es : List (String × WindowConfig)} {app : Started}
    (h : app.Sound) : (es.foldl (openWindow cfg) app).look mainDefault = app.look mainDefault := by
  induction es generalizing app with
  | nil => rfl
  | cons e es ih =>
    obtain ⟨hsound, hlook⟩ := h.openWindow cfg e
    rw [List.foldl_cons, ih hsound, hlook, if_neg fun hand => hand.2 rfl]

theorem look_foldl_of_mem (cfg : AppConfig) {es : List (String × WindowConfig)} {app : Started}
    (h : app.Sound) (hes : (es.map Prod.fst).Nodup) {key : String} {w : WindowConfig}
    (hkey : key ≠ mainDefault) (hmem : (key, w) ∈ es) : (es.foldl (openWindow cfg) app).look key =
      some (false, w.geometry, reopened cfg w.layoutTree) := by
  induction es generalizing app with
  | nil => cases hmem
  | cons e es ih =>
    obtain ⟨hsound, hlook⟩ := h.openWindow cfg e
    rw [List.map_cons, List.nodup_cons] at hes
    rcases List.mem_cons.mp hmem with rfl | hmem
    · have hnone : ∀ e ∈ es, e.1 ≠ key := by
        rintro e he rfl
        exact hes.1 (List.mem_map.mpr ⟨e, he, rfl⟩)
      rw [List.foldl_cons, look_foldl cfg hsound hkey hnone, hlook, if_pos ⟨rfl, hkey⟩]
    · rw [List.foldl_cons, ih hsound hes.2 hmem]

theorem sound_openedMain {cfg : AppConfig} (h : cfg.legacyPanelOrder = []) :
    (openedMain cfg).Sound := by
  have hopened := opened_openMain h
  refine ⟨hopened.grown.fresh (fresh_empty _), fun key w hw c hc => ?_⟩
  rw [SortedMap.get?_eq_some_iff, openedMain, SortedMap.mem_entries_insert] at hw
  rcases hw with ⟨rfl, rfl⟩ | ⟨-, hnil⟩
  · exact (hopened.between c hc).mono (fun _ => Nat.zero_le _) fun _ => le_rfl
  · cases hnil

/-- A window other than Main opens with its own layout. -/
theorem look_new {cfg : AppConfig} (h : cfg.legacyPanelOrder = []) {key : String}
    (hkey : key ≠ mainDefault) : (MidasApp.new cfg).look key =
      (cfg.windows.get? key).map fun w => (false, w.geometry, reopened cfg w.layoutTree) := by
  have hsound := sound_openedMain h
  cases hw : cfg.windows.get? key with
  | none =>
    have hnone : ∀ e ∈ cfg.windows.entries, e.1 ≠ key := by
      rintro ⟨key', w⟩ he rfl
      rw [SortedMap.get?_eq_some_iff.mpr he] at hw
      cases hw
    have hfirst : (openedMain cfg).look key = none := by
      rw [Started.look, openedMain, SortedMap.get?_insert_of_ne _ hkey]
      rfl
    rw [MidasApp.new, look_foldl cfg hsound hkey hnone, hfirst, Option.map_none]
  | some w =>
    have hnodup : (cfg.windows.entries.map Prod.fst).Nodup := cfg.windows.sorted.imp fun hlt => hlt.ne
    exact look_foldl_of_mem cfg hsound hnodup hkey (SortedMap.get?_eq_some_iff.mp hw)

/-- The window Main opens as the main one. -/
theorem look_new_main {cfg : AppConfig} (h : cfg.legacyPanelOrder = []) :
    (MidasApp.new cfg).look mainDefault = some (true,
      (WindowGeometry.fromConfig (mainGeometry cfg)
        ((mainGeometry cfg).width, (mainGeometry cfg).height)).toConfig,
      (openMain cfg).layout.map (openMain cfg).panels.shownIn) := by
  rw [MidasApp.new, look_foldl_main cfg (sound_openedMain h), Started.look, openedMain,
    SortedMap.get?_insert]
  rfl

/-- It has the layout that is saved for a window of its name, if there is one. -/
theorem shown_openMain {cfg : AppConfig} {w : WindowConfig} (hw : cfg.windows.get? mainDefault = some w)
    (htree : w.layoutTree ≠ []) :
    (openMain cfg).layout.map (openMain cfg).panels.shownIn = reopened cfg w.layoutTree := by
  have hlayout : mainLayout cfg = w.layoutTree := by rw [mainLayout, hw]; rfl
  have hmain : openMain cfg = restoreFromLayoutTree cfg w.layoutTree {} := by
    rw [openMain, hlayout, if_pos (by simpa using htree)]
  rw [hmain]
  exact (restoreFromLayoutTree_spec cfg htree {}).2

theorem both_fst_snd {α : Type} (o : Option (α × α)) : both (o.map Prod.fst) (o.map Prod.snd) = o := by
  cases o <;> rfl

theorem WindowGeometry.toConfig_fromConfig (g : WindowGeometry) :
    (fromConfig g.toConfig (g.toConfig.width, g.toConfig.height)).toConfig = g.toConfig := by
  have hsize : (fromConfig g.toConfig (g.toConfig.width, g.toConfig.height)).size = g.size := by
    unfold fromConfig
    split <;> rfl
  have hg : fromConfig g.toConfig (g.toConfig.width, g.toConfig.height) = g := by
    cases g with
    | mk position size monitorSize =>
      simp only [fromConfig, toConfig, both_fst_snd] at hsize ⊢
      rw [hsize]
  rw [hg]

/-! ### Saving and starting again -/

section Restart
variable {π : Type} (app : MidasApp π)

namespace MidasApp

/-- The app saved and started again. -/
def restart : Started := MidasApp.new (Config.loaded app.buildConfig)

/-- A window of the running app with what its panes show. -/
def lookAs (key : String) (w : WindowState π) (shown : Grid (Option Shown)) : Look :=
  (key = app.mainWindowKey, if key = app.mainWindowKey then app.window.toConfig else w.geometry, shown)

/-- What there is to see of a window of the running app. -/
def look (key : String) : Option Look :=
  (app.windows.get? key).map fun w => app.lookAs key w (w.layout.map (app.shown w))

variable {app}

theorem axis_parse_name (axis : Axis) : Axis.parse axis.name = axis := by cases axis <;> rfl

variable (app) in
/-- What is read for the nodes that are saved. -/
theorem label_saved {e : String × WindowState π} (he : e ∈ app.windows.entries) :
    (e.2.layout.nodes.filterMap app.savedNode).map (label app.buildConfig) =
      (e.2.layout.map fun pane => (app.firstShown pane).map some).nodes.filterMap
        Preorder.Tree.kept := by
  rw [Preorder.Tree.nodes_map, List.filterMap_map, List.map_filterMap]
  refine List.filterMap_congr fun x hx => ?_
  rcases x with split | pane
  · simp [savedNode, label, axis_parse_name]
  · rw [Function.comp_apply, Sum.map_inr, firstShown_eq]
    cases hheld : app.held pane with
    | none => simp [savedNode, hheld]
    | some h =>
      obtain ⟨k, id, p⟩ := h
      have hfind := find?_pool_buildConfig he (Preorder.Tree.mem_nodes_inr.mp hx) hheld
      have hrestored : restoredShown app.buildConfig k id = some (k.shown p) := by
        rw [restoredShown, restored, hfind, Option.map_some, k.shown_fromConfig_toConfig]
      have hlabel : label app.buildConfig (k.node id) = .inr (restoredShown app.buildConfig k id) := by
        cases k <;> rfl
      simp [savedNode, hheld, hlabel, hrestored]

variable (app) in
/-- What the panes of a window show as the app saves it. -/
def savedGrid (w : WindowState π) : Grid (Option (Option Shown)) :=
  w.layout.map fun pane => (app.firstShown pane).map some

/-- A window opens again with what is read off its saved nodes, if there is a leaf among them. -/
theorem layout_restart {key : String} {w : WindowState π} (hw : app.windows.get? key = some w)
    (hsome : ∃ pane ∈ w.layout.leaves, (app.firstShown pane).isSome) :
    ∃ fuel, ((app.savedGrid w).nodes.filterMap Preorder.Tree.kept).length < fuel ∧
      (app.restart.look key).map (·.2.2) = some (Preorder.Tree.readBack (some emptyShown) fuel
        ((app.savedGrid w).nodes.filterMap Preorder.Tree.kept)).1 := by
  have hsaved : app.buildConfig.windows.get? key = some (app.savedEntry (key, w)).2 := by
    rw [get?_buildConfig, hw, Option.map_some]
  have htree : (app.savedEntry (key, w)).2.layoutTree ≠ [] := by
    obtain ⟨pane, hpane, hshown⟩ := hsome
    rw [firstShown_eq, Option.isSome_map] at hshown
    obtain ⟨h, hheld⟩ := Option.isSome_iff_exists.mp hshown
    refine List.ne_nil_of_mem (a := h.1.node h.2.1) (List.mem_filterMap.mpr ⟨.inr pane, ?_, ?_⟩)
    · exact Preorder.Tree.mem_nodes_inr.mpr hpane
    · rw [savedNode, hheld, Option.map_some]
  have hlabels := label_saved app (SortedMap.get?_eq_some_iff.mp hw)
  have hreopened : reopened app.buildConfig (app.savedEntry (key, w)).2.layoutTree =
      (Preorder.Tree.readBack (some emptyShown) ((app.savedEntry (key, w)).2.layoutTree.length + 1)
        ((app.savedGrid w).nodes.filterMap Preorder.Tree.kept)).1 := by
    rw [reopened, if_neg (by simpa using htree), savedGrid, ← hlabels]
    rfl
  refine ⟨(app.savedEntry (key, w)).2.layoutTree.length + 1, ?_, ?_⟩
  · rw [savedGrid, ← hlabels, List.length_map]
    exact Nat.lt_succ_self _
  · rw [restart, loaded_buildConfig, ← hreopened]
    rcases eq_or_ne key mainDefault with rfl | hkey
    · rw [look_new_main rfl, Option.map_some, shown_openMain hsaved htree]
    · rw [look_new rfl hkey, hsaved]
      rfl

/-- A window all panes of which are saved comes back as it is saved. -/
theorem layout_restart_of_saved {key : String} {w : WindowState π} (hw : app.windows.get? key = some w)
    (hall : ∀ pane ∈ w.layout.leaves, (app.firstShown pane).isSome) :
    (app.restart.look key).map (·.2.2) = some (w.layout.map app.firstShown) := by
  have hgrid : app.savedGrid w = (w.layout.map app.firstShown).map some := by
    rw [Preorder.Tree.map_map]
    refine Preorder.Tree.map_congr fun pane hpane => ?_
    obtain ⟨o, ho⟩ := Option.isSome_iff_exists.mp (hall pane hpane)
    simp [ho]
  obtain ⟨pane, hpane⟩ := List.exists_mem_of_ne_nil _ w.layout.leaves_ne_nil
  obtain ⟨fuel, hfuel, hlook⟩ := layout_restart hw ⟨pane, hpane, hall pane hpane⟩
  rw [hgrid, Preorder.Tree.filterMap_kept_nodes] at hfuel hlook
  rw [hlook, Preorder.Tree.readBack_nodes _ _ hfuel]

/-- Where Main is the main window, a window comes back in its place. -/
theorem look_restart_of_saved (hmain : app.mainWindowKey = mainDefault) {key : String}
    {w : WindowState π}
    (hw : app.windows.get? key = some w)
    (hall : ∀ pane ∈ w.layout.leaves, (app.firstShown pane).isSome) :
    app.restart.look key = some (app.lookAs key w (w.layout.map app.firstShown)) := by
  have htree := layout_restart_of_saved hw hall
  have hsaved : app.buildConfig.windows.get? key = some (app.savedEntry (key, w)).2 := by
    rw [get?_buildConfig, hw, Option.map_some]
  rw [restart, loaded_buildConfig] at htree ⊢
  rcases eq_or_ne key mainDefault with rfl | hkey
  · rw [look_new_main rfl, Option.map_some, Option.some_inj] at htree
    dsimp only at htree
    have hgeometry : mainGeometry app.buildConfig = app.window.toConfig := by
      rw [mainGeometry, hsaved]
      exact if_pos hmain.symm
    rw [look_new_main rfl, htree, hgeometry, WindowGeometry.toConfig_fromConfig]
    simp [lookAs, hmain]
  · rw [look_new rfl hkey, hsaved, Option.map_some, Option.map_some, Option.some_inj] at htree
    dsimp only at htree
    rw [look_new rfl hkey, hsaved, Option.map_some, htree]
    simp [lookAs, savedEntry, hmain, hkey]

/-- A handle that is in a window all panes of which have panels is in one that comes first. -/
theorem firstShown_isSome {key : String} {w : WindowState π} (hw : app.windows.get? key = some w)
    (hall : ∀ key w, app.windows.get? key = some w → ∀ pane ∈ w.layout.leaves,
      (app.shown w pane).isSome)
    {pane : π} (hpane : pane ∈ w.layout.leaves) : (app.firstShown pane).isSome := by
  have hknown : ∃ content, w.panes pane = some content := by
    obtain ⟨s, hs⟩ := Option.isSome_iff_exists.mp (hall key w hw pane hpane)
    obtain ⟨content, hcontent, -⟩ := Option.bind_eq_some_iff.mp hs
    exact ⟨content, hcontent⟩
  have hmem : w ∈ app.windows.values :=
    List.mem_map.mpr ⟨(key, w), SortedMap.get?_eq_some_iff.mp hw, rfl⟩
  obtain ⟨content, hcontent⟩ := hknown
  have hfirst : (app.paneState pane).isSome :=
    List.findSome?_isSome_iff.mpr ⟨w, hmem, by rw [hcontent]; rfl⟩
  obtain ⟨content', hcontent'⟩ := Option.isSome_iff_exists.mp hfirst
  obtain ⟨w', hw', hknows⟩ := List.exists_of_findSome?_eq_some hcontent'
  obtain ⟨⟨key', w''⟩, he, rfl⟩ := List.mem_map.mp hw'
  have hleaf : pane ∈ w''.layout.leaves := w''.known pane (by rw [hknows]; rfl)
  have hshown := hall key' w'' (SortedMap.get?_eq_some_iff.mpr he) pane hleaf
  rw [shown, hknows] at hshown
  rwa [firstShown, hcontent']

end MidasApp

end Restart

section

def apple : PanelKind.chart.At 1 := ⟨⟨"AAPL", .d1⟩, trivial⟩

def tech : PanelKind.watchlist.At 1 := ⟨⟨1, "Tech", ["MSFT"]⟩, rfl⟩

def appleAndTech : Panels := (Panels.empty.insert .chart 1 apple).insert .watchlist 1 tech

/-- A window with a single pane. -/
def onePane (content : PanelContent) : WindowState ℕ where
  layout := .leaf 0
  panes pane := if pane = 0 then some content else none
  geometry := Config.defaultWindowGeometry
  known pane h := by
    split at h
    · next hpane => simp [hpane, Preorder.Tree.leaves]
    · cases h

/-- Two windows, both with a pane of the handle 0. -/
def twoWindows : MidasApp ℕ where
  windows := ⟨[("Main", onePane (.panel .chart 1)), ("Second", onePane (.panel .watchlist 1))],
    by decide +kernel⟩
  mainWindowKey := "Main"
  window := ⟨none, (1280, 800), none⟩
  panels := appleAndTech
  hasMain := by decide +kernel

/-- A placeholder beside a watchlist. -/
def besidePlaceholder : WindowState ℕ where
  layout := .node ⟨.vertical, 1 / 2⟩ (.leaf 0) (.leaf 1)
  panes
    | 0 => some .placeholder
    | 1 => some (.panel .watchlist 1)
    | _ => none
  geometry := Config.defaultWindowGeometry
  known pane h := by
    split at h
    · simp [Preorder.Tree.leaves]
    · simp [Preorder.Tree.leaves]
    · cases h

def placeholderFirst : MidasApp ℕ where
  windows := ⟨[("Main", besidePlaceholder)], by decide +kernel⟩
  mainWindowKey := "Main"
  window := ⟨none, (1280, 800), none⟩
  panels := appleAndTech
  hasMain := by decide +kernel

end

end Midas.Workspace
