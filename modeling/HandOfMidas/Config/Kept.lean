import HandOfMidas.Config.Migrated

/-! Whether the workspace survives the migrations: which panels the layout refers to before and after
    them. Two things lose it. Validation drops a leaf without a panel and leaves the split over it,
    and an index past the end of the account panels becomes one of a panel made from a blotter. -/

namespace Midas.Config

/-- What a leaf of a layout shows. -/
inductive PanelRef where
  | chart (chart : ChartConfig)
  | watchlist (watchlist : WatchlistConfig)
  | orderPanel (orderPanel : OrderPanelConfig)
  | account (account : AccountPanelConfig)
  | unknown
  deriving DecidableEq

/-! ### References before and after -/

/-- The panel that a leaf of the old tree refers to, with the id it gets. A blotter stands for the
    account panel made from it, and a leaf of an unknown kind for itself. -/
def referredNode (cfg : AppConfig) : LayoutNode → Option PanelRef
  | .split _ _ => none
  | .chart i => (cfg.charts[i]?).map (.chart <| Panel.withId · i)
  | .watchlist i => (cfg.watchlists[i]?).map (.watchlist <| Panel.withId · i)
  | .orderPanel i => (cfg.orderPanels[i]?).map (.orderPanel <| Panel.withId · i)
  | .orderBlotter i =>
    ((made cfg)[i]?).map (.account <| Panel.withId · (cfg.accountPanels.length + i))
  | .account i => (cfg.accountPanels[i]?).map (.account <| Panel.withId · i)
  | .unknown => some .unknown

/-- The panel that a slot of the old order refers to. A slot of an unknown kind is none. -/
def referredSlot (cfg : AppConfig) : PanelSlot → Option PanelRef
  | .chart i => referredNode cfg (.chart i)
  | .watchlist i => referredNode cfg (.watchlist i)
  | .orderPanel i => referredNode cfg (.orderPanel i)
  | .orderBlotter i => referredNode cfg (.orderBlotter i)
  | .account i => referredNode cfg (.account i)
  | .unknown => none

/-- The panels that the old layout refers to: by its tree, or by its order if it has no tree. -/
def referred (cfg : AppConfig) : List PanelRef :=
  if cfg.legacyLayoutTree = [] then cfg.legacyPanelOrder.filterMap (referredSlot cfg)
  else cfg.legacyLayoutTree.filterMap (referredNode cfg)

/-- The panel that a leaf refers to by its id. -/
def panelAt (cfg : AppConfig) : LayoutNode → Option PanelRef
  | .chart i => (cfg.charts.find? (·.id = i)).map .chart
  | .watchlist i => (cfg.watchlists.find? (·.id = i)).map .watchlist
  | .orderPanel i => (cfg.orderPanels.find? (·.id = i)).map .orderPanel
  | .account i => (cfg.accountPanels.find? (·.id = i)).map .account
  | .unknown => some .unknown
  | .split _ _ | .orderBlotter _ => none

/-- What the leaves of the main layout show, one by one. -/
def shown (cfg : AppConfig) : List (Option PanelRef) :=
  ((mainLayout cfg).filter fun node => !node.isSplit).map (panelAt cfg)

/-- The configuration that the app starts with. -/
def loaded (cfg : AppConfig) : AppConfig := validate (migrated cfg)

/-- The workspace is kept. -/
structure Kept (cfg : AppConfig) : Prop where
  charts : ((loaded cfg).charts.map (·.id)).Nodup
  watchlists : ((loaded cfg).watchlists.map (·.id)).Nodup
  orderPanels : ((loaded cfg).orderPanels.map (·.id)).Nodup
  accountPanels : ((loaded cfg).accountPanels.map (·.id)).Nodup
  oneMain : (loaded cfg).windows.values.countP (·.isMain) = 1
  leaves : shown (loaded cfg) = (referred cfg).map some
  tree : WellFormed cfg.legacyLayoutTree → WellFormed (mainLayout (loaded cfg))
  again : validate (loaded cfg) = loaded cfg

/-! ### When it is kept -/

/-- An account index beyond the account panels is beyond those made from blotters too. -/
def AccountIsSound (cfg : AppConfig) (i : ℕ) : Prop :=
  cfg.accountPanels.length ≤ i → cfg.accountPanels.length + (made cfg).length ≤ i

/-- The place of a blotter among the account panels fits in a word, or it is beyond them all. -/
def BlotterIsSound (cfg : AppConfig) (word i : ℕ) : Prop :=
  if i < (made cfg).length then cfg.accountPanels.length + i < word
  else cfg.accountPanels.length + (made cfg).length ≤ (cfg.accountPanels.length + i) % word

def NodeIsSound (cfg : AppConfig) : LayoutNode → Prop
  | .account i => AccountIsSound cfg i
  | .orderBlotter i => made cfg ≠ [] ∧ BlotterIsSound cfg (2 ^ 32) i
  | _ => True

def SlotIsSound (cfg : AppConfig) : PanelSlot → Prop
  | .account i => AccountIsSound cfg i
  | .orderBlotter i => made cfg ≠ [] → BlotterIsSound cfg (2 ^ 64) i
  | _ => True

/-- A tree with a split in it has a panel for each of its leaves. -/
def NoneDangles (cfg : AppConfig) (layout : List LayoutNode) : Prop :=
  WellFormed layout → (∃ node ∈ layout, node.isSplit) →
    ∀ node ∈ layout, node.isSplit = false → (referredNode cfg node).isSome

/-- The layout can be taken over. -/
def LayoutIsSound (cfg : AppConfig) : Prop :=
  (cfg.legacyLayoutTree = [] → ∀ slot ∈ cfg.legacyPanelOrder, SlotIsSound cfg slot) ∧
    (∀ node ∈ cfg.legacyLayoutTree, NodeIsSound cfg node) ∧ NoneDangles cfg cfg.legacyLayoutTree

/-! ### Leaf by leaf -/

/-- The account panel at a place. -/
def accountAt (cfg : AppConfig) (i : ℕ) : Option PanelRef :=
  ((cfg.accountPanels ++ made cfg)[i]?).map (.account <| Panel.withId · i)

theorem isSome_accountAt {cfg : AppConfig} {i : ℕ} :
    (accountAt cfg i).isSome ↔ i < cfg.accountPanels.length + (made cfg).length := by
  simp [accountAt]

theorem accountAt_eq_none {cfg : AppConfig} {i : ℕ} :
    accountAt cfg i = none ↔ cfg.accountPanels.length + (made cfg).length ≤ i := by
  simp [accountAt]

theorem accountAt_account_iff (cfg : AppConfig) (i : ℕ) :
    accountAt cfg i = referredNode cfg (.account i) ↔ AccountIsSound cfg i := by
  unfold AccountIsSound
  by_cases hi : i < cfg.accountPanels.length
  · have hleft : accountAt cfg i = referredNode cfg (.account i) := by
      rw [accountAt, List.getElem?_append_left hi, referredNode]
    simp [hleft, hi]
  · have hnone : referredNode cfg (.account i) = none := by simpa [referredNode] using hi
    rw [hnone, accountAt_eq_none]
    simp [not_lt.mp hi]

theorem accountAt_blotter_iff (cfg : AppConfig) (word : ℕ) (hword : 0 < word) (i : ℕ) :
    accountAt cfg ((cfg.accountPanels.length + i) % word) = referredNode cfg (.orderBlotter i) ↔
      BlotterIsSound cfg word i := by
  unfold BlotterIsSound
  split
  · rename_i hi
    have hright : accountAt cfg (cfg.accountPanels.length + i) =
        referredNode cfg (.orderBlotter i) := by
      rw [accountAt, List.getElem?_append_right (Nat.le_add_right _ _), Nat.add_sub_cancel_left,
        referredNode]
    constructor
    · intro h
      rw [← hright, accountAt, accountAt, List.getElem?_append_right (Nat.le_add_right _ _),
        Nat.add_sub_cancel_left, List.getElem?_eq_getElem hi] at h
      obtain ⟨a, -, ha⟩ := Option.map_eq_some_iff.mp h
      have hid := congrArg Panel.id (PanelRef.account.inj ha)
      rw [Panel.id_withId, Panel.id_withId] at hid
      exact hid ▸ Nat.mod_lt _ hword
    · intro h
      rw [Nat.mod_eq_of_lt h, hright]
  · rename_i hi
    have hnone : referredNode cfg (.orderBlotter i) = none := by simpa [referredNode] using hi
    rw [hnone, accountAt_eq_none]

section
variable {cfg m : AppConfig} (h : Pools cfg m)
include h

theorem panelAt_chart (i : ℕ) : panelAt m (.chart i) = referredNode cfg (.chart i) := by
  have hfind := find?_numbered i cfg.charts
  rw [← h.charts] at hfind
  exact (congrArg (Option.map PanelRef.chart) hfind).trans (Option.map_map _ _ _)

theorem panelAt_watchlist (i : ℕ) : panelAt m (.watchlist i) = referredNode cfg (.watchlist i) := by
  have hfind := find?_numbered i cfg.watchlists
  rw [← h.watchlists] at hfind
  exact (congrArg (Option.map PanelRef.watchlist) hfind).trans (Option.map_map _ _ _)

theorem panelAt_orderPanel (i : ℕ) : panelAt m (.orderPanel i) = referredNode cfg (.orderPanel i) := by
  have hfind := find?_numbered i cfg.orderPanels
  rw [← h.orderPanels] at hfind
  exact (congrArg (Option.map PanelRef.orderPanel) hfind).trans (Option.map_map _ _ _)

theorem panelAt_account (i : ℕ) : panelAt m (.account i) = accountAt cfg i := by
  have hfind := find?_numbered i (cfg.accountPanels ++ made cfg)
  rw [← h.accountPanels] at hfind
  exact (congrArg (Option.map PanelRef.account) hfind).trans (Option.map_map _ _ _)

end

/-- A leaf is kept that has a panel. -/
theorem keepsNode_eq (m : AppConfig) {node : LayoutNode} (hsplit : node.isSplit = false)
    (hblotter : ∀ i, node ≠ .orderBlotter i) : keepsNode m node = (panelAt m node).isSome := by
  cases node with
  | split => cases hsplit
  | orderBlotter i => exact absurd rfl (hblotter i)
  | unknown => rfl
  | chart | watchlist | orderPanel | account =>
    simp only [keepsNode, panelAt, Option.isSome_map, List.isSome_find?]

/-- What a leaf shows after the migrations, unless validation drops it. -/
def shownNode (m : AppConfig) (node : LayoutNode) : Option (Option PanelRef) :=
  if keepsNode m node && !node.isSplit then some (panelAt m node) else none

theorem shownNode_eq (m : AppConfig) {node : LayoutNode} (hsplit : node.isSplit = false)
    (hblotter : ∀ i, node ≠ .orderBlotter i) : shownNode m node = (panelAt m node).map some := by
  rw [shownNode, keepsNode_eq m hsplit hblotter, hsplit]
  cases panelAt m node <;> rfl

theorem map_some_inj {α : Type} {a b : Option α} : a.map some = b.map some ↔ a = b :=
  (Option.map_injective (Option.some_injective α)).eq_iff

/-- A leaf of the old tree shows what it did exactly when it is sound. -/
theorem shownNode_iff {cfg m : AppConfig} (h : Pools cfg m) (node : LayoutNode) :
    shownNode m (nodeInV2 cfg node) = (referredNode cfg node).map some ↔ NodeIsSound cfg node := by
  have hsame (node : LayoutNode) (hblotter : ∀ i, node ≠ .orderBlotter i) : nodeInV2 cfg node =
      node := by
    cases node <;> first | rfl | exact absurd rfl (hblotter _) | simp [nodeInV2, nodeAfterBlotters]
  cases node with
  | split axis ratio =>
    rw [hsame _ (by simp)]
    simp [shownNode, LayoutNode.isSplit, referredNode, NodeIsSound]
  | chart i =>
    rw [hsame _ (by simp), shownNode_eq m rfl (by simp), panelAt_chart h]
    exact iff_of_true rfl trivial
  | watchlist i =>
    rw [hsame _ (by simp), shownNode_eq m rfl (by simp), panelAt_watchlist h]
    exact iff_of_true rfl trivial
  | orderPanel i =>
    rw [hsame _ (by simp), shownNode_eq m rfl (by simp), panelAt_orderPanel h]
    exact iff_of_true rfl trivial
  | unknown =>
    rw [hsame _ (by simp), shownNode_eq m rfl (by simp)]
    exact iff_of_true rfl trivial
  | account i =>
    rw [hsame _ (by simp), shownNode_eq m rfl (by simp), panelAt_account h, map_some_inj]
    exact accountAt_account_iff cfg i
  | orderBlotter i =>
    by_cases hmade : made cfg = []
    · have hnone : referredNode cfg (.orderBlotter i) = none := by simp [referredNode, hmade]
      rw [nodeInV2, if_pos hmade, hnone]
      simp [shownNode, keepsNode, LayoutNode.isSplit, NodeIsSound, hmade]
    · rw [nodeInV2, if_neg hmade, nodeAfterBlotters, shownNode_eq m rfl (by simp), panelAt_account h,
        map_some_inj, accountAt_blotter_iff cfg _ (by decide)]
      simp [NodeIsSound, hmade]

/-- What a leaf of the old tree refers to may turn into another panel, but not into none. -/
theorem isSome_shownNode {cfg m : AppConfig} (h : Pools cfg m) (node : LayoutNode)
    (href : (referredNode cfg node).isSome) : (shownNode m (nodeInV2 cfg node)).isSome := by
  by_cases hsound : NodeIsSound cfg node
  · rw [(shownNode_iff h node).mpr hsound]
    simpa using href
  cases node with
  | split | chart | watchlist | orderPanel | unknown => exact absurd trivial hsound
  | account i =>
    have hi : i < cfg.accountPanels.length := by simpa [referredNode] using href
    exact absurd (fun hle => absurd hi (not_lt.mpr hle)) hsound
  | orderBlotter i =>
    have hi : i < (made cfg).length := by simpa [referredNode] using href
    have hmade : made cfg ≠ [] := List.ne_nil_of_length_pos (Nat.zero_lt_of_lt hi)
    rw [nodeInV2, if_neg hmade, nodeAfterBlotters, shownNode_eq m rfl (by simp), panelAt_account h,
      Option.isSome_map, isSome_accountAt]
    exact (Nat.mod_le _ _).trans_lt (Nat.add_lt_add_left hi _)

/-- What a slot shows after the migrations. -/
def shownSlot (cfg m : AppConfig) (slot : PanelSlot) : Option (Option PanelRef) :=
  (leafOfSlot m (slotInV2 cfg slot)).map (panelAt m)

/-- A leaf for a place in a pool shows the panel there. -/
theorem map_leaf_eq {α : Type} [Panel α] {m : AppConfig} {pool : List α} {node : ℕ → LayoutNode}
    {f : α → PanelRef} {i : ℕ} (h : panelAt m (node i) = (pool[i]?).map (f <| Panel.withId · i)) :
    (((numbered pool)[i]?).map (node <| Panel.id ·)).map (panelAt m) =
      (panelAt m (node i)).map some := by
  rw [getElem?_numbered]
  cases hi : pool[i]? with
  | none => simp [h, hi]
  | some a => simp [h, hi, Panel.id_withId]

/-- A slot of the old order shows what it did exactly when it is sound. -/
theorem shownSlot_iff {cfg m : AppConfig} (h : Pools cfg m) (slot : PanelSlot) :
    shownSlot cfg m slot = (referredSlot cfg slot).map some ↔ SlotIsSound cfg slot := by
  have hsame (slot : PanelSlot) (hblotter : ∀ i, slot ≠ .orderBlotter i) : slotInV2 cfg slot =
      slot := by
    cases slot <;> first | exact absurd rfl (hblotter _) | simp [slotInV2, slotAfterBlotters]
  have haccount (i : ℕ) : (leafOfSlot m (.account i)).map (panelAt m) = (accountAt cfg i).map some := by
    rw [leafOfSlot, h.accountPanels, map_leaf_eq (f := .account) (panelAt_account h i),
      panelAt_account h]
  cases slot with
  | chart i =>
    rw [shownSlot, hsame _ (by simp), leafOfSlot, h.charts,
      map_leaf_eq (f := .chart) (panelAt_chart h i), panelAt_chart h]
    exact iff_of_true rfl trivial
  | watchlist i =>
    rw [shownSlot, hsame _ (by simp), leafOfSlot, h.watchlists,
      map_leaf_eq (f := .watchlist) (panelAt_watchlist h i), panelAt_watchlist h]
    exact iff_of_true rfl trivial
  | orderPanel i =>
    rw [shownSlot, hsame _ (by simp), leafOfSlot, h.orderPanels,
      map_leaf_eq (f := .orderPanel) (panelAt_orderPanel h i), panelAt_orderPanel h]
    exact iff_of_true rfl trivial
  | unknown =>
    rw [shownSlot, hsame _ (by simp)]
    exact iff_of_true rfl trivial
  | account i =>
    rw [shownSlot, hsame _ (by simp), haccount, map_some_inj]
    exact accountAt_account_iff cfg i
  | orderBlotter i =>
    by_cases hmade : made cfg = []
    · have hnone : referredSlot cfg (.orderBlotter i) = none := by
        simp [referredSlot, referredNode, hmade]
      rw [shownSlot, slotInV2, if_pos hmade, hnone]
      simp [leafOfSlot, SlotIsSound, hmade]
    · rw [shownSlot, slotInV2, if_neg hmade, slotAfterBlotters, haccount, map_some_inj]
      have hiff := accountAt_blotter_iff cfg (2 ^ 64) (by decide) i
      exact hiff.trans ⟨fun h _ => h, fun h => h hmade⟩

theorem isSome_shownSlot {cfg m : AppConfig} (h : Pools cfg m) (slot : PanelSlot)
    (href : (referredSlot cfg slot).isSome) : (shownSlot cfg m slot).isSome := by
  by_cases hsound : SlotIsSound cfg slot
  · rw [(shownSlot_iff h slot).mpr hsound]
    simpa using href
  cases slot with
  | chart | watchlist | orderPanel | unknown => exact absurd trivial hsound
  | account i =>
    have hi : i < cfg.accountPanels.length := by simpa [referredSlot, referredNode] using href
    exact absurd (fun hle => absurd hi (not_lt.mpr hle)) hsound
  | orderBlotter i =>
    have hi : i < (made cfg).length := by simpa [referredSlot, referredNode] using href
    have hmade : made cfg ≠ [] := List.ne_nil_of_length_pos (Nat.zero_lt_of_lt hi)
    have hat : (cfg.accountPanels.length + i) % 2 ^ 64 < (cfg.accountPanels ++ made cfg).length := by
      rw [List.length_append]
      exact (Nat.mod_le _ _).trans_lt (Nat.add_lt_add_left hi _)
    rw [shownSlot, slotInV2, if_neg hmade, slotAfterBlotters, leafOfSlot, h.accountPanels,
      getElem?_numbered, List.getElem?_eq_getElem hat]
    rfl

/-! ### The layout as a whole -/

/-- Two partial maps, one of which is defined where the other is, give the same list exactly when
    they agree on every entry. -/
theorem filterMap_eq_iff {α β : Type} {f g : α → Option β} {l : List α}
    (h : ∀ a ∈ l, (g a).isSome → (f a).isSome) :
    l.filterMap f = l.filterMap g ↔ ∀ a ∈ l, f a = g a := by
  refine ⟨?_, List.filterMap_congr⟩
  intro heq
  induction l with
  | nil => simp
  | cons a l ih =>
    have ih := ih fun b hb => h b (List.mem_cons_of_mem a hb)
    have hlen : (l.filterMap g).length ≤ (l.filterMap f).length := by
      rw [List.length_filterMap_eq_countP, List.length_filterMap_eq_countP]
      exact List.countP_mono_left fun b hb => h b (List.mem_cons_of_mem a hb)
    rw [List.filterMap_cons, List.filterMap_cons] at heq
    have ha := h a List.mem_cons_self
    rcases hg : g a with - | y <;> rcases hf : f a with - | x
    · rw [hf, hg] at heq
      exact List.forall_mem_cons.mpr ⟨hf.trans hg.symm, ih heq⟩
    · rw [hf, hg] at heq
      have := congrArg List.length heq
      simp at this
      omega
    · simp [hf, hg] at ha
    · rw [hf, hg] at heq
      obtain ⟨rfl, hrest⟩ := List.cons.inj heq
      exact List.forall_mem_cons.mpr ⟨hf.trans hg.symm, ih hrest⟩

theorem leafOfSlot_spec {m : AppConfig} {slot : PanelSlot} {node : LayoutNode}
    (h : leafOfSlot m slot = some node) : node.isSplit = false ∧ keepsNode m node = true := by
  cases slot with
  | orderBlotter | unknown => cases h
  | chart | watchlist | orderPanel | account =>
    obtain ⟨panel, hpanel, rfl⟩ := Option.map_eq_some_iff.mp h
    refine ⟨rfl, List.any_eq_true.mpr ⟨panel, List.mem_of_getElem? hpanel, ?_⟩⟩
    exact decide_eq_true rfl

/-- The main layout that the app starts with. -/
theorem mainLayout_loaded {cfg : AppConfig} (h : Legacy cfg) :
    mainLayout (loaded cfg) =
      if cfg.legacyLayoutTree = [] then
        Preorder.chain joint
          (cfg.legacyPanelOrder.filterMap fun slot => leafOfSlot (migrated cfg) (slotInV2 cfg slot))
      else (cfg.legacyLayoutTree.map (nodeInV2 cfg)).filter (keepsNode (migrated cfg)) := by
  have hne : (migrated cfg).windows.entries ≠ [] := by
    rw [migrated_eq h]
    simp [migrateV2ToV3, SortedMap.insert]
  rw [loaded, mainLayout_validate hne, mainLayout_migrated h]
  split
  · refine List.filter_eq_self.mpr fun node hnode => ?_
    rcases Preorder.mem_chain hnode with rfl | hnode
    · rfl
    · obtain ⟨slot, -, hslot⟩ := List.mem_filterMap.mp hnode
      exact (leafOfSlot_spec hslot).2
  · rfl

theorem map_filter_filter {α β : Type} (l : List α) (p q : α → Bool) (f : α → β) :
    ((l.filter p).filter q).map f = l.filterMap fun a => if p a && q a then some (f a) else none := by
  rw [List.filter_filter, ← List.filterMap_eq_map, List.filterMap_filter]
  refine List.filterMap_congr fun a _ => ?_
  rw [Bool.and_comm]
  rfl

/-- What the leaves of the main layout show, read off the old layout. -/
theorem shown_loaded {cfg : AppConfig} (h : Legacy cfg) :
    shown (loaded cfg) =
      if cfg.legacyLayoutTree = [] then
        cfg.legacyPanelOrder.filterMap (shownSlot cfg (migrated cfg))
      else cfg.legacyLayoutTree.filterMap fun node => shownNode (migrated cfg) (nodeInV2 cfg node) := by
  have hpanel : panelAt (loaded cfg) = panelAt (migrated cfg) := by
    funext node
    cases node <;> rfl
  rw [shown, hpanel, mainLayout_loaded h]
  split
  · rw [Preorder.leaves_chain rfl, List.map_filterMap]
    · rfl
    · intro node hnode
      obtain ⟨slot, -, hslot⟩ := List.mem_filterMap.mp hnode
      exact (leafOfSlot_spec hslot).1
  · rw [map_filter_filter, List.filterMap_map]
    rfl

/-- The leaves show what the old layout refers to exactly when every reference is sound. -/
theorem shown_loaded_iff {cfg : AppConfig} (h : Legacy cfg) :
    shown (loaded cfg) = (referred cfg).map some ↔
      (cfg.legacyLayoutTree = [] → ∀ slot ∈ cfg.legacyPanelOrder, SlotIsSound cfg slot) ∧
        ∀ node ∈ cfg.legacyLayoutTree, NodeIsSound cfg node := by
  have hpools := pools_migrated h
  rw [shown_loaded h, referred]
  by_cases htree : cfg.legacyLayoutTree = []
  · rw [if_pos htree, if_pos htree, List.map_filterMap, filterMap_eq_iff fun slot _ href => ?_]
    · simp [htree, shownSlot_iff hpools]
    · exact isSome_shownSlot hpools slot (by simpa using href)
  · rw [if_neg htree, if_neg htree, List.map_filterMap, filterMap_eq_iff fun node _ href => ?_]
    · simp [htree, shownNode_iff hpools]
    · exact isSome_shownNode hpools node (by simpa using href)

/-- The layout stays a tree exactly when no leaf is dropped from under a split. -/
theorem wellFormed_loaded_iff {cfg : AppConfig} (h : Legacy cfg)
    (hsound : ∀ node ∈ cfg.legacyLayoutTree, NodeIsSound cfg node) :
    (WellFormed cfg.legacyLayoutTree → WellFormed (mainLayout (loaded cfg))) ↔
      NoneDangles cfg cfg.legacyLayoutTree := by
  rw [mainLayout_loaded h]
  split
  · rename_i htree
    refine iff_of_true (fun _ => Preorder.isTree_chain rfl fun node hnode => ?_)
      (by simp [NoneDangles, htree])
    obtain ⟨slot, -, hslot⟩ := List.mem_filterMap.mp hnode
    exact (leafOfSlot_spec hslot).1
  rename_i htree
  refine imp_congr_right fun hwell => ?_
  have hold : Preorder.IsTree LayoutNode.isSplit cfg.legacyLayoutTree := hwell.resolve_left htree
  have hkept (node : LayoutNode) (hnode : node ∈ cfg.legacyLayoutTree) (hleaf : node.isSplit = false) :
      keepsNode (migrated cfg) (nodeInV2 cfg node) = (referredNode cfg node).isSome := by
    have hshown := (shownNode_iff (pools_migrated h) node).mpr (hsound node hnode)
    rw [shownNode, isSplit_nodeInV2, hleaf] at hshown
    cases href : referredNode cfg node with
    | none => simpa [href] using hshown
    | some panel =>
      have hboth : keepsNode (migrated cfg) (nodeInV2 cfg node) = true ∧
          panelAt (migrated cfg) (nodeInV2 cfg node) = some panel := by simpa [href] using hshown
      exact hboth.1
  have hsplit (node : LayoutNode) (hnode : node.isSplit = true) : keepsNode (migrated cfg) node =
      true := by
    cases node <;> first | rfl | cases hnode
  rw [WellFormed, (hold.map (isSplit_nodeInV2 cfg)).filter_iff hsplit, List.forall_mem_map,
    List.forall_mem_map]
  simp only [isSplit_nodeInV2]
  constructor
  · rintro (hleaves | hall) ⟨node, hnode, his⟩ leaf hmem hleaf
    · rw [hleaves node hnode] at his
      cases his
    · rw [← hkept leaf hmem hleaf]
      exact hall leaf hmem
  · intro hall
    by_cases hany : ∃ node ∈ cfg.legacyLayoutTree, node.isSplit
    · refine .inr fun node hnode => ?_
      cases his : node.isSplit with
      | true => exact hsplit _ ((isSplit_nodeInV2 cfg node).trans his)
      | false => exact (hkept node hnode his).trans (hall hany node hnode his)
    · refine .inl fun node hnode => ?_
      exact Bool.eq_false_iff.mpr fun his => hany ⟨node, hnode, his⟩

/-- The migrations and the validation after them keep the workspace exactly when its layout is
    sound. -/
theorem kept_iff {cfg : AppConfig} (h : Legacy cfg) : Kept cfg ↔ LayoutIsSound cfg := by
  constructor
  · intro hkept
    obtain ⟨hslots, hnodes⟩ := (shown_loaded_iff h).mp hkept.leaves
    exact ⟨hslots, hnodes, (wellFormed_loaded_iff h hnodes).mp hkept.tree⟩
  · rintro ⟨hslots, hnodes, hdangles⟩
    have hpools := pools_migrated h
    refine ⟨?_, ?_, ?_, ?_, countP_main_validate _, ?_, ?_, validate_validate _⟩
    · exact hpools.charts ▸ nodup_ids_numbered cfg.charts
    · exact hpools.watchlists ▸ nodup_ids_numbered cfg.watchlists
    · exact hpools.orderPanels ▸ nodup_ids_numbered cfg.orderPanels
    · exact hpools.accountPanels ▸ nodup_ids_numbered (cfg.accountPanels ++ made cfg)
    · exact (shown_loaded_iff h).mpr ⟨hslots, hnodes⟩
    · exact (wellFormed_loaded_iff h hnodes).mpr hdangles

/-- A configuration of version 1 with one chart, one account panel and one blotter. -/
def oneOfEach (tree : List LayoutNode) : AppConfig where
  version := 1
  windows := SortedMap.empty
  charts := [⟨0, "AAPL", "D1"⟩]
  watchlists := []
  orderPanels := []
  orderBlotters := [⟨"Orders", [], .unlinked, []⟩]
  accountPanels := [⟨0, "Main", .positions, ⟨[], .unlinked, []⟩⟩]
  legacyWindow := none
  legacyPanelOrder := []
  legacyLayoutTree := tree

theorem legacy_oneOfEach (tree : List LayoutNode) : Legacy (oneOfEach tree) := by
  constructor <;> simp [oneOfEach]

/-- A tree that refers to panels there are, the blotter among them, is kept. -/
theorem kept_chart_and_blotter : Kept (oneOfEach [joint, .chart 0, .orderBlotter 0]) := by
  refine (kept_iff (legacy_oneOfEach _)).mpr ⟨by simp [oneOfEach], ?_, fun _ _ => ?_⟩
  · simp [oneOfEach, NodeIsSound, made, BlotterIsSound]
  · simp [oneOfEach, LayoutNode.isSplit, referredNode, made]

/-- A chart that is gone takes its leaf along, and leaves a split with one half. -/
theorem dangling_leaf_breaks_tree :
    Legacy (oneOfEach [joint, .chart 5, .chart 0]) ∧
      WellFormed (oneOfEach [joint, .chart 5, .chart 0]).legacyLayoutTree ∧
        mainLayout (loaded (oneOfEach [joint, .chart 5, .chart 0])) = [joint, .chart 0] ∧
          ¬Kept (oneOfEach [joint, .chart 5, .chart 0]) := by
  have hold : WellFormed (oneOfEach [joint, .chart 5, .chart 0]).legacyLayoutTree :=
    .inr (.inner joint [.chart 5] [.chart 0] rfl (.leaf _ rfl) (.leaf _ rfl))
  have hnew : mainLayout (loaded (oneOfEach [joint, .chart 5, .chart 0])) = [joint, .chart 0] := by
    decide +kernel
  refine ⟨legacy_oneOfEach _, hold, hnew, fun hkept => ?_⟩
  rcases hnew ▸ hkept.tree hold with hnil | htree
  · cases hnil
  · exact absurd htree.countP_leaf (by decide)

end Midas.Config
