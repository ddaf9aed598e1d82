import HandOfMidas.Config.Types
import Mathlib.Data.List.Basic

/-! What `validate` leaves: one main window, no leaf without a panel, and nothing for a second run to
    change. And what the migrations make of a configuration of version 1 or 2: the ids of its panels are
    their places, and its layout is the old tree, or the old order as a chain, with every blotter moved
    to the account panels. -/

namespace Midas.Config

theorem countP_demoteRest {ws : List WindowConfig} (h : 0 < ws.countP (·.isMain)) :
    (demoteRest ws).countP (·.isMain) = 1 := by
  induction ws with
  | nil => simp at h
  | cons w ws ih =>
    unfold demoteRest
    by_cases hw : w.isMain = true
    · have hrest : (ws.map fun w => { w with isMain := false }).countP (·.isMain) = 0 := by
        simp [List.countP_eq_zero]
      rw [if_pos hw, List.countP_cons_of_pos (by simpa using hw), hrest]
    · rw [if_neg hw, List.countP_cons_of_neg (by simpa using hw)]
      rw [List.countP_cons_of_neg (by simpa using hw)] at h
      exact ih h

theorem countP_oneMain {ws : List WindowConfig} (h : ws ≠ []) :
    (oneMain ws).countP (·.isMain) = 1 := by
  unfold oneMain
  split
  · rename_i hzero
    cases ws with
    | nil => exact absurd rfl h
    | cons w ws =>
      have hrest : ws.countP (·.isMain) = 0 := by
        rw [List.countP_cons] at hzero
        exact (Nat.add_eq_zero_iff.mp hzero).1
      rw [List.countP_cons_of_pos (by simp), hrest]
  · assumption
  · rename_i hzero hone
    exact countP_demoteRest (Nat.pos_of_ne_zero hzero)

theorem oneMain_of_one {ws : List WindowConfig} (h : ws.countP (·.isMain) = 1) : oneMain ws = ws := by
  simp only [oneMain, h]

theorem map_layoutTree_demoteRest (ws : List WindowConfig) :
    (demoteRest ws).map (·.layoutTree) = ws.map (·.layoutTree) := by
  induction ws with
  | nil => rfl
  | cons w ws ih =>
    unfold demoteRest
    split
    · simp
    · simp [ih]

/-- Who is main says nothing of the layouts. -/
theorem map_layoutTree_oneMain (ws : List WindowConfig) :
    (oneMain ws).map (·.layoutTree) = ws.map (·.layoutTree) := by
  unfold oneMain
  split
  · cases ws <;> rfl
  · rfl
  · exact map_layoutTree_demoteRest ws

/-- The layout of the main window, which goes by its name. -/
def mainLayout (cfg : AppConfig) : List LayoutNode :=
  ((cfg.windows.get? mainDefault).map (·.layoutTree)).getD []

/-- The windows that `validate` begins with, of which there is one at least. -/
def someWindow (cfg : AppConfig) : SortedMap String WindowConfig :=
  if cfg.windows.entries.isEmpty then
    cfg.windows.insert mainDefault ⟨true, defaultWindowGeometry, []⟩
  else cfg.windows

theorem values_someWindow_ne_nil (cfg : AppConfig) : (someWindow cfg).values ≠ [] := by
  unfold someWindow
  split
  · simp [SortedMap.values, SortedMap.insert]
  · rename_i h
    simpa [SortedMap.values] using h

/-- The windows after validation. -/
theorem values_validate (cfg : AppConfig) :
    (validate cfg).windows.values = (oneMain (someWindow cfg).values).map (prune cfg) := by
  simp only [validate, SortedMap.values_withValues, someWindow]

/-- After validation exactly one window is main. -/
theorem countP_main_validate (cfg : AppConfig) :
    (validate cfg).windows.values.countP (·.isMain) = 1 := by
  rw [values_validate, List.countP_map]
  exact countP_oneMain (values_someWindow_ne_nil cfg)

/-- The main layout after validation is the one before, without the leaves that have no panel. -/
theorem mainLayout_validate {cfg : AppConfig} (h : cfg.windows.entries ≠ []) :
    mainLayout (validate cfg) = (mainLayout cfg).filter (keepsNode cfg) := by
  have hsome : someWindow cfg = cfg.windows := by simp [someWindow, h]
  have hprune (ws : List WindowConfig) : (ws.map (prune cfg)).map (·.layoutTree) =
      ws.map fun w => w.layoutTree.filter (keepsNode cfg) := by
    simp [prune]
  have hmain (ws : List WindowConfig) :
      (oneMain ws).map (fun w => w.layoutTree.filter (keepsNode cfg)) =
        ws.map fun w => w.layoutTree.filter (keepsNode cfg) := by
    have hlayouts := congrArg (List.map (List.filter (keepsNode cfg))) (map_layoutTree_oneMain ws)
    simpa only [List.map_map, Function.comp_def] using hlayouts
  have hwin : (validate cfg).windows = ((someWindow cfg).withValues oneMain length_oneMain).withValues
      (·.map (prune cfg)) fun _ => List.length_map _ := rfl
  rw [mainLayout, hwin, hsome, SortedMap.map_get?_withValues _ _ (hprune _),
    SortedMap.map_get?_withValues _ _ (hmain _), mainLayout]
  cases cfg.windows.get? mainDefault <;> rfl

theorem prune_prune (cfg : AppConfig) (w : WindowConfig) : prune cfg (prune cfg w) = prune cfg w := by
  simp [prune, List.filter_filter]

/-- A second validation changes nothing. -/
theorem validate_validate (cfg : AppConfig) : validate (validate cfg) = validate cfg := by
  have hone := countP_main_validate cfg
  have hmain : oneMain (validate cfg).windows.values = (validate cfg).windows.values :=
    oneMain_of_one hone
  have hne : (validate cfg).windows.entries ≠ [] := by
    intro h
    rw [SortedMap.values, h] at hone
    cases hone
  have hsome : someWindow (validate cfg) = (validate cfg).windows := by simp [someWindow, hne]
  have hprune : (validate cfg).windows.values.map (prune (validate cfg)) =
      (validate cfg).windows.values := by
    rw [values_validate, List.map_map]
    exact List.map_congr_left fun w _ => prune_prune cfg w
  have hwin : (validate (validate cfg)).windows =
      ((someWindow (validate cfg)).withValues oneMain length_oneMain).withValues
        (·.map (prune (validate cfg))) fun _ => List.length_map _ := rfl
  rw [hsome, SortedMap.withValues_of_eq _ _ hmain, SortedMap.withValues_of_eq _ _ hprune] at hwin
  calc validate (validate cfg)
      = { validate cfg with windows := (validate (validate cfg)).windows } := rfl
    _ = validate cfg := by rw [hwin]

/-! ### Migrated configurations -/

/-- A configuration of version 1 or 2, as it is read: its panels have no ids. -/
structure Legacy (cfg : AppConfig) : Prop where
  version : cfg.version = 1 ∨ cfg.version = 2
  charts : ∀ c ∈ cfg.charts, c.id = 0
  watchlists : ∀ w ∈ cfg.watchlists, w.id = 0
  orderPanels : ∀ o ∈ cfg.orderPanels, o.id = 0
  accountPanels : ∀ a ∈ cfg.accountPanels, a.id = 0

/-! ### Ids -/

section
variable {α : Type} [Panel α]

/-- The panels with their places as ids, the first place being `next`. -/
def numberedFrom (next : ℕ) : List α → List α
  | [] => []
  | a :: pool => Panel.withId a next :: numberedFrom (next + 1) pool

/-- The panels with their places as ids. -/
def numbered (pool : List α) : List α := numberedFrom 0 pool

theorem stampIds_eq {pool : List α} (h : ∀ a ∈ pool, Panel.id a = 0) (next : ℕ) :
    stampIds next pool = numberedFrom next pool := by
  induction pool generalizing next with
  | nil => rfl
  | cons a pool ih =>
    have ha := h a List.mem_cons_self
    have ih := ih (fun b hb => h b (List.mem_cons_of_mem a hb)) (next + 1)
    simp only [stampIds, numberedFrom, if_pos ha, Panel.id_withId, max_self, ih]

theorem map_id_numberedFrom (next : ℕ) (pool : List α) :
    (numberedFrom next pool).map Panel.id = List.range' next pool.length := by
  induction pool generalizing next with
  | nil => rfl
  | cons a pool ih => simp [numberedFrom, Panel.id_withId, ih, List.range'_succ]

/-- Places are distinct. -/
theorem nodup_ids_numbered (pool : List α) : ((numbered pool).map Panel.id).Nodup := by
  rw [numbered, map_id_numberedFrom]
  exact List.nodup_range'

theorem getElem?_numberedFrom (next i : ℕ) (pool : List α) :
    (numberedFrom next pool)[i]? = (pool[i]?).map (Panel.withId · (next + i)) := by
  induction pool generalizing next i with
  | nil => rfl
  | cons a pool ih =>
    cases i with
    | zero => rfl
    | succ i => simp [numberedFrom, ih, Nat.add_assoc, Nat.add_comm 1 i]

theorem find?_numberedFrom (next i : ℕ) (pool : List α) :
    (numberedFrom next pool).find? (Panel.id · = next + i) =
      (pool[i]?).map (Panel.withId · (next + i)) := by
  induction pool generalizing next i with
  | nil => rfl
  | cons a pool ih =>
    cases i with
    | zero => simp [numberedFrom, Panel.id_withId]
    | succ i =>
      have hne : decide (Panel.id (Panel.withId a next) = next + (i + 1)) = false := by
        rw [Panel.id_withId]
        simp
      have hnext : next + (i + 1) = next + 1 + i := by omega
      rw [numberedFrom, List.find?_cons, hne, List.getElem?_cons_succ, hnext]
      exact ih (next + 1) i

theorem getElem?_numbered (i : ℕ) (pool : List α) :
    (numbered pool)[i]? = (pool[i]?).map (Panel.withId · i) := by
  simpa [numbered] using getElem?_numberedFrom 0 i pool

/-- The panel with an id is the one at that place. -/
theorem find?_numbered (i : ℕ) (pool : List α) :
    (numbered pool).find? (Panel.id · = i) = (pool[i]?).map (Panel.withId · i) := by
  simpa [numbered] using find?_numberedFrom 0 i pool

end

/-! ### Blotters -/

/-- The account panels made from the blotters. -/
def made (cfg : AppConfig) : List AccountPanelConfig :=
  if cfg.version = 1 then cfg.orderBlotters.map accountOf else []

theorem accountOf_id {cfg : AppConfig} {a : AccountPanelConfig} (ha : a ∈ made cfg) : a.id = 0 := by
  unfold made at ha
  split at ha
  · obtain ⟨b, -, rfl⟩ := List.mem_map.mp ha
    rfl
  · cases ha

/-- A layout node after the migration of the blotters. -/
def nodeInV2 (cfg : AppConfig) (node : LayoutNode) : LayoutNode :=
  if made cfg = [] then node else nodeAfterBlotters cfg.accountPanels.length node

/-- A slot after the migration of the blotters. -/
def slotInV2 (cfg : AppConfig) (slot : PanelSlot) : PanelSlot :=
  if made cfg = [] then slot else slotAfterBlotters cfg.accountPanels.length slot

theorem isSplit_nodeInV2 (cfg : AppConfig) (node : LayoutNode) :
    (nodeInV2 cfg node).isSplit = node.isSplit := by
  unfold nodeInV2
  split
  · rfl
  · cases node <;> rfl

/-- The configuration at version 2. -/
def inV2 (cfg : AppConfig) : AppConfig :=
  { cfg with
    version := 2
    orderBlotters := if made cfg = [] then cfg.orderBlotters else []
    accountPanels := cfg.accountPanels ++ made cfg
    legacyPanelOrder := cfg.legacyPanelOrder.map (slotInV2 cfg)
    legacyLayoutTree := cfg.legacyLayoutTree.map (nodeInV2 cfg) }

theorem inV2_of_made_nil {cfg : AppConfig} (h : made cfg = []) :
    inV2 cfg = { cfg with version := 2 } := by
  have hnode : nodeInV2 cfg = id := funext fun _ => if_pos h
  have hslot : slotInV2 cfg = id := funext fun _ => if_pos h
  simp only [inV2, hnode, hslot, List.map_id, h, List.append_nil, if_true]

theorem migrateV1ToV2_eq {cfg : AppConfig} (h : cfg.version = 1) : migrateV1ToV2 cfg = inV2 cfg := by
  have hmade : made cfg = cfg.orderBlotters.map accountOf := if_pos h
  unfold migrateV1ToV2 migrateOrderBlottersToAccountPanels
  by_cases hnil : cfg.orderBlotters = []
  · rw [inV2_of_made_nil (by simp [hmade, hnil])]
    simp [hnil]
  · have hne : made cfg ≠ [] := by simpa [hmade] using hnil
    have hnode : nodeInV2 cfg = nodeAfterBlotters cfg.accountPanels.length := funext fun _ => if_neg hne
    have hslot : slotInV2 cfg = slotAfterBlotters cfg.accountPanels.length := funext fun _ => if_neg hne
    simp [inV2, hnil, hnode, hslot, hmade]

theorem inV2_of_two {cfg : AppConfig} (h : cfg.version = 2) : inV2 cfg = cfg := by
  have hmade : made cfg = [] := if_neg (by simp [h])
  rw [inV2_of_made_nil hmade, ← h]

theorem migrateRounds_of_current {cfg : AppConfig} (h : cfg.version = 3) (rounds : ℕ) :
    migrateRounds rounds cfg = (cfg, []) := by
  cases rounds with
  | zero => rfl
  | succ rounds =>
    have hle : currentConfigVersion ≤ cfg.version := h.ge
    rw [migrateRounds, if_pos hle]

theorem migrateRounds_of_two {cfg : AppConfig} (h : cfg.version = 2) (rounds : ℕ) :
    (migrateRounds (rounds + 1) cfg).1 = migrateV2ToV3 cfg := by
  have hlt : ¬currentConfigVersion ≤ cfg.version := by simp [h, currentConfigVersion]
  rw [migrateRounds, if_neg hlt]
  simp only [h]
  exact congrArg Prod.fst (migrateRounds_of_current rfl rounds)

theorem migrateRounds_of_one {cfg : AppConfig} (h : cfg.version = 1) (rounds : ℕ) :
    (migrateRounds (rounds + 1) cfg).1 = (migrateRounds rounds (migrateV1ToV2 cfg)).1 := by
  have hlt : ¬currentConfigVersion ≤ cfg.version := by simp [h, currentConfigVersion]
  rw [migrateRounds, if_neg hlt]
  simp only [h]

/-- The configuration after all migrations. -/
def migrated (cfg : AppConfig) : AppConfig := (migrateToCurrent cfg).1

theorem migrated_eq {cfg : AppConfig} (h : Legacy cfg) : migrated cfg = migrateV2ToV3 (inV2 cfg) := by
  rcases h.version with hv | hv
  · rw [migrated, migrateToCurrent, currentConfigVersion, migrateRounds_of_one hv,
      migrateV1ToV2_eq hv, migrateRounds_of_two rfl]
  · rw [migrated, migrateToCurrent, currentConfigVersion, migrateRounds_of_two hv, inV2_of_two hv]

/-! ### Pools and layout -/

/-- The pools after the migrations. -/
structure Pools (cfg m : AppConfig) : Prop where
  charts : m.charts = numbered cfg.charts
  watchlists : m.watchlists = numbered cfg.watchlists
  orderPanels : m.orderPanels = numbered cfg.orderPanels
  accountPanels : m.accountPanels = numbered (cfg.accountPanels ++ made cfg)

theorem pools_migrated {cfg : AppConfig} (h : Legacy cfg) : Pools cfg (migrated cfg) := by
  have haccounts (a : AccountPanelConfig) (ha : a ∈ cfg.accountPanels ++ made cfg) : a.id = 0 :=
    (List.mem_append.mp ha).elim (h.accountPanels a) accountOf_id
  rw [migrated_eq h]
  exact ⟨stampIds_eq h.charts 0, stampIds_eq h.watchlists 0, stampIds_eq h.orderPanels 0,
    stampIds_eq haccounts 0⟩

/-- A place in a numbered pool is an id already. -/
theorem elim_numbered {α : Type} [Panel α] (pool : List α) (i : ℕ) :
    ((numbered pool)[i]?).elim i Panel.id = i := by
  rw [getElem?_numbered]
  cases pool[i]? with
  | none => rfl
  | some a => exact Panel.id_withId a i

/-- The leaves keep their places. -/
theorem nodeById_eq {cfg m : AppConfig} (h : Pools cfg m) (node : LayoutNode) :
    nodeById m node = node := by
  cases node <;> simp only [nodeById, h.charts, h.watchlists, h.orderPanels, h.accountPanels,
    elim_numbered]

/-- The node that joins the panels of an order. -/
abbrev joint : LayoutNode := .split "vertical" (1 / 2)

/-- The main layout before validation. -/
theorem mainLayout_migrated {cfg : AppConfig} (h : Legacy cfg) :
    mainLayout (migrated cfg) =
      if cfg.legacyLayoutTree = [] then
        Preorder.chain joint
          (cfg.legacyPanelOrder.filterMap fun slot => leafOfSlot (migrated cfg) (slotInV2 cfg slot))
      else cfg.legacyLayoutTree.map (nodeInV2 cfg) := by
  have hpools := pools_migrated h
  have hnode : nodeById (migrated cfg) = id := funext (nodeById_eq hpools)
  rw [migrated_eq h] at hnode ⊢
  have hmain : mainLayout (migrateV2ToV3 (inV2 cfg)) =
      if ((inV2 cfg).legacyLayoutTree.map (nodeById (migrateV2ToV3 (inV2 cfg)))).isEmpty &&
          !(inV2 cfg).legacyPanelOrder.isEmpty then
        Preorder.chain joint
          ((inV2 cfg).legacyPanelOrder.filterMap (leafOfSlot (migrateV2ToV3 (inV2 cfg))))
      else (inV2 cfg).legacyLayoutTree.map (nodeById (migrateV2ToV3 (inV2 cfg))) := by
    rw [mainLayout, migrateV2ToV3, SortedMap.get?_insert]
    rfl
  rw [hmain, hnode, List.map_id]
  simp only [inV2, List.filterMap_map, Function.comp_def]
  by_cases htree : cfg.legacyLayoutTree = []
  · rw [if_pos htree, htree]
    cases cfg.legacyPanelOrder with
    | nil => rfl
    | cons slot slots => rfl
  · simp [htree]

end Midas.Config
