import HandOfMidas.Scene.Annotations
import HandOfMidas.Lib.Search
import Mathlib.Data.Int.Sqrt
import Mathlib.Data.Prod.Lex
import Mathlib.Algebra.Group.Int.Defs

/-! The decorator layer: badges, lines and buttons that hang off the annotations of a chart in groups
    (`decorator/`). It paints its items band by band and hands a click to one of its buttons. -/

namespace Midas.Scene

open Topmost

/-- Pixels with what a distance needs. -/
class Metric (P : Type) extends F32 P, Mul P where
  sqrt : P → P
  smaller : P → P → P
  larger : P → P → P
  infinity : P

open F32 Scene.Metric

variable {P F V : Type} [Metric P]

abbrev AnnotationId := UInt64

abbrev GroupId := UInt64

/-- `[u8; 4]`: red, green, blue and alpha. -/
abbrev Rgba := UInt8 × UInt8 × UInt8 × UInt8

structure Rect (P : Type) where
  x0 : P
  y0 : P
  x1 : P
  y1 : P

namespace Rect

def new (x0 y0 x1 y1 : P) : Rect P :=
  ⟨smaller x0 x1, smaller y0 y1, larger x0 x1, larger y0 y1⟩

variable (r : Rect P)

def width : P := r.x1 - r.x0

def height : P := r.y1 - r.y0

def contains (x y : P) : Bool := r.x0 ≤ x ∧ x ≤ r.x1 ∧ r.y0 ≤ y ∧ y ≤ r.y1

def distanceTo (x y : P) : P :=
  let dx := if x < r.x0 then r.x0 - x else if r.x1 < x then x - r.x1 else lit 0
  let dy := if y < r.y0 then r.y0 - y else if r.y1 < y then y - r.y1 else lit 0
  sqrt (dx * dx + dy * dy)

end Rect

inductive Visibility
  | always
  | onHover (parent : Option AnnotationId)

/-- What clicking a button emits. -/
inductive ButtonAction (P F : Type)
  | openContextMenu (items : List ContextMenuItem)
  | menu (action : ContextMenuAction)
  | effect (e : ToolEffect P F)

structure LineInstance (P : Type) where
  x0 : P
  y0 : P
  x1 : P
  y1 : P
  widthPx : P
  color : Rgba

structure BadgeInstance (P : Type) where
  x : P
  y : P
  w : P
  h : P
  color : Rgba
  text : String

inductive DecoratorItem (P F : Type)
  | line (l : LineInstance P)
  | badge (b : BadgeInstance P)
  | button (bounds : Rect P) (color : Rgba) (label : String) (action : ButtonAction P F)
  | spacer (w h : P)

namespace DecoratorItem

def bounds : DecoratorItem P F → Rect P
  | line l => .new l.x0 l.y0 l.x1 l.y1
  | badge b => .new b.x b.y (b.x + b.w) (b.y + b.h)
  | button bounds _ _ _ => bounds
  | spacer _ _ => .new (lit 0) (lit 0) (lit 0) (lit 0)

def isDrawable : DecoratorItem P F → Bool
  | spacer _ _ => false
  | _ => true

/-- The item is a button with the point on it. -/
def isButtonAt (item : DecoratorItem P F) (pt : Point P) : Bool :=
  match item with
  | button bounds _ _ _ => bounds.contains pt.x pt.y
  | _ => false

end DecoratorItem

structure DecoratorGroup (P F : Type) where
  id : GroupId
  annotationId : AnnotationId
  parentBounds : Rect P
  visibility : Visibility
  items : List (DecoratorItem P F)

structure HoverState (P : Type) where
  hoveredAnnotation : Option AnnotationId
  draggedAnnotation : Option AnnotationId
  expandedGroups : List GroupId
  cursorPx : Option (Point P)

namespace HoverState

variable (hover : HoverState P)

def isGroupExpanded (group : GroupId) : Bool := hover.expandedGroups.contains group

def isAnnotationHovered (annotationId : AnnotationId) : Bool :=
  hover.hoveredAnnotation == some annotationId

def isAnnotationDragged (annotationId : AnnotationId) : Bool :=
  hover.draggedAnnotation == some annotationId

end HoverState

/-! ### Layout -/

/-- `PROXIMITY_THRESHOLD_PX`. -/
def proximityThresholdPx : P := lit 32

inductive SubZ
  | background | proximity | hovered | dragged
deriving DecidableEq

def SubZ.ordinal : SubZ → ℕ
  | background => 0
  | proximity => 1
  | hovered => 2
  | dragged => 3

structure PromotedItem where
  index : ℕ
  subZ : SubZ

def visibilityFor (group : DecoratorGroup P F) (hover : HoverState P) : Bool :=
  match group.visibility with
  | .always => true
  | .onHover parent =>
    let owner := parent.getD group.annotationId
    hover.isAnnotationHovered owner || hover.isGroupExpanded group.id ||
      hover.cursorPx.any fun cursor => group.parentBounds.contains cursor.x cursor.y

/-- The band of one item, as `promote_by_proximity` has it. -/
def subZFor (item : DecoratorItem P F) (cursor : Option (Point P)) (parentBounds : Rect P)
    (thresholdPx : P) (dragged : Bool) : SubZ :=
  if dragged then .dragged
  else
    match cursor with
    | none => .background
    | some pt =>
      if item.isDrawable && item.bounds.contains pt.x pt.y then .hovered
      else
        let parentDist := parentBounds.distanceTo pt.x pt.y
        let itemDist := if item.isDrawable then item.bounds.distanceTo pt.x pt.y else infinity
        let nearest := smaller parentDist itemDist
        if nearest ≤ thresholdPx then .proximity else .background

def promoteByProximity (items : List (DecoratorItem P F)) (cursor : Option (Point P))
    (parentBounds : Rect P) (thresholdPx : P) (dragged : Bool) : List PromotedItem :=
  items.zipIdx.map fun (item, index) => ⟨index, subZFor item cursor parentBounds thresholdPx dragged⟩

/-- Half of the alpha, a half rounded up. -/
def applyDragGhostAlpha (color : Rgba) : Rgba :=
  (color.1, color.2.1, color.2.2.1, UInt8.ofNat ((color.2.2.2.toNat + 1) / 2))

inductive DecoratorEmission (P : Type)
  | line (l : LineInstance P)
  | badge (b : BadgeInstance P)

def DecoratorEmission.fromItem (item : DecoratorItem P F) (ghost : Bool) :
    Option (DecoratorEmission P) :=
  let blend := fun color => if ghost then applyDragGhostAlpha color else color
  match item with
  | .line l => some (.line { l with color := blend l.color })
  | .badge b => some (.badge { b with color := blend b.color })
  | .button bounds color label _ =>
    some (.badge ⟨bounds.x0, bounds.y0, bounds.width, bounds.height, blend color, label⟩)
  | .spacer _ _ => none

def emissionsForGroup (group : DecoratorGroup P F) (hover : HoverState P) :
    List (SubZ × ℕ × DecoratorEmission P) :=
  if visibilityFor group hover = false then []
  else
    let dragged := hover.isAnnotationDragged group.annotationId
    let promoted := promoteByProximity group.items hover.cursorPx group.parentBounds
      proximityThresholdPx dragged
    promoted.filterMap fun p => do
      let item ← group.items[p.index]?
      let e ← DecoratorEmission.fromItem item dragged
      return (p.subZ, p.index, e)

theorem mem_emissionsForGroup {group : DecoratorGroup P F} {hover : HoverState P} {subZ : SubZ}
    {i : ℕ} {e : DecoratorEmission P} :
    (subZ, i, e) ∈ emissionsForGroup group hover ↔ visibilityFor group hover = true ∧
      ∃ item, group.items[i]? = some item ∧
        DecoratorEmission.fromItem item (hover.isAnnotationDragged group.annotationId) = some e ∧
        subZ = subZFor item hover.cursorPx group.parentBounds proximityThresholdPx
          (hover.isAnnotationDragged group.annotationId) := by
  unfold emissionsForGroup
  by_cases hvisible : visibilityFor group hover = true
  · rw [if_neg (by simp [hvisible])]
    simp only [promoteByProximity, List.mem_filterMap, List.mem_map, Prod.exists,
      List.mem_zipIdx_iff_getElem?]
    constructor
    · rintro ⟨_, ⟨item, j, hj, rfl⟩, hp⟩
      simp only [hj, Option.bind_eq_bind, Option.bind_some, Option.bind_eq_some_iff] at hp
      obtain ⟨e', he, heq⟩ := hp
      cases heq
      exact ⟨hvisible, item, hj, he, rfl⟩
    · rintro ⟨-, item, hi, he, rfl⟩
      exact ⟨_, ⟨item, i, hi, rfl⟩, by simp [hi, he]⟩
  · simp [hvisible]

/-! ### The layer -/

structure DecoratorLayer (P F : Type) where
  groups : List (DecoratorGroup P F)
  hover : HoverState P

/-- What the layer adds to of `ScenePrimitives`. -/
structure ScenePrimitives (P : Type) where
  lines : List (LineInstance P)
  badges : List (BadgeInstance P)

/-- An emission with its band, its group and its item. -/
structure Painted (P : Type) where
  subZ : SubZ
  group : ℕ
  item : ℕ
  emission : DecoratorEmission P

/-- What is painted first is smaller. -/
def Painted.key (e : Painted P) : ℕ ×ₗ ℕ ×ₗ ℕ := toLex (e.subZ.ordinal, toLex (e.group, e.item))

namespace DecoratorLayer

variable (layer : DecoratorLayer P F)

def buttonAt (pt : Point P) : Option (ℕ × ℕ) :=
  findLast? (fun g group =>
    if visibilityFor group layer.hover = false then none
    else findLast? (fun i item => if item.isButtonAt pt then some (g, i) else none) group.items)
    layer.groups

def collected : List (Painted P) :=
  layer.groups.zipIdx.flatMap fun (group, g) =>
    (emissionsForGroup group layer.hover).map fun (subZ, i, e) => ⟨subZ, g, i, e⟩

/-- The emissions in the order in which they are painted. -/
def paintOrder : List (Painted P) := layer.collected.mergeSort fun a b => a.key ≤ b.key

def paint (out : ScenePrimitives P) : ScenePrimitives P :=
  layer.paintOrder.foldl (fun out e =>
    match e.emission with
    | .line l => { out with lines := out.lines ++ [l] }
    | .badge b => { out with badges := out.badges ++ [b] }) out

def actionToEffect (action : ButtonAction P F) (pt : Point P) : ToolEffect P F :=
  match action with
  | .openContextMenu items => .openContextMenu pt items
  | .menu (.edit id) => .openContextMenu pt [⟨"Edit", .edit id⟩]
  | .menu (.toggleLock id) => .openContextMenu pt [⟨"Toggle Lock", .toggleLock id⟩]
  | .menu (.delete id) => .deleteLevel id
  | .effect e => e

def update (ev : InputEvent P) (ctx : ToolContext V P F (PriceRange F)) :
    EventStatus × ToolContext V P F (PriceRange F) :=
  match ev with
  | .mouseDown .left pt _ =>
    match layer.buttonAt pt with
    | none => (.ignored, ctx)
    | some (g, i) =>
      match (layer.groups[g]?).bind fun group => group.items[i]? with
      | some (.button _ _ _ action) => (.captured, ctx.emitEffect (actionToEffect action pt))
      | _ => (.ignored, ctx)
  | _ => (.ignored, ctx)

end DecoratorLayer

instance : SceneLayer (DecoratorLayer P F) where
  id _ := "decorators"
  isInteractive _ := true

instance : InteractiveLayer (DecoratorLayer P F) V P F (PriceRange F) where
  update ev layer ctx := ((layer.update ev ctx).1, layer, (layer.update ev ctx).2)
  cancel layer shared := (layer, shared)

/-! ### Clicks and what is painted -/

namespace DecoratorLayer

variable (layer : DecoratorLayer P F) (pt : Point P)

/-- A button of a visible group, with the point on it. -/
def Under (g i : ℕ) : Prop :=
  ∃ group, layer.groups[g]? = some group ∧ visibilityFor group layer.hover = true ∧
    ∃ item, group.items[i]? = some item ∧ item.isButtonAt pt = true

def isDragged (g : ℕ) : Bool :=
  (layer.groups[g]?).any fun group => layer.hover.isAnnotationDragged group.annotationId

/-- What is painted is a button with the point on it. -/
def paintsButton (e : Painted P) : Bool :=
  ((layer.groups[e.group]?).bind fun group => group.items[e.item]?).any (·.isButtonAt pt)

/-- The button with the point on it that is painted last. -/
def lastPainted : Option (ℕ × ℕ) :=
  ((layer.paintOrder.filter (layer.paintsButton pt)).getLast?).map fun e => (e.group, e.item)

/-- Where a button under the pointer is painted: the buttons of the dragged annotation are above the
    others, and later groups and items above earlier ones. -/
def height (g i : ℕ) : ℕ ×ₗ ℕ ×ₗ ℕ := toLex (if layer.isDragged g then 3 else 2, toLex (g, i))

/-- A click finds a button where there is one, and it is the one painted on top. -/
structure HitsTopmost : Prop where
  none_iff : layer.buttonAt pt = none ↔ ∀ g i, ¬layer.Under pt g i
  topmost : ∀ hit, layer.buttonAt pt = some hit → layer.lastPainted pt = some hit

/-- Where a button of the dragged annotation is under the pointer, one comes after every group of
    another annotation that has a button there. -/
def DraggedLast : Prop :=
  ∀ g i g' i', layer.Under pt g i → layer.isDragged g = true → layer.Under pt g' i' →
    layer.isDragged g' = false → ∃ k j, layer.Under pt k j ∧ layer.isDragged k = true ∧ g' < k

variable {layer pt}

theorem buttonAt_eq_none_iff : layer.buttonAt pt = none ↔ ∀ g i, ¬layer.Under pt g i := by
  rw [buttonAt, findLast?_eq_none_iff]
  constructor
  · rintro h g i ⟨group, hg, hvisible, item, hi, hitem⟩
    have hnone := h g group hg
    rw [if_neg (by simp [hvisible]), findLast?_eq_none_iff] at hnone
    simpa [hitem] using hnone i item hi
  · intro h g group hg
    split_ifs with hvisible
    · rfl
    · rw [findLast?_eq_none_iff]
      intro i item hi
      rw [if_neg]
      intro hitem
      exact h g i ⟨group, hg, by simpa using hvisible, item, hi, hitem⟩

/-- The button that is found is the last one of the last group that has one. -/
theorem le_buttonAt {g i : ℕ} (h : layer.buttonAt pt = some (g, i)) :
    layer.Under pt g i ∧ ∀ g' i', layer.Under pt g' i' → g' < g ∨ g' = g ∧ i' ≤ i := by
  obtain ⟨k, group, hg, hfound, hgroups⟩ := findLast?_eq_some h
  split_ifs at hfound with hvisible
  obtain ⟨j, item, hi, hitem, hitems⟩ := findLast?_eq_some hfound
  split_ifs at hitem with hat
  cases hitem
  refine ⟨⟨group, hg, by simpa using hvisible, item, hi, hat⟩, ?_⟩
  rintro g' i' ⟨group', hg', hvisible', item', hi', hat'⟩
  by_contra hafter
  rcases (show g < g' ∨ g' = g ∧ i < i' by omega) with hlt | ⟨rfl, hlt⟩
  · have hnone := hgroups g' group' hg' hlt
    rw [if_neg (by simp [hvisible']), findLast?_eq_none_iff] at hnone
    simpa [hat'] using hnone i' item' hi'
  · obtain rfl : group = group' := Option.some.inj (hg.symm.trans hg')
    simpa [hat'] using hitems i' item' hi' hlt

/-- The layer captures the clicks on its visible buttons. -/
theorem captured_iff_under {modifiers : Modifiers} {ctx : ToolContext V P F (PriceRange F)} :
    (layer.update (.mouseDown .left pt modifiers) ctx).1 = .captured ↔ ∃ g i, layer.Under pt g i := by
  rcases hhit : layer.buttonAt pt with _ | ⟨g, i⟩
  · simpa [update, hhit] using buttonAt_eq_none_iff.mp hhit
  · obtain ⟨hunder, -⟩ := le_buttonAt hhit
    refine iff_of_true ?_ ⟨g, i, hunder⟩
    obtain ⟨group, hg, -, item, hi, hat⟩ := hunder
    cases item with
    | button bounds color label action => simp [update, hhit, hg, hi]
    | _ => cases hat

theorem mem_paintOrder {e : Painted P} :
    e ∈ layer.paintOrder ↔ ∃ group, layer.groups[e.group]? = some group ∧
      visibilityFor group layer.hover = true ∧ ∃ item, group.items[e.item]? = some item ∧
      DecoratorEmission.fromItem item (layer.hover.isAnnotationDragged group.annotationId) =
        some e.emission ∧
      e.subZ = subZFor item layer.hover.cursorPx group.parentBounds proximityThresholdPx
        (layer.hover.isAnnotationDragged group.annotationId) := by
  rw [paintOrder, (List.mergeSort_perm _ _).mem_iff, collected, List.mem_flatMap]
  constructor
  · rintro ⟨⟨group, g⟩, hg, he⟩
    obtain ⟨⟨subZ, i, emission⟩, hmem, rfl⟩ := List.mem_map.mp he
    obtain ⟨hvisible, hitem⟩ := mem_emissionsForGroup.mp hmem
    exact ⟨group, List.mem_zipIdx_iff_getElem?.mp hg, hvisible, hitem⟩
  · rintro ⟨group, hg, hvisible, hitem⟩
    refine ⟨(group, e.group), List.mem_zipIdx_iff_getElem?.mpr hg, List.mem_map.mpr ?_⟩
    exact ⟨(e.subZ, e.item, e.emission), mem_emissionsForGroup.mpr ⟨hvisible, hitem⟩, rfl⟩

theorem paintOrder_sorted (layer : DecoratorLayer P F) :
    layer.paintOrder.Pairwise fun a b => a.key ≤ b.key := by
  have h : layer.paintOrder.Pairwise fun a b => decide (a.key ≤ b.key) = true :=
    List.pairwise_mergeSort
      (fun a b c hab hbc => by
        rw [decide_eq_true_eq] at hab hbc ⊢
        exact hab.trans hbc)
      (fun a b => by
        rw [Bool.or_eq_true, decide_eq_true_eq, decide_eq_true_eq]
        exact le_total _ _) layer.collected
  exact h.imp of_decide_eq_true

/-- A button emits a badge. -/
theorem fromItem_of_isButtonAt {item : DecoratorItem P F} (h : item.isButtonAt pt = true)
    (ghost : Bool) : ∃ e, DecoratorEmission.fromItem item ghost = some e := by
  cases item with
  | button bounds color label action => exact ⟨_, rfl⟩
  | _ => cases h

/-- A button under the pointer is in one of the two upper bands. -/
theorem subZFor_of_isButtonAt {item : DecoratorItem P F} (h : item.isButtonAt pt = true)
    (parentBounds : Rect P) (thresholdPx : P) (dragged : Bool) :
    subZFor item (some pt) parentBounds thresholdPx dragged =
      if dragged then .dragged else .hovered := by
  cases item with
  | button bounds color label action =>
    have hat : bounds.contains pt.x pt.y = true := h
    simp [subZFor, DecoratorItem.isDrawable, DecoratorItem.bounds, hat]
  | _ => cases h

section Cursor

variable (hcursor : layer.hover.cursorPx = some pt)

include hcursor

omit hcursor in
theorem painted_of_under {g i : ℕ} (h : layer.Under pt g i) :
    ∃ e ∈ layer.paintOrder, layer.paintsButton pt e = true ∧ e.group = g ∧ e.item = i := by
  obtain ⟨group, hg, hvisible, item, hi, hat⟩ := h
  obtain ⟨emission, he⟩ :=
    fromItem_of_isButtonAt hat (layer.hover.isAnnotationDragged group.annotationId)
  refine ⟨⟨_, g, i, emission⟩, mem_paintOrder.mpr ⟨group, hg, hvisible, item, hi, he, rfl⟩, ?_, rfl, rfl⟩
  simp [paintsButton, hg, hi, hat]

/-- What is painted of the buttons under the pointer, and where. -/
theorem key_of_painted {e : Painted P} (he : e ∈ layer.paintOrder)
    (hbutton : layer.paintsButton pt e = true) :
    layer.Under pt e.group e.item ∧ e.key = layer.height e.group e.item := by
  obtain ⟨group, hg, hvisible, item, hi, -, hsubZ⟩ := mem_paintOrder.mp he
  have hat : item.isButtonAt pt = true := by simpa [paintsButton, hg, hi] using hbutton
  refine ⟨⟨group, hg, hvisible, item, hi, hat⟩, ?_⟩
  rw [hcursor, subZFor_of_isButtonAt hat] at hsubZ
  rw [Painted.key, height, hsubZ, isDragged, hg, Option.any_some]
  split <;> rfl

theorem le_lastPainted {g i : ℕ} (h : layer.lastPainted pt = some (g, i)) :
    layer.Under pt g i ∧ ∀ g' i', layer.Under pt g' i' → layer.height g' i' ≤ layer.height g i := by
  obtain ⟨e, hlast, heq⟩ := Option.map_eq_some_iff.mp h
  cases heq
  obtain ⟨⟨he, hbutton⟩, htop⟩ := le_getLast?_filter (fun a => le_refl a.key)
    layer.paintOrder_sorted hlast
  obtain ⟨hunder, hkey⟩ := key_of_painted hcursor he hbutton
  refine ⟨hunder, ?_⟩
  intro g' i' hunder'
  obtain ⟨e', he', hbutton', rfl, rfl⟩ := painted_of_under hunder'
  rw [← hkey, ← (key_of_painted hcursor he' hbutton').2]
  exact htop e' he' hbutton'

omit hcursor in
theorem exists_lastPainted {g i : ℕ} (h : layer.Under pt g i) :
    ∃ g' i', layer.lastPainted pt = some (g', i') := by
  obtain ⟨e, he, hbutton, -⟩ := painted_of_under h
  rcases hlast : (layer.paintOrder.filter (layer.paintsButton pt)).getLast? with _ | last
  · rw [List.getLast?_eq_none_iff, List.filter_eq_nil_iff] at hlast
    exact absurd hbutton (hlast e he)
  · exact ⟨last.group, last.item, by rw [lastPainted, hlast]; rfl⟩

omit [Metric P] hcursor in
theorem height_le_iff {g i g' i' : ℕ} : layer.height g' i' ≤ layer.height g i ↔
    layer.isDragged g' = false ∧ layer.isDragged g = true ∨
      layer.isDragged g' = layer.isDragged g ∧ (g' < g ∨ g' = g ∧ i' ≤ i) := by
  simp only [height, Prod.Lex.toLex_le_toLex]
  cases layer.isDragged g' <;> cases layer.isDragged g <;> simp

/-- Clicks hit the button painted on top where the buttons of the dragged annotation come last. -/
theorem hitsTopmost_iff_draggedLast : layer.HitsTopmost pt ↔ layer.DraggedLast pt := by
  constructor
  · rintro ⟨-, htop⟩ g i g' i' hunder hdragged hunder' hplain
    rcases hhit : layer.buttonAt pt with _ | ⟨k, j⟩
    · exact absurd hunder (buttonAt_eq_none_iff.mp hhit g i)
    · obtain ⟨hk, hafter⟩ := le_buttonAt hhit
      have habove := height_le_iff.mp ((le_lastPainted hcursor (htop _ hhit)).2 g i hunder)
      have hkdragged : layer.isDragged k = true := by
        rcases habove with ⟨hno, -⟩ | ⟨heq, -⟩
        · rw [hdragged] at hno
          cases hno
        · rw [← heq, hdragged]
      refine ⟨k, j, hk, hkdragged, ?_⟩
      rcases hafter g' i' hunder' with hlt | ⟨rfl, -⟩
      · exact hlt
      · rw [hplain] at hkdragged
        cases hkdragged
  · intro hlast
    refine ⟨buttonAt_eq_none_iff, ?_⟩
    rintro ⟨g, i⟩ hhit
    obtain ⟨hunder, hafter⟩ := le_buttonAt hhit
    obtain ⟨k, j, hpainted⟩ := exists_lastPainted hunder
    obtain ⟨hk, htop⟩ := le_lastPainted hcursor hpainted
    -- The click goes to the last button, which is in the band of the topmost one.
    have hband : layer.isDragged k = layer.isDragged g := by
      rcases height_le_iff.mp (htop g i hunder) with ⟨hplain, hdragged⟩ | ⟨heq, -⟩
      · obtain ⟨k', j', hk', -, hgt⟩ := hlast k j g i hk hdragged hunder hplain
        have := hafter k' j' hk'
        omega
      · exact heq.symm
    have hle : g < k ∨ g = k ∧ i ≤ j := by
      rcases height_le_iff.mp (htop g i hunder) with ⟨hplain, hdragged⟩ | ⟨-, hle⟩
      · rw [hband, hplain] at hdragged
        cases hdragged
      · exact hle
    have hge := hafter k j hk
    obtain ⟨rfl, rfl⟩ : g = k ∧ i = j := by omega
    exact hpainted

end Cursor

end DecoratorLayer

/-! ### Two buttons in one place -/

instance : Metric ℤ where
  lit n := n
  abs n := n.natAbs
  isFinite _ := true
  decidableLE := inferInstance
  decidableLT := inferInstance
  sqrt := Int.sqrt
  smaller := min
  larger := max
  infinity := 2 ^ 128

/-- The delete buttons of two levels, one on the other, while one of the levels is dragged. -/
def twoButtons (dragged : AnnotationId) : DecoratorLayer ℤ ℤ where
  groups := [1, 2].map fun id =>
    ⟨0, id, ⟨0, 0, 40, 20⟩, .always,
      [.button ⟨10, 0, 30, 20⟩ (200, 0, 0, 255) "x" (.menu (.delete id))]⟩
  hover := ⟨none, some dragged, [], some ⟨20, 10⟩⟩

theorem hitsTopmost_iff_draggedLast_twoButtons : (twoButtons 2).HitsTopmost ⟨20, 10⟩ := by
  refine (DecoratorLayer.hitsTopmost_iff_draggedLast rfl).mpr ?_
  rintro - - g i - - ⟨group, hg, -⟩ hplain
  refine ⟨1, 0, ⟨_, rfl, rfl, _, rfl, by decide⟩, by decide, ?_⟩
  have hlt : g < 2 := (List.getElem?_eq_some_iff.mp hg).1
  have hne : g ≠ 1 := by
    rintro rfl
    exact absurd hplain (by decide)
  omega

/-- The first level is dragged, and its button painted on top; a click deletes the second. -/
theorem click_misses_dragged : ¬(twoButtons 1).HitsTopmost ⟨20, 10⟩ := by
  rintro ⟨-, htop⟩
  have hhit : (twoButtons 1).buttonAt ⟨20, 10⟩ = some (1, 0) := by decide
  have hunder : (twoButtons 1).Under ⟨20, 10⟩ 0 0 := ⟨_, rfl, rfl, _, rfl, by decide⟩
  have hbelow := (DecoratorLayer.le_lastPainted rfl (htop _ hhit)).2 0 0 hunder
  exact absurd (DecoratorLayer.height_le_iff.mp hbelow) (by decide)

end Midas.Scene
