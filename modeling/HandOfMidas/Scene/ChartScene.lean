import Mathlib.Data.List.Basic

/-! A chart scene hands each input event to the layer that has the drag focus, or else to the active
    tool and then to the layers from the top one down, until one of them captures it. What they ask
    of the application they put on one queue of effects. -/

namespace Midas.Scene

/-! ### Events and effects -/

abbrev LayerId := String

inductive SceneError
  | tickerRejected (reason : String)
  | persistenceFailed (detail : String)
  | axisRange (detail : String)
  | annotationNotFound
  | panicFallback (layer : LayerId)
deriving DecidableEq

structure Point (P : Type) where
  x : P
  y : P
deriving DecidableEq

inductive MouseButton
  | left | right | middle
deriving DecidableEq

structure Modifiers where
  ctrl : Bool
  shift : Bool
  alt : Bool
  metaKey : Bool
deriving DecidableEq

inductive Key
  | char (c : Char)
  | escape | enter | delete | backspace | tab
  | arrowUp | arrowDown | arrowLeft | arrowRight
  | home | endKey | pageUp | pageDown
deriving DecidableEq

inductive InputEvent (P : Type)
  | mouseDown (button : MouseButton) (pt : Point P) (modifiers : Modifiers)
  | mouseUp (button : MouseButton) (pt : Point P)
  | mouseMove (pt : Point P)
  | wheel (dx dy : P) (pt : Point P)
  | keyDown (key : Key) (modifiers : Modifiers)
  | keyUp (key : Key)
  | cursorLeft

namespace InputEvent

variable {P : Type}

def isMouseDown : InputEvent P → Bool
  | mouseDown .. => true
  | _ => false

def isMouseUp : InputEvent P → Bool
  | mouseUp .. => true
  | _ => false

def isEscape : InputEvent P → Bool
  | keyDown .escape _ => true
  | _ => false

def isLeftDown : InputEvent P → Bool
  | mouseDown .left _ _ => true
  | _ => false

def isMouseMove : InputEvent P → Bool
  | mouseMove _ => true
  | _ => false

theorem of_isLeftDown {ev : InputEvent P} (h : ev.isLeftDown = true) :
    ev.isMouseUp = false ∧ ev.isMouseDown = true := by
  cases ev <;> simp_all [isLeftDown, isMouseUp, isMouseDown]

theorem of_isMouseMove {ev : InputEvent P} (h : ev.isMouseMove = true) :
    ev.isMouseUp = false ∧ ev.isLeftDown = false := by
  cases ev <;> simp_all [isMouseMove, isMouseUp, isLeftDown]

end InputEvent

inductive EventStatus
  | captured | ignored
deriving DecidableEq

inductive Side
  | long | short
deriving DecidableEq

inductive LegRole
  | entry | tp | sl
deriving DecidableEq

inductive ContextMenuAction
  | edit (id : UInt64)
  | toggleLock (id : UInt64)
  | delete (id : UInt64)
deriving DecidableEq

structure ContextMenuItem where
  label : String
  action : ContextMenuAction
deriving DecidableEq

/-- Prices are of type `F`, pixels of type `P`. -/
inductive ToolEffect (P F : Type)
  | createLevel (price : F) (lock : Bool)
  | updateLevel (id : UInt64) (price : F)
  | deleteLevel (id : UInt64)
  | beginDraftBracket (side : Side) (entry : F)
  | setDraftLeg (role : LegRole) (price : F)
  | commitDraftBracket
  | cancelDraftBracket
  | updateBracketLeg (id : UInt64) (role : LegRole) (price : F)
  | openContextMenu (pt : Point P) (items : List ContextMenuItem)
  | reportError (error : SceneError)
deriving DecidableEq

/-! ### Layers and tools -/

/-- What the scene lends to a layer for one event. The layers reach `shared`, which they hold behind
    `Arc<Mutex<_>>`, without the scene; all of them see the same. -/
structure ToolContext (W P F R : Type) where
  priceRange : R
  lastError : Option SceneError
  effects : List (ToolEffect P F)
  shared : W

/-- A layer that only paints is not `isInteractive`: its `as_interactive` is `None`. -/
class SceneLayer (σ : Type) where
  id : σ → LayerId
  isInteractive : σ → Bool

/-- What tools are too. -/
class InteractiveLayer (σ W P F R : Type) where
  update : InputEvent P → σ → ToolContext W P F R → EventStatus × σ × ToolContext W P F R
  cancel (P F R) : σ → W → σ × W

open SceneLayer (isInteractive)
open InteractiveLayer

variable {L T W P F R : Type} [SceneLayer L] [InteractiveLayer L W P F R] [SceneLayer T]
  [InteractiveLayer T W P F R]

/-- The layers that only paint. -/
inductive PaintedLayer
  | sessionBands | grid | sessionSeparators | volume | volumeProfile | candles | atr | gerchikAtr
  | holidayMarkers | priceLines | crosshair
deriving DecidableEq

instance : SceneLayer PaintedLayer where
  id
    | .sessionBands => "session-bands"
    | .grid => "grid"
    | .sessionSeparators => "session-separators"
    | .volume => "volume"
    | .volumeProfile => "volume_profile"
    | .candles => "candles"
    | .atr => "atr"
    | .gerchikAtr => "gerchik-atr"
    | .holidayMarkers => "holiday-markers"
    | .priceLines => "price-lines"
    | .crosshair => "crosshair"
  isInteractive _ := false

instance : InteractiveLayer PaintedLayer W P F R :=
  ⟨fun _ l ctx => (.ignored, l, ctx), fun l shared => (l, shared)⟩

def ToolContext.emitEffect (ctx : ToolContext W P F R) (effect : ToolEffect P F) :
    ToolContext W P F R :=
  { ctx with effects := ctx.effects ++ [effect] }

@[simp] theorem ToolContext.effects_emitEffect (ctx : ToolContext W P F R) (e : ToolEffect P F) :
    (ctx.emitEffect e).effects = ctx.effects ++ [e] := rfl

@[simp] theorem ToolContext.shared_emitEffect (ctx : ToolContext W P F R) (e : ToolEffect P F) :
    (ctx.emitEffect e).shared = ctx.shared := rfl

/-! ### The scene -/

/-- The layers stand in ascending `z`, so the last one is on top. -/
structure ChartScene (L T W P F R : Type) where
  layers : List L
  activeTool : Option T
  dragFocus : Option LayerId
  ctx : ToolContext W P F R

namespace ChartScene

/-- `ChartSceneBuilder::build`. -/
def build (layers : List L) (priceRange : R) (shared : W) : ChartScene L T W P F R :=
  ⟨layers, none, none, ⟨priceRange, none, [], shared⟩⟩

def clearActiveTool (s : ChartScene L T W P F R) : ChartScene L T W P F R :=
  match s.activeTool with
  | none => s
  | some tool =>
    { s with activeTool := none, ctx := { s.ctx with shared := (cancel P F R tool s.ctx.shared).2 } }

def setActiveTool (tool : T) (s : ChartScene L T W P F R) : ChartScene L T W P F R :=
  { s.clearActiveTool with activeTool := some tool }

def onDestroy (s : ChartScene L T W P F R) : ChartScene L T W P F R :=
  { s.clearActiveTool with dragFocus := none }

def takeEffects (s : ChartScene L T W P F R) :
    List (ToolEffect P F) × ChartScene L T W P F R :=
  (s.ctx.effects, { s with ctx := { s.ctx with effects := [] } })

/-- The event goes to the first interactive layer of the id. -/
def routeToLayer (target : LayerId) (ev : InputEvent P) :
    List L → ToolContext W P F R → EventStatus × List L × ToolContext W P F R
  | [], ctx => (.ignored, [], ctx)
  | l :: ls, ctx =>
    if SceneLayer.id l = target ∧ isInteractive l then
      let r := update ev l ctx
      (r.1, r.2.1 :: ls, r.2.2)
    else
      let r := routeToLayer target ev ls ctx
      (r.1, l :: r.2.1, r.2.2)

def routeToId (target : LayerId) (ev : InputEvent P) (s : ChartScene L T W P F R) :
    EventStatus × ChartScene L T W P F R :=
  match s.activeTool.filter fun tool => SceneLayer.id tool = target with
  | some tool =>
    let r := update ev tool s.ctx
    (r.1, { s with activeTool := some r.2.1, ctx := r.2.2 })
  | none =>
    let r := routeToLayer target ev s.layers s.ctx
    (r.1, { s with layers := r.2.1, ctx := r.2.2 })

/-- The event is offered to one layer after the other, and the id is that of the one that captures
    it. -/
def offer (ev : InputEvent P) :
    List L → ToolContext W P F R → Option LayerId × List L × ToolContext W P F R
  | [], ctx => (none, [], ctx)
  | l :: ls, ctx =>
    if isInteractive l then
      let r := update ev l ctx
      if r.1 = .captured then (some (SceneLayer.id r.2.1), r.2.1 :: ls, r.2.2)
      else
        let rest := offer ev ls r.2.2
        (rest.1, r.2.1 :: rest.2.1, rest.2.2)
    else
      let rest := offer ev ls ctx
      (rest.1, l :: rest.2.1, rest.2.2)

/-- The active tool has the first shot. -/
def offerTool (ev : InputEvent P) (s : ChartScene L T W P F R) :
    Option LayerId × ChartScene L T W P F R :=
  match s.activeTool with
  | none => (none, s)
  | some tool =>
    let r := update ev tool s.ctx
    (if r.1 = .captured then some (SceneLayer.id r.2.1) else none,
      { s with activeTool := some r.2.1, ctx := r.2.2 })

/-- The layers, the top one first. -/
def offerLayers (ev : InputEvent P) (s : ChartScene L T W P F R) :
    Option LayerId × ChartScene L T W P F R :=
  let r := offer ev s.layers.reverse s.ctx
  (r.1, { s with layers := r.2.1.reverse, ctx := r.2.2 })

/-- The tool comes before the layers. -/
def offerAll (ev : InputEvent P) (s : ChartScene L T W P F R) :
    Option LayerId × ChartScene L T W P F R :=
  match s.offerTool ev with
  | (some owner, s) => (some owner, s)
  | (none, s) => s.offerLayers ev

def handleInput (ev : InputEvent P) (s : ChartScene L T W P F R) :
    EventStatus × ChartScene L T W P F R :=
  if ev.isEscape then
    (if s.activeTool.isSome ∨ s.dragFocus.isSome then .captured else .ignored,
      { s.clearActiveTool with dragFocus := none })
  else
    match s.dragFocus with
    | some target =>
      let r := s.routeToId target ev
      (r.1, if ev.isMouseUp then { r.2 with dragFocus := none } else r.2)
    | none =>
      match s.offerAll ev with
      -- A `MouseDown` that is captured starts a drag.
      | (some owner, s) =>
        (.captured, if ev.isMouseDown then { s with dragFocus := some owner } else s)
      | (none, s) => (.ignored, s)

/-! ### What an event does -/

section

omit [SceneLayer L] [InteractiveLayer L W P F R] [SceneLayer T]

@[simp] theorem activeTool_clearActiveTool (s : ChartScene L T W P F R) :
    s.clearActiveTool.activeTool = none := by
  unfold clearActiveTool
  split
  · assumption
  · rfl

@[simp] theorem effects_clearActiveTool (s : ChartScene L T W P F R) :
    s.clearActiveTool.ctx.effects = s.ctx.effects := by
  unfold clearActiveTool
  split <;> rfl

@[simp] theorem layers_clearActiveTool (s : ChartScene L T W P F R) :
    s.clearActiveTool.layers = s.layers := by
  unfold clearActiveTool
  split <;> rfl

@[simp] theorem dragFocus_clearActiveTool (s : ChartScene L T W P F R) :
    s.clearActiveTool.dragFocus = s.dragFocus := by
  unfold clearActiveTool
  split <;> rfl

end

variable {ev : InputEvent P} {s : ChartScene L T W P F R} {target : LayerId}

theorem handleInput_of_escape (hev : ev.isEscape = true) :
    (s.handleInput ev).2 = { s.clearActiveTool with dragFocus := none } := by
  rw [handleInput, if_pos hev]

theorem handleInput_of_focus (hev : ev.isEscape = false) (hfocus : s.dragFocus = some target) :
    s.handleInput ev = ((s.routeToId target ev).1,
      { (s.routeToId target ev).2 with
        dragFocus := if ev.isMouseUp then none else some target }) := by
  have hkept : (s.routeToId target ev).2.dragFocus = some target := by
    unfold routeToId
    split <;> exact hfocus
  rw [handleInput, if_neg (by simp [hev]), hfocus]
  simp only
  split_ifs with hup
  · rfl
  · rw [← hkept]

theorem handleInput_of_no_focus (hev : ev.isEscape = false) (hfocus : s.dragFocus = none) :
    s.handleInput ev = (if (s.offerAll ev).1.isSome then .captured else .ignored,
      { (s.offerAll ev).2 with
        dragFocus := if ev.isMouseDown then (s.offerAll ev).1 else none }) := by
  have hkept : (s.offerAll ev).2.dragFocus = none := by
    unfold offerAll offerTool offerLayers
    cases s.activeTool with
    | none => exact hfocus
    | some tool =>
      simp only
      split_ifs <;> exact hfocus
  rw [handleInput, if_neg (by simp [hev]), hfocus]
  revert hkept
  rcases s.offerAll ev with ⟨owner, layers, tool, focus, ctx⟩
  rintro rfl
  cases owner with
  | none => simp
  | some owner =>
    simp only [Option.isSome_some, if_true]
    split_ifs <;> rfl

/-- A layer that no event changes stays where it is. -/
theorem mem_routeToLayer {l : L} (hfixed : ∀ ctx : ToolContext W P F R, (update ev l ctx).2.1 = l)
    {ls : List L} (hl : l ∈ ls) (ctx : ToolContext W P F R) :
    l ∈ (routeToLayer target ev ls ctx).2.1 := by
  induction ls with
  | nil => simp at hl
  | cons l' ls ih =>
    rw [routeToLayer]
    rcases List.mem_cons.mp hl with rfl | hl
    · split_ifs
      · simp [hfixed]
      · simp
    · split_ifs
      · exact List.mem_cons_of_mem _ hl
      · exact List.mem_cons_of_mem _ (ih hl)

theorem mem_offer {l : L} (hfixed : ∀ ctx : ToolContext W P F R, (update ev l ctx).2.1 = l)
    {ls : List L} (hl : l ∈ ls) (ctx : ToolContext W P F R) : l ∈ (offer ev ls ctx).2.1 := by
  induction ls generalizing ctx with
  | nil => simp at hl
  | cons l' ls ih =>
    rw [offer]
    simp only
    rcases List.mem_cons.mp hl with rfl | hl
    · split_ifs <;> simp [hfixed]
    · split_ifs
      · exact List.mem_cons_of_mem _ hl
      · exact List.mem_cons_of_mem _ (ih hl _)
      · exact List.mem_cons_of_mem _ (ih hl _)

theorem mem_handleInput {l : L} (hfixed : ∀ ctx : ToolContext W P F R, (update ev l ctx).2.1 = l)
    (hl : l ∈ s.layers) : l ∈ (s.handleInput ev).2.layers := by
  cases hev : ev.isEscape with
  | true => simpa [handleInput_of_escape hev] using hl
  | false =>
    cases hfocus : s.dragFocus with
    | some target =>
      rw [handleInput_of_focus hev hfocus]
      unfold routeToId
      split
      · exact hl
      · exact mem_routeToLayer hfixed hl s.ctx
    | none =>
      rw [handleInput_of_no_focus hev hfocus]
      have hoffer : ∀ ctx : ToolContext W P F R, l ∈ (offer ev s.layers.reverse ctx).2.1.reverse :=
        fun ctx => List.mem_reverse.mpr (mem_offer hfixed (List.mem_reverse.mpr hl) ctx)
      unfold offerAll offerTool offerLayers
      cases s.activeTool with
      | none => exact hoffer _
      | some tool =>
        simp only
        split_ifs
        · exact hl
        · exact hoffer _

end ChartScene

end Midas.Scene
