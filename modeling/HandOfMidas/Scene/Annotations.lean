import HandOfMidas.Scene.ChartScene

/-! The two layers whose lines can be dragged: the price levels and the legs of order brackets. What is
    being dragged each keeps behind a handle that outlives it, since the widget builds the layers anew
    for each frame. -/

namespace Midas.Scene

/-! ### Pixels and prices -/

/-- Pixels, with the operations of the machine. -/
class F32 (P : Type) extends Add P, Sub P, Div P, LE P, LT P where
  lit : ℕ → P
  abs : P → P
  isFinite : P → Bool
  decidableLE : DecidableLE P
  decidableLT : DecidableLT P

instance F32.instDecidableLE {P : Type} [F32 P] : DecidableLE P := F32.decidableLE

instance F32.instDecidableLT {P : Type} [F32 P] : DecidableLT P := F32.decidableLT

/-- Prices, with the operations of the machine, and the casts from and to pixels. -/
class Priced (P F : Type) where
  sub : F → F → F
  mul : F → F → F
  div : F → F → F
  nonpos : F → Bool
  widen : P → F
  narrow : F → P

open F32 Priced

structure PriceRange (F : Type) where
  low : F
  high : F

variable {P F O V : Type} [F32 P] [Priced P F]

variable (P) in
def PriceRange.span (range : PriceRange F) : F := sub P range.high range.low

structure LinearPriceAxis (P F : Type) where
  range : PriceRange F
  heightPx : P

namespace LinearPriceAxis

def toY (axis : LinearPriceAxis P F) (price : F) : P :=
  let span := axis.range.span P
  if nonpos P span ∨ isFinite axis.heightPx = false ∨ axis.heightPx ≤ lit 0 then lit 0
  else narrow (mul P (div P (sub P axis.range.high price) span) (widen axis.heightPx))

def fromY (axis : LinearPriceAxis P F) (y : P) : Option F :=
  if isFinite y = false then none
  else if isFinite axis.heightPx = false ∨ axis.heightPx ≤ lit 0 then none
  else
    let frac := div P (widen y) (widen axis.heightPx)
    some (sub P axis.range.high (mul P frac (axis.range.span P)))

end LinearPriceAxis

/-- `y_to_price`, of either layer. -/
def yToPrice (viewportH y : P) (range : PriceRange F) : F :=
  if viewportH ≤ lit 0 then range.high
  else (LinearPriceAxis.fromY ⟨range, viewportH⟩ y).getD range.high

/-! ### The handles -/

inductive LegKind
  | tp | sl
deriving DecidableEq

def LegKind.role : LegKind → LegRole
  | tp => .tp
  | sl => .sl

/-- What `SharedLevelDrag` and `SharedBracketDrag` hold. -/
structure Handles where
  level : Option UInt64
  bracket : Option (UInt64 × LegKind)
deriving DecidableEq

/-- The handles, and what other layers and tools share among themselves. -/
structure Shared (V : Type) where
  handles : Handles
  others : V

abbrev DragContext (V P F : Type) := ToolContext (Shared V) P F (PriceRange F)

def setHandles (handles : Handles) (ctx : DragContext V P F) : DragContext V P F :=
  { ctx with shared := { ctx.shared with handles := handles } }

/-! ### Levels -/

structure LevelView (F : Type) where
  id : UInt64
  price : F
  locked : Bool

inductive LevelHitTarget
  | lineBand | dragHandle | lockIcon
deriving DecidableEq

structure LevelHit where
  levelId : UInt64
  target : LevelHitTarget
deriving DecidableEq

/-- `interactive` says that the layer was given the shared handle, and the viewport is that of the last
    paint. -/
structure LevelLayer (P F : Type) where
  levels : List (LevelView F)
  interactive : Bool
  lastViewportW : P
  lastViewportH : P

namespace LevelLayer

def hitOn (l : LevelLayer P F) (pt : Point P) (axis : LinearPriceAxis P F) (lv : LevelView F) :
    Option LevelHit :=
  let y := axis.toY lv.price
  if lit 4 < abs (pt.y - y) then none
  else
    let lockX0 := l.lastViewportW - lit 24
    let lockX1 := lockX0 + lit 16
    let lockY0 := y - lit 16 / lit 2
    let lockY1 := y + lit 16 / lit 2
    if lockX0 ≤ pt.x ∧ pt.x ≤ lockX1 ∧ lockY0 ≤ pt.y ∧ pt.y ≤ lockY1 then some ⟨lv.id, .lockIcon⟩
    else if l.lastViewportW - lit 4 ≤ pt.x ∧ pt.x ≤ l.lastViewportW then some ⟨lv.id, .dragHandle⟩
    else some ⟨lv.id, .lineBand⟩

def hitLevel (l : LevelLayer P F) (pt : Point P) (range : PriceRange F) : Option LevelHit :=
  if l.lastViewportH ≤ lit 0 then none
  else l.levels.findSome? (l.hitOn pt ⟨range, l.lastViewportH⟩)

omit [F32 P] [Priced P F] in
def findLevel (l : LevelLayer P F) (id : UInt64) : Option (LevelView F) :=
  l.levels.find? fun lv => lv.id = id

def contextMenu (lv : LevelView F) : List ContextMenuItem :=
  [⟨"Edit", .edit lv.id⟩, ⟨if lv.locked then "Unlock" else "Lock", .toggleLock lv.id⟩,
    ⟨"Delete", .delete lv.id⟩]

/-- The level under the pointer, with the part of it that was hit. -/
def levelAt (l : LevelLayer P F) (pt : Point P) (range : PriceRange F) :
    Option (LevelView F × LevelHitTarget) := do
  let hit ← l.hitLevel pt range
  let lv ← l.findLevel hit.levelId
  return (lv, hit.target)

def update (ev : InputEvent P) (l : LevelLayer P F) (ctx : DragContext V P F) :
    EventStatus × DragContext V P F :=
  if l.interactive = false then (.ignored, ctx)
  else
    let handles := ctx.shared.handles
    match ev with
    | .mouseDown .left pt _ =>
      match l.levelAt pt ctx.priceRange with
      | none => (.ignored, ctx)
      | some (lv, target) =>
        if lv.locked then (.ignored, ctx)
        else if target = .lineBand ∨ target = .dragHandle then
          (.captured, setHandles { handles with level := some lv.id } ctx)
        else (.ignored, ctx)
    | .mouseDown .right pt _ =>
      match l.levelAt pt ctx.priceRange with
      | none => (.ignored, ctx)
      | some (lv, _) => (.captured, ctx.emitEffect (.openContextMenu pt (contextMenu lv)))
    | .mouseMove pt =>
      match handles.level with
      | none => (.ignored, ctx)
      | some id =>
        (.captured, ctx.emitEffect (.updateLevel id (yToPrice l.lastViewportH pt.y ctx.priceRange)))
    | .mouseUp _ _ | .keyDown .escape _ =>
      (if handles.level.isSome then .captured else .ignored,
        setHandles { handles with level := none } ctx)
    | _ => (.ignored, ctx)

end LevelLayer

/-! ### Order brackets -/

structure OrderBracketView (F : Type) where
  id : UInt64
  entryPrice : F
  tpPrice : Option F
  slPrice : Option F

inductive BracketHitTarget
  | entryLine
  | lineBand (leg : LegKind)
  | dragHandle (leg : LegKind)
deriving DecidableEq

structure BracketHit where
  bracketId : UInt64
  target : BracketHitTarget
deriving DecidableEq

structure OrderBracketLayer (P F : Type) where
  brackets : List (OrderBracketView F)
  interactive : Bool
  lastViewportW : P
  lastViewportH : P

namespace OrderBracketLayer

def hitOnLeg (l : OrderBracketLayer P F) (pt : Point P) (axis : LinearPriceAxis P F) (id : UInt64) :
    LegKind × Option F → Option BracketHit
  | (_, none) => none
  | (leg, some price) =>
    if lit 4 < abs (pt.y - axis.toY price) then none
    else if l.lastViewportW - lit 4 ≤ pt.x ∧ pt.x ≤ l.lastViewportW then some ⟨id, .dragHandle leg⟩
    else some ⟨id, .lineBand leg⟩

def hitOn (l : OrderBracketLayer P F) (pt : Point P) (axis : LinearPriceAxis P F)
    (b : OrderBracketView F) : Option BracketHit :=
  [(LegKind.tp, b.tpPrice), (LegKind.sl, b.slPrice)].findSome? (l.hitOnLeg pt axis b.id) <|>
    if abs (pt.y - axis.toY b.entryPrice) ≤ lit 4 then some ⟨b.id, .entryLine⟩ else none

def hitBracket (l : OrderBracketLayer P F) (pt : Point P) (range : PriceRange F) :
    Option BracketHit :=
  if l.lastViewportH ≤ lit 0 then none
  else l.brackets.findSome? (l.hitOn pt ⟨range, l.lastViewportH⟩)

def update (ev : InputEvent P) (l : OrderBracketLayer P F) (ctx : DragContext V P F) :
    EventStatus × DragContext V P F :=
  if l.interactive = false then (.ignored, ctx)
  else
    let handles := ctx.shared.handles
    match ev with
    | .mouseDown .left pt _ =>
      match l.hitBracket pt ctx.priceRange with
      | some ⟨id, .dragHandle leg⟩ =>
        (.captured, setHandles { handles with bracket := some (id, leg) } ctx)
      | _ => (.ignored, ctx)
    | .mouseMove pt =>
      match handles.bracket with
      | none => (.ignored, ctx)
      | some (id, leg) =>
        (.captured, ctx.emitEffect
          (.updateBracketLeg id leg.role (yToPrice l.lastViewportH pt.y ctx.priceRange)))
    | .mouseUp _ _ | .keyDown .escape _ =>
      (if handles.bracket.isSome then .captured else .ignored,
        setHandles { handles with bracket := none } ctx)
    | _ => (.ignored, ctx)

end OrderBracketLayer

/-! ### The layers of a scene -/

inductive Layer (P F O : Type)
  | levels (l : LevelLayer P F)
  | brackets (l : OrderBracketLayer P F)
  | other (o : O)

namespace Layer

variable [SceneLayer O] [InteractiveLayer O (Shared V) P F (PriceRange F)]

omit [F32 P] [Priced P F] in
instance : SceneLayer (Layer P F O) where
  id
    | levels _ => "levels"
    | brackets _ => "order-brackets"
    | other o => SceneLayer.id o
  isInteractive
    | levels l => l.interactive
    | brackets l => l.interactive
    | other o => SceneLayer.isInteractive o

/-- The scene cancels tools only. -/
instance : InteractiveLayer (Layer P F O) (Shared V) P F (PriceRange F) where
  update
    | ev, levels l, ctx => ((l.update ev ctx).1, levels l, (l.update ev ctx).2)
    | ev, brackets l, ctx => ((l.update ev ctx).1, brackets l, (l.update ev ctx).2)
    | ev, other o, ctx =>
      let r := InteractiveLayer.update ev o ctx
      (r.1, other r.2.1, r.2.2)
  cancel
    | levels l, shared =>
      (levels l, if l.interactive then
        { shared with handles := { shared.handles with level := none } } else shared)
    | brackets l, shared =>
      (brackets l, if l.interactive then
        { shared with handles := { shared.handles with bracket := none } } else shared)
    | other o, shared =>
      let r := InteractiveLayer.cancel P F (PriceRange F) o shared
      (other r.1, r.2)

end Layer

end Midas.Scene
