import HandOfMidas.Lib.Run
import HandOfMidas.Scene.Annotations
import HandOfMidas.Scene.BracketTool
import Mathlib.Algebra.Order.Field.Rat
import Mathlib.Algebra.Order.Group.Unbundled.Abs

/-! While the user drags a level or a leg, this is on record twice: the scene has its drag focus on the
    layer, and the layer has the object in its handle. Letting the mouse go clears both. Escape and
    closing the window clear the focus only, and from then on every move of the mouse changes the
    price of what is in the handle. -/

namespace Midas.Scene

open InteractiveLayer

variable {T P F O V : Type} [F32 P] [Priced P F]
  [SceneLayer O] [InteractiveLayer O (Shared V) P F (PriceRange F)]
  [SceneLayer T] [InteractiveLayer T (Shared V) P F (PriceRange F)]

/-! ### Objects that can be dragged -/

inductive DragObject
  | level (id : UInt64)
  | leg (id : UInt64) (leg : LegKind)
deriving DecidableEq

namespace DragObject

/-- The layer that the object is on. -/
def layer : DragObject → LayerId
  | level _ => "levels"
  | leg _ _ => "order-brackets"

def edit (price : F) : DragObject → ToolEffect P F
  | level id => .updateLevel id price
  | leg id kind => .updateBracketLeg id kind.role price

end DragObject

/-- The effects that change a price. -/
def ToolEffect.edits : ToolEffect P F → Bool
  | .updateLevel _ _ | .updateBracketLeg _ _ _ => true
  | _ => false

namespace Handles

def none : Handles := ⟨.none, .none⟩

/-- What the handle of the layer holds. -/
def get (h : Handles) (layer : LayerId) : Option DragObject :=
  if layer = "levels" then h.level.map .level
  else if layer = "order-brackets" then h.bracket.map fun p => .leg p.1 p.2
  else .none

def put (h : Handles) : DragObject → Handles
  | .level id => { h with level := some id }
  | .leg id leg => { h with bracket := some (id, leg) }

def clear (h : Handles) (layer : LayerId) : Handles :=
  if layer = "levels" then { h with level := .none }
  else if layer = "order-brackets" then { h with bracket := .none }
  else h

@[simp] theorem get_none (layer : LayerId) : none.get layer = .none := by
  unfold get none
  split_ifs <;> rfl

@[simp] theorem clear_none (layer : LayerId) : none.clear layer = none := by
  unfold clear none
  split_ifs <;> rfl

@[simp] theorem get_put (h : Handles) (obj : DragObject) : (h.put obj).get obj.layer = some obj := by
  cases obj <;> rfl

@[simp] theorem clear_put (obj : DragObject) : (none.put obj).clear obj.layer = none := by
  cases obj <;> rfl

theorem put_put {obj obj' : DragObject} (h : obj.layer = obj'.layer) :
    (none.put obj).put obj' = none.put obj' := by
  cases obj <;> cases obj' <;> simp_all [DragObject.layer, put]

end Handles

/-! ### Turns -/

/-- What the layer or the tool of an id may do with an event: to the handles, and to prices. -/
inductive Turn (owner : LayerId) (ev : InputEvent P) (h : Handles) :
    EventStatus → Handles → List (ToolEffect P F) → Prop
  | grab (obj : DragObject) (howner : obj.layer = owner) (hev : ev.isLeftDown = true) :
    Turn owner ev h .captured (h.put obj) []
  | move (obj : DragObject) (price : F) (hobj : h.get owner = some obj) (hev : ev.isMouseMove = true) :
    Turn owner ev h .captured h [obj.edit price]
  | release (status : EventStatus) (hev : ev.isMouseUp = true) :
    Turn owner ev h status (h.clear owner) []
  | rest (status : EventStatus) (es : List (ToolEffect P F)) (hes : ∀ e ∈ es, e.edits = false)
      (hup : ev.isMouseUp = false) (hdown : ev.isLeftDown = true → status = .ignored) :
    Turn owner ev h status h es
  | foreign (status : EventStatus) (es : List (ToolEffect P F)) (hes : ∀ e ∈ es, e.edits = false)
      (howner : ∀ obj : DragObject, obj.layer ≠ owner) : Turn owner ev h status h es

/-- A kind of layers, or of tools, that has other ids than the two layers, does not touch their
    handles and changes no price. -/
structure Foreign (σ V P F : Type) [SceneLayer σ]
    [InteractiveLayer σ (Shared V) P F (PriceRange F)] : Prop where
  id_ne : ∀ (l : σ) (obj : DragObject), obj.layer ≠ SceneLayer.id l
  update : ∀ (ev : InputEvent P) (l : σ) (ctx : DragContext V P F),
    (update ev l ctx).2.2.shared.handles = ctx.shared.handles ∧
      ∃ es, (update ev l ctx).2.2.effects = ctx.effects ++ es ∧ ∀ e ∈ es, e.edits = false
  cancel : ∀ (l : σ) (shared : Shared V),
    (cancel P F (PriceRange F) l shared).2.handles = shared.handles

/-- What a turn does to the context that it was given. -/
def Turns (owner : LayerId) (ev : InputEvent P) (ctx : DragContext V P F) (status : EventStatus)
    (ctx' : DragContext V P F) : Prop :=
  ∃ es, ctx'.effects = ctx.effects ++ es ∧
    Turn owner ev ctx.shared.handles status ctx'.shared.handles es

omit [F32 P] [Priced P F] [SceneLayer O] [InteractiveLayer O (Shared V) P F (PriceRange F)] in
theorem Foreign.turns (h : Foreign T V P F) (ev : InputEvent P) (l : T) (ctx : DragContext V P F)
    {owner : LayerId} (howner : owner = SceneLayer.id l ∨
      owner = SceneLayer.id (InteractiveLayer.update ev l ctx).2.1) :
    Turns owner ev ctx (InteractiveLayer.update ev l ctx).1 (InteractiveLayer.update ev l ctx).2.2 := by
  obtain ⟨hhandles, es, heq, hes⟩ := h.update ev l ctx
  refine ⟨es, heq, ?_⟩
  rw [hhandles]
  refine .foreign _ es hes fun obj => ?_
  rcases howner with rfl | rfl <;> exact h.id_ne _ obj

omit [F32 P] [Priced P F] in
/-- A turn that does nothing. -/
theorem Turns.ignored {owner : LayerId} {ev : InputEvent P} (ctx : DragContext V P F)
    (hup : ev.isMouseUp = false) : Turns owner ev ctx .ignored ctx :=
  ⟨[], (List.append_nil _).symm, .rest _ _ (by simp) hup fun _ => rfl⟩

theorem LevelLayer.turns {ev : InputEvent P} (hev : ev.isEscape = false) (l : LevelLayer P F)
    (hl : l.interactive = true) (ctx : DragContext V P F) :
    Turns "levels" ev ctx (l.update ev ctx).1 (l.update ev ctx).2 := by
  have hsame : ctx.effects = ctx.effects ++ [] := (List.append_nil _).symm
  unfold LevelLayer.update
  rw [if_neg (by simp [hl])]
  simp only
  split
  · rename_i pt modifiers
    split
    · exact .ignored ctx rfl
    · rename_i lv target hat
      split_ifs
      · exact .ignored ctx rfl
      · exact ⟨[], hsame, .grab (.level lv.id) rfl rfl⟩
      · exact .ignored ctx rfl
  · rename_i pt modifiers
    split
    · exact .ignored ctx rfl
    · exact ⟨[_], rfl, .rest _ _ (by simp [ToolEffect.edits]) rfl (by simp [InputEvent.isLeftDown])⟩
  · rename_i pt
    split
    · exact .ignored ctx rfl
    · rename_i id hid
      exact ⟨[_], rfl, .move (.level id) _ (by simp [Handles.get, hid]) rfl⟩
  · exact ⟨[], hsame, .release _ rfl⟩
  · simp [InputEvent.isEscape] at hev
  · refine .ignored ctx ?_
    cases ev <;> simp_all [InputEvent.isMouseUp]

theorem OrderBracketLayer.turns {ev : InputEvent P} (hev : ev.isEscape = false)
    (l : OrderBracketLayer P F) (hl : l.interactive = true) (ctx : DragContext V P F) :
    Turns "order-brackets" ev ctx (l.update ev ctx).1 (l.update ev ctx).2 := by
  have hsame : ctx.effects = ctx.effects ++ [] := (List.append_nil _).symm
  unfold OrderBracketLayer.update
  rw [if_neg (by simp [hl])]
  simp only
  split
  · split
    · rename_i id leg hhit
      exact ⟨[], hsame, .grab (.leg id leg) rfl rfl⟩
    · exact .ignored ctx rfl
  · split
    · exact .ignored ctx rfl
    · rename_i id leg hleg
      exact ⟨[_], rfl, .move (.leg id leg) _ (by simp [Handles.get, hleg]) rfl⟩
  · exact ⟨[], hsame, .release _ rfl⟩
  · simp [InputEvent.isEscape] at hev
  · refine .ignored ctx ?_
    cases ev <;> simp_all [InputEvent.isMouseUp]

/-- The two layers, and foreign ones, take turns under the id that they have. -/
theorem Layer.turns (hO : Foreign O V P F) {ev : InputEvent P} (hev : ev.isEscape = false)
    (l : Layer P F O) (hl : SceneLayer.isInteractive l = true) (ctx : DragContext V P F)
    {owner : LayerId} (howner : owner = SceneLayer.id l ∨
      owner = SceneLayer.id (update ev l ctx).2.1) :
    Turns owner ev ctx (update ev l ctx).1 (update ev l ctx).2.2 := by
  cases l with
  | levels l =>
    obtain rfl : owner = "levels" := howner.elim id id
    exact l.turns hev hl ctx
  | brackets l =>
    obtain rfl : owner = "order-brackets" := howner.elim id id
    exact l.turns hev hl ctx
  | other o => exact hO.turns ev o ctx howner

section

omit [F32 P] [Priced P F]

theorem foreign_paintedLayer : Foreign PaintedLayer V P F where
  id_ne l obj := by
    have hid : ∀ l : PaintedLayer, "levels" ≠ SceneLayer.id l ∧ "order-brackets" ≠ SceneLayer.id l := by
      intro l
      cases l <;> decide
    cases obj with
    | level => exact (hid l).1
    | leg => exact (hid l).2
  update _ _ _ := ⟨rfl, [], (List.append_nil _).symm, by simp⟩
  cancel _ _ := rfl

theorem foreign_bracketTool [F64 F] : Foreign (BracketTool P F) V P F where
  id_ne _ obj := by
    have hid : "levels" ≠ "bracket-tool" ∧ "order-brackets" ≠ "bracket-tool" := by decide
    cases obj with
    | level => exact hid.1
    | leg => exact hid.2
  update ev tool ctx := by
    have hnothing : ∃ es, ctx.effects = ctx.effects ++ es ∧ ∀ e ∈ es, e.edits = false :=
      ⟨[], (List.append_nil _).symm, by simp⟩
    change (tool.update ev ctx).2.2.shared.handles = ctx.shared.handles ∧
      ∃ es, (tool.update ev ctx).2.2.effects = ctx.effects ++ es ∧ ∀ e ∈ es, e.edits = false
    unfold BracketTool.update BracketTool.click BracketTool.press
    split
    · split_ifs
      · exact ⟨rfl, hnothing⟩
      · split
        · exact ⟨rfl, hnothing⟩
        · exact ⟨rfl, hnothing⟩
        · exact ⟨rfl, _, List.append_assoc _ [_] [_], by simp [ToolEffect.edits]⟩
        · exact ⟨rfl, [_], rfl, by simp [ToolEffect.edits]⟩
        · exact ⟨rfl, _, List.append_assoc _ [_] [_], by simp [ToolEffect.edits]⟩
    · split
      · split <;> exact ⟨rfl, hnothing⟩
      · split_ifs
        · exact ⟨rfl, [_], rfl, by simp [ToolEffect.edits]⟩
        · exact ⟨rfl, hnothing⟩
        · exact ⟨rfl, hnothing⟩
    · exact ⟨rfl, hnothing⟩
    · exact ⟨rfl, hnothing⟩
  cancel _ _ := rfl

end

/-! ### What an event does to the handles -/

omit [F32 P] [Priced P F] in
/-- While nothing is dragged, a turn can only start a drag. -/
theorem Turn.idle {owner : LayerId} {ev : InputEvent P} {status : EventStatus} {h : Handles}
    {es : List (ToolEffect P F)} (hturn : Turn owner ev .none status h es) :
    (∀ e ∈ es, e.edits = false) ∧ (h = .none ∨ ∃ obj : DragObject, obj.layer = owner ∧
      ev.isLeftDown = true ∧ status = .captured ∧ h = Handles.none.put obj) := by
  cases hturn with
  | grab obj howner hev => exact ⟨by simp, .inr ⟨obj, howner, hev, rfl, rfl⟩⟩
  | move obj price hobj hev => simp at hobj
  | release status hev => exact ⟨by simp, .inl (Handles.clear_none owner)⟩
  | rest status es hes hup hdown => exact ⟨hes, .inl rfl⟩
  | foreign status es hes howner => exact ⟨hes, .inl rfl⟩

/-- Nothing is dragged, and the edits are none, or a left click of this event has started a drag of an
    object on the layer that captured it. -/
def Starts (ev : InputEvent P) (ctx : DragContext V P F) (owner : Option LayerId)
    (ctx' : DragContext V P F) : Prop :=
  (∃ es, ctx'.effects = ctx.effects ++ es ∧ ∀ e ∈ es, e.edits = false) ∧
  (ctx'.shared.handles = .none ∨ ∃ obj : DragObject, owner = some obj.layer ∧ ev.isLeftDown = true ∧
    ctx'.shared.handles = Handles.none.put obj)

omit [F32 P] [Priced P F] in
theorem Starts.refl {ev : InputEvent P} {ctx : DragContext V P F} (h : ctx.shared.handles = .none)
    (owner : Option LayerId) : Starts ev ctx owner ctx :=
  ⟨⟨[], (List.append_nil _).symm, by simp⟩, .inl h⟩

omit [F32 P] [Priced P F] in
theorem Turns.starts {owner : LayerId} {ev : InputEvent P} {ctx ctx' : DragContext V P F}
    {status : EventStatus} (hidle : ctx.shared.handles = .none)
    (h : Turns owner ev ctx status ctx') :
    Starts ev ctx (if status = .captured then some owner else none) ctx' := by
  obtain ⟨es, heq, hturn⟩ := h
  rw [hidle] at hturn
  obtain ⟨hes, hnone | ⟨obj, rfl, hev, rfl, hput⟩⟩ := hturn.idle
  · exact ⟨⟨es, heq, hes⟩, .inl hnone⟩
  · exact ⟨⟨es, heq, hes⟩, .inr ⟨obj, rfl, hev, hput⟩⟩

omit [F32 P] [Priced P F] in
/-- One that does not capture the event leaves it to the next one. -/
theorem Starts.trans {ev : InputEvent P} {ctx ctx' ctx'' : DragContext V P F} {owner : Option LayerId}
    (h : Starts ev ctx none ctx') (h' : ctx'.shared.handles = .none → Starts ev ctx' owner ctx'') :
    Starts ev ctx owner ctx'' := by
  obtain ⟨⟨es, heq, hes⟩, hnone | ⟨obj, howner, -⟩⟩ := h
  · obtain ⟨⟨es', heq', hes'⟩, hhandles⟩ := h' hnone
    refine ⟨⟨es ++ es', by rw [heq', heq, List.append_assoc], ?_⟩, hhandles⟩
    intro e he
    rcases List.mem_append.mp he with he | he
    · exact hes e he
    · exact hes' e he
  · simp at howner

theorem offer_starts (hO : Foreign O V P F) {ev : InputEvent P} (hev : ev.isEscape = false)
    (ls : List (Layer P F O)) {ctx : DragContext V P F} (hidle : ctx.shared.handles = .none) :
    Starts ev ctx (ChartScene.offer ev ls ctx).1 (ChartScene.offer ev ls ctx).2.2 := by
  induction ls generalizing ctx with
  | nil => exact .refl hidle _
  | cons l ls ih =>
    rw [ChartScene.offer]
    split_ifs with hl
    · have hturn := (Layer.turns hO hev l hl ctx (.inr rfl)).starts hidle
      simp only
      split_ifs with hcap
      · rwa [if_pos hcap] at hturn
      · rw [if_neg hcap] at hturn
        exact hturn.trans fun hnone => ih hnone
    · exact ih hidle

theorem offerAll_starts (hO : Foreign O V P F) (hT : Foreign T V P F) {ev : InputEvent P}
    (hev : ev.isEscape = false) (s : ChartScene (Layer P F O) T (Shared V) P F (PriceRange F))
    (hidle : s.ctx.shared.handles = .none) :
    Starts ev s.ctx (s.offerAll ev).1 (s.offerAll ev).2.ctx := by
  unfold ChartScene.offerAll ChartScene.offerTool ChartScene.offerLayers
  cases s.activeTool with
  | none => exact offer_starts hO hev _ hidle
  | some tool =>
    have hturn := (hT.turns ev tool s.ctx (.inr rfl)).starts hidle
    simp only
    split_ifs with hcap
    · rwa [if_pos hcap] at hturn
    · rw [if_neg hcap] at hturn
      exact hturn.trans fun hnone => offer_starts hO hev _ hnone

/-- The layer that has the focus takes a turn, unless there is none. -/
theorem routeToLayer_turns (hO : Foreign O V P F) {ev : InputEvent P} (hev : ev.isEscape = false)
    (target : LayerId) (ls : List (Layer P F O)) (ctx : DragContext V P F) :
    Turns target ev ctx (ChartScene.routeToLayer target ev ls ctx).1
      (ChartScene.routeToLayer target ev ls ctx).2.2 ∨
    ((ChartScene.routeToLayer target ev ls ctx).1 = .ignored ∧
      (ChartScene.routeToLayer target ev ls ctx).2.2 = ctx ∧
      ∀ l ∈ ls, SceneLayer.id l = target → SceneLayer.isInteractive l = false) := by
  induction ls with
  | nil => exact .inr ⟨rfl, rfl, by simp⟩
  | cons l ls ih =>
    rw [ChartScene.routeToLayer]
    split_ifs with hl
    · exact .inl (Layer.turns hO hev l hl.2 ctx (.inl hl.1.symm))
    · rcases ih with hturn | ⟨hst, hctx, hnone⟩
      · exact .inl hturn
      · refine .inr ⟨hst, hctx, fun l' hl' hid => ?_⟩
        rcases List.mem_cons.mp hl' with rfl | hl'
        · simpa [hid] using hl
        · exact hnone l' hl' hid

/-! ### Runs -/

/-- A scene in use. `live` is the object on which the last captured left click started a drag, unless the
    mouse button was let go, Escape was pressed or the window was closed since. -/
structure Editing (T P F O V : Type) where
  scene : ChartScene (Layer P F O) T (Shared V) P F (PriceRange F)
  live : Option DragObject

namespace Editing

/-- Both layers are there, with their handles. -/
def HasHandles (layers : List (Layer P F O)) : Prop :=
  (∃ l : LevelLayer P F, .levels l ∈ layers ∧ l.interactive = true) ∧
  ∃ l : OrderBracketLayer P F, .brackets l ∈ layers ∧ l.interactive = true

/-- The level is shown, and is not locked. -/
def unlocked (layers : List (Layer P F O)) (id : UInt64) : Bool :=
  ((layers.flatMap fun
    | .levels l => l.levels
    | _ => []).find? fun lv => lv.id = id).any fun lv => !lv.locked

inductive Op (T P F O : Type)
  | handleInput (ev : InputEvent P)
  | setActiveTool (tool : T)
  | clearActiveTool
  | onDestroy
  | takeEffects
  /-- The widget builds the layers anew, with the handles that there are. -/
  | rebuild (layers : List (Layer P F O)) (h : HasHandles layers) (range : PriceRange F)

def handles (s : Editing T P F O V) : Handles := s.scene.ctx.shared.handles

/-- The object in the handle of the layer that has the focus. -/
def grabbed (scene : ChartScene (Layer P F O) T (Shared V) P F (PriceRange F)) : Option DragObject :=
  scene.dragFocus.bind scene.ctx.shared.handles.get

def step (s : Editing T P F O V) : Op T P F O → Editing T P F O V
  | .handleInput ev =>
    let r := s.scene.handleInput ev
    { scene := r.2
      live :=
        if ev.isMouseUp ∨ ev.isEscape then none
        else if ev.isLeftDown ∧ r.1 = .captured then grabbed r.2
        else s.live }
  | .setActiveTool tool => { s with scene := s.scene.setActiveTool tool }
  | .clearActiveTool => { s with scene := s.scene.clearActiveTool }
  | .onDestroy => ⟨s.scene.onDestroy, none⟩
  | .takeEffects => { s with scene := s.scene.takeEffects.2 }
  | .rebuild layers _ range =>
    { s with
      scene := { s.scene with layers := layers, ctx := { s.scene.ctx with priceRange := range } } }

/-- What the step puts on the queue. -/
def emits (s : Editing T P F O V) (op : Op T P F O) : List (ToolEffect P F) :=
  (s.step op).scene.ctx.effects.drop s.scene.ctx.effects.length

/-- A price is edited only of the object that is being dragged, and of no level that is locked or not
    shown. -/
def Honest (s : Editing T P F O V) : ToolEffect P F → Prop
  | .updateLevel id _ => s.live = some (.level id) ∧ unlocked s.scene.layers id = true
  | .updateBracketLeg id role _ => ∃ leg : LegKind, leg.role = role ∧ s.live = some (.leg id leg)
  | _ => True

/-- All edits of the step are honest, and at most one object is dragged after it. -/
def InsideDrag (s : Editing T P F O V) (op : Op T P F O) : Prop :=
  (∀ e ∈ s.emits op, s.Honest e) ∧
    ((s.step op).handles.level = none ∨ (s.step op).handles.bracket = none)

/-- Escape is pressed and the window is closed only while nothing is dragged, and the mouse drags no
    level that was locked or removed. -/
def Settles (s : Editing T P F O V) : Op T P F O → Prop
  | .handleInput ev =>
    (ev.isEscape = true → s.handles = .none) ∧
    (ev.isMouseMove = true → s.handles.level.all (unlocked s.scene.layers) = true)
  | .onDestroy => s.handles = .none
  | _ => True

instance (s : Editing T P F O V) : DecidablePred s.Settles
  | .handleInput ev => inferInstanceAs (Decidable ((ev.isEscape = true → s.handles = .none) ∧
      (ev.isMouseMove = true → s.handles.level.all (unlocked s.scene.layers) = true)))
  | .onDestroy => inferInstanceAs (Decidable (s.handles = .none))
  | .setActiveTool _ | .clearActiveTool | .takeEffects | .rebuild .. => isTrue trivial

/-- What is in a handle is what is dragged, and the focus is on its layer. -/
def Held (h : Handles) (focus : Option LayerId) (live : Option DragObject) : Prop :=
  h = .none ∧ live = none ∨
    ∃ obj : DragObject, h = Handles.none.put obj ∧ focus = some obj.layer ∧ live = some obj

structure Sound (s : Editing T P F O V) : Prop where
  hasHandles : HasHandles s.scene.layers
  held : Held s.handles s.scene.dragFocus s.live

def start (layers : List (Layer P F O)) (range : PriceRange F) (others : V) : Editing T P F O V :=
  ⟨.build layers range ⟨.none, others⟩, none⟩

/-! ### What the steps keep -/

theorem Held.one {h : Handles} {focus : Option LayerId} {live : Option DragObject}
    (hheld : Held h focus live) : h.level = none ∨ h.bracket = none := by
  rcases hheld with ⟨rfl, -⟩ | ⟨obj, rfl, -⟩
  · exact .inl rfl
  · cases obj with
    | level id => exact .inr rfl
    | leg id leg => exact .inl rfl

omit [F32 P] [Priced P F] in
/-- A turn of the layer that has the focus. -/
theorem Held.turn {target : LayerId} {ev : InputEvent P} {status : EventStatus} {h h' : Handles}
    {es : List (ToolEffect P F)} {live : Option DragObject} (hheld : Held h (some target) live)
    (hturn : Turn target ev h status h' es) :
    Held h' (if ev.isMouseUp then none else some target)
      (if ev.isMouseUp then none
        else if ev.isLeftDown ∧ status = .captured then h'.get target else live) := by
  cases hturn with
  | grab obj howner hev =>
    have hup := (InputEvent.of_isLeftDown hev).1
    refine .inr ⟨obj, ?_, by simp [hup, howner], by simp [hup, hev, ← howner]⟩
    rcases hheld with ⟨rfl, -⟩ | ⟨obj', rfl, hfocus, -⟩
    · rfl
    · exact Handles.put_put ((Option.some_inj.mp hfocus).symm.trans howner.symm)
  | move obj price hobj hev =>
    obtain ⟨hup, hdown⟩ := InputEvent.of_isMouseMove hev
    simpa [hup, hdown] using hheld
  | release status hev =>
    refine .inl ⟨?_, by simp [hev]⟩
    rcases hheld with ⟨rfl, -⟩ | ⟨obj', rfl, hfocus, -⟩
    · exact Handles.clear_none target
    · obtain rfl := Option.some_inj.mp hfocus
      exact Handles.clear_put obj'
  | rest status es hes hup hdown =>
    have hleft : ¬(ev.isLeftDown = true ∧ status = .captured) := by
      rintro ⟨hleft, rfl⟩
      simpa using hdown hleft
    simpa [hup, hleft] using hheld
  | foreign status es hes howner =>
    rcases hheld with ⟨rfl, rfl⟩ | ⟨obj', rfl, hfocus, -⟩
    · refine .inl ⟨rfl, ?_⟩
      split_ifs <;> simp
    · exact absurd (Option.some_inj.mp hfocus).symm (howner obj')

omit [F32 P] [Priced P F] in
/-- The price that such a turn edits is that of the object that is dragged. -/
theorem Held.edits {target : LayerId} {ev : InputEvent P} {status : EventStatus} {h h' : Handles}
    {es : List (ToolEffect P F)} {live : Option DragObject} (hheld : Held h (some target) live)
    (hturn : Turn target ev h status h' es) {e : ToolEffect P F} (he : e ∈ es)
    (hedits : e.edits = true) :
    ev.isMouseMove = true ∧
      ∃ (obj : DragObject) (price : F), e = obj.edit price ∧ live = some obj ∧
        h = Handles.none.put obj := by
  cases hturn with
  | grab => simp at he
  | move obj price hobj hev =>
    refine ⟨hev, obj, price, List.mem_singleton.mp he, ?_⟩
    rcases hheld with ⟨rfl, -⟩ | ⟨obj', rfl, hfocus, hlive⟩
    · simp at hobj
    · obtain rfl := Option.some_inj.mp hfocus
      rw [Handles.get_put] at hobj
      obtain rfl := Option.some_inj.mp hobj
      exact ⟨hlive, rfl⟩
  | release => simp at he
  | rest status es hes hup hdown => simp [hes e he] at hedits
  | foreign status es hes howner => simp [hes e he] at hedits

omit [F32 P] [Priced P F] [SceneLayer O] [InteractiveLayer O (Shared V) P F (PriceRange F)]
  [SceneLayer T] [InteractiveLayer T (Shared V) P F (PriceRange F)] in
theorem honest_of_not_edits {s : Editing T P F O V} {e : ToolEffect P F} (h : e.edits = false) :
    s.Honest e := by
  cases e <;> simp_all [Honest, ToolEffect.edits]

theorem emits_eq {s : Editing T P F O V} {op : Op T P F O} (es : List (ToolEffect P F))
    (h : (s.step op).scene.ctx.effects = s.scene.ctx.effects ++ es) : s.emits op = es := by
  rw [emits, h, List.drop_left]

theorem HasHandles.handleInput {scene : ChartScene (Layer P F O) T (Shared V) P F (PriceRange F)}
    (h : HasHandles scene.layers) (ev : InputEvent P) :
    HasHandles (scene.handleInput ev).2.layers := by
  obtain ⟨⟨l, hl, hinteractive⟩, b, hb, hinteractive'⟩ := h
  exact ⟨⟨l, ChartScene.mem_handleInput (fun _ => rfl) hl, hinteractive⟩,
    b, ChartScene.mem_handleInput (fun _ => rfl) hb, hinteractive'⟩

theorem routeToId_turns (hO : Foreign O V P F) (hT : Foreign T V P F) {ev : InputEvent P}
    (hev : ev.isEscape = false) (target : LayerId)
    {scene : ChartScene (Layer P F O) T (Shared V) P F (PriceRange F)}
    (h : HasHandles scene.layers) :
    Turns target ev scene.ctx (scene.routeToId target ev).1 (scene.routeToId target ev).2.ctx := by
  unfold ChartScene.routeToId
  split
  · rename_i tool htool
    obtain ⟨-, hid⟩ := Option.filter_eq_some_iff.mp htool
    exact hT.turns ev tool scene.ctx (.inl (of_decide_eq_true hid).symm)
  · rcases routeToLayer_turns hO hev target scene.layers scene.ctx with hturn | ⟨hst, hctx, hnone⟩
    · exact hturn
    · -- Both layers are there, so the focus is not on one of them.
      obtain ⟨⟨l, hl, hinteractive⟩, b, hb, hinteractive'⟩ := h
      have hforeign : ∀ obj : DragObject, obj.layer ≠ target := by
        rintro (id | ⟨id, leg⟩) rfl
        · exact Bool.false_ne_true ((hnone _ hl rfl).symm.trans hinteractive)
        · exact Bool.false_ne_true ((hnone _ hb rfl).symm.trans hinteractive')
      simp only [hst, hctx]
      exact ⟨[], (List.append_nil _).symm, .foreign _ _ (by simp) hforeign⟩

variable {s : Editing T P F O V} {op : Op T P F O}

theorem handleInput_focused (hO : Foreign O V P F) (hT : Foreign T V P F) (h : s.Sound)
    {ev : InputEvent P} (hev : ev.isEscape = false) {target : LayerId}
    (hfocus : s.scene.dragFocus = some target) (hop : s.Settles (.handleInput ev)) :
    Held (s.step (.handleInput ev)).handles (s.step (.handleInput ev)).scene.dragFocus
        (s.step (.handleInput ev)).live ∧
      ∀ e ∈ s.emits (.handleInput ev), s.Honest e := by
  obtain ⟨es, heq, hturn⟩ := routeToId_turns hO hT hev target h.hasHandles
  have hheld := h.held
  rw [hfocus] at hheld
  have hinput := ChartScene.handleInput_of_focus hev hfocus
  constructor
  · have hafter := hheld.turn hturn
    have hlive : (s.step (.handleInput ev)).live =
        if ev.isMouseUp then none
        else if ev.isLeftDown ∧ (s.scene.routeToId target ev).1 = .captured then
          (s.scene.routeToId target ev).2.ctx.shared.handles.get target
        else s.live := by
      simp only [step, hinput, hev, Bool.false_eq_true, or_false, grabbed]
      split_ifs <;> rfl
    have hscene : (s.step (.handleInput ev)).scene = (s.scene.handleInput ev).2 := rfl
    rw [hlive, handles, hscene, hinput]
    exact hafter
  · rw [emits_eq es (by rw [step, hinput]; exact heq)]
    intro e he
    cases hedits : e.edits with
    | false => exact honest_of_not_edits hedits
    | true =>
      obtain ⟨hmove, obj, price, rfl, hlive, hput⟩ := hheld.edits hturn he hedits
      cases obj with
      | level id =>
        have hlevel : s.handles.level = some id := congrArg Handles.level hput
        have hunlocked := hop.2 hmove
        rw [hlevel] at hunlocked
        exact ⟨hlive, hunlocked⟩
      | leg id leg => exact ⟨leg, rfl, hlive⟩

theorem handleInput_unfocused (hO : Foreign O V P F) (hT : Foreign T V P F) (h : s.Sound)
    {ev : InputEvent P} (hev : ev.isEscape = false) (hfocus : s.scene.dragFocus = none) :
    Held (s.step (.handleInput ev)).handles (s.step (.handleInput ev)).scene.dragFocus
        (s.step (.handleInput ev)).live ∧
      ∀ e ∈ s.emits (.handleInput ev), s.Honest e := by
  have hinput := ChartScene.handleInput_of_no_focus hev hfocus
  have hidle : s.handles = .none ∧ s.live = none := by
    rcases h.held with hnone | ⟨obj, -, hobj, -⟩
    · exact hnone
    · simp [hfocus] at hobj
  obtain ⟨⟨es, heq, hes⟩, hhandles⟩ := offerAll_starts hO hT hev s.scene hidle.1
  constructor
  · have hscene : (s.step (.handleInput ev)).scene = (s.scene.handleInput ev).2 := rfl
    rcases hhandles with hnone | ⟨obj, howner, hdown, hput⟩
    · refine .inl ⟨by rw [handles, hscene, hinput]; exact hnone, ?_⟩
      simp only [step, hinput, hidle.2, grabbed, hnone]
      split_ifs <;> simp
    · -- The event is the click that starts the drag, and the layer that captured it gets the focus.
      obtain ⟨hup, hmouse⟩ := InputEvent.of_isLeftDown hdown
      refine .inr ⟨obj, by rw [handles, hscene, hinput]; exact hput, ?_, ?_⟩
      · rw [hscene, hinput]
        simp [hmouse, howner]
      · simp [step, hinput, hev, hup, hdown, howner, grabbed, hmouse, hput]
  · rw [emits_eq es (by rw [step, hinput]; exact heq)]
    exact fun e he => honest_of_not_edits (hes e he)

omit [F32 P] [Priced P F] [SceneLayer O] [InteractiveLayer O (Shared V) P F (PriceRange F)] in
theorem handles_clearActiveTool (hT : Foreign T V P F)
    (scene : ChartScene (Layer P F O) T (Shared V) P F (PriceRange F)) :
    scene.clearActiveTool.ctx.shared.handles = scene.ctx.shared.handles := by
  unfold ChartScene.clearActiveTool
  split
  · rfl
  · exact hT.cancel _ _

/-- A step that the user does not see: the handles, the focus and the queue stay. -/
theorem kept_of_quiet (h : s.Sound) (hlayers : HasHandles (s.step op).scene.layers)
    (hhandles : (s.step op).handles = s.handles)
    (hfocus : (s.step op).scene.dragFocus = s.scene.dragFocus) (hlive : (s.step op).live = s.live)
    (heffects : (s.step op).scene.ctx.effects = s.scene.ctx.effects) :
    (s.step op).Sound ∧ s.InsideDrag op := by
  have hheld : Held (s.step op).handles (s.step op).scene.dragFocus (s.step op).live := by
    rw [hhandles, hfocus, hlive]
    exact h.held
  refine ⟨⟨hlayers, hheld⟩, ?_, hheld.one⟩
  rw [emits_eq [] (by rw [heffects, List.append_nil])]
  simp

theorem Sound.step (hO : Foreign O V P F) (hT : Foreign T V P F) (h : s.Sound) (hop : s.Settles op) :
    (s.step op).Sound ∧ s.InsideDrag op := by
  cases op with
  | handleInput ev =>
    have hlayers : HasHandles (s.step (.handleInput ev)).scene.layers := h.hasHandles.handleInput ev
    suffices hboth : Held (s.step (.handleInput ev)).handles (s.step (.handleInput ev)).scene.dragFocus
        (s.step (.handleInput ev)).live ∧ ∀ e ∈ s.emits (.handleInput ev), s.Honest e from
      ⟨⟨hlayers, hboth.1⟩, hboth.2, hboth.1.one⟩
    cases hev : ev.isEscape with
    | true =>
      have hinput := ChartScene.handleInput_of_escape (s := s.scene) hev
      have hscene : (s.step (.handleInput ev)).scene = (s.scene.handleInput ev).2 := rfl
      refine ⟨.inl ⟨?_, by simp [Editing.step, hev]⟩, ?_⟩
      · rw [handles, hscene, hinput]
        exact (handles_clearActiveTool hT s.scene).trans (hop.1 hev)
      · rw [emits_eq [] (by rw [hscene, hinput, List.append_nil]; simp)]
        simp
    | false =>
      cases hfocus : s.scene.dragFocus with
      | some target => exact handleInput_focused hO hT h hev hfocus hop
      | none => exact handleInput_unfocused hO hT h hev hfocus
  | setActiveTool tool =>
    exact kept_of_quiet h (by simpa [Editing.step, ChartScene.setActiveTool] using h.hasHandles)
      (handles_clearActiveTool hT s.scene) (by simp [Editing.step, ChartScene.setActiveTool]) rfl
      (by simp [Editing.step, ChartScene.setActiveTool])
  | clearActiveTool =>
    exact kept_of_quiet h (by simpa [Editing.step] using h.hasHandles)
      (handles_clearActiveTool hT s.scene) (by simp [Editing.step]) rfl (by simp [Editing.step])
  | onDestroy =>
    have hnone : (s.step .onDestroy).handles = .none :=
      (handles_clearActiveTool hT s.scene).trans hop
    refine ⟨⟨by simpa [Editing.step, ChartScene.onDestroy] using h.hasHandles, .inl ⟨hnone, rfl⟩⟩, ?_,
      .inl (by rw [hnone]; rfl)⟩
    rw [emits_eq [] (by simp [Editing.step, ChartScene.onDestroy])]
    simp
  | takeEffects =>
    refine ⟨⟨h.hasHandles, h.held⟩, ?_, h.held.one⟩
    simp [emits, Editing.step, ChartScene.takeEffects]
  | rebuild layers hlayers range => exact kept_of_quiet h hlayers rfl rfl rfl rfl

omit [SceneLayer O] [InteractiveLayer O (Shared V) P F (PriceRange F)] [SceneLayer T]
  [InteractiveLayer T (Shared V) P F (PriceRange F)] [F32 P] [Priced P F] in
theorem sound_start {layers : List (Layer P F O)} (hlayers : HasHandles layers) (range : PriceRange F)
    (others : V) : (start layers range others : Editing T P F O V).Sound :=
  ⟨hlayers, .inl ⟨rfl, rfl⟩⟩

/-- In a run in which every drag ends with the mouse button, prices are edited inside drags only. -/
theorem edits_inside_drags (hO : Foreign O V P F) (hT : Foreign T V P F) {layers : List (Layer P F O)}
    (hlayers : HasHandles layers) (range : PriceRange F) (others : V) (ops : List (Op T P F O))
    (h : AllSteps step Settles (start layers range others : Editing T P F O V) ops) :
    AllSteps step InsideDrag (start layers range others : Editing T P F O V) ops := by
  have hiff : ∀ (s : Editing T P F O V) op, s.Sound →
      (s.Settles op ↔ s.Settles op ∧ s.InsideDrag op) := by
    intro s op hs
    exact ⟨fun hop => ⟨hop, (hs.step hO hT hop).2⟩, And.left⟩
  intro pre op hpre
  exact ((allSteps_congr step (fun s op hs hop => (hs.step hO hT hop).1) hiff
    (sound_start hlayers range others) ops).mp h pre op hpre).2

/-! ### Runs with one level -/

instance : F32 ℚ where
  lit n := n
  abs q := |q|
  isFinite _ := true
  decidableLE := inferInstance
  decidableLT := inferInstance

/-- Zero stands for no number. -/
instance : F64 ℚ := ⟨0, fun q => q ≠ 0⟩

instance : Priced ℚ ℚ where
  sub := (· - ·)
  mul := (· * ·)
  div := (· / ·)
  nonpos q := decide (q ≤ 0)
  widen := id
  narrow := id

/-- A level at 100 in a viewport that shows the prices from 0 to 200, one in a pixel, and a bracket. -/
def oneLevel : List (Layer ℚ ℚ PaintedLayer) :=
  [.other .candles, .brackets ⟨[⟨3, 50, some 60, some 40⟩], true, 300, 200⟩,
    .levels ⟨[⟨7, 100, false⟩], true, 300, 200⟩]

def press (x y : ℚ) : Op (BracketTool ℚ ℚ) ℚ ℚ PaintedLayer :=
  .handleInput (.mouseDown .left ⟨x, y⟩ ⟨false, false, false, false⟩)

def move (x y : ℚ) : Op (BracketTool ℚ ℚ) ℚ ℚ PaintedLayer := .handleInput (.mouseMove ⟨x, y⟩)

def release (x y : ℚ) : Op (BracketTool ℚ ℚ) ℚ ℚ PaintedLayer :=
  .handleInput (.mouseUp .left ⟨x, y⟩)

def escape : Op (BracketTool ℚ ℚ) ℚ ℚ PaintedLayer :=
  .handleInput (.keyDown .escape ⟨false, false, false, false⟩)

def chart : Editing (BracketTool ℚ ℚ) ℚ ℚ PaintedLayer Unit := start oneLevel ⟨0, 200⟩ ()

/-- The level is dragged and let go, and then the target of the bracket. -/
theorem edits_inside_drags_twoDrags : AllSteps step InsideDrag chart
    [press 50 100, move 50 80, release 50 80, press 298 140, move 298 120, release 298 120, escape] := by
  refine edits_inside_drags foreign_paintedLayer foreign_bracketTool ?_ _ _ _ ?_
  · exact ⟨⟨_, by simp [oneLevel]; rfl, rfl⟩, _, by simp [oneLevel]; rfl, rfl⟩
  · simp only [allSteps_cons, allSteps_nil, and_true]
    decide +kernel

/-- After Escape the level that was dragged still follows the mouse. -/
theorem stale_handle_edits :
    ¬AllSteps step InsideDrag chart [press 50 100, escape, move 50 80] := by
  intro h
  have hmove := (h [press 50 100, escape] (move 50 80) ⟨[], rfl⟩).1
  have hemits : (run step chart [press 50 100, escape]).emits (move 50 80) = [.updateLevel 7 120] := by
    decide +kernel
  rw [hemits] at hmove
  have hlive := (hmove _ (List.mem_singleton_self _)).1
  revert hlive
  decide +kernel

end Editing

end Midas.Scene
