import HandOfMidas.Lib.Run
import HandOfMidas.Scene.ChartScene

/-! The tool that places an order bracket with three clicks: on the entry, the target and the stop. What
    it emits are episodes, each from the begin of a draft to its commit or cancel, and a cancel more for
    each time that it is stopped before its first click. -/

namespace Midas.Scene

/-- The numbers that prices are: one may be no number, or infinite. -/
class F64 (F : Type) where
  nan : F
  isFinite : F → Bool

inductive BracketToolMode (F : Type)
  | idle
  | awaitingEntry (side : Side)
  | awaitingTarget (side : Side) (entry : F)
  | awaitingStop (side : Side) (entry target : F)
  | complete

structure BracketTool (P F : Type) where
  mode : BracketToolMode F
  previewPrice : F
  cursorYPx : Option P

namespace BracketTool

variable {W P F R : Type}

def awaitingEntry [F64 F] (side : Side) : BracketTool P F := ⟨.awaitingEntry side, F64.nan, none⟩

def idle [F64 F] : BracketTool P F := ⟨.idle, F64.nan, none⟩

def updatePreview (price : F) (cursorYPx : P) (tool : BracketTool P F) : BracketTool P F :=
  { tool with previewPrice := price, cursorYPx := some cursorYPx }

def isPlacing (tool : BracketTool P F) : Bool :=
  match tool.mode with
  | .idle | .complete => false
  | _ => true

def classifySideToggle : Key → Option Side
  | .char c =>
    match c.toUpper with
    | 'L' | 'B' => some .long
    | 'S' => some .short
    | _ => none
  | _ => none

/-- A left click at the price of the preview. -/
def click [F64 F] (tool : BracketTool P F) (ctx : ToolContext W P F R) :
    EventStatus × BracketTool P F × ToolContext W P F R :=
  if F64.isFinite tool.previewPrice = false then (.ignored, tool, ctx)
  else
    let price := tool.previewPrice
    match tool.mode with
    | .idle | .complete => (.ignored, tool, ctx)
    | .awaitingEntry side =>
      (.captured, { tool with mode := .awaitingTarget side price },
        (ctx.emitEffect (.beginDraftBracket side price)).emitEffect (.setDraftLeg .entry price))
    | .awaitingTarget side entry =>
      (.captured, { tool with mode := .awaitingStop side entry price },
        ctx.emitEffect (.setDraftLeg .tp price))
    | .awaitingStop _ _ _ =>
      (.captured, { tool with mode := .complete },
        (ctx.emitEffect (.setDraftLeg .sl price)).emitEffect .commitDraftBracket)

def press (key : Key) (tool : BracketTool P F) (ctx : ToolContext W P F R) :
    EventStatus × BracketTool P F × ToolContext W P F R :=
  match classifySideToggle key with
  | some side =>
    match tool.mode with
    | .idle | .awaitingEntry _ => (.captured, { tool with mode := .awaitingEntry side }, ctx)
    | _ => (.ignored, tool, ctx)
  | none =>
    if key = .escape then
      (.captured, { tool with mode := .idle },
        if tool.isPlacing then ctx.emitEffect .cancelDraftBracket else ctx)
    else (.ignored, tool, ctx)

def update [F64 F] (ev : InputEvent P) (tool : BracketTool P F) (ctx : ToolContext W P F R) :
    EventStatus × BracketTool P F × ToolContext W P F R :=
  match ev with
  | .mouseDown .left _ _ => tool.click ctx
  | .keyDown key _ => tool.press key ctx
  | .cursorLeft => (.ignored, { tool with cursorYPx := none }, ctx)
  | _ => (.ignored, tool, ctx)

/-- Without a context there is no queue to put an effect on. -/
def cancel [F64 F] (_ : BracketTool P F) : BracketTool P F := ⟨.idle, F64.nan, none⟩

/-- `cancel_with_effect`, on a queue from outside. -/
def cancelWithEffect [F64 F] (tool : BracketTool P F) (effects : List (ToolEffect P F)) :
    BracketTool P F × List (ToolEffect P F) :=
  (tool.cancel, if tool.isPlacing then effects ++ [.cancelDraftBracket] else effects)

def continuePlacingWith (side : Side) (tool : BracketTool P F) : BracketTool P F :=
  match tool.mode with
  | .complete => { tool with mode := .awaitingEntry side }
  | _ => tool

def side (tool : BracketTool P F) : Option Side :=
  match tool.mode with
  | .idle | .complete => none
  | .awaitingEntry side | .awaitingTarget side _ | .awaitingStop side _ _ => some side

instance : SceneLayer (BracketTool P F) := ⟨fun _ => "bracket-tool", fun _ => true⟩

instance [F64 F] : InteractiveLayer (BracketTool P F) W P F R :=
  ⟨update, fun tool shared => (tool.cancel, shared)⟩

end BracketTool

/-! ### Episodes -/

/-- A draft with the legs that have been set, in their order. -/
structure Episode (F : Type) [F64 F] where
  side : Side
  entry : F
  legs : List (LegRole × F)
  ordered : legs.map Prod.fst <+: [.entry, .tp, .sl]
  finite : F64.isFinite entry = true ∧ ∀ leg ∈ legs, F64.isFinite leg.2 = true

namespace Episode

variable {P F : Type} [F64 F]

def roles (e : Episode F) : List LegRole := e.legs.map Prod.fst

def effects (e : Episode F) : List (ToolEffect P F) :=
  .beginDraftBracket e.side e.entry :: e.legs.map fun leg => .setDraftLeg leg.1 leg.2

/-- The draft of the first click. -/
def start (side : Side) (price : F) (h : F64.isFinite price = true) : Episode F where
  side := side
  entry := price
  legs := [(.entry, price)]
  ordered := ⟨[.tp, .sl], rfl⟩
  finite := ⟨h, by simpa using h⟩

/-- One leg more. -/
def add (e : Episode F) (role : LegRole) (price : F) (h : F64.isFinite price = true)
    (hrole : e.roles ++ [role] <+: [.entry, .tp, .sl]) : Episode F where
  side := e.side
  entry := e.entry
  legs := e.legs ++ [(role, price)]
  ordered := by simpa [roles] using hrole
  finite := by
    refine ⟨e.finite.1, fun leg hleg => ?_⟩
    rcases List.mem_append.mp hleg with hleg | hleg
    · exact e.finite.2 leg hleg
    · rw [List.mem_singleton.mp hleg]
      exact h

end Episode

/-- A part of what the tool emits. -/
inductive Part (F : Type) [F64 F]
  | committed (e : Episode F) (full : e.roles = [.entry, .tp, .sl])
  | cancelled (e : Episode F)
  /-- A cancel without a draft. -/
  | stray

namespace Part

variable {P F : Type} [F64 F]

def effects : Part F → List (ToolEffect P F)
  | committed e _ => e.effects ++ [.commitDraftBracket]
  | cancelled e => e.effects ++ [.cancelDraftBracket]
  | stray => [.cancelDraftBracket]

def isStray : Part F → Bool
  | stray => true
  | _ => false

end Part

/-! ### Runs -/

inductive ToolCall (P F : Type)
  | input (ev : InputEvent P)
  | updatePreview (price : F) (cursorYPx : P)
  | continuePlacingWith (side : Side)
  | cancelWithEffect

/-- A tool, and the context with all effects that it has emitted. -/
abbrev Placed (W P F R : Type) := BracketTool P F × ToolContext W P F R

namespace Placed

variable {W P F R : Type} [F64 F]

def step (s : Placed W P F R) : ToolCall P F → Placed W P F R
  | .input ev => (s.1.update ev s.2).2
  | .updatePreview price cursorYPx => (s.1.updatePreview price cursorYPx, s.2)
  | .continuePlacingWith side => (s.1.continuePlacingWith side, s.2)
  | .cancelWithEffect =>
    let r := s.1.cancelWithEffect s.2.effects
    (r.1, { s.2 with effects := r.2 })

/-- The call stops a tool that waits for its first click. -/
def stops (s : Placed W P F R) : ToolCall P F → Bool
  | .input (.keyDown .escape _) | .cancelWithEffect =>
    match s.1.mode with
    | .awaitingEntry _ => true
    | _ => false
  | _ => false

/-- How often the calls do this. -/
def stopped : Placed W P F R → List (ToolCall P F) → ℕ
  | _, [] => 0
  | s, call :: calls => (s.stops call).toNat + stopped (s.step call) calls

end Placed

/-! ### What a call does -/

namespace BracketToolMode

variable {P F : Type}

def hasDraft : BracketToolMode F → Bool
  | awaitingTarget _ _ | awaitingStop _ _ _ => true
  | _ => false

/-- All that a call does: to the mode, on the queue, and whether it stops a tool before its first
    click. -/
inductive Turn [F64 F] :
    BracketToolMode F → BracketToolMode F → List (ToolEffect P F) → Bool → Prop
  | stays (m : BracketToolMode F) : Turn m m [] false
  | quiet {m m' : BracketToolMode F} (h : m.hasDraft = false) (h' : m'.hasDraft = false) :
    Turn m m' [] false
  | begins (side : Side) {price : F} (h : F64.isFinite price = true) :
    Turn (awaitingEntry side) (awaitingTarget side price)
      [.beginDraftBracket side price, .setDraftLeg .entry price] false
  | setsTarget (side : Side) (entry : F) {price : F} (h : F64.isFinite price = true) :
    Turn (awaitingTarget side entry) (awaitingStop side entry price) [.setDraftLeg .tp price] false
  | commits (side : Side) (entry target : F) {price : F} (h : F64.isFinite price = true) :
    Turn (awaitingStop side entry target) complete
      [.setDraftLeg .sl price, .commitDraftBracket] false
  | cancels {m : BracketToolMode F} (h : m.hasDraft = true) : Turn m idle [.cancelDraftBracket] false
  | strays (side : Side) : Turn (awaitingEntry side) idle [.cancelDraftBracket] true

end BracketToolMode

namespace Placed

variable {W P F R : Type} [F64 F]

open BracketToolMode (Turn)

theorem click_turn (tool : BracketTool P F) (ctx : ToolContext W P F R) :
    ∃ es, (tool.click ctx).2.2.effects = ctx.effects ++ es ∧
      Turn tool.mode (tool.click ctx).2.1.mode es false := by
  obtain ⟨mode, price, cursor⟩ := tool
  unfold BracketTool.click
  split_ifs with hfin
  · exact ⟨[], (List.append_nil _).symm, .stays mode⟩
  · have hprice : F64.isFinite price = true := by simpa using hfin
    cases mode with
    | idle => exact ⟨[], (List.append_nil _).symm, .stays _⟩
    | complete => exact ⟨[], (List.append_nil _).symm, .stays _⟩
    | awaitingEntry side => exact ⟨_, List.append_assoc _ [_] [_], .begins side hprice⟩
    | awaitingTarget side entry => exact ⟨[_], rfl, .setsTarget side entry hprice⟩
    | awaitingStop side entry target =>
      exact ⟨_, List.append_assoc _ [_] [_], .commits side entry target hprice⟩

/-- Escape and `cancel_with_effect` alike. -/
theorem cancel_turn (tool : BracketTool P F) : ∃ es : List (ToolEffect P F),
    (if tool.isPlacing then [.cancelDraftBracket] else []) = es ∧
      Turn tool.mode .idle es (match tool.mode with | .awaitingEntry _ => true | _ => false) := by
  refine ⟨_, rfl, ?_⟩
  unfold BracketTool.isPlacing
  cases tool.mode with
  | idle => exact .stays _
  | complete => exact .quiet rfl rfl
  | awaitingEntry side => exact .strays side
  | awaitingTarget side entry => exact .cancels rfl
  | awaitingStop side entry target => exact .cancels rfl

theorem press_turn (key : Key) (modifiers : Modifiers) (tool : BracketTool P F)
    (ctx : ToolContext W P F R) : ∃ es, (tool.press key ctx).2.2.effects = ctx.effects ++ es ∧
      Turn tool.mode (tool.press key ctx).2.1.mode es
        (stops (tool, ctx) (.input (.keyDown key modifiers))) := by
  have hfalse : key ≠ .escape → stops (tool, ctx) (.input (.keyDown key modifiers)) = false := by
    intro hkey
    cases key <;> first | rfl | exact absurd rfl hkey
  unfold BracketTool.press
  cases htoggle : BracketTool.classifySideToggle key with
  | some side =>
    have hkey : key ≠ .escape := by
      rintro rfl
      exact nomatch htoggle
    rw [hfalse hkey]
    obtain ⟨mode, price, cursor⟩ := tool
    cases mode with
    | idle => exact ⟨[], (List.append_nil _).symm, .quiet rfl rfl⟩
    | awaitingEntry side' => exact ⟨[], (List.append_nil _).symm, .quiet rfl rfl⟩
    | _ => exact ⟨[], (List.append_nil _).symm, .stays _⟩
  | none =>
    simp only
    split_ifs with hkey hplacing
    · subst hkey
      obtain ⟨es, hes, hturn⟩ := cancel_turn tool
      rw [if_pos hplacing] at hes
      exact ⟨es, hes ▸ rfl, hturn⟩
    · subst hkey
      obtain ⟨es, hes, hturn⟩ := cancel_turn tool
      rw [if_neg hplacing] at hes
      exact ⟨es, hes ▸ (List.append_nil _).symm, hturn⟩
    · rw [hfalse hkey]
      exact ⟨[], (List.append_nil _).symm, .stays _⟩

theorem step_turn (s : Placed W P F R) (call : ToolCall P F) : ∃ es,
    (s.step call).2.effects = s.2.effects ++ es ∧
      Turn s.1.mode (s.step call).1.mode es (s.stops call) := by
  obtain ⟨tool, ctx⟩ := s
  cases call with
  | updatePreview price cursorYPx => exact ⟨[], (List.append_nil _).symm, .stays _⟩
  | continuePlacingWith side =>
    refine ⟨[], (List.append_nil _).symm, ?_⟩
    obtain ⟨mode, price, cursor⟩ := tool
    cases mode with
    | complete => exact .quiet rfl rfl
    | _ => exact .stays _
  | cancelWithEffect =>
    obtain ⟨es, hes, hturn⟩ := cancel_turn tool
    refine ⟨es, ?_, hturn⟩
    subst hes
    simp only [step, BracketTool.cancelWithEffect]
    split_ifs
    · rfl
    · exact (List.append_nil _).symm
  | input ev =>
    cases ev with
    | mouseDown button pt modifiers =>
      cases button with
      | left => exact click_turn tool ctx
      | _ => exact ⟨[], (List.append_nil _).symm, .stays _⟩
    | keyDown key modifiers => exact press_turn key modifiers tool ctx
    | _ => exact ⟨[], (List.append_nil _).symm, .stays _⟩

/-! ### What is emitted -/

/-- The draft that is open in a mode. -/
def Shows : BracketToolMode F → Option (Episode F) → Prop
  | .awaitingTarget side _, some e => e.side = side ∧ e.roles = [.entry]
  | .awaitingStop side _ _, some e => e.side = side ∧ e.roles = [.entry, .tp]
  | .idle, none | .awaitingEntry _, none | .complete, none => True
  | _, _ => False

/-- The effects are whole episodes, as many cancels without a draft among them as said, and the begin
    of the episode that is still open. -/
def Told (s : Placed W P F R) (strays : ℕ) : Prop :=
  ∃ (parts : List (Part F)) (last : Option (Episode F)),
    s.2.effects = parts.flatMap Part.effects ++ last.elim [] Episode.effects ∧
      parts.countP Part.isStray = strays ∧ Shows s.1.mode last

theorem shows_none {mode : BracketToolMode F} {last : Option (Episode F)} (h : Shows mode last)
    (hmode : mode.hasDraft = false) : last = none := by
  cases mode <;> cases last <;> simp_all [Shows, BracketToolMode.hasDraft]

theorem shows_some {mode : BracketToolMode F} {last : Option (Episode F)} (h : Shows mode last)
    (hmode : mode.hasDraft = true) : ∃ e, last = some e := by
  cases mode <;> cases last <;> simp_all [Shows, BracketToolMode.hasDraft]

theorem shows_of_none {mode : BracketToolMode F} (hmode : mode.hasDraft = false) :
    Shows mode (none : Option (Episode F)) := by
  cases mode <;> simp_all [Shows, BracketToolMode.hasDraft]

theorem Told.step {s : Placed W P F R} {n : ℕ} (h : Told s n) (call : ToolCall P F) :
    Told (s.step call) (n + (s.stops call).toNat) := by
  obtain ⟨parts, last, heffects, hcount, hshows⟩ := h
  obtain ⟨es, hes, hturn⟩ := step_turn s call
  rw [heffects] at hes
  unfold Told
  rw [hes]
  generalize s.1.mode = mode at hshows hturn
  generalize (s.step call).1.mode = mode' at hturn ⊢
  generalize s.stops call = stray at hturn ⊢
  cases hturn with
  | stays => exact ⟨parts, last, List.append_nil _, hcount, hshows⟩
  | quiet hnone hnone' =>
    obtain rfl := shows_none hshows hnone
    exact ⟨parts, none, List.append_nil _, hcount, shows_of_none hnone'⟩
  | begins side hfin =>
    obtain rfl := shows_none hshows rfl
    refine ⟨parts, some (.start side _ hfin), ?_, hcount, rfl, rfl⟩
    simp [Episode.effects, Episode.start]
  | setsTarget side entry hfin =>
    obtain ⟨e, rfl⟩ := shows_some hshows rfl
    obtain ⟨hside, hroles⟩ := hshows
    refine ⟨parts, some (e.add .tp _ hfin ?_), ?_, hcount, hside, ?_⟩
    · rw [hroles]
      exact ⟨[.sl], rfl⟩
    · simp [Episode.effects, Episode.add]
    · rw [Episode.roles, Episode.add, List.map_append]
      exact congrArg (· ++ [LegRole.tp]) hroles
  | commits side entry target hfin =>
    obtain ⟨e, rfl⟩ := shows_some hshows rfl
    obtain ⟨-, hroles⟩ := hshows
    have hfull : e.roles ++ [.sl] = [LegRole.entry, .tp, .sl] := by rw [hroles]; rfl
    have hadd : (e.add .sl _ hfin (by rw [hfull])).roles = [.entry, .tp, .sl] := by
      rw [Episode.roles, Episode.add, List.map_append]
      exact hfull
    refine ⟨parts ++ [.committed _ hadd], none, ?_, ?_, trivial⟩
    · simp [Part.effects, Episode.effects, Episode.add]
    · simpa [Part.isStray] using hcount
  | cancels hdraft =>
    obtain ⟨e, rfl⟩ := shows_some hshows hdraft
    refine ⟨parts ++ [.cancelled e], none, ?_, ?_, trivial⟩
    · simp [Part.effects]
    · simpa [Part.isStray] using hcount
  | strays side =>
    obtain rfl := shows_none hshows rfl
    refine ⟨parts ++ [.stray], none, ?_, ?_, trivial⟩
    · simp [Part.effects]
    · simpa [Part.isStray] using hcount

theorem Told.run {s : Placed W P F R} {n : ℕ} (h : Told s n) (calls : List (ToolCall P F)) :
    Told (Midas.run Placed.step s calls) (n + stopped s calls) := by
  induction calls generalizing s n with
  | nil => exact h
  | cons call calls ih =>
    have hnext := ih (h.step call)
    rwa [Nat.add_assoc] at hnext

end Placed

/-- A new tool: idle, or waiting for the entry of a bracket on a side. -/
def BracketTool.new {P F : Type} [F64 F] (side : Option Side) : BracketTool P F :=
  side.elim BracketTool.idle BracketTool.awaitingEntry

open Placed

variable {W P F R : Type} [F64 F]

/-- Whatever calls a new tool gets, what it emits are episodes; and a cancel without a draft comes
    exactly where it is stopped while it waits for its first click. While an episode is open, its side
    is the side of the tool. -/
theorem effects_are_episodes (side : Option Side) (ctx : ToolContext W P F R)
    (calls : List (ToolCall P F)) :
    let start : Placed W P F R := (BracketTool.new side, { ctx with effects := [] })
    Told (run Placed.step start calls) (stopped start calls) := by
  intro start
  have hnew : Told start 0 := by
    refine ⟨[], none, rfl, rfl, ?_⟩
    cases side <;> trivial
  simpa using hnew.run calls

/-- Whole prices, and `none` for what is no number. -/
local instance : F64 (Option ℤ) := ⟨none, Option.isSome⟩

/-- Escape before the first click cancels a draft that there is not. -/
theorem cancels_without_draft :
    ¬∀ (side : Option Side) (calls : List (ToolCall ℤ (Option ℤ))),
      let start : Placed Unit ℤ (Option ℤ) Unit := (BracketTool.new side, ⟨(), none, [], ()⟩)
      Told (run Placed.step start calls) 0 := by
  intro h
  obtain ⟨parts, last, heffects, hcount, -⟩ :=
    h (some .long) [.input (.keyDown .escape ⟨false, false, false, false⟩)]
  have heffects : [.cancelDraftBracket] =
      parts.flatMap Part.effects ++ last.elim [] (Episode.effects (P := ℤ)) := heffects
  cases parts with
  | nil =>
    cases last with
    | none => exact nomatch heffects
    | some e => exact nomatch (List.cons.inj heffects).1
  | cons part parts =>
    cases part with
    | committed e hfull => exact nomatch (List.cons.inj heffects).1
    | cancelled e => exact nomatch (List.cons.inj heffects).1
    | stray => simp [Part.isStray] at hcount

end Midas.Scene
