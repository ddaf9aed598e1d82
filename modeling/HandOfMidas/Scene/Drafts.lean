import HandOfMidas.Lib.Run
import HandOfMidas.Scene.BracketTool

/-! A bracket that the tool has begun is a draft until it is committed or cancelled. The tool tells
    the application so on the queue of effects, but only from `update`: the scene that takes the tool
    away, for Escape or for another tool, calls `cancel`, which has no queue to write on. So a draft
    is left open exactly when the tool is taken away between its first click and its third. -/

namespace Midas.Scene

open InteractiveLayer

variable {L W P F R : Type} [SceneLayer L] [InteractiveLayer L W P F R]

/-! ### The draft that a queue of effects leaves -/

inductive Draft
  | closed | opened
  /-- A draft was begun while another one was open. -/
  | doubled
deriving DecidableEq

namespace Draft

def next : Draft → ToolEffect P F → Draft
  | .doubled, _ => .doubled
  | .closed, .beginDraftBracket _ _ => .opened
  | .opened, .beginDraftBracket _ _ => .doubled
  | _, .commitDraftBracket => .closed
  | _, .cancelDraftBracket => .closed
  | d, _ => d

def after (d : Draft) (es : List (ToolEffect P F)) : Draft := es.foldl next d

@[simp] theorem after_nil (d : Draft) : d.after ([] : List (ToolEffect P F)) = d := rfl

@[simp] theorem after_cons (d : Draft) (e : ToolEffect P F) (es : List (ToolEffect P F)) :
    d.after (e :: es) = (d.next e).after es := rfl

theorem after_append (d : Draft) (es es' : List (ToolEffect P F)) :
    d.after (es ++ es') = (d.after es).after es' := List.foldl_append

end Draft

/-- What layers may ask of the application: anything but to begin or to end a draft. -/
def ToolEffect.drafts : ToolEffect P F → Bool
  | .beginDraftBracket _ _ | .commitDraftBracket | .cancelDraftBracket => true
  | _ => false

variable (L W P F R) in
/-- No layer of the kind begins or ends a draft. -/
def Silent : Prop :=
  ∀ (ev : InputEvent P) (l : L) (ctx : ToolContext W P F R), ∃ es,
    (update ev l ctx).2.2.effects = ctx.effects ++ es ∧ ∀ e ∈ es, e.drafts = false

omit [SceneLayer L] [InteractiveLayer L W P F R] in
theorem Draft.after_silent {es : List (ToolEffect P F)} (h : ∀ e ∈ es, e.drafts = false) (d : Draft) :
    d.after es = d := by
  induction es generalizing d with
  | nil => rfl
  | cons e es ih =>
    obtain ⟨he, hes⟩ := List.forall_mem_cons.mp h
    rw [Draft.after_cons, ih hes]
    cases e <;> cases d <;> simp_all [Draft.next, ToolEffect.drafts]

/-! ### What the layers do to the queue -/

section

variable (hsilent : Silent L W P F R)

include hsilent

theorem routeToLayer_silent (target : LayerId) (ev : InputEvent P) (ls : List L)
    (ctx : ToolContext W P F R) : ∃ es,
    (ChartScene.routeToLayer target ev ls ctx).2.2.effects = ctx.effects ++ es ∧
      ∀ e ∈ es, e.drafts = false := by
  induction ls with
  | nil => exact ⟨[], (List.append_nil _).symm, by simp⟩
  | cons l ls ih =>
    rw [ChartScene.routeToLayer]
    split_ifs with hl
    · exact hsilent ev l ctx
    · exact ih

theorem offer_silent (ev : InputEvent P) (ls : List L) (ctx : ToolContext W P F R) : ∃ es,
    (ChartScene.offer ev ls ctx).2.2.effects = ctx.effects ++ es ∧ ∀ e ∈ es, e.drafts = false := by
  induction ls generalizing ctx with
  | nil => exact ⟨[], (List.append_nil _).symm, by simp⟩
  | cons l ls ih =>
    rw [ChartScene.offer]
    split_ifs with hl
    · obtain ⟨es, heq, hes⟩ := hsilent ev l ctx
      simp only
      split_ifs with hcap
      · exact ⟨es, heq, hes⟩
      · obtain ⟨es', heq', hes'⟩ := ih (update ev l ctx).2.2
        refine ⟨es ++ es', by rw [heq', heq, List.append_assoc], ?_⟩
        intro e he
        rcases List.mem_append.mp he with he | he
        · exact hes e he
        · exact hes' e he
    · exact ih ctx

end

namespace BracketTool

/-- Between the first click and the third. -/
def hasDraft (tool : BracketTool P F) : Bool :=
  match tool.mode with
  | .awaitingTarget _ _ | .awaitingStop _ _ _ => true
  | _ => false

/-- The draft that a tool has which began it on this queue. -/
def draft (tool : BracketTool P F) : Draft := if tool.hasDraft then .opened else .closed

/-- What a turn of the tool puts on the queue: its draft is there what it is for the tool, and a draft
    that the tool began elsewhere is not there. -/
def Tells (tool tool' : BracketTool P F) (es : List (ToolEffect P F)) : Prop :=
  tool.draft.after es = tool'.draft ∧ (tool.hasDraft = true → Draft.closed.after es = .closed)

theorem Tells.refl (tool : BracketTool P F) : tool.Tells tool [] := ⟨rfl, fun _ => rfl⟩

theorem draft_cases (tool : BracketTool P F) :
    tool.draft = .closed ∨ tool.draft = .opened ∧ tool.hasDraft = true := by
  unfold draft
  split_ifs with h
  · exact .inr ⟨rfl, h⟩
  · exact .inl rfl

/-- If only the tool may have a draft open, this is so after its turn. -/
theorem Tells.covered {tool tool' : BracketTool P F} {es : List (ToolEffect P F)} {d : Draft}
    (h : tool.Tells tool' es) (hd : d = .closed ∨ d = .opened ∧ tool.hasDraft = true) :
    d.after es = .closed ∨ d.after es = .opened ∧ tool'.hasDraft = true := by
  obtain ⟨hdraft, hclosed⟩ := h
  cases hhas : tool.hasDraft with
  | false =>
    have heq : d = tool.draft := by simpa [draft, hhas] using hd
    rw [heq, hdraft]
    exact tool'.draft_cases
  | true =>
    rcases hd with rfl | ⟨rfl, -⟩
    · exact .inl (hclosed hhas)
    · have heq : tool.draft = .opened := by simp [draft, hhas]
      have hcases := tool'.draft_cases
      rwa [← hdraft, heq] at hcases

theorem click_tells [F64 F] (tool : BracketTool P F) (ctx : ToolContext W P F R) :
    ∃ es, (tool.click ctx).2.2.effects = ctx.effects ++ es ∧ tool.Tells (tool.click ctx).2.1 es := by
  unfold click
  split_ifs with hfin
  · exact ⟨[], (List.append_nil _).symm, .refl tool⟩
  · cases hmode : tool.mode with
    | idle => exact ⟨[], (List.append_nil _).symm, .refl tool⟩
    | complete => exact ⟨[], (List.append_nil _).symm, .refl tool⟩
    | awaitingEntry side =>
      refine ⟨_, List.append_assoc _ [_] [_], ?_, ?_⟩ <;> simp [draft, hasDraft, hmode, Draft.next]
    | awaitingTarget side entry =>
      refine ⟨[_], rfl, ?_, ?_⟩ <;> simp [draft, hasDraft, hmode, Draft.next]
    | awaitingStop side entry target =>
      refine ⟨_, List.append_assoc _ [_] [_], ?_, ?_⟩ <;> simp [draft, hasDraft, hmode, Draft.next]

theorem press_tells (key : Key) (tool : BracketTool P F) (ctx : ToolContext W P F R) :
    ∃ es, (tool.press key ctx).2.2.effects = ctx.effects ++ es ∧
      tool.Tells (tool.press key ctx).2.1 es := by
  unfold press
  split
  · -- A side is only toggled before the first click, which leaves no draft either way.
    split
    · rename_i hmode
      exact ⟨[], (List.append_nil _).symm, by simp [Tells, draft, hasDraft, hmode]⟩
    · rename_i hmode
      exact ⟨[], (List.append_nil _).symm, by simp [Tells, draft, hasDraft, hmode]⟩
    · exact ⟨[], (List.append_nil _).symm, .refl tool⟩
  · split_ifs with hkey hplacing
    · refine ⟨[_], rfl, ?_, fun _ => rfl⟩
      cases hmode : tool.mode <;> simp [draft, hasDraft, hmode, Draft.next]
    · refine ⟨[], (List.append_nil _).symm, ?_, fun _ => rfl⟩
      cases hmode : tool.mode <;> simp_all [draft, hasDraft, isPlacing]
    · exact ⟨[], (List.append_nil _).symm, .refl tool⟩

theorem update_tells [F64 F] (ev : InputEvent P) (tool : BracketTool P F) (ctx : ToolContext W P F R) :
    ∃ es, (tool.update ev ctx).2.2.effects = ctx.effects ++ es ∧
      tool.Tells (tool.update ev ctx).2.1 es := by
  unfold update
  split
  · exact click_tells tool ctx
  · exact press_tells _ tool ctx
  · exact ⟨[], (List.append_nil _).symm, .refl tool⟩
  · exact ⟨[], (List.append_nil _).symm, .refl tool⟩

end BracketTool

/-- What an event other than Escape does: at most one turn of the tool, and nothing about drafts from
    the layers. -/
theorem ChartScene.handleInput_tool [F64 F] (hsilent : Silent L W P F R) {ev : InputEvent P}
    (hev : ev.isEscape = false) (s : ChartScene L (BracketTool P F) W P F R) :
    ∃ es, (∀ e ∈ es, e.drafts = false) ∧
      (((s.handleInput ev).2.activeTool = s.activeTool ∧
        (s.handleInput ev).2.ctx.effects = s.ctx.effects ++ es) ∨
      ∃ tool, s.activeTool = some tool ∧
        (s.handleInput ev).2.activeTool = some (tool.update ev s.ctx).2.1 ∧
        (s.handleInput ev).2.ctx.effects = (tool.update ev s.ctx).2.2.effects ++ es) := by
  cases hfocus : s.dragFocus with
  | some target =>
    rw [handleInput_of_focus hev hfocus]
    unfold routeToId
    split
    · rename_i tool htool
      obtain ⟨htool, -⟩ := Option.filter_eq_some_iff.mp htool
      exact ⟨[], by simp, .inr ⟨tool, htool, rfl, (List.append_nil _).symm⟩⟩
    · obtain ⟨es, heq, hes⟩ := routeToLayer_silent hsilent target ev s.layers s.ctx
      exact ⟨es, hes, .inl ⟨rfl, heq⟩⟩
  | none =>
    rw [handleInput_of_no_focus hev hfocus]
    unfold offerAll offerTool offerLayers
    cases htool : s.activeTool with
    | none =>
      obtain ⟨es, heq, hes⟩ := offer_silent hsilent ev s.layers.reverse s.ctx
      exact ⟨es, hes, .inl ⟨htool, heq⟩⟩
    | some tool =>
      simp only
      split_ifs with hcap
      · exact ⟨[], by simp, .inr ⟨tool, rfl, rfl, (List.append_nil _).symm⟩⟩
      · obtain ⟨es, heq, hes⟩ := offer_silent hsilent ev s.layers.reverse (tool.update ev s.ctx).2.2
        exact ⟨es, hes, .inr ⟨tool, rfl, rfl, heq⟩⟩

/-! ### Runs -/

/-- A scene in use: `taken` is what the widget took from the queue so far, and `abandoned` says that
    `clear_active_tool` took a tool away between its first click and its third. -/
structure Placement (L W P F R : Type) where
  scene : ChartScene L (BracketTool P F) W P F R
  taken : List (ToolEffect P F)
  abandoned : Bool

namespace Placement

variable [F64 F]

inductive Op (P F : Type)
  | handleInput (ev : InputEvent P)
  | setActiveTool (tool : BracketTool P F)
  | clearActiveTool
  | takeEffects
  /-- The widget feeds the installed tool a price. -/
  | updatePreview (price : F) (cursorYPx : P)

/-- Escape and another tool take the tool away for good. -/
def Op.takesTool : Op P F → Bool
  | handleInput ev => ev.isEscape
  | setActiveTool _ => true
  | _ => false

def start (layers : List L) (priceRange : R) (shared : W) : Placement L W P F R :=
  ⟨.build layers priceRange shared, [], false⟩

def hasDraft (s : Placement L W P F R) : Bool := s.scene.activeTool.any (·.hasDraft)

def step (s : Placement L W P F R) : Op P F → Placement L W P F R
  | .handleInput ev => { s with scene := (s.scene.handleInput ev).2 }
  | .setActiveTool tool => { s with scene := s.scene.setActiveTool tool }
  | .clearActiveTool =>
    { s with scene := s.scene.clearActiveTool, abandoned := s.abandoned || s.hasDraft }
  | .takeEffects =>
    { s with scene := s.scene.takeEffects.2, taken := s.taken ++ s.scene.takeEffects.1 }
  | .updatePreview price y =>
    { s with scene := { s.scene with activeTool := s.scene.activeTool.map (·.updatePreview price y) } }

/-- All effects so far. -/
def emitted (s : Placement L W P F R) : List (ToolEffect P F) := s.taken ++ s.scene.ctx.effects

def draft (s : Placement L W P F R) : Draft := Draft.closed.after s.emitted

/-- No draft is begun while one is open, and none is open once the tool has been taken away. -/
def Closes (s : Placement L W P F R) (op : Op P F) : Prop :=
  (s.step op).draft ≠ .doubled ∧ (op.takesTool → (s.step op).draft = .closed)

/-- A tool is between its first click and its third, or was when it was abandoned. -/
def pending (s : Placement L W P F R) : Bool := s.hasDraft || s.abandoned

/-- The tool is taken away only before its first click or after its third. -/
def Spares (s : Placement L W P F R) (op : Op P F) : Prop := op.takesTool → s.pending = false

instance (s : Placement L W P F R) (op : Op P F) : Decidable (s.Spares op) :=
  inferInstanceAs (Decidable (op.takesTool → s.pending = false))

/-- The bracket tool is installed as its constructors make it, before its first click. -/
def Op.Fresh : Op P F → Prop
  | setActiveTool tool => tool.hasDraft = false
  | _ => True

/-! ### What the steps do -/

variable {s s' : Placement L W P F R} {op : Op P F}

/-- What a step may do about drafts. -/
inductive Moves (s s' : Placement L W P F R) : Op P F → Prop
  /-- The tool takes a turn. -/
  | turn {op : Op P F} (tool tool' : BracketTool P F) (es : List (ToolEffect P F))
      (htool : s.scene.activeTool = some tool) (htool' : s'.scene.activeTool = some tool')
      (htells : tool.Tells tool' es) (hdraft : s'.draft = s.draft.after es)
      (habandoned : s'.abandoned = s.abandoned) (hop : op.takesTool = false) : Moves s s' op
  /-- Nothing changes but the preview. -/
  | kept {op : Op P F} (hnone : s.scene.activeTool = none → s'.scene.activeTool = none)
      (hhas : s'.hasDraft = s.hasDraft) (hdraft : s'.draft = s.draft)
      (habandoned : s'.abandoned = s.abandoned) (hop : op.takesTool = false) : Moves s s' op
  | cleared (hnone : s'.scene.activeTool = none) (hdraft : s'.draft = s.draft)
      (habandoned : s'.abandoned = (s.abandoned || s.hasDraft)) : Moves s s' .clearActiveTool
  | escaped (ev : InputEvent P) (hev : ev.isEscape = true) (hnone : s'.scene.activeTool = none)
      (hdraft : s'.draft = s.draft) (habandoned : s'.abandoned = s.abandoned) :
      Moves s s' (.handleInput ev)
  | replaced (tool : BracketTool P F) (htool : s'.scene.activeTool = some tool)
      (hdraft : s'.draft = s.draft) (habandoned : s'.abandoned = s.abandoned) :
      Moves s s' (.setActiveTool tool)

omit [F64 F] [SceneLayer L] [InteractiveLayer L W P F R] in
/-- What is said on the queue is what the drafts are, also once it has been taken. -/
theorem draft_of_effects {es : List (ToolEffect P F)} (htaken : s'.taken = s.taken)
    (h : s'.scene.ctx.effects = s.scene.ctx.effects ++ es) : s'.draft = s.draft.after es := by
  unfold draft emitted
  rw [htaken, h, ← List.append_assoc, Draft.after_append]

theorem moves_handleInput (hsilent : Silent L W P F R) {ev : InputEvent P}
    (hev : ev.isEscape = false) (s : Placement L W P F R) :
    Moves s (s.step (.handleInput ev)) (.handleInput ev) := by
  obtain ⟨es, hes, ⟨htool, heffects⟩ | ⟨tool, htool, htool', heffects⟩⟩ :=
    s.scene.handleInput_tool hsilent hev
  · have hdraft : (s.step (.handleInput ev)).draft = s.draft.after es :=
      draft_of_effects rfl heffects
    refine .kept (fun h => htool.trans h) ?_ (hdraft.trans (Draft.after_silent hes _)) rfl hev
    simp only [hasDraft, step, htool]
  · obtain ⟨turn, hturn, htells⟩ := tool.update_tells ev s.scene.ctx
    have hdraft : (s.step (.handleInput ev)).draft = s.draft.after (turn ++ es) := by
      refine draft_of_effects rfl ?_
      rw [step, heffects, hturn, List.append_assoc]
    rw [Draft.after_append, Draft.after_silent hes] at hdraft
    exact .turn tool _ turn htool htool' htells hdraft rfl hev

theorem moves_step (hsilent : Silent L W P F R) (s : Placement L W P F R) (op : Op P F) :
    Moves s (s.step op) op := by
  cases op with
  | handleInput ev =>
    cases hev : ev.isEscape with
    | false => exact moves_handleInput hsilent hev s
    | true =>
      refine .escaped ev hev ?_ ?_ rfl
      · simp [step, ChartScene.handleInput_of_escape hev]
      · simp [draft, emitted, step, ChartScene.handleInput_of_escape hev]
  | setActiveTool tool =>
    exact .replaced tool rfl (by simp [draft, emitted, step, ChartScene.setActiveTool]) rfl
  | clearActiveTool =>
    exact .cleared (by simp [step]) (by simp [draft, emitted, step]) rfl
  | takeEffects =>
    refine .kept id rfl ?_ rfl rfl
    simp [draft, emitted, step, ChartScene.takeEffects]
  | updatePreview price y =>
    refine .kept (fun h => by simp [step, h]) ?_ rfl rfl rfl
    cases h : s.scene.activeTool <;>
      simp [hasDraft, step, h, BracketTool.updatePreview, BracketTool.hasDraft]

omit [F64 F] [SceneLayer L] [InteractiveLayer L W P F R] in
/-- Taking the tool away puts nothing on the queue. -/
theorem Moves.draft_eq (h : Moves s s' op) (htakes : op.takesTool = true) : s'.draft = s.draft := by
  cases h with
  | turn => simp_all
  | kept => assumption
  | cleared => assumption
  | escaped => assumption
  | replaced => assumption

/-- The queue has a draft open only while the tool has one, or after one was abandoned. -/
def Sound (s : Placement L W P F R) : Prop :=
  (s.abandoned = true → s.scene.activeTool = none) ∧
  (s.draft = .closed ∨ s.draft = .opened ∧ s.pending = true)

/-- A draft is open on the queue exactly while the tool has one, or after one was abandoned. -/
def Exact (s : Placement L W P F R) : Prop :=
  (s.abandoned = true → s.scene.activeTool = none) ∧
  s.draft = if s.pending = true then .opened else .closed

omit [F64 F] [SceneLayer L] [InteractiveLayer L W P F R] in
theorem pending_of_some {tool : BracketTool P F}
    (habandoned : s.abandoned = true → s.scene.activeTool = none)
    (htool : s.scene.activeTool = some tool) : s.pending = tool.hasDraft ∧ s.abandoned = false := by
  have hfalse : s.abandoned = false := by
    by_contra h
    simp [habandoned (by simpa using h)] at htool
  exact ⟨by simp [pending, hasDraft, htool, hfalse], hfalse⟩

omit [F64 F] [SceneLayer L] [InteractiveLayer L W P F R] in
theorem pending_of_none (hnone : s.scene.activeTool = none) : s.pending = s.abandoned := by
  simp [pending, hasDraft, hnone]

theorem Sound.step (hsilent : Silent L W P F R) (h : s.Sound) (hop : s.Spares op) :
    (s.step op).Sound := by
  obtain ⟨habandoned, hdraft⟩ := h
  cases moves_step hsilent s op with
  | turn tool tool' es htool htool' htells heq hsame htakes =>
    obtain ⟨hpending, hfalse⟩ := pending_of_some habandoned htool
    have habandoned' : (s.step op).abandoned = true → (s.step op).scene.activeTool = none := by
      simp [hsame, hfalse]
    refine ⟨habandoned', ?_⟩
    rw [(pending_of_some habandoned' htool').1, heq]
    exact htells.covered (hpending ▸ hdraft)
  | kept hnone hhas heq hsame htakes =>
    exact ⟨fun h => hnone (habandoned (hsame ▸ h)), by simpa [heq, pending, hhas, hsame] using hdraft⟩
  | cleared hnone heq hsame =>
    refine ⟨fun _ => hnone, ?_⟩
    rw [pending_of_none hnone, hsame, heq, Bool.or_comm]
    exact hdraft
  | escaped ev hev hnone heq hsame =>
    have hpending : s.pending = false := hop hev
    exact ⟨fun _ => hnone, .inl (by simpa [heq, hpending] using hdraft)⟩
  | replaced tool htool heq hsame =>
    have hpending : s.pending = false := hop rfl
    refine ⟨fun h => ?_, .inl (by simpa [heq, hpending] using hdraft)⟩
    rw [hsame] at h
    simp [pending, h] at hpending

theorem Sound.closes (hsilent : Silent L W P F R) (h : s.Sound) (hop : s.Spares op) :
    s.Closes op := by
  refine ⟨?_, fun htakes => ?_⟩
  · rcases (h.step hsilent hop).2 with hd | ⟨hd, -⟩ <;> simp [hd]
  · rw [(moves_step hsilent s op).draft_eq htakes]
    exact h.2.resolve_right fun ⟨_, hpending⟩ => by simp [hop htakes] at hpending

theorem Exact.step (hsilent : Silent L W P F R) (h : s.Exact) (hop : s.Spares op)
    (hfresh : op.Fresh) : (s.step op).Exact := by
  obtain ⟨habandoned, hdraft⟩ := h
  cases moves_step hsilent s op with
  | turn tool tool' es htool htool' htells heq hsame htakes =>
    obtain ⟨hpending, hfalse⟩ := pending_of_some habandoned htool
    have habandoned' : (s.step op).abandoned = true → (s.step op).scene.activeTool = none := by
      simp [hsame, hfalse]
    refine ⟨habandoned', ?_⟩
    rw [(pending_of_some habandoned' htool').1, heq, hdraft, hpending]
    exact htells.1
  | kept hnone hhas heq hsame htakes =>
    exact ⟨fun h => hnone (habandoned (hsame ▸ h)), by rw [heq, hdraft, pending, pending, hhas, hsame]⟩
  | cleared hnone heq hsame =>
    refine ⟨fun _ => hnone, ?_⟩
    rw [pending_of_none hnone, hsame, heq, Bool.or_comm]
    exact hdraft
  | escaped ev hev hnone heq hsame =>
    have hpending : s.pending = false := hop hev
    rw [pending, Bool.or_eq_false_iff] at hpending
    refine ⟨fun _ => hnone, ?_⟩
    rw [pending_of_none hnone, hsame, heq, hdraft, pending, hpending.1, hpending.2]
    rfl
  | replaced tool htool heq hsame =>
    have hpending : s.pending = false := hop rfl
    rw [pending, Bool.or_eq_false_iff] at hpending
    have habandoned' : (s.step (.setActiveTool tool)).abandoned = true →
        (s.step (.setActiveTool tool)).scene.activeTool = none := by simp [hsame, hpending.2]
    refine ⟨habandoned', ?_⟩
    have hfresh : tool.hasDraft = false := hfresh
    rw [(pending_of_some habandoned' htool).1, heq, hdraft, pending, hpending.1, hpending.2, hfresh]
    rfl

theorem Exact.spares_of_closes (hsilent : Silent L W P F R) (h : s.Exact)
    (hcloses : s.Closes op) : s.Spares op := by
  intro htakes
  have hclosed := hcloses.2 htakes
  rw [(moves_step hsilent s op).draft_eq htakes, h.2] at hclosed
  by_contra hpending
  simp [hpending] at hclosed

omit [F64 F] [SceneLayer L] [InteractiveLayer L W P F R] in
theorem Exact.sound (h : s.Exact) : s.Sound := by
  refine ⟨h.1, ?_⟩
  rw [h.2]
  split_ifs with hpending
  · exact .inr ⟨rfl, hpending⟩
  · exact .inl rfl

omit [F64 F] [SceneLayer L] [InteractiveLayer L W P F R] in
theorem exact_start (layers : List L) (priceRange : R) (shared : W) :
    (start layers priceRange shared : Placement L W P F R).Exact :=
  ⟨fun _ => rfl, rfl⟩

/-- In a run that takes the tool away only before its first click or after its third, no draft is left
    open; and where the tools are installed before their first click, only in such a run. -/
theorem no_draft_left_open (hsilent : Silent L W P F R) (layers : List L) (priceRange : R) (shared : W)
    (ops : List (Op P F)) :
    (AllSteps step Spares (start layers priceRange shared) ops →
      AllSteps step Closes (start layers priceRange shared) ops) ∧
    ((∀ op ∈ ops, op.Fresh) → AllSteps step Closes (start layers priceRange shared) ops →
      AllSteps step Spares (start layers priceRange shared) ops) := by
  have hstart := exact_start (P := P) (F := F) layers priceRange shared
  constructor
  · have hiff : ∀ (s : Placement L W P F R) op, s.Sound →
        (s.Spares op ↔ s.Spares op ∧ s.Closes op) := by
      intro s op hs
      exact ⟨fun hop => ⟨hop, hs.closes hsilent hop⟩, And.left⟩
    intro h pre op hpre
    exact ((allSteps_congr step (fun s op hs hop => hs.step hsilent hop) hiff hstart.sound ops).mp h
      pre op hpre).2
  · intro hfresh h
    have hiff : ∀ (s : Placement L W P F R) op, s.Exact →
        (s.Spares op ∧ op.Fresh ↔ s.Closes op ∧ op.Fresh) := by
      intro s op hs
      refine and_congr_left fun _ => ⟨hs.sound.closes hsilent, hs.spares_of_closes hsilent⟩
    have hboth := (allSteps_congr step (fun s op hs hop => hs.step hsilent hop.1 hop.2) hiff hstart
      ops).mpr fun pre op hpre => ⟨h pre op hpre, hfresh op (hpre.subset (by simp))⟩
    exact fun pre op hpre => (hboth pre op hpre).1

/-! ### Runs of one tool -/

/-- Whole prices, and `none` for what is no number. -/
local instance : F64 (Option ℤ) := ⟨none, Option.isSome⟩

omit [F64 F] in
theorem silent_paintedLayer : Silent PaintedLayer W P F R :=
  fun _ _ _ => ⟨[], (List.append_nil _).symm, by simp⟩

def candles : Placement PaintedLayer Unit ℤ (Option ℤ) Unit := start [.candles] () ()

def clickAt (price : ℤ) : List (Op ℤ (Option ℤ)) :=
  [.updatePreview (some price) 0, .handleInput (.mouseDown .left ⟨0, 0⟩ ⟨false, false, false, false⟩)]

def escape : Op ℤ (Option ℤ) := .handleInput (.keyDown .escape ⟨false, false, false, false⟩)

def threeClicks : List (Op ℤ (Option ℤ)) :=
  .setActiveTool (.awaitingEntry .long) :: (clickAt 100 ++ clickAt 110 ++ clickAt 95 ++ [escape])

theorem no_draft_left_open_threeClicks : AllSteps step Closes candles threeClicks := by
  refine (no_draft_left_open silent_paintedLayer _ _ _ _).1 ?_
  simp only [threeClicks, clickAt, List.cons_append, List.nil_append, allSteps_cons, allSteps_nil,
    and_true]
  decide

/-- Escape after the first click leaves the draft open. -/
theorem draft_outlives_tool :
    ¬AllSteps step Closes candles
      (.setActiveTool (.awaitingEntry .long) :: (clickAt 100 ++ [escape])) := by
  intro h
  have hopen := (h (.setActiveTool (.awaitingEntry .long) :: clickAt 100) escape ⟨[], rfl⟩).2 rfl
  revert hopen
  decide

end Placement

end Midas.Scene
