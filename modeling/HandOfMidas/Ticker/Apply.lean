import HandOfMidas.Ticker.State

/-! `TickerState::apply`: one handler for each message. Most of them change the live bracket when
    there is one and hand back effects that show it, so that shape is stated once. -/

namespace Midas.Ticker

variable {F : Type}

/-- `MIN_GATR_ABS`. -/
def minGatrAbs [F64 F] : F := F64.lit (1 / 1000000000)

/-- `RECENCY_GUARD_SECS`. -/
def recencyGuardSecs : ℤ := 60 * 60

/-- `SNAP_UNDO_TTL`: thirty seconds in nanoseconds. -/
def snapUndoTtl : ℕ := 30000000000

namespace TickerState

/-- `self.generation += 1`. -/
def bump (s : TickerState F) : TickerState F := { s with generation := s.generation + 1 }

/-- With a live bracket, change it to `f` of it and return its effects; without one, `otherwise`. -/
def onBracket (s : TickerState F) (f : OrderBracket F → OrderBracket F)
    (effects : OrderBracket F → List (TickerEffect F)) (otherwise : List (TickerEffect F)) :
    TickerState F × List (TickerEffect F) :=
  match s.liveBracket with
  | some b => ({ s with liveBracket := some (f b) }, effects (f b))
  | none => (s, otherwise)

/-- The same, with the generation bumped only when there is a live bracket. -/
def editBracket (s : TickerState F) (f : OrderBracket F → OrderBracket F)
    (effects : OrderBracket F → List (TickerEffect F)) : TickerState F × List (TickerEffect F) :=
  if s.liveBracket.isSome then s.bump.onBracket f effects [] else (s, [])

/-- The effects of a change that is shown and saved. -/
def projectAndPersist (b : OrderBracket F) : List (TickerEffect F) := [.projectBracket b, .persistDirty]

/-- The effects of a change that is only shown. -/
def project (b : OrderBracket F) : List (TickerEffect F) := [.projectBracket b]

theorem onBracket_of_live {s : TickerState F} {b : OrderBracket F} (h : s.liveBracket = some b)
    (f : OrderBracket F → OrderBracket F) (effects : OrderBracket F → List (TickerEffect F))
    (otherwise : List (TickerEffect F)) :
    s.onBracket f effects otherwise = ({ s with liveBracket := some (f b) }, effects (f b)) := by
  simp only [onBracket, h]

theorem onBracket_of_none {s : TickerState F} (h : s.liveBracket = none)
    (f : OrderBracket F → OrderBracket F) (effects : OrderBracket F → List (TickerEffect F))
    (otherwise : List (TickerEffect F)) : s.onBracket f effects otherwise = (s, otherwise) := by
  simp only [onBracket, h]

theorem onBracket_fst (s : TickerState F) (f : OrderBracket F → OrderBracket F)
    (effects : OrderBracket F → List (TickerEffect F)) (otherwise : List (TickerEffect F)) :
    (s.onBracket f effects otherwise).1 = { s with liveBracket := s.liveBracket.map f } := by
  cases h : s.liveBracket with
  | none => rw [onBracket_of_none h, Option.map_none, ← h]
  | some b => rw [onBracket_of_live h, Option.map_some]

theorem editBracket_of_live {s : TickerState F} {b : OrderBracket F} (h : s.liveBracket = some b)
    (f : OrderBracket F → OrderBracket F) (effects : OrderBracket F → List (TickerEffect F)) :
    s.editBracket f effects = ({ s.bump with liveBracket := some (f b) }, effects (f b)) := by
  rw [editBracket, if_pos (by simp [h]), onBracket_of_live (by exact h)]

theorem editBracket_of_none {s : TickerState F} (h : s.liveBracket = none)
    (f : OrderBracket F → OrderBracket F) (effects : OrderBracket F → List (TickerEffect F)) :
    s.editBracket f effects = (s, []) := by
  simp [editBracket, h]

/-- The `PersistDirty` that `apply_set_bracket_mode` adds where there is none. -/
def withPersist (effects : List (TickerEffect F)) : List (TickerEffect F) :=
  if effects.any (fun | .persistDirty => true | _ => false) then effects
  else effects ++ [.persistDirty]

@[simp] theorem mem_withPersist {e : TickerEffect F} {effects : List (TickerEffect F)} :
    e ∈ withPersist effects ↔ e ∈ effects ∨ e = .persistDirty := by
  unfold withPersist
  split
  · rename_i h
    obtain ⟨d, hd, hdirty⟩ := List.any_eq_true.mp h
    have hmem : TickerEffect.persistDirty ∈ effects := by
      cases d <;> first | exact hd | cases hdirty
    exact ⟨.inl, fun h => h.elim id (· ▸ hmem)⟩
  · rw [List.mem_append, List.mem_singleton]

variable [F64 F]

/-- Whether `apply_ensure_draft` finds the live bracket's prices stale. -/
def draftIsStale (s : TickerState F) (b : OrderBracket F) : Bool :=
  let currentPrice := s.lastPrice.getD (F64.lit 0)
  !F64.isFinite b.entry.price || F64.leb b.entry.price (F64.lit 0)
    || (F64.ltb (F64.lit 0) currentPrice && shouldReposition b.entry.price currentPrice s.gatrAbs)

/-- The prices and flags that a stale bracket gets at the current price. -/
def redraft (s : TickerState F) (side : OrderSide) (entryType : EntryType) (b : OrderBracket F) :
    OrderBracket F :=
  let prices := defaultInitialPrices side entryType (s.lastPrice.getD (F64.lit 0)) s.gatrAbs
  { b with
    entry := makeLeg prices.entry .entry
    takeProfit := some (makeLeg prices.takeProfit .takeProfit)
    stopLoss := some (makeLeg prices.stopLoss .stopLoss)
    entryStopPrice := prices.stopTrigger
    status := .draft
    saved := false
    filledQty := none
    wrongSideWarning := false }

/-- What `apply_ensure_draft` makes of a live bracket. -/
def resetDraft (s : TickerState F) (side : OrderSide) (entryType : EntryType) (b : OrderBracket F) :
    OrderBracket F :=
  let currentPrice := s.lastPrice.getD (F64.lit 0)
  let b' :=
    if s.draftIsStale b && F64.ltb (F64.lit 0) currentPrice then s.redraft side entryType b else b
  normalizeBracket
    { b' with status := .draft, saved := false, side := toBracketSide side, entryType := entryType }

/-- The draft that `apply_ensure_draft` builds where there is none. -/
def freshDraft (s : TickerState F) (side : OrderSide) (entryType : EntryType) : OrderBracket F :=
  let prices := defaultInitialPrices side entryType (s.lastPrice.getD (F64.lit 0)) s.gatrAbs
  { entry := makeLeg prices.entry .entry
    takeProfit := some (makeLeg prices.takeProfit .takeProfit)
    stopLoss := some (makeLeg prices.stopLoss .stopLoss)
    side := toBracketSide side
    status := .draft
    quantity := none
    saved := false
    filledQty := none
    entryType := entryType
    entryStopPrice := prices.stopTrigger
    wrongSideWarning := false }

/-- `apply_ensure_draft`. -/
def applyEnsureDraft (s : TickerState F) (side : OrderSide) (entryType : EntryType) :
    TickerState F × List (TickerEffect F) :=
  if s.bracketMode.isNone then (s, [])
  else
    let s := { s with lastSide := side, lastEntryType := entryType }.bump
    match s.liveBracket with
    | some _ => s.onBracket (s.resetDraft side entryType) projectAndPersist []
    | none =>
      let b := s.freshDraft side entryType
      ({ s with liveBracket := some b }, projectAndPersist b)

/-- The bracket that `apply_ensure_draft` leaves where brackets are on. -/
def drafted (s : TickerState F) (side : OrderSide) (entryType : EntryType) : OrderBracket F :=
  match s.liveBracket with
  | some b => s.resetDraft side entryType b
  | none => s.freshDraft side entryType

theorem applyEnsureDraft_of_off {s : TickerState F} (h : s.bracketMode = none) (side : OrderSide)
    (entryType : EntryType) : s.applyEnsureDraft side entryType = (s, []) := by
  simp [applyEnsureDraft, h]

theorem applyEnsureDraft_of_on {s : TickerState F} {mode : OrderSide}
    (h : s.bracketMode = some mode) (side : OrderSide) (entryType : EntryType) :
    s.applyEnsureDraft side entryType =
      ({ s.bump with
          lastSide := side
          lastEntryType := entryType
          liveBracket := some (s.drafted side entryType) },
        projectAndPersist (s.drafted side entryType)) := by
  rw [applyEnsureDraft, if_neg (by simp [h])]
  cases hl : s.liveBracket with
  | none => simp only [bump, hl, drafted]; rfl
  | some b => simp only [bump, onBracket, hl, drafted]; rfl

/-- The effects that hide the bracket's annotation. -/
def removal (s : TickerState F) : List (TickerEffect F) :=
  match s.liveAnnotationId with
  | some id => [.removeBracket id, .persistDirty]
  | none => [.persistDirty]

/-- `apply_cancel_bracket`. A saved bracket and an unsaved one are treated alike. -/
def applyCancelBracket (s : TickerState F) : TickerState F × List (TickerEffect F) :=
  let s := s.bump
  match s.liveBracket with
  | some _ => ({ s with liveBracket := none, liveAnnotationId := none }, s.removal)
  | none => (s, [])

/-- `apply_save_bracket`. -/
def applySaveBracket (s : TickerState F) : TickerState F × List (TickerEffect F) :=
  s.bump.onBracket (fun b => { b with saved := true }) projectAndPersist []

/-- `apply_delete_bracket`. -/
def applyDeleteBracket (s : TickerState F) : TickerState F × List (TickerEffect F) :=
  ({ s.bump with liveBracket := none, liveAnnotationId := none }, s.removal)

/-- The bracket at the last price, if it has drifted far enough from it. -/
def recalled (s : TickerState F) (b : OrderBracket F) : OrderBracket F :=
  let last := s.lastPrice.getD (F64.lit 0)
  if F64.ltb (F64.lit 0) last && shouldReposition b.entry.price last s.gatrAbs
  then repositionBracket b last
  else b

/-- `apply_recall_bracket`. -/
def applyRecallBracket (s : TickerState F) : TickerState F × List (TickerEffect F) :=
  s.bump.onBracket (fun b => normalizeBracket (s.recalled b)) projectAndPersist []

/-- `apply_set_bracket_mode`. -/
def applySetBracketMode (s : TickerState F) (mode : Option OrderSide) :
    TickerState F × List (TickerEffect F) :=
  let s := { s.bump with bracketMode := mode }
  match mode with
  | some side =>
    let (s, effects) := { s with lastSide := side }.applyEnsureDraft side s.lastEntryType
    (s, withPersist effects)
  | none =>
    let (s, effects) := s.applyCancelBracket
    (s, withPersist effects)

theorem applySetBracketMode_none (s : TickerState F) :
    s.applySetBracketMode none =
      Prod.map id withPersist ({ s.bump with bracketMode := none }.applyCancelBracket) := rfl

/-- Toggling a side on drafts for it. -/
theorem applySetBracketMode_some (s : TickerState F) (side : OrderSide) :
    s.applySetBracketMode (some side) =
      ({ s.bump.bump with
          bracketMode := some side
          lastSide := side
          liveBracket := some (s.drafted side s.lastEntryType) },
        projectAndPersist (s.drafted side s.lastEntryType)) := by
  have h := applyEnsureDraft_of_on (s := { s.bump with bracketMode := some side, lastSide := side })
    rfl side s.lastEntryType
  have hs : s.applySetBracketMode (some side) = Prod.map id withPersist
      ({ s.bump with bracketMode := some side, lastSide := side }.applyEnsureDraft side
        s.lastEntryType) := rfl
  rw [hs, h]
  rfl

/-- The bracket with the price of one leg set. -/
def setLeg (b : OrderBracket F) (role : LegRole) (price : F) : OrderBracket F :=
  match role with
  | .entry => { b with entry := b.entry.at price }
  | .takeProfit => { b with takeProfit := b.takeProfit.map (·.at price) }
  | .stopLoss => { b with stopLoss := b.stopLoss.map (·.at price) }
  | .stopTrigger => { b with entryStopPrice := some price }

/-- `apply_set_leg_price`. -/
def applySetLegPrice (s : TickerState F) (role : LegRole) (price : F) :
    TickerState F × List (TickerEffect F) :=
  s.editBracket (setLeg · role price) project

/-- A leg that is switched on at `price` where it is missing, or off. -/
def switchLeg (leg : Option (BracketLeg F)) (enabled : Bool) (price : F) (role : LegRole) :
    Option (BracketLeg F) :=
  if enabled && leg.isNone then some (makeLeg price role) else if !enabled then none else leg

/-- `apply_set_tp_enabled`. -/
def applySetTpEnabled (s : TickerState F) (enabled : Bool) :
    TickerState F × List (TickerEffect F) :=
  let tpPrice (b : OrderBracket F) : F :=
    let offset := F64.max (b.entry.price * F64.lit (1 / 100)) (F64.lit (1 / 100))
    match b.side with
    | .long => b.entry.price + offset
    | .short => b.entry.price - offset
  s.editBracket
    (fun b => { b with takeProfit := switchLeg b.takeProfit enabled (tpPrice b) .takeProfit })
    projectAndPersist

/-- `apply_set_sl_enabled`. -/
def applySetSlEnabled (s : TickerState F) (enabled : Bool) :
    TickerState F × List (TickerEffect F) :=
  let slPrice (b : OrderBracket F) : F :=
    let offset := F64.max (b.entry.price * F64.lit (5 / 1000)) (F64.lit (1 / 100))
    match b.side with
    | .long => b.entry.price - offset
    | .short => b.entry.price + offset
  s.editBracket
    (fun b => { b with stopLoss := switchLeg b.stopLoss enabled (slPrice b) .stopLoss })
    projectAndPersist

/-- `apply_set_quantity`. -/
def applySetQuantity (s : TickerState F) (qty : F) : TickerState F × List (TickerEffect F) :=
  s.editBracket (fun b => { b with quantity := some qty }) project

/-- `apply_set_side`. -/
def applySetSide (s : TickerState F) (side : OrderSide) : TickerState F × List (TickerEffect F) :=
  { s with lastSide := side }.bump.onBracket
    (fun b => normalizeBracket { b with side := toBracketSide side })
    projectAndPersist [.persistDirty]

/-- What `apply_set_entry_type` makes of a bracket at the last price. -/
def retype (entryType : EntryType) (lastPrice : F) (b : OrderBracket F) : OrderBracket F :=
  let b := { b with entryType := entryType, wrongSideWarning := false }
  let kept :=
    if F64.ltb (F64.abs b.entry.price) epsilon then b.entry.at lastPrice else b.entry
  match entryType with
  | .market => { b with entry := b.entry.at lastPrice, entryStopPrice := none }
  | .limit => { b with entry := kept, entryStopPrice := none }
  | .stop => { b with entry := kept, entryStopPrice := none }
  | .stopLimit =>
    { b with
      entry := kept
      entryStopPrice := if b.entryStopPrice.isNone then some kept.price else b.entryStopPrice }

/-- `apply_set_entry_type`. -/
def applySetEntryType (s : TickerState F) (entryType : EntryType) :
    TickerState F × List (TickerEffect F) :=
  { s with lastEntryType := entryType }.bump.onBracket
    (retype entryType (s.lastPrice.getD (F64.lit 0))) projectAndPersist [.persistDirty]

/-- The sign of a bracket's profits. -/
def sign (b : OrderBracket F) : F :=
  match b.side with
  | .long => F64.lit 1
  | .short => F64.lit (-1)

/-- A leg with its profit over the entry, as `apply_drag_leg` and `apply_order_filled` project it. -/
def withPnl (sign entryPrice qty : F) (leg : BracketLeg F) : BracketLeg F :=
  { leg with
    projectedPnl := some (sign * (leg.price - entryPrice) * qty)
    projectedPnlPct :=
      if F64.ltb epsilon (F64.abs entryPrice)
      then some (sign * (leg.price - entryPrice) / entryPrice * F64.lit 100)
      else none }

/-- What `apply_drag_leg` makes of a leg. -/
def dragged (b : OrderBracket F) (newPrice : F) (leg : BracketLeg F) : BracketLeg F :=
  let leg := leg.at newPrice
  if b.status = .active
  then withPnl (sign b) b.entry.price (b.quantity.getD (F64.lit 0)) leg
  else leg

/-- What `apply_drag_leg` makes of a bracket. -/
def dragLeg (b : OrderBracket F) (role : LegRole) (newPrice : F) : OrderBracket F :=
  match role with
  | .entry => { b with entry := b.entry.at newPrice }
  | .takeProfit => { b with takeProfit := b.takeProfit.map (dragged b newPrice) }
  | .stopLoss => { b with stopLoss := b.stopLoss.map (dragged b newPrice) }
  | .stopTrigger => { b with entryStopPrice := some newPrice }

/-- `apply_drag_leg`. -/
def applyDragLeg (s : TickerState F) (role : LegRole) (newPrice : F) :
    TickerState F × List (TickerEffect F) :=
  s.editBracket (dragLeg · role newPrice) project

/-- What `apply_commit` makes of a bracket. A text that is no number changes nothing. -/
def commitField (field : EditingField) (value : String) (b : OrderBracket F) : OrderBracket F :=
  match F64.parse value with
  | none => b
  | some x =>
    match field with
    | .limitPrice => { b with entry := b.entry.at x }
    | .stopPrice =>
      match b.entryType with
      | .stop => { b with entry := b.entry.at x }
      | .stopLimit => { b with entryStopPrice := some x }
      | .market | .limit => b
    | .tpValue => { b with takeProfit := b.takeProfit.map (·.at x) }
    | .slValue => { b with stopLoss := b.stopLoss.map (·.at x) }
    | .slLimitValue => b
    | .quantity => { b with quantity := some x }

/-- `apply_commit`. -/
def applyCommit (s : TickerState F) (field : EditingField) (value : String) :
    TickerState F × List (TickerEffect F) :=
  s.onBracket (commitField field value) projectAndPersist []

/-- `apply_begin_edit`. -/
def applyBeginEdit (s : TickerState F) (field : EditingField) :
    TickerState F × List (TickerEffect F) :=
  let s := s.bump
  let (s, effects) :=
    match s.editingField, s.editingValue with
    | some current, some value => if current ≠ field then s.applyCommit current value else (s, [])
    | _, _ => (s, [])
  ({ s with editingField := some field, editingValue := none }, effects)

/-- `apply_update_edit_value`. -/
def applyUpdateEditValue (s : TickerState F) (text : String) :
    TickerState F × List (TickerEffect F) :=
  ({ s with editingValue := some text }, [])

/-- `apply_commit_edit`. -/
def applyCommitEdit (s : TickerState F) (field : EditingField) (value : String) :
    TickerState F × List (TickerEffect F) :=
  let (s, effects) := s.bump.applyCommit field value
  ({ s with editingField := none, editingValue := none }, effects)

/-- `apply_cancel_edit`. -/
def applyCancelEdit (s : TickerState F) : TickerState F × List (TickerEffect F) :=
  ({ s.bump with editingField := none, editingValue := none }, [])

/-- `apply_toggle_pin`. -/
def applyTogglePin (s : TickerState F) : TickerState F × List (TickerEffect F) :=
  ({ s.bump with pinned := !s.pinned }, [.persistDirty])

/-- `instant.elapsed() <= SNAP_UNDO_TTL`. -/
def undoable (now : Now) (instant : ℕ) : Bool := decide (now.mono - instant ≤ snapUndoTtl)

/-- `apply_undo_snap`. -/
def applyUndoSnap (now : Now) (s : TickerState F) : TickerState F × List (TickerEffect F) :=
  match s.preSnap with
  | some (snap, instant) =>
    if undoable now instant then
      let s := { s.bump with entries := snap.entries, gatrAnchor := snap.gatrAnchor, preSnap := none }
      match snap.bracket with
      | some b => ({ s with liveBracket := some b }, projectAndPersist b)
      | none => (s, [.persistDirty])
    else ({ s with preSnap := none }, [])
  | none => (s, [])

/-- The anchor price and the GATR that pass the guards of `apply_maybe_snap`, if all of them do. -/
def snapGuards (now : Now) (s : TickerState F) (currentPrice : F) (gatrAbs : Option F) :
    Option (F × F) :=
  if s.pinned then none
  else if (now.utc - s.updatedAt).tdiv Instant.second < recencyGuardSecs then none
  else if !F64.isFinite currentPrice then none
  else
    match gatrAbs, s.gatrAnchor.anchorPrice with
    | some gatr, some anchorPrice =>
      if !(F64.isFinite gatr && F64.ltb minGatrAbs gatr) then none
      else if !F64.isFinite anchorPrice then none
      else if s.liveBracket.isNone && s.entries.isEmpty then none
      else if !shouldReposition anchorPrice currentPrice (some gatr) then none
      else some (anchorPrice, gatr)
    | _, _ => none

/-- The entry memory with its prices moved by `delta`. -/
def shiftEntries (entries : Entries F) (delta : F) : Entries F :=
  entries.map fun (key, mem) =>
    (key, { mem with entryPriceOrOffset := mem.entryPriceOrOffset.map (· + delta) })

/-- The toast of a snap, with its undo. -/
def snapToast (symbol : String) : TickerEffect F :=
  .toast (symbol ++ " re-anchored") (some ⟨"Undo", symbol, .undoSnap⟩)

/-- `apply_maybe_snap`. -/
def applyMaybeSnap (now : Now) (s : TickerState F) (currentPrice : F) (gatrAbs : Option F) :
    TickerState F × List (TickerEffect F) :=
  match s.snapGuards now currentPrice gatrAbs with
  | none => (s, [])
  | some (anchorPrice, gatr) =>
    let s' :=
      { s.bump with
        preSnap := some (⟨s.liveBracket, s.entries, s.gatrAnchor⟩, now.mono)
        entries := shiftEntries s.entries (currentPrice - anchorPrice)
        gatrAnchor := ⟨some currentPrice, some gatr⟩ }
    s'.onBracket (repositionBracket · currentPrice)
      (fun b => [.projectBracket b, snapToast s.symbol, .persistDirty])
      [snapToast s.symbol, .persistDirty]

/-- `apply_market_data`. -/
def applyMarketData (now : Now) (s : TickerState F) (lastPrice : F) (gatrAbs : Option F) :
    TickerState F × List (TickerEffect F) :=
  let s := { s with lastPrice := some lastPrice, gatrAbs := gatrAbs }
  if s.editingField.isSome then (s, []) else s.applyMaybeSnap now lastPrice gatrAbs

/-- `apply_add_level`. -/
def applyAddLevel (s : TickerState F) (level : StoredLevel F) :
    TickerState F × List (TickerEffect F) :=
  ({ s.bump with levels := s.levels ++ [level] },
    [.projectLevel s.levels.length level, .persistDirty])

/-- A change of the levels that needs the index to be in range. -/
def onLevel (s : TickerState F) (index : ℕ) (levels : List (StoredLevel F))
    (effects : List (TickerEffect F)) : TickerState F × List (TickerEffect F) :=
  if index < s.levels.length then ({ s.bump with levels := levels }, effects) else (s, [])

/-- `apply_remove_level`. -/
def applyRemoveLevel (s : TickerState F) (index : ℕ) : TickerState F × List (TickerEffect F) :=
  s.onLevel index (s.levels.eraseIdx index) [.persistDirty]

/-- `apply_update_level`. -/
def applyUpdateLevel (s : TickerState F) (index : ℕ) (level : StoredLevel F) :
    TickerState F × List (TickerEffect F) :=
  s.onLevel index (s.levels.set index level) [.projectLevel index level, .persistDirty]

/-- `apply_toggle_level_lock`. -/
def applyToggleLevelLock (s : TickerState F) (index : ℕ) :
    TickerState F × List (TickerEffect F) :=
  s.onLevel index (s.levels.modify index fun l => { l with locked := !l.locked }) [.persistDirty]

/-- `apply_submit_order`. -/
def applySubmitOrder (s : TickerState F) : TickerState F × List (TickerEffect F) :=
  s.editBracket (fun b => { b with status := .pending })
    fun b => [.submitToBroker b, .projectBracket b, .persistDirty]

/-- `apply_order_pending`. -/
def applyOrderPending (s : TickerState F) : TickerState F × List (TickerEffect F) :=
  s.editBracket (fun b => b) project

/-- What a fill makes of a bracket. -/
def filled (filledQty avgPrice : F) (b : OrderBracket F) : OrderBracket F :=
  let pnl := withPnl (sign b) avgPrice (b.quantity.getD filledQty)
  { b with
    status := .active
    filledQty := some filledQty
    entry := b.entry.at avgPrice
    takeProfit := b.takeProfit.map pnl
    stopLoss := b.stopLoss.map pnl }

/-- `apply_order_filled`. -/
def applyOrderFilled (s : TickerState F) (filledQty avgPrice : F) :
    TickerState F × List (TickerEffect F) :=
  let message := s.symbol ++ " filled " ++ F64.display filledQty ++ " @ " ++ F64.fixed2 avgPrice
  s.editBracket (filled filledQty avgPrice)
    fun b => [.projectBracket b, .toast message none, .persistDirty]

/-- `apply_order_partial_fill`. -/
def applyOrderPartialFill (s : TickerState F) (filledQty : F) :
    TickerState F × List (TickerEffect F) :=
  s.editBracket (fun b => { b with status := .partialFill, filledQty := some filledQty })
    projectAndPersist

/-- `apply_order_rejected`. -/
def applyOrderRejected (s : TickerState F) (reason : String) :
    TickerState F × List (TickerEffect F) :=
  s.editBracket (fun b => { b with status := .draft })
    fun b => [.projectBracket b, .toast ("Order rejected: " ++ reason) none]

/-- `apply_order_cancelled`. -/
def applyOrderCancelled (s : TickerState F) : TickerState F × List (TickerEffect F) :=
  s.editBracket (fun b => { b with status := .draft })
    fun b => [.projectBracket b, .toast (s.symbol ++ " bracket cancelled") none, .persistDirty]

/-- `apply_save_camera`. -/
def applySaveCamera (s : TickerState F) (timeStart timeEnd priceLow priceHigh : F)
    (wasAtLiveEdge : Bool) : TickerState F × List (TickerEffect F) :=
  ({ s.bump with
      cameraTimeStart := some timeStart
      cameraTimeEnd := some timeEnd
      cameraPriceLow := some priceLow
      cameraPriceHigh := some priceHigh
      cameraWasAtLiveEdge := wasAtLiveEdge },
    [.persistDirty])

/-- `apply`, with the clocks as they stand when the message is taken. -/
def apply (now : Now) (s : TickerState F) : TickerMsg F → TickerState F × List (TickerEffect F)
  | .setBracketMode mode => s.applySetBracketMode mode
  | .ensureDraftBracket side entryType => s.applyEnsureDraft side entryType
  | .cancelBracket => s.applyCancelBracket
  | .saveBracket => s.applySaveBracket
  | .deleteBracket => s.applyDeleteBracket
  | .recallBracket => s.applyRecallBracket
  | .setLegPrice role price => s.applySetLegPrice role price
  | .setTpEnabled enabled => s.applySetTpEnabled enabled
  | .setSlEnabled enabled => s.applySetSlEnabled enabled
  | .setQuantity qty => s.applySetQuantity qty
  | .setSide side => s.applySetSide side
  | .setEntryType entryType => s.applySetEntryType entryType
  | .dragLeg role newPrice => s.applyDragLeg role newPrice
  | .beginEdit field => s.applyBeginEdit field
  | .updateEditValue text => s.applyUpdateEditValue text
  | .commitEdit field value => s.applyCommitEdit field value
  | .cancelEdit => s.applyCancelEdit
  | .maybeSnap currentPrice gatrAbs => s.applyMaybeSnap now currentPrice gatrAbs
  | .togglePin => s.applyTogglePin
  | .undoSnap => s.applyUndoSnap now
  | .updateMarketData lastPrice gatrAbs => s.applyMarketData now lastPrice gatrAbs
  | .addLevel level => s.applyAddLevel level
  | .removeLevel index => s.applyRemoveLevel index
  | .updateLevel index level => s.applyUpdateLevel index level
  | .toggleLevelLock index => s.applyToggleLevelLock index
  | .submitOrder => s.applySubmitOrder
  | .orderPending _ => s.applyOrderPending
  | .orderFilled filledQty avgPrice => s.applyOrderFilled filledQty avgPrice
  | .orderPartialFill filledQty => s.applyOrderPartialFill filledQty
  | .orderRejected reason => s.applyOrderRejected reason
  | .orderCancelled => s.applyOrderCancelled
  | .saveCameraState timeStart timeEnd priceLow priceHigh wasAtLiveEdge =>
    s.applySaveCamera timeStart timeEnd priceLow priceHigh wasAtLiveEdge
  | .markSnappedThisSession => ({ s with session := { s.session with snapped := true } }, [])
  | .markAnchorSeedToastShown =>
    ({ s with session := { s.session with anchorSeedToastShown := true } }, [])
  | .storeGatrUndo snap => ({ s with session := { s.session with gatrUndo := some snap } }, [])
  | .clearGatrUndo => ({ s with session := { s.session with gatrUndo := none } }, [])
  | .hydrated _ => (s, [])

/-- The clocks at the start of a run. -/
def start : Now := ⟨0, 0⟩

/-- One step of a run of messages, each with the clocks it is taken at. -/
def take (s : TickerState F) (op : Now × TickerMsg F) : TickerState F := (s.apply op.1 op.2).1

end TickerState

end Midas.Ticker
