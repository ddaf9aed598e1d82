import HandOfMidas.Lib.Run
import HandOfMidas.Ticker.Apply

/-! What a ticker leaves on disk. A message that changes a persisted field marks the ticker dirty
    and bumps its generation, but for three edits of the bracket and a rejection. -/

namespace Midas.Ticker.TickerState

variable {F : Type}

/-- The persisted fields. -/
structure Persisted (F : Type) where
  liveBracket : Option (OrderBracket F)
  levels : List (StoredLevel F)
  entries : Entries F
  gatrAnchor : GatrAnchor F
  pinned : Bool
  lastSide : OrderSide
  lastEntryType : EntryType
  camera : Option F × Option F × Option F × Option F × Bool
  bracketMode : Option OrderSide
  deriving DecidableEq

def persisted (s : TickerState F) : Persisted F where
  liveBracket := s.liveBracket
  levels := s.levels
  entries := s.entries
  gatrAnchor := s.gatrAnchor
  pinned := s.pinned
  lastSide := s.lastSide
  lastEntryType := s.lastEntryType
  camera := (s.cameraTimeStart, s.cameraTimeEnd, s.cameraPriceLow, s.cameraPriceHigh,
    s.cameraWasAtLiveEdge)
  bracketMode := s.bracketMode

/-- `handle_ticker_effects` as far as the disk goes: `ticker_persist.upsert` of the state as it is. -/
def saveEffect (x : TickerState F × Persisted F) : TickerEffect F → TickerState F × Persisted F
  | .persistDirty => (x.1, x.1.persisted)
  | _ => x

/-- The disk holds the persisted fields as they are. -/
def OnDisk (x : TickerState F × Persisted F) : Prop := x.2 = x.1.persisted

/-- A result is either marked dirty, with the generation grown, or has the persisted fields as they
    were. -/
def Saved (s : TickerState F) (r : TickerState F × List (TickerEffect F)) : Prop :=
  r.1.persisted = s.persisted ∨ .persistDirty ∈ r.2 ∧ s.generation < r.1.generation

theorem saved_onBracket {s t : TickerState F} {f : OrderBracket F → OrderBracket F}
    {effects : OrderBracket F → List (TickerEffect F)} {otherwise : List (TickerEffect F)}
    (hgen : s.generation < t.generation) (heffects : ∀ b, .persistDirty ∈ effects b)
    (hotherwise : t.persisted = s.persisted ∨ .persistDirty ∈ otherwise) :
    Saved s (t.onBracket f effects otherwise) := by
  unfold onBracket
  split
  · exact .inr ⟨heffects _, hgen⟩
  · exact hotherwise.imp id fun h => ⟨h, hgen⟩

theorem saved_editBracket {s : TickerState F} {f : OrderBracket F → OrderBracket F}
    {effects : OrderBracket F → List (TickerEffect F)} (heffects : ∀ b, .persistDirty ∈ effects b) :
    Saved s (s.editBracket f effects) := by
  unfold editBracket
  split
  · exact saved_onBracket (Nat.lt_succ_self _) heffects (.inl rfl)
  · exact .inl rfl

theorem persistDirty_mem_projectAndPersist (b : OrderBracket F) :
    .persistDirty ∈ projectAndPersist b := by
  simp [projectAndPersist]

theorem persistDirty_mem_removal (s : TickerState F) : .persistDirty ∈ s.removal := by
  unfold removal
  split <;> simp

theorem saved_applyUndoSnap (now : Now) (s : TickerState F) : Saved s (s.applyUndoSnap now) := by
  unfold applyUndoSnap
  split
  · split
    · dsimp only
      split
      · exact .inr ⟨persistDirty_mem_projectAndPersist _, Nat.lt_succ_self _⟩
      · exact .inr ⟨List.mem_singleton.mpr rfl, Nat.lt_succ_self _⟩
    · exact .inl rfl
  · exact .inl rfl

theorem saved_onLevel {s : TickerState F} {index : ℕ} {levels : List (StoredLevel F)}
    {effects : List (TickerEffect F)} (heffects : .persistDirty ∈ effects) :
    Saved s (s.onLevel index levels effects) := by
  unfold onLevel
  split
  · exact .inr ⟨heffects, Nat.lt_succ_self _⟩
  · exact .inl rfl

variable [F64 F]

/-- If a message changes a persisted field, it is marked dirty and the generation grows. -/
def SavesChanges (s : TickerState F) (op : Now × TickerMsg F) : Prop :=
  (s.take op).persisted ≠ s.persisted →
    .persistDirty ∈ (s.apply op.1 op.2).2 ∧ s.generation < (s.take op).generation

/-- The edits that no effect saves change nothing: the price is the leg's already (and its profit,
    where a drag projects it), the quantity is the bracket's, the rejected bracket is a draft. -/
def ChangesAreMarked (s : TickerState F) (op : Now × TickerMsg F) : Prop :=
  ∀ b, s.liveBracket = some b →
    match op.2 with
    | .setLegPrice role price =>
      match role with
      | .entry => b.entry.price = price
      | .takeProfit => ∀ tp ∈ b.takeProfit, tp.price = price
      | .stopLoss => ∀ sl ∈ b.stopLoss, sl.price = price
      | .stopTrigger => b.entryStopPrice = some price
    | .dragLeg role price =>
      let projected (leg : BracketLeg F) : Prop := b.status = .active →
        withPnl (sign b) b.entry.price (b.quantity.getD (F64.lit 0)) leg = leg
      match role with
      | .entry => b.entry.price = price
      | .takeProfit => ∀ tp ∈ b.takeProfit, tp.price = price ∧ projected tp
      | .stopLoss => ∀ sl ∈ b.stopLoss, sl.price = price ∧ projected sl
      | .stopTrigger => b.entryStopPrice = some price
    | .setQuantity qty => b.quantity = some qty
    | .orderRejected _ => b.status = .draft
    | _ => True

/-- The messages whose changes of the bracket are not saved. -/
def Unsaved : TickerMsg F → Prop
  | .setLegPrice _ _ | .dragLeg _ _ | .setQuantity _ | .orderRejected _ => True
  | _ => False

theorem saved_applyEnsureDraft (s : TickerState F) (side : OrderSide) (entryType : EntryType) :
    Saved s (s.applyEnsureDraft side entryType) := by
  cases h : s.bracketMode with
  | none => exact .inl (by rw [applyEnsureDraft_of_off h])
  | some mode =>
    rw [applyEnsureDraft_of_on h]
    exact .inr ⟨persistDirty_mem_projectAndPersist _, Nat.lt_succ_self _⟩

omit [F64 F] in
theorem saved_applyCancelBracket (s : TickerState F) : Saved s s.applyCancelBracket := by
  unfold applyCancelBracket
  dsimp only
  split
  · exact .inr ⟨persistDirty_mem_removal _, Nat.lt_succ_self _⟩
  · exact .inl rfl

omit [F64 F] in
@[simp] theorem applyCancelBracket_generation (s : TickerState F) :
    s.applyCancelBracket.1.generation = s.generation + 1 := by
  unfold applyCancelBracket
  dsimp only
  split <;> rfl

theorem saved_applyMaybeSnap (now : Now) (s : TickerState F) (p : F) (g : Option F) :
    Saved s (s.applyMaybeSnap now p g) := by
  unfold applyMaybeSnap
  split
  · exact .inl rfl
  · exact saved_onBracket (Nat.lt_succ_self _) (by simp) (.inr (by simp))

theorem saved_applyCommit {s : TickerState F} (field : EditingField) (value : String) :
    Saved s (s.bump.applyCommit field value) :=
  saved_onBracket (Nat.lt_succ_self _) persistDirty_mem_projectAndPersist (.inl rfl)

/-- Every other message saves what it changes. -/
theorem saved_apply (now : Now) (s : TickerState F) (msg : TickerMsg F) (h : ¬Unsaved msg) :
    Saved s (s.apply now msg) := by
  cases msg with
  | setLegPrice _ _ | dragLeg _ _ | setQuantity _ | orderRejected _ => exact absurd trivial h
  | setBracketMode mode =>
    cases mode with
    | none =>
      have hcancelled := applyCancelBracket_generation { s.bump with bracketMode := none }
      exact .inr ⟨mem_withPersist.mpr (.inr rfl),
        (Nat.lt_add_of_pos_right Nat.two_pos).trans_eq hcancelled.symm⟩
    | some side =>
      simp only [apply, applySetBracketMode_some]
      exact .inr ⟨persistDirty_mem_projectAndPersist _, Nat.lt_add_of_pos_right Nat.two_pos⟩
  | ensureDraftBracket side entryType => exact saved_applyEnsureDraft s side entryType
  | cancelBracket => exact saved_applyCancelBracket s
  | deleteBracket => exact .inr ⟨persistDirty_mem_removal s, Nat.lt_succ_self _⟩
  | saveBracket | recallBracket =>
    exact saved_onBracket (Nat.lt_succ_self _) persistDirty_mem_projectAndPersist (.inl rfl)
  | setSide _ | setEntryType _ =>
    exact saved_onBracket (Nat.lt_succ_self _) persistDirty_mem_projectAndPersist
      (.inr (List.mem_singleton.mpr rfl))
  | setTpEnabled _ | setSlEnabled _ | orderPartialFill _ =>
    exact saved_editBracket persistDirty_mem_projectAndPersist
  | submitOrder | orderFilled _ _ | orderCancelled => exact saved_editBracket (by simp)
  | orderPending _ =>
    cases hlive : s.liveBracket with
    | none => exact .inl (by simp [apply, applyOrderPending, editBracket_of_none hlive])
    | some b =>
      exact .inl (by simp [apply, applyOrderPending, editBracket_of_live hlive, persisted, bump, hlive])
  | commitEdit field value => exact saved_applyCommit field value
  | beginEdit field =>
    simp only [apply, applyBeginEdit]
    split
    · split
      · exact saved_applyCommit _ _
      · exact .inl rfl
    · exact .inl rfl
  | maybeSnap p g => exact saved_applyMaybeSnap now s p g
  | undoSnap => exact saved_applyUndoSnap now s
  | updateMarketData p g =>
    simp only [apply, applyMarketData]
    split
    · exact .inl rfl
    · exact saved_applyMaybeSnap now { s with lastPrice := some p, gatrAbs := g } p g
  | removeLevel _ | updateLevel _ _ | toggleLevelLock _ => exact saved_onLevel (by simp)
  | addLevel _ | togglePin | saveCameraState _ _ _ _ _ =>
    exact .inr ⟨by simp [apply, applyAddLevel, applyTogglePin, applySaveCamera],
      Nat.lt_succ_self _⟩
  | updateEditValue _ | cancelEdit | markSnappedThisSession | markAnchorSeedToastShown
  | storeGatrUndo _ | clearGatrUndo | hydrated _ => exact .inl rfl

omit [F64 F] in
theorem map_eq_self_iff {leg : Option (BracketLeg F)} {f : BracketLeg F → BracketLeg F} :
    leg.map f = leg ↔ ∀ l ∈ leg, f l = l := by
  cases leg <;> simp

omit [F64 F] in
theorem at_eq_self_iff {leg : BracketLeg F} {price : F} : leg.at price = leg ↔ leg.price = price := by
  obtain ⟨p, role, pnl, pct⟩ := leg
  simp [BracketLeg.at, eq_comm]

/-- A drag leaves a leg as it is when its price is the leg's and, on an active bracket, its profit
    is the one projected there. -/
theorem dragged_eq_self_iff {b : OrderBracket F} {price : F} {leg : BracketLeg F} :
    dragged b price leg = leg ↔ leg.price = price ∧
      (b.status = .active →
        withPnl (sign b) b.entry.price (b.quantity.getD (F64.lit 0)) leg = leg) := by
  unfold dragged
  dsimp only
  split
  · rename_i hactive
    constructor
    · intro h
      have hprice : leg.price = price := by rw [← h]; rfl
      exact ⟨hprice, fun _ => by rwa [at_eq_self_iff.mpr hprice] at h⟩
    · rintro ⟨hprice, hpnl⟩
      rw [at_eq_self_iff.mpr hprice]
      exact hpnl hactive
  · rename_i hactive
    rw [at_eq_self_iff]
    exact ⟨fun h => ⟨h, fun ha => absurd ha hactive⟩, And.left⟩

/-- What an unsaved message makes of the live bracket. -/
def unsavedEdit (msg : TickerMsg F) (b : OrderBracket F) : OrderBracket F :=
  match msg with
  | .setLegPrice role price => setLeg b role price
  | .dragLeg role price => dragLeg b role price
  | .setQuantity qty => { b with quantity := some qty }
  | .orderRejected _ => { b with status := .draft }
  | _ => b

theorem unsavedEdit_eq_self_iff {s : TickerState F} {b : OrderBracket F}
    (h : s.liveBracket = some b) (op : Now × TickerMsg F) :
    unsavedEdit op.2 b = b ↔ s.ChangesAreMarked op := by
  obtain ⟨now, msg⟩ := op
  obtain ⟨entry, tp, sl, side, status, qty, saved, filled, type, stop, warning⟩ := b
  simp only [ChangesAreMarked, h, Option.some.injEq, forall_eq']
  cases msg with
  | setLegPrice role price =>
    cases role <;>
      simp [unsavedEdit, setLeg, at_eq_self_iff, map_eq_self_iff, @eq_comm _ (some price) stop]
  | dragLeg role price =>
    cases role <;>
      simp [unsavedEdit, dragLeg, at_eq_self_iff, map_eq_self_iff, dragged_eq_self_iff,
        @eq_comm _ (some price) stop]
  | setQuantity x => simp [unsavedEdit, @eq_comm _ (some x) qty]
  | orderRejected _ => simp [unsavedEdit, @eq_comm _ BracketStatus.draft status]
  | _ => simp [unsavedEdit]

/-- An unsaved message changes nothing that is persisted but the live bracket. -/
theorem unsaved_apply (s : TickerState F) (now : Now) {msg : TickerMsg F} (h : Unsaved msg) :
    .persistDirty ∉ (s.apply now msg).2 ∧
      (s.apply now msg).1.persisted =
        { s.persisted with liveBracket := s.liveBracket.map (unsavedEdit msg) } := by
  cases hlive : s.liveBracket with
  | none =>
    cases msg with
    | setLegPrice _ _ | dragLeg _ _ | setQuantity _ | orderRejected _ =>
      simp [apply, applySetLegPrice, applyDragLeg, applySetQuantity, applyOrderRejected,
        editBracket_of_none hlive, persisted, hlive]
    | _ => exact absurd h id
  | some b =>
    cases msg with
    | setLegPrice _ _ | dragLeg _ _ | setQuantity _ | orderRejected _ =>
      simp [apply, applySetLegPrice, applyDragLeg, applySetQuantity, applyOrderRejected,
        editBracket_of_live hlive, persisted, bump, project, unsavedEdit]
    | _ => exact absurd h id

/-- The persisted fields are saved or unchanged exactly when no unsaved edit changes the bracket. -/
theorem saved_iff (s : TickerState F) (op : Now × TickerMsg F) :
    Saved s (s.apply op.1 op.2) ↔ s.ChangesAreMarked op := by
  by_cases hop : Unsaved op.2
  · obtain ⟨hdirty, hpersisted⟩ := unsaved_apply s op.1 hop
    rw [Saved, or_iff_left fun h => hdirty h.1, hpersisted]
    cases hlive : s.liveBracket with
    | none => simp [ChangesAreMarked, persisted, hlive]
    | some b =>
      rw [← unsavedEdit_eq_self_iff hlive]
      simp [persisted, hlive]
  · refine iff_of_true (saved_apply op.1 s op.2 hop) fun b _ => ?_
    obtain ⟨now, msg⟩ := op
    cases msg with
    | setLegPrice _ _ | dragLeg _ _ | setQuantity _ | orderRejected _ => exact absurd trivial hop
    | _ => trivial

/-- A message applied and its effects carried out on the disk. -/
def updateDisk (x : TickerState F × Persisted F) (op : Now × TickerMsg F) :
    TickerState F × Persisted F :=
  (x.1.apply op.1 op.2).2.foldl saveEffect ((x.1.apply op.1 op.2).1, x.2)

omit [F64 F] in
/-- A list of effects saves the state when it marks it dirty. -/
theorem foldl_saveEffect (s : TickerState F) (disk : Persisted F)
    (effects : List (TickerEffect F)) :
    effects.foldl saveEffect (s, disk) = (s, s.persisted) ∧ .persistDirty ∈ effects ∨
      effects.foldl saveEffect (s, disk) = (s, disk) ∧ .persistDirty ∉ effects := by
  induction effects generalizing disk with
  | nil => exact .inr ⟨rfl, by simp⟩
  | cons e effects ih =>
    cases e with
    | persistDirty =>
      rcases ih s.persisted with ⟨h, -⟩ | ⟨h, -⟩
      · exact .inl ⟨h, List.mem_cons_self⟩
      · exact .inl ⟨h, List.mem_cons_self⟩
    | _ => simpa [saveEffect] using ih disk

/-- From a disk that holds the ticker, a message leads to one that does exactly when its changes
    are marked. -/
theorem onDisk_updateDisk_iff {x : TickerState F × Persisted F} (op : Now × TickerMsg F)
    (h : OnDisk x) : OnDisk (updateDisk x op) ↔ x.1.ChangesAreMarked op := by
  rw [← saved_iff]
  obtain ⟨s, disk⟩ := x
  have hdisk : disk = s.persisted := h
  subst hdisk
  rcases foldl_saveEffect (s.apply op.1 op.2).1 s.persisted (s.apply op.1 op.2).2 with
    ⟨hfold, hdirty⟩ | ⟨hfold, hdirty⟩
  · refine iff_of_true ?_ ?_
    · simp only [OnDisk, updateDisk, hfold]
    · by_cases hop : Unsaved op.2
      · exact absurd hdirty (unsaved_apply _ _ hop).1
      · exact saved_apply op.1 s op.2 hop
  · simp only [OnDisk, updateDisk, hfold, Saved, hdirty, false_and, or_false]
    exact eq_comm

/-- A message keeps the claim on what it changes exactly when its changes are marked. -/
theorem savesChanges_iff (s : TickerState F) (op : Now × TickerMsg F) :
    s.SavesChanges op ↔ s.ChangesAreMarked op := by
  rw [← saved_iff]
  exact or_iff_not_imp_left.symm

/-- No edit is lost on restart: a message marks what it changes, and the disk holds the ticker after
    every message of a run, exactly when none of the unsaved edits changes the bracket. -/
theorem edits_saved_iff (s : TickerState F) :
    (∀ op, s.SavesChanges op ↔ s.ChangesAreMarked op) ∧
      ∀ ops, AllStates updateDisk OnDisk (s, s.persisted) ops ↔
        AllSteps updateDisk (fun x op => x.1.ChangesAreMarked op) (s, s.persisted) ops :=
  ⟨savesChanges_iff s, fun ops =>
    allStates_iff_allSteps updateDisk (I := fun _ => True) (Q := OnDisk) (s := (s, s.persisted))
      (fun _ _ => id) (fun _ op _ => onDisk_updateDisk_iff op) trivial rfl ops⟩

/-- A leg price that is typed in is not saved, nor is the draft that a rejection leaves. -/
theorem price_and_rejection_lost :
    ¬AllStates updateDisk OnDisk
        ((.new "AAPL" 0 : TickerState ℚ), (.new "AAPL" 0 : TickerState ℚ).persisted)
        [(start, .setBracketMode (some .buy)), (start, .setLegPrice .entry 150)] ∧
      ¬AllStates updateDisk OnDisk
        ((.new "AAPL" 0 : TickerState ℚ), (.new "AAPL" 0 : TickerState ℚ).persisted)
        [(start, .setBracketMode (some .buy)), (start, .submitOrder),
          (start, .orderRejected "margin")] := by
  constructor
  all_goals
    intro h
    have hdisk := AllStates.last updateDisk h
    unfold OnDisk at hdisk
    revert hdisk
    decide +kernel

end Midas.Ticker.TickerState
