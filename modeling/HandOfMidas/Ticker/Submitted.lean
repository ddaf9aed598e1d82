import HandOfMidas.Lib.Run
import HandOfMidas.Ticker.Apply

/-! A bracket that the broker holds an order for is not sent again until a message ends that
    order, in the runs whose messages spare such a bracket. -/

namespace Midas.Ticker.TickerState

variable {F : Type}

/-- The messages that end a submission. -/
def Ends : TickerMsg F → Prop
  | .orderRejected _ | .orderCancelled | .cancelBracket | .deleteBracket => True
  | _ => False

instance : DecidablePred (Ends (F := F)) := fun msg => by
  cases msg <;> unfold Ends <;> infer_instance

/-- The live bracket is one that the broker holds an order for. -/
def Submitted (s : TickerState F) : Prop := ∃ b, s.liveBracket = some b ∧ b.status.isSubmitted = true

/-- Nothing is sent to the broker. -/
def Quiet (r : TickerState F × List (TickerEffect F)) : Prop := ∀ b, .submitToBroker b ∉ r.2

theorem quiet_onBracket {s : TickerState F} {f : OrderBracket F → OrderBracket F}
    {effects : OrderBracket F → List (TickerEffect F)} {otherwise : List (TickerEffect F)}
    (he : ∀ b b', .submitToBroker b ∉ effects b') (ho : ∀ b, .submitToBroker b ∉ otherwise) :
    Quiet (s.onBracket f effects otherwise) := by
  unfold onBracket
  split
  · exact fun b => he b _
  · exact ho

theorem quiet_editBracket {s : TickerState F} {f : OrderBracket F → OrderBracket F}
    {effects : OrderBracket F → List (TickerEffect F)}
    (he : ∀ b b', .submitToBroker b ∉ effects b') : Quiet (s.editBracket f effects) := by
  unfold editBracket
  split
  · exact quiet_onBracket he (by simp)
  · simp [Quiet]

theorem not_mem_projectAndPersist (b b' : OrderBracket F) :
    .submitToBroker b ∉ projectAndPersist b' := by
  simp [projectAndPersist]

theorem quiet_removal (s : TickerState F) (b : OrderBracket F) : .submitToBroker b ∉ s.removal := by
  unfold removal
  split <;> simp

variable [F64 F]

/-- The message has the bracket sent to the broker. -/
def Sends (s : TickerState F) (op : Now × TickerMsg F) : Prop :=
  ∃ b, .submitToBroker b ∈ (s.apply op.1 op.2).2

/-- The message neither sends a submitted bracket again nor makes anything else of it, unless it
    ends the submission. -/
def KeepsOrder (s : TickerState F) (op : Now × TickerMsg F) : Prop :=
  s.Submitted → ¬Ends op.2 → (s.take op).Submitted ∧ ¬s.Sends op

/-- Between any two sends of the run stands a message that ends the first. -/
def NeverTwice (s : TickerState F) (ops : List (Now × TickerMsg F)) : Prop :=
  ∀ pre op mid op', pre ++ op :: mid ++ [op'] <+: ops → (run take s pre).Sends op →
    (run take s (pre ++ op :: mid)).Sends op' → ∃ o ∈ mid, Ends o.2

/-- When a message leaves a submitted bracket alone: no mode toggle and no second submit, a draft
    asked for only where brackets are off, an undo only to a bracket just as submitted, and no
    message that normalizes the bracket while its entry is not positive. -/
def SparesOrder (s : TickerState F) (op : Now × TickerMsg F) : Prop :=
  ∀ b, s.liveBracket = some b → b.status.isSubmitted = true →
    match op.2 with
    | .setBracketMode _ => False
    | .submitOrder => False
    | .ensureDraftBracket _ _ => s.bracketMode = none
    | .setSide _ => F64.leb b.entry.price (F64.lit 0) = false
    | .recallBracket => F64.leb (s.recalled b).entry.price (F64.lit 0) = false
    | .undoSnap =>
      ∀ snap instant, s.preSnap = some (snap, instant) → undoable op.1 instant = true →
        ∀ b', snap.bracket = some b' → b'.status.isSubmitted = true
    | _ => True

theorem isSubmitted_normalizeBracket (b : OrderBracket F) :
    (normalizeBracket b).status.isSubmitted = true ↔
      b.status.isSubmitted = true ∧ F64.leb b.entry.price (F64.lit 0) = false := by
  unfold normalizeBracket
  cases h : F64.leb b.entry.price (F64.lit 0) <;> simp [BracketStatus.isSubmitted]

theorem quiet_applyEnsureDraft (s : TickerState F) (side : OrderSide) (entryType : EntryType) :
    Quiet (s.applyEnsureDraft side entryType) := by
  cases h : s.bracketMode with
  | none => simp [applyEnsureDraft_of_off h, Quiet]
  | some mode =>
    rw [applyEnsureDraft_of_on h]
    exact fun b => not_mem_projectAndPersist b _

omit [F64 F] in
theorem quiet_applyCancelBracket (s : TickerState F) : Quiet s.applyCancelBracket := by
  unfold applyCancelBracket
  dsimp only
  split
  · exact quiet_removal _
  · simp [Quiet]

theorem quiet_applyMaybeSnap (now : Now) (s : TickerState F) (currentPrice : F)
    (gatrAbs : Option F) : Quiet (s.applyMaybeSnap now currentPrice gatrAbs) := by
  unfold applyMaybeSnap
  split
  · simp [Quiet]
  · exact quiet_onBracket (by simp [snapToast]) (by simp [snapToast])

omit [F64 F] in
theorem quiet_applyUndoSnap (now : Now) (s : TickerState F) : Quiet (s.applyUndoSnap now) := by
  unfold applyUndoSnap
  split
  · split
    · dsimp only
      split
      · exact fun b => not_mem_projectAndPersist b _
      · simp [Quiet]
    · simp [Quiet]
  · simp [Quiet]

/-- No message but `SubmitOrder` sends anything. -/
theorem quiet_apply (now : Now) (s : TickerState F) (msg : TickerMsg F) (h : msg ≠ .submitOrder) :
    Quiet (s.apply now msg) := by
  cases msg with
  | submitOrder => exact absurd rfl h
  | setBracketMode mode =>
    cases mode with
    | none =>
      intro b hb
      rcases mem_withPersist.mp hb with hb | hb
      · exact quiet_applyCancelBracket _ b hb
      · cases hb
    | some side =>
      simp only [apply, applySetBracketMode_some]
      exact fun b => not_mem_projectAndPersist b _
  | ensureDraftBracket side entryType => exact quiet_applyEnsureDraft s side entryType
  | cancelBracket => exact quiet_applyCancelBracket s
  | deleteBracket => exact quiet_removal s
  | saveBracket | recallBracket => exact quiet_onBracket not_mem_projectAndPersist (by simp)
  | setSide _ | setEntryType _ => exact quiet_onBracket not_mem_projectAndPersist (by simp)
  | setTpEnabled _ | setSlEnabled _ | orderPartialFill _ =>
    exact quiet_editBracket not_mem_projectAndPersist
  | setLegPrice _ _ | setQuantity _ | dragLeg _ _ | orderPending _ =>
    exact quiet_editBracket (by simp [project])
  | orderFilled _ _ | orderRejected _ | orderCancelled => exact quiet_editBracket (by simp)
  | commitEdit field value => exact quiet_onBracket not_mem_projectAndPersist (by simp)
  | beginEdit field =>
    simp only [apply, applyBeginEdit]
    split
    · split
      · exact quiet_onBracket not_mem_projectAndPersist (by simp)
      · simp [Quiet]
    · simp [Quiet]
  | maybeSnap p g => exact quiet_applyMaybeSnap now s p g
  | undoSnap => exact quiet_applyUndoSnap now s
  | updateMarketData p g =>
    simp only [apply, applyMarketData]
    split
    · simp [Quiet]
    · exact quiet_applyMaybeSnap now _ p g
  | removeLevel _ | updateLevel _ _ | toggleLevelLock _ =>
    simp only [apply, applyRemoveLevel, applyUpdateLevel, applyToggleLevelLock, onLevel]
    split <;> simp [Quiet]
  | addLevel _ => simp [apply, applyAddLevel, Quiet]
  | togglePin => simp [apply, applyTogglePin, Quiet]
  | saveCameraState _ _ _ _ _ => simp [apply, applySaveCamera, Quiet]
  | updateEditValue _ | cancelEdit | markSnappedThisSession | markAnchorSeedToastShown
  | storeGatrUndo _ | clearGatrUndo | hydrated _ => exact fun b h => absurd h (by simp [apply,
      applyUpdateEditValue, applyCancelEdit])

/-- Only `SubmitOrder` sends, and only a live bracket. -/
theorem sends_iff (s : TickerState F) (op : Now × TickerMsg F) :
    s.Sends op ↔ op.2 = .submitOrder ∧ s.liveBracket.isSome := by
  constructor
  · rintro ⟨b, hb⟩
    have hmsg : op.2 = .submitOrder := by
      by_contra hne
      exact quiet_apply op.1 s op.2 hne b hb
    refine ⟨hmsg, ?_⟩
    rw [hmsg] at hb
    cases h : s.liveBracket with
    | none => simp [apply, applySubmitOrder, editBracket_of_none h] at hb
    | some b => rfl
  · rintro ⟨hmsg, hlive⟩
    obtain ⟨b, h⟩ := Option.isSome_iff_exists.mp hlive
    refine ⟨{ b with status := .pending }, ?_⟩
    rw [hmsg]
    simp [apply, applySubmitOrder, editBracket_of_live h]

theorem not_isSubmitted_normalizeBracket {b : OrderBracket F} (h : b.status = .draft) :
    (normalizeBracket b).status.isSubmitted = false := by
  unfold normalizeBracket
  cases F64.leb b.entry.price (F64.lit 0) <;> simp [BracketStatus.isSubmitted, h]

/-- A draft asked for is no submitted bracket, whatever it replaces. -/
theorem not_isSubmitted_drafted (s : TickerState F) (side : OrderSide) (entryType : EntryType) :
    (s.drafted side entryType).status.isSubmitted = false := by
  unfold drafted
  split
  · exact not_isSubmitted_normalizeBracket rfl
  · rfl

@[simp] theorem recalled_status (s : TickerState F) (b : OrderBracket F) :
    (s.recalled b).status = b.status := by
  unfold recalled
  dsimp only
  split <;> rfl

omit [F64 F] in
@[simp] theorem setLeg_status (b : OrderBracket F) (role : LegRole) (price : F) :
    (setLeg b role price).status = b.status := by
  cases role <;> rfl

@[simp] theorem dragLeg_status (b : OrderBracket F) (role : LegRole) (price : F) :
    (dragLeg b role price).status = b.status := by
  cases role <;> rfl

@[simp] theorem retype_status (entryType : EntryType) (last : F) (b : OrderBracket F) :
    (retype entryType last b).status = b.status := by
  cases entryType <;> rfl

@[simp] theorem commitField_status (field : EditingField) (value : String) (b : OrderBracket F) :
    (commitField field value b).status = b.status := by
  unfold commitField
  split
  · rfl
  · cases field with
    | stopPrice => dsimp only; split <;> rfl
    | _ => rfl

omit [F64 F] in
/-- A handler that changes the bracket by `f` leaves it just as submitted as `f` of it is. -/
theorem submitted_onBracket {s : TickerState F} {b : OrderBracket F} (h : s.liveBracket = some b)
    {f : OrderBracket F → OrderBracket F} {effects : OrderBracket F → List (TickerEffect F)}
    {otherwise : List (TickerEffect F)} :
    (s.onBracket f effects otherwise).1.Submitted ↔ (f b).status.isSubmitted = true := by
  simp [onBracket_of_live h, Submitted]

omit [F64 F] in
theorem submitted_editBracket {s : TickerState F} {b : OrderBracket F} (h : s.liveBracket = some b)
    {f : OrderBracket F → OrderBracket F} {effects : OrderBracket F → List (TickerEffect F)} :
    (s.editBracket f effects).1.Submitted ↔ (f b).status.isSubmitted = true := by
  simp [editBracket_of_live h, Submitted]

theorem submitted_applyCommit {s : TickerState F} {b : OrderBracket F} (h : s.liveBracket = some b)
    (hb : b.status.isSubmitted = true) (field : EditingField) (value : String) :
    (s.applyCommit field value).1.Submitted :=
  (submitted_onBracket h).mpr (by simpa using hb)

theorem submitted_applyMaybeSnap {now : Now} {s : TickerState F} {b : OrderBracket F}
    (h : s.liveBracket = some b) (hb : b.status.isSubmitted = true) (p : F) (g : Option F) :
    (s.applyMaybeSnap now p g).1.Submitted := by
  unfold applyMaybeSnap
  split
  · exact ⟨b, h, hb⟩
  · exact (submitted_onBracket (by exact h)).mpr (by exact hb)

/-- What a message makes of a submitted bracket that it does not end or send: it keeps it submitted
    exactly when it spares it. -/
theorem submitted_take_iff {s : TickerState F} {b : OrderBracket F} (h : s.liveBracket = some b)
    (hb : b.status.isSubmitted = true) (op : Now × TickerMsg F) (hop : ¬Ends op.2)
    (hsub : op.2 ≠ .submitOrder) : (s.take op).Submitted ↔ s.SparesOrder op := by
  have same : s.Submitted := ⟨b, h, hb⟩
  -- The messages that spare every bracket are those that `SparesOrder` says nothing of.
  have spared {msg : TickerMsg F} (hs : (s.take (op.1, msg)).Submitted)
      (hm : s.SparesOrder (op.1, msg) ↔ True) :
      (s.take (op.1, msg)).Submitted ↔ s.SparesOrder (op.1, msg) := iff_of_true hs (hm.mpr trivial)
  obtain ⟨now, msg⟩ := op
  cases msg with
  | submitOrder => exact absurd rfl hsub
  | orderRejected _ | orderCancelled | cancelBracket | deleteBracket => exact absurd trivial hop
  | setBracketMode mode =>
    refine iff_of_false ?_ fun hs => hs b h hb
    cases mode with
    | none => simp [take, apply, applySetBracketMode_none, applyCancelBracket, bump, h, Submitted]
    | some side => simp [take, apply, applySetBracketMode_some, Submitted, not_isSubmitted_drafted]
  | ensureDraftBracket side entryType =>
    cases hm : s.bracketMode with
    | none => simp [take, apply, applyEnsureDraft_of_off hm, Submitted, SparesOrder, h, hb, hm]
    | some mode =>
      simp [take, apply, applyEnsureDraft_of_on hm, Submitted, SparesOrder, h, hb, hm,
        not_isSubmitted_drafted]
  | recallBracket =>
    refine (submitted_onBracket (by exact h)).trans ?_
    simp [isSubmitted_normalizeBracket, SparesOrder, h, hb]
  | setSide side =>
    refine (submitted_onBracket (by exact h)).trans ?_
    simp [isSubmitted_normalizeBracket, SparesOrder, h, hb]
  | undoSnap =>
    cases hsnap : s.preSnap with
    | none =>
      refine spared ?_ (by simp [SparesOrder, hsnap])
      simpa [take, apply, applyUndoSnap, hsnap] using same
    | some slot =>
      obtain ⟨snap, instant⟩ := slot
      by_cases httl : undoable now instant = true
      · cases hsb : snap.bracket with
        | none =>
          refine spared ?_ (by simp [SparesOrder, hsnap, hsb])
          simpa [take, apply, applyUndoSnap, hsnap, httl, hsb, Submitted, bump] using same
        | some b' =>
          simp [take, apply, applyUndoSnap, SparesOrder, Submitted, hsnap, httl, hsb, h, hb]
      · refine spared ?_ (by simp [SparesOrder, hsnap, httl])
        simpa [take, apply, applyUndoSnap, hsnap, httl, Submitted] using same
  | setLegPrice _ _ | dragLeg _ _ =>
    refine spared ((submitted_editBracket h).mpr ?_) (by simp [SparesOrder])
    simpa using hb
  | setTpEnabled _ | setSlEnabled _ | setQuantity _ | orderPending _ =>
    exact spared ((submitted_editBracket h).mpr hb) (by simp [SparesOrder])
  | orderFilled _ _ | orderPartialFill _ =>
    exact spared ((submitted_editBracket h).mpr rfl) (by simp [SparesOrder])
  | saveBracket =>
    exact spared ((submitted_onBracket (s := s.bump) h).mpr hb) (by simp [SparesOrder])
  | setEntryType _ =>
    refine spared ((submitted_onBracket (by exact h)).mpr ?_) (by simp [SparesOrder])
    simpa using hb
  | commitEdit field value =>
    exact spared (submitted_applyCommit (s := s.bump) h hb field value) (by simp [SparesOrder])
  | beginEdit field =>
    refine spared ?_ (by simp [SparesOrder])
    simp only [take, apply, applyBeginEdit]
    split
    · split
      · exact submitted_applyCommit (s := s.bump) h hb _ _
      · exact same
    · exact same
  | maybeSnap p g => exact spared (submitted_applyMaybeSnap h hb p g) (by simp [SparesOrder])
  | updateMarketData p g =>
    refine spared ?_ (by simp [SparesOrder])
    simp only [take, apply, applyMarketData]
    split
    · exact same
    · exact submitted_applyMaybeSnap (by exact h) hb p g
  | removeLevel _ | updateLevel _ _ | toggleLevelLock _ =>
    refine spared ?_ (by simp [SparesOrder])
    simp only [take, apply, applyRemoveLevel, applyUpdateLevel, applyToggleLevelLock, onLevel]
    split <;> exact same
  | addLevel _ | togglePin | saveCameraState _ _ _ _ _ | updateEditValue _ | cancelEdit
  | markSnappedThisSession | markAnchorSeedToastShown | storeGatrUndo _ | clearGatrUndo
  | hydrated _ => exact spared same (by simp [SparesOrder])

/-- A step keeps the order exactly when it spares it. -/
theorem keepsOrder_iff (s : TickerState F) (op : Now × TickerMsg F) :
    s.KeepsOrder op ↔ Ends op.2 ∨ s.SparesOrder op := by
  by_cases hends : Ends op.2
  · exact iff_of_true (fun _ h => absurd hends h) (.inl hends)
  · rw [or_iff_right hends]
    by_cases hsub : op.2 = .submitOrder
    · constructor
      · rintro hk b h hb
        exact absurd ((sends_iff s op).mpr ⟨hsub, by simp [h]⟩) (hk ⟨b, h, hb⟩ hends).2
      · rintro hs ⟨b, h, hb⟩
        have := hs b h hb
        rw [hsub] at this
        exact this.elim
    · constructor
      · intro hk b h hb
        exact (submitted_take_iff h hb op hends hsub).mp (hk ⟨b, h, hb⟩ hends).1 b h hb
      · rintro hs ⟨b, h, hb⟩ -
        exact ⟨(submitted_take_iff h hb op hends hsub).mpr hs, fun hsend =>
          hsub ((sends_iff s op).mp hsend).1⟩

/-- A bracket that is sent is submitted after it. -/
theorem submitted_of_sends {s : TickerState F} {op : Now × TickerMsg F} (h : s.Sends op) :
    (s.take op).Submitted := by
  obtain ⟨hmsg, hlive⟩ := (sends_iff s op).mp h
  obtain ⟨b, hb⟩ := Option.isSome_iff_exists.mp hlive
  rw [take, hmsg]
  exact (submitted_editBracket hb).mpr rfl

/-- Runs whose messages spare submitted brackets never send one twice. -/
theorem neverTwice_of_keepsOrder {s : TickerState F} {ops : List (Now × TickerMsg F)}
    (h : AllSteps take KeepsOrder s ops) : NeverTwice s ops := by
  intro pre op mid op' hpre hfirst hsecond
  by_contra hnone
  have hsteps := AllSteps.initial take h hpre
  have hassoc : pre ++ op :: mid ++ [op'] = pre ++ [op] ++ (mid ++ [op']) := by simp
  rw [hassoc] at hsteps
  obtain ⟨-, hrest⟩ := (allSteps_append take).mp hsteps
  obtain ⟨hmid, hlast⟩ := (allSteps_append take).mp hrest
  have hsub : (run take s (pre ++ [op])).Submitted := by
    rw [run_concat]
    exact submitted_of_sends hfirst
  have hrun : run take s (pre ++ op :: mid) = run take (run take s (pre ++ [op])) mid := by
    rw [← run_append, List.append_assoc, List.singleton_append]
  rw [hrun] at hsecond
  -- A submitted bracket stays one until a message ends it, so the second send finds it submitted.
  rcases held_or_released take (fun s o hs hk hne => (hk hs hne).1) hsub hmid with hend | hheld
  · exact hnone hend
  · have hmsg := ((sends_iff _ op').mp hsecond).1
    have hkeep := ((allSteps_cons take).mp hlast).1
    exact (hkeep hheld (by simp [hmsg, Ends])).2 hsecond

/-- A bracket is not sent to the broker twice: the steps that keep an order are exactly those that
    end it or spare it, and a run of such steps sends nothing twice before an end. -/
theorem never_sent_twice (s : TickerState F) (ops : List (Now × TickerMsg F)) :
    (AllSteps take KeepsOrder s ops ↔
        AllSteps take (fun s op => Ends op.2 ∨ s.SparesOrder op) s ops) ∧
      (AllSteps take (fun s op => Ends op.2 ∨ s.SparesOrder op) s ops → NeverTwice s ops) := by
  have hiff : AllSteps take KeepsOrder s ops ↔
      AllSteps take (fun s op => Ends op.2 ∨ s.SparesOrder op) s ops := by
    have hfun : (KeepsOrder : TickerState F → Now × TickerMsg F → Prop) =
        fun s op => Ends op.2 ∨ s.SparesOrder op := by
      funext s op
      exact propext (keepsOrder_iff s op)
    rw [hfun]
  exact ⟨hiff, fun h => neverTwice_of_keepsOrder (hiff.mpr h)⟩

/-- Two clicks on submit send the draft twice. -/
theorem submitted_twice :
    ¬NeverTwice (.new "AAPL" 0 : TickerState ℚ)
      [(start, .setBracketMode (some .buy)), (start, .submitOrder), (start, .submitOrder)] := by
  intro h
  have hnone := h [(start, .setBracketMode (some .buy))] (start, .submitOrder) []
    (start, .submitOrder) List.prefix_rfl ((sends_iff _ _).mpr ⟨rfl, rfl⟩)
    ((sends_iff _ _).mpr ⟨rfl, rfl⟩)
  simp at hnone

/-- A bracket drafted, sent, filled in two parts, closed out and sent anew. -/
theorem never_sent_twice_over_two_orders :
    NeverTwice (.new "AAPL" 0 : TickerState ℚ)
      [(start, .updateMarketData 100 none), (start, .setBracketMode (some .buy)),
        (start, .submitOrder), (start, .orderPartialFill 1), (start, .setSide .sell),
        (start, .orderCancelled), (start, .submitOrder)] := by
  refine (never_sent_twice _ _).2 ?_
  simp only [allSteps_cons, allSteps_nil, and_true]
  refine ⟨.inr fun _ _ _ => trivial, .inr ?_, .inr ?_, .inr fun _ _ _ => trivial, .inr ?_,
    .inl trivial, .inr ?_⟩
  · rintro b hb
    cases hb
  · rintro b hb hs
    cases hb
    cases hs
  · rintro b hb -
    cases hb
    rfl
  · rintro b hb hs
    cases hb
    cases hs

end Midas.Ticker.TickerState
