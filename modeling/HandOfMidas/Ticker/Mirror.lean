import HandOfMidas.Lib.Run
import HandOfMidas.Ticker.Apply

/-! The chart's annotations of a ticker, as the effects of its messages make them. The bracket's
    annotation follows the live bracket through every run; the levels do so until a message drops or
    locks one, for which no effect is handed back. -/

namespace Midas.Ticker.TickerState

variable {F : Type}

/-- The annotations of one symbol: the brackets by id, the levels by place, and the next free id. -/
structure Mirror (F : Type) where
  brackets : List (AnnotationId × OrderBracket F)
  levels : List (StoredLevel F)
  nextId : AnnotationId
  deriving DecidableEq

/-- `annotation_store.update` of one bracket. -/
def Mirror.replace (m : Mirror F) (id : AnnotationId) (b : OrderBracket F) : Mirror F :=
  { m with brackets := m.brackets.map fun a => if a.1 = id then (id, b) else a }

/-- `annotation_store.add`. -/
def Mirror.add (m : Mirror F) (b : OrderBracket F) : Mirror F :=
  { m with brackets := m.brackets ++ [(m.nextId, b)], nextId := m.nextId + 1 }

/-- A level set at an index, the one past the end included. -/
def Mirror.setLevel (m : Mirror F) (index : ℕ) (level : StoredLevel F) : Mirror F :=
  { m with
    levels := if index < m.levels.length then m.levels.set index level else m.levels ++ [level] }

/-- `handle_ticker_effects`, one effect. -/
def carryOut (x : TickerState F × Mirror F) : TickerEffect F → TickerState F × Mirror F
  | .projectBracket b =>
    match x.1.liveAnnotationId with
    | some id =>
      if id ∈ x.2.brackets.map Prod.fst then (x.1, x.2.replace id b)
      else ({ x.1 with liveAnnotationId := some x.2.nextId }, x.2.add b)
    | none => ({ x.1 with liveAnnotationId := some x.2.nextId }, x.2.add b)
  | .removeBracket id => (x.1, { x.2 with brackets := x.2.brackets.filter (·.1 ≠ id) })
  | .projectLevel index level => (x.1, x.2.setLevel index level)
  | .removeLevel id => (x.1, { x.2 with levels := x.2.levels.filter (·.level.id ≠ id) })
  | .toast _ _ | .persistDirty | .submitToBroker _ => x

/-- The ticker's annotation is the only one of a bracket. -/
def Linked (x : TickerState F × Mirror F) : Prop :=
  x.2.brackets = [] ∨ ∃ id b, x.2.brackets = [(id, b)] ∧ x.1.liveAnnotationId = some id

/-- The mirror holds the live bracket and the levels. -/
def Mirrors (x : TickerState F × Mirror F) : Prop :=
  x.2.brackets.map Prod.snd = x.1.liveBracket.toList ∧ x.2.levels = x.1.levels

/-- When a message has all its changes shown: it drops no level and turns no lock. -/
def ShowsLevels (x : TickerState F × Mirror F) (op : Now × TickerMsg F) : Prop :=
  match op.2 with
  | .removeLevel index | .toggleLevelLock index => x.1.levels.length ≤ index
  | _ => True

/-- What the effects of a handler do to a mirror: they show the new live bracket, hide the old one,
    or leave the annotations of brackets alone; the levels stay. -/
inductive Outcome (s : TickerState F) (r : TickerState F × List (TickerEffect F)) : Prop where
  | shown (b : OrderBracket F) (hlive : r.1.liveBracket = some b)
      (hid : r.1.liveAnnotationId = s.liveAnnotationId) (hlevels : r.1.levels = s.levels)
      (heffects : ∀ x, r.2.foldl carryOut x = carryOut x (.projectBracket b))
  | hidden (hlive : r.1.liveBracket = none) (hid : r.1.liveAnnotationId = none)
      (hlevels : r.1.levels = s.levels)
      (heffects : ∀ x, r.2.foldl carryOut x =
        s.liveAnnotationId.elim x fun id => carryOut x (.removeBracket id))
  | left (hlive : r.1.liveBracket = s.liveBracket)
      (hid : r.1.liveAnnotationId = s.liveAnnotationId) (hlevels : r.1.levels = s.levels)
      (heffects : ∀ x, r.2.foldl carryOut x = x)

theorem outcome_onBracket {s t : TickerState F} {f : OrderBracket F → OrderBracket F}
    {effects : OrderBracket F → List (TickerEffect F)} {otherwise : List (TickerEffect F)}
    (hlive : t.liveBracket = s.liveBracket) (hid : t.liveAnnotationId = s.liveAnnotationId)
    (hlevels : t.levels = s.levels)
    (heffects : ∀ b x, (effects b).foldl carryOut x = carryOut x (.projectBracket b))
    (hotherwise : ∀ x, otherwise.foldl carryOut x = x) :
    Outcome s (t.onBracket f effects otherwise) := by
  unfold onBracket
  split
  · exact .shown _ rfl hid hlevels (heffects _)
  · exact .left hlive hid hlevels hotherwise

theorem outcome_editBracket {s : TickerState F} {f : OrderBracket F → OrderBracket F}
    {effects : OrderBracket F → List (TickerEffect F)}
    (heffects : ∀ b x, (effects b).foldl carryOut x = carryOut x (.projectBracket b)) :
    Outcome s (s.editBracket f effects) := by
  unfold editBracket
  split
  · exact outcome_onBracket rfl rfl rfl heffects fun _ => rfl
  · exact .left rfl rfl rfl fun _ => rfl

theorem foldl_projectAndPersist (b : OrderBracket F) (x : TickerState F × Mirror F) :
    (projectAndPersist b).foldl carryOut x = carryOut x (.projectBracket b) := rfl

theorem foldl_removal (s : TickerState F) (x : TickerState F × Mirror F) :
    s.removal.foldl carryOut x =
      s.liveAnnotationId.elim x fun id => carryOut x (.removeBracket id) := by
  unfold removal
  cases s.liveAnnotationId <;> rfl

theorem foldl_withPersist (effects : List (TickerEffect F)) (x : TickerState F × Mirror F) :
    (withPersist effects).foldl carryOut x = effects.foldl carryOut x := by
  unfold withPersist
  split
  · rfl
  · rw [List.foldl_append]; rfl

theorem outcome_applyCancelBracket (s : TickerState F) : Outcome s s.applyCancelBracket := by
  unfold applyCancelBracket
  dsimp only
  split
  · exact .hidden rfl rfl rfl (foldl_removal s)
  · exact .left rfl rfl rfl fun _ => rfl

theorem outcome_applyUndoSnap (now : Now) (s : TickerState F) : Outcome s (s.applyUndoSnap now) := by
  unfold applyUndoSnap
  split
  · split
    · dsimp only
      split
      · exact .shown _ rfl rfl rfl (foldl_projectAndPersist _)
      · exact .left rfl rfl rfl fun _ => rfl
    · exact .left rfl rfl rfl fun _ => rfl
  · exact .left rfl rfl rfl fun _ => rfl

/-- The part of a state that the mirror shows. -/
def shownPart (s : TickerState F) :
    Option (OrderBracket F) × Option AnnotationId × List (StoredLevel F) :=
  (s.liveBracket, s.liveAnnotationId, s.levels)

/-- An outcome stands when the states around it change in what is not shown, and with a
    `PersistDirty` more. -/
theorem Outcome.congr {s t : TickerState F} {r r' : TickerState F × List (TickerEffect F)}
    (h : Outcome t r) (ht : t.shownPart = s.shownPart) (hr : r'.1.shownPart = r.1.shownPart)
    (heffects : ∀ x, r'.2.foldl carryOut x = r.2.foldl carryOut x) : Outcome s r' := by
  simp only [shownPart, Prod.mk.injEq] at ht hr
  obtain ⟨htb, hti, htl⟩ := ht
  obtain ⟨hub, hui, hul⟩ := hr
  cases h with
  | shown b hb hi hl he =>
    exact .shown b (hub.trans hb) (hui.trans (hi.trans hti)) (hul.trans (hl.trans htl))
      fun x => (heffects x).trans (he x)
  | hidden hb hi hl he =>
    exact .hidden (hub.trans hb) (hui.trans hi) (hul.trans (hl.trans htl))
      fun x => hti ▸ (heffects x).trans (he x)
  | left hb hi hl he =>
    exact .left (hub.trans (hb.trans htb)) (hui.trans (hi.trans hti)) (hul.trans (hl.trans htl))
      fun x => (heffects x).trans (he x)

variable [F64 F]

theorem outcome_applyEnsureDraft (s : TickerState F) (side : OrderSide) (entryType : EntryType) :
    Outcome s (s.applyEnsureDraft side entryType) := by
  cases h : s.bracketMode with
  | none =>
    rw [applyEnsureDraft_of_off h]
    exact .left rfl rfl rfl fun _ => rfl
  | some mode =>
    rw [applyEnsureDraft_of_on h]
    exact .shown _ rfl rfl rfl (foldl_projectAndPersist _)

theorem outcome_applyMaybeSnap (now : Now) (s : TickerState F) (p : F) (g : Option F) :
    Outcome s (s.applyMaybeSnap now p g) := by
  unfold applyMaybeSnap
  split
  · exact .left rfl rfl rfl fun _ => rfl
  · exact outcome_onBracket rfl rfl rfl (fun _ _ => rfl) fun _ => rfl

theorem outcome_applyCommit (s : TickerState F) (field : EditingField) (value : String) :
    Outcome s (s.applyCommit field value) :=
  outcome_onBracket rfl rfl rfl foldl_projectAndPersist fun _ => rfl

/-- The messages about levels. -/
def IsLevelMsg : TickerMsg F → Prop
  | .addLevel _ | .removeLevel _ | .updateLevel _ _ | .toggleLevelLock _ => True
  | _ => False

/-- Every message that is not about levels has one of the three outcomes. -/
theorem outcome_apply (now : Now) (s : TickerState F) (msg : TickerMsg F) (h : ¬IsLevelMsg msg) :
    Outcome s (s.apply now msg) := by
  cases msg with
  | addLevel _ | removeLevel _ | updateLevel _ _ | toggleLevelLock _ => exact absurd trivial h
  | setBracketMode mode =>
    cases mode with
    | none =>
      rw [apply, applySetBracketMode_none]
      have h := outcome_applyCancelBracket { s.bump with bracketMode := none }
      exact h.congr rfl rfl fun x => foldl_withPersist _ x
    | some side =>
      simp only [apply, applySetBracketMode_some]
      exact .shown _ rfl rfl rfl (foldl_projectAndPersist _)
  | ensureDraftBracket side entryType => exact outcome_applyEnsureDraft s side entryType
  | cancelBracket => exact outcome_applyCancelBracket s
  | deleteBracket => exact .hidden rfl rfl rfl (foldl_removal s)
  | saveBracket | recallBracket | setSide _ | setEntryType _ =>
    exact outcome_onBracket rfl rfl rfl foldl_projectAndPersist fun _ => rfl
  | setTpEnabled _ | setSlEnabled _ | orderPartialFill _ | setLegPrice _ _ | setQuantity _
  | dragLeg _ _ | orderPending _ | submitOrder | orderFilled _ _ | orderRejected _
  | orderCancelled => exact outcome_editBracket fun _ _ => rfl
  | commitEdit field value => exact (outcome_applyCommit s.bump field value).congr rfl rfl fun _ => rfl
  | beginEdit field =>
    simp only [apply, applyBeginEdit]
    split
    · split
      · exact (outcome_applyCommit s.bump _ _).congr rfl rfl fun _ => rfl
      · exact .left rfl rfl rfl fun _ => rfl
    · exact .left rfl rfl rfl fun _ => rfl
  | maybeSnap p g => exact outcome_applyMaybeSnap now s p g
  | undoSnap => exact outcome_applyUndoSnap now s
  | updateMarketData p g =>
    simp only [apply, applyMarketData]
    split
    · exact .left rfl rfl rfl fun _ => rfl
    · have h := outcome_applyMaybeSnap now { s with lastPrice := some p, gatrAbs := g } p g
      exact h.congr rfl rfl fun _ => rfl
  | togglePin | saveCameraState _ _ _ _ _ | updateEditValue _ | cancelEdit
  | markSnappedThisSession | markAnchorSeedToastShown | storeGatrUndo _ | clearGatrUndo
  | hydrated _ => exact .left rfl rfl rfl fun _ => rfl

/-- A message applied and its effects carried out in order. -/
def update (x : TickerState F × Mirror F) (op : Now × TickerMsg F) : TickerState F × Mirror F :=
  (x.1.apply op.1 op.2).2.foldl carryOut ((x.1.apply op.1 op.2).1, x.2)

omit [F64 F] in
/-- Showing a bracket in a linked mirror leaves its annotation as the only one. -/
theorem carryOut_projectBracket {s : TickerState F} {m : Mirror F} (h : Linked (s, m))
    (b : OrderBracket F) :
    ∃ id m', carryOut (s, m) (.projectBracket b) = ({ s with liveAnnotationId := some id }, m') ∧
      m'.brackets = [(id, b)] ∧ m'.levels = m.levels := by
  rcases h with hempty | ⟨id, b', hone, hid⟩
  · refine ⟨m.nextId, m.add b, ?_, by simp [Mirror.add, show m.brackets = [] from hempty], rfl⟩
    cases hid : s.liveAnnotationId <;> simp [carryOut, hid, show m.brackets = [] from hempty]
  · have hone' : m.brackets = [(id, b')] := hone
    have hid' : s.liveAnnotationId = some id := hid
    refine ⟨id, m.replace id b, ?_, by simp [Mirror.replace, hone'], rfl⟩
    have hs : s = { s with liveAnnotationId := some id } := by rw [← hid']
    simp only [carryOut, hid', hone', List.map_cons, List.map_nil, List.mem_singleton, if_true]
    rw [← hs]

omit [F64 F] in
/-- Removing the linked annotation empties the mirror of brackets. -/
theorem removal_brackets {s : TickerState F} {m : Mirror F} (s' : TickerState F) (h : Linked (s, m)) :
    ∃ m', s.liveAnnotationId.elim (s', m) (fun id => carryOut (s', m) (.removeBracket id)) =
        (s', m') ∧ m'.brackets = [] ∧ m'.levels = m.levels := by
  rcases h with hempty | ⟨id, b, hone, hid⟩
  · cases s.liveAnnotationId with
    | none => exact ⟨m, rfl, hempty, rfl⟩
    | some id => exact ⟨_, rfl, by simp [show m.brackets = [] from hempty], rfl⟩
  · have hone' : m.brackets = [(id, b)] := hone
    rw [show s.liveAnnotationId = some id from hid]
    exact ⟨_, rfl, by simp [hone'], rfl⟩

/-- After a message that is not about levels, the mirror is linked and its levels are the old ones;
    it holds the live bracket if it did before. -/
theorem update_of_outcome {x : TickerState F × Mirror F} {op : Now × TickerMsg F} (hx : Linked x)
    (h : Outcome x.1 (x.1.apply op.1 op.2)) :
    Linked (update x op) ∧ (update x op).2.levels = x.2.levels ∧
      (update x op).1.levels = x.1.levels ∧
      (x.2.brackets.map Prod.snd = x.1.liveBracket.toList →
        (update x op).2.brackets.map Prod.snd = (update x op).1.liveBracket.toList) := by
  obtain ⟨s, m⟩ := x
  unfold update
  cases h with
  | shown b hlive hid hlevels heffects =>
    have hlinked : Linked ((s.apply op.1 op.2).1, m) := by
      simpa [Linked, hid] using hx
    obtain ⟨id, m', hm, hb, hl⟩ := carryOut_projectBracket hlinked b
    rw [heffects, hm]
    refine ⟨.inr ⟨id, b, hb, rfl⟩, hl, hlevels, fun _ => ?_⟩
    simp [hb, hlive]
  | hidden hlive hid hlevels heffects =>
    obtain ⟨m', hm, hb, hl⟩ := removal_brackets (s.apply op.1 op.2).1 hx
    rw [heffects, hm]
    exact ⟨.inl hb, hl, hlevels, fun _ => by simp [hb, hlive]⟩
  | left hlive hid hlevels heffects =>
    rw [heffects]
    refine ⟨by simpa [Linked, hid] using hx, rfl, hlevels, fun h => ?_⟩
    simpa [hlive] using h

/-- What the messages about levels do to the mirror and to the levels. -/
theorem update_of_levelMsg {x : TickerState F × Mirror F} {op : Now × TickerMsg F}
    (h : IsLevelMsg op.2) :
    (update x op).2.brackets = x.2.brackets ∧ (update x op).1.liveBracket = x.1.liveBracket ∧
      (update x op).1.liveAnnotationId = x.1.liveAnnotationId := by
  obtain ⟨s, m⟩ := x
  obtain ⟨now, msg⟩ := op
  cases msg with
  | addLevel _ => exact ⟨rfl, rfl, rfl⟩
  | removeLevel _ | updateLevel _ _ | toggleLevelLock _ =>
    simp only [update, apply, applyRemoveLevel, applyUpdateLevel, applyToggleLevelLock, onLevel]
    split <;> exact ⟨rfl, rfl, rfl⟩
  | _ => exact absurd h id

/-- From levels shown as they are, a message about levels shows them as they then are exactly when
    it drops none and turns no lock. -/
theorem levels_update_iff {x : TickerState F × Mirror F} {op : Now × TickerMsg F}
    (h : IsLevelMsg op.2) (hx : x.2.levels = x.1.levels) :
    (update x op).2.levels = (update x op).1.levels ↔ ShowsLevels x op := by
  obtain ⟨s, m⟩ := x
  obtain ⟨now, msg⟩ := op
  have hx' : m.levels = s.levels := hx
  cases msg with
  | addLevel level =>
    simp [update, apply, applyAddLevel, bump, carryOut, Mirror.setLevel, ShowsLevels, hx']
  | updateLevel index level =>
    simp only [update, apply, applyUpdateLevel, onLevel, ShowsLevels, iff_true]
    split <;> rename_i hi
    · simp [carryOut, Mirror.setLevel, hx', hi]
    · exact hx'
  | removeLevel index =>
    simp only [update, apply, applyRemoveLevel, onLevel, ShowsLevels]
    split <;> rename_i hi
    · refine iff_of_false (fun heq => ?_) (not_le.mpr hi)
      have hsame : s.levels = s.levels.eraseIdx index := hx'.symm.trans heq
      have hlen := congrArg List.length hsame
      rw [List.length_eraseIdx_of_lt hi] at hlen
      omega
    · exact iff_of_true hx' (not_lt.mp hi)
  | toggleLevelLock index =>
    simp only [update, apply, applyToggleLevelLock, onLevel, ShowsLevels]
    split <;> rename_i hi
    · refine iff_of_false (fun heq => ?_) (not_le.mpr hi)
      have hsame : s.levels = s.levels.modify index fun l => { l with locked := !l.locked } :=
        hx'.symm.trans heq
      have hget := congrArg (fun l => l[index]?.map StoredLevel.locked) hsame
      simp [List.getElem?_eq_getElem hi] at hget
    · exact iff_of_true hx' (not_lt.mp hi)
  | _ => exact absurd h id

/-- From a mirror that shows the ticker, a message leads to one that does exactly when it drops no
    level and turns no lock. -/
theorem mirrors_update_iff {x : TickerState F × Mirror F} (op : Now × TickerMsg F) (hx : Linked x)
    (h : Mirrors x) : Mirrors (update x op) ↔ ShowsLevels x op := by
  by_cases hop : IsLevelMsg op.2
  · obtain ⟨hb, hlive, -⟩ := update_of_levelMsg (x := x) hop
    rw [Mirrors, hb, hlive, levels_update_iff hop h.2]
    exact and_iff_right h.1
  · obtain ⟨-, hm, hs, hb⟩ := update_of_outcome hx (outcome_apply op.1 x.1 op.2 hop)
    have hshows : ShowsLevels x op := by
      obtain ⟨now, msg⟩ := op
      cases msg with
      | removeLevel _ | toggleLevelLock _ => exact absurd trivial hop
      | _ => trivial
    exact iff_of_true ⟨hb h.1, by rw [hm, hs, h.2]⟩ hshows

/-- Every message keeps the ticker's annotation the only one of a bracket. -/
theorem linked_update {x : TickerState F × Mirror F} (op : Now × TickerMsg F) (hx : Linked x) :
    Linked (update x op) := by
  by_cases hop : IsLevelMsg op.2
  · obtain ⟨hb, -, hid⟩ := update_of_levelMsg (x := x) hop
    simpa [Linked, hb, hid] using hx
  · exact (update_of_outcome hx (outcome_apply op.1 x.1 op.2 hop)).1

/-- The chart mirrors the ticker after every message of a run exactly when no message of the run
    drops a level or turns the lock of one. -/
theorem chart_mirrors_iff (x : TickerState F × Mirror F) (hx : Linked x) (h : Mirrors x)
    (ops : List (Now × TickerMsg F)) :
    AllStates update Mirrors x ops ↔ AllSteps update ShowsLevels x ops :=
  allStates_iff_allSteps update (fun _ op => linked_update op)
    (fun _ op => mirrors_update_iff op) hx h ops

/-- A fresh ticker and an empty chart. -/
def fresh (symbol : String) : TickerState F × Mirror F := (.new symbol 0, ⟨[], [], 1⟩)

/-- A level that is drawn stays on the chart when it is deleted. -/
theorem level_left_on_chart :
    ¬AllStates update Mirrors (fresh "AAPL" : TickerState ℚ × Mirror ℚ)
      [(start, .addLevel ⟨⟨1, 150, none⟩, false⟩), (start, .removeLevel 0)] := by
  intro h
  have hlevels := (AllStates.last update h).2
  revert hlevels
  decide +kernel

/-- A draft that is filled and then hidden, and a level that is moved. -/
theorem chart_mirrors_draft_and_level :
    AllStates update Mirrors (fresh "AAPL" : TickerState ℚ × Mirror ℚ)
      [(start, .setBracketMode (some .buy)), (start, .addLevel ⟨⟨1, 150, none⟩, false⟩),
        (start, .orderFilled 10 150), (start, .updateLevel 0 ⟨⟨1, 151, none⟩, false⟩),
        (start, .setBracketMode none), (start, .removeLevel 1)] := by
  refine (chart_mirrors_iff _ (.inl rfl) ⟨rfl, rfl⟩ _).mpr ?_
  simp only [allSteps_cons, allSteps_nil, and_true]
  exact ⟨trivial, trivial, trivial, trivial, trivial, by unfold ShowsLevels; decide +kernel⟩

end Midas.Ticker.TickerState
