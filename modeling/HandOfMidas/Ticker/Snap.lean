import HandOfMidas.Lib.Run
import HandOfMidas.Ticker.Apply

/-! Automatic re-anchoring. The snap reads the pin and the time of the last write; beside the ticker
    runs a note of when the user last changed the bracket, which the ticker itself does not keep. -/

namespace Midas.Ticker.TickerState

variable {F : Type}

/-- The prices of a bracket. -/
def prices (b : OrderBracket F) : F × Option F × Option F × Option F :=
  (b.entry.price, b.entryStopPrice, b.takeProfit.map BracketLeg.price,
    b.stopLoss.map BracketLeg.price)

/-- What a user sets of a bracket: its prices, quantity, side and type. -/
def terms (b : OrderBracket F) :
    (F × Option F × Option F × Option F) × Option F × BracketSide × EntryType :=
  (prices b, b.quantity, b.side, b.entryType)

/-- The messages that come from a user: all but those of the market data, the broker and the app. -/
def fromUser : TickerMsg F → Bool
  | .maybeSnap _ _ | .updateMarketData _ _ => false
  | .orderPending _ | .orderFilled _ _ | .orderPartialFill _ | .orderRejected _ | .orderCancelled =>
    false
  | .markSnappedThisSession | .markAnchorSeedToastShown | .storeGatrUndo _ | .clearGatrUndo
  | .hydrated _ => false
  | _ => true

/-- The price and the GATR that a message has the snap rule evaluated for. Market data have it so
    only while nothing is edited. -/
def snapInput (s : TickerState F) : TickerMsg F → Option (F × Option F)
  | .maybeSnap p g => some (p, g)
  | .updateMarketData p g => if s.editingField.isSome then none else some (p, g)
  | _ => none

/-- The messages that can snap. -/
def CanSnap : TickerMsg F → Prop
  | .maybeSnap _ _ | .updateMarketData _ _ => True
  | _ => False

/-- The user's last change of the bracket is less than `RECENCY_GUARD_SECS` ago. -/
def Recent (lastEdit : Option Instant) (now : Instant) : Prop :=
  ∃ e, lastEdit = some e ∧ now - e < recencyGuardSecs * Instant.second

variable [F64 F]

/-- The user changes a price, the quantity, the side or the type of the bracket. -/
def userEdits [DecidableEq F] (s : TickerState F) (op : Now × TickerMsg F) : Bool :=
  match s.liveBracket, (s.take op).liveBracket with
  | some b, some b' => fromUser op.2 && decide (terms b' ≠ terms b)
  | _, _ => false

/-- A ticker and the time of the user's last change. -/
def watch [DecidableEq F] (x : TickerState F × Option Instant) (op : Now × TickerMsg F) :
    TickerState F × Option Instant :=
  (x.1.take op, if x.1.userEdits op then some op.1.utc else x.2)

/-- The message leaves the prices of the live bracket as they are. -/
def KeepsPrices (s : TickerState F) (op : Now × TickerMsg F) : Prop :=
  (s.take op).liveBracket.map prices = s.liveBracket.map prices

/-- A snap respects the user: it changes neither prices nor entry memory nor anchor while an edit is
    in progress, the ticker is pinned or the user's last change is recent, and it never moves a
    bracket that has been submitted. -/
def RespectsUser (x : TickerState F × Option Instant) (op : Now × TickerMsg F) : Prop :=
  CanSnap op.2 →
    (x.1.editingField.isSome = true ∨ x.1.pinned = true ∨ Recent x.2 op.1.utc →
      x.1.KeepsPrices op ∧ (x.1.take op).entries = x.1.entries ∧
        (x.1.take op).gatrAnchor = x.1.gatrAnchor) ∧
    (∀ b, x.1.liveBracket = some b → b.status.isSubmitted = true → x.1.KeepsPrices op)

/-- When the guards of the snap rule pass, nothing is edited, the user's last change is not recent,
    and a submitted bracket has no price that the shift would move. -/
def SnapIsDue (x : TickerState F × Option Instant) (op : Now × TickerMsg F) : Prop :=
  ∀ p g, x.1.snapInput op.2 = some (p, g) → (x.1.snapGuards op.1 p g).isSome = true →
    x.1.editingField = none ∧ ¬Recent x.2 op.1.utc ∧
      ∀ b, x.1.liveBracket = some b → b.status.isSubmitted = true →
        prices (shiftBracket b (p - b.entry.price)) = prices b

/-- What the guards of the snap rule let through. -/
theorem of_snapGuards {now : Now} {s : TickerState F} {p a gatr : F} {g : Option F}
    (h : s.snapGuards now p g = some (a, gatr)) :
    s.pinned = false ∧ s.gatrAnchor.anchorPrice = some a ∧ F64.ltb minGatrAbs gatr = true ∧
      shouldReposition a p (some gatr) = true := by
  cases g with
  | none => simp [snapGuards] at h
  | some gatr' =>
    cases hanchor : s.gatrAnchor.anchorPrice with
    | none => simp [snapGuards, hanchor] at h
    | some a' =>
      simp only [snapGuards, hanchor] at h
      split_ifs at h with hpin hrecent hfinite hgatr hanchorFinite hempty hnear
      simp only [Option.some.injEq, Prod.mk.injEq] at h
      obtain ⟨rfl, rfl⟩ := h
      simp only [Bool.not_eq_true', Bool.not_eq_false, Bool.and_eq_true] at hgatr hnear
      exact ⟨by simpa using hpin, rfl, hgatr.2, hnear⟩

/-- The anchor that passes the guards is not the price that the snap moves it to. -/
theorem ne_of_snapGuards {now : Now} {s : TickerState F} {p a gatr : F} {g : Option F}
    (h : s.snapGuards now p g = some (a, gatr)) : a ≠ p := by
  obtain ⟨-, -, hgatr, hfar⟩ := of_snapGuards h
  rintro rfl
  have hself := F64.gap_self a gatr hgatr
  simp only [shouldReposition, Option.getD_some] at hfar
  rw [hself] at hfar
  cases hfar

/-- What the snap makes of a ticker when its guards pass. -/
theorem applyMaybeSnap_of_guards {now : Now} {s : TickerState F} {p a gatr : F} {g : Option F}
    (h : s.snapGuards now p g = some (a, gatr)) :
    (s.applyMaybeSnap now p g).1.liveBracket = s.liveBracket.map (repositionBracket · p) ∧
      (s.applyMaybeSnap now p g).1.gatrAnchor = ⟨some p, some gatr⟩ := by
  rw [applyMaybeSnap, h]
  simp only [onBracket_fst]
  exact ⟨rfl, trivial⟩

theorem applyMaybeSnap_of_no_guards {now : Now} {s : TickerState F} {p : F} {g : Option F}
    (h : s.snapGuards now p g = none) : s.applyMaybeSnap now p g = (s, []) := by
  simp only [applyMaybeSnap, h]

/-- A message that can snap applies the snap rule, or changes no more than the market data. -/
theorem take_of_canSnap {s : TickerState F} {op : Now × TickerMsg F} (h : CanSnap op.2) :
    (∃ p g, ∃ t : TickerState F, s.snapInput op.2 = some (p,
      g) ∧ s.take op = (t.applyMaybeSnap op.1 p g).1 ∧
        t.snapGuards op.1 p g = s.snapGuards op.1 p g ∧ t.liveBracket = s.liveBracket ∧
        t.entries = s.entries ∧ t.gatrAnchor = s.gatrAnchor) ∨
      s.snapInput op.2 = none ∧ (s.take op).liveBracket = s.liveBracket ∧
        (s.take op).entries = s.entries ∧ (s.take op).gatrAnchor = s.gatrAnchor := by
  obtain ⟨now, msg⟩ := op
  cases msg with
  | maybeSnap p g => exact .inl ⟨p, g, s, rfl, rfl, rfl, rfl, rfl, rfl⟩
  | updateMarketData p g =>
    cases hedit : s.editingField with
    | none =>
      refine .inl ⟨p, g, { s with lastPrice := some p, gatrAbs := g }, ?_, ?_, rfl, rfl, rfl, rfl⟩
      · simp [snapInput, hedit]
      · simp [take, apply, applyMarketData, hedit]
    | some field =>
      refine .inr ⟨by simp [snapInput, hedit], ?_⟩
      simp [take, apply, applyMarketData, hedit]
  | _ => exact absurd h id

/-- A message respects the user exactly when its snap, if it has one, is due. -/
theorem respectsUser_iff (x : TickerState F × Option Instant) (op : Now × TickerMsg F) :
    RespectsUser x op ↔ SnapIsDue x op := by
  obtain ⟨s, lastEdit⟩ := x
  by_cases hcan : CanSnap op.2
  · rcases take_of_canSnap (s := s) hcan with ⟨p, g, t, hin, htake, hguards, hlive, hent, hanc⟩ |
      ⟨hin, hlive, hent, hanc⟩
    · cases hg : s.snapGuards op.1 p g with
      | none =>
        have ht : s.take op = t := by rw [htake, applyMaybeSnap_of_no_guards (hguards.trans hg)]
        refine iff_of_true (fun _ => ?_) fun p' g' h hsome => ?_
        · simp [KeepsPrices, ht, hlive, hent, hanc]
        · obtain ⟨rfl, rfl⟩ := Prod.mk.inj (Option.some.inj (hin.symm.trans h))
          simp [hg] at hsome
      | some ag =>
        obtain ⟨a, gatr⟩ := ag
        obtain ⟨hsnapLive, hsnapAnchor⟩ := applyMaybeSnap_of_guards (hguards.trans hg)
        rw [← htake] at hsnapLive hsnapAnchor
        -- The snap fires: it moves the anchor, and the prices of the bracket by the shift.
        have hanchor : (s.take op).gatrAnchor ≠ s.gatrAnchor := by
          intro heq
          have hold := (of_snapGuards hg).2.1
          rw [← heq, hsnapAnchor] at hold
          exact ne_of_snapGuards hg (Option.some.inj hold).symm
        have hkeeps : s.KeepsPrices op ↔ ∀ b, s.liveBracket = some b →
            prices (shiftBracket b (p - b.entry.price)) = prices b := by
          rw [KeepsPrices, hsnapLive, hlive]
          cases s.liveBracket <;> simp [repositionBracket]
        have hpin : s.pinned = false := (of_snapGuards hg).1
        constructor
        · intro h p' g' hin' _
          obtain ⟨rfl, rfl⟩ := Prod.mk.inj (Option.some.inj (hin.symm.trans hin'))
          obtain ⟨hquiet, hsubmitted⟩ := h hcan
          refine ⟨?_, fun hrecent => hanchor (hquiet (.inr (.inr hrecent))).2.2, fun b hb hs => ?_⟩
          · by_contra hedit
            exact hanchor (hquiet (.inl (Option.isSome_iff_ne_none.mpr hedit))).2.2
          · exact hkeeps.mp (hsubmitted b hb hs) b hb
        · intro h _
          obtain ⟨hedit, hrest, hmoved⟩ := h p g hin (by simp [hg])
          constructor
          · rintro (hediting | hpinned | hrecent)
            · exact absurd hedit (Option.isSome_iff_ne_none.mp hediting)
            · simp [hpin] at hpinned
            · exact absurd hrecent hrest
          · intro b hb hs
            refine hkeeps.mpr fun b' hb' => ?_
            obtain rfl := Option.some.inj (hb.symm.trans hb')
            exact hmoved b hb hs
    · refine iff_of_true (fun _ => ?_) fun p g h => ?_
      · simp [KeepsPrices, hlive, hent, hanc]
      · simp [hin] at h
  · refine iff_of_true (fun h => absurd h hcan) fun p g h => ?_
    obtain ⟨now, msg⟩ := op
    cases msg with
    | maybeSnap _ _ | updateMarketData _ _ => exact absurd trivial hcan
    | _ => cases h

/-- What a version 1 of the app left: an anchor, written long ago. -/
def anchored : TickerState ℚ :=
  migrateV1V2 ⟨"AAPL", .buy, .market, [], ⟨some 100, some 5⟩, none, false, 0⟩

/-- Both clocks, so many seconds after the epoch. -/
def clockAt (secs : ℕ) : Now := ⟨secs * 1000000000, secs * 1000000000⟩

/-- A market draft at 100, drawn two hours after the epoch. -/
def drafting : List (Now × TickerMsg ℚ) :=
  [(clockAt 7200, .updateMarketData 100 (some 5)), (clockAt 7200, .setBracketMode (some .buy))]

end Midas.Ticker.TickerState
