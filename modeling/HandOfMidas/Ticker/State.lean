import HandOfMidas.Core.Bar
import HandOfMidas.Ticker.Bracket

/-! The state of one ticker in the desktop app (module `ticker_state`): what it remembers, the
    messages it takes and the effects it hands back. The clocks are read with each message. -/

namespace Midas.Ticker

inductive PriceInputMode where | absolute | offset | percent
  deriving DecidableEq

inductive StopLossType where | stop | stopLimit
  deriving DecidableEq

/-- `EditingField`. -/
inductive EditingField where
  | limitPrice | stopPrice | tpValue | slValue | slLimitValue | quantity
  deriving DecidableEq

/-- `AnnotationId`. -/
abbrev AnnotationId := ℕ

/-- `EntryMemory`: what the order panel last held for one side and entry type. -/
structure EntryMemory (F : Type) where
  entryPriceOrOffset : Option F
  quantity : Option F
  tpEnabled : Bool
  tpValue : String
  tpMode : PriceInputMode
  slEnabled : Bool
  slValue : String
  slMode : PriceInputMode
  slType : StopLossType
  slLimitValue : String
  deriving DecidableEq

/-- The `entries` map, its keys in a fixed order. -/
abbrev Entries (F : Type) := List ((OrderSide × EntryType) × EntryMemory F)

/-- `GatrAnchor`. -/
structure GatrAnchor (F : Type) where
  anchorPrice : Option F
  anchorGatr : Option F
  deriving DecidableEq

/-- `HorizontalLevel`, without the look of its line and its icon. -/
structure HorizontalLevel (F : Type) where
  id : ℕ
  price : F
  label : Option String
  deriving DecidableEq

/-- `StoredLevel`. -/
structure StoredLevel (F : Type) where
  level : HorizontalLevel F
  locked : Bool
  deriving DecidableEq

/-- `PreSnapState`. -/
structure PreSnapState (F : Type) where
  bracket : Option (OrderBracket F)
  entries : Entries F
  gatrAnchor : GatrAnchor F
  deriving DecidableEq

/-- `TickerSessionFlags`. -/
structure TickerSessionFlags (F : Type) where
  snapped : Bool
  anchorSeedToastShown : Bool
  gatrUndo : Option (PreSnapState F)
  deriving DecidableEq

/-- The two clocks: `Utc::now()`, and the nanoseconds that `Instant::now()` has counted. -/
structure Now where
  utc : Instant
  mono : ℕ
  deriving DecidableEq

/-- `TickerState`. -/
structure TickerState (F : Type) where
  symbol : String
  version : ℕ
  lastSide : OrderSide
  lastEntryType : EntryType
  entries : Entries F
  gatrAnchor : GatrAnchor F
  pinned : Bool
  bracketMode : Option OrderSide
  liveBracket : Option (OrderBracket F)
  liveAnnotationId : Option AnnotationId
  levels : List (StoredLevel F)
  lastPrice : Option F
  gatrAbs : Option F
  editingField : Option EditingField
  editingValue : Option String
  preSnap : Option (PreSnapState F × ℕ)
  session : TickerSessionFlags F
  cameraTimeStart : Option F
  cameraTimeEnd : Option F
  cameraPriceLow : Option F
  cameraPriceHigh : Option F
  cameraWasAtLiveEdge : Bool
  updatedAt : Instant
  generation : ℕ
  deriving DecidableEq

/-- `TickerState::new` at `updatedAt`. -/
def TickerState.new {F : Type} (symbol : String) (updatedAt : Instant) : TickerState F where
  symbol := symbol
  version := 2
  lastSide := .buy
  lastEntryType := .market
  entries := []
  gatrAnchor := ⟨none, none⟩
  pinned := false
  bracketMode := none
  liveBracket := none
  liveAnnotationId := none
  levels := []
  lastPrice := none
  gatrAbs := none
  editingField := none
  editingValue := none
  preSnap := none
  session := ⟨false, false, none⟩
  cameraTimeStart := none
  cameraTimeEnd := none
  cameraPriceLow := none
  cameraPriceHigh := none
  cameraWasAtLiveEdge := true
  updatedAt := updatedAt
  generation := 0

/-- `TickerOrderIntentV1`: what an older version of the app left on disk, without the order id that
    the migration drops. -/
structure TickerOrderIntentV1 (F : Type) where
  symbol : String
  lastSide : OrderSide
  lastEntryType : EntryType
  entries : Entries F
  gatrAnchor : GatrAnchor F
  liveAnnotationId : Option AnnotationId
  pinned : Bool
  updatedAt : Instant

/-- `migrate_v1_v2`. -/
def migrateV1V2 {F : Type} (intent : TickerOrderIntentV1 F) : TickerState F :=
  { TickerState.new intent.symbol intent.updatedAt with
    lastSide := intent.lastSide
    lastEntryType := intent.lastEntryType
    entries := intent.entries
    gatrAnchor := intent.gatrAnchor
    liveAnnotationId := intent.liveAnnotationId
    pinned := intent.pinned }

/-- `TickerMsg`. -/
inductive TickerMsg (F : Type) where
  | setBracketMode (mode : Option OrderSide)
  | ensureDraftBracket (side : OrderSide) (entryType : EntryType)
  | cancelBracket
  | saveBracket
  | deleteBracket
  | recallBracket
  | setLegPrice (role : LegRole) (price : F)
  | setTpEnabled (enabled : Bool)
  | setSlEnabled (enabled : Bool)
  | setQuantity (qty : F)
  | setSide (side : OrderSide)
  | setEntryType (entryType : EntryType)
  | dragLeg (role : LegRole) (newPrice : F)
  | beginEdit (field : EditingField)
  | updateEditValue (text : String)
  | commitEdit (field : EditingField) (value : String)
  | cancelEdit
  | maybeSnap (currentPrice : F) (gatrAbs : Option F)
  | togglePin
  | undoSnap
  | updateMarketData (lastPrice : F) (gatrAbs : Option F)
  | addLevel (level : StoredLevel F)
  | removeLevel (index : ℕ)
  | updateLevel (index : ℕ) (level : StoredLevel F)
  | toggleLevelLock (index : ℕ)
  | submitOrder
  | orderPending (orderId : String)
  | orderFilled (filledQty avgPrice : F)
  | orderPartialFill (filledQty : F)
  | orderRejected (reason : String)
  | orderCancelled
  | saveCameraState (timeStart timeEnd priceLow priceHigh : F) (wasAtLiveEdge : Bool)
  | markSnappedThisSession
  | markAnchorSeedToastShown
  | storeGatrUndo (snap : PreSnapState F)
  | clearGatrUndo
  | hydrated (state : TickerState F)
  deriving DecidableEq

/-- `ToastAction`, whose click always sends the app's `Ticker` message. -/
structure ToastAction (F : Type) where
  label : String
  symbol : String
  onClick : TickerMsg F
  deriving DecidableEq

/-- `TickerEffect`. -/
inductive TickerEffect (F : Type) where
  | projectBracket (bracket : OrderBracket F)
  | removeBracket (id : AnnotationId)
  | projectLevel (index : ℕ) (level : StoredLevel F)
  | removeLevel (annotationId : AnnotationId)
  | toast (message : String) (action : Option (ToastAction F))
  | persistDirty
  | submitToBroker (bracket : OrderBracket F)
  deriving DecidableEq

end Midas.Ticker
