import HandOfMidas.Protocol.Fields

/-! The wire types of TWS messages (`protocol/messages/types.rs`). A field that a message does not
    carry has its default. The flat record of an order is cut into the groups it is declared in. -/

namespace Midas.Protocol

/-- A combo leg of a BAG contract. -/
structure ComboLeg where
  contractId : Int32 := 0
  ratio : Int32 := 0
  action : String := ""
  exchange : String := ""
  openClose : Int32 := 0
  shortSaleSlot : Int32 := 0
  designatedLocation : String := ""
  exemptCode : Int32 := 0

/-- A `key=value` pair of the options fields. -/
structure TagValue where
  tag : String := ""
  value : String := ""

structure ExecutionFilter where
  clientId : Int32 := 0
  acctCode : String := ""
  time : String := ""
  symbol : String := ""
  secType : String := ""
  exchange : String := ""
  side : String := ""

inductive MarketDataType where | live | frozen | delayed | delayedFrozen
  deriving DecidableEq

def MarketDataType.fromI32 (v : Int32) : Option MarketDataType :=
  if v = 1 then some .live
  else if v = 2 then some .frozen
  else if v = 3 then some .delayed
  else if v = 4 then some .delayedFrozen
  else none

def MarketDataType.asI32 : MarketDataType → Int32
  | live => 1
  | frozen => 2
  | delayed => 3
  | delayedFrozen => 4

theorem MarketDataType.fromI32_asI32 (t : MarketDataType) : fromI32 t.asI32 = some t := by
  cases t <;> decide

section Values

variable (F : Type) [F64 F]

/-- The price of a combo leg of an order. -/
structure OrderComboLeg where
  price : Option F := none

structure DeltaNeutralContract where
  contractId : Int32 := 0
  delta : F := F64.zero
  price : F := F64.zero

structure ContractSpec where
  contractId : Int32 := 0
  symbol : String := ""
  securityType : String := ""
  lastTradeDateOrContractMonth : String := ""
  strike : F := F64.zero
  right : String := ""
  multiplier : String := ""
  exchange : String := ""
  primaryExchange : String := ""
  currency : String := ""
  localSymbol : String := ""
  tradingClass : String := ""
  includeExpired : Bool := false
  securityIdType : String := ""
  securityId : String := ""
  issuerId : String := ""
  comboLegs : List ComboLeg := []
  deltaNeutralContract : Option (DeltaNeutralContract F) := none

/-! ### The groups of an order -/

structure PrimaryFields where
  action : String := ""
  totalQuantity : F := F64.zero
  orderType : String := ""
  limitPrice : Option F := none
  auxPrice : Option F := none

structure ExtendedFields where
  tif : String := ""
  ocaGroup : String := ""
  account : String := ""
  openClose : String := ""
  origin : Int32 := 0
  orderRef : String := ""
  transmit : Bool := false
  parentId : Int32 := 0
  blockOrder : Bool := false
  sweepToFill : Bool := false
  displaySize : Int32 := 0
  triggerMethod : Int32 := 0
  outsideRth : Bool := false
  hidden : Bool := false

structure ComboFields where
  orderComboLegs : List (OrderComboLeg F) := []
  smartComboRoutingParams : List TagValue := []

structure AllocationFields where
  discretionaryAmt : F := F64.zero
  goodAfterTime : String := ""
  goodTillDate : String := ""
  faGroup : String := ""
  faMethod : String := ""
  faPercentage : String := ""
  faProfile : String := ""
  modelCode : String := ""
  shortSaleSlot : Int32 := 0
  designatedLocation : String := ""
  exemptCode : Int32 := 0

structure MiscFields where
  ocaType : Int32 := 0
  rule80A : String := ""
  settlingFirm : String := ""
  allOrNone : Bool := false
  minQty : Option Int32 := none
  percentOffset : Option F := none
  eTradeOnly : Bool := false
  firmQuoteOnly : Bool := false
  nbboPriceCap : Option F := none
  auctionStrategy : Int32 := 0
  startingPrice : Option F := none
  stockRefPrice : Option F := none
  delta : Option F := none
  stockRangeLower : Option F := none
  stockRangeUpper : Option F := none
  overridePercentageConstraints : Bool := false

/-- Sent only with a delta-neutral order type. -/
structure DeltaNeutralFields where
  deltaNeutralConId : Int32 := 0
  deltaNeutralSettlingFirm : String := ""
  deltaNeutralClearingAccount : String := ""
  deltaNeutralClearingIntent : String := ""
  deltaNeutralOpenClose : String := ""
  deltaNeutralShortSale : Bool := false
  deltaNeutralShortSaleSlot : Int32 := 0
  deltaNeutralDesignatedLocation : String := ""

structure VolatilityFields extends DeltaNeutralFields where
  volatility : Option F := none
  volatilityType : Option Int32 := none
  deltaNeutralOrderType : String := ""
  deltaNeutralAuxPrice : Option F := none
  continuousUpdate : Bool := false
  referencePriceType : Option Int32 := none
  trailStopPrice : Option F := none
  trailingPercent : Option F := none

/-- Sent only with a positive scale price increment. -/
structure ScaleAdjustFields where
  scalePriceAdjustValue : Option F := none
  scalePriceAdjustInterval : Option Int32 := none
  scaleProfitOffset : Option F := none
  scaleAutoReset : Bool := false
  scaleInitPosition : Option Int32 := none
  scaleInitFillQty : Option Int32 := none
  scaleRandomPercent : Bool := false

structure ScaleFields extends ScaleAdjustFields F where
  scaleInitLevelSize : Option Int32 := none
  scaleSubsLevelSize : Option Int32 := none
  scalePriceIncrement : Option F := none
  scaleTable : String := ""
  activeStartTime : String := ""
  activeStopTime : String := ""

structure HedgeFields where
  hedgeType : String := ""
  hedgeParam : String := ""
  optOutSmartRouting : Bool := false
  clearingAccount : String := ""
  clearingIntent : String := ""
  notHeld : Bool := false

structure AlgoFields where
  algoStrategy : String := ""
  algoParams : List TagValue := []
  algoId : String := ""
  whatIf : Bool := false
  orderMiscOptions : List TagValue := []
  solicited : Bool := false
  randomizeSize : Bool := false
  randomizePrice : Bool := false

/-- Sent only with the order type `PEG BENCH`. -/
structure PegBenchFields where
  referenceContractId : Int32 := 0
  isPeggedChangeAmountDecrease : Bool := false
  peggedChangeAmount : Option F := none
  referenceChangeAmount : Option F := none
  referenceExchange : String := ""

/-- The conditions are strings serialised before; the flags are sent only with a condition. -/
structure ConditionFields where
  conditions : List String := []
  conditionsIgnoreRth : Bool := false
  conditionsCancelOrder : Bool := false

structure AdjustedFields where
  adjustedOrderType : String := ""
  triggerPrice : Option F := none
  limitPriceOffset : Option F := none
  adjustedStopPrice : Option F := none
  adjustedStopLimitPrice : Option F := none
  adjustedTrailingAmount : Option F := none
  adjustableTrailingUnit : Int32 := 0

structure NewerFields where
  extOperator : String := ""
  softDollarTierName : String := ""
  softDollarTierValue : String := ""
  cashQty : Option F := none
  mifid2DecisionMaker : String := ""
  mifid2DecisionAlgo : String := ""
  mifid2ExecutionTrader : String := ""
  mifid2ExecutionAlgo : String := ""
  dontUseAutoPriceForHedge : Bool := false
  isOmsContainer : Bool := false
  discretionaryUpToLimitPrice : Bool := false
  usePriceMgmtAlgo : Option Bool := none
  duration : Option Int32 := none
  postToAts : Option Int32 := none
  autoCancelParent : Bool := false
  advancedErrorOverride : String := ""
  manualOrderTime : String := ""

/-- Sent only by orders that peg to the midpoint. -/
structure MidOffsetFields where
  midOffsetAtWhole : Option F := none
  midOffsetAtHalf : Option F := none

structure PegBestFields extends MidOffsetFields F where
  minTradeQty : Option Int32 := none
  minCompeteSize : Option Int32 := none
  competeAgainstBestOffset : Option F := none

/-- Every field of a `PLACE_ORDER` frame. -/
structure OrderSpec extends PrimaryFields F, ExtendedFields, ComboFields F, AllocationFields F,
    MiscFields F, VolatilityFields F, ScaleFields F, HedgeFields, AlgoFields, PegBenchFields F,
    ConditionFields, AdjustedFields F, NewerFields F, PegBestFields F

end Values

end Midas.Protocol
