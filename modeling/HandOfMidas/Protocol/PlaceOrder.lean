import HandOfMidas.Protocol.Contracts

/-! `PLACE_ORDER` (`parse_place_order` in `incoming.rs`, `write_place_order` in
    `incoming_encoder.rs`). More than a hundred fields by position: a field too many or too few on
    one side shifts every later one. Each group of fields has its parser, its writer and the part of
    it that is carried; what a group carries may depend on fields read before. -/

namespace Midas.Protocol

/-! ### Server versions that gate fields -/

def SCALE_ORDERS : ℤ := 35
def WHAT_IF_ORDERS : ℤ := 36
def PTA_ORDERS : ℤ := 39
def DELTA_NEUTRAL : ℤ := 40
def SCALE_ORDERS2 : ℤ := 40
def ALGO_ORDERS : ℤ := 41
def NOT_HELD : ℤ := 44
def HEDGE_ORDERS : ℤ := 54
def OPT_OUT_SMART_ROUTING : ℤ := 56
def SMART_COMBO_ROUTING_PARAMS : ℤ := 57
def DELTA_NEUTRAL_CONID : ℤ := 58
def SCALE_ORDERS3 : ℤ := 60
def ORDER_COMBO_LEGS_PRICE : ℤ := 61
def TRAILING_PERCENT : ℤ := 62
def DELTA_NEUTRAL_OPEN_CLOSE : ℤ := 66
def SCALE_TABLE : ℤ := 69
def ALGO_ID : ℤ := 71
def ORDER_SOLICITED : ℤ := 73
def RANDOMIZE_SIZE_AND_PRICE : ℤ := 76
def FRACTIONAL_POSITIONS : ℤ := 101
def PEGGED_TO_BENCHMARK : ℤ := 102
def MODELS_SUPPORT : ℤ := 103
def EXT_OPERATOR : ℤ := 105
def CASH_QTY : ℤ := 111
def SOFT_DOLLAR_TIER : ℤ := 114
def DECISION_MAKER : ℤ := 138
def MIFID_EXECUTION : ℤ := 139
def AUTO_PRICE_FOR_HEDGE : ℤ := 141
def ORDER_CONTAINER : ℤ := 145
def D_PEG_ORDERS : ℤ := 148
def PRICE_MGMT_ALGO : ℤ := 151
def DURATION : ℤ := 158
def POST_TO_ATS : ℤ := 160
def AUTO_CANCEL_PARENT : ℤ := 162
def ADVANCED_ORDER_REJECT : ℤ := 166
def MANUAL_ORDER_TIME : ℤ := 169
def PEGBEST_PEGMID_OFFSETS : ℤ := 170
def FA_PROFILE_DESUPPORT : ℤ := 177

section Values

variable {F : Type} [F64 F]

/-! ### Parsers of the groups -/

def parsePrimary (v : ServerVersion) : FieldReader (PrimaryFields F) := do
  let action ← readString
  let totalQuantity ← since v FRACTIONAL_POSITIONS readF64
    (do
      let n ← readI32
      pure (F64.ofI32 n))
  let orderType ← readString
  let limitPrice ← readOptF64
  let auxPrice ← readOptF64
  pure { action := action, totalQuantity, orderType, limitPrice, auxPrice }

def parseExtended : FieldReader ExtendedFields := do
  let tif ← readString
  let ocaGroup ← readString
  let account ← readString
  let openClose ← readString
  let origin ← readI32
  let orderRef ← readString
  let transmit ← readBool
  let parentId ← readI32
  let blockOrder ← readBool
  let sweepToFill ← readBool
  let displaySize ← readI32
  let triggerMethod ← readI32
  let outsideRth ← readBool
  let hidden ← readBool
  pure
    { tif, ocaGroup, account, openClose, origin, orderRef, transmit, parentId, blockOrder,
      sweepToFill, displaySize, triggerMethod, outsideRth, hidden }

/-- The legs of the contract and the combo fields of the order, for a BAG contract. -/
def parseCombo (v : ServerVersion) (securityType : String) :
    FieldReader (List ComboLeg × ComboFields F) :=
  if securityType = "BAG" then do
    let comboLegs ← parseContractComboLegs v
    let orderComboLegs ← since v ORDER_COMBO_LEGS_PRICE parseOrderComboLegs (pure [])
    let smartComboRoutingParams ← since v SMART_COMBO_ROUTING_PARAMS parseTagValueList (pure [])
    pure (comboLegs, { orderComboLegs := orderComboLegs, smartComboRoutingParams })
  else pure ([], {})

def parseAllocation (v : ServerVersion) : FieldReader (AllocationFields F) := do
  let _sharesAllocation ← readString
  let discretionaryAmt ← readF64
  let goodAfterTime ← readString
  let goodTillDate ← readString
  let faGroup ← readString
  let faMethod ← readString
  let faPercentage ← readString
  let faProfile ← before v FA_PROFILE_DESUPPORT readString (pure "")
  let modelCode ← since v MODELS_SUPPORT readString (pure "")
  let shortSaleSlot ← readI32
  let designatedLocation ← readString
  let exemptCode ← since v SSHORTX_OLD readI32 (pure 0)
  pure
    { discretionaryAmt, goodAfterTime, goodTillDate, faGroup, faMethod, faPercentage, faProfile,
      modelCode, shortSaleSlot, designatedLocation, exemptCode }

def parseMisc : FieldReader (MiscFields F) := do
  let ocaType ← readI32
  let rule80A ← readString
  let settlingFirm ← readString
  let allOrNone ← readBool
  let minQty ← readOptI32
  let percentOffset ← readOptF64
  let eTradeOnly ← readBool
  let firmQuoteOnly ← readBool
  let nbboPriceCap ← readOptF64
  let auctionStrategy ← readI32
  let startingPrice ← readOptF64
  let stockRefPrice ← readOptF64
  let delta ← readOptF64
  let stockRangeLower ← readOptF64
  let stockRangeUpper ← readOptF64
  let overridePercentageConstraints ← readBool
  pure
    { ocaType, rule80A, settlingFirm, allOrNone, minQty, percentOffset, eTradeOnly, firmQuoteOnly,
      nbboPriceCap, auctionStrategy, startingPrice, stockRefPrice, delta, stockRangeLower,
      stockRangeUpper, overridePercentageConstraints }

def parseDeltaNeutral (v : ServerVersion) : FieldReader DeltaNeutralFields := do
  let deltaNeutralConId ← since v DELTA_NEUTRAL_CONID readI32 (pure 0)
  let deltaNeutralSettlingFirm ← since v DELTA_NEUTRAL_CONID readString (pure "")
  let deltaNeutralClearingAccount ← since v DELTA_NEUTRAL_CONID readString (pure "")
  let deltaNeutralClearingIntent ← since v DELTA_NEUTRAL_CONID readString (pure "")
  let deltaNeutralOpenClose ← since v DELTA_NEUTRAL_OPEN_CLOSE readString (pure "")
  let deltaNeutralShortSale ← since v DELTA_NEUTRAL_OPEN_CLOSE readBool (pure false)
  let deltaNeutralShortSaleSlot ← since v DELTA_NEUTRAL_OPEN_CLOSE readI32 (pure 0)
  let deltaNeutralDesignatedLocation ← since v DELTA_NEUTRAL_OPEN_CLOSE readString (pure "")
  pure
    { deltaNeutralConId, deltaNeutralSettlingFirm, deltaNeutralClearingAccount,
      deltaNeutralClearingIntent, deltaNeutralOpenClose, deltaNeutralShortSale,
      deltaNeutralShortSaleSlot, deltaNeutralDesignatedLocation }

def parseVolatility (v : ServerVersion) : FieldReader (VolatilityFields F) := do
  let volatility ← readOptF64
  let volatilityType ← readOptI32
  let deltaNeutralOrderType ← readString
  let deltaNeutralAuxPrice ← readOptF64
  let deltaNeutral ← (if deltaNeutralOrderType ≠ "" then parseDeltaNeutral v else pure {})
  let continuousUpdate ← readBool
  let referencePriceType ← readOptI32
  let trailStopPrice ← readOptF64
  let trailingPercent ← since v TRAILING_PERCENT readOptF64 (pure none)
  pure
    { toDeltaNeutralFields := deltaNeutral, volatility, volatilityType, deltaNeutralOrderType,
      deltaNeutralAuxPrice, continuousUpdate, referencePriceType, trailStopPrice, trailingPercent }

def parseScaleAdjust : FieldReader (ScaleAdjustFields F) := do
  let scalePriceAdjustValue ← readOptF64
  let scalePriceAdjustInterval ← readOptI32
  let scaleProfitOffset ← readOptF64
  let scaleAutoReset ← readBool
  let scaleInitPosition ← readOptI32
  let scaleInitFillQty ← readOptI32
  let scaleRandomPercent ← readBool
  pure
    { scalePriceAdjustValue, scalePriceAdjustInterval, scaleProfitOffset, scaleAutoReset,
      scaleInitPosition, scaleInitFillQty, scaleRandomPercent }

/-- The two sizes and the price increment; before the second size existed, an empty field stood in
    front of the first. -/
def parseScaleLevels (v : ServerVersion) :
    FieldReader (Option Int32 × Option Int32 × Option F) := do
  let sizes ← since v SCALE_ORDERS2
    (do
      let scaleInitLevelSize ← readOptI32
      let scaleSubsLevelSize ← readOptI32
      pure (scaleInitLevelSize, scaleSubsLevelSize))
    (do
      let _dummy ← readString
      let scaleInitLevelSize ← readOptI32
      pure (scaleInitLevelSize, none))
  let scalePriceIncrement ← readOptF64
  pure (sizes.1, sizes.2, scalePriceIncrement)

/-- `matches!(scale_price_increment, Some(v) if v > 0.0 && v != f64::MAX)`. -/
def isScaleOrder : Option F → Bool
  | some v => F64.isPositive v ∧ v ≠ F64.max
  | none => false

def parseScale (v : ServerVersion) : FieldReader (ScaleFields F) := do
  let levels ← since v SCALE_ORDERS (parseScaleLevels v) (pure (none, none, none))
  let adjust ← since v SCALE_ORDERS3 (if isScaleOrder levels.2.2 then parseScaleAdjust else pure {})
    (pure {})
  let scaleTable ← since v SCALE_TABLE readString (pure "")
  let activeStartTime ← since v SCALE_TABLE readString (pure "")
  let activeStopTime ← since v SCALE_TABLE readString (pure "")
  pure
    { toScaleAdjustFields := adjust, scaleInitLevelSize := levels.1,
      scaleSubsLevelSize := levels.2.1, scalePriceIncrement := levels.2.2, scaleTable,
      activeStartTime, activeStopTime }

def parseHedge (v : ServerVersion) : FieldReader HedgeFields := do
  let hedgeType ← since v HEDGE_ORDERS readString (pure "")
  let hedgeParam ← since v HEDGE_ORDERS (if hedgeType ≠ "" then readString else pure "") (pure "")
  let optOutSmartRouting ← since v OPT_OUT_SMART_ROUTING readBool (pure false)
  let clearingAccount ← since v PTA_ORDERS readString (pure "")
  let clearingIntent ← since v PTA_ORDERS readString (pure "")
  let notHeld ← since v NOT_HELD readBool (pure false)
  pure { hedgeType := hedgeType, hedgeParam, optOutSmartRouting, clearingAccount, clearingIntent,
         notHeld }

def parseAlgo (v : ServerVersion) : FieldReader AlgoFields := do
  let algoStrategy ← since v ALGO_ORDERS readString (pure "")
  let algoParams ← since v ALGO_ORDERS
    (if algoStrategy ≠ "" then parseTagValueList else pure []) (pure [])
  let algoId ← since v ALGO_ID readString (pure "")
  let whatIf ← since v WHAT_IF_ORDERS readBool (pure false)
  let orderMiscOptions ← since v LINKING parseTagValueString (pure [])
  let solicited ← since v ORDER_SOLICITED readBool (pure false)
  let randomizeSize ← since v RANDOMIZE_SIZE_AND_PRICE readBool (pure false)
  let randomizePrice ← since v RANDOMIZE_SIZE_AND_PRICE readBool (pure false)
  pure
    { algoStrategy, algoParams, algoId, whatIf, orderMiscOptions, solicited, randomizeSize,
      randomizePrice }

def parsePegBench (orderType : String) : FieldReader (PegBenchFields F) :=
  if orderType = "PEG BENCH" then do
    let referenceContractId ← readI32
    let isPeggedChangeAmountDecrease ← readBool
    let peggedChangeAmount ← readOptF64
    let referenceChangeAmount ← readOptF64
    let referenceExchange ← readString
    pure
      { referenceContractId, isPeggedChangeAmountDecrease, peggedChangeAmount,
        referenceChangeAmount, referenceExchange }
  else pure {}

def parseConditions : FieldReader ConditionFields := do
  let nConditions ← readCount "condition count"
  if nConditions ≠ 0 then do
    let conditions ← readString.repeat nConditions
    let conditionsIgnoreRth ← readBool
    let conditionsCancelOrder ← readBool
    pure { conditions := conditions, conditionsIgnoreRth, conditionsCancelOrder }
  else pure {}

def parseAdjusted : FieldReader (AdjustedFields F) := do
  let adjustedOrderType ← readString
  let triggerPrice ← readOptF64
  let limitPriceOffset ← readOptF64
  let adjustedStopPrice ← readOptF64
  let adjustedStopLimitPrice ← readOptF64
  let adjustedTrailingAmount ← readOptF64
  let adjustableTrailingUnit ← readI32
  pure
    { adjustedOrderType, triggerPrice, limitPriceOffset, adjustedStopPrice, adjustedStopLimitPrice,
      adjustedTrailingAmount, adjustableTrailingUnit }

/-- An optional flag is an empty field or a digit. -/
def parseUsePriceMgmtAlgo : FieldReader (Option Bool) := do
  let raw ← readString
  if raw = "" then pure none
  else if raw = "0" then pure (some false)
  else if raw = "1" then pure (some true)
  else throw (.field s!"invalid use_price_mgmt_algo: {raw.quote}")

def parseNewer (v : ServerVersion) : FieldReader (NewerFields F) := do
  let extOperator ← since v EXT_OPERATOR readString (pure "")
  let softDollarTierName ← since v SOFT_DOLLAR_TIER readString (pure "")
  let softDollarTierValue ← since v SOFT_DOLLAR_TIER readString (pure "")
  let cashQty ← since v CASH_QTY readOptF64 (pure none)
  let mifid2DecisionMaker ← since v DECISION_MAKER readString (pure "")
  let mifid2DecisionAlgo ← since v DECISION_MAKER readString (pure "")
  let mifid2ExecutionTrader ← since v MIFID_EXECUTION readString (pure "")
  let mifid2ExecutionAlgo ← since v MIFID_EXECUTION readString (pure "")
  let dontUseAutoPriceForHedge ← since v AUTO_PRICE_FOR_HEDGE readBool (pure false)
  let isOmsContainer ← since v ORDER_CONTAINER readBool (pure false)
  let discretionaryUpToLimitPrice ← since v D_PEG_ORDERS readBool (pure false)
  let usePriceMgmtAlgo ← since v PRICE_MGMT_ALGO parseUsePriceMgmtAlgo (pure none)
  let duration ← since v DURATION readOptI32 (pure none)
  let postToAts ← since v POST_TO_ATS readOptI32 (pure none)
  let autoCancelParent ← since v AUTO_CANCEL_PARENT readBool (pure false)
  let advancedErrorOverride ← since v ADVANCED_ORDER_REJECT readString (pure "")
  let manualOrderTime ← since v MANUAL_ORDER_TIME readString (pure "")
  pure
    { extOperator, softDollarTierName, softDollarTierValue, cashQty, mifid2DecisionMaker,
      mifid2DecisionAlgo, mifid2ExecutionTrader, mifid2ExecutionAlgo, dontUseAutoPriceForHedge,
      isOmsContainer, discretionaryUpToLimitPrice, usePriceMgmtAlgo, duration, postToAts,
      autoCancelParent, advancedErrorOverride, manualOrderTime }

/-- An order pegs to the midpoint by its type, or by an infinite offset against the best price. -/
def sendMidOffsets (orderType : String) (competeAgainstBestOffset : Option F) : Bool :=
  if orderType = "PEG BEST" then
    match competeAgainstBestOffset with
    | some v => F64.isInfinite v
    | none => false
  else orderType = "PEG MID"

def parseMidOffsets : FieldReader (MidOffsetFields F) := do
  let midOffsetAtWhole ← readOptF64
  let midOffsetAtHalf ← readOptF64
  pure { midOffsetAtWhole := midOffsetAtWhole, midOffsetAtHalf }

def parsePegBest (exchange orderType : String) : FieldReader (PegBestFields F) := do
  let minTradeQty ← (if exchange = "IBKRATS" then readOptI32 else pure none)
  let minCompeteSize ← (if orderType = "PEG BEST" then readOptI32 else pure none)
  let competeAgainstBestOffset ← (if orderType = "PEG BEST" then readOptF64 else pure none)
  let midOffsets ← (if sendMidOffsets orderType competeAgainstBestOffset then parseMidOffsets
    else pure {})
  pure
    { toMidOffsetFields := midOffsets, minTradeQty, minCompeteSize, competeAgainstBestOffset }

/-! ### Writers of the groups -/

def writePrimary (v : ServerVersion) (o : PrimaryFields F) : FieldWriter := do
  writeString o.action
  since v FRACTIONAL_POSITIONS (writeF64 o.totalQuantity) (writeI32 (F64.asI32 o.totalQuantity))
  writeString o.orderType
  writeOptF64 o.limitPrice
  writeOptF64 o.auxPrice

def writeExtended (o : ExtendedFields) : FieldWriter := do
  writeString o.tif
  writeString o.ocaGroup
  writeString o.account
  writeString o.openClose
  writeI32 o.origin
  writeString o.orderRef
  writeBool o.transmit
  writeI32 o.parentId
  writeBool o.blockOrder
  writeBool o.sweepToFill
  writeI32 o.displaySize
  writeI32 o.triggerMethod
  writeBool o.outsideRth
  writeBool o.hidden

def writeCombo (v : ServerVersion) (securityType : String) (legs : List ComboLeg)
    (o : ComboFields F) : FieldWriter :=
  if securityType = "BAG" then do
    writeComboLegsForPlaceOrder v legs
    since v ORDER_COMBO_LEGS_PRICE (writeOrderComboLegs o.orderComboLegs) skip
    since v SMART_COMBO_ROUTING_PARAMS (writeTagValueList o.smartComboRoutingParams) skip
  else skip

def writeAllocation (v : ServerVersion) (o : AllocationFields F) : FieldWriter := do
  writeString ""
  writeF64 o.discretionaryAmt
  writeString o.goodAfterTime
  writeString o.goodTillDate
  writeString o.faGroup
  writeString o.faMethod
  writeString o.faPercentage
  before v FA_PROFILE_DESUPPORT (writeString o.faProfile) skip
  since v MODELS_SUPPORT (writeString o.modelCode) skip
  writeI32 o.shortSaleSlot
  writeString o.designatedLocation
  since v SSHORTX_OLD (writeI32 o.exemptCode) skip

def writeMisc (o : MiscFields F) : FieldWriter := do
  writeI32 o.ocaType
  writeString o.rule80A
  writeString o.settlingFirm
  writeBool o.allOrNone
  writeOptI32 o.minQty
  writeOptF64 o.percentOffset
  writeBool o.eTradeOnly
  writeBool o.firmQuoteOnly
  writeOptF64 o.nbboPriceCap
  writeI32 o.auctionStrategy
  writeOptF64 o.startingPrice
  writeOptF64 o.stockRefPrice
  writeOptF64 o.delta
  writeOptF64 o.stockRangeLower
  writeOptF64 o.stockRangeUpper
  writeBool o.overridePercentageConstraints

def writeDeltaNeutralFields (v : ServerVersion) (o : DeltaNeutralFields) : FieldWriter := do
  since v DELTA_NEUTRAL_CONID (writeI32 o.deltaNeutralConId) skip
  since v DELTA_NEUTRAL_CONID (writeString o.deltaNeutralSettlingFirm) skip
  since v DELTA_NEUTRAL_CONID (writeString o.deltaNeutralClearingAccount) skip
  since v DELTA_NEUTRAL_CONID (writeString o.deltaNeutralClearingIntent) skip
  since v DELTA_NEUTRAL_OPEN_CLOSE (writeString o.deltaNeutralOpenClose) skip
  since v DELTA_NEUTRAL_OPEN_CLOSE (writeBool o.deltaNeutralShortSale) skip
  since v DELTA_NEUTRAL_OPEN_CLOSE (writeI32 o.deltaNeutralShortSaleSlot) skip
  since v DELTA_NEUTRAL_OPEN_CLOSE (writeString o.deltaNeutralDesignatedLocation) skip

def writeVolatility (v : ServerVersion) (o : VolatilityFields F) : FieldWriter := do
  writeOptF64 o.volatility
  writeOptI32 o.volatilityType
  writeString o.deltaNeutralOrderType
  writeOptF64 o.deltaNeutralAuxPrice
  (if o.deltaNeutralOrderType ≠ "" then writeDeltaNeutralFields v o.toDeltaNeutralFields else skip)
  writeBool o.continuousUpdate
  writeOptI32 o.referencePriceType
  writeOptF64 o.trailStopPrice
  since v TRAILING_PERCENT (writeOptF64 o.trailingPercent) skip

def writeScaleAdjust (o : ScaleAdjustFields F) : FieldWriter := do
  writeOptF64 o.scalePriceAdjustValue
  writeOptI32 o.scalePriceAdjustInterval
  writeOptF64 o.scaleProfitOffset
  writeBool o.scaleAutoReset
  writeOptI32 o.scaleInitPosition
  writeOptI32 o.scaleInitFillQty
  writeBool o.scaleRandomPercent

def writeScaleLevels (v : ServerVersion) (o : ScaleFields F) : FieldWriter := do
  since v SCALE_ORDERS2
    (do
      writeOptI32 o.scaleInitLevelSize
      writeOptI32 o.scaleSubsLevelSize)
    (do
      writeString ""
      writeOptI32 o.scaleInitLevelSize)
  writeOptF64 o.scalePriceIncrement

def writeScale (v : ServerVersion) (o : ScaleFields F) : FieldWriter := do
  since v SCALE_ORDERS (writeScaleLevels v o) skip
  since v SCALE_ORDERS3
    (if isScaleOrder o.scalePriceIncrement then writeScaleAdjust o.toScaleAdjustFields else skip) skip
  since v SCALE_TABLE (writeString o.scaleTable) skip
  since v SCALE_TABLE (writeString o.activeStartTime) skip
  since v SCALE_TABLE (writeString o.activeStopTime) skip

def writeHedge (v : ServerVersion) (o : HedgeFields) : FieldWriter := do
  since v HEDGE_ORDERS (writeString o.hedgeType) skip
  since v HEDGE_ORDERS (if o.hedgeType ≠ "" then writeString o.hedgeParam else skip) skip
  since v OPT_OUT_SMART_ROUTING (writeBool o.optOutSmartRouting) skip
  since v PTA_ORDERS (writeString o.clearingAccount) skip
  since v PTA_ORDERS (writeString o.clearingIntent) skip
  since v NOT_HELD (writeBool o.notHeld) skip

def writeAlgo (v : ServerVersion) (o : AlgoFields) : FieldWriter := do
  since v ALGO_ORDERS (writeString o.algoStrategy) skip
  since v ALGO_ORDERS (if o.algoStrategy ≠ "" then writeTagValueList o.algoParams else skip) skip
  since v ALGO_ID (writeString o.algoId) skip
  since v WHAT_IF_ORDERS (writeBool o.whatIf) skip
  since v LINKING (writeTagValueString o.orderMiscOptions) skip
  since v ORDER_SOLICITED (writeBool o.solicited) skip
  since v RANDOMIZE_SIZE_AND_PRICE (writeBool o.randomizeSize) skip
  since v RANDOMIZE_SIZE_AND_PRICE (writeBool o.randomizePrice) skip

def writePegBench (orderType : String) (o : PegBenchFields F) : FieldWriter :=
  if orderType = "PEG BENCH" then do
    writeI32 o.referenceContractId
    writeBool o.isPeggedChangeAmountDecrease
    writeOptF64 o.peggedChangeAmount
    writeOptF64 o.referenceChangeAmount
    writeString o.referenceExchange
  else skip

def writeConditions (o : ConditionFields) : FieldWriter := do
  writeI32 (.ofNat o.conditions.length)
  (if o.conditions ≠ [] then do
    Writing.each writeString o.conditions
    writeBool o.conditionsIgnoreRth
    writeBool o.conditionsCancelOrder
  else skip)

def writeAdjusted (o : AdjustedFields F) : FieldWriter := do
  writeString o.adjustedOrderType
  writeOptF64 o.triggerPrice
  writeOptF64 o.limitPriceOffset
  writeOptF64 o.adjustedStopPrice
  writeOptF64 o.adjustedStopLimitPrice
  writeOptF64 o.adjustedTrailingAmount
  writeI32 o.adjustableTrailingUnit

def writeUsePriceMgmtAlgo : Option Bool → FieldWriter
  | none => writeString ""
  | some false => writeString "0"
  | some true => writeString "1"

def writeNewer (v : ServerVersion) (o : NewerFields F) : FieldWriter := do
  since v EXT_OPERATOR (writeString o.extOperator) skip
  since v SOFT_DOLLAR_TIER (writeString o.softDollarTierName) skip
  since v SOFT_DOLLAR_TIER (writeString o.softDollarTierValue) skip
  since v CASH_QTY (writeOptF64 o.cashQty) skip
  since v DECISION_MAKER (writeString o.mifid2DecisionMaker) skip
  since v DECISION_MAKER (writeString o.mifid2DecisionAlgo) skip
  since v MIFID_EXECUTION (writeString o.mifid2ExecutionTrader) skip
  since v MIFID_EXECUTION (writeString o.mifid2ExecutionAlgo) skip
  since v AUTO_PRICE_FOR_HEDGE (writeBool o.dontUseAutoPriceForHedge) skip
  since v ORDER_CONTAINER (writeBool o.isOmsContainer) skip
  since v D_PEG_ORDERS (writeBool o.discretionaryUpToLimitPrice) skip
  since v PRICE_MGMT_ALGO (writeUsePriceMgmtAlgo o.usePriceMgmtAlgo) skip
  since v DURATION (writeOptI32 o.duration) skip
  since v POST_TO_ATS (writeOptI32 o.postToAts) skip
  since v AUTO_CANCEL_PARENT (writeBool o.autoCancelParent) skip
  since v ADVANCED_ORDER_REJECT (writeString o.advancedErrorOverride) skip
  since v MANUAL_ORDER_TIME (writeString o.manualOrderTime) skip

def writeMidOffsets (o : MidOffsetFields F) : FieldWriter := do
  writeOptF64 o.midOffsetAtWhole
  writeOptF64 o.midOffsetAtHalf

def writePegBest (exchange orderType : String) (o : PegBestFields F) : FieldWriter := do
  (if exchange = "IBKRATS" then writeOptI32 o.minTradeQty else skip)
  (if orderType = "PEG BEST" then writeOptI32 o.minCompeteSize else skip)
  (if orderType = "PEG BEST" then writeOptF64 o.competeAgainstBestOffset else skip)
  (if sendMidOffsets orderType o.competeAgainstBestOffset then writeMidOffsets o.toMidOffsetFields
    else skip)

/-! ### What the groups carry -/

def PrimaryFields.carried (o : PrimaryFields F) : PrimaryFields F :=
  { o with
    totalQuantity := wireF64 o.totalQuantity
    limitPrice := wireOptF64 o.limitPrice
    auxPrice := wireOptF64 o.auxPrice }

def ComboFields.carried (o : ComboFields F) : ComboFields F :=
  { o with orderComboLegs := o.orderComboLegs.map OrderComboLeg.carried }

/-- The profile was dropped from the protocol. -/
def AllocationFields.carried (v : ServerVersion) (o : AllocationFields F) : AllocationFields F :=
  { o with
    discretionaryAmt := wireF64 o.discretionaryAmt
    faProfile := before v FA_PROFILE_DESUPPORT o.faProfile "" }

def MiscFields.carried (o : MiscFields F) : MiscFields F :=
  { o with
    minQty := wireOptI32 o.minQty
    percentOffset := wireOptF64 o.percentOffset
    nbboPriceCap := wireOptF64 o.nbboPriceCap
    startingPrice := wireOptF64 o.startingPrice
    stockRefPrice := wireOptF64 o.stockRefPrice
    delta := wireOptF64 o.delta
    stockRangeLower := wireOptF64 o.stockRangeLower
    stockRangeUpper := wireOptF64 o.stockRangeUpper }

def VolatilityFields.carried (o : VolatilityFields F) : VolatilityFields F :=
  { o with
    toDeltaNeutralFields := if o.deltaNeutralOrderType ≠ "" then o.toDeltaNeutralFields else {}
    volatility := wireOptF64 o.volatility
    volatilityType := wireOptI32 o.volatilityType
    deltaNeutralAuxPrice := wireOptF64 o.deltaNeutralAuxPrice
    referencePriceType := wireOptI32 o.referencePriceType
    trailStopPrice := wireOptF64 o.trailStopPrice
    trailingPercent := wireOptF64 o.trailingPercent }

def ScaleAdjustFields.carried (o : ScaleAdjustFields F) : ScaleAdjustFields F :=
  { o with
    scalePriceAdjustValue := wireOptF64 o.scalePriceAdjustValue
    scalePriceAdjustInterval := wireOptI32 o.scalePriceAdjustInterval
    scaleProfitOffset := wireOptF64 o.scaleProfitOffset
    scaleInitPosition := wireOptI32 o.scaleInitPosition
    scaleInitFillQty := wireOptI32 o.scaleInitFillQty }

def ScaleFields.carried (o : ScaleFields F) : ScaleFields F :=
  { o with
    toScaleAdjustFields :=
      if isScaleOrder o.scalePriceIncrement then o.toScaleAdjustFields.carried else {}
    scaleInitLevelSize := wireOptI32 o.scaleInitLevelSize
    scaleSubsLevelSize := wireOptI32 o.scaleSubsLevelSize
    scalePriceIncrement := wireOptF64 o.scalePriceIncrement }

def HedgeFields.carried (o : HedgeFields) : HedgeFields :=
  { o with hedgeParam := if o.hedgeType ≠ "" then o.hedgeParam else "" }

def AlgoFields.carried (o : AlgoFields) : AlgoFields :=
  { o with algoParams := if o.algoStrategy ≠ "" then o.algoParams else [] }

def PegBenchFields.carried (o : PegBenchFields F) : PegBenchFields F :=
  { o with
    peggedChangeAmount := wireOptF64 o.peggedChangeAmount
    referenceChangeAmount := wireOptF64 o.referenceChangeAmount }

def ConditionFields.carried (o : ConditionFields) : ConditionFields :=
  if o.conditions ≠ [] then o else {}

def AdjustedFields.carried (o : AdjustedFields F) : AdjustedFields F :=
  { o with
    triggerPrice := wireOptF64 o.triggerPrice
    limitPriceOffset := wireOptF64 o.limitPriceOffset
    adjustedStopPrice := wireOptF64 o.adjustedStopPrice
    adjustedStopLimitPrice := wireOptF64 o.adjustedStopLimitPrice
    adjustedTrailingAmount := wireOptF64 o.adjustedTrailingAmount }

def NewerFields.carried (o : NewerFields F) : NewerFields F :=
  { o with
    cashQty := wireOptF64 o.cashQty
    duration := wireOptI32 o.duration
    postToAts := wireOptI32 o.postToAts }

def MidOffsetFields.carried (o : MidOffsetFields F) : MidOffsetFields F :=
  ⟨wireOptF64 o.midOffsetAtWhole, wireOptF64 o.midOffsetAtHalf⟩

def PegBestFields.carried (exchange orderType : String) (o : PegBestFields F) : PegBestFields F where
  toMidOffsetFields := if sendMidOffsets orderType o.competeAgainstBestOffset
    then o.toMidOffsetFields.carried else {}
  minTradeQty := if exchange = "IBKRATS" then wireOptI32 o.minTradeQty else none
  minCompeteSize := if orderType = "PEG BEST" then wireOptI32 o.minCompeteSize else none
  competeAgainstBestOffset :=
    if orderType = "PEG BEST" then wireOptF64 o.competeAgainstBestOffset else none

/-! ### The whole order -/

/-- After the message id: order id, contract and order. The groups of the order stand between parts
    of the contract. -/
def parsePlaceOrder (v : ServerVersion) : FieldReader (Int32 × ContractSpec F × OrderSpec F) := do
  before v ORDER_CONTAINER
    (do
      let _innerVersion ← readI32
      pure ())
    (pure ())
  let orderId ← readI32
  let contract ← parseContractForPlaceOrder v
  let primary ← parsePrimary v
  let extended ← parseExtended
  let combo ← parseCombo v contract.securityType
  let allocation ← parseAllocation v
  let misc ← parseMisc
  let volatility ← parseVolatility v
  let scale ← parseScale v
  let hedge ← parseHedge v
  let deltaNeutralContract ← since v DELTA_NEUTRAL parseDeltaNeutralContract (pure none)
  let algo ← parseAlgo v
  let pegBench ← since v PEGGED_TO_BENCHMARK (parsePegBench primary.orderType) (pure {})
  let conditions ← since v PEGGED_TO_BENCHMARK parseConditions (pure {})
  let adjusted ← since v PEGGED_TO_BENCHMARK parseAdjusted (pure {})
  let newer ← parseNewer v
  let pegBest ← since v PEGBEST_PEGMID_OFFSETS
    (parsePegBest contract.exchange primary.orderType) (pure {})
  pure (orderId, { contract with comboLegs := combo.1, deltaNeutralContract },
    { toPrimaryFields := primary, toExtendedFields := extended, toComboFields := combo.2,
      toAllocationFields := allocation, toMiscFields := misc, toVolatilityFields := volatility,
      toScaleFields := scale, toHedgeFields := hedge, toAlgoFields := algo,
      toPegBenchFields := pegBench, toConditionFields := conditions, toAdjustedFields := adjusted,
      toNewerFields := newer, toPegBestFields := pegBest })

def writePlaceOrder (v : ServerVersion) (orderId : Int32) (contract : ContractSpec F)
    (o : OrderSpec F) : FieldWriter := do
  before v ORDER_CONTAINER (writeI32 45) skip
  writeI32 orderId
  writeContractForPlaceOrder v contract
  writePrimary v o.toPrimaryFields
  writeExtended o.toExtendedFields
  writeCombo v contract.securityType contract.comboLegs o.toComboFields
  writeAllocation v o.toAllocationFields
  writeMisc o.toMiscFields
  writeVolatility v o.toVolatilityFields
  writeScale v o.toScaleFields
  writeHedge v o.toHedgeFields
  since v DELTA_NEUTRAL (writeDeltaNeutral contract.deltaNeutralContract) skip
  writeAlgo v o.toAlgoFields
  since v PEGGED_TO_BENCHMARK (writePegBench o.orderType o.toPegBenchFields) skip
  since v PEGGED_TO_BENCHMARK (writeConditions o.toConditionFields) skip
  since v PEGGED_TO_BENCHMARK (writeAdjusted o.toAdjustedFields) skip
  writeNewer v o.toNewerFields
  since v PEGBEST_PEGMID_OFFSETS
    (writePegBest contract.exchange o.orderType o.toPegBestFields) skip

/-- The contract of a placed order: legs for a BAG only. -/
def ContractSpec.carriedWithOrder (c : ContractSpec F) : ContractSpec F :=
  { c.carriedByPlaceOrder with
    comboLegs := if c.securityType = "BAG" then c.comboLegs else []
    deltaNeutralContract := c.deltaNeutralContract.map DeltaNeutralContract.carried }

def OrderSpec.carried (v : ServerVersion) (c : ContractSpec F) (o : OrderSpec F) : OrderSpec F where
  toPrimaryFields := o.toPrimaryFields.carried
  toExtendedFields := o.toExtendedFields
  toComboFields := if c.securityType = "BAG" then o.toComboFields.carried else {}
  toAllocationFields := o.toAllocationFields.carried v
  toMiscFields := o.toMiscFields.carried
  toVolatilityFields := o.toVolatilityFields.carried
  toScaleFields := o.toScaleFields.carried
  toHedgeFields := o.toHedgeFields.carried
  toAlgoFields := o.toAlgoFields.carried
  toPegBenchFields := if o.orderType = "PEG BENCH" then o.toPegBenchFields.carried else {}
  toConditionFields := o.toConditionFields.carried
  toAdjustedFields := o.toAdjustedFields.carried
  toNewerFields := o.toNewerFields.carried
  toPegBestFields := o.toPegBestFields.carried c.exchange o.orderType

/-- The lists of an order whose lengths must fit the `i32` counts in front of them. -/
structure OrderSpec.Countable (c : ContractSpec F) (o : OrderSpec F) : Prop where
  comboLegs : c.comboLegs.length < 2 ^ 31
  orderComboLegs : o.orderComboLegs.length < 2 ^ 31
  smartComboRoutingParams : o.smartComboRoutingParams.length < 2 ^ 31
  algoParams : o.algoParams.length < 2 ^ 31
  conditions : o.conditions.length < 2 ^ 31

end Values

end Midas.Protocol

namespace Midas.Undoes

open Midas.Protocol

theorem extended (o : ExtendedFields) : Undoes parseExtended (writeExtended o) o :=
  .bind (.str _) <| .bind (.str _) <| .bind (.str _) <| .bind (.str _) <| .bind (.i32 _) <|
  .bind (.str _) <| .bind (.bool _) <| .bind (.i32 _) <| .bind (.bool _) <| .bind (.bool _) <|
  .bind (.i32 _) <| .bind (.i32 _) <| .bind (.bool _) <| .last (.bool _) rfl

theorem deltaNeutralFields (v : ServerVersion) (o : DeltaNeutralFields) :
    Undoes (parseDeltaNeutral v) (writeDeltaNeutralFields v o) o :=
  .bind (.since (by decide) (.i32 _)) <| .bind (.since (by decide) (.str _)) <|
  .bind (.since (by decide) (.str _)) <| .bind (.since (by decide) (.str _)) <|
  .bind (.since (by decide) (.str _)) <| .bind (.since (by decide) (.bool _)) <|
  .bind (.since (by decide) (.i32 _)) <| .last (.since (by decide) (.str _)) rfl

theorem hedge (v : ServerVersion) (o : HedgeFields) :
    Undoes (parseHedge v) (writeHedge v o) o.carried :=
  .bind (.since (by decide) (.str _)) <|
  .bind (.since (by decide) (.cond (fun _ => .str _) fun _ => .pure _)) <|
  .bind (.since (by decide) (.bool _)) <| .bind (.since (by decide) (.str _)) <|
  .bind (.since (by decide) (.str _)) <| .last (.since (by decide) (.bool _)) rfl

theorem algo (v : ServerVersion) {o : AlgoFields} (hlen : o.algoParams.length < 2 ^ 31)
    (hplain : ∀ tv ∈ o.orderMiscOptions, tv.Plain) :
    Undoes (parseAlgo v) (writeAlgo v o) o.carried :=
  .bind (.since (by decide) (.str _)) <|
  .bind (.since (by decide) (.cond (fun _ => .tagValueList hlen) fun _ => .pure _)) <|
  .bind (.since (by decide) (.str _)) <| .bind (.since (by decide) (.bool _)) <|
  .bind (.since (by decide) (.tagValueString hplain)) <| .bind (.since (by decide) (.bool _)) <|
  .bind (.since (by decide) (.bool _)) <| .last (.since (by decide) (.bool _)) rfl

theorem usePriceMgmtAlgo (o : Option Bool) :
    Undoes parseUsePriceMgmtAlgo (writeUsePriceMgmtAlgo o) o := by
  cases o with
  | none => exact .last (.str "") rfl
  | some flag =>
    cases flag with
    | false => exact .last (.str "0") rfl
    | true => exact .last (.str "1") rfl

theorem conditions {o : ConditionFields} (hlen : o.conditions.length < 2 ^ 31) :
    Undoes parseConditions (writeConditions o) o.carried := by
  refine .bind (.count _ hlen) ?_
  by_cases hnil : o.conditions = []
  · rw [if_neg (by simp [hnil]), if_neg (by simp [hnil]), ConditionFields.carried,
      if_neg (by simp [hnil])]
    exact .pure _
  · have hlength : o.conditions.length ≠ 0 := fun h => hnil (List.length_eq_zero_iff.mp h)
    rw [if_pos hlength, if_pos hnil, ConditionFields.carried, if_pos hnil]
    have heach : Undoes (readString.repeat o.conditions.length) (Writing.each writeString o.conditions)
        (o.conditions.map fun s => s) := each fun s _ => .str s
    rw [List.map_id'] at heach
    exact .bind heach <| .bind (.bool _) <| .last (.bool _) rfl

section Values

variable {F : Type} [F64 F] [LawfulF64 F]

theorem primary (v : ServerVersion) (o : PrimaryFields F) :
    Undoes (parsePrimary v) (writePrimary v o) o.carried :=
  .bind (.str _) <| .bind (.since (by decide) (.f64 _)) <| .bind (.str _) <| .bind (.optF64 _) <|
  .last (.optF64 _) rfl

theorem combo (v : ServerVersion) (c : Protocol.ContractSpec F) {o : OrderSpec F} (h : o.Countable c) :
    Undoes (parseCombo v c.securityType) (writeCombo v c.securityType c.comboLegs o.toComboFields)
      (if c.securityType = "BAG" then (c.comboLegs, o.toComboFields.carried) else ([], {})) :=
  .cond
    (fun _ => .bind (.contractComboLegs v h.comboLegs) <|
      .bind (.since (by decide) (.orderComboLegs h.orderComboLegs)) <|
      .last (.since (by decide) (.tagValueList h.smartComboRoutingParams)) rfl)
    fun _ => .pure _

theorem allocation (v : ServerVersion) (o : AllocationFields F) :
    Undoes (parseAllocation v) (writeAllocation v o) (o.carried v) :=
  .bind (.str _) <| .bind (.f64 _) <| .bind (.str _) <| .bind (.str _) <| .bind (.str _) <|
  .bind (.str _) <| .bind (.str _) <| .bind (.cond (fun _ => .str _) fun _ => .pure _) <|
  .bind (.since (by decide) (.str _)) <| .bind (.i32 _) <| .bind (.str _) <|
  .last (.since (by decide) (.i32 _)) rfl

theorem misc (o : MiscFields F) : Undoes parseMisc (writeMisc o) o.carried :=
  .bind (.i32 _) <| .bind (.str _) <| .bind (.str _) <| .bind (.bool _) <| .bind (.optI32 _) <|
  .bind (.optF64 _) <| .bind (.bool _) <| .bind (.bool _) <| .bind (.optF64 _) <|
  .bind (.i32 _) <| .bind (.optF64 _) <| .bind (.optF64 _) <| .bind (.optF64 _) <|
  .bind (.optF64 _) <| .bind (.optF64 _) <| .last (.bool _) rfl

theorem volatility (v : ServerVersion) (o : VolatilityFields F) :
    Undoes (parseVolatility v) (writeVolatility v o) o.carried :=
  .bind (.optF64 _) <| .bind (.optI32 _) <| .bind (.str _) <| .bind (.optF64 _) <|
  .bind (.cond (fun _ => .deltaNeutralFields v _) fun _ => .pure _) <| .bind (.bool _) <|
  .bind (.optI32 _) <| .bind (.optF64 _) <| .last (.since (by decide) (.optF64 _)) rfl

theorem scaleAdjust (o : ScaleAdjustFields F) :
    Undoes parseScaleAdjust (writeScaleAdjust o) o.carried :=
  .bind (.optF64 _) <| .bind (.optI32 _) <| .bind (.optF64 _) <| .bind (.bool _) <|
  .bind (.optI32 _) <| .bind (.optI32 _) <| .last (.bool _) rfl

theorem scaleLevels (v : ServerVersion) (o : ScaleFields F) :
    Undoes (parseScaleLevels v) (writeScaleLevels v o) (wireOptI32 o.scaleInitLevelSize,
      wireOptI32 o.scaleSubsLevelSize, wireOptF64 o.scalePriceIncrement) :=
  .bind (.since (by decide) (.bind (.optI32 _) <| .last (.optI32 _) rfl)) <| .last (.optF64 _) rfl

/-- The parser decides the scale block as the writer does: what the wire makes of an increment is no
    scale order if the increment is none. -/
theorem isScaleOrder_wire (o : Option F) : isScaleOrder (wireOptF64 o) = isScaleOrder o := by
  cases o with
  | none => rfl
  | some x =>
    show isScaleOrder (if x = F64.max ∨ F64.isNan x = true then none else some x) = _
    split
    · rename_i hunset
      rcases hunset with rfl | hnan
      · simp [isScaleOrder]
      · simp [isScaleOrder, LawfulF64.nan_not_positive x hnan]
    · rfl

theorem scale (v : ServerVersion) (o : ScaleFields F) :
    Undoes (parseScale v) (writeScale v o) o.carried := by
  refine .bind (.since (by decide) (.scaleLevels v o)) ?_
  rw [isScaleOrder_wire]
  exact .bind (.since (by decide) (.cond (fun _ => .scaleAdjust _) fun _ => .pure _)) <|
    .bind (.since (by decide) (.str _)) <| .bind (.since (by decide) (.str _)) <|
    .last (.since (by decide) (.str _)) rfl

theorem pegBench (orderType : String) (o : PegBenchFields F) :
    Undoes (parsePegBench orderType) (writePegBench orderType o)
      (if orderType = "PEG BENCH" then o.carried else {}) :=
  .cond
    (fun _ => .bind (.i32 _) <| .bind (.bool _) <| .bind (.optF64 _) <| .bind (.optF64 _) <|
      .last (.str _) rfl)
    fun _ => .pure _

theorem adjusted (o : AdjustedFields F) : Undoes parseAdjusted (writeAdjusted o) o.carried :=
  .bind (.str _) <| .bind (.optF64 _) <| .bind (.optF64 _) <| .bind (.optF64 _) <|
  .bind (.optF64 _) <| .bind (.optF64 _) <| .last (.i32 _) rfl

theorem newer (v : ServerVersion) (o : NewerFields F) :
    Undoes (parseNewer v) (writeNewer v o) o.carried :=
  .bind (.since (by decide) (.str _)) <| .bind (.since (by decide) (.str _)) <|
  .bind (.since (by decide) (.str _)) <| .bind (.since (by decide) (.optF64 _)) <|
  .bind (.since (by decide) (.str _)) <| .bind (.since (by decide) (.str _)) <|
  .bind (.since (by decide) (.str _)) <| .bind (.since (by decide) (.str _)) <|
  .bind (.since (by decide) (.bool _)) <| .bind (.since (by decide) (.bool _)) <|
  .bind (.since (by decide) (.bool _)) <| .bind (.since (by decide) (.usePriceMgmtAlgo _)) <|
  .bind (.since (by decide) (.optI32 _)) <| .bind (.since (by decide) (.optI32 _)) <|
  .bind (.since (by decide) (.bool _)) <| .bind (.since (by decide) (.str _)) <|
  .last (.since (by decide) (.str _)) rfl

/-- The parser decides on the mid offsets as the writer does. -/
theorem sendMidOffsets_wire (orderType : String) (o : Option F) :
    sendMidOffsets orderType (if orderType = "PEG BEST" then wireOptF64 o else none) =
      sendMidOffsets orderType o := by
  unfold sendMidOffsets
  by_cases htype : orderType = "PEG BEST"
  · rw [if_pos htype, if_pos htype, if_pos htype]
    cases o with
    | none => rfl
    | some x =>
      by_cases hunset : x = F64.max ∨ F64.isNan x = true
      · have hnone : wireOptF64 (some x) = none := if_pos hunset
        rw [hnone]
        rcases hunset with rfl | hnan
        · exact LawfulF64.max_not_infinite.symm
        · exact (LawfulF64.nan_not_infinite x hnan).symm
      · have hsome : wireOptF64 (some x) = some x := if_neg hunset
        rw [hsome]
  · rw [if_neg htype, if_neg htype]

theorem pegBest (exchange orderType : String) (o : PegBestFields F) :
    Undoes (parsePegBest exchange orderType) (writePegBest exchange orderType o)
      (o.carried exchange orderType) := by
  refine .bind (.cond (fun _ => .optI32 _) fun _ => .pure _) <|
    .bind (.cond (fun _ => .optI32 _) fun _ => .pure _) <|
    .bind (.cond (fun _ => .optF64 _) fun _ => .pure _) ?_
  rw [sendMidOffsets_wire]
  exact .last (.cond (fun _ => .bind (.optF64 _) <| .last (.optF64 _) rfl) fun _ => .pure _) rfl

/-- The blocks of `PLACE_ORDER` in step. -/
theorem placeOrder (v : ServerVersion) (orderId : Int32) (c : Protocol.ContractSpec F) {o : OrderSpec F}
    (h : o.Countable c) (hplain : ∀ tv ∈ o.orderMiscOptions, tv.Plain) :
    Undoes (parsePlaceOrder v) (writePlaceOrder v orderId c o)
      (orderId, c.carriedWithOrder, o.carried v c) := by
  refine .bind (.before (by decide) (.pure ())) <| .bind (.i32 _) <|
    .bind (.contractForPlaceOrder v c) <| .bind (.primary v _) <| .bind (.extended _) <|
    .bind (.combo v c h) <| .bind (.allocation v _) <| .bind (.misc _) <| .bind (.volatility v _) <|
    .bind (.scale v _) <| .bind (.hedge v _) <| .bind (.since (by decide) (.deltaNeutral _)) <|
    .bind (.algo v h.algoParams hplain) <| .bind (.since (by decide) (.pegBench _ _)) <|
    .bind (.since (by decide) (.conditions h.conditions)) <|
    .bind (.since (by decide) (.adjusted _)) <| .bind (.newer v _) <|
    .last (.since (by decide) (.pegBest _ _ _)) ?_
  -- only the combo block is a pair chosen by the security type
  by_cases hbag : c.securityType = "BAG"
  · simp only [if_pos hbag, ContractSpec.carriedWithOrder, OrderSpec.carried]
    rfl
  · simp only [if_neg hbag, ContractSpec.carriedWithOrder, OrderSpec.carried]
    rfl

end Values

end Midas.Undoes
