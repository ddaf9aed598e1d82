import HandOfMidas.Protocol.Helpers

/-! The contract blocks (`helpers.rs`, and the writers of `incoming_encoder.rs`). The messages carry
    different parts of a contract, in blocks that differ by a few fields. -/

namespace Midas.Protocol

section Values

variable {F : Type} [F64 F]

/-! ### Parsers -/

def parseContractForPlaceOrder (v : ServerVersion) : FieldReader (ContractSpec F) := do
  let contractId ← since v PLACE_ORDER_CONID readI32 (pure 0)
  let symbol ← readString
  let securityType ← readString
  let lastTradeDateOrContractMonth ← readString
  let strike ← readF64
  let right ← readString
  let multiplier ← readString
  let exchange ← readString
  let primaryExchange ← readString
  let currency ← readString
  let localSymbol ← readString
  let tradingClass ← since v TRADING_CLASS readString (pure "")
  let securityIdType ← since v SEC_ID_TYPE readString (pure "")
  let securityId ← since v SEC_ID_TYPE readString (pure "")
  pure
    { contractId, symbol, securityType, lastTradeDateOrContractMonth, strike, right,
      multiplier, exchange, primaryExchange, currency, localSymbol, tradingClass,
      securityIdType, securityId }

/-- Exchange and primary exchange: two fields, or one that may hold both (`EXCHANGE:PRIMARY`). -/
def parseExchanges (v : ServerVersion) : FieldReader (String × String) :=
  since v PRIMARYEXCH
    (do
      let exchange ← readString
      let primaryExchange ← readString
      pure (exchange, primaryExchange))
    (since v LINKING
      (do
        let fused ← readString
        let pair := splitOnce ':' fused.toList
        pure (pair.tag, pair.value))
      (pure ("", "")))

def parseContractForReqContractData (v : ServerVersion) : FieldReader (ContractSpec F) := do
  let contractId ← since v CONTRACT_CONID readI32 (pure 0)
  let symbol ← readString
  let securityType ← readString
  let lastTradeDateOrContractMonth ← readString
  let strike ← readF64
  let right ← readString
  let multiplier ← since v 15 readString (pure "")
  let exchanges ← parseExchanges v
  let currency ← readString
  let localSymbol ← readString
  let tradingClass ← since v TRADING_CLASS readString (pure "")
  let includeExpired ← since v INCLUDE_EXPIRED_IN_REQ_CONTRACT_DATA readBool (pure false)
  let securityIdType ← since v SEC_ID_TYPE readString (pure "")
  let securityId ← since v SEC_ID_TYPE readString (pure "")
  let issuerId ← since v BOND_ISSUERID readString (pure "")
  pure
    { contractId := contractId, symbol, securityType, lastTradeDateOrContractMonth, strike,
      right, multiplier, exchange := exchanges.1, primaryExchange := exchanges.2, currency,
      localSymbol, tradingClass, includeExpired, securityIdType, securityId, issuerId }

/-- The fields from the symbol to the trading class, after the contract id. -/
def parseContractBody (v : ServerVersion) (contractId : Int32) : FieldReader (ContractSpec F) := do
  let symbol ← readString
  let securityType ← readString
  let lastTradeDateOrContractMonth ← readString
  let strike ← readF64
  let right ← readString
  let multiplier ← readString
  let exchange ← readString
  let primaryExchange ← readString
  let currency ← readString
  let localSymbol ← readString
  let tradingClass ← since v TRADING_CLASS readString (pure "")
  pure
    { contractId, symbol, securityType, lastTradeDateOrContractMonth, strike, right,
      multiplier, exchange, primaryExchange, currency, localSymbol, tradingClass }

def parseContractForMarketData (v : ServerVersion) : FieldReader (ContractSpec F) := do
  let contractId ← readI32
  parseContractBody v contractId

def parseContractForHistoricalData (v : ServerVersion) : FieldReader (ContractSpec F) := do
  let contractId ← since v TRADING_CLASS readI32 (pure 0)
  let contract ← parseContractBody v contractId
  let includeExpired ← readBool
  pure { contract with includeExpired := includeExpired }

def parseContractForRealtimeBars (v : ServerVersion) : FieldReader (ContractSpec F) := do
  let contractId ← since v TRADING_CLASS readI32 (pure 0)
  parseContractBody v contractId

def parseContractComboLeg (v : ServerVersion) : FieldReader ComboLeg := do
  let contractId ← readI32
  let ratio ← readI32
  let action ← readString
  let exchange ← readString
  let openClose ← readI32
  let shortSaleSlot ← since v SSHORT_COMBO_LEGS readI32 (pure 0)
  let designatedLocation ← since v SSHORT_COMBO_LEGS readString (pure "")
  let exemptCode ← since v SSHORTX_OLD readI32 (pure 0)
  pure
    { contractId, ratio, action, exchange, openClose, shortSaleSlot, designatedLocation,
      exemptCode }

def parseContractComboLegs (v : ServerVersion) : FieldReader (List ComboLeg) :=
  readList "combo-leg count" (parseContractComboLeg v)

def parseOrderComboLeg : FieldReader (OrderComboLeg F) := do
  let price ← readOptF64
  pure { price := price }

def parseOrderComboLegs : FieldReader (List (OrderComboLeg F)) :=
  readList "order-combo-leg count" parseOrderComboLeg

/-- The legs of market data and historical data: four fields each. -/
def parseBagLeg : FieldReader ComboLeg := do
  let contractId ← readI32
  let ratio ← readI32
  let action ← readString
  let exchange ← readString
  pure { contractId := contractId, ratio, action, exchange }

def parseBagLegs (request : String) : FieldReader (List ComboLeg) :=
  readList s!"BAG-leg count in {request}" parseBagLeg

def parseDeltaNeutralContract : FieldReader (Option (DeltaNeutralContract F)) := do
  let present ← readBool
  if present then do
    let contractId ← readI32
    let delta ← readF64
    let price ← readF64
    pure (some { contractId := contractId, delta, price })
  else pure none

def parseExecutionFilter : FieldReader ExecutionFilter := do
  let clientId ← readI32
  let acctCode ← readString
  let time ← readString
  let symbol ← readString
  let secType ← readString
  let exchange ← readString
  let side ← readString
  pure { clientId := clientId, acctCode, time, symbol, secType, exchange, side }

/-! ### Writers -/

def writeContractForPlaceOrder (v : ServerVersion) (c : ContractSpec F) : FieldWriter := do
  since v PLACE_ORDER_CONID (writeI32 c.contractId) skip
  writeString c.symbol
  writeString c.securityType
  writeString c.lastTradeDateOrContractMonth
  writeF64 c.strike
  writeString c.right
  writeString c.multiplier
  writeString c.exchange
  writeString c.primaryExchange
  writeString c.currency
  writeString c.localSymbol
  since v TRADING_CLASS (writeString c.tradingClass) skip
  since v SEC_ID_TYPE (writeString c.securityIdType) skip
  since v SEC_ID_TYPE (writeString c.securityId) skip

def writeExchanges (v : ServerVersion) (c : ContractSpec F) : FieldWriter :=
  since v PRIMARYEXCH
    (do
      writeString c.exchange
      writeString c.primaryExchange)
    (since v LINKING
      (if c.primaryExchange ≠ "" ∧ (c.exchange = "BEST" ∨ c.exchange = "SMART")
        then writeString (c.exchange ++ ":" ++ c.primaryExchange)
        else writeString c.exchange)
      skip)

def writeContractForReqContractData (v : ServerVersion) (c : ContractSpec F) : FieldWriter := do
  since v CONTRACT_CONID (writeI32 c.contractId) skip
  writeString c.symbol
  writeString c.securityType
  writeString c.lastTradeDateOrContractMonth
  writeF64 c.strike
  writeString c.right
  since v 15 (writeString c.multiplier) skip
  writeExchanges v c
  writeString c.currency
  writeString c.localSymbol
  since v TRADING_CLASS (writeString c.tradingClass) skip
  since v INCLUDE_EXPIRED_IN_REQ_CONTRACT_DATA (writeBool c.includeExpired) skip
  since v SEC_ID_TYPE (writeString c.securityIdType) skip
  since v SEC_ID_TYPE (writeString c.securityId) skip
  since v BOND_ISSUERID (writeString c.issuerId) skip

def writeContractBody (v : ServerVersion) (c : ContractSpec F) : FieldWriter := do
  writeString c.symbol
  writeString c.securityType
  writeString c.lastTradeDateOrContractMonth
  writeF64 c.strike
  writeString c.right
  writeString c.multiplier
  writeString c.exchange
  writeString c.primaryExchange
  writeString c.currency
  writeString c.localSymbol
  since v TRADING_CLASS (writeString c.tradingClass) skip

def writeContractForMarketData (v : ServerVersion) (c : ContractSpec F) : FieldWriter := do
  writeI32 c.contractId
  writeContractBody v c

def writeContractForHistoricalData (v : ServerVersion) (c : ContractSpec F) : FieldWriter := do
  since v TRADING_CLASS (writeI32 c.contractId) skip
  writeContractBody v c
  writeBool c.includeExpired

def writeContractForRealtimeBars (v : ServerVersion) (c : ContractSpec F) : FieldWriter := do
  since v TRADING_CLASS (writeI32 c.contractId) skip
  writeContractBody v c

def writeComboLegForPlaceOrder (v : ServerVersion) (leg : ComboLeg) : FieldWriter := do
  writeI32 leg.contractId
  writeI32 leg.ratio
  writeString leg.action
  writeString leg.exchange
  writeI32 leg.openClose
  since v SSHORT_COMBO_LEGS (writeI32 leg.shortSaleSlot) skip
  since v SSHORT_COMBO_LEGS (writeString leg.designatedLocation) skip
  since v SSHORTX_OLD (writeI32 leg.exemptCode) skip

def writeComboLegsForPlaceOrder (v : ServerVersion) (legs : List ComboLeg) : FieldWriter :=
  writeList (writeComboLegForPlaceOrder v) legs

def writeOrderComboLegs (legs : List (OrderComboLeg F)) : FieldWriter :=
  writeList (fun leg => writeOptF64 leg.price) legs

def writeMktDataBagLeg (leg : ComboLeg) : FieldWriter := do
  writeI32 leg.contractId
  writeI32 leg.ratio
  writeString leg.action
  writeString leg.exchange

def writeMktDataBagLegs (legs : List ComboLeg) : FieldWriter := writeList writeMktDataBagLeg legs

def writeDeltaNeutral : Option (DeltaNeutralContract F) → FieldWriter
  | some dn => do
    writeBool true
    writeI32 dn.contractId
    writeF64 dn.delta
    writeF64 dn.price
  | none => writeBool false

def writeExecutionFilter (f : ExecutionFilter) : FieldWriter := do
  writeI32 f.clientId
  writeString f.acctCode
  writeString f.time
  writeString f.symbol
  writeString f.secType
  writeString f.exchange
  writeString f.side

/-! ### What is carried -/

/-- The part of a contract that every request carries. -/
def ContractSpec.carriedBody (c : ContractSpec F) : ContractSpec F :=
  { contractId := c.contractId, symbol := c.symbol, securityType := c.securityType,
    lastTradeDateOrContractMonth := c.lastTradeDateOrContractMonth, strike := wireF64 c.strike,
    right := c.right, multiplier := c.multiplier, exchange := c.exchange,
    primaryExchange := c.primaryExchange, currency := c.currency, localSymbol := c.localSymbol,
    tradingClass := c.tradingClass }

def ContractSpec.carriedByPlaceOrder (c : ContractSpec F) : ContractSpec F :=
  { c.carriedBody with securityIdType := c.securityIdType, securityId := c.securityId }

def ContractSpec.carriedByReqContractData (c : ContractSpec F) : ContractSpec F :=
  { c.carriedByPlaceOrder with includeExpired := c.includeExpired, issuerId := c.issuerId }

def ContractSpec.carriedByHistoricalData (c : ContractSpec F) : ContractSpec F :=
  { c.carriedBody with includeExpired := c.includeExpired }

/-- A leg of a market-data request carries no order data. -/
def ComboLeg.carriedByRequest (leg : ComboLeg) : ComboLeg :=
  { contractId := leg.contractId, ratio := leg.ratio, action := leg.action, exchange := leg.exchange }

def OrderComboLeg.carried (leg : OrderComboLeg F) : OrderComboLeg F := ⟨wireOptF64 leg.price⟩

def DeltaNeutralContract.carried (dn : DeltaNeutralContract F) : DeltaNeutralContract F :=
  { contractId := dn.contractId, delta := wireF64 dn.delta, price := wireF64 dn.price }

end Values

end Midas.Protocol

namespace Midas.Undoes

open Midas.Protocol

section Values

variable {F : Type} [F64 F] (v : ServerVersion) (c : Protocol.ContractSpec F)

theorem exchanges :
    Undoes (parseExchanges v) (writeExchanges v c) (c.exchange, c.primaryExchange) :=
  .since (by decide) <| .bind (.str _) <| .last (.str _) rfl

variable [LawfulF64 F]

theorem contractForPlaceOrder :
    Undoes (parseContractForPlaceOrder v) (writeContractForPlaceOrder v c) c.carriedByPlaceOrder :=
  .bind (.since (by decide) (.i32 _)) <| .bind (.str _) <| .bind (.str _) <| .bind (.str _) <|
  .bind (.f64 _) <| .bind (.str _) <| .bind (.str _) <| .bind (.str _) <| .bind (.str _) <|
  .bind (.str _) <| .bind (.str _) <| .bind (.since (by decide) (.str _)) <|
  .bind (.since (by decide) (.str _)) <| .last (.since (by decide) (.str _)) rfl

theorem contractForReqContractData : Undoes (parseContractForReqContractData v)
    (writeContractForReqContractData v c) c.carriedByReqContractData :=
  .bind (.since (by decide) (.i32 _)) <| .bind (.str _) <| .bind (.str _) <| .bind (.str _) <|
  .bind (.f64 _) <| .bind (.str _) <| .bind (.since (by decide) (.str _)) <|
  .bind (.exchanges v c) <| .bind (.str _) <| .bind (.str _) <|
  .bind (.since (by decide) (.str _)) <| .bind (.since (by decide) (.bool _)) <|
  .bind (.since (by decide) (.str _)) <| .bind (.since (by decide) (.str _)) <|
  .last (.since (by decide) (.str _)) rfl

theorem contractBody : Undoes (parseContractBody v c.contractId) (writeContractBody v c) c.carriedBody :=
  .bind (.str _) <| .bind (.str _) <| .bind (.str _) <| .bind (.f64 _) <| .bind (.str _) <|
  .bind (.str _) <| .bind (.str _) <| .bind (.str _) <| .bind (.str _) <| .bind (.str _) <|
  .last (.since (by decide) (.str _)) rfl

theorem contractForMarketData :
    Undoes (parseContractForMarketData v) (writeContractForMarketData v c) c.carriedBody :=
  .bind (.i32 _) <| contractBody v c

theorem contractForHistoricalData : Undoes (parseContractForHistoricalData v)
    (writeContractForHistoricalData v c) c.carriedByHistoricalData :=
  .bind (.since (by decide) (.i32 _)) <| .bind (contractBody v c) <| .last (.bool _) rfl

theorem contractForRealtimeBars :
    Undoes (parseContractForRealtimeBars v) (writeContractForRealtimeBars v c) c.carriedBody :=
  .bind (.since (by decide) (.i32 _)) <| contractBody v c

theorem orderComboLegs {legs : List (OrderComboLeg F)} (hlen : legs.length < 2 ^ 31) :
    Undoes parseOrderComboLegs (writeOrderComboLegs legs) (legs.map OrderComboLeg.carried) :=
  list hlen fun leg _ => .last (.optF64 leg.price) rfl

theorem deltaNeutral (dn : Option (DeltaNeutralContract F)) : Undoes parseDeltaNeutralContract
    (writeDeltaNeutral dn) (dn.map DeltaNeutralContract.carried) := by
  cases dn with
  | none => exact .last (.bool false) rfl
  | some dn =>
    refine .bind (.bool true) ?_
    rw [if_pos rfl]
    exact .bind (.i32 _) <| .bind (.f64 _) <| .last (.f64 _) rfl

end Values

theorem contractComboLeg (v : ServerVersion) (leg : ComboLeg) :
    Undoes (parseContractComboLeg v) (writeComboLegForPlaceOrder v leg) leg :=
  .bind (.i32 _) <| .bind (.i32 _) <| .bind (.str _) <| .bind (.str _) <| .bind (.i32 _) <|
  .bind (.since (by decide) (.i32 _)) <| .bind (.since (by decide) (.str _)) <|
  .last (.since (by decide) (.i32 _)) rfl

theorem contractComboLegs (v : ServerVersion) {legs : List ComboLeg} (hlen : legs.length < 2 ^ 31) :
    Undoes (parseContractComboLegs v) (writeComboLegsForPlaceOrder v legs) legs := by
  have hlegs : Undoes (parseContractComboLegs v) (writeComboLegsForPlaceOrder v legs)
      (legs.map fun leg => leg) := list hlen fun leg _ => contractComboLeg v leg
  rw [List.map_id'] at hlegs
  exact hlegs

theorem bagLeg (leg : ComboLeg) :
    Undoes parseBagLeg (writeMktDataBagLeg leg) leg.carriedByRequest :=
  .bind (.i32 _) <| .bind (.i32 _) <| .bind (.str _) <| .last (.str _) rfl

theorem bagLegs (request : String) {legs : List ComboLeg} (hlen : legs.length < 2 ^ 31) :
    Undoes (parseBagLegs request) (writeMktDataBagLegs legs) (legs.map ComboLeg.carriedByRequest) :=
  list hlen fun leg _ => bagLeg leg

theorem executionFilter (f : ExecutionFilter) :
    Undoes parseExecutionFilter (writeExecutionFilter f) f :=
  .bind (.i32 _) <| .bind (.str _) <| .bind (.str _) <| .bind (.str _) <| .bind (.str _) <|
  .bind (.str _) <| .last (.str _) rfl

end Midas.Undoes
