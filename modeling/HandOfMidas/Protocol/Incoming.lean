import HandOfMidas.Protocol.PlaceOrder

/-! The client messages (`protocol/messages/incoming.rs`, `incoming_encoder.rs`). The first field of a
    frame is the message id; the parser and the encoder are two separate case distinctions over it.
    `IncomingMsg.carried` says what of a message the wire format of a version carries. -/

namespace Midas.Protocol

/-! ### Message ids -/

def REQ_MKT_DATA : Int32 := 1
def CANCEL_MKT_DATA : Int32 := 2
def PLACE_ORDER : Int32 := 3
def CANCEL_ORDER : Int32 := 4
def REQ_OPEN_ORDERS : Int32 := 5
def REQ_ACCOUNT_DATA : Int32 := 6
def REQ_EXECUTIONS : Int32 := 7
def REQ_IDS : Int32 := 8
def REQ_CONTRACT_DATA : Int32 := 9
def REQ_HISTORICAL_DATA : Int32 := 20
def REQ_CURRENT_TIME : Int32 := 49
def REQ_REAL_TIME_BARS : Int32 := 50
def REQ_GLOBAL_CANCEL : Int32 := 58
def REQ_MARKET_DATA_TYPE : Int32 := 59
def REQ_POSITIONS : Int32 := 61
def REQ_ACCOUNT_SUMMARY : Int32 := 62
def START_API : Int32 := 71

/-! ### Server versions that gate fields -/

def CONTRACT_DATA_CHAIN : ℤ := 40
def EXECUTION_DATA_CHAIN : ℤ := 42
def OPTIONAL_CAPABILITIES : ℤ := 72
def SYNT_REALTIME_BARS : ℤ := 124
def REQ_SMART_COMPONENTS : ℤ := 145

inductive IncomingMsg (F : Type) [F64 F] where
  | startApi (clientId : Int32) (optionalCaps : Option String)
  | reqCurrentTime
  | reqIds (numIds : Int32)
  | reqContractData (reqId : Int32) (contract : ContractSpec F)
  | reqMktData (reqId : Int32) (contract : ContractSpec F) (genericTicks : String)
      (snapshot regulatorySnapshot : Bool) (opts : List TagValue)
  | cancelMktData (reqId : Int32)
  | placeOrder (orderId : Int32) (contract : ContractSpec F) (order : OrderSpec F)
  | cancelOrder (orderId : Int32) (manualOrderCancelTime : Option String)
  | reqOpenOrders
  | reqAccountData (subscribe : Bool) (acctCode : String)
  | reqExecutions (reqId : Int32) (filter : ExecutionFilter)
  | reqHistoricalData (reqId : Int32) (contract : ContractSpec F) (endDateTime duration barSize
      whatToShow : String) (useRth : Bool) (formatDate : Int32) (keepUpToDate : Bool)
      (chartOpts : List TagValue)
  | reqRealTimeBars (reqId : Int32) (contract : ContractSpec F) (barSize : Int32)
      (whatToShow : String) (useRth : Bool) (opts : List TagValue)
  | reqMarketDataType (dataType : MarketDataType)
  | reqPositions
  | reqAccountSummary (reqId : Int32) (group tags : String)
  | reqGlobalCancel

section Values

variable {F : Type} [F64 F]

/-! ### Parsers, after the message id -/

/-- A message that carries nothing but its inner version. -/
def parseHeaderOnly (msg : IncomingMsg F) : FieldReader (IncomingMsg F) := do
  let _innerVersion ← readI32
  pure msg

def parseStartApi (v : ServerVersion) : FieldReader (IncomingMsg F) := do
  let _innerVersion ← readI32
  let clientId ← readI32
  -- present but empty is `Some("")`
  let optionalCaps ← since v OPTIONAL_CAPABILITIES
    (do
      let caps ← readString
      pure (some caps))
    (pure none)
  pure (.startApi clientId optionalCaps)

def parseReqIds : FieldReader (IncomingMsg F) := do
  let _innerVersion ← readI32
  let numIds ← readI32
  pure (.reqIds numIds)

def parseReqContractData (v : ServerVersion) : FieldReader (IncomingMsg F) := do
  let _innerVersion ← readI32
  let reqId ← since v CONTRACT_DATA_CHAIN readI32 (pure 0)
  let contract ← parseContractForReqContractData v
  pure (.reqContractData reqId contract)

def parseReqMktData (v : ServerVersion) : FieldReader (IncomingMsg F) := do
  let _innerVersion ← readI32
  let reqId ← readI32
  let contract ← parseContractForMarketData v
  let comboLegs ←
    (if contract.securityType = "BAG" then parseBagLegs "REQ_MKT_DATA" else pure [])
  let deltaNeutralContract ← parseDeltaNeutralContract
  let genericTicks ← readString
  let snapshot ← readBool
  let regulatorySnapshot ← since v REQ_SMART_COMPONENTS readBool (pure false)
  let opts ← parseTagValueString
  pure (.reqMktData reqId { contract with comboLegs, deltaNeutralContract } genericTicks snapshot
    regulatorySnapshot opts)

def parseCancelMktData : FieldReader (IncomingMsg F) := do
  let _innerVersion ← readI32
  let reqId ← readI32
  pure (.cancelMktData reqId)

def parseCancelOrder (v : ServerVersion) : FieldReader (IncomingMsg F) := do
  let _innerVersion ← readI32
  let orderId ← readI32
  let manualOrderCancelTime ← since v MANUAL_ORDER_TIME
    (do
      let time ← readString
      pure (some time))
    (pure none)
  pure (.cancelOrder orderId manualOrderCancelTime)

def parseReqAccountData : FieldReader (IncomingMsg F) := do
  let _innerVersion ← readI32
  let subscribe ← readBool
  let acctCode ← readString
  pure (.reqAccountData subscribe acctCode)

def parseReqExecutions (v : ServerVersion) : FieldReader (IncomingMsg F) := do
  let _innerVersion ← readI32
  let reqId ← since v EXECUTION_DATA_CHAIN readI32 (pure 0)
  let filter ← parseExecutionFilter
  pure (.reqExecutions reqId filter)

def parseReqMarketDataType : FieldReader (IncomingMsg F) := do
  let _innerVersion ← readI32
  let raw ← readI32
  match MarketDataType.fromI32 raw with
  | some dataType => pure (.reqMarketDataType dataType)
  | none => throw (.field s!"unknown MarketDataType discriminant: {raw.toInt}")

def parseReqAccountSummary : FieldReader (IncomingMsg F) := do
  let _innerVersion ← readI32
  let reqId ← readI32
  let group ← readString
  let tags ← readString
  pure (.reqAccountSummary reqId group tags)

def parseReqRealTimeBars (v : ServerVersion) : FieldReader (IncomingMsg F) := do
  let _innerVersion ← readI32
  let reqId ← readI32
  let contract ← parseContractForRealtimeBars v
  let barSize ← readI32
  let whatToShow ← readString
  let useRth ← readBool
  let opts ← since v LINKING parseTagValueString (pure [])
  pure (.reqRealTimeBars reqId contract barSize whatToShow useRth opts)

def parseReqHistoricalData (v : ServerVersion) : FieldReader (IncomingMsg F) := do
  before v SYNT_REALTIME_BARS
    (do
      let _innerVersion ← readI32
      pure ())
    (pure ())
  let reqId ← readI32
  let contract ← parseContractForHistoricalData v
  let endDateTime ← readString
  let barSize ← readString
  let duration ← readString
  let useRth ← readBool
  let whatToShow ← readString
  let formatDate ← readI32
  let comboLegs ←
    (if contract.securityType = "BAG" then parseBagLegs "REQ_HISTORICAL_DATA" else pure [])
  let keepUpToDate ← since v SYNT_REALTIME_BARS readBool (pure false)
  let chartOpts ← since v LINKING parseTagValueString (pure [])
  pure (.reqHistoricalData reqId { contract with comboLegs := comboLegs } endDateTime duration barSize
    whatToShow useRth formatDate keepUpToDate chartOpts)

def parsePlaceOrderMsg (v : ServerVersion) : FieldReader (IncomingMsg F) := do
  let parts ← parsePlaceOrder v
  pure (.placeOrder parts.1 parts.2.1 parts.2.2)

/-- The parser of a message by its id. -/
def parseBody (v : ServerVersion) (msgId : Int32) : FieldReader (IncomingMsg F) :=
  if msgId = REQ_MKT_DATA then parseReqMktData v
  else if msgId = CANCEL_MKT_DATA then parseCancelMktData
  else if msgId = PLACE_ORDER then parsePlaceOrderMsg v
  else if msgId = CANCEL_ORDER then parseCancelOrder v
  else if msgId = REQ_OPEN_ORDERS then parseHeaderOnly .reqOpenOrders
  else if msgId = REQ_ACCOUNT_DATA then parseReqAccountData
  else if msgId = REQ_EXECUTIONS then parseReqExecutions v
  else if msgId = REQ_IDS then parseReqIds
  else if msgId = REQ_CONTRACT_DATA then parseReqContractData v
  else if msgId = REQ_HISTORICAL_DATA then parseReqHistoricalData v
  else if msgId = REQ_CURRENT_TIME then parseHeaderOnly .reqCurrentTime
  else if msgId = REQ_REAL_TIME_BARS then parseReqRealTimeBars v
  else if msgId = REQ_GLOBAL_CANCEL then parseHeaderOnly .reqGlobalCancel
  else if msgId = REQ_MARKET_DATA_TYPE then parseReqMarketDataType
  else if msgId = REQ_POSITIONS then parseHeaderOnly .reqPositions
  else if msgId = REQ_ACCOUNT_SUMMARY then parseReqAccountSummary
  else if msgId = START_API then parseStartApi v
  else throw (.unsupportedMsgId msgId)

/-- The parser with the cursor it ends at. -/
def parseFields (v : ServerVersion) : FieldReader (IncomingMsg F) := do
  let msgId ← readI32
  parseBody v msgId

/-- `IncomingMsg::parse`, which drops the cursor. -/
def IncomingMsg.parse (frame : RawFrame) (v : ServerVersion) : Except MessageError (IncomingMsg F) :=
  (parseFields v ⟨frame.fields, 0⟩).map Prod.fst

/-! ### The encoder -/

/-- The fields after the message id. -/
def writeBody (v : ServerVersion) : IncomingMsg F → FieldWriter
  | .startApi clientId optionalCaps => do
    writeI32 2
    writeI32 clientId
    since v (OPTIONAL_CAPABILITIES + 1) (writeString (optionalCaps.getD "")) skip
  | .reqCurrentTime => writeI32 1
  | .reqIds numIds => do
    writeI32 1
    writeI32 numIds
  | .reqContractData reqId contract => do
    writeI32 8
    since v CONTRACT_DATA_CHAIN (writeI32 reqId) skip
    writeContractForReqContractData v contract
  | .reqMktData reqId contract genericTicks snapshot regulatorySnapshot opts => do
    writeI32 11
    writeI32 reqId
    writeContractForMarketData v contract
    (if contract.securityType = "BAG" then writeMktDataBagLegs contract.comboLegs else skip)
    writeDeltaNeutral contract.deltaNeutralContract
    writeString genericTicks
    writeBool snapshot
    since v REQ_SMART_COMPONENTS (writeBool regulatorySnapshot) skip
    writeTagValueString opts
  | .cancelMktData reqId => do
    writeI32 2
    writeI32 reqId
  | .placeOrder orderId contract order => writePlaceOrder v orderId contract order
  | .cancelOrder orderId manualOrderCancelTime => do
    writeI32 1
    writeI32 orderId
    since v MANUAL_ORDER_TIME (writeString (manualOrderCancelTime.getD "")) skip
  | .reqOpenOrders => writeI32 1
  | .reqAccountData subscribe acctCode => do
    writeI32 2
    writeBool subscribe
    writeString acctCode
  | .reqExecutions reqId filter => do
    writeI32 3
    since v EXECUTION_DATA_CHAIN (writeI32 reqId) skip
    writeExecutionFilter filter
  | .reqHistoricalData reqId contract endDateTime duration barSize whatToShow useRth formatDate
      keepUpToDate chartOpts => do
    before v SYNT_REALTIME_BARS (writeI32 6) skip
    writeI32 reqId
    writeContractForHistoricalData v contract
    writeString endDateTime
    writeString barSize
    writeString duration
    writeBool useRth
    writeString whatToShow
    writeI32 formatDate
    (if contract.securityType = "BAG" then writeMktDataBagLegs contract.comboLegs else skip)
    since v SYNT_REALTIME_BARS (writeBool keepUpToDate) skip
    since v LINKING (writeTagValueString chartOpts) skip
  | .reqRealTimeBars reqId contract barSize whatToShow useRth opts => do
    writeI32 8
    writeI32 reqId
    writeContractForRealtimeBars v contract
    writeI32 barSize
    writeString whatToShow
    writeBool useRth
    since v LINKING (writeTagValueString opts) skip
  | .reqMarketDataType dataType => do
    writeI32 1
    writeI32 dataType.asI32
  | .reqPositions => writeI32 1
  | .reqAccountSummary reqId group tags => do
    writeI32 1
    writeI32 reqId
    writeString group
    writeString tags
  | .reqGlobalCancel => writeI32 1

def IncomingMsg.msgId : IncomingMsg F → Int32
  | startApi .. => START_API
  | reqCurrentTime => REQ_CURRENT_TIME
  | reqIds .. => REQ_IDS
  | reqContractData .. => REQ_CONTRACT_DATA
  | reqMktData .. => REQ_MKT_DATA
  | cancelMktData .. => CANCEL_MKT_DATA
  | placeOrder .. => PLACE_ORDER
  | cancelOrder .. => CANCEL_ORDER
  | reqOpenOrders => REQ_OPEN_ORDERS
  | reqAccountData .. => REQ_ACCOUNT_DATA
  | reqExecutions .. => REQ_EXECUTIONS
  | reqHistoricalData .. => REQ_HISTORICAL_DATA
  | reqRealTimeBars .. => REQ_REAL_TIME_BARS
  | reqMarketDataType .. => REQ_MARKET_DATA_TYPE
  | reqPositions => REQ_POSITIONS
  | reqAccountSummary .. => REQ_ACCOUNT_SUMMARY
  | reqGlobalCancel => REQ_GLOBAL_CANCEL

def writeIncoming (v : ServerVersion) (msg : IncomingMsg F) : FieldWriter := do
  writeI32 msg.msgId
  writeBody v msg

def encodeIncoming (msg : IncomingMsg F) (v : ServerVersion) : RawFrame :=
  ⟨(writeIncoming v msg).intoFields⟩

/-! ### What a message carries -/

/-- The legs of a BAG contract in a data request. -/
def ContractSpec.requestLegs (c : ContractSpec F) : List ComboLeg :=
  if c.securityType = "BAG" then c.comboLegs.map ComboLeg.carriedByRequest else []

/-- The message without what the wire format of the version does not carry: fields that are not sent
    have their defaults, an absent text is the empty text, a number that is unset is absent. -/
def IncomingMsg.carried (v : ServerVersion) : IncomingMsg F → IncomingMsg F
  | startApi clientId optionalCaps => startApi clientId (some (optionalCaps.getD ""))
  | reqContractData reqId contract => reqContractData reqId contract.carriedByReqContractData
  | reqMktData reqId contract genericTicks snapshot regulatorySnapshot opts =>
    reqMktData reqId
      { contract.carriedBody with
        comboLegs := contract.requestLegs
        deltaNeutralContract := contract.deltaNeutralContract.map DeltaNeutralContract.carried }
      genericTicks snapshot regulatorySnapshot opts
  | placeOrder orderId contract order =>
    placeOrder orderId contract.carriedWithOrder (order.carried v contract)
  | cancelOrder orderId manualOrderCancelTime =>
    cancelOrder orderId (some (manualOrderCancelTime.getD ""))
  | reqHistoricalData reqId contract endDateTime duration barSize whatToShow useRth formatDate
      keepUpToDate chartOpts =>
    reqHistoricalData reqId
      { contract.carriedByHistoricalData with comboLegs := contract.requestLegs }
      endDateTime duration barSize whatToShow useRth formatDate keepUpToDate chartOpts
  | reqRealTimeBars reqId contract barSize whatToShow useRth opts =>
    reqRealTimeBars reqId contract.carriedBody barSize whatToShow useRth opts
  | msg => msg

/-- The tag-value pairs that are sent in a single field. -/
def IncomingMsg.options : IncomingMsg F → List TagValue
  | reqMktData _ _ _ _ _ opts => opts
  | placeOrder _ _ order => order.orderMiscOptions
  | reqHistoricalData _ _ _ _ _ _ _ _ _ chartOpts => chartOpts
  | reqRealTimeBars _ _ _ _ _ opts => opts
  | _ => []

/-- The lengths of the counted lists fit the `i32` counts. -/
def IncomingMsg.Countable : IncomingMsg F → Prop
  | reqMktData _ contract .. => contract.comboLegs.length < 2 ^ 31
  | placeOrder _ contract order => order.Countable contract
  | reqHistoricalData _ contract .. => contract.comboLegs.length < 2 ^ 31
  | _ => True

end Values

/-- The framing codec splits off the fields that were pushed when none contains NUL. -/
theorem intoFields_eq {w : FieldWriter} (h : ∀ f ∈ (w []).2, 0 ∉ f) : w.intoFields = (w []).2 :=
  congrArg RawFrame.fields (@splitPayload_encodePayload ⟨(w []).2⟩ h)

end Midas.Protocol

namespace Midas.Undoes

open Midas.Protocol

variable {F : Type} [F64 F]

theorem headerOnly (version : Int32) (msg : IncomingMsg F) :
    Undoes (parseHeaderOnly msg) (writeI32 version) msg := .last (.i32 _) rfl

theorem requestLegs (request : String) {c : Protocol.ContractSpec F}
    (hlen : c.comboLegs.length < 2 ^ 31) :
    Undoes (if c.securityType = "BAG" then parseBagLegs request else pure [])
      (if c.securityType = "BAG" then writeMktDataBagLegs c.comboLegs else skip) c.requestLegs :=
  .cond (fun _ => .bagLegs request hlen) fun _ => .pure _

variable [LawfulF64 F] (v : ServerVersion)

/-- The parser of a message's id undoes the writer of the message, one case a message. -/
theorem body {msg : IncomingMsg F} (hplain : ∀ tv ∈ msg.options, tv.Plain) (hcount : msg.Countable) :
    Undoes (parseBody v msg.msgId) (writeBody v msg) (msg.carried v) := by
  cases msg with
  | startApi clientId optionalCaps =>
    exact .bind (.i32 _) <| .bind (.i32 _) <| .last (.since (by decide) (.last (.str _) rfl)) rfl
  | reqCurrentTime => exact headerOnly _ _
  | reqIds numIds => exact .bind (.i32 _) <| .last (.i32 _) rfl
  | reqContractData reqId contract =>
    exact .bind (.i32 _) <| .bind (.since (by decide) (.i32 _)) <|
      .last (.contractForReqContractData v _) rfl
  | reqMktData reqId contract genericTicks snapshot regulatorySnapshot opts =>
    exact .bind (.i32 _) <| .bind (.i32 _) <| .bind (.contractForMarketData v _) <|
      .bind (.requestLegs _ hcount) <| .bind (.deltaNeutral _) <| .bind (.str _) <|
      .bind (.bool _) <| .bind (.since (by decide) (.bool _)) <| .last (.tagValueString hplain) rfl
  | cancelMktData reqId => exact .bind (.i32 _) <| .last (.i32 _) rfl
  | placeOrder orderId contract order => exact .last (.placeOrder v orderId contract hcount hplain) rfl
  | cancelOrder orderId manualOrderCancelTime =>
    exact .bind (.i32 _) <| .bind (.i32 _) <| .last (.since (by decide) (.last (.str _) rfl)) rfl
  | reqOpenOrders => exact headerOnly _ _
  | reqAccountData subscribe acctCode =>
    exact .bind (.i32 _) <| .bind (.bool _) <| .last (.str _) rfl
  | reqExecutions reqId filter =>
    exact .bind (.i32 _) <| .bind (.since (by decide) (.i32 _)) <| .last (.executionFilter _) rfl
  | reqHistoricalData reqId contract endDateTime duration barSize whatToShow useRth formatDate
      keepUpToDate chartOpts =>
    exact .bind (.before (by decide) (.pure ())) <| .bind (.i32 _) <|
      .bind (.contractForHistoricalData v _) <| .bind (.str _) <| .bind (.str _) <|
      .bind (.str _) <| .bind (.bool _) <| .bind (.str _) <| .bind (.i32 _) <|
      .bind (.requestLegs _ hcount) <| .bind (.since (by decide) (.bool _)) <|
      .last (.since (by decide) (.tagValueString hplain)) rfl
  | reqRealTimeBars reqId contract barSize whatToShow useRth opts =>
    exact .bind (.i32 _) <| .bind (.i32 _) <| .bind (.contractForRealtimeBars v _) <|
      .bind (.i32 _) <| .bind (.str _) <| .bind (.bool _) <|
      .last (.since (by decide) (.tagValueString hplain)) rfl
  | reqMarketDataType dataType =>
    refine .bind (.i32 _) <| .last (.i32 _) ?_
    rw [MarketDataType.fromI32_asI32]
    rfl
  | reqPositions => exact headerOnly _ _
  | reqAccountSummary reqId group tags =>
    exact .bind (.i32 _) <| .bind (.i32 _) <| .bind (.str _) <| .last (.str _) rfl
  | reqGlobalCancel => exact headerOnly _ _

theorem incoming {msg : IncomingMsg F} (hplain : ∀ tv ∈ msg.options, tv.Plain)
    (hcount : msg.Countable) : Undoes (parseFields v) (writeIncoming v msg) (msg.carried v) :=
  .bind (.i32 _) <| .body v hplain hcount

end Midas.Undoes

namespace Midas.Protocol

/-- The parser on the encoder's output, with the cursor at the end of the fields. -/
theorem parseFields_encodeIncoming {F : Type} [F64 F] [LawfulF64 F] (v : ServerVersion)
    {msg : IncomingMsg F} (hnul : ∀ f ∈ (writeIncoming v msg []).2, 0 ∉ f)
    (hplain : ∀ tv ∈ msg.options, tv.Plain) (hcount : msg.Countable) :
    parseFields v ⟨(encodeIncoming msg v).fields, 0⟩ =
      .ok (msg.carried v, ⟨(encodeIncoming msg v).fields, (encodeIncoming msg v).fields.length⟩) := by
  have hfields : (encodeIncoming msg v).fields = (writeIncoming v msg []).2 := intoFields_eq hnul
  rw [hfields]
  exact (Undoes.incoming v hplain hcount).run

theorem parse_encodeIncoming {F : Type} [F64 F] [LawfulF64 F] (v : ServerVersion)
    (msg : IncomingMsg F) (hnul : ∀ f ∈ (writeIncoming v msg []).2, 0 ∉ f)
    (hplain : ∀ tv ∈ msg.options, tv.Plain) (hcount : msg.Countable) :
    IncomingMsg.parse (encodeIncoming msg v) v = .ok (msg.carried v) := by
  rw [IncomingMsg.parse, parseFields_encodeIncoming v hnul hplain hcount]
  rfl

/-- A client message, every server version: parsing the encoder's fields gives the message with what
    the wire carries of it, and takes every field. -/
theorem decode_encode {F : Type} [F64 F] [LawfulF64 F] (msg : IncomingMsg F) (v : ServerVersion)
    (hnul : ∀ f ∈ (writeIncoming v msg []).2, 0 ∉ f) (hplain : ∀ tv ∈ msg.options, tv.Plain)
    (hcount : msg.Countable) :
    IncomingMsg.parse (encodeIncoming msg v) v = .ok (msg.carried v) ∧
      ∃ r, parseFields v ⟨(encodeIncoming msg v).fields, 0⟩ = .ok (msg.carried v, r) ∧
        r.isEmpty = true := by
  refine ⟨parse_encodeIncoming v msg hnul hplain hcount, _,
    parseFields_encodeIncoming v hnul hplain hcount, ?_⟩
  rw [Cursor.isEmpty, Cursor.rest, List.drop_length]
  rfl

/-- An order with conditions and options, at the last version that carries the profile. -/
theorem decode_encode_order :
    let order : OrderSpec ℤ := { action := "BUY", totalQuantity := 100, orderType := "LMT",
                                 limitPrice := some 150, faProfile := "P", conditions := ["c"],
                                 orderMiscOptions := [⟨"k", "w"⟩] }
    IncomingMsg.parse (encodeIncoming (.placeOrder 7 { symbol := "AAPL" } order) ⟨176, by decide⟩)
        ⟨176, by decide⟩ =
      .ok (.placeOrder 7 (ContractSpec.carriedWithOrder { symbol := "AAPL" })
        (order.carried ⟨176, by decide⟩ { symbol := "AAPL" })) := by
  intro order
  exact (decode_encode (.placeOrder 7 { symbol := "AAPL" } order) ⟨176, by decide⟩
    (by decide +kernel) (by decide +kernel) ⟨by decide, by decide, by decide, by decide, by decide⟩).1

/-! ### What does not come back -/

/-- A market-data request for a BAG with the given legs. -/
def bagRequest (legs : List ComboLeg) : IncomingMsg ℤ :=
  .reqMktData 1 { securityType := "BAG", comboLegs := legs } "" false false []

/-- What `bagRequest` writes after the legs. -/
def writeAfterLegs (v : ServerVersion) : FieldWriter := do
  writeDeltaNeutral (none : Option (DeltaNeutralContract ℤ))
  writeString ""
  writeBool false
  since v REQ_SMART_COMPONENTS (writeBool false) skip
  writeTagValueString []

theorem noNul_afterLegs (v : ServerVersion) : (writeAfterLegs v).All (0 ∉ ·) :=
  .bind (.str (by decide)) <| .bind (.str (by decide)) <| .bind (.str (by decide)) <|
  .bind (.since v (by decide) (.str (by decide))) <| .str (by decide)

/-- Legs without NUL and a count without NUL make a request without NUL. -/
theorem noNul_bagRequest (v : ServerVersion) {legs : List ComboLeg}
    (hcount : 0 ∉ utf8 (itoaI32 (.ofNat legs.length)))
    (hlegs : ∀ leg ∈ legs, (writeMktDataBagLeg leg).All (0 ∉ ·)) :
    (writeIncoming v (bagRequest legs)).All (0 ∉ ·) := by
  have hempty : 0 ∉ utf8 "" := by decide
  have hbag : 0 ∉ utf8 "BAG" := by decide
  have hzero : 0 ∉ utf8 (itoaI32 0) := by decide +kernel
  have hone : 0 ∉ utf8 (itoaI32 1) := by decide +kernel
  have hversion : 0 ∉ utf8 (itoaI32 11) := by decide +kernel
  have hstrike : 0 ∉ utf8 (formatF64 (0 : ℤ)) := by decide +kernel
  exact .bind (.str hone) <| .bind (.str hversion) <| .bind (.str hone) <|
    .bind (.bind (.str hzero) <| .bind (.str hempty) <| .bind (.str hbag) <|
      .bind (.str hempty) <| .bind (.str hstrike) <| .bind (.str hempty) <|
      .bind (.str hempty) <| .bind (.str hempty) <| .bind (.str hempty) <|
      .bind (.str hempty) <| .bind (.str hempty) <| .since v (by decide) (.str hempty)) <|
    .bind (.bind (.str hcount) (.each hlegs)) <| noNul_afterLegs v

/-- A request with so many legs that the count overflows is refused. -/
theorem parse_bagRequest (v : ServerVersion) {legs : List ComboLeg}
    (hneg : (Int32.ofNat legs.length).toInt < 0)
    (hcount : 0 ∉ utf8 (itoaI32 (.ofNat legs.length)))
    (hlegs : ∀ leg ∈ legs, (writeMktDataBagLeg leg).All (0 ∉ ·)) :
    ∃ e, IncomingMsg.parse (F := ℤ) (encodeIncoming (bagRequest legs) v) v = .error e := by
  obtain ⟨e, hlist⟩ : ∃ e, Stops (parseBagLegs "REQ_MKT_DATA") (writeMktDataBagLegs legs) e :=
    ⟨_, Stops.list _ hneg hlegs⟩
  have hbag : Stops (if "BAG" = "BAG" then parseBagLegs "REQ_MKT_DATA" else pure [])
      (if "BAG" = "BAG" then writeMktDataBagLegs legs else skip) e := by
    rw [if_pos rfl, if_pos rfl]
    exact hlist
  have hstop : Stops (parseFields v) (writeIncoming v (bagRequest legs)) e :=
    (Undoes.i32 _).stops <| (Undoes.i32 _).stops <| (Undoes.i32 _).stops <|
      (Undoes.contractForMarketData v _).stops <| hbag.bind (noNul_afterLegs v)
  have hfields : (encodeIncoming (bagRequest legs) v).fields =
      (writeIncoming v (bagRequest legs) []).2 :=
    intoFields_eq (noNul_bagRequest v hcount hlegs).run
  refine ⟨e, ?_⟩
  rw [IncomingMsg.parse, hfields, hstop.run]
  rfl

/-- An absent text comes back as the empty text and an unset number as absent. Beyond `i32::MAX`
    elements the count of a list overflows and the message is refused. -/
theorem decode_encode_not_identity :
    let v : ServerVersion := ⟨176, by decide⟩
    let caps : IncomingMsg ℤ := .startApi 1 none
    let unset : IncomingMsg ℤ := .placeOrder 7 {} { minQty := some 2147483647 }
    (IncomingMsg.parse (F := ℤ) (encodeIncoming caps v) v = .ok (.startApi 1 (some "")) ∧
        IncomingMsg.parse (F := ℤ) (encodeIncoming caps v) v ≠ .ok caps) ∧
      (∃ c o, IncomingMsg.parse (F := ℤ) (encodeIncoming unset v) v = .ok (.placeOrder 7 c o) ∧
        o.minQty = none) ∧
      ∃ e, IncomingMsg.parse (F := ℤ) (encodeIncoming (bagRequest (.replicate (2 ^ 31) {})) v) v =
        .error e := by
  intro v caps unset
  have hcaps : IncomingMsg.parse (encodeIncoming caps v) v = .ok (caps.carried v) :=
    parse_encodeIncoming v caps (by decide +kernel) (by decide) trivial
  have hunset : IncomingMsg.parse (encodeIncoming unset v) v = .ok (unset.carried v) :=
    parse_encodeIncoming v unset (by decide +kernel) (by decide)
      ⟨by decide, by decide, by decide, by decide, by decide⟩
  have hne : caps.carried v ≠ caps := by
    intro h
    injection h with _ htext
    cases htext
  have hlength : (List.replicate (2 ^ 31) ({} : ComboLeg)).length = 2 ^ 31 := List.length_replicate
  refine ⟨⟨hcaps, fun h => hne (Except.ok.inj (hcaps.symm.trans h))⟩, ⟨_, _, hunset, by decide⟩, ?_⟩
  refine parse_bagRequest _ (by rw [hlength]; decide) (by rw [hlength]; decide +kernel) ?_
  intro leg hleg
  rw [List.eq_of_mem_replicate hleg]
  exact .bind (.str (by decide)) <| .bind (.str (by decide)) <| .bind (.str (by decide)) <|
    .str (by decide)

end Midas.Protocol
