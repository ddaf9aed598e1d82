import HandOfMidas.Persist.LocalOrder

/-! Back from a row of the `orders` table to a local order (`order_row_to_local`). What
    `local_to_order_row` writes is read back as it was. -/

/-! ### Texts read back -/

namespace Midas.Broker

def OrderStatus.fromStr : String → Except String OrderStatus
  | "Draft" => .ok .draft
  | "Inactive" => .ok .inactive
  | "PendingSubmit" => .ok .pendingSubmit
  | "PreSubmitted" => .ok .preSubmitted
  | "Submitted" => .ok .submitted
  | "PartiallyFilled" => .ok .partiallyFilled
  | "Filled" => .ok .filled
  | "PendingCancel" => .ok .pendingCancel
  | "Cancelled" => .ok .cancelled
  | "Rejected" => .ok .rejected
  | "Error" => .ok .error
  | other => .error ("unknown OrderStatus: " ++ other)

@[simp] theorem OrderStatus.fromStr_toText (status : OrderStatus) :
    OrderStatus.fromStr status.toText = .ok status := by
  cases status <;> rfl

def OrderAction.fromStr : String → Except String OrderAction
  | "BUY" => .ok .buy
  | "SELL" => .ok .sell
  | other => .error ("unknown OrderAction: " ++ other)

@[simp] theorem OrderAction.fromStr_toText (action : OrderAction) :
    OrderAction.fromStr action.toText = .ok action := by
  cases action <;> rfl

def OrderKind.fromStr : String → Except String OrderKind
  | "MKT" => .ok .market
  | "LMT" => .ok .limit
  | "STP" => .ok .stop
  | "STP LMT" => .ok .stopLimit
  | "TRAIL" => .ok .trailingStop
  | other => .error ("unknown OrderKind: " ++ other)

@[simp] theorem OrderKind.fromStr_toText (kind : OrderKind) :
    OrderKind.fromStr kind.toText = .ok kind := by
  cases kind <;> rfl

def TimeInForce.fromStr : String → Except String TimeInForce
  | "DAY" => .ok .day
  | "GTC" => .ok .gtc
  | "IOC" => .ok .ioc
  | "GTD" => .ok .gtd
  | "OPG" => .ok .opg
  | other => .error ("unknown TimeInForce: " ++ other)

@[simp] theorem TimeInForce.fromStr_toText (tif : TimeInForce) :
    TimeInForce.fromStr tif.toText = .ok tif := by
  cases tif <;> rfl

end Midas.Broker

namespace Midas.Persist

open Midas.Broker

def SecurityType.fromStr : String → Except String SecurityType
  | "STK" => .ok .stock
  | "OPT" => .ok .option
  | "FUT" => .ok .future
  | "CASH" => .ok .forex
  | other => .error ("unknown SecurityType: " ++ other)

@[simp] theorem SecurityType.fromStr_toText (secType : SecurityType) :
    SecurityType.fromStr secType.toText = .ok secType := by
  cases secType <;> rfl

/-- Each role has older spellings. -/
def BracketRole.fromStr : String → Except String BracketRole
  | "PARENT" | "parent" => .ok .parent
  | "TAKE_PROFIT" | "take_profit" | "PROFIT" => .ok .takeProfit
  | "STOP_LOSS" | "stop_loss" | "STOP" => .ok .stopLoss
  | other => .error ("unknown BracketRole: " ++ other)

@[simp] theorem BracketRole.fromStr_toText (role : BracketRole) :
    BracketRole.fromStr role.toText = .ok role := by
  cases role <;> rfl

/-- The texts of other crates with their parsers, that read back what is written. A parser answers the
    text of its error. -/
structure TextCodec (γ : Type) extends TextFormats γ where
  parseUuid : String → Except String Uuid
  parseRfc3339 : String → Except String UtcTime
  parseTags : String → Except String (List String)
  parseValue : String → Except String γ
  parse_uuid : ∀ u, parseUuid (uuid u) = .ok u
  parse_rfc3339 : ∀ t, parseRfc3339 (rfc3339 t) = .ok t
  parse_tags : ∀ tags, ∃ s, jsonTags tags = some s ∧ parseTags s = .ok tags
  parse_value : ∀ v, ∃ s, jsonValue v = some s ∧ parseValue s = .ok v

/-! ### The conversion -/

/-- `ConversionError::Field`. -/
structure ConversionError where
  field : String
  value : String
  reason : String
  deriving DecidableEq

def parseRequired {α : Type} (fromStr : String → Except String α) (field value : String) :
    Except ConversionError α :=
  (fromStr value).mapError fun reason => ⟨field, value, reason⟩

variable {γ : Type}

/-- A child leg keeps its role only with its parent. -/
def LocalOrder.repairRole (order : LocalOrder γ) : LocalOrder γ :=
  if order.parentId.isNone then
    match order.bracketRole with
    | some role => if role ≠ .parent then { order with bracketRole := none } else order
    | none => order
  else order

/-- `order_row_to_local`. The two readings of the clock stand in for timestamps that do not parse. -/
def orderRowToLocal (fmt : TextCodec γ) (createdNow updatedNow : UtcTime) (row : OrderRow) :
    Except ConversionError (LocalOrder γ) := do
  let status ← parseRequired OrderStatus.fromStr "status" row.status
  let action ← parseRequired OrderAction.fromStr "action" row.action
  let orderType ← parseRequired OrderKind.fromStr "order_type" row.orderType
  let tif ← parseRequired TimeInForce.fromStr "tif" row.tif
  let secType ← parseRequired SecurityType.fromStr "sec_type" row.secType
  let localId ← parseRequired fmt.parseUuid "local_id" row.localId
  .ok (LocalOrder.repairRole
    { id := localId
      ibOrderId := row.ibOrderId
      ibPermId := row.ibPermId
      symbol := row.symbol
      conId := row.conId
      secType := secType
      exchange := row.exchange
      currency := row.currency
      action := action
      orderType := orderType
      quantity := row.quantity
      limitPrice := row.limitPrice
      stopPrice := row.stopPrice
      trailAmount := row.trailAmount
      trailPercent := row.trailPercent
      tif := tif
      status := status
      parentId := row.parentId.bind fun s => (fmt.parseUuid s).toOption
      ocaGroup := row.ocaGroup
      bracketRole := row.bracketRole.bind fun s => (BracketRole.fromStr s).toOption
      strategy := row.strategy
      tags := (row.tags.bind fun s => (fmt.parseTags s).toOption).getD []
      algoStrategy := row.algoStrategy
      algoParams := row.algoParams.bind fun s => (fmt.parseValue s).toOption
      outsideRth := row.outsideRth
      filledQty := row.filledQty
      remainingQty := row.remainingQty
      avgFillPrice := row.avgFillPrice
      lastFillPrice := row.lastFillPrice
      commission := row.commission
      activationCount := row.activationCount
      lastActivatedAt := row.lastActivatedAt.bind fun s => (fmt.parseRfc3339 s).toOption
      lastDeactivatedAt := row.lastDeactivatedAt.bind fun s => (fmt.parseRfc3339 s).toOption
      createdAt := (fmt.parseRfc3339 row.createdAt).toOption.getD createdNow
      updatedAt := (fmt.parseRfc3339 row.updatedAt).toOption.getD updatedNow })

/-- The fields that must parse, with their names. -/
def OrderRow.required (row : OrderRow) : List (String × String) :=
  [("status", row.status), ("action", row.action), ("order_type", row.orderType), ("tif", row.tif),
    ("sec_type", row.secType), ("local_id", row.localId)]

/-- What `parse_required` answers goes on, or names the field. -/
theorem parseRequired_bind_error {α β : Type} {fromStr : String → Except String α}
    {field value : String} {f : α → Except ConversionError β} {e : ConversionError}
    (h : (parseRequired fromStr field value >>= f) = .error e) :
    (e.field = field ∧ e.value = value) ∨ ∃ a, f a = .error e := by
  unfold parseRequired at h
  cases hp : fromStr value with
  | error reason =>
    rw [hp] at h
    cases h
    exact .inl ⟨rfl, rfl⟩
  | ok a =>
    rw [hp] at h
    exact .inr ⟨a, h⟩

/-- A refusal names a field that must parse, with its value. -/
theorem orderRowToLocal_error (fmt : TextCodec γ) {createdNow updatedNow : UtcTime} {row : OrderRow}
    {e : ConversionError} (h : orderRowToLocal fmt createdNow updatedNow row = .error e) :
    (e.field, e.value) ∈ row.required := by
  unfold orderRowToLocal at h
  simp only [OrderRow.required, List.mem_cons, Prod.mk.injEq]
  rcases parseRequired_bind_error h with hf | ⟨_, h⟩
  · exact .inl hf
  rcases parseRequired_bind_error h with hf | ⟨_, h⟩
  · exact .inr (.inl hf)
  rcases parseRequired_bind_error h with hf | ⟨_, h⟩
  · exact .inr (.inr (.inl hf))
  rcases parseRequired_bind_error h with hf | ⟨_, h⟩
  · exact .inr (.inr (.inr (.inl hf)))
  rcases parseRequired_bind_error h with hf | ⟨_, h⟩
  · exact .inr (.inr (.inr (.inr (.inl hf))))
  rcases parseRequired_bind_error h with hf | ⟨_, h⟩
  · exact .inr (.inr (.inr (.inr (.inr (.inl hf)))))
  · cases h

/-! ### There and back -/

/-- A leg with a role other than the parent's has its parent. -/
def LocalOrder.RoleKept (order : LocalOrder γ) : Prop :=
  order.bracketRole = none ∨ order.bracketRole = some .parent ∨ order.parentId.isSome = true

theorem LocalOrder.repairRole_of_roleKept {order : LocalOrder γ} (h : order.RoleKept) :
    order.repairRole = order := by
  unfold LocalOrder.repairRole
  split
  · rename_i hnone
    rcases h with h | h | h
    · simp [h]
    · simp [h]
    · simp_all
  · rfl

theorem LocalOrder.roleKept_repairRole (order : LocalOrder γ) : order.repairRole.RoleKept := by
  unfold LocalOrder.repairRole
  split
  · rename_i hnone
    split
    · rename_i role hrole
      split
      · exact .inl rfl
      · rename_i hparent
        exact .inr (.inl (by rw [hrole, not_not.mp hparent]))
    · rename_i hrole
      exact .inl hrole
  · rename_i hsome
    exact .inr (.inr (by simpa [Option.isSome_iff_ne_none] using hsome))

theorem bind_map_toOption {α : Type} {write : α → String} {parse : String → Except String α}
    (h : ∀ a, parse (write a) = .ok a) (x : Option α) :
    ((x.map write).bind fun s => (parse s).toOption) = x := by
  cases x with
  | none => rfl
  | some a => simp [h, Except.toOption]

theorem TextCodec.tags_back (fmt : TextCodec γ) (tags : List String) :
    ((if tags.isEmpty then none else some ((fmt.jsonTags tags).getD "[]")).bind fun s =>
      (fmt.parseTags s).toOption).getD [] = tags := by
  obtain ⟨s, hwrite, hparse⟩ := fmt.parse_tags tags
  split
  · rename_i hempty
    simpa using hempty.symm
  · simp [hwrite, hparse, Except.toOption]

theorem TextCodec.value_back (fmt : TextCodec γ) (v : Option γ) :
    ((v.bind fmt.jsonValue).bind fun s => (fmt.parseValue s).toOption) = v := by
  cases v with
  | none => rfl
  | some v =>
    obtain ⟨s, hwrite, hparse⟩ := fmt.parse_value v
    simp [hwrite, hparse, Except.toOption]

theorem orderRowToLocal_localToOrderRow (fmt : TextCodec γ) {order : LocalOrder γ}
    (h : order.RoleKept) (createdNow updatedNow : UtcTime) :
    orderRowToLocal fmt createdNow updatedNow (localToOrderRow fmt.toTextFormats order) =
      .ok order := by
  have hparent := bind_map_toOption fmt.parse_uuid order.parentId
  have hrole := bind_map_toOption BracketRole.fromStr_toText order.bracketRole
  have hactivated := bind_map_toOption fmt.parse_rfc3339 order.lastActivatedAt
  have hdeactivated := bind_map_toOption fmt.parse_rfc3339 order.lastDeactivatedAt
  have htime : ∀ t, (fmt.parseRfc3339 (fmt.rfc3339 t)).toOption = some t := by
    intro t
    rw [fmt.parse_rfc3339]
    rfl
  simp only [orderRowToLocal, localToOrderRow, parseRequired, OrderStatus.fromStr_toText,
    OrderAction.fromStr_toText, OrderKind.fromStr_toText, TimeInForce.fromStr_toText,
    SecurityType.fromStr_toText, fmt.parse_uuid, Except.mapError, hparent, hrole, hactivated,
    hdeactivated, htime, fmt.tags_back, fmt.value_back, Option.getD_some]
  exact congrArg Except.ok (LocalOrder.repairRole_of_roleKept h)

theorem parseRequired_bind_ok {α β : Type} {fromStr : String → Except String α}
    {field value : String} {f : α → Except ConversionError β} {b : β}
    (h : (parseRequired fromStr field value >>= f) = .ok b) : ∃ a, f a = .ok b := by
  unfold parseRequired at h
  cases hp : fromStr value with
  | error reason =>
    rw [hp] at h
    cases h
  | ok a =>
    rw [hp] at h
    exact ⟨a, h⟩

/-- What is read from a row keeps its role only with its parent. -/
theorem roleKept_of_orderRowToLocal (fmt : TextCodec γ) {createdNow updatedNow : UtcTime}
    {row : OrderRow} {order : LocalOrder γ}
    (h : orderRowToLocal fmt createdNow updatedNow row = .ok order) : order.RoleKept := by
  unfold orderRowToLocal at h
  obtain ⟨status, h⟩ := parseRequired_bind_ok h
  obtain ⟨action, h⟩ := parseRequired_bind_ok h
  obtain ⟨orderType, h⟩ := parseRequired_bind_ok h
  obtain ⟨tif, h⟩ := parseRequired_bind_ok h
  obtain ⟨secType, h⟩ := parseRequired_bind_ok h
  obtain ⟨localId, h⟩ := parseRequired_bind_ok h
  obtain rfl := Except.ok.inj h
  exact LocalOrder.roleKept_repairRole _

/-- A stored order comes back as it was, and what a row was read as comes back as it was, whatever of
    the row did not parse. -/
theorem stored_orders_come_back (fmt : TextCodec γ) :
    (∀ (order : LocalOrder γ) (createdNow updatedNow : UtcTime), order.RoleKept →
      orderRowToLocal fmt createdNow updatedNow (localToOrderRow fmt.toTextFormats order) =
        .ok order) ∧
    ∀ (row : OrderRow) (order : LocalOrder γ) (createdNow updatedNow createdNow' updatedNow' : UtcTime),
      orderRowToLocal fmt createdNow updatedNow row = .ok order →
        orderRowToLocal fmt createdNow' updatedNow' (localToOrderRow fmt.toTextFormats order) =
          .ok order := by
  refine ⟨?_, ?_⟩
  · intro order createdNow updatedNow h
    exact orderRowToLocal_localToOrderRow fmt h createdNow updatedNow
  · intro row order createdNow updatedNow createdNow' updatedNow' h
    exact orderRowToLocal_localToOrderRow fmt (roleKept_of_orderRowToLocal fmt h) _ _

/-! ### A codec -/

/-- Read a hexadecimal digit into the number so far; hyphens are skipped. -/
def readDigit (n : ℕ) (c : Char) : ℕ :=
  if c = '-' then n else n * 16 + "0123456789abcdef".toList.idxOf c

theorem readDigit_hexDigit (n : ℕ) {d : ℕ} (h : d < 16) : readDigit n (hexDigit d) = n * 16 + d := by
  have hall : ∀ d : Fin 16, hexDigit d ≠ '-' ∧ "0123456789abcdef".toList.idxOf (hexDigit d) = d := by
    decide
  obtain ⟨hne, hidx⟩ := hall ⟨d, h⟩
  rw [readDigit, if_neg hne, hidx]

theorem foldl_readDigit (u : Uuid) (hi len : ℕ) (h : len ≤ hi) :
    (hexDigits u hi len).foldl readDigit (u.toNat / 16 ^ hi) = u.toNat / 16 ^ (hi - len) := by
  induction len with
  | zero => rfl
  | succ len ih =>
    obtain ⟨k, rfl⟩ : ∃ k, hi = k + len + 1 := ⟨hi - len - 1, by omega⟩
    have hconcat : hexDigits u (k + len + 1) (len + 1) =
        hexDigits u (k + len + 1) len ++ [hexDigit (nibble u k)] := by
      simp [hexDigits, List.range_succ]
    have hpow : (2 : ℕ) ^ (4 * k) = 16 ^ k := by
      rw [pow_mul]
      rfl
    have hread := ih (by omega)
    rw [show k + len + 1 - len = k + 1 by omega] at hread
    rw [hconcat, List.foldl_append, hread, List.foldl_cons, List.foldl_nil, nibble, hpow,
      readDigit_hexDigit _ (Nat.mod_lt _ (by decide)), show k + len + 1 - (len + 1) = k by omega,
      pow_succ, ← Nat.div_div_eq_div_mul]
    omega

/-- `Uuid::parse_str`, of the hyphenated form. -/
def parseHyphenated (s : String) : Except String Uuid :=
  if s.length = 36 then .ok (BitVec.ofNat 128 (s.toList.foldl readDigit 0))
  else .error "invalid length"

theorem parseHyphenated_hyphenated (u : Uuid) : parseHyphenated (hyphenated u) = .ok u := by
  have hskip : ∀ n, readDigit n '-' = n := fun _ => rfl
  have hread : (hyphenated u).toList.foldl readDigit 0 = u.toNat := by
    have h32 := foldl_readDigit u 32 8 (by decide)
    have h24 := foldl_readDigit u 24 4 (by decide)
    have h20 := foldl_readDigit u 20 4 (by decide)
    have h16 := foldl_readDigit u 16 4 (by decide)
    have h12 := foldl_readDigit u 12 12 (by decide)
    rw [Nat.div_eq_of_lt (lt_of_lt_of_eq u.isLt (by decide))] at h32
    simp only [hyphenated, String.toList_ofList, List.foldl_append, List.foldl_cons, hskip, h32]
    rw [h24, h20, h16, h12, Nat.sub_self, pow_zero, Nat.div_one]
  have hlen : (hyphenated u).length = 36 := by
    simp only [hyphenated, hexDigits, String.length_ofList, List.length_append, List.length_cons,
      List.length_map, List.length_range]
  rw [parseHyphenated, if_pos hlen, hread, BitVec.ofNat_toNat, BitVec.setWidth_eq]

def writeTag (tag : List Char) : List Char := tag.flatMap (fun c => ['.', c]) ++ [',']

def readTags : List Char → List (List Char)
  | [] => []
  | ',' :: rest => [] :: readTags rest
  | _ :: c :: rest =>
    match readTags rest with
    | [] => [[c]]
    | tag :: tags => (c :: tag) :: tags
  | [_] => []

theorem readTags_writeTag (tag rest : List Char) :
    readTags (writeTag tag ++ rest) = tag :: readTags rest := by
  induction tag with
  | nil => rfl
  | cons c tag ih =>
    have hcons : writeTag (c :: tag) ++ rest = '.' :: c :: (writeTag tag ++ rest) := rfl
    rw [hcons, readTags, ih]
    decide

theorem readTags_flatMap (tags : List (List Char)) : readTags (tags.flatMap writeTag) = tags := by
  induction tags with
  | nil => rfl
  | cons tag tags ih => rw [List.flatMap_cons, readTags_writeTag, ih]

/-- The epoch as it is written, any other time by its distance from it. -/
def writeTime (t : ℤ) : String :=
  if t = 0 then "1970-01-01T00:00:00+00:00"
  else String.ofList (List.replicate t.natAbs (if 0 < t then '+' else '-'))

def readTime (s : String) : Except String ℤ :=
  match s.toList with
  | '+' :: cs => .ok (cs.length + 1)
  | '-' :: cs => .ok (-(cs.length + 1))
  | _ => if s = "1970-01-01T00:00:00+00:00" then .ok 0 else .error "input contains invalid characters"

theorem readTime_writeTime (t : ℤ) : readTime (writeTime t) = .ok t := by
  unfold writeTime
  split
  · rename_i hzero
    rw [hzero]
    rfl
  · rename_i hzero
    obtain ⟨n, hn⟩ := Nat.exists_eq_succ_of_ne_zero (Int.natAbs_ne_zero.mpr hzero)
    rw [hn, List.replicate_succ]
    split
    · rename_i hpos
      have ht : t = n + 1 := by omega
      simp only [readTime, String.toList_ofList, List.length_replicate, ht]
    · rename_i hpos
      have ht : t = -(n + 1) := by omega
      simp only [readTime, String.toList_ofList, List.length_replicate, ht]

/-- Codec in which UUIDs, the epoch and the JSON `null` are written as they are. -/
def sampleCodec : TextCodec Unit where
  uuid := hyphenated
  uuid_injective := hyphenated_injective
  rfc3339 := writeTime
  jsonTags := fun tags => some (String.ofList ((tags.map String.toList).flatMap writeTag))
  jsonValue := fun _ => some "null"
  parseUuid := parseHyphenated
  parseRfc3339 := readTime
  parseTags := fun s => .ok ((readTags s.toList).map String.ofList)
  parseValue := fun s => if s = "null" then .ok () else .error "expected ident"
  parse_uuid := parseHyphenated_hyphenated
  parse_rfc3339 := readTime_writeTime
  parse_tags := by
    intro tags
    refine ⟨_, rfl, ?_⟩
    rw [String.toList_ofList, readTags_flatMap, List.map_map]
    simp
  parse_value := fun _ => ⟨_, rfl, rfl⟩

/-- A stop-loss with a parent and an algorithm. -/
def storedStop : LocalOrder Unit :=
  { id := 3, symbol := "AAPL", action := .sell, orderType := .stop, quantity := 100,
    stopPrice := some 180, status := .inactive, parentId := some 1, bracketRole := some .stopLoss,
    algoStrategy := some "Adaptive", algoParams := some (), createdAt := 0, updatedAt := 0 }

/-- Its row with the role in an older spelling. -/
def storedStopRow : OrderRow :=
  { localToOrderRow sampleCodec.toTextFormats storedStop with bracketRole := some "STOP" }

theorem read_storedStopRow : orderRowToLocal sampleCodec 5 6 storedStopRow = .ok storedStop :=
  have hkept : storedStop.RoleKept := .inr (.inr rfl)
  orderRowToLocal_localToOrderRow sampleCodec hkept 5 6

theorem stored_orders_come_back_storedStop :
    orderRowToLocal sampleCodec 5 6 (localToOrderRow sampleCodec.toTextFormats storedStop) =
        .ok storedStop ∧
      orderRowToLocal sampleCodec 5 6 storedStopRow = .ok storedStop ∧
      orderRowToLocal sampleCodec 7 8 (localToOrderRow sampleCodec.toTextFormats storedStop) =
        .ok storedStop :=
  ⟨(stored_orders_come_back sampleCodec).1 storedStop 5 6 (.inr (.inr rfl)), read_storedStopRow,
    (stored_orders_come_back sampleCodec).2 storedStopRow storedStop 5 6 7 8 read_storedStopRow⟩

end Midas.Persist
