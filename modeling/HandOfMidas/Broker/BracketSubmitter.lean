import HandOfMidas.Broker.OrderClient

/-! Bracket submission (`bracket.rs`) over any order client: entry, take-profit and stop-loss are
    placed in this order, the last one transmits, and a leg that the client refuses undoes the legs
    before it. The client is a parameter; what it has accepted and cancelled so far is what the two
    functions of `OrderClient.Lawful` read off its state. -/

namespace Midas.Broker

variable {σ α β : Type*}

/-- The calls of the `OrderClient` trait that a submission makes, as functions on the state of the
    client. -/
structure OrderClient (σ : Type*) where
  nextOrderId : σ → Except OrderError Int32 × σ
  placeOrder : OrderSpec → σ → Except OrderError Int32 × σ
  cancelOrder : Int32 → σ → Except OrderError Unit × σ
  modifyOrder : Int32 → OrderModify → σ → Except OrderError Unit × σ

structure TakeProfitParams where
  price : ℚ
  tif : Option TimeInForce := none

structure StopLossParams where
  stopPrice : ℚ
  limitPrice : Option ℚ := none
  tif : Option TimeInForce := none

/-- `BracketParams`, less what no leg carries. -/
structure BracketParams where
  symbol : String
  conId : Option Int32
  action : OrderAction
  quantity : ℚ
  outsideRth : Bool
  entryKind : OrderKind
  entryPrice : Option ℚ
  entryStopPrice : Option ℚ
  takeProfit : Option TakeProfitParams
  stopLoss : Option StopLossParams

/-- `BracketHandle`, without the locally minted UUID. -/
structure BracketHandle where
  entryId : Int32
  tpId : Option Int32
  slId : Option Int32
  deriving DecidableEq

/-! ### Leg specifications -/

def opposite : OrderAction → OrderAction
  | .buy => .sell
  | .sell => .buy

def kindToOrderType : OrderKind → OrderType
  | .market => .market
  | .limit => .limit
  | .stop => .stop
  | .stopLimit => .stopLimit
  | .trailingStop => .trailingStop

def tifFrom (tif : Option TimeInForce) : Tif :=
  match tif.getD .gtc with
  | .day => .day
  | .gtc => .gtc
  | .ioc => .ioc
  | .gtd => .gtd
  | .opg => .opg

def entrySpec (ibOrderId : Int32) (symbolKey : SymbolKey) (params : BracketParams)
    (transmit : Bool) : OrderSpec where
  ibOrderId := ibOrderId
  symbol := symbolKey
  conId := params.conId.getD 0
  action := params.action
  orderType := kindToOrderType params.entryKind
  quantity := params.quantity
  limitPrice := params.entryPrice
  stopPrice := params.entryStopPrice
  transmit := transmit
  tif := tifFrom none
  outsideRth := params.outsideRth

def tpSpec (ibOrderId parentIbId : Int32) (symbolKey : SymbolKey) (params : BracketParams)
    (tp : TakeProfitParams) (transmit : Bool) : OrderSpec where
  ibOrderId := ibOrderId
  symbol := symbolKey
  conId := params.conId.getD 0
  action := opposite params.action
  orderType := .limit
  quantity := params.quantity
  limitPrice := some tp.price
  parentId := some parentIbId
  transmit := transmit
  tif := tifFrom tp.tif
  outsideRth := params.outsideRth

def slSpec (ibOrderId parentIbId : Int32) (symbolKey : SymbolKey) (params : BracketParams)
    (sl : StopLossParams) (transmit : Bool) : OrderSpec where
  ibOrderId := ibOrderId
  symbol := symbolKey
  conId := params.conId.getD 0
  action := opposite params.action
  orderType := if sl.limitPrice.isSome then .stopLimit else .stop
  quantity := params.quantity
  limitPrice := sl.limitPrice
  stopPrice := some sl.stopPrice
  parentId := some parentIbId
  transmit := transmit
  tif := tifFrom sl.tif
  outsideRth := params.outsideRth

namespace BracketParams

variable (params : BracketParams) (handle : BracketHandle)

def symbolKey : SymbolKey := ⟨params.conId.getD 0, params.symbol⟩

/-- The entry; it transmits when it has no children. -/
def entryLeg : OrderSpec :=
  entrySpec handle.entryId params.symbolKey params
    (!(params.takeProfit.isSome || params.stopLoss.isSome))

/-- The take-profit, if one is asked for; it transmits when there is no stop-loss. -/
def tpLeg : Option OrderSpec :=
  match handle.tpId, params.takeProfit with
  | some tpId, some tp =>
    some (tpSpec tpId handle.entryId params.symbolKey params tp (!params.stopLoss.isSome))
  | _, _ => none

/-- The stop-loss, if one is asked for; it always transmits. -/
def slLeg : Option OrderSpec :=
  match handle.slId, params.stopLoss with
  | some slId, some sl => some (slSpec slId handle.entryId params.symbolKey params sl true)
  | _, _ => none

/-- The legs of a bracket, in the order in which they are placed. -/
def legs : List OrderSpec :=
  params.entryLeg handle :: ((params.tpLeg handle).toList ++ (params.slLeg handle).toList)

end BracketParams

/-! ### Submission -/

/-- The `?` operator: go on with the value, or stop at the first error. -/
def andThen (r : Except OrderError α × σ) (k : α → σ → Except OrderError β × σ) :
    Except OrderError β × σ :=
  match r with
  | (.ok a, s) => k a s
  | (.error e, s) => (.error e, s)

/-- What both halves keep, the whole keeps. -/
theorem andThen_keeps {P : σ → Prop} {r : Except OrderError α × σ}
    {k : α → σ → Except OrderError β × σ} (hr : P r.2) (hk : ∀ a s, P s → P (k a s).2) :
    P (andThen r k).2 := by
  rcases r with ⟨_ | a, s⟩
  · exact hr
  · exact hk a s hr

/-- Reserve an id for a leg that is wanted. -/
def reserveIf (client : OrderClient σ) (wanted : Bool) (s : σ) :
    Except OrderError (Option Int32) × σ :=
  if wanted then andThen (client.nextOrderId s) fun id s => (.ok (some id), s) else (.ok none, s)

/-- Reserve an id for every leg. -/
def reserveLegs (client : OrderClient σ) (params : BracketParams) (s : σ) :
    Except OrderError BracketHandle × σ :=
  andThen (client.nextOrderId s) fun entryId s =>
  andThen (reserveIf client params.takeProfit.isSome s) fun tpId s =>
  andThen (reserveIf client params.stopLoss.isSome s) fun slId s =>
  (.ok ⟨entryId, tpId, slId⟩, s)

/-- Best-effort cancel of the legs placed before: whatever a cancel answers is dropped. -/
def cancelAll (client : OrderClient σ) (ids : List Int32) (s : σ) : σ :=
  ids.foldl (fun s id => (client.cancelOrder id s).2) s

/-- Place one leg; when the client refuses it, cancel the legs placed before it. -/
def placeLeg (client : OrderClient σ) (placed : List Int32) (leg : OrderSpec) (s : σ) :
    Except OrderError Unit × σ :=
  match client.placeOrder leg s with
  | (.ok _, s) => (.ok (), s)
  | (.error e, s) => (.error e, cancelAll client placed s)

/-- Place a leg that is wanted. -/
def placeLegIf (client : OrderClient σ) (placed : List Int32) (leg : Option OrderSpec) (s : σ) :
    Except OrderError Unit × σ :=
  match leg with
  | some leg => placeLeg client placed leg s
  | none => (.ok (), s)

/-- `place_bracket`. -/
def placeBracket (client : OrderClient σ) (params : BracketParams) (s : σ) :
    Except OrderError BracketHandle × σ :=
  andThen (reserveLegs client params s) fun handle s =>
  andThen (placeLeg client [] (params.entryLeg handle) s) fun _ s =>
  andThen (placeLegIf client [handle.entryId] (params.tpLeg handle) s) fun _ s =>
  andThen (placeLegIf client (handle.entryId :: handle.tpId.toList) (params.slLeg handle) s)
    fun _ s => (.ok handle, s)

/-- `cancel_bracket`: every leg is tried, and the answer is `Ok` whatever the client says. -/
def cancelBracket (client : OrderClient σ) (legs : List Int32) (s : σ) :
    Except OrderError Unit × σ :=
  (.ok (), cancelAll client legs s)

/-- `modify_bracket_leg`. -/
def modifyBracketLeg (client : OrderClient σ) (ibOrderId : Int32) (newPrice : ℚ) (isStop : Bool)
    (s : σ) : Except OrderError Unit × σ :=
  client.modifyOrder ibOrderId
    { limitPrice := if isStop then none else some newPrice
      stopPrice := if isStop then some newPrice else none } s

/-! ### What a submission does to a lawful client -/

/-- No id is handed out twice in a row of three. -/
structure OrderClient.ReservesApart (client : OrderClient σ) : Prop where
  reserve_two : ∀ s a s₁ b s₂, client.nextOrderId s = (.ok a, s₁) →
    client.nextOrderId s₁ = (.ok b, s₂) → a ≠ b
  reserve_three : ∀ s a s₁ b s₂ c s₃, client.nextOrderId s = (.ok a, s₁) →
    client.nextOrderId s₁ = (.ok b, s₂) → client.nextOrderId s₂ = (.ok c, s₃) → a ≠ c

/-- A client that keeps its word: a placed leg is accepted, or refused with no effect; a cancel
    succeeds; ids are reserved apart, and reserving has no other effect. -/
structure OrderClient.Lawful (client : OrderClient σ) (accepted : σ → List OrderSpec)
    (cancelled : σ → List Int32) : Prop extends client.ReservesApart where
  place_ok : ∀ leg s id s', client.placeOrder leg s = (.ok id, s') →
    accepted s' = accepted s ++ [leg] ∧ cancelled s' = cancelled s
  place_error : ∀ leg s e s', client.placeOrder leg s = (.error e, s') →
    accepted s' = accepted s ∧ cancelled s' = cancelled s
  cancel : ∀ id s, (client.cancelOrder id s).1 = .ok () ∧
    accepted (client.cancelOrder id s).2 = accepted s ∧
    cancelled (client.cancelOrder id s).2 = cancelled s ++ [id]
  reserve : ∀ s, accepted (client.nextOrderId s).2 = accepted s ∧
    cancelled (client.nextOrderId s).2 = cancelled s

/-- The ids reserved for a bracket: one for each leg asked for, no two the same. -/
structure BracketHandle.Fits (handle : BracketHandle) (params : BracketParams) : Prop where
  tpId : handle.tpId.isSome = params.takeProfit.isSome
  slId : handle.slId.isSome = params.stopLoss.isSome
  distinct : (handle.entryId :: (handle.tpId.toList ++ handle.slId.toList)).Nodup

/-- Ids reserved apart fit the bracket they are reserved for. -/
theorem reserveLegs_fits {client : OrderClient σ} (hlaw : client.ReservesApart)
    {params : BracketParams} {handle : BracketHandle} {s s' : σ}
    (h : reserveLegs client params s = (.ok handle, s')) : handle.Fits params := by
  rcases h₁ : client.nextOrderId s with ⟨_ | a, s₁⟩
  · simp [reserveLegs, andThen, h₁] at h
  cases htp : params.takeProfit.isSome <;> cases hsl : params.stopLoss.isSome <;>
    simp only [reserveLegs, reserveIf, andThen, h₁, htp, hsl, if_true, Bool.false_eq_true,
      if_false] at h
  · obtain ⟨⟨⟩, -⟩ := Prod.mk.inj h
    exact ⟨htp.symm, hsl.symm, by simp⟩
  · rcases h₂ : client.nextOrderId s₁ with ⟨_ | b, s₂⟩
    · simp [h₂] at h
    · simp only [h₂] at h
      obtain ⟨⟨⟩, -⟩ := Prod.mk.inj h
      have hab := hlaw.reserve_two s a s₁ b s₂ h₁ h₂
      exact ⟨htp.symm, hsl.symm, by simp [hab]⟩
  · rcases h₂ : client.nextOrderId s₁ with ⟨_ | b, s₂⟩
    · simp [h₂] at h
    · simp only [h₂] at h
      obtain ⟨⟨⟩, -⟩ := Prod.mk.inj h
      have hab := hlaw.reserve_two s a s₁ b s₂ h₁ h₂
      exact ⟨htp.symm, hsl.symm, by simp [hab]⟩
  · rcases h₂ : client.nextOrderId s₁ with ⟨_ | b, s₂⟩
    · simp [h₂] at h
    · rcases h₃ : client.nextOrderId s₂ with ⟨_ | c, s₃⟩
      · simp [h₂, h₃] at h
      · simp only [h₂, h₃] at h
        obtain ⟨⟨⟩, -⟩ := Prod.mk.inj h
        have hab := hlaw.reserve_two s a s₁ b s₂ h₁ h₂
        have hbc := hlaw.reserve_two s₁ b s₂ c s₃ h₂ h₃
        have hac := hlaw.reserve_three s a s₁ b s₂ c s₃ h₁ h₂ h₃
        exact ⟨htp.symm, hsl.symm, by simp [hab, hbc, hac]⟩

section Lawful

variable {client : OrderClient σ} {accepted : σ → List OrderSpec} {cancelled : σ → List Int32}
  (hlaw : client.Lawful accepted cancelled)

include hlaw

theorem cancelAll_spec : ∀ (ids : List Int32) (s : σ),
    accepted (cancelAll client ids s) = accepted s ∧
      cancelled (cancelAll client ids s) = cancelled s ++ ids
  | [], s => by simp [cancelAll]
  | id :: ids, s => by
    obtain ⟨-, hacc, hcan⟩ := hlaw.cancel id s
    obtain ⟨hacc', hcan'⟩ := cancelAll_spec ids (client.cancelOrder id s).2
    refine ⟨hacc'.trans hacc, ?_⟩
    show cancelled (cancelAll client ids (client.cancelOrder id s).2) = _
    rw [hcan', hcan, List.append_assoc, List.singleton_append]

theorem placeLeg_ok {placed : List Int32} {leg : OrderSpec} {s s' : σ}
    (h : placeLeg client placed leg s = (.ok (), s')) :
    accepted s' = accepted s ++ [leg] ∧ cancelled s' = cancelled s := by
  unfold placeLeg at h
  split at h
  · rename_i id s₁ hplace
    obtain ⟨-, rfl⟩ := Prod.mk.inj h
    exact hlaw.place_ok leg s id s₁ hplace
  · simp at h

theorem placeLeg_error {placed : List Int32} {leg : OrderSpec} {s s' : σ} {e : OrderError}
    (h : placeLeg client placed leg s = (.error e, s')) :
    accepted s' = accepted s ∧ cancelled s' = cancelled s ++ placed := by
  unfold placeLeg at h
  split at h
  · simp at h
  · rename_i e' s₁ hplace
    obtain ⟨-, rfl⟩ := Prod.mk.inj h
    obtain ⟨hacc, hcan⟩ := hlaw.place_error leg s e' s₁ hplace
    obtain ⟨hacc', hcan'⟩ := cancelAll_spec hlaw placed s₁
    exact ⟨hacc'.trans hacc, by rw [hcan', hcan]⟩

theorem placeLegIf_ok {placed : List Int32} {leg : Option OrderSpec} {s s' : σ}
    (h : placeLegIf client placed leg s = (.ok (), s')) :
    accepted s' = accepted s ++ leg.toList ∧ cancelled s' = cancelled s := by
  cases leg with
  | none => obtain ⟨-, rfl⟩ := Prod.mk.inj h; simp
  | some leg => exact placeLeg_ok hlaw h

theorem placeLegIf_error {placed : List Int32} {leg : Option OrderSpec} {s s' : σ} {e : OrderError}
    (h : placeLegIf client placed leg s = (.error e, s')) :
    accepted s' = accepted s ∧ cancelled s' = cancelled s ++ placed ∧ leg.isSome := by
  cases leg with
  | none => simp [placeLegIf] at h
  | some leg =>
    obtain ⟨hacc, hcan⟩ := placeLeg_error hlaw h
    exact ⟨hacc, hcan, rfl⟩

theorem reserveIf_views (wanted : Bool) (s : σ) :
    accepted (reserveIf client wanted s).2 = accepted s ∧
      cancelled (reserveIf client wanted s).2 = cancelled s := by
  cases wanted with
  | false => exact ⟨rfl, rfl⟩
  | true =>
    have h := hlaw.reserve s
    simp only [reserveIf, if_true, andThen]
    split <;> simp_all

theorem reserveLegs_views (params : BracketParams) (s : σ) :
    accepted (reserveLegs client params s).2 = accepted s ∧
      cancelled (reserveLegs client params s).2 = cancelled s := by
  let P : σ → Prop := fun s' => accepted s' = accepted s ∧ cancelled s' = cancelled s
  have hif : ∀ wanted s', P s' → P (reserveIf client wanted s').2 := fun wanted s' h =>
    ⟨(reserveIf_views hlaw wanted s').1.trans h.1, (reserveIf_views hlaw wanted s').2.trans h.2⟩
  refine andThen_keeps (P := P) (hlaw.reserve s) fun entryId s₁ h₁ => ?_
  refine andThen_keeps (P := P) (hif _ s₁ h₁) fun tpId s₂ h₂ => ?_
  exact andThen_keeps (P := P) (hif _ s₂ h₂) fun slId s₃ h₃ => h₃

end Lawful

/-! ### All or nothing -/

/-- What the legs of a bracket look like: distinct ids, the last leg alone transmits, the children
    are on the other side for the quantity of the entry and name it as their parent. -/
structure BracketHandle.Submitted (handle : BracketHandle) (params : BracketParams) : Prop where
  fits : handle.Fits params
  ids : (params.legs handle).map (·.ibOrderId) =
    handle.entryId :: (handle.tpId.toList ++ handle.slId.toList)
  held : ∀ leg ∈ (params.legs handle).dropLast, leg.transmit = false
  last : ∀ leg ∈ (params.legs handle).getLast?, leg.transmit = true
  entry : (params.entryLeg handle).action = params.action ∧
    (params.entryLeg handle).quantity = params.quantity ∧
    (params.entryLeg handle).parentId = none
  children : ∀ leg ∈ (params.legs handle).tail, leg.action = opposite params.action ∧
    leg.quantity = params.quantity ∧ leg.parentId = some handle.entryId

theorem BracketHandle.Fits.tp_ids {handle : BracketHandle} {params : BracketParams}
    (h : handle.Fits params) :
    (params.tpLeg handle).toList.map (·.ibOrderId) = handle.tpId.toList := by
  have htp := h.tpId
  unfold BracketParams.tpLeg
  cases hid : handle.tpId <;> cases ht : params.takeProfit <;> simp_all [tpSpec]

theorem BracketHandle.Fits.submitted {handle : BracketHandle} {params : BracketParams}
    (h : handle.Fits params) : handle.Submitted params := by
  have htp := h.tpId
  have hsl := h.slId
  obtain ⟨entryId, tpId, slId⟩ := handle
  refine ⟨h, ?_, ?_, ?_, ⟨rfl, rfl, rfl⟩, ?_⟩ <;>
    cases tpId <;> cases slId <;> cases ht : params.takeProfit <;> cases hs : params.stopLoss <;>
    simp_all [BracketParams.legs, BracketParams.entryLeg, BracketParams.tpLeg, BracketParams.slLeg,
      entrySpec, tpSpec, slSpec]

/-- Over a lawful client a bracket is submitted whole or not at all: on `Ok` the legs asked for were
    accepted in order, and they are what `BracketHandle.Submitted` says; on `Err` every leg accepted
    so far was cancelled, and none of them transmits. -/
theorem place_bracket_all_or_nothing (client : OrderClient σ) (accepted : σ → List OrderSpec)
    (cancelled : σ → List Int32) (hlaw : client.Lawful accepted cancelled) (params : BracketParams)
    (s : σ) :
    match placeBracket client params s with
    | (.ok handle, s') => handle.Submitted params ∧
        accepted s' = accepted s ++ params.legs handle ∧ cancelled s' = cancelled s
    | (.error _, s') => ∃ placed : List OrderSpec, accepted s' = accepted s ++ placed ∧
        cancelled s' = cancelled s ++ placed.map (·.ibOrderId) ∧
        ∀ leg ∈ placed, leg.transmit = false := by
  obtain ⟨hacc₀, hcan₀⟩ := reserveLegs_views hlaw params s
  rcases hres : reserveLegs client params s with ⟨e | handle, s₀⟩ <;>
    rw [hres] at hacc₀ hcan₀ <;> simp only at hacc₀ hcan₀
  · simp only [placeBracket, andThen, hres]
    exact ⟨[], by simpa using hacc₀, by simpa using hcan₀, by simp⟩
  have hsub := (reserveLegs_fits hlaw.toReservesApart hres).submitted
  -- the entry
  rcases hentry : placeLeg client [] (params.entryLeg handle) s₀ with ⟨e | u, s₁⟩
  · obtain ⟨hacc₁, hcan₁⟩ := placeLeg_error hlaw hentry
    simp only [placeBracket, andThen, hres, hentry]
    exact ⟨[], by simp [hacc₁, hacc₀], by simp [hcan₁, hcan₀], by simp⟩
  obtain ⟨hacc₁, hcan₁⟩ := placeLeg_ok hlaw hentry
  rw [hacc₀] at hacc₁; rw [hcan₀] at hcan₁
  -- the take-profit
  rcases htp : placeLegIf client [handle.entryId] (params.tpLeg handle) s₁ with ⟨e | u, s₂⟩
  · obtain ⟨hacc₂, hcan₂, hsome⟩ := placeLegIf_error hlaw htp
    simp only [placeBracket, andThen, hres, hentry, htp]
    refine ⟨[params.entryLeg handle], by rw [hacc₂, hacc₁], by rw [hcan₂, hcan₁]; rfl, ?_⟩
    rintro leg hleg
    refine hsub.held leg ?_
    obtain ⟨tp, htp⟩ := Option.isSome_iff_exists.mp hsome
    rw [List.mem_singleton.mp hleg]
    simp [BracketParams.legs, htp]
  obtain ⟨hacc₂, hcan₂⟩ := placeLegIf_ok hlaw htp
  rw [hacc₁] at hacc₂; rw [hcan₁] at hcan₂
  -- the stop-loss
  rcases hsl : placeLegIf client (handle.entryId :: handle.tpId.toList) (params.slLeg handle) s₂
    with ⟨e | u, s₃⟩
  · obtain ⟨hacc₃, hcan₃, hsome⟩ := placeLegIf_error hlaw hsl
    obtain ⟨sl, hsl'⟩ := Option.isSome_iff_exists.mp hsome
    simp only [placeBracket, andThen, hres, hentry, htp, hsl]
    refine ⟨params.entryLeg handle :: (params.tpLeg handle).toList, ?_, ?_, ?_⟩
    · rw [hacc₃, hacc₂, List.append_assoc, List.singleton_append]
    · rw [hcan₃, hcan₂, List.map_cons, hsub.fits.tp_ids]
      rfl
    · rintro leg hleg
      refine hsub.held leg ?_
      simp only [BracketParams.legs, hsl', Option.toList_some, ← List.cons_append,
        List.dropLast_concat]
      exact hleg
  obtain ⟨hacc₃, hcan₃⟩ := placeLegIf_ok hlaw hsl
  simp only [placeBracket, andThen, hres, hentry, htp, hsl]
  refine ⟨hsub, ?_, hcan₃.trans hcan₂⟩
  rw [hacc₃, hacc₂, BracketParams.legs]
  simp

/-! ### A lawful client -/

/-- An order desk that counts ids up and refuses one leg. -/
structure Desk where
  nextId : Int32
  accepted : List OrderSpec
  cancelled : List Int32

/-- The desk as a client; it refuses a leg when it has accepted `refuseAt` legs. -/
def Desk.client (refuseAt : ℕ) : OrderClient Desk where
  nextOrderId d := (.ok d.nextId, { d with nextId := d.nextId + 1 })
  placeOrder leg d :=
    if d.accepted.length = refuseAt then (.error (.rejected "no more legs"), d)
    else (.ok leg.ibOrderId, { d with accepted := d.accepted ++ [leg] })
  cancelOrder id d := (.ok (), { d with cancelled := d.cancelled ++ [id] })
  modifyOrder id _ d := (.error (.notFound id), d)

theorem Desk.lawful (refuseAt : ℕ) :
    (Desk.client refuseAt).Lawful Desk.accepted Desk.cancelled where
  place_ok leg d id d' h := by
    simp only [Desk.client] at h
    split at h
    · simp at h
    · obtain ⟨-, rfl⟩ := Prod.mk.inj h; exact ⟨rfl, rfl⟩
  place_error leg d e d' h := by
    simp only [Desk.client] at h
    split at h
    · obtain ⟨-, rfl⟩ := Prod.mk.inj h; exact ⟨rfl, rfl⟩
    · simp at h
  cancel id d := ⟨rfl, rfl, rfl⟩
  reserve d := ⟨rfl, rfl⟩
  reserve_two d a d₁ b d₂ h₁ h₂ := by
    obtain ⟨⟨⟩, rfl⟩ := Prod.mk.inj h₁
    obtain ⟨⟨⟩, -⟩ := Prod.mk.inj h₂
    simp
  reserve_three d a d₁ b d₂ c d₃ h₁ h₂ h₃ := by
    obtain ⟨⟨⟩, rfl⟩ := Prod.mk.inj h₁
    obtain ⟨⟨⟩, rfl⟩ := Prod.mk.inj h₂
    obtain ⟨⟨⟩, -⟩ := Prod.mk.inj h₃
    show d.nextId ≠ d.nextId + 1 + 1
    grind

/-- A bracket of three legs around an entry at 150. -/
def threeLegs : BracketParams where
  symbol := "AAPL"
  conId := some 265598
  action := .buy
  quantity := 100
  outsideRth := false
  entryKind := .limit
  entryPrice := some 150
  entryStopPrice := none
  takeProfit := some { price := 160 }
  stopLoss := some { stopPrice := 145 }

/-- A desk that refuses the stop-loss is left with the two legs before it, both cancelled. -/
theorem place_bracket_stop_loss_refused :
    match placeBracket (Desk.client 2) threeLegs ⟨1000, [], []⟩ with
    | (.ok handle, s') => handle.Submitted threeLegs ∧
        Desk.accepted s' = [] ++ threeLegs.legs handle ∧ Desk.cancelled s' = []
    | (.error _, s') => ∃ placed : List OrderSpec, Desk.accepted s' = [] ++ placed ∧
        Desk.cancelled s' = [] ++ placed.map (·.ibOrderId) ∧
        ∀ leg ∈ placed, leg.transmit = false :=
  place_bracket_all_or_nothing (Desk.client 2) Desk.accepted Desk.cancelled (Desk.lawful 2)
    threeLegs ⟨1000, [], []⟩

end Midas.Broker
