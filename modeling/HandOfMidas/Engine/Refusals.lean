import HandOfMidas.Engine.Orchestrator
import HandOfMidas.Lib.Run

/-! Requests that the engine refuses. The guard refuses before anything is booked. The order
    simulator refuses with a message in what it returns, and the engine books the order for the
    session whatever was returned: a refusal that comes from the simulator changes nothing only
    where the bookings say already what the request would have them say. Over a run, the orders
    that were accepted stay booked for those who placed them as long as no refused request and no
    older booking is in their way. -/

namespace Midas.IbSim.Engine

open Quirks

/-- Some message refuses a request. -/
def Rejects (out : List OrderEmission) : Prop :=
  ∃ orderId code message, OrderEmission.reject orderId code message ∈ out

/-- What `place` does with a request that it refuses: the message, and nothing else. -/
theorem place_of_refusal {req : PlaceOrderReq} {now : VirtualInstant} {s : Sim} {code : Int32}
    {message : String} (h : refusal req s = some (code, message)) :
    place req now s = s.emit [.reject req.orderId code message] := by
  unfold place
  rw [h]

theorem rejects_place_iff {req : PlaceOrderReq} {now : VirtualInstant} {s : Sim} :
    Rejects (place req now s).1 ↔ ∃ r, refusal req s = some r := by
  constructor
  · rintro ⟨orderId, code, message, hmem⟩
    cases hr : refusal req s with
    | some r => exact ⟨r, rfl⟩
    | none =>
      exfalso
      unfold place at hmem
      rw [hr] at hmem
      cases hp : req.parentId with
      | some parentId => simp [hp, placeChild, emitOpenOrder, emitOrderStatus] at hmem
      | none =>
        simp only [hp, placeRoot, Sim.emit_fst] at hmem
        split at hmem <;> simp [emitOpenOrder, emitOrderStatus] at hmem
  · rintro ⟨⟨code, message⟩, hr⟩
    rw [place_of_refusal hr]
    exact ⟨req.orderId, code, message, List.mem_singleton_self _⟩

/-- A cancel that is refused leaves the simulator as it is, but for the message. -/
theorem cancel_of_rejects {orderId : OrderId} {s : Sim} (h : Rejects (cancel orderId s).1) :
    (cancel orderId s).2.orders = s.orders ∧ (cancel orderId s).2.brackets = s.brackets := by
  unfold cancel at h ⊢
  cases hget : s.orders.get? orderId with
  | none => exact ⟨rfl, rfl⟩
  | some o =>
    simp only [hget] at h ⊢
    split
    · exact ⟨rfl, rfl⟩
    split
    · rename_i hfilled hallowed
      obtain ⟨id, code, message, hmem⟩ := h
      rw [if_neg hfilled, if_pos hallowed] at hmem
      simp [emitOrderStatus] at hmem
    · exact ⟨rfl, rfl⟩

namespace OrchestratedEngine

variable {μ : Type*}

/-- The orders of a session, if it is connected. -/
def owned (s : OrchestratedEngine μ) (session : SessionId) : Option (Finset OrderId) :=
  (s.sessions.get? session).map SessionState.ownedOrders

/-- The session is connected and counts the order among its own. -/
def Owns (s : OrchestratedEngine μ) (session : SessionId) (orderId : OrderId) : Prop :=
  ∃ ids, s.owned session = some ids ∧ orderId ∈ ids

/-- The guard objects to an order of the session. -/
def Objects (s : OrchestratedEngine μ) (session : SessionId) : Prop :=
  (s.quirks.check s.now session none .orderPlace).1.isSome = true

/-- A request that ends in a violation or in a reject. -/
def Refused (s : OrchestratedEngine μ) (session : SessionId) (req : PlaceOrderReq) : Prop :=
  s.Objects session ∨ Rejects (place req s.now s.orders).1

/-- Orders, brackets and bookings are as before, and so are the orders of every session but the one
    that a violation may have disconnected. -/
structure Unchanged (session : SessionId) (s s' : OrchestratedEngine μ) : Prop where
  orders : s'.orders.orders = s.orders.orders
  brackets : s'.orders.brackets = s.orders.brackets
  orderSessions : s'.orderSessions = s.orderSessions
  orderContracts : s'.orderContracts = s.orderContracts
  owned : ∀ other, s'.owned other = s.owned other ∨ other = session ∧ s'.owned other = none

/-- The guard refuses, or the order is booked for this session and this contract already. -/
def Harmless (s : OrchestratedEngine μ) (session : SessionId) (req : PlaceOrderReq) : Prop :=
  s.Objects session ∨
    s.orderSessions req.orderId = some session ∧ s.orderContracts req.orderId = some req.contract ∧
      ∀ ids, s.owned session = some ids → req.orderId ∈ ids

/-! ### One request -/

/-- Publishing what the simulator returns touches the events only. -/
theorem records_spec (out : List OrderEmission) (s : OrchestratedEngine μ) :
    ∃ events, out.foldl recordOrderEmission s = { s with events := events } := by
  induction out generalizing s with
  | nil => exact ⟨s.events, rfl⟩
  | cons e out ih =>
    rw [List.foldl_cons]
    obtain ⟨events, h⟩ := ih (s.recordOrderEmission e)
    rw [h]
    unfold recordOrderEmission
    split
    · exact ⟨events, rfl⟩
    · exact ⟨events, rfl⟩

/-- What a violation does: it may disconnect its session. -/
theorem unchanged_handleViolation (s : OrchestratedEngine μ) (session : SessionId)
    (v : QuirkViolation) : Unchanged session s (s.handleViolation session v) := by
  have hsame : ∀ other, s.owned other = s.owned other ∨ other = session ∧ s.owned other = none :=
    fun _ => Or.inl rfl
  unfold handleViolation
  cases v with
  | rateLimit code message action =>
    dsimp only
    split
    · refine ⟨rfl, rfl, rfl, rfl, fun other => ?_⟩
      change ((s.sessions.erase session).get? other).map SessionState.ownedOrders = _ ∨
        _ ∧ ((s.sessions.erase session).get? other).map SessionState.ownedOrders = none
      rw [Store.get?_erase]
      by_cases h : other = session
      · exact Or.inr ⟨h, by simp [h]⟩
      · exact Or.inl (by simp [h, owned])
    · exact ⟨rfl, rfl, rfl, rfl, hsame⟩
  | _ => exact ⟨rfl, rfl, rfl, rfl, hsame⟩

theorem guarded_of_isSome {s : OrchestratedEngine μ} {session : SessionId} {reqId : Option ReqId}
    {kind : QuirkCheckKind} (go : OrchestratedEngine μ → OrchestratedEngine μ)
    (h : (s.quirks.check s.now session reqId kind).1.isSome = true) :
    ∃ v, guarded session reqId kind go s =
      handleViolation session v { s with quirks := (s.quirks.check s.now session reqId kind).2 } := by
  obtain ⟨v, hv⟩ := Option.isSome_iff_exists.mp h
  refine ⟨v, ?_⟩
  unfold guarded
  simp only [hv]

theorem guarded_of_not_isSome {s : OrchestratedEngine μ} {session : SessionId}
    {reqId : Option ReqId} {kind : QuirkCheckKind} (go : OrchestratedEngine μ → OrchestratedEngine μ)
    (h : ¬ (s.quirks.check s.now session reqId kind).1.isSome = true) :
    guarded session reqId kind go s =
      go { s with quirks := (s.quirks.check s.now session reqId kind).2 } := by
  unfold guarded
  simp only [Option.not_isSome_iff_eq_none.mp h]

/-- Sessions after a request to which the guard has no objection. -/
def registered (s : OrchestratedEngine μ) (session : SessionId) (orderId : OrderId) :
    Store SessionState.id :=
  match s.sessions.get? session with
  | some owner => s.sessions.put { owner with ownedOrders := insert orderId owner.ownedOrders }
  | none => s.sessions

theorem owned_registered (s : OrchestratedEngine μ) (session : SessionId) (orderId : OrderId)
    (other : SessionId) :
    ((s.registered session orderId).get? other).map SessionState.ownedOrders =
      if other = session then (s.owned session).map (insert orderId) else s.owned other := by
  unfold registered owned
  cases hget : s.sessions.get? session with
  | none =>
    by_cases h : other = session
    · simp [h, hget]
    · simp [h]
  | some owner =>
    have hid : owner.id = session := Store.key_of_get? hget
    simp only [Store.get?_put, hid]
    by_cases h : other = session
    · simp [h]
    · simp [h]

/-- What the engine does with a request to which the guard has no objection. -/
theorem onPlaceOrder_spec {s : OrchestratedEngine μ} {session : SessionId} (req : PlaceOrderReq)
    (h : ¬ s.Objects session) : ∃ quirks events, s.onPlaceOrder session req =
      { s with
        quirks := quirks
        events := events
        orders := (place req s.now s.orders).2
        orderSessions := Function.update s.orderSessions req.orderId (some session)
        orderContracts := Function.update s.orderContracts req.orderId (some req.contract)
        sessions := s.registered session req.orderId } := by
  refine ⟨(s.quirks.check s.now session none .orderPlace).2, ?_⟩
  rw [onPlaceOrder, guarded_of_not_isSome _ h]
  obtain ⟨events, hrec⟩ := records_spec (place req s.now s.orders).1
    { s with
      quirks := (s.quirks.check s.now session none .orderPlace).2
      orders := (place req s.now s.orders).2
      orderSessions := Function.update s.orderSessions req.orderId (some session)
      orderContracts := Function.update s.orderContracts req.orderId (some req.contract)
      sessions := s.registered session req.orderId }
  refine ⟨events ++ [.orderPlaced session req.orderId], ?_⟩
  refine Eq.trans ?_ (congrArg (emitEvent (.orderPlaced session req.orderId)) hrec)
  rfl

/-- A map is as before an update if it had that value already. -/
theorem update_eq_iff {κ β : Type*} [DecidableEq κ] (f : κ → β) (k : κ) (b : β) :
    Function.update f k b = f ↔ f k = b := by
  rw [eq_comm, Function.eq_update_iff]
  exact ⟨And.left, fun h => ⟨h, fun _ _ => rfl⟩⟩

/-- A request that the simulator refuses changes nothing where it is booked already. -/
theorem unchanged_iff_of_rejects {s : OrchestratedEngine μ} {session : SessionId}
    {req : PlaceOrderReq} (hguard : ¬ s.Objects session)
    (hrej : Rejects (place req s.now s.orders).1) :
    Unchanged session s (s.onPlaceOrder session req) ↔
      s.orderSessions req.orderId = some session ∧ s.orderContracts req.orderId = some req.contract ∧
        ∀ ids, s.owned session = some ids → req.orderId ∈ ids := by
  obtain ⟨quirks, events, heq⟩ := onPlaceOrder_spec req hguard
  obtain ⟨⟨code, message⟩, hr⟩ := rejects_place_iff.mp hrej
  rw [place_of_refusal hr] at heq
  have howned : ∀ other, (s.onPlaceOrder session req).owned other =
      if other = session then (s.owned session).map (insert req.orderId) else s.owned other := by
    intro other
    rw [heq]
    exact owned_registered s session req.orderId other
  constructor
  · intro h
    refine ⟨?_, ?_, fun ids hids => ?_⟩
    · have := h.orderSessions
      rwa [heq, update_eq_iff] at this
    · have := h.orderContracts
      rwa [heq, update_eq_iff] at this
    · rcases h.owned session with hsame | ⟨_, hnone⟩
      · rw [howned, if_pos rfl, hids, Option.map_some, Option.some_inj] at hsame
        rw [← hsame]
        exact Finset.mem_insert_self _ _
      · rw [howned, if_pos rfl, hids] at hnone
        exact absurd hnone (Option.some_ne_none _)
  · rintro ⟨hsession, hcontract, hids⟩
    refine ⟨by rw [heq]; rfl, by rw [heq]; rfl, ?_, ?_, fun other => Or.inl ?_⟩
    · rw [heq]
      exact (update_eq_iff _ _ _).mpr hsession
    · rw [heq]
      exact (update_eq_iff _ _ _).mpr hcontract
    · rw [howned]
      split
      · rename_i h
        rw [h]
        cases ho : s.owned session with
        | none => rfl
        | some ids => rw [Option.map_some, Finset.insert_eq_of_mem (hids ids ho)]
      · rfl

theorem unchanged_iff_harmless {s : OrchestratedEngine μ} {session : SessionId}
    {req : PlaceOrderReq} (h : s.Refused session req) :
    Unchanged session s (s.onPlaceOrder session req) ↔ s.Harmless session req := by
  by_cases hguard : s.Objects session
  · refine ⟨fun _ => Or.inl hguard, fun _ => ?_⟩
    obtain ⟨v, hv⟩ := guarded_of_isSome _ hguard
    have hkept := unchanged_handleViolation
      { s with quirks := (s.quirks.check s.now session none .orderPlace).2 } session v
    rw [onPlaceOrder, hv]
    exact ⟨hkept.orders, hkept.brackets, hkept.orderSessions, hkept.orderContracts, hkept.owned⟩
  · rw [unchanged_iff_of_rejects hguard (h.resolve_left hguard)]
    exact ⟨Or.inr, fun hh => hh.resolve_left hguard⟩

theorem unchanged_onCancelOrder {s : OrchestratedEngine μ} (session : SessionId) {orderId : OrderId}
    (h : Rejects (cancel orderId s.orders).1) :
    Unchanged session s (s.onCancelOrder session orderId) := by
  obtain ⟨horders, hbrackets⟩ := cancel_of_rejects h
  obtain ⟨events, hrec⟩ := records_spec (cancel orderId s.orders).1
    { s with orders := (cancel orderId s.orders).2 }
  unfold onCancelOrder withOrders
  rw [hrec]
  exact ⟨horders, hbrackets, rfl, rfl, fun _ => Or.inl rfl⟩

/-! ### Runs -/

/-- No handler but that of an order request books an order or gives a session one. -/
structure Keeps (s s' : OrchestratedEngine μ) : Prop where
  orderSessions : s'.orderSessions = s.orderSessions
  orderContracts : s'.orderContracts = s.orderContracts
  owns : ∀ session orderId, s'.Owns session orderId → s.Owns session orderId

theorem Keeps.rfl' {s : OrchestratedEngine μ} : Keeps s s := ⟨rfl, rfl, fun _ _ h => h⟩

theorem Keeps.trans {s s' s'' : OrchestratedEngine μ} (h : Keeps s s') (h' : Keeps s' s'') :
    Keeps s s'' :=
  ⟨h'.orderSessions.trans h.orderSessions, h'.orderContracts.trans h.orderContracts,
    fun session orderId ho => h.owns session orderId (h'.owns session orderId ho)⟩

theorem Keeps.foldl {ι : Type*} {f : OrchestratedEngine μ → ι → OrchestratedEngine μ}
    (hf : ∀ s i, Keeps s (f s i)) (items : List ι) (s : OrchestratedEngine μ) :
    Keeps s (items.foldl f s) := by
  induction items generalizing s with
  | nil => exact .rfl'
  | cons i items ih => exact (hf s i).trans (ih (f s i))

theorem Unchanged.keeps {session : SessionId} {s s' : OrchestratedEngine μ}
    (h : Unchanged session s s') : Keeps s s' := by
  refine ⟨h.orderSessions, h.orderContracts, ?_⟩
  rintro other orderId ⟨ids, hids, hmem⟩
  rcases h.owned other with hsame | ⟨_, hnone⟩
  · exact ⟨ids, hsame ▸ hids, hmem⟩
  · rw [hnone] at hids
    exact absurd hids.symm (Option.some_ne_none ids)

theorem keeps_withOrders (s : OrchestratedEngine μ) (f : Sim → Emits) : Keeps s (s.withOrders f) := by
  obtain ⟨events, hrec⟩ := records_spec (f s.orders).1 { s with orders := (f s.orders).2 }
  unfold withOrders
  rw [hrec]
  exact ⟨rfl, rfl, fun _ _ h => h⟩

/-- Erasing a session gives nobody an order. -/
theorem owns_of_erase {s s' : OrchestratedEngine μ} {session : SessionId}
    (h : s'.sessions = s.sessions.erase session) {other : SessionId} {orderId : OrderId}
    (ho : s'.Owns other orderId) : s.Owns other orderId := by
  obtain ⟨ids, hids, hmem⟩ := ho
  rw [owned, h, Store.get?_erase] at hids
  split at hids
  · exact absurd hids.symm (Option.some_ne_none ids)
  · exact ⟨ids, hids, hmem⟩

/-- Writing a session back with the orders it had, or with none, gives nobody an order. -/
theorem owns_of_put {s s' : OrchestratedEngine μ} {a : SessionState}
    (h : s'.sessions = s.sessions.put a)
    (ha : ∀ orderId ∈ a.ownedOrders, s.Owns a.id orderId) {other : SessionId} {orderId : OrderId}
    (ho : s'.Owns other orderId) : s.Owns other orderId := by
  obtain ⟨ids, hids, hmem⟩ := ho
  rw [owned, h, Store.get?_put] at hids
  split at hids
  · rename_i hother
    obtain rfl := Option.some.inj hids
    exact hother ▸ ha orderId hmem
  · exact ⟨ids, hids, hmem⟩

/-- A session that is looked up owns what its record says. -/
theorem owns_of_get? {s : OrchestratedEngine μ} {session : SessionId} {a : SessionState}
    (h : s.sessions.get? session = some a) : ∀ orderId ∈ a.ownedOrders, s.Owns a.id orderId := by
  intro orderId hmem
  refine ⟨a.ownedOrders, ?_, hmem⟩
  rw [owned, Store.key_of_get? h, h]
  rfl

theorem keeps_handleViolation (s : OrchestratedEngine μ) (session : SessionId) (v : QuirkViolation) :
    Keeps s (s.handleViolation session v) :=
  (unchanged_handleViolation s session v).keeps

theorem keeps_guarded (s : OrchestratedEngine μ) (session : SessionId) (reqId : Option ReqId)
    (kind : QuirkCheckKind) {go : OrchestratedEngine μ → OrchestratedEngine μ}
    (hgo : ∀ s, Keeps s (go s)) : Keeps s (guarded session reqId kind go s) := by
  have hasked : Keeps s { s with quirks := (s.quirks.check s.now session reqId kind).2 } :=
    ⟨rfl, rfl, fun _ _ h => h⟩
  by_cases h : (s.quirks.check s.now session reqId kind).1.isSome = true
  · obtain ⟨v, hv⟩ := guarded_of_isSome go h
    rw [hv]
    exact hasked.trans (keeps_handleViolation _ session v)
  · rw [guarded_of_not_isSome go h]
    exact hasked.trans (hgo _)

theorem keeps_onStartApi (s : OrchestratedEngine μ) (session : SessionId) (clientId : Int32) :
    Keeps s (s.onStartApi session clientId) := by
  have hput : (s.onStartApi session clientId).sessions = s.sessions.put _ := rfl
  refine ⟨rfl, rfl, fun other orderId ho => owns_of_put hput ?_ ho⟩
  cases hget : s.sessions.get? session with
  | none => exact fun _ hmem => absurd hmem (Finset.notMem_empty _)
  | some a => exact fun orderId hmem => owns_of_get? hget orderId hmem

theorem keeps_onInjectDisconnect (s : OrchestratedEngine μ) (session : SessionId) (reason : String) :
    Keeps s (s.onInjectDisconnect session reason) :=
  ⟨rfl, rfl, fun _ _ => owns_of_erase rfl⟩

theorem keeps_onInjectDailyRestart (s : OrchestratedEngine μ) : Keeps s s.onInjectDailyRestart := by
  have hone : ∀ (s : OrchestratedEngine μ) session, Keeps s (s.restartSession session) :=
    fun s session => ⟨rfl, rfl, fun _ _ => owns_of_erase rfl⟩
  have h := Keeps.foldl hone s.sessionIds s
  exact ⟨h.orderSessions, h.orderContracts, h.owns⟩

variable (source : MarketDataEngine μ)

theorem keeps_onSubscribeMarketData (s : OrchestratedEngine μ) (session : SessionId) (reqId : ReqId)
    (contract : ContractSpec) (mode : SubMode) :
    Keeps s (s.onSubscribeMarketData source session reqId contract mode) := by
  unfold onSubscribeMarketData
  split
  · exact keeps_handleViolation s session _
  refine keeps_guarded s session _ _ fun s => ?_
  unfold openSubscription
  dsimp only
  split
  · rename_i error _
    have hasked : Keeps s { s with
        marketData := (source.subscribe ⟨session, reqId, marketDataSymbolKey contract⟩ mode
          s.marketData).2 } := ⟨rfl, rfl, fun _ _ h => h⟩
    exact hasked.trans (keeps_handleViolation _ session (.unknownContract _ error reqId))
  · refine ⟨rfl, rfl, fun other orderId ho => ?_⟩
    cases hget : s.sessions.get? session with
    | none =>
      simp only [hget] at ho
      exact ho
    | some a =>
      simp only [hget] at ho
      exact owns_of_put (a := { a with streamingReqs := insert reqId a.streamingReqs }) rfl
        (fun orderId hmem => owns_of_get? hget orderId hmem) ho

theorem keeps_onUnsubscribeMarketData (s : OrchestratedEngine μ) (session : SessionId)
    (reqId : ReqId) : Keeps s (s.onUnsubscribeMarketData source session reqId) := by
  unfold onUnsubscribeMarketData
  refine ⟨?_, ?_, fun other orderId ho => ?_⟩
  · split <;> rfl
  · split <;> rfl
  · have hsame : ∀ s' : OrchestratedEngine μ, s'.sessions = s.sessions →
        (emitEvent (.marketDataUnsubscribed session reqId) { s' with
          sessions := match s'.sessions.get? session with
            | some owner =>
              s'.sessions.put { owner with streamingReqs := owner.streamingReqs.erase reqId }
            | none => s'.sessions }).Owns other orderId → s.Owns other orderId := by
      intro s' hs' ho
      cases hget : s.sessions.get? session with
      | none =>
        rw [hs', hget] at ho
        exact ho
      | some a =>
        rw [hs', hget] at ho
        exact owns_of_put (a := { a with streamingReqs := a.streamingReqs.erase reqId }) rfl
          (fun orderId hmem => owns_of_get? hget orderId hmem) ho
    refine hsame _ ?_ ho
    split <;> rfl

theorem keeps_driveMarketData (s : OrchestratedEngine μ) (rng : Rng) (baseSeed : UInt64) :
    Keeps s (s.driveMarketData source rng baseSeed) := by
  have hdeliver : ∀ (s : OrchestratedEngine μ) em, Keeps s (s.deliver source rng baseSeed em) := by
    intro s em
    unfold deliver
    cases s.projectSnapshot source em with
    | none => exact ⟨rfl, rfl, fun _ _ h => h⟩
    | some snap =>
      have h := keeps_withOrders s (onMarketSnapshot rng baseSeed snap.toMarketSnapshot)
      exact ⟨h.orderSessions, h.orderContracts, h.owns⟩
  have hstepped : Keeps s { s with marketData := (source.step s.now s.marketData).2 } :=
    ⟨rfl, rfl, fun _ _ h => h⟩
  exact (hstepped.trans (Keeps.foldl hdeliver _ _)).trans (keeps_withOrders _ _)

/-- Every step but an order request keeps the bookings. -/
theorem keeps_step (rng : Rng) (baseSeed : UInt64) (s : OrchestratedEngine μ) (op : Op)
    (hop : ∀ session req, op ≠ .command (.placeOrder session req)) :
    Keeps s (step source rng baseSeed s op) := by
  cases op with
  | command cmd =>
    cases cmd with
    | startApi session clientId => exact keeps_onStartApi s session clientId
    | placeOrder session req => exact absurd rfl (hop session req)
    | cancelOrder session orderId =>
      have h := keeps_withOrders s (cancel orderId)
      exact ⟨h.orderSessions, h.orderContracts, h.owns⟩
    | subscribeMarketData session reqId contract mode =>
      exact keeps_onSubscribeMarketData source s session reqId contract mode
    | unsubscribeMarketData session reqId => exact keeps_onUnsubscribeMarketData source s session reqId
    | reqHistoricalData session reqId req => exact keeps_guarded s session _ _ fun _ => .rfl'
    | injectDisconnect session reason => exact keeps_onInjectDisconnect s session reason
    | injectPacingViolation session =>
      exact keeps_handleViolation s session
        (.rateLimit msgRateExceeded (message msgRateExceeded) .disconnectAfterError)
    | injectFarmOutage code farms => exact ⟨rfl, rfl, fun _ _ h => h⟩
    | injectFarmRestore code farms => exact ⟨rfl, rfl, fun _ _ h => h⟩
    | inject i => exact ⟨rfl, rfl, fun _ _ h => h⟩
    | injectDailyRestart => exact keeps_onInjectDailyRestart s
  | scheduled action =>
    cases action with
    | emitFarmStatus code farm => exact ⟨rfl, rfl, fun _ _ h => h⟩
    | emitDailyRestart => exact keeps_onInjectDailyRestart s
  | driveMarketData => exact keeps_driveMarketData source s rng baseSeed
  | advance t => exact ⟨rfl, rfl, fun _ _ h => h⟩

end OrchestratedEngine

open OrchestratedEngine

variable {μ : Type*} (source : MarketDataEngine μ) (rng : Rng) (baseSeed : UInt64)

/-- Who placed each order that was accepted, and for which contract: history that the engine does
    not keep. -/
abbrev Placers := OrderId → Option (SessionId × ContractSpec)

/-- The guard and the simulator both take the request. -/
def Taken (s : OrchestratedEngine μ) (session : SessionId) (req : PlaceOrderReq) : Bool :=
  (s.quirks.check s.now session none .orderPlace).1.isNone && (refusal req s.orders).isNone

/-- A step of the engine, with the history beside it. -/
def placingStep (p : OrchestratedEngine μ × Placers) (op : Op) : OrchestratedEngine μ × Placers :=
  (step source rng baseSeed p.1 op,
    match op with
    | .command (.placeOrder session req) =>
      if Taken p.1 session req then Function.update p.2 req.orderId (some (session, req.contract))
      else p.2
    | _ => p.2)

/-- Every accepted order is booked for the session that placed it and for its contract, and no other
    session counts it among its own. -/
structure Attributed (p : OrchestratedEngine μ × Placers) : Prop where
  booked : ∀ orderId session contract, p.2 orderId = some (session, contract) →
    p.1.orderSessions orderId = some session ∧ p.1.orderContracts orderId = some contract
  apart : ∀ orderId session contract, p.2 orderId = some (session, contract) →
    ∀ other, p.1.Owns other orderId → other = session

/-- A request that is taken carries an id which no other connected session has been given; one that
    the simulator refuses does not carry the id of an accepted order, unless it repeats its session
    and its contract. -/
def KeepsPlacer (p : OrchestratedEngine μ × Placers) : Op → Prop
  | .command (.placeOrder session req) =>
    (Taken p.1 session req = true → ∀ other, p.1.Owns other req.orderId → other = session) ∧
    (¬ p.1.Objects session → Rejects (place req p.1.now p.1.orders).1 →
      ∀ placer, p.2 req.orderId = some placer → placer = (session, req.contract))
  | _ => True

theorem taken_iff {s : OrchestratedEngine μ} {session : SessionId} {req : PlaceOrderReq} :
    Taken s session req = true ↔ ¬ s.Refused session req := by
  unfold Taken Refused Objects
  rw [rejects_place_iff, not_or]
  cases (s.quirks.check s.now session none .orderPlace).1 <;> cases refusal req s.orders <;> simp

/-- Who owns an order after a request to which the guard has no objection. -/
theorem owns_onPlaceOrder {s : OrchestratedEngine μ} {session : SessionId} {req : PlaceOrderReq}
    (h : ¬ s.Objects session) {other : SessionId} {orderId : OrderId} :
    (s.onPlaceOrder session req).Owns other orderId ↔
      s.Owns other orderId ∨
        other = session ∧ orderId = req.orderId ∧ (s.owned session).isSome = true := by
  obtain ⟨quirks, events, heq⟩ := onPlaceOrder_spec req h
  have howned := owned_registered s session req.orderId other
  unfold Owns
  rw [heq]
  change (∃ ids, ((s.registered session req.orderId).get? other).map SessionState.ownedOrders =
    some ids ∧ _) ↔ _
  rw [howned]
  by_cases hother : other = session
  · subst hother
    cases ho : s.owned other with
    | none => simp
    | some ids => simp [or_comm]
  · simp [hother]

theorem Attributed.keeps {p p' : OrchestratedEngine μ × Placers} (h : Attributed p)
    (hkeeps : Keeps p.1 p'.1) (hplacers : p'.2 = p.2) : Attributed p' := by
  constructor
  · intro orderId session contract hplacer
    rw [hkeeps.orderSessions, hkeeps.orderContracts]
    exact h.booked orderId session contract (hplacers ▸ hplacer)
  · intro orderId session contract hplacer other ho
    exact h.apart orderId session contract (hplacers ▸ hplacer) other (hkeeps.owns other orderId ho)

/-- An order request that the simulator refuses. -/
theorem attributed_of_rejects {p p' : OrchestratedEngine μ × Placers} {session : SessionId}
    {req : PlaceOrderReq} (h : Attributed p) (hguard : ¬ p.1.Objects session)
    (hstep : p'.1 = p.1.onPlaceOrder session req) (hplacers : p'.2 = p.2) :
    Attributed p' ↔ ∀ placer, p.2 req.orderId = some placer → placer = (session, req.contract) := by
  obtain ⟨quirks, events, heq⟩ := onPlaceOrder_spec req hguard
  constructor
  · rintro h' ⟨session', contract'⟩ hplacer
    obtain ⟨hs, hc⟩ := h'.booked req.orderId session' contract' (hplacers ▸ hplacer)
    rw [hstep, heq] at hs hc
    simp only [Function.update_self, Option.some_inj] at hs hc
    rw [hs, hc]
  · intro hsame
    constructor
    · intro orderId session' contract' hplacer
      rw [hplacers] at hplacer
      rw [hstep, heq]
      by_cases hid : orderId = req.orderId
      · subst hid
        obtain ⟨rfl, rfl⟩ := Prod.mk.inj (hsame _ hplacer)
        simp
      · simpa [hid] using h.booked orderId session' contract' hplacer
    · intro orderId session' contract' hplacer other ho
      rw [hplacers] at hplacer
      rw [hstep, owns_onPlaceOrder hguard] at ho
      rcases ho with ho | ⟨rfl, rfl, _⟩
      · exact h.apart orderId session' contract' hplacer other ho
      · exact (congrArg Prod.fst (hsame _ hplacer)).symm

/-- An order request that is taken. -/
theorem attributed_of_taken {p p' : OrchestratedEngine μ × Placers} {session : SessionId}
    {req : PlaceOrderReq} (h : Attributed p) (hguard : ¬ p.1.Objects session)
    (hstep : p'.1 = p.1.onPlaceOrder session req)
    (hplacers : p'.2 = Function.update p.2 req.orderId (some (session, req.contract))) :
    Attributed p' ↔ ∀ other, p.1.Owns other req.orderId → other = session := by
  obtain ⟨quirks, events, heq⟩ := onPlaceOrder_spec req hguard
  constructor
  · intro h' other ho
    refine h'.apart req.orderId session req.contract (by simp [hplacers]) other ?_
    rw [hstep, owns_onPlaceOrder hguard]
    exact Or.inl ho
  · intro hsame
    constructor
    · intro orderId session' contract' hplacer
      rw [hplacers] at hplacer
      rw [hstep, heq]
      by_cases hid : orderId = req.orderId
      · subst hid
        rw [Function.update_self] at hplacer
        obtain ⟨rfl, rfl⟩ := Prod.mk.inj (Option.some.inj hplacer)
        simp
      · rw [Function.update_of_ne hid] at hplacer
        simpa [hid] using h.booked orderId session' contract' hplacer
    · intro orderId session' contract' hplacer other ho
      rw [hplacers] at hplacer
      rw [hstep, owns_onPlaceOrder hguard] at ho
      by_cases hid : orderId = req.orderId
      · subst hid
        rw [Function.update_self] at hplacer
        obtain ⟨rfl, rfl⟩ := Prod.mk.inj (Option.some.inj hplacer)
        rcases ho with ho | ⟨rfl, _⟩
        · exact hsame other ho
        · rfl
      · rw [Function.update_of_ne hid] at hplacer
        rcases ho with ho | ⟨_, hid', _⟩
        · exact h.apart orderId session' contract' hplacer other ho
        · exact absurd hid' hid

theorem attributed_step (p : OrchestratedEngine μ × Placers) (op : Op) (h : Attributed p) :
    Attributed (placingStep source rng baseSeed p op) ↔ KeepsPlacer p op := by
  by_cases hop : ∃ session req, op = .command (.placeOrder session req)
  · obtain ⟨session, req, rfl⟩ := hop
    by_cases hguard : p.1.Objects session
    · -- The guard refuses, and nothing is booked.
      have htaken : ¬ Taken p.1 session req = true := fun ht => taken_iff.mp ht (Or.inl hguard)
      refine ⟨fun _ => ⟨fun ht => absurd ht htaken, fun hg => absurd hguard hg⟩, fun _ => ?_⟩
      refine h.keeps ?_ (if_neg htaken)
      have hunchanged : Unchanged session p.1 (p.1.onPlaceOrder session req) :=
        (unchanged_iff_harmless (Or.inl hguard)).mpr (Or.inl hguard)
      exact hunchanged.keeps
    · by_cases hrej : Rejects (place req p.1.now p.1.orders).1
      · have htaken : ¬ Taken p.1 session req = true := fun ht => taken_iff.mp ht (Or.inr hrej)
        rw [attributed_of_rejects h hguard rfl (if_neg htaken)]
        exact ⟨fun hp => ⟨fun ht => absurd ht htaken, fun _ _ => hp⟩, fun hp => hp.2 hguard hrej⟩
      · have htaken : Taken p.1 session req = true := taken_iff.mpr (not_or.mpr ⟨hguard, hrej⟩)
        rw [attributed_of_taken h hguard rfl (if_pos htaken)]
        exact ⟨fun hp => ⟨fun _ => hp, fun _ hr => absurd hr hrej⟩, fun hp => hp.1 htaken⟩
  · have hkeeps : KeepsPlacer p op := by
      unfold KeepsPlacer
      split
      · exact absurd ⟨_, _, rfl⟩ hop
      · trivial
    refine ⟨fun _ => hkeeps, fun _ => ?_⟩
    refine h.keeps (keeps_step source rng baseSeed p.1 op fun session req heq =>
      hop ⟨session, req, heq⟩) ?_
    unfold placingStep
    dsimp only
    split
    · exact absurd ⟨_, _, rfl⟩ hop
    · rfl

/-- A refused order request changes nothing exactly where the guard refuses it or it is booked for
    its session and its contract already; a refused cancel changes nothing. And in every run, each
    accepted order stays booked for the session that placed it exactly when every order request
    keeps off the ids of accepted orders that it does not repeat, and off those that a refused
    request gave to another session. -/
theorem refusals_harmless_iff (cfg : QuirksConfig) (marketData : μ) :
    (∀ s session req, Refused s session req →
      (Unchanged session s (step source rng baseSeed s (.command (.placeOrder session req))) ↔
        s.Harmless session req)) ∧
    (∀ s session orderId, Rejects (cancel orderId s.orders).1 →
      Unchanged session s (step source rng baseSeed s (.command (.cancelOrder session orderId)))) ∧
    ∀ ops,
      AllStates (placingStep source rng baseSeed) Attributed (build cfg marketData, fun _ => none)
        ops ↔
      AllSteps (placingStep source rng baseSeed) KeepsPlacer (build cfg marketData, fun _ => none)
        ops := by
  refine ⟨fun s session req => unchanged_iff_harmless, fun s session orderId =>
    unchanged_onCancelOrder session, fun ops => ?_⟩
  refine allStates_iff_allSteps (I := fun _ => True) _ (fun _ _ _ => trivial)
    (fun p op _ h => attributed_step source rng baseSeed p op h) trivial ⟨?_, ?_⟩ ops
  · exact fun _ _ _ hnone => absurd hnone.symm (Option.some_ne_none _)
  · exact fun _ _ _ hnone => absurd hnone.symm (Option.some_ne_none _)

/-- A duplicate of another session's order is refused, and takes the order over. -/
theorem duplicate_takes_over :
    ¬ ∀ (μ : Type) (source : MarketDataEngine μ) (rng : Rng) (baseSeed : UInt64) (cfg : QuirksConfig)
      (marketData : μ) (ops : List Op) (session : SessionId) (req : PlaceOrderReq),
        Refused (run (step source rng baseSeed) (build cfg marketData) ops) session req →
          Unchanged session (run (step source rng baseSeed) (build cfg marketData) ops)
            (run (step source rng baseSeed) (build cfg marketData)
              (ops ++ [.command (.placeOrder session req)])) := by
  intro h
  let req (symbol : String) : PlaceOrderReq :=
    { orderId := 1, contract := .stock symbol "SMART" "USD", side := .buy, totalQuantity := 100
      kind := .market, limitPrice := none, auxPrice := none, tif := "DAY", account := "U0000001"
      parentId := none, ocaGroup := none, transmit := true }
  have hkept := h Unit silentSource ⟨fun _ _ => 0, fun _ _ => 0⟩ 0 {} ()
    [.command (.startApi 1 0), .command (.startApi 2 0), .command (.placeOrder 1 (req "AAPL"))] 2
    (req "MSFT") (Or.inr (rejects_place_iff.mpr ⟨(duplicateOrderId, "Duplicate order id"), by
      decide +kernel⟩))
  have howner := congrFun hkept.orderSessions 1
  revert howner
  decide +kernel

end Midas.IbSim.Engine
