import HandOfMidas.Engine.Orchestrator
import HandOfMidas.Lib.Run

/-! The way of market data from the source to the order simulator. The source knows a subscription
    by a key made of the contract's symbol, the order simulator by a key made of the whole contract,
    and the engine translates by a table that has one entry for each hash of a symbol. So a live
    subscription sees its own contract as long as no other live one fights for that entry. -/

namespace Midas.IbSim.Engine

open Quirks

/-- The key under which the source knows a subscription. -/
def SubEntry.subKey (e : SubEntry) : SubKey := ⟨e.session, e.reqId, e.symbol⟩

/-- The entry of the translation table that a contract uses. -/
def routeOf (contract : ContractSpec) : Int32 := (marketDataSymbolKey contract).contractId

/-- The snapshot carries what the source publishes for `key`, at the emitted price. -/
structure Carries {μ : Type*} (source : MarketDataEngine μ) (marketData : μ) (key : SymbolKey)
    (price : ℚ) (snap : MarketSnapshot) : Prop where
  last : snap.last = price
  bid : snap.bid = ((source.snapshot key marketData).map Snapshot.bid).getD (price - 1 / 100)
  ask : snap.ask = ((source.snapshot key marketData).map Snapshot.ask).getD (price + 1 / 100)
  volume : snap.volume = (source.snapshot key marketData).bind Snapshot.volume

namespace OrchestratedEngine

variable {μ : Type*} (source : MarketDataEngine μ)

/-- Whatever the source publishes, and whatever state it is in when it does: an emission for a live
    subscription reaches the order simulator under the key of that very contract with its own data,
    and no emission for another symbol reaches it under that key. -/
structure SeesOwn (s : OrchestratedEngine μ) : Prop where
  own : ∀ e ∈ s.subscriptions.items, ∀ marketData em price, priced em = some (e.subKey, price) →
    ∃ snap, projectSnapshot source { s with marketData := marketData } em = some snap ∧
      snap.symbol = symbolKeyFor e.contract ∧
      Carries source marketData (marketDataSymbolKey e.contract) price snap
  foreign : ∀ e ∈ s.subscriptions.items, ∀ e' ∈ s.subscriptions.items, ∀ marketData em price snap,
    priced em = some (e'.subKey, price) →
    projectSnapshot source { s with marketData := marketData } em = some snap →
    snap.symbol = symbolKeyFor e.contract → e'.symbol = marketDataSymbolKey e.contract

/-- A live subscription has the key of its contract at the source. -/
def Keyed (s : OrchestratedEngine μ) : Prop :=
  ∀ e ∈ s.subscriptions.items, e.symbol = marketDataSymbolKey e.contract

/-- The table entry of every live subscription has the key of its contract. -/
def Routed (s : OrchestratedEngine μ) : Prop :=
  ∀ e ∈ s.subscriptions.items,
    (s.contractToSym (routeOf e.contract)).getD (marketDataSymbolKey e.contract) =
      symbolKeyFor e.contract

variable {source}

/-- Contracts with one key at the order simulator have one key at the source. -/
theorem marketDataSymbolKey_of_symbolKeyFor {c c' : ContractSpec}
    (h : symbolKeyFor c = symbolKeyFor c') : marketDataSymbolKey c = marketDataSymbolKey c' := by
  have hsymbol : c.symbol = c'.symbol := congrArg SymbolKey.symbol h
  unfold marketDataSymbolKey
  rw [hsymbol]

theorem seesOwn_iff {s : OrchestratedEngine μ} (h : s.Keyed) : s.SeesOwn source ↔ s.Routed := by
  constructor
  · intro hown e he
    obtain ⟨snap, hsnap, hsymbol, _⟩ := hown.own e he s.marketData
      (.tickPrice e.subKey .last 0) 0 rfl
    obtain rfl := Option.some.inj hsnap
    have : ((s.contractToSym e.symbol.contractId).getD e.symbol) = symbolKeyFor e.contract := hsymbol
    rwa [h e he] at this
  · intro hrouted
    have hproject : ∀ e ∈ s.subscriptions.items, ∀ marketData em price,
        priced em = some (e.subKey, price) → ∃ snap,
          projectSnapshot source { s with marketData := marketData } em = some snap ∧
          snap.symbol = symbolKeyFor e.contract ∧
          Carries source marketData (marketDataSymbolKey e.contract) price snap := by
      intro e he marketData em price hem
      unfold projectSnapshot
      rw [hem]
      refine ⟨_, rfl, ?_, ?_⟩
      · have := hrouted e he
        rwa [routeOf, ← h e he] at this
      · rw [← h e he]
        exact ⟨rfl, rfl, rfl, rfl⟩
    refine ⟨hproject, fun e _ e' he' marketData em price snap hem hsnap hsymbol => ?_⟩
    obtain ⟨snap', hsnap', hsymbol', _⟩ := hproject e' he' marketData em price hem
    obtain rfl := Option.some.inj (hsnap.symm.trans hsnap')
    rw [h e' he']
    exact marketDataSymbolKey_of_symbolKeyFor (hsymbol'.symm.trans hsymbol)

/-! ### What the handlers do to the table -/

/-- The subscriptions and the translation table. -/
def routes (s : OrchestratedEngine μ) : Store SubEntry.key × (Int32 → Option SymbolKey) :=
  (s.subscriptions, s.contractToSym)

@[simp] theorem routes_emitEvent (s : OrchestratedEngine μ) (e : EngineEvent) :
    (s.emitEvent e).routes = s.routes := rfl

theorem routes_foldl {ι : Type*} (f : OrchestratedEngine μ → ι → OrchestratedEngine μ)
    (hf : ∀ s i, (f s i).routes = s.routes) (items : List ι) (s : OrchestratedEngine μ) :
    (items.foldl f s).routes = s.routes := by
  induction items generalizing s with
  | nil => rfl
  | cons i items ih => rw [List.foldl_cons, ih, hf]

theorem routes_records (s : OrchestratedEngine μ) (out : List OrderEmission) :
    (out.foldl recordOrderEmission s).routes = s.routes :=
  routes_foldl _ (fun s e => by unfold recordOrderEmission; split <;> rfl) out s

theorem routes_withOrders (s : OrchestratedEngine μ) (f : Sim → Emits) :
    (s.withOrders f).routes = s.routes :=
  routes_records _ _

theorem routes_handleViolation (s : OrchestratedEngine μ) (session : SessionId) (v : QuirkViolation) :
    (s.handleViolation session v).routes = s.routes := by
  unfold handleViolation
  cases v with
  | rateLimit code msg action =>
    dsimp only
    split <;> rfl
  | _ => rfl

theorem routes_guarded (s : OrchestratedEngine μ) (session : SessionId) (reqId : Option ReqId)
    (kind : QuirkCheckKind) (go : OrchestratedEngine μ → OrchestratedEngine μ) :
    (guarded session reqId kind go s).routes =
      if (s.quirks.check s.now session reqId kind).1.isSome then s.routes
      else (go { s with quirks := (s.quirks.check s.now session reqId kind).2 }).routes := by
  unfold guarded
  cases hv : (s.quirks.check s.now session reqId kind).1 with
  | none => simp [hv]
  | some v =>
    simp only [hv, Option.isSome_some, if_true]
    exact routes_handleViolation _ _ _

variable (source) in
theorem routes_driveMarketData (s : OrchestratedEngine μ) (rng : Rng) (baseSeed : UInt64) :
    (s.driveMarketData source rng baseSeed).routes = s.routes := by
  have hdeliver : ∀ (s : OrchestratedEngine μ) em,
      (s.deliver source rng baseSeed em).routes = s.routes := by
    intro s em
    unfold deliver
    cases s.projectSnapshot source em with
    | none => rfl
    | some snap => exact routes_withOrders s _
  unfold driveMarketData
  rw [routes_withOrders, routes_foldl _ hdeliver]
  rfl

theorem routes_onInjectDailyRestart (s : OrchestratedEngine μ) :
    s.onInjectDailyRestart.routes = s.routes :=
  routes_foldl restartSession (fun _ _ => rfl) s.sessionIds s

/-- The engine takes a subscription: it is not a duplicate, the guard has no objection, and the
    source accepts it. -/
def Accepts (source : MarketDataEngine μ) (s : OrchestratedEngine μ) (session : SessionId)
    (reqId : ReqId) (contract : ContractSpec) (mode : SubMode) : Prop :=
  s.subscriptions.get? (session, reqId) = none ∧
    (s.quirks.check s.now session (some reqId) (mode.checkKind (marketDataSymbolKey contract))).1 =
      none ∧
    (source.subscribe ⟨session, reqId, marketDataSymbolKey contract⟩ mode s.marketData).1 = none

variable (source) in
/-- An accepted subscription enters itself and overwrites its table entry; another changes nothing. -/
theorem routes_subscribe (s : OrchestratedEngine μ) (session : SessionId) (reqId : ReqId)
    (contract : ContractSpec) (mode : SubMode) :
    (Accepts source s session reqId contract mode →
      (s.onSubscribeMarketData source session reqId contract mode).routes =
        (s.subscriptions.put ⟨session, reqId, marketDataSymbolKey contract, contract, mode⟩,
          Function.update s.contractToSym (routeOf contract) (some (symbolKeyFor contract)))) ∧
    (¬ Accepts source s session reqId contract mode →
      (s.onSubscribeMarketData source session reqId contract mode).routes = s.routes) := by
  unfold onSubscribeMarketData Accepts
  cases hdup : s.subscriptions.get? (session, reqId) with
  | some e =>
    simp only [Option.isSome_some, if_true]
    exact ⟨fun h => (Option.some_ne_none e h.1).elim, fun _ => routes_handleViolation _ _ _⟩
  | none =>
    simp only [Option.isSome_none, Bool.false_eq_true, if_false]
    rw [routes_guarded]
    cases hcheck : (s.quirks.check s.now session (some reqId)
        (mode.checkKind (marketDataSymbolKey contract))).1 with
    | some v => exact ⟨fun h => (Option.some_ne_none v h.2.1).elim, fun _ => rfl⟩
    | none =>
      simp only [Option.isSome_none, Bool.false_eq_true, if_false, openSubscription]
      cases hsource : (source.subscribe ⟨session, reqId, marketDataSymbolKey contract⟩ mode
          s.marketData).1 with
      | some error =>
        exact ⟨fun h => (Option.some_ne_none error h.2.2).elim, fun _ => routes_handleViolation _ _ _⟩
      | none => exact ⟨fun _ => rfl, fun h => (h (by simp)).elim⟩

theorem routes_unsubscribe (s : OrchestratedEngine μ) (session : SessionId) (reqId : ReqId) :
    (s.onUnsubscribeMarketData source session reqId).contractToSym = s.contractToSym ∧
      ∀ e ∈ (s.onUnsubscribeMarketData source session reqId).subscriptions.items,
        e ∈ s.subscriptions.items := by
  unfold onUnsubscribeMarketData
  cases hget : s.subscriptions.get? (session, reqId) with
  | none => exact ⟨rfl, fun e he => he⟩
  | some entry => exact ⟨rfl, fun e he => (Store.mem_erase.mp he).1⟩

variable (source) in
/-- A step that is no subscription request and no unsubscription leaves subscriptions and table as
    they are. -/
theorem routes_step (rng : Rng) (baseSeed : UInt64) (s : OrchestratedEngine μ) (op : Op)
    (hsub : ∀ session reqId contract mode,
      op ≠ .command (.subscribeMarketData session reqId contract mode))
    (hunsub : ∀ session reqId, op ≠ .command (.unsubscribeMarketData session reqId)) :
    (step source rng baseSeed s op).routes = s.routes := by
  cases op with
  | command cmd =>
    cases cmd with
    | placeOrder session req =>
      refine (routes_guarded s session none .orderPlace _).trans ?_
      split
      · rfl
      · rw [routes_emitEvent, routes_records]
        rfl
    | cancelOrder session orderId => exact routes_withOrders s _
    | subscribeMarketData session reqId contract mode => exact absurd rfl (hsub _ _ _ _)
    | unsubscribeMarketData session reqId => exact absurd rfl (hunsub _ _)
    | reqHistoricalData session reqId req =>
      refine (routes_guarded s session (some reqId) (.historicalRequest req) id).trans ?_
      split <;> rfl
    | injectPacingViolation session => exact routes_handleViolation s session _
    | injectDailyRestart => exact routes_onInjectDailyRestart s
    | _ => rfl
  | scheduled action =>
    cases action with
    | emitFarmStatus code farm => rfl
    | emitDailyRestart => exact routes_onInjectDailyRestart s
  | driveMarketData => exact routes_driveMarketData source s rng baseSeed
  | advance t => rfl

/-! ### Steps and runs -/

/-- A subscription that the engine takes does not overwrite the table entry of a live subscription
    with another key. -/
def RoutesApart (source : MarketDataEngine μ) (s : OrchestratedEngine μ) : Op → Prop
  | .command (.subscribeMarketData session reqId contract mode) =>
    Accepts source s session reqId contract mode →
      ∀ e ∈ s.subscriptions.items, routeOf e.contract = routeOf contract →
        symbolKeyFor e.contract = symbolKeyFor contract
  | _ => True

/-- What a step does to the subscriptions, and whether it keeps them routed. -/
theorem routed_step (rng : Rng) (baseSeed : UInt64) (s : OrchestratedEngine μ) (op : Op)
    (hkeyed : s.Keyed) : (step source rng baseSeed s op).Keyed ∧
      (s.Routed → ((step source rng baseSeed s op).Routed ↔ s.RoutesApart source op)) := by
  by_cases hsub : ∃ session reqId contract mode,
      op = .command (.subscribeMarketData session reqId contract mode)
  · obtain ⟨session, reqId, contract, mode, rfl⟩ := hsub
    obtain ⟨haccept, hrefuse⟩ := routes_subscribe source s session reqId contract mode
    by_cases hacc : Accepts source s session reqId contract mode
    · obtain ⟨hsubs, htable⟩ := Prod.mk.inj (haccept hacc)
      replace htable : (step source rng baseSeed s
        (.command (.subscribeMarketData session reqId contract mode))).contractToSym = _ := htable
      have hnew : s.subscriptions.get? (session, reqId) = none := hacc.1
      have hmem : ∀ e,
        e ∈ (s.onSubscribeMarketData source session reqId contract mode).subscriptions.items ↔
          e = ⟨session, reqId, marketDataSymbolKey contract, contract, mode⟩ ∨
            e ∈ s.subscriptions.items := by
        intro e
        rw [hsubs, Store.mem_put]
        refine or_congr_right ⟨And.left, fun he => ⟨he, fun hkey => ?_⟩⟩
        have := Store.get?_of_mem he
        rw [hkey] at this
        exact (Option.some_ne_none e (this.symm.trans hnew)).elim
      refine ⟨fun e he => ?_, fun hrouted => ⟨fun h _ e he hroute => ?_, fun hapart e he => ?_⟩⟩
      · rcases (hmem e).mp he with rfl | he
        · rfl
        · exact hkeyed e he
      · have := h e ((hmem e).mpr (Or.inr he))
        rw [htable, hroute, Function.update_self] at this
        exact this.symm
      · rw [htable]
        rcases (hmem e).mp he with rfl | he
        · simp
        · by_cases hroute : routeOf e.contract = routeOf contract
          · rw [hroute, Function.update_self]
            exact (hapart hacc e he hroute).symm
          · rw [Function.update_of_ne hroute]
            exact hrouted e he
    · obtain ⟨hsubs, htable⟩ := Prod.mk.inj (hrefuse hacc)
      replace htable : (step source rng baseSeed s
        (.command (.subscribeMarketData session reqId contract mode))).contractToSym = _ := htable
      refine ⟨fun e he => hkeyed e (hsubs ▸ he),
        fun hrouted => ⟨fun _ h => absurd h hacc, fun _ e he => ?_⟩⟩
      rw [htable]
      exact hrouted e (hsubs ▸ he)
  have hapart : s.RoutesApart source op ↔ True := by
    refine ⟨fun _ => trivial, fun _ => ?_⟩
    unfold RoutesApart
    split
    · exact absurd ⟨_, _, _, _, rfl⟩ hsub
    · trivial
  have hkept : (step source rng baseSeed s op).contractToSym = s.contractToSym ∧
      ∀ e ∈ (step source rng baseSeed s op).subscriptions.items, e ∈ s.subscriptions.items := by
    by_cases hunsub : ∃ session reqId, op = .command (.unsubscribeMarketData session reqId)
    · obtain ⟨session, reqId, rfl⟩ := hunsub
      exact routes_unsubscribe s session reqId
    · obtain ⟨hsubs, htable⟩ := Prod.mk.inj (routes_step source rng baseSeed s op
        (fun session reqId contract mode h => hsub ⟨session, reqId, contract, mode, h⟩)
        (fun session reqId h => hunsub ⟨session, reqId, h⟩))
      exact ⟨htable, fun e he => hsubs ▸ he⟩
  refine ⟨fun e he => hkeyed e (hkept.2 e he),
    fun hrouted => ⟨fun _ => hapart.mpr trivial, fun _ e he => ?_⟩⟩
  rw [hkept.1]
  exact hrouted e (hkept.2 e he)

end OrchestratedEngine

open OrchestratedEngine in
/-- In every run of the engine, each live subscription sees its own contract in every state reached
    exactly when no subscription taken overwrites the table entry of a live one. -/
theorem sees_own_iff {μ : Type*} (source : MarketDataEngine μ) (rng : Rng) (baseSeed : UInt64)
    (cfg : QuirksConfig) (marketData : μ) (ops : List Op) :
    AllStates (step source rng baseSeed) (SeesOwn source) (build cfg marketData) ops ↔
      AllSteps (step source rng baseSeed) (RoutesApart source) (build cfg marketData) ops := by
  have hnone : ∀ e, e ∉ (build cfg marketData).subscriptions.items := fun e => List.not_mem_nil
  refine allStates_iff_allSteps (I := Keyed) _ (fun s op h => (routed_step rng baseSeed s op h).1)
    (fun s op h hown => ?_) (fun e he => absurd he (hnone e))
    ((seesOwn_iff fun e he => absurd he (hnone e)).mpr fun e he => absurd he (hnone e)) ops
  rw [seesOwn_iff (routed_step rng baseSeed s op h).1]
  exact (routed_step rng baseSeed s op h).2 ((seesOwn_iff h).mp hown)

/-- The hashes of two symbols may be alike: the data of the one then goes under the key of the
    other. -/
theorem alike_symbols_share_route :
    ¬ ∀ (μ : Type) (source : MarketDataEngine μ) (rng : Rng) (baseSeed : UInt64) (cfg : QuirksConfig)
      (marketData : μ) (ops : List Op),
        AllStates (step source rng baseSeed) (OrchestratedEngine.SeesOwn source)
          (OrchestratedEngine.build cfg marketData) ops := by
  intro h
  let az : ContractSpec := .stock "Az" "SMART" "USD"
  let byx : ContractSpec := .stock "BY" "SMART" "USD"
  have hrun := (h Unit silentSource ⟨fun _ _ => 0, fun _ _ => 0⟩ 0 {} ()
    [.command (.startApi 1 0),
     .command (.subscribeMarketData 1 7 az (.streamingL1 false false)),
     .command (.subscribeMarketData 1 8 byx (.streamingL1 false false))]).last
  have hforeign := hrun.foreign ⟨1, 8, marketDataSymbolKey byx, byx, .streamingL1 false false⟩
    (by decide +kernel) ⟨1, 7, marketDataSymbolKey az, az, .streamingL1 false false⟩
    (by decide +kernel) () (.tickPrice ⟨1, 7, marketDataSymbolKey az⟩ .last 10) 10 _ rfl rfl
    (by decide +kernel)
  revert hforeign
  decide +kernel

end Midas.IbSim.Engine
