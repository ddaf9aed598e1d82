import HandOfMidas.Engine.Lines
import HandOfMidas.Lib.Run

/-! Subscription resources over whole runs of the engine. What a handler does to the sessions, the
    subscriptions and the lines is one of the changes of `Lines`, so the lines are conserved exactly
    along the runs in which no step leaks or strands one. -/

namespace Midas.IbSim.Engine

open Quirks

/-- The lines that the guard has reserved. -/
def reservedBy (g : CompositeQuirkGuard) : LineKind → SessionId → Finset ReqId
  | .l1 => g.lineLimit.streamingLines
  | .tbt => g.tickByTick.lines

namespace OrchestratedEngine

variable {μ : Type*} (s : OrchestratedEngine μ)

/-- The sessions, subscriptions and lines of the engine. -/
def view : Lines where
  connected session := (s.sessions.get? session).isSome
  live := s.subscriptions
  reserved := reservedBy s.quirks

/-- The live subscriptions of a session that take a line of kind `k`. -/
def liveCount (k : LineKind) (session : SessionId) : ℕ :=
  s.subscriptions.items.countP fun e => e.session = session ∧ e.mode.line = some k

/-- Every live subscription belongs to a connected session, and each session holds as many lines as
    it has live subscriptions that take one. -/
def LinesConserved : Prop :=
  (∀ e ∈ s.subscriptions.items, (s.sessions.get? e.session).isSome = true) ∧
    ∀ session, s.quirks.lineLimit.activeLines session = s.liveCount .l1 session ∧
      s.quirks.tickByTick.activeCount session = s.liveCount .tbt session

theorem linesConserved_iff : s.LinesConserved ↔ s.view.Conserved := by
  have hlive : ∀ k session, (s.view.liveOf k session).length = s.liveCount k session :=
    fun k session => (List.countP_eq_length_filter).symm
  constructor
  · rintro ⟨hconnected, hlines⟩
    refine ⟨hconnected, fun k session => ?_⟩
    rw [hlive]
    cases k with
    | l1 => exact (hlines session).1
    | tbt => exact (TickByTickLimiter.card_lines _ _).trans (hlines session).2
  · rintro ⟨hconnected, hlines⟩
    refine ⟨hconnected, fun session => ⟨?_, ?_⟩⟩
    · rw [← hlive]; exact hlines .l1 session
    · rw [← hlive, ← TickByTickLimiter.card_lines]; exact hlines .tbt session

/-! ### What the handlers do to the lines -/

variable {s}

@[simp] theorem view_emitEvent (e : EngineEvent) : (s.emitEvent e).view = s.view := rfl

theorem view_records (out : List OrderEmission) : (out.foldl recordOrderEmission s).view = s.view := by
  induction out generalizing s with
  | nil => rfl
  | cons e out ih =>
    rw [List.foldl_cons, ih]
    unfold recordOrderEmission
    split <;> rfl

@[simp] theorem view_withOrders (f : Sim → Emits) : (s.withOrders f).view = s.view :=
  view_records _

/-- Writing a record back under a connected session's id connects nobody. -/
theorem connected_put {sessions : Store SessionState.id} {owner a : SessionState}
    (h : sessions.get? owner.id = some a) :
    (fun session => ((sessions.put owner).get? session).isSome) =
      fun session => (sessions.get? session).isSome := by
  funext session
  rw [Store.get?_put]
  split
  · rename_i hs; subst hs; simp [h]
  · rfl

theorem view_onStartApi (session : SessionId) (clientId : Int32) :
    (s.onStartApi session clientId).view = s.view.connect session := by
  have hid : ((s.sessions.get? session).getD ⟨session, clientId, s.now, ∅, ∅⟩).id = session := by
    cases hs : s.sessions.get? session with
    | none => rfl
    | some owner => exact Store.key_of_get? hs
  have hconnected : (fun session' => ((s.sessions.put
      { (s.sessions.get? session).getD ⟨session, clientId, s.now, ∅, ∅⟩ with
        clientId := clientId }).get? session').isSome) =
      Function.update (fun session' => (s.sessions.get? session').isSome) session true := by
    funext session'
    rw [Store.get?_put]
    by_cases hs : session' = session <;> simp [hid, hs]
  exact congrArg (Lines.mk · s.subscriptions (reservedBy s.quirks)) hconnected

theorem reservedBy_forgetSession (g : CompositeQuirkGuard) (session : SessionId) :
    reservedBy (g.forgetSession session) =
      fun k => Function.update (reservedBy g k) session ∅ := by
  funext k session'
  cases k with
  | l1 => rfl
  | tbt =>
    by_cases hs : session' = session <;>
      simp [reservedBy, CompositeQuirkGuard.forgetSession, TickByTickLimiter.forgetSession,
        TickByTickLimiter.lines, hs]

theorem connected_erase (sessions : Store SessionState.id) (session : SessionId) :
    (fun session' => ((sessions.erase session).get? session').isSome) =
      Function.update (fun session' => (sessions.get? session').isSome) session false := by
  funext session'
  rw [Store.get?_erase]
  by_cases hs : session' = session <;> simp [hs]

theorem view_restartSession (session : SessionId) :
    (s.restartSession session).view = s.view.drop session :=
  congrArg₂ (Lines.mk · s.subscriptions ·) (connected_erase s.sessions session)
    (reservedBy_forgetSession s.quirks session)

theorem view_onInjectDisconnect (session : SessionId) (reason : String) :
    (s.onInjectDisconnect session reason).view = s.view.disconnect session := by
  have hview : (s.onInjectDisconnect session reason).view = Lines.mk
      (fun session' => ((s.sessions.erase session).get? session').isSome) s.subscriptions
      (reservedBy (if (s.sessions.get? session).isSome then s.quirks.forgetSession session
        else s.quirks)) := rfl
  rw [hview, connected_erase]
  by_cases hc : (s.sessions.get? session).isSome = true
  · have hdrop : s.view.disconnect session = s.view.drop session := if_pos hc
    rw [hdrop, if_pos hc, reservedBy_forgetSession]
    rfl
  · have hsame : s.view.disconnect session = s.view := if_neg hc
    have hoff : Function.update (fun session' => (s.sessions.get? session').isSome) session false =
        fun session' => (s.sessions.get? session').isSome := by
      funext session'
      by_cases hs : session' = session
      · subst hs; simpa using hc
      · simp [hs]
    rw [hsame, if_neg hc, hoff]
    rfl

theorem view_onInjectDailyRestart :
    s.onInjectDailyRestart.view = s.sessionIds.foldl Lines.drop s.view := by
  have hfold : ∀ (ids : List SessionId) (s : OrchestratedEngine μ),
      (ids.foldl restartSession s).view = ids.foldl Lines.drop s.view := by
    intro ids
    induction ids with
    | nil => exact fun _ => rfl
    | cons session ids ih =>
      intro s
      rw [List.foldl_cons, List.foldl_cons, ih, view_restartSession]
  exact hfold _ s

/-- Is this the violation that ends the session? -/
def Ends : QuirkViolation → Prop
  | .rateLimit _ _ action => action = .disconnectAfterError
  | _ => False

theorem view_handleViolation {session : SessionId} {v : QuirkViolation} :
    (Ends v → (s.handleViolation session v).view = s.view.disconnect session) ∧
      (¬ Ends v → (s.handleViolation session v).view = s.view) := by
  cases v with
  | rateLimit code msg action =>
    by_cases ha : action = .disconnectAfterError
    · subst ha
      exact ⟨fun _ => view_onInjectDisconnect _ _, fun h => absurd rfl h⟩
    · refine ⟨fun h => absurd h ha, fun _ => ?_⟩
      simp only [handleViolation, if_neg ha]
      rfl
  | _ => exact ⟨False.elim, fun _ => rfl⟩

/-! ### The guard -/

/-- The guard refuses a request by the limit for its kind. -/
def Refuses (s : OrchestratedEngine μ) (session : SessionId) (reqId : Option ReqId)
    (kind : QuirkCheckKind) : Prop :=
  (s.quirks.checkKind s.now session reqId kind).1.isSome

instance (s : OrchestratedEngine μ) (session : SessionId) (reqId : Option ReqId)
    (kind : QuirkCheckKind) : Decidable (s.Refuses session reqId kind) :=
  inferInstanceAs (Decidable (_ = true))

/-- The session has run out of messages. -/
def Exhausted (s : OrchestratedEngine μ) (session : SessionId) : Prop :=
  s.quirks.msgRate.Exhausted s.now session

instance (s : OrchestratedEngine μ) (session : SessionId) : Decidable (s.Exhausted session) :=
  inferInstanceAs (Decidable (MsgRateLimiter.Exhausted _ _ _))

end OrchestratedEngine

theorem reserveL1_spec (l : LineLimiter) (session : SessionId) (r : ReqId) :
    (l.reserveL1 session r).2.streamingLines =
        (if (l.reserveL1 session r).1.isSome then l.streamingLines
        else Function.update l.streamingLines session (insert r (l.streamingLines session))) ∧
      ∀ v ∈ (l.reserveL1 session r).1, ¬ OrchestratedEngine.Ends v := by
  unfold LineLimiter.reserveL1
  by_cases hr : r ∈ l.streamingLines session
  · simp [hr]
  · by_cases hcap : l.maxLinesPerSession ≤ (l.streamingLines session).card
    · simp [hr, hcap, OrchestratedEngine.Ends]
    · simp [hr, hcap]

theorem reserve_spec (l : TickByTickLimiter) (now : VirtualInstant) (session : SessionId) (r : ReqId)
    (symbol : SymbolKey) :
    (l.reserve now session r symbol).2.lines =
        (if (l.reserve now session r symbol).1.isSome then l.lines
        else Function.update l.lines session (insert r (l.lines session))) ∧
      ∀ v ∈ (l.reserve now session r symbol).1, ¬ OrchestratedEngine.Ends v := by
  have hmem : ∀ r, r ∈ l.lines session ↔ ((l.active session).get? r).isSome := by
    intro r
    have hex : r ∈ l.lines session ↔ ∃ x ∈ (l.active session).items, x.1 = r := by
      simp [TickByTickLimiter.lines]
    rw [hex]
    constructor
    · rintro ⟨x, hx, rfl⟩; rw [Store.get?_of_mem hx]; rfl
    · intro hr
      obtain ⟨x, hx⟩ := Option.isSome_iff_exists.mp hr
      exact ⟨x, Store.mem_of_get? hx, Store.key_of_get? hx⟩
  unfold TickByTickLimiter.reserve
  by_cases hr : ((l.active session).get? r).isSome
  · simp [hr, (hmem r).mpr hr]
  · cases hcool : l.cooling now session symbol with
    | some left => simp [hr, OrchestratedEngine.Ends]
    | none =>
      by_cases hcap : l.maxTbt ≤ (l.active session).items.length
      · simp [hr, hcap, OrchestratedEngine.Ends]
      · refine ⟨?_, by simp [hr, hcap]⟩
        simp only [hr, hcap, if_false, Option.isSome_none, Bool.false_eq_true]
        funext session'
        by_cases hs : session' = session
        · subst hs
          ext r'
          have hin : ∀ x, x ∈ ((l.active session').put (r, symbol)).items ↔
              x = (r, symbol) ∨ x ∈ (l.active session').items ∧ x.1 ≠ r := fun x => Store.mem_put
          simp only [TickByTickLimiter.lines, Function.update_self, Finset.mem_mk,
            Multiset.mem_coe, List.mem_map, hin, Finset.mem_insert]
          constructor
          · rintro ⟨x, rfl | ⟨hx, _⟩, rfl⟩
            · exact Or.inl rfl
            · exact Or.inr ⟨x, hx, rfl⟩
          · rintro (rfl | ⟨x, hx, rfl⟩)
            · exact ⟨_, Or.inl rfl, rfl⟩
            · by_cases hxr : x.1 = r
              · exact ⟨(r, symbol), Or.inl rfl, hxr.symm⟩
              · exact ⟨x, Or.inr ⟨hx, hxr⟩, rfl⟩
        · simp [TickByTickLimiter.lines, hs]

theorem historical_check_ends (p : HistoricalPacing) (now : VirtualInstant) (session : SessionId)
    (req : HistoricalReq) : ∀ v ∈ (p.check now session req).1, ¬ OrchestratedEngine.Ends v := by
  have hobj : ∀ state, ∀ v ∈ p.objection now req state, ¬ OrchestratedEngine.Ends v := by
    intro state v hv
    unfold HistoricalPacing.objection at hv
    dsimp only at hv
    split_ifs at hv
    · cases hv; exact not_false
    · cases hv; exact not_false
    · split at hv
      · split_ifs at hv
        · cases hv; exact not_false
        · cases hv
      · cases hv
  unfold HistoricalPacing.check
  dsimp only
  split
  · rename_i v hv
    rintro _ ⟨⟩
    exact hobj _ v hv
  · nofun

/-- The limits for the kinds of requests never end a session, and take no line when they object. -/
theorem checkKind_objects (g : CompositeQuirkGuard) (now : VirtualInstant) (session : SessionId)
    (reqId : Option ReqId) (kind : QuirkCheckKind) :
    (∀ v ∈ (g.checkKind now session reqId kind).1, ¬ OrchestratedEngine.Ends v) ∧
      ((g.checkKind now session reqId kind).1.isSome →
        reservedBy (g.checkKind now session reqId kind).2 = reservedBy g) := by
  cases kind with
  | msgRate | orderPlace | l1Unsubscribe => exact ⟨nofun, nofun⟩
  | historicalRequest req => exact ⟨historical_check_ends _ _ _ _, fun _ => rfl⟩
  | l1Subscribe symbol =>
    have hspec := reserveL1_spec g.lineLimit session (reqId.getD 0)
    refine ⟨hspec.2, fun hv => funext fun k => ?_⟩
    replace hv : (g.lineLimit.reserveL1 session (reqId.getD 0)).1.isSome := hv
    rw [if_pos hv] at hspec
    cases k with
    | l1 => exact hspec.1
    | tbt => rfl
  | tickByTickSubscribe symbol =>
    have hspec := reserve_spec g.tickByTick now session (reqId.getD 0) symbol
    refine ⟨hspec.2, fun hv => funext fun k => ?_⟩
    replace hv : (g.tickByTick.reserve now session (reqId.getD 0) symbol).1.isSome := hv
    rw [if_pos hv] at hspec
    cases k with
    | l1 => rfl
    | tbt => exact hspec.1

/-- A subscription that the limit for its kind admits takes its line. -/
theorem checkKind_spec (g : CompositeQuirkGuard) (now : VirtualInstant) (session : SessionId)
    (r : ReqId) (symbol : SymbolKey) (mode : SubMode) :
    ((g.checkKind now session (some r) (mode.checkKind symbol)).1 = none →
      ∀ k, reservedBy (g.checkKind now session (some r) (mode.checkKind symbol)).2 k =
        if mode.line = some k
          then Function.update (reservedBy g k) session (insert r (reservedBy g k session))
        else reservedBy g k) := by
  have hl1 := (reserveL1_spec g.lineLimit session r).1
  have htbt := (reserve_spec g.tickByTick now session r symbol).1
  cases mode with
  | streamingL1 snapshot regulatory =>
    intro hok k
    replace hok : (g.lineLimit.reserveL1 session r).1 = none := hok
    cases k with
    | l1 => rw [hok] at hl1; exact hl1
    | tbt => rfl
  | realtimeBars5s =>
    intro hok k
    replace hok : (g.lineLimit.reserveL1 session r).1 = none := hok
    cases k with
    | l1 => rw [hok] at hl1; exact hl1
    | tbt => rfl
  | tickByTick kind =>
    intro hok k
    replace hok : (g.tickByTick.reserve now session r symbol).1 = none := hok
    cases k with
    | l1 => rfl
    | tbt => rw [hok] at htbt; exact htbt
  | historical req => exact fun _ k => by cases k <;> rfl

namespace OrchestratedEngine

variable {μ : Type*} {s : OrchestratedEngine μ}

/-- A guarded handler: the session ends when it has run out of messages, nothing happens to the lines
    when the limit for the kind objects, and otherwise the handler goes on. -/
theorem view_guarded (session : SessionId) (reqId : Option ReqId) (kind : QuirkCheckKind)
    (go : OrchestratedEngine μ → OrchestratedEngine μ) :
    (guarded session reqId kind go s).view =
      if s.Exhausted session then s.view.disconnect session
      else if s.Refuses session reqId kind then s.view
      else (go { s with quirks := (s.quirks.check s.now session reqId kind).2 }).view := by
  have hcheck := s.quirks.check_eq s.now session reqId kind
  obtain ⟨hends, hkept⟩ := checkKind_objects s.quirks s.now session reqId kind
  have hrate : ({ s with quirks := { s.quirks with
      msgRate := (s.quirks.msgRate.check s.now session).2 } } : OrchestratedEngine μ).view =
        s.view := rfl
  unfold guarded Exhausted Refuses
  by_cases hex : s.quirks.msgRate.Exhausted s.now session
  · rw [if_pos hex] at hcheck
    simp only [hcheck, if_pos hex]
    rw [view_handleViolation.1 (show Ends (.rateLimit _ _ _) from rfl), hrate]
  · rw [if_neg hex] at hcheck
    simp only [hcheck, if_neg hex]
    cases hv : (s.quirks.checkKind s.now session reqId kind).1 with
    | none => simp
    | some v =>
      simp only [Option.isSome_some, if_true]
      rw [view_handleViolation.2 (hends v (by simp [hv]))]
      exact congrArg (Lines.mk _ s.subscriptions ·) (hkept (by simp [hv]))

/-! ### Subscriptions -/

variable (source : MarketDataEngine μ)

/-- The source refuses a subscription. -/
def RefusedBySource (s : OrchestratedEngine μ) (session : SessionId) (reqId : ReqId)
    (contract : ContractSpec) (mode : SubMode) : Prop :=
  (source.subscribe ⟨session, reqId, marketDataSymbolKey contract⟩ mode s.marketData).1.isSome

instance (s : OrchestratedEngine μ) (session : SessionId) (reqId : ReqId) (contract : ContractSpec)
    (mode : SubMode) : Decidable (s.RefusedBySource source session reqId contract mode) :=
  inferInstanceAs (Decidable (_ = true))

/-- A session's record is written back with other requests or orders. -/
theorem connected_touch (session : SessionId) (f : SessionState → SessionState)
    (hf : ∀ owner, (f owner).id = owner.id) :
    (fun session' => ((match s.sessions.get? session with
      | some owner => s.sessions.put (f owner)
      | none => s.sessions).get? session').isSome) =
      fun session' => (s.sessions.get? session').isSome := by
  cases hs : s.sessions.get? session with
  | none => rfl
  | some owner =>
    have hid : (f owner).id = session := (hf owner).trans (Store.key_of_get? hs)
    exact connected_put (a := owner) (hid ▸ hs)

theorem view_openSubscription (session : SessionId) (reqId : ReqId) (contract : ContractSpec)
    (mode : SubMode) :
    (openSubscription source session reqId contract mode s).view =
      if s.RefusedBySource source session reqId contract mode then s.view
      else s.view.subscribe ⟨session, reqId, marketDataSymbolKey contract, contract, mode⟩ := by
  cases hr : (source.subscribe ⟨session, reqId, marketDataSymbolKey contract⟩ mode s.marketData).1 with
  | some error =>
    rw [if_pos (show s.RefusedBySource source session reqId contract mode by
      simp [RefusedBySource, hr])]
    simp only [openSubscription, hr]
    exact view_handleViolation.2 not_false
  | none =>
    rw [if_neg (show ¬ s.RefusedBySource source session reqId contract mode by
      simp [RefusedBySource, hr])]
    simp only [openSubscription, hr]
    exact congrArg (Lines.mk · _ _) (connected_touch session
      (fun owner => { owner with streamingReqs := insert reqId owner.streamingReqs }) fun _ => rfl)

theorem view_onUnsubscribe (session : SessionId) (reqId : ReqId) :
    (s.onUnsubscribeMarketData source session reqId).view =
      if (s.subscriptions.get? (session, reqId)).isSome then
        (s.view.release .l1 session reqId).unsubscribe (session, reqId)
      else s.view := by
  have htouch := connected_touch (s := s) session
    (fun owner => { owner with streamingReqs := owner.streamingReqs.erase reqId }) fun _ => rfl
  unfold onUnsubscribeMarketData
  cases he : s.subscriptions.get? (session, reqId) with
  | none => exact congrArg (Lines.mk · _ _) htouch
  | some e =>
    have hreserved : reservedBy (s.quirks.releaseL1 session reqId) =
        (s.view.release .l1 session reqId).reserved := by
      funext k session'
      cases k <;> rfl
    exact congrArg₂ (Lines.mk · (s.subscriptions.erase (session, reqId)) ·) htouch hreserved

theorem view_deliver (rng : Rng) (baseSeed : UInt64) (em : MarketEmission) :
    (s.deliver source rng baseSeed em).view = s.view := by
  unfold deliver
  cases s.projectSnapshot source em with
  | none => rfl
  | some snap => exact view_withOrders _

theorem view_driveMarketData (rng : Rng) (baseSeed : UInt64) :
    (s.driveMarketData source rng baseSeed).view = s.view := by
  have hfold : ∀ (ems : List MarketEmission) (s : OrchestratedEngine μ),
      (ems.foldl (deliver source rng baseSeed) s).view = s.view := by
    intro ems
    induction ems with
    | nil => exact fun _ => rfl
    | cons em ems ih => exact fun s => (ih _).trans (view_deliver source rng baseSeed em)
  unfold driveMarketData
  rw [view_withOrders, hfold]
  rfl

theorem check_of_not_exhausted {session : SessionId} (hex : ¬ s.Exhausted session)
    (reqId : Option ReqId) (kind : QuirkCheckKind) :
    s.quirks.check s.now session reqId kind =
      ((s.quirks.checkKind s.now session reqId kind).1,
        { (s.quirks.checkKind s.now session reqId kind).2 with
          msgRate := (s.quirks.msgRate.check s.now session).2 }) :=
  (s.quirks.check_eq s.now session reqId kind).trans (if_neg hex)

/-- What an admitted subscription has reserved before the source is asked. -/
theorem view_admitted {session : SessionId} {reqId : ReqId} {symbol : SymbolKey} {mode : SubMode}
    (hex : ¬ s.Exhausted session) (hok : ¬ s.Refuses session (some reqId) (mode.checkKind symbol)) :
    ({ s with quirks := (s.quirks.check s.now session (some reqId) (mode.checkKind symbol)).2 } :
      OrchestratedEngine μ).view = s.view.reserveFor session reqId mode := by
  have hnone : (s.quirks.checkKind s.now session (some reqId) (mode.checkKind symbol)).1 = none := by
    simpa [Refuses] using hok
  have hreserved : reservedBy (s.quirks.check s.now session (some reqId) (mode.checkKind symbol)).2 =
      (s.view.reserveFor session reqId mode).reserved := by
    rw [check_of_not_exhausted hex]
    funext k
    refine (checkKind_spec s.quirks s.now session reqId symbol mode hnone k).trans ?_
    unfold Lines.reserveFor
    cases mode.line with
    | none => simp [view]
    | some k' =>
      by_cases hk : k = k'
      · subst hk; simp [Lines.reserve, view]
      · simp [Lines.reserve, view, hk, Ne.symm hk]
  have hrest : (s.view.reserveFor session reqId mode).connected = s.view.connected ∧
      (s.view.reserveFor session reqId mode).live = s.view.live := by
    unfold Lines.reserveFor
    split <;> exact ⟨rfl, rfl⟩
  show Lines.mk s.view.connected s.view.live _ = _
  rw [hreserved, ← hrest.1, ← hrest.2]

/-! ### Steps and runs -/

/-- A session without live subscriptions. -/
def Idle (s : OrchestratedEngine μ) (session : SessionId) : Prop :=
  ∀ e ∈ s.subscriptions.items, e.session ≠ session

/-- A subscription request neither loses a line nor strands a subscription: it repeats a live one, or
    it runs into the message rate with nothing to lose, or the limit for its kind objects, or the
    source refuses it and it takes no line, or it comes from a connected session. -/
def SubscribesSafely (s : OrchestratedEngine μ) (session : SessionId) (reqId : ReqId)
    (contract : ContractSpec) (mode : SubMode) : Prop :=
  (s.subscriptions.get? (session, reqId)).isSome ∨
    if s.Exhausted session then s.Idle session
    else s.Refuses session (some reqId) (mode.checkKind (marketDataSymbolKey contract)) ∨
      if s.RefusedBySource source session reqId contract mode then mode.line = none
      else (s.sessions.get? session).isSome

/-- The step neither leaks a line nor strands a subscription. -/
def Conserves (s : OrchestratedEngine μ) : Op → Prop
  | .command (.placeOrder session _) | .command (.reqHistoricalData session _ _) =>
    s.Exhausted session → s.Idle session
  | .command (.subscribeMarketData session reqId contract mode) =>
    s.SubscribesSafely source session reqId contract mode
  | .command (.unsubscribeMarketData session reqId) =>
    ∀ e, s.subscriptions.get? (session, reqId) = some e → e.mode.line ≠ some .tbt
  | .command (.injectDisconnect session _) | .command (.injectPacingViolation session) =>
    s.Idle session
  | .command .injectDailyRestart | .scheduled .emitDailyRestart => s.subscriptions.items = []
  | _ => True

variable {source}

theorem matched_guarded (h : s.view.Matched) {session : SessionId} {reqId : Option ReqId}
    {kind : QuirkCheckKind} {go : OrchestratedEngine μ → OrchestratedEngine μ}
    (hgo : ∀ s : OrchestratedEngine μ, (go s).view = s.view)
    (hkind : reservedBy (s.quirks.checkKind s.now session reqId kind).2 = reservedBy s.quirks) :
    (guarded session reqId kind go s).view.Exactly (s.Exhausted session → s.Idle session) := by
  rw [view_guarded]
  by_cases hex : s.Exhausted session
  · rw [if_pos hex]
    exact (h.disconnect session).congr ⟨fun hidle _ => hidle, fun hidle => hidle hex⟩
  · rw [if_neg hex]
    have hsame : (go { s with quirks := (s.quirks.check s.now session reqId kind).2 }).view =
        s.view := by
      rw [hgo, check_of_not_exhausted hex]
      exact congrArg (Lines.mk _ s.subscriptions ·) hkind
    rw [hsame, ite_self]
    exact h.same.congr ⟨fun _ hex' => absurd hex' hex, fun _ => trivial⟩

theorem matched_subscribe (h : s.view.Matched) (session : SessionId) (reqId : ReqId)
    (contract : ContractSpec) (mode : SubMode) :
    (s.onSubscribeMarketData source session reqId contract mode).view.Exactly
      (s.SubscribesSafely source session reqId contract mode) := by
  unfold onSubscribeMarketData SubscribesSafely
  by_cases hdup : (s.subscriptions.get? (session, reqId)).isSome
  · rw [if_pos hdup, view_handleViolation.2 (show ¬ Ends (.unknownContract _ _ _) from not_false)]
    exact h.same.congr ⟨fun _ => Or.inl hdup, fun _ => trivial⟩
  have hnew : s.view.live.get? (session, reqId) = none := by simpa [view] using hdup
  rw [if_neg hdup, view_guarded]
  by_cases hex : s.Exhausted session
  · rw [if_pos hex, if_pos hex]
    exact (h.disconnect session).congr ⟨Or.inr, fun hor => hor.resolve_left hdup⟩
  rw [if_neg hex, if_neg hex]
  by_cases hrefuses : s.Refuses session (some reqId) (mode.checkKind (marketDataSymbolKey contract))
  · rw [if_pos hrefuses]
    exact h.same.congr ⟨fun _ => Or.inr (Or.inl hrefuses), fun _ => trivial⟩
  rw [if_neg hrefuses, view_openSubscription, view_admitted hex hrefuses]
  have hor : ∀ P : Prop, ((s.subscriptions.get? (session, reqId)).isSome ∨
      s.Refuses session (some reqId) (mode.checkKind (marketDataSymbolKey contract)) ∨ P) ↔ P :=
    fun P => ⟨fun hor => (hor.resolve_left hdup).resolve_left hrefuses, fun hp => Or.inr (Or.inr hp)⟩
  by_cases hsource : s.RefusedBySource source session reqId contract mode
  · have hsource' : ({ s with quirks := (s.quirks.check s.now session (some reqId)
        (mode.checkKind (marketDataSymbolKey contract))).2 } : OrchestratedEngine μ).RefusedBySource
          source session reqId contract mode := hsource
    rw [if_pos hsource', if_pos hsource]
    exact (h.leak mode hnew).congr (hor _).symm
  · have hsource' : ¬ ({ s with quirks := (s.quirks.check s.now session (some reqId)
        (mode.checkKind (marketDataSymbolKey contract))).2 } : OrchestratedEngine μ).RefusedBySource
          source session reqId contract mode := hsource
    rw [if_neg hsource', if_neg hsource]
    exact (h.open (e := ⟨session, reqId, marketDataSymbolKey contract, contract, mode⟩) hnew).congr
      (hor _).symm

theorem matched_unsubscribe (h : s.view.Matched) (session : SessionId) (reqId : ReqId) :
    (s.onUnsubscribeMarketData source session reqId).view.Exactly
      (∀ e, s.subscriptions.get? (session, reqId) = some e → e.mode.line ≠ some .tbt) := by
  rw [view_onUnsubscribe]
  cases he : s.subscriptions.get? (session, reqId) with
  | none => exact h.same.congr (by simp)
  | some e =>
    obtain ⟨hs, hr⟩ := s.view.session_of_live he
    subst hs hr
    exact (h.close he).congr (by simp)

/-- A step from matched lines keeps them matched exactly when it conserves them. -/
theorem matched_step (rng : Rng) (baseSeed : UInt64) (op : Op) (h : s.view.Matched) :
    (step source rng baseSeed s op).view.Exactly (s.Conserves source op) := by
  have hrestart : s.onInjectDailyRestart.view.Exactly (s.subscriptions.items = []) := by
    rw [view_onInjectDailyRestart]
    refine h.dropAll fun session hc => ?_
    obtain ⟨owner, howner⟩ := Option.isSome_iff_exists.mp hc
    rw [sessionIds, List.mem_insertionSort]
    exact List.mem_map.mpr ⟨owner, Store.mem_of_get? howner, Store.key_of_get? howner⟩
  cases op with
  | command cmd =>
    cases cmd with
    | startApi session clientId =>
      exact (view_onStartApi (s := s) session clientId).symm ▸ h.connect session
    | placeOrder session req =>
      refine matched_guarded h (fun s => ?_) rfl
      rw [view_emitEvent, view_records]
      exact congrArg (Lines.mk · _ _) (connected_touch session
        (fun owner => { owner with ownedOrders := insert req.orderId owner.ownedOrders }) fun _ => rfl)
    | cancelOrder session orderId =>
      show (s.withOrders _).view.Exactly True
      rw [view_withOrders]
      exact h.same
    | subscribeMarketData session reqId contract mode => exact matched_subscribe h _ _ _ _
    | unsubscribeMarketData session reqId => exact matched_unsubscribe h session reqId
    | reqHistoricalData session reqId req =>
      exact matched_guarded h (fun _ => rfl) (funext fun k => by cases k <;> rfl)
    | injectDisconnect session reason =>
      exact (view_onInjectDisconnect (s := s) session reason).symm ▸ h.disconnect session
    | injectPacingViolation session =>
      have hview : (s.onInjectPacingViolation session).view = s.view.disconnect session :=
        view_handleViolation.1 (show Ends (.rateLimit _ _ _) from rfl)
      exact hview.symm ▸ h.disconnect session
    | injectFarmOutage code farms => exact h.same
    | injectFarmRestore code farms => exact h.same
    | inject i => exact h.same
    | injectDailyRestart => exact hrestart
  | scheduled action =>
    cases action with
    | emitFarmStatus code farm => exact h.same
    | emitDailyRestart => exact hrestart
  | driveMarketData => exact (view_driveMarketData (s := s) source rng baseSeed).symm ▸ h.same
  | advance t => exact h.same

theorem matched_build (cfg : QuirksConfig) (marketData : μ) : (build cfg marketData).view.Matched := by
  refine ⟨fun e he => absurd he (List.not_mem_nil), fun k session => ?_⟩
  cases k <;> rfl

end OrchestratedEngine

open OrchestratedEngine in
/-- In every run of the engine, live subscriptions belong to connected sessions and the reserved
    lines are as many as the live subscriptions, in every state reached, exactly when no step leaks a
    line or strands a subscription. -/
theorem lines_conserved_iff {μ : Type*} (source : MarketDataEngine μ) (rng : Rng) (baseSeed : UInt64)
    (cfg : QuirksConfig) (marketData : μ) (ops : List Op) :
    AllStates (step source rng baseSeed) LinesConserved (build cfg marketData) ops ↔
      AllSteps (step source rng baseSeed) (Conserves source) (build cfg marketData) ops := by
  constructor
  · refine allSteps_of_allStates (J := fun s => s.view.Matched) _ (fun s op h hop => ?_)
      (fun s op h hq => ?_) (matched_build cfg marketData)
    · exact (matched_step rng baseSeed op h).matched hop
    · exact (matched_step rng baseSeed op h).conserved ((linesConserved_iff _).mp hq)
  · intro h
    have hmatched : AllStates (step source rng baseSeed) (fun s => s.view.Matched)
        (build cfg marketData) ops := by
      refine allStates_of_allSteps (I := fun _ => True) (Q := fun s => s.view.Matched) _
        (fun _ _ _ => trivial)
        (fun s op _ hm hop => ?_) trivial (matched_build cfg marketData) h
      exact (matched_step rng baseSeed op hm).matched hop
    exact fun pre hpre => (linesConserved_iff _).mpr (hmatched pre hpre).conserve

/-- A session that ends its tick-by-tick subscription keeps the line. -/
theorem unsubscribe_leaks_line :
    ¬ ∀ (μ : Type) (source : MarketDataEngine μ) (rng : Rng) (baseSeed : UInt64) (cfg : QuirksConfig)
      (marketData : μ) (ops : List Op),
        AllStates (step source rng baseSeed) OrchestratedEngine.LinesConserved
          (OrchestratedEngine.build cfg marketData) ops := by
  intro h
  have hrun := (h Unit silentSource ⟨fun _ _ => 0, fun _ _ => 0⟩ 0 {} ()
    [.command (.startApi 1 0),
     .command (.subscribeMarketData 1 7 (.stock "AAPL" "SMART" "USD") (.tickByTick .last)),
     .command (.unsubscribeMarketData 1 7)]).last
  have hcount := (hrun.2 1).2
  revert hcount
  decide +kernel

end Midas.IbSim.Engine
