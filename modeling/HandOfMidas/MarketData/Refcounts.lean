import HandOfMidas.Lib.Run
import HandOfMidas.MarketData.Router

/-! What a refcount of a hub counts, and whose messages may change it. -/

namespace Midas.MarketData

/-- Is this the `DecRef` of a handle of hub `h`? -/
def Msg.decrements (h : HubId) (kind : Kind) : Msg → Bool
  | .decRef kind' _ origin => origin = h && kind' = kind
  | _ => false

namespace Router

/-- The handles of hub `h` that are live or whose `DecRef` is still queued. -/
def outstanding (s : Router) (h : HubId) (kind : Kind) : ℕ :=
  s.handles.countP (liveOn h kind) + s.queue.countP (Msg.decrements h kind)

/-- Each hub in the map counts its own handles. -/
def Counted (s : Router) : Prop :=
  ∀ symbol h, s.perSymbol symbol = some h →
    ∀ kind, (s.hubs h).refcount kind = s.outstanding h kind

/-- The hubs in the map count their own handles, and what was torn down was so by a message of its
    own hub, which reported the close or left no live handle. -/
structure Kept (s : Router) : Prop where
  counted : s.Counted
  justified : ∀ t ∈ s.torn, t.origin = t.hub ∧ (t.closed = true ∨ t.live = 0)

/-- A message that is handled while a hub of its symbol is in the map comes from that very hub. A
    `DecRef` at a count of zero changes nothing. -/
def FromOwnHub (s : Router) : Op → Prop
  | .handleNext _ =>
    match s.queue.head? with
    | some (.decRef kind symbol origin) =>
      ∀ h, s.perSymbol symbol = some h → h = origin ∨ (s.hubs h).refcount kind = 0
    | some (.upstreamClosed symbol _ origin) => ∀ h, s.perSymbol symbol = some h → h = origin
    | _ => True
  | _ => True

/-! ### Names -/

/-- Handles and their `DecRef`s carry the symbol of their hub, and a hub in the map is under its own
    symbol. -/
structure Named (s : Router) : Prop where
  mapped : ∀ symbol h, s.perSymbol symbol = some h → h < s.nextHub ∧ (s.hubs h).symbol = symbol
  handle : ∀ x ∈ s.handles, x.hub < s.nextHub ∧ (s.hubs x.hub).symbol = x.symbol
  decRef : ∀ kind symbol origin, Msg.decRef kind symbol origin ∈ s.queue →
    origin < s.nextHub ∧ (s.hubs origin).symbol = symbol

/-- A hub that does not exist yet has no handles. -/
theorem Named.outstanding_new {s : Router} (hs : s.Named) (kind : Kind) :
    s.outstanding s.nextHub kind = 0 := by
  rw [outstanding, Nat.add_eq_zero_iff, List.countP_eq_zero, List.countP_eq_zero]
  constructor
  · intro x hx hlive
    have hlt := (hs.handle x hx).1
    simp only [liveOn, Bool.and_eq_true, decide_eq_true_eq] at hlive
    exact absurd hlive.1.1 hlt.ne
  · intro msg hmsg hdec
    cases msg with
    | decRef kind' symbol origin =>
      have hlt := (hs.decRef kind' symbol origin hmsg).1
      simp only [Msg.decrements, Bool.and_eq_true, decide_eq_true_eq] at hdec
      exact absurd hdec.1 hlt.ne
    | _ => simp [Msg.decrements] at hdec

/-- Two routers that differ at most in their publishers, the cache and the history. -/
structure SameCounts (s s' : Router) : Prop where
  perSymbol : s'.perSymbol = s.perSymbol
  nextHub : s'.nextHub = s.nextHub
  handles : s'.handles = s.handles
  queue : s'.queue = s.queue
  symbol : ∀ h, (s'.hubs h).symbol = (s.hubs h).symbol
  refcount : ∀ h, (s'.hubs h).refcount = (s.hubs h).refcount

namespace SameCounts

variable {s s' s'' : Router}

theorem refl (s : Router) : SameCounts s s := ⟨rfl, rfl, rfl, rfl, fun _ => rfl, fun _ => rfl⟩

theorem trans (h : SameCounts s s') (h' : SameCounts s' s'') : SameCounts s s'' where
  perSymbol := h'.perSymbol.trans h.perSymbol
  nextHub := h'.nextHub.trans h.nextHub
  handles := h'.handles.trans h.handles
  queue := h'.queue.trans h.queue
  symbol x := (h'.symbol x).trans (h.symbol x)
  refcount x := (h'.refcount x).trans (h.refcount x)

theorem outstanding (h : SameCounts s s') : s'.outstanding = s.outstanding := by
  funext x kind
  rw [Router.outstanding, h.handles, h.queue, Router.outstanding]

theorem served (h : SameCounts s s') : s'.served = s.served := by
  funext x feed
  rw [Router.served, h.handles, Router.served]

theorem named (h : SameCounts s s') (hs : s.Named) : s'.Named where
  mapped symbol x hmap := by
    rw [h.perSymbol] at hmap
    rw [h.nextHub, h.symbol]
    exact hs.mapped symbol x hmap
  handle x hx := by
    rw [h.handles] at hx
    rw [h.nextHub, h.symbol]
    exact hs.handle x hx
  decRef kind symbol origin hmsg := by
    rw [h.queue] at hmsg
    rw [h.nextHub, h.symbol]
    exact hs.decRef kind symbol origin hmsg

theorem counted (h : SameCounts s s') (hs : s.Counted) : s'.Counted := by
  intro symbol x hmap kind
  rw [h.perSymbol] at hmap
  rw [h.refcount, h.outstanding]
  exact hs symbol x hmap kind

end SameCounts

/-- A change of one hub that keeps its symbol and its counts. -/
theorem sameCounts_onHub (h : HubId) (f : Hub → Hub) (s : Router)
    (hsymbol : (f (s.hubs h)).symbol = (s.hubs h).symbol)
    (hrefcount : (f (s.hubs h)).refcount = (s.hubs h).refcount) : SameCounts s (s.onHub h f) where
  perSymbol := rfl
  nextHub := rfl
  handles := rfl
  queue := rfl
  symbol x := by
    by_cases hx : x = h
    · subst hx; simpa [onHub] using hsymbol
    · simp [onHub, hx]
  refcount x := by
    by_cases hx : x = h
    · subst hx; simpa [onHub] using hrefcount
    · simp [onHub, hx]

theorem sameCounts_onPublisher (p : PublisherId) (f : Publisher → Publisher) (s : Router) :
    SameCounts s (s.onPublisher p f) :=
  ⟨rfl, rfl, rfl, rfl, fun _ => rfl, fun _ => rfl⟩

theorem sameCounts_openUpstream (answer : Answer) (symbol : SymbolKey) (s : Router) :
    SameCounts s (s.openUpstream answer symbol).2 := by
  rw [openUpstream, resolveConId]
  cases s.contractCache symbol with
  | some conId => exact .refl s
  | none =>
    cases answer.contractId with
    | some conId => exact ⟨rfl, rfl, rfl, rfl, fun _ => rfl, fun _ => rfl⟩
    | none => exact .refl s

theorem sameCounts_spawnPublisher (h : HubId) (feed : Feed) (s : Router) :
    SameCounts s (s.spawnPublisher h feed) := by
  have hhub := sameCounts_onHub h (fun hub =>
    { hub with
      task := Function.update hub.task feed (some s.nextPublisher)
      rtBarsTx := hub.rtBarsTx || decide (feed = .rtBar) }) s rfl rfl
  exact ⟨rfl, rfl, rfl, rfl, hhub.symbol, hhub.refcount⟩

theorem sameCounts_ensurePublisher (answer : Answer) (h : HubId) (feed : Feed) (s : Router) :
    SameCounts s (s.ensurePublisher answer h feed).2 := by
  unfold ensurePublisher
  have hopen := sameCounts_openUpstream answer (s.hubs h).symbol s
  split
  · exact .refl s
  · dsimp only
    split
    · exact hopen.trans (sameCounts_spawnPublisher h feed _)
    · exact hopen

theorem sameCounts_abortTask (h : HubId) (feed : Feed) (origin : HubId) (closed : Bool) (s : Router) :
    SameCounts s (s.abortTask h feed origin closed) := by
  unfold abortTask
  split
  · exact .refl s
  · have hhub := sameCounts_onHub h
      (fun hub => { hub with task := Function.update hub.task feed none }) s rfl rfl
    exact ⟨rfl, rfl, rfl, rfl, hhub.symbol, hhub.refcount⟩

/-! ### Messages and handles -/

theorem outstanding_enqueue (s : Router) (msg : Msg) (h : HubId) (kind : Kind) :
    ({ s with queue := s.queue ++ [msg] } : Router).outstanding h kind =
      s.outstanding h kind + if msg.decrements h kind then 1 else 0 := by
  simp only [outstanding, List.countP_append, List.countP_singleton]
  omega

theorem outstanding_dequeue {s : Router} {msg : Msg} {queue : List Msg} (hq : s.queue = msg :: queue)
    (h : HubId) (kind : Kind) :
    s.outstanding h kind =
      ({ s with queue := queue } : Router).outstanding h kind +
        if msg.decrements h kind then 1 else 0 := by
  rw [outstanding, outstanding, hq, List.countP_cons]
  dsimp only
  omega

theorem Named.dequeue {s : Router} (hs : s.Named) {msg : Msg} {queue : List Msg}
    (hq : s.queue = msg :: queue) : ({ s with queue := queue } : Router).Named where
  mapped := hs.mapped
  handle := hs.handle
  decRef kind symbol origin hmsg :=
    hs.decRef kind symbol origin (by rw [hq]; exact List.mem_cons_of_mem msg hmsg)

/-- A message that is not a `DecRef` may be queued at any time. -/
theorem Named.enqueue {s : Router} (hs : s.Named) {msg : Msg}
    (hmsg : ∀ kind symbol origin, msg ≠ .decRef kind symbol origin) :
    ({ s with queue := s.queue ++ [msg] } : Router).Named where
  mapped := hs.mapped
  handle := hs.handle
  decRef kind symbol origin hmem := by
    rcases List.mem_append.mp hmem with hmem | hmem
    · exact hs.decRef kind symbol origin hmem
    · exact absurd (List.mem_singleton.mp hmem).symm (hmsg kind symbol origin)

theorem Counted.enqueue {s : Router} (hs : s.Counted) {msg : Msg}
    (hmsg : ∀ h kind, msg.decrements h kind = false) :
    ({ s with queue := s.queue ++ [msg] } : Router).Counted := by
  intro symbol h hmap kind
  rw [outstanding_enqueue, hmsg]
  exact hs symbol h hmap kind

theorem Counted.dequeue {s : Router} (hs : s.Counted) {msg : Msg} {queue : List Msg}
    (hq : s.queue = msg :: queue) (hmsg : ∀ h kind, msg.decrements h kind = false) :
    ({ s with queue := queue } : Router).Counted := by
  intro symbol h hmap kind
  have hcount := hs symbol h hmap kind
  rw [outstanding_dequeue hq, hmsg] at hcount
  exact hcount

/-- Dropping a live handle hands its count over to its `DecRef`. -/
theorem outstanding_dropHandle (s : Router) (i : ℕ) (h : HubId) (kind : Kind) :
    (s.dropHandle i).outstanding h kind = s.outstanding h kind := by
  unfold dropHandle
  split
  · rfl
  · rename_i x hx
    split
    · rename_i hlive
      obtain ⟨hi, hget⟩ := List.getElem?_eq_some_iff.mp hx
      have hone : (s.handles.set i { x with live := false }).countP (liveOn h kind) +
          (if liveOn h kind x then 1 else 0) = s.handles.countP (liveOn h kind) := by
        have hpos : liveOn h kind x = true → 0 < s.handles.countP (liveOn h kind) := fun hon =>
          List.countP_pos_iff.mpr ⟨x, hget ▸ List.getElem_mem hi, hon⟩
        have hdead : liveOn h kind { x with live := false } = false := by simp [liveOn]
        rw [List.countP_set hi, hget, hdead]
        split
        · have := hpos ‹_›
          simp only [Bool.false_eq_true, if_false]
          omega
        · simp
      have hsame : Msg.decrements h kind (.decRef x.kind x.symbol x.hub) = liveOn h kind x := by
        simp [Msg.decrements, liveOn, hlive]
      simp only [outstanding, List.countP_append, List.countP_singleton, hsame]
      omega
    · rfl

theorem Named.dropHandle {s : Router} (hs : s.Named) (i : ℕ) : (s.dropHandle i).Named := by
  unfold Router.dropHandle
  split
  · exact hs
  · rename_i x hx
    have hmem : x ∈ s.handles := List.mem_of_getElem? hx
    split
    · refine ⟨hs.mapped, fun y hy => ?_, fun kind symbol origin hmsg => ?_⟩
      · rcases List.mem_or_eq_of_mem_set hy with hy | rfl
        · exact hs.handle y hy
        · exact hs.handle x hmem
      · rcases List.mem_append.mp hmsg with hmsg | hmsg
        · exact hs.decRef kind symbol origin hmsg
        · cases List.mem_singleton.mp hmsg
          exact hs.handle x hmem
    · exact hs

theorem Counted.dropHandle {s : Router} (hs : s.Counted) (i : ℕ) : (s.dropHandle i).Counted := by
  have hkept : (s.dropHandle i).perSymbol = s.perSymbol ∧ (s.dropHandle i).hubs = s.hubs := by
    unfold Router.dropHandle
    split
    · exact ⟨rfl, rfl⟩
    · split <;> exact ⟨rfl, rfl⟩
  intro symbol h hmap kind
  rw [hkept.1] at hmap
  rw [hkept.2, outstanding_dropHandle]
  exact hs symbol h hmap kind

/-! ### Subscribing -/

theorem Named.giveHandle {s : Router} (hs : s.Named) {h : HubId} {symbol : SymbolKey}
    (hmap : s.perSymbol symbol = some h) (kind : Kind) : (s.giveHandle h kind symbol).Named := by
  have hsymbol : ∀ x, ((s.giveHandle h kind symbol).hubs x).symbol = (s.hubs x).symbol := by
    intro x
    by_cases hx : x = h
    · subst hx; simp [Router.giveHandle, onHub]
    · simp [Router.giveHandle, onHub, hx]
  refine ⟨fun symbol' x hmap' => ?_, fun x hx => ?_, fun kind' symbol' origin hmsg => ?_⟩
  · rw [hsymbol]
    exact hs.mapped symbol' x hmap'
  · rw [hsymbol]
    rcases List.mem_append.mp hx with hx | hx
    · exact hs.handle x hx
    · cases List.mem_singleton.mp hx
      exact hs.mapped symbol h hmap
  · rw [hsymbol]
    exact hs.decRef kind' symbol' origin hmsg

theorem refcount_giveHandle (h : HubId) (kind : Kind) (symbol : SymbolKey) (s : Router) (x : HubId)
    (kind' : Kind) : ((s.giveHandle h kind symbol).hubs x).refcount kind' =
      (s.hubs x).refcount kind' + if x = h ∧ kind' = kind then 1 else 0 := by
  by_cases hx : x = h
  · subst hx
    by_cases hk : kind' = kind
    · subst hk; simp [giveHandle, onHub]
    · simp [giveHandle, onHub, hk]
  · simp [giveHandle, onHub, hx]

theorem outstanding_giveHandle (h : HubId) (kind : Kind) (symbol : SymbolKey) (s : Router) (x : HubId)
    (kind' : Kind) : (s.giveHandle h kind symbol).outstanding x kind' =
      s.outstanding x kind' + if x = h ∧ kind' = kind then 1 else 0 := by
  have hon : liveOn x kind' ⟨h, kind, symbol, true⟩ = decide (x = h ∧ kind' = kind) := by
    simp [liveOn, eq_comm]
  simp only [outstanding, giveHandle, onHub, List.countP_append, List.countP_singleton, hon,
    decide_eq_true_eq]
  omega

/-- A handle that is given out is counted. -/
theorem Counted.giveHandle {s : Router} (hs : s.Counted) (h : HubId) (kind : Kind)
    (symbol : SymbolKey) : (s.giveHandle h kind symbol).Counted := by
  intro symbol' x hmap kind'
  rw [refcount_giveHandle, outstanding_giveHandle, hs symbol' x hmap kind']

theorem Named.insertHub {s : Router} (hs : s.Named) (symbol : SymbolKey) :
    (s.insertHub symbol).Named := by
  have hsymbol : ∀ x, x < s.nextHub →
      ((s.insertHub symbol).hubs x).symbol = (s.hubs x).symbol := by
    intro x hx
    simp [Router.insertHub, onHub, hx.ne]
  refine ⟨fun symbol' x hmap => ?_, fun x hx => ?_, fun kind symbol' origin hmsg => ?_⟩
  · by_cases hsym : symbol' = symbol
    · subst hsym
      obtain rfl : s.nextHub = x := by simpa [Router.insertHub] using hmap
      exact ⟨Nat.lt_succ_self _, by simp [Router.insertHub, onHub, Hub.new]⟩
    · obtain ⟨hlt, hsym'⟩ := hs.mapped symbol' x (by simpa [Router.insertHub, hsym] using hmap)
      exact ⟨Nat.lt_succ_of_lt hlt, (hsymbol x hlt).trans hsym'⟩
  · obtain ⟨hlt, hsym⟩ := hs.handle x hx
    exact ⟨Nat.lt_succ_of_lt hlt, (hsymbol _ hlt).trans hsym⟩
  · obtain ⟨hlt, hsym⟩ := hs.decRef kind symbol' origin hmsg
    exact ⟨Nat.lt_succ_of_lt hlt, (hsymbol _ hlt).trans hsym⟩

/-- A new hub has counted nothing and has no handles. -/
theorem Counted.insertHub {s : Router} (hs : s.Counted) (hnamed : s.Named) (symbol : SymbolKey) :
    (s.insertHub symbol).Counted := by
  intro symbol' x hmap kind
  have houtstanding : (s.insertHub symbol).outstanding x kind = s.outstanding x kind := rfl
  rw [houtstanding]
  by_cases hsym : symbol' = symbol
  · subst hsym
    obtain rfl : s.nextHub = x := by simpa [Router.insertHub] using hmap
    rw [hnamed.outstanding_new kind]
    simp [Router.insertHub, onHub, Hub.new]
  · have hmap' : s.perSymbol symbol' = some x := by simpa [Router.insertHub, hsym] using hmap
    have hlt := (hnamed.mapped symbol' x hmap').1
    rw [← hs symbol' x hmap' kind]
    simp [Router.insertHub, onHub, hlt.ne]

theorem torn_openUpstream (answer : Answer) (symbol : SymbolKey) (s : Router) :
    (s.openUpstream answer symbol).2.torn = s.torn := by
  rw [openUpstream, resolveConId]
  cases s.contractCache symbol with
  | some conId => rfl
  | none => cases answer.contractId <;> rfl

theorem torn_ensurePublisher (answer : Answer) (h : HubId) (feed : Feed) (s : Router) :
    (s.ensurePublisher answer h feed).2.torn = s.torn := by
  unfold ensurePublisher
  have hopen := torn_openUpstream answer (s.hubs h).symbol s
  split
  · rfl
  · dsimp only
    split <;> exact hopen

/-- A subscription counts the handle it gives out, and tears nothing down. -/
theorem handleSubscribe_spec {s : Router} (hnamed : s.Named) (answer : Answer) (kind : Kind)
    (symbol : SymbolKey) :
    (s.handleSubscribe answer kind symbol).Named ∧
      (s.Counted → (s.handleSubscribe answer kind symbol).Counted) ∧
      (s.handleSubscribe answer kind symbol).torn = s.torn := by
  cases hmap : s.perSymbol symbol with
  | some h =>
    have hsame := sameCounts_ensurePublisher answer h kind.feed s
    have htorn := torn_ensurePublisher answer h kind.feed s
    simp only [handleSubscribe, hmap]
    split
    · have hmap' := hsame.perSymbol ▸ hmap
      exact ⟨(hsame.named hnamed).giveHandle hmap' kind,
        fun hs => (hsame.counted hs).giveHandle h kind symbol, htorn⟩
    · exact ⟨hsame.named hnamed, hsame.counted, htorn⟩
  | none =>
    have hsame := sameCounts_openUpstream answer symbol s
    have htorn := torn_openUpstream answer symbol s
    simp only [handleSubscribe, hmap]
    split
    · have hnamed' := hsame.named hnamed
      have hspawn := sameCounts_spawnPublisher s.nextHub kind.feed
        ((s.openUpstream answer symbol).2.insertHub symbol)
      have hmap' : (((s.openUpstream answer symbol).2.insertHub symbol).spawnPublisher s.nextHub
          kind.feed).perSymbol symbol = some s.nextHub := by
        rw [hspawn.perSymbol]
        simp [insertHub, hsame.nextHub]
      exact ⟨(hspawn.named (hnamed'.insertHub symbol)).giveHandle hmap' kind,
        fun hs =>
          (hspawn.counted ((hsame.counted hs).insertHub hnamed' symbol)).giveHandle _ kind symbol,
        htorn⟩
    · exact ⟨hsame.named hnamed, hsame.counted, htorn⟩

/-! ### Tearing down -/

/-- Where nothing is outstanding, no live handle is served. -/
theorem served_eq_zero {s : Router} {h : HubId} {feed : Feed}
    (hzero : ∀ kind, kind.feed = feed → s.outstanding h kind = 0) : s.served h feed = 0 := by
  rw [served, List.countP_eq_zero]
  intro x hx hon
  simp only [Bool.and_eq_true, decide_eq_true_eq] at hon
  have hnone : s.handles.countP (liveOn h x.kind) = 0 := by
    have := hzero x.kind hon.1.2
    rw [outstanding] at this
    omega
  exact List.countP_eq_zero.mp hnone x hx (by simp [liveOn, hon.1.1, hon.2])

theorem torn_abortTask (h : HubId) (feed : Feed) (origin : HubId) (closed : Bool) (s : Router) :
    (s.abortTask h feed origin closed).torn = s.torn ∨
      (s.abortTask h feed origin closed).torn =
        s.torn ++ [⟨h, some feed, origin, closed, s.served h feed⟩] := by
  unfold abortTask
  split
  · exact Or.inl rfl
  · exact Or.inr rfl

/-- What is torn down of the hub that the message came from is justified by a close, or if it served
    no live handle. -/
theorem Kept.abortTask {s : Router} (hs : s.Kept) (h : HubId) (feed : Feed) {closed : Bool}
    (hjust : closed = true ∨ s.served h feed = 0) : (s.abortTask h feed h closed).Kept where
  counted := (sameCounts_abortTask h feed h closed s).counted hs.counted
  justified t ht := by
    rcases torn_abortTask h feed h closed s with htorn | htorn
    · exact hs.justified t (htorn ▸ ht)
    · rcases List.mem_append.mp (htorn ▸ ht) with ht | ht
      · exact hs.justified t ht
      · cases List.mem_singleton.mp ht
        exact ⟨rfl, hjust⟩

theorem Named.removeHub {s : Router} (hs : s.Named) (h origin : HubId) (closed : Bool) :
    (s.removeHub h origin closed).Named where
  mapped symbol x hmap := by
    rcases eq_or_ne symbol (s.hubs h).symbol with rfl | hne
    · simp [Router.removeHub] at hmap
    · exact hs.mapped symbol x (by simpa [Router.removeHub, hne] using hmap)
  handle := hs.handle
  decRef := hs.decRef

theorem Counted.removeHub {s : Router} (hs : s.Counted) (h origin : HubId) (closed : Bool) :
    (s.removeHub h origin closed).Counted := by
  intro symbol x hmap
  rcases eq_or_ne symbol (s.hubs h).symbol with rfl | hne
  · simp [Router.removeHub] at hmap
  · exact hs symbol x (by simpa [Router.removeHub, hne] using hmap)

theorem Kept.removeHub {s : Router} (hs : s.Kept) (h : HubId) {closed : Bool}
    (hjust : closed = true ∨ s.served h .tick + s.served h .rtBar = 0) :
    (s.removeHub h h closed).Kept where
  counted := hs.counted.removeHub h h closed
  justified t ht := by
    rcases List.mem_append.mp ht with ht | ht
    · exact hs.justified t ht
    · cases List.mem_singleton.mp ht
      exact ⟨rfl, hjust⟩

/-- The partial reaps of a hub, up to its removal. -/
def reapTasks (h origin : HubId) (s : Router) : Router :=
  let s' := if (s.hubs h).refcount .tick = 0 ∧ (s.hubs h).refcount .watch = 0 then
    s.abortTask h .tick origin false else s
  if (s.hubs h).refcount .rtBar = 0 then s'.abortTask h .rtBar origin false else s'

theorem maybeReap_eq (h origin : HubId) (s : Router) :
    s.maybeReap h origin =
      if (s.hubs h).refcount .tick = 0 ∧ (s.hubs h).refcount .watch = 0 ∧ (s.hubs h).refcount .rtBar = 0
      then (s.reapTasks h origin).removeHub h origin false else s.reapTasks h origin := rfl

theorem sameCounts_reapTasks (h origin : HubId) (s : Router) :
    SameCounts s (s.reapTasks h origin) := by
  unfold reapTasks
  have htick : SameCounts s (if (s.hubs h).refcount .tick = 0 ∧ (s.hubs h).refcount .watch = 0 then
      s.abortTask h .tick origin false else s) := by
    split
    · exact sameCounts_abortTask h .tick origin false s
    · exact .refl s
  dsimp only
  split
  · exact htick.trans (sameCounts_abortTask h .rtBar origin false _)
  · exact htick

/-- A hub that counts its handles serves no live one on an upstream whose counts are at zero. -/
theorem Counted.served_eq_zero {s : Router} (hs : s.Counted) {symbol : SymbolKey} {h : HubId}
    (hmap : s.perSymbol symbol = some h) {feed : Feed}
    (hzero : ∀ kind, kind.feed = feed → (s.hubs h).refcount kind = 0) : s.served h feed = 0 :=
  Router.served_eq_zero fun kind hk => (hs symbol h hmap kind) ▸ hzero kind hk

theorem Counted.served_tick {s : Router} (hs : s.Counted) {symbol : SymbolKey} {h : HubId}
    (hmap : s.perSymbol symbol = some h) (htick : (s.hubs h).refcount .tick = 0)
    (hwatch : (s.hubs h).refcount .watch = 0) : s.served h .tick = 0 := by
  refine hs.served_eq_zero hmap fun kind hk => ?_
  cases kind with
  | tick => exact htick
  | watch => exact hwatch
  | rtBar => cases hk

theorem Counted.served_rtBar {s : Router} (hs : s.Counted) {symbol : SymbolKey} {h : HubId}
    (hmap : s.perSymbol symbol = some h) (hrtBar : (s.hubs h).refcount .rtBar = 0) :
    s.served h .rtBar = 0 := by
  refine hs.served_eq_zero hmap fun kind hk => ?_
  cases kind with
  | rtBar => exact hrtBar
  | _ => cases hk

theorem Kept.reapTasks {s : Router} (hs : s.Kept) {symbol : SymbolKey} {h : HubId}
    (hmap : s.perSymbol symbol = some h) : (s.reapTasks h h).Kept := by
  unfold Router.reapTasks
  set s' := if (s.hubs h).refcount .tick = 0 ∧ (s.hubs h).refcount .watch = 0 then
    s.abortTask h .tick h false else s with hs'
  have htick : s'.Kept ∧ SameCounts s s' := by
    rw [hs']
    split
    · rename_i hzero
      exact ⟨hs.abortTask h .tick (Or.inr (hs.counted.served_tick hmap hzero.1 hzero.2)),
        sameCounts_abortTask h .tick h false s⟩
    · exact ⟨hs, .refl s⟩
  dsimp only
  split
  · rename_i hzero
    refine htick.1.abortTask h .rtBar (Or.inr ?_)
    rw [htick.2.served]
    exact hs.counted.served_rtBar hmap hzero
  · exact htick.1

/-- A hub is reaped by the `DecRef` of a handle of its own, where no handle is live. -/
theorem Kept.maybeReap {s : Router} (hs : s.Kept) {symbol : SymbolKey} {h : HubId}
    (hmap : s.perSymbol symbol = some h) : (s.maybeReap h h).Kept := by
  rw [maybeReap_eq]
  split
  · rename_i hzero
    refine (hs.reapTasks hmap).removeHub h (Or.inr ?_)
    rw [(sameCounts_reapTasks h h s).served, hs.counted.served_tick hmap hzero.1 hzero.2.1,
      hs.counted.served_rtBar hmap hzero.2.2]
  · exact hs.reapTasks hmap

theorem Named.maybeReap {s : Router} (hs : s.Named) (h origin : HubId) :
    (s.maybeReap h origin).Named := by
  have hsame := sameCounts_reapTasks h origin s
  rw [maybeReap_eq]
  split
  · exact (hsame.named hs).removeHub h origin false
  · exact hsame.named hs

/-- A reap leaves every count as it is, or tears the hub down. -/
theorem maybeReap_cases (h origin : HubId) (s : Router) :
    SameCounts s (s.maybeReap h origin) ∨
      ∃ t ∈ (s.maybeReap h origin).torn, t.hub = h ∧ t.origin = origin := by
  rw [maybeReap_eq]
  split
  · exact Or.inr ⟨_, List.mem_append_right _ (List.mem_singleton_self _), rfl, rfl⟩
  · exact Or.inl (sameCounts_reapTasks h origin s)

/-! ### `DecRef` -/

/-- Take one off a count of a hub. -/
def decrement (h : HubId) (kind : Kind) (s : Router) : Router :=
  s.onHub h fun hub =>
    { hub with refcount := Function.update hub.refcount kind (hub.refcount kind - 1) }

theorem handleDecRef_eq {s : Router} {symbol : SymbolKey} {h : HubId}
    (hmap : s.perSymbol symbol = some h) (kind : Kind) (origin : HubId) :
    s.handleDecRef kind symbol origin =
      if (s.hubs h).refcount kind = 1 then (s.decrement h kind).maybeReap h origin
      else s.decrement h kind := by
  simp only [handleDecRef, hmap]
  rfl

theorem refcount_decrement (h : HubId) (kind : Kind) (s : Router) (x : HubId) (kind' : Kind) :
    ((s.decrement h kind).hubs x).refcount kind' =
      (s.hubs x).refcount kind' - if x = h ∧ kind' = kind then 1 else 0 := by
  by_cases hx : x = h
  · subst hx
    by_cases hk : kind' = kind
    · subst hk; simp [decrement, onHub]
    · simp [decrement, onHub, hk]
  · simp [decrement, onHub, hx]

theorem Named.decrement {s : Router} (hs : s.Named) (h : HubId) (kind : Kind) :
    (s.decrement h kind).Named := by
  have hsymbol : ∀ x, ((s.decrement h kind).hubs x).symbol = (s.hubs x).symbol := by
    intro x
    by_cases hx : x = h
    · subst hx; simp [Router.decrement, onHub]
    · simp [Router.decrement, onHub, hx]
  refine ⟨fun symbol x hmap => ?_, fun x hx => ?_, fun kind' symbol origin hmsg => ?_⟩
  · rw [hsymbol]; exact hs.mapped symbol x hmap
  · rw [hsymbol]; exact hs.handle x hx
  · rw [hsymbol]; exact hs.decRef kind' symbol origin hmsg

theorem Named.handleDecRef {s : Router} (hs : s.Named) (kind : Kind) (symbol : SymbolKey)
    (origin : HubId) : (s.handleDecRef kind symbol origin).Named := by
  cases hmap : s.perSymbol symbol with
  | none => simpa only [Router.handleDecRef, hmap] using hs
  | some h =>
    rw [handleDecRef_eq hmap]
    split
    · exact (hs.decrement h kind).maybeReap h origin
    · exact hs.decrement h kind

/-- Taking a `DecRef` off the queue changes no count of a hub it does not come from. -/
theorem outstanding_dequeue_of_ne {s : Router} {kind : Kind} {symbol : SymbolKey} {origin h : HubId}
    {queue : List Msg} (hq : s.queue = .decRef kind symbol origin :: queue) (hne : h ≠ origin)
    (kind' : Kind) :
    ({ s with queue := queue } : Router).outstanding h kind' = s.outstanding h kind' := by
  have hfalse : Msg.decrements h kind' (.decRef kind symbol origin) = false := by
    simp [Msg.decrements, Ne.symm hne]
  rw [outstanding_dequeue hq, hfalse]
  rfl

/-- Where the hub that a `DecRef` comes from is not in the map, its going out of the queue is not
    missed. -/
theorem Counted.dequeue_foreign {s : Router} (hs : s.Counted) {kind : Kind} {symbol : SymbolKey}
    {origin : HubId} {queue : List Msg} (hq : s.queue = .decRef kind symbol origin :: queue)
    (hout : ∀ symbol', s.perSymbol symbol' ≠ some origin) :
    ({ s with queue := queue } : Router).Counted := by
  intro symbol' h hmap kind'
  have hne : h ≠ origin := by
    rintro rfl
    exact hout symbol' hmap
  rw [outstanding_dequeue_of_ne hq hne]
  exact hs symbol' h hmap kind'

/-- A hub that takes a `DecRef` of its own counts its handles as before. -/
theorem Counted.decrement_own {s : Router} (hs : s.Counted) {kind : Kind} {symbol : SymbolKey}
    {h : HubId} {queue : List Msg} (hq : s.queue = .decRef kind symbol h :: queue) :
    (({ s with queue := queue } : Router).decrement h kind).Counted := by
  intro symbol' x hmap kind'
  have hcount := hs symbol' x hmap kind'
  have hdec : Msg.decrements x kind' (.decRef kind symbol h) = decide (x = h ∧ kind' = kind) := by
    simp [Msg.decrements, eq_comm]
  have hkept : (({ s with queue := queue } : Router).decrement h kind).outstanding x kind' =
      ({ s with queue := queue } : Router).outstanding x kind' := rfl
  rw [outstanding_dequeue hq, hdec] at hcount
  simp only [decide_eq_true_eq] at hcount
  rw [refcount_decrement, hkept]
  dsimp only
  omega

/-- What a hub without a count of this kind does with a `DecRef` of another hub: nothing. -/
theorem decrement_foreign {s : Router} (hnamed : s.Named) (hs : s.Counted) {kind : Kind}
    {symbol : SymbolKey} {origin h : HubId} {queue : List Msg}
    (hq : s.queue = .decRef kind symbol origin :: queue) (hmap : s.perSymbol symbol = some h)
    (hne : h ≠ origin) (hzero : (s.hubs h).refcount kind = 0) :
    ({ s with queue := queue } : Router).handleDecRef kind symbol origin =
        ({ s with queue := queue } : Router).decrement h kind ∧
      SameCounts { s with queue := queue } (({ s with queue := queue } : Router).decrement h kind) ∧
      (({ s with queue := queue } : Router).decrement h kind).Counted := by
  have hout : ∀ symbol', s.perSymbol symbol' ≠ some origin := by
    intro symbol' hmap'
    have hsymbol := (hnamed.decRef kind symbol origin (hq ▸ List.mem_cons_self)).2
    rw [← (hnamed.mapped symbol' origin hmap').2, hsymbol, hmap] at hmap'
    exact hne (Option.some.inj hmap')
  have hsame : SameCounts { s with queue := queue }
      (({ s with queue := queue } : Router).decrement h kind) :=
    sameCounts_onHub h _ _ rfl (by simp [hzero])
  refine ⟨?_, hsame, hsame.counted (hs.dequeue_foreign hq hout)⟩
  rw [handleDecRef_eq (s := { s with queue := queue }) hmap, if_neg (by simp [hzero])]

/-- Where no hub of the symbol is in the map, a `DecRef` is not missed. -/
theorem Counted.dequeue_unmapped {s : Router} (hs : s.Counted) (hnamed : s.Named) {kind : Kind}
    {symbol : SymbolKey} {origin : HubId} {queue : List Msg}
    (hq : s.queue = .decRef kind symbol origin :: queue) (hmap : s.perSymbol symbol = none) :
    ({ s with queue := queue } : Router).Counted := by
  refine hs.dequeue_foreign hq fun symbol' hmap' => ?_
  have hsymbol := (hnamed.decRef kind symbol origin (hq ▸ List.mem_cons_self)).2
  rw [← (hnamed.mapped symbol' origin hmap').2, hsymbol, hmap] at hmap'
  cases hmap'

/-- A `DecRef` keeps the counts exactly when no foreign hub takes it. -/
theorem kept_handleDecRef {s : Router} (hnamed : s.Named) (hs : s.Kept) {kind : Kind}
    {symbol : SymbolKey} {origin : HubId} {queue : List Msg}
    (hq : s.queue = .decRef kind symbol origin :: queue) :
    (({ s with queue := queue } : Router).handleDecRef kind symbol origin).Kept ↔
      ∀ h, s.perSymbol symbol = some h → h = origin ∨ (s.hubs h).refcount kind = 0 := by
  cases hmap : s.perSymbol symbol with
  | none =>
    have hkept : ({ s with queue := queue } : Router).Kept :=
      ⟨hs.counted.dequeue_unmapped hnamed hq hmap, hs.justified⟩
    simpa [handleDecRef, hmap] using hkept
  | some h =>
    rcases eq_or_ne h origin with rfl | hne
    · -- Its own hub takes it.
      refine ⟨fun _ x hx => Or.inl (Option.some.inj hx).symm, fun _ => ?_⟩
      have hkept : (({ s with queue := queue } : Router).decrement h kind).Kept :=
        ⟨hs.counted.decrement_own hq, hs.justified⟩
      rw [handleDecRef_eq (s := { s with queue := queue }) hmap]
      split
      · have hmap' : (({ s with queue := queue } : Router).decrement h kind).perSymbol symbol =
          some h := hmap
        exact hkept.maybeReap hmap'
      · exact hkept
    rcases Nat.eq_zero_or_pos ((s.hubs h).refcount kind) with hzero | hpos
    · -- A foreign hub takes it, which has nothing to count.
      obtain ⟨heq, _, hcounted⟩ := decrement_foreign hnamed hs.counted hq hmap hne hzero
      rw [heq]
      exact ⟨fun _ x hx => Or.inr (Option.some.inj hx ▸ hzero), fun _ => ⟨hcounted, hs.justified⟩⟩
    · -- A foreign hub takes it, and loses count of a handle of its own or is torn down.
      rw [handleDecRef_eq (s := { s with queue := queue }) hmap]
      have hcount := outstanding_dequeue_of_ne hq hne kind
      refine ⟨fun hkept => ?_, fun hown => ?_⟩
      · exfalso
        have hlost : ∀ s' : Router,
            SameCounts (({ s with queue := queue } : Router).decrement h kind) s' → ¬ s'.Kept := by
          intro s' hsame hs'
          have hbad := hs'.counted symbol h (hsame.perSymbol ▸ hmap) kind
          rw [hsame.refcount, hsame.outstanding, refcount_decrement, if_pos ⟨rfl, rfl⟩] at hbad
          replace hbad := hbad.trans (hcount.trans (hs.counted symbol h hmap kind).symm)
          dsimp only at hbad
          omega
        split at hkept
        · rcases maybeReap_cases h origin
            (({ s with queue := queue } : Router).decrement h kind) with hsame | ⟨t, ht, hhub, horigin⟩
          · exact hlost _ hsame hkept
          · exact hne (hhub ▸ horigin ▸ (hkept.justified t ht).1).symm
        · exact hlost _ (.refl _) hkept
      · rcases hown h rfl with rfl | hzero
        · exact absurd rfl hne
        · exact absurd hzero hpos.ne'

/-! ### `UpstreamClosed` -/

/-- A hub with its end reason set. -/
def ended (h : HubId) (reason : EndReason) (s : Router) : Router :=
  s.onHub h fun hub => { hub with endReason := some reason }

/-- Both publishers of an ended hub aborted. -/
def silenced (h : HubId) (reason : EndReason) (origin : HubId) (s : Router) : Router :=
  ((s.ended h reason).abortTask h .tick origin true).abortTask h .rtBar origin true

theorem handleUpstreamClosed_eq {s : Router} {symbol : SymbolKey} {h : HubId}
    (hmap : s.perSymbol symbol = some h) (reason : EndReason) (origin : HubId) :
    s.handleUpstreamClosed symbol reason origin =
      (s.silenced h reason origin).removeHub h origin true := by
  simp only [handleUpstreamClosed, hmap]
  rfl

theorem sameCounts_ended (h : HubId) (reason : EndReason) (s : Router) :
    SameCounts s (s.ended h reason) :=
  sameCounts_onHub h _ s rfl rfl

theorem sameCounts_silenced (h : HubId) (reason : EndReason) (origin : HubId) (s : Router) :
    SameCounts s (s.silenced h reason origin) :=
  ((sameCounts_ended h reason s).trans (sameCounts_abortTask h .tick origin true _)).trans
    (sameCounts_abortTask h .rtBar origin true _)

theorem Named.handleUpstreamClosed {s : Router} (hs : s.Named) (symbol : SymbolKey)
    (reason : EndReason) (origin : HubId) : (s.handleUpstreamClosed symbol reason origin).Named := by
  cases hmap : s.perSymbol symbol with
  | none => simpa only [Router.handleUpstreamClosed, hmap] using hs
  | some h =>
    rw [handleUpstreamClosed_eq hmap]
    exact ((sameCounts_silenced h reason origin s).named hs).removeHub h origin true

/-- The end of an upstream leaves the hubs that stay in the map with their counts. -/
theorem Counted.handleUpstreamClosed {s : Router} (hs : s.Counted) (symbol : SymbolKey)
    (reason : EndReason) (origin : HubId) : (s.handleUpstreamClosed symbol reason origin).Counted := by
  cases hmap : s.perSymbol symbol with
  | none => simpa only [Router.handleUpstreamClosed, hmap] using hs
  | some h =>
    rw [handleUpstreamClosed_eq hmap]
    exact ((sameCounts_silenced h reason origin s).counted hs).removeHub h origin true

/-- An `UpstreamClosed` tears down justly exactly when no foreign hub takes it. -/
theorem kept_handleUpstreamClosed {s : Router} (hs : s.Kept) (symbol : SymbolKey) (reason : EndReason)
    (origin : HubId) : (s.handleUpstreamClosed symbol reason origin).Kept ↔
      ∀ h, s.perSymbol symbol = some h → h = origin := by
  cases hmap : s.perSymbol symbol with
  | none => simpa [handleUpstreamClosed, hmap] using hs
  | some h =>
    rw [handleUpstreamClosed_eq hmap]
    constructor
    · intro hkept x hx
      have ht := hkept.justified _ (List.mem_append_right _ (List.mem_singleton_self _))
      exact Option.some.inj hx ▸ ht.1.symm
    · intro hown
      obtain rfl := hown h rfl
      have hended : (s.ended h reason).Kept :=
        ⟨(sameCounts_ended h reason s).counted hs.counted, hs.justified⟩
      exact ((hended.abortTask h .tick (Or.inl rfl)).abortTask h .rtBar (Or.inl rfl)).removeHub h
        (Or.inl rfl)

/-! ### Steps -/

/-- The steps of the publishers, as far as the actor sees them: nothing, or a close that is reported. -/
theorem publisher_steps (s : Router) (p : PublisherId) :
    (∀ others, SameCounts s (s.publishItem p others) ∧ (s.publishItem p others).torn = s.torn) ∧
    (SameCounts s (s.finish p) ∧ (s.finish p).torn = s.torn) ∧
    (SameCounts s (s.cancelled p) ∧ (s.cancelled p).torn = s.torn) ∧
    (s.publishClosed p = s ∨ ∃ s' symbol reason origin, SameCounts s s' ∧ s'.torn = s.torn ∧
      s.publishClosed p = { s' with queue := s'.queue ++ [.upstreamClosed symbol reason origin] }) := by
  refine ⟨fun others => ?_, ?_, ?_, ?_⟩
  · unfold publishItem
    dsimp only
    split
    · exact ⟨sameCounts_onPublisher p _ s, rfl⟩
    · exact ⟨.refl s, rfl⟩
  · unfold finish
    split
    · exact ⟨sameCounts_onPublisher p _ s, rfl⟩
    · exact ⟨sameCounts_onPublisher p _ s, rfl⟩
    · exact ⟨.refl s, rfl⟩
  · unfold cancelled
    split
    · exact ⟨sameCounts_onPublisher p _ s, rfl⟩
    · exact ⟨.refl s, rfl⟩
  · unfold publishClosed
    dsimp only
    split
    · exact Or.inr ⟨_, _, _, _, sameCounts_onPublisher p _ s, rfl, rfl⟩
    · exact Or.inl rfl

theorem SameCounts.kept {s s' : Router} (h : SameCounts s s') (htorn : s'.torn = s.torn)
    (hs : s.Kept) : s'.Kept :=
  ⟨h.counted hs.counted, htorn ▸ hs.justified⟩

theorem handleNext_subscribe {s : Router} {kind : Kind} {symbol : SymbolKey} {queue : List Msg}
    (hq : s.queue = .subscribe kind symbol :: queue) (answer : Answer) :
    s.handleNext answer = ({ s with queue := queue } : Router).handleSubscribe answer kind symbol := by
  unfold handleNext
  rw [hq]
  cases kind <;> rfl

theorem Named.handleNext {s : Router} (hs : s.Named) (answer : Answer) :
    (s.handleNext answer).Named := by
  cases hq : s.queue with
  | nil => simpa only [Router.handleNext, hq] using hs
  | cons msg queue =>
    have hrest := hs.dequeue hq
    cases msg with
    | subscribe kind symbol =>
      rw [handleNext_subscribe hq]
      exact (handleSubscribe_spec hrest answer kind symbol).1
    | decRef kind symbol origin =>
      simpa only [Router.handleNext, hq] using hrest.handleDecRef kind symbol origin
    | upstreamClosed symbol reason origin =>
      simpa only [Router.handleNext, hq] using hrest.handleUpstreamClosed symbol reason origin

theorem Named.step {s : Router} (hs : s.Named) (op : Op) : (MarketData.step s op).Named := by
  cases op with
  | request kind symbol => exact hs.enqueue nofun
  | drop i => exact hs.dropHandle i
  | handleNext answer => exact hs.handleNext answer
  | item p others => exact ((publisher_steps s p).1 others).1.named hs
  | finish p => exact (publisher_steps s p).2.1.1.named hs
  | cancelled p => exact (publisher_steps s p).2.2.1.1.named hs
  | closed p =>
    rcases (publisher_steps s p).2.2.2 with heq | ⟨s', symbol, reason, origin, hsame, _, heq⟩
    · exact (congrArg Named heq).mpr hs
    · exact (congrArg Named heq).mpr ((hsame.named hs).enqueue nofun)

theorem named_new : Router.new.Named :=
  ⟨nofun, nofun, nofun⟩

/-- A message keeps the counts exactly when the hub that takes it is the one it comes from. -/
theorem kept_handleNext {s : Router} (hnamed : s.Named) (hs : s.Kept) (answer : Answer) :
    (s.handleNext answer).Kept ↔ s.FromOwnHub (.handleNext answer) := by
  cases hq : s.queue with
  | nil => simpa only [FromOwnHub, handleNext, hq, List.head?_nil, iff_true] using hs
  | cons msg queue =>
    simp only [FromOwnHub, hq, List.head?_cons]
    cases msg with
    | subscribe kind symbol =>
      obtain ⟨_, hcounted, htorn⟩ := handleSubscribe_spec (hnamed.dequeue hq) answer kind symbol
      have hrest := hs.counted.dequeue hq fun _ _ => rfl
      rw [handleNext_subscribe hq]
      refine iff_of_true ⟨hcounted hrest, ?_⟩ trivial
      rw [htorn]
      exact hs.justified
    | decRef kind symbol origin =>
      simpa only [handleNext, hq] using kept_handleDecRef hnamed hs hq
    | upstreamClosed symbol reason origin =>
      have hrest : ({ s with queue := queue } : Router).Kept :=
        ⟨hs.counted.dequeue hq fun _ _ => rfl, hs.justified⟩
      simpa only [handleNext, hq] using kept_handleUpstreamClosed hrest symbol reason origin

theorem kept_step {s : Router} (hnamed : s.Named) (hs : s.Kept) (op : Op) :
    (step s op).Kept ↔ s.FromOwnHub op := by
  have henqueue : ∀ s' : Router, s'.Kept → ∀ msg : Msg,
      (∀ h kind, msg.decrements h kind = false) →
        ({ s' with queue := s'.queue ++ [msg] } : Router).Kept :=
    fun s' hs' msg hmsg => ⟨hs'.counted.enqueue hmsg, hs'.justified⟩
  have hpublisher := publisher_steps s
  cases op with
  | request kind symbol => exact iff_of_true (henqueue s hs _ fun _ _ => rfl) trivial
  | drop i =>
    have htorn : (s.dropHandle i).torn = s.torn := by
      unfold dropHandle
      split
      · rfl
      · split <;> rfl
    exact iff_of_true ⟨hs.counted.dropHandle i, htorn ▸ hs.justified⟩ trivial
  | handleNext answer => exact kept_handleNext hnamed hs answer
  | item p others =>
    exact iff_of_true (((hpublisher p).1 others).1.kept ((hpublisher p).1 others).2 hs) trivial
  | finish p => exact iff_of_true ((hpublisher p).2.1.1.kept (hpublisher p).2.1.2 hs) trivial
  | cancelled p => exact iff_of_true ((hpublisher p).2.2.1.1.kept (hpublisher p).2.2.1.2 hs) trivial
  | closed p =>
    refine iff_of_true ?_ trivial
    rcases (hpublisher p).2.2.2 with heq | ⟨s', symbol, reason, origin, hsame, htorn, heq⟩
    · exact (congrArg Kept heq).mpr hs
    · exact (congrArg Kept heq).mpr (henqueue s' (hsame.kept htorn hs) _ fun _ _ => rfl)

theorem kept_new : Router.new.Kept :=
  ⟨nofun, nofun⟩

end Router

open Router in
/-- In every interleaving, the hubs in the map count their own handles and what is torn down is torn
    down justly, in every state reached, exactly when no message is taken by a hub that it does not
    come from. -/
theorem refcounts_kept_iff (ops : List Op) :
    AllStates step Kept Router.new ops ↔ AllSteps step FromOwnHub Router.new ops :=
  allStates_iff_allSteps (I := Named) step (fun _ op hs => hs.step op)
    (fun _ op hs hkept => kept_step hs hkept op) named_new kept_new ops

/-- A handle of a hub whose upstream closed is dropped after the symbol is subscribed again: its
    `DecRef` reaps the new hub under its live handle. -/
theorem old_handle_reaps_new_hub : ¬ ∀ ops, AllStates step Router.Kept Router.new ops := by
  intro h
  let answer : Answer := ⟨some 1, true⟩
  let symbol : SymbolKey := ⟨1, "AAPL"⟩
  have hrun := (h [.request .tick symbol, .handleNext answer, .closed 0, .handleNext answer,
    .request .tick symbol, .handleNext answer, .drop 0, .handleNext answer]).last
  have hjust := hrun.justified ⟨1, none, 0, false, 1⟩ (by decide +kernel)
  revert hjust
  decide

end Midas.MarketData
