import HandOfMidas.IbSim.Types
import HandOfMidas.Lib.Store

/-! Market data from a recorded file, with scripted perturbations laid over it
    (`market_data/replay/mod.rs`, `market_data/hybrid.rs`). The file is the list of records that its
    reader yields. A map has no order of its own, so the order in which subscriptions are walked is
    an argument. -/

namespace Midas.MarketReplay

open IbSim

/-- `f64`, of which only the operations are known here. -/
class F64 (F : Type) extends Add F, Sub F, Mul F, Div F where
  lit : ℚ → F
  isZero : F → Bool

/-- Exact arithmetic. -/
instance : F64 ℚ where
  lit q := q
  isZero q := decide (q = 0)

structure SubKey where
  session : ℕ
  reqId : ℤ
  symbol : SymbolKey
  deriving DecidableEq

inductive TickByTickKind where | last | allLast | bidAsk | midPoint

inductive SubMode where
  | streamingL1
  | tickByTick (kind : TickByTickKind)
  | realtimeBars5s
  | historical

inductive TickType where | bid | ask | last | volume | markPrice
  deriving DecidableEq

structure TickAttribs where
  canAutoExecute : Bool := false
  pastLimit : Bool := false
  preOpen : Bool := false
  deriving DecidableEq

structure Bar (F : Type) where
  time : VirtualInstant
  o : F
  h : F
  l : F
  c : F
  volume : ℤ
  wap : F
  count : ℤ
  deriving DecidableEq

inductive MarketEmission (F : Type) where
  | tickPrice (key : SubKey) (tick : TickType) (price : F) (size : Option ℤ) (attribs : TickAttribs)
  | tickSize (key : SubKey) (tick : TickType) (size : ℤ)
  | tickString (key : SubKey) (tick : TickType) (value : String)
  | tickGeneric (key : SubKey) (tick : TickType) (value : F)
  | bar (key : SubKey) (bar : Bar F)
  | historicalBatch (key : SubKey) (bars : List (Bar F)) (isComplete : Bool)
  deriving DecidableEq

/-- A record of the file. -/
inductive DbnEmission (F : Type) where
  | trade (ts : VirtualInstant) (instrumentId : UInt32) (price : F) (size : ℤ)
  | quote (ts : VirtualInstant) (instrumentId : UInt32) (bid ask : F)
  | ohlcv (ts : VirtualInstant) (instrumentId : UInt32) (o h l c : F) (volume : ℤ)

variable {F : Type}

namespace DbnEmission

def ts : DbnEmission F → VirtualInstant
  | trade ts _ _ _ | quote ts _ _ _ | ohlcv ts _ _ _ _ _ _ => ts

def instrumentId : DbnEmission F → UInt32
  | trade _ id _ _ | quote _ id _ _ | ohlcv _ id _ _ _ _ _ => id

end DbnEmission

/-! ### The replay engine -/

structure Subscription where
  key : SubKey
  mode : SubMode

structure ReplayEngine (F : Type) where
  reader : List (DbnEmission F)
  idToSymbol : UInt32 → Option SymbolKey := fun _ => none
  subs : Store Subscription.key := .empty
  subsOrder : List SubKey := []
  subsDirty : Bool := false
  cumVolume : SymbolKey → Option ℤ := fun _ => none

def I64_MIN : ℤ := -2 ^ 63

def I64_MAX : ℤ := 2 ^ 63 - 1

/-- The order of `refresh_subs_order`. -/
def keyLe (a b : SubKey) : Bool :=
  a.session < b.session ∨ a.session = b.session ∧ (a.reqId < b.reqId ∨
    a.reqId = b.reqId ∧ a.symbol.contractId.toInt ≤ b.symbol.contractId.toInt)

namespace ReplayEngine

/-- `register_instrument`. -/
def registerInstrument (e : ReplayEngine F) (instrumentId : UInt32) (symbol : SymbolKey) :
    ReplayEngine F :=
  { e with idToSymbol := Function.update e.idToSymbol instrumentId (some symbol) }

def subscribe (e : ReplayEngine F) (key : SubKey) (mode : SubMode) : ReplayEngine F :=
  { e with subs := e.subs.put ⟨key, mode⟩, subsDirty := true }

def unsubscribe (e : ReplayEngine F) (key : SubKey) : ReplayEngine F :=
  { e with subs := e.subs.erase key, subsDirty := true }

/-- `refresh_subs_order`, where `walk` puts the keys of the map in some order. -/
def refreshSubsOrder (walk : List SubKey → List SubKey) (e : ReplayEngine F) : ReplayEngine F :=
  if e.subsDirty then
    { e with subsOrder := (walk (e.subs.items.map (·.key))).mergeSort keyLe, subsDirty := false }
  else e

/-- The new cumulative volume of a symbol. -/
def volumeAfter (e : ReplayEngine F) (symbol : SymbolKey) (size : ℤ) : ℤ :=
  match e.cumVolume symbol with
  | some v => max I64_MIN (min (v + size) I64_MAX)
  | none => size

section
variable [F64 F]

/-- What a trade is to one subscription. -/
def tradeTicks (key : SubKey) (price : F) (size cum : ℤ) : SubMode → List (MarketEmission F)
  | .streamingL1 => [.tickPrice key .last price (some size) {}, .tickSize key .volume cum]
  | .tickByTick .last | .tickByTick .allLast => [.tickPrice key .last price (some size) {}]
  | _ => []

/-- What a quote is to one subscription. -/
def quoteTicks (key : SubKey) (bid ask : F) : SubMode → List (MarketEmission F)
  | .streamingL1 | .tickByTick .bidAsk =>
    [.tickPrice key .bid bid none {}, .tickPrice key .ask ask none {}]
  | .tickByTick .midPoint => [.tickPrice key .markPrice ((bid + ask) * F64.lit (1 / 2)) none {}]
  | _ => []

/-- What a bar is to one subscription. -/
def barBatch (key : SubKey) (bar : Bar F) : SubMode → List (MarketEmission F)
  | .historical => [.historicalBatch key [bar] false]
  | _ => []

/-- What a record is to one subscription, given the cumulative volume. -/
def ticks (em : DbnEmission F) (cum : ℤ) (key : SubKey) (mode : SubMode) : List (MarketEmission F) :=
  match em with
  | .trade _ _ price size => tradeTicks key price size cum mode
  | .quote _ _ bid ask => quoteTicks key bid ask mode
  | .ohlcv ts _ o h l c volume =>
    barBatch key ⟨ts, o, h, l, c, volume, (h + l) * F64.lit (1 / 2), 0⟩ mode

/-- The cumulative volume is counted on by trades only. -/
def count (e : ReplayEngine F) (symbol : SymbolKey) : DbnEmission F → ReplayEngine F × ℤ
  | .trade _ _ _ size =>
    let cum := e.volumeAfter symbol size
    ({ e with cumVolume := Function.update e.cumVolume symbol (some cum) }, cum)
  | _ => (e, 0)

/-- `emissions_for`. -/
def emissionsFor (e : ReplayEngine F) (em : DbnEmission F) :
    ReplayEngine F × List (MarketEmission F) :=
  match e.idToSymbol em.instrumentId with
  | none => (e, [])
  | some symbol =>
    let (e, cum) := e.count symbol em
    let keys := e.subsOrder.filter fun k => k.symbol = symbol
    (e, keys.flatMap fun key =>
      match e.subs.get? key with
      | some sub => ticks em cum key sub.mode
      | none => [])

/-- The loop of `step`: what each record that is due comes to. -/
def drain (now : VirtualInstant) : List (DbnEmission F) → ReplayEngine F →
    ReplayEngine F × List (List (MarketEmission F))
  | [], e => ({ e with reader := [] }, [])
  | r :: rs, e =>
    if r.ts ≤ now then
      let (e, out) := e.emissionsFor r
      let (e, outs) := drain now rs e
      (e, out :: outs)
    else ({ e with reader := r :: rs }, [])

/-- `step`, record by record. -/
def stepRecords (walk : List SubKey → List SubKey) (e : ReplayEngine F) (now : VirtualInstant) :
    ReplayEngine F × List (List (MarketEmission F)) :=
  let e := e.refreshSubsOrder walk
  drain now e.reader e

def step (walk : List SubKey → List SubKey) (e : ReplayEngine F) (now : VirtualInstant) :
    ReplayEngine F × List (MarketEmission F) :=
  let (e, outs) := e.stepRecords walk now
  (e, outs.flatten)

end

end ReplayEngine

/-! ### The hybrid engine -/

inductive Perturbation (F : Type) where
  | injectJump (at' : VirtualInstant) (symbol : SymbolKey) (magnitudePct : F)
  | injectGap (at' : VirtualInstant) (symbol : SymbolKey) (fromPrice toPrice : F)
  | injectHalt (at' : VirtualInstant) (symbol : SymbolKey) (duration : IbSim.Duration)
  | burstMode (fromAt toAt : VirtualInstant) (multiplier : F)

/-- `when`. -/
def Perturbation.when : Perturbation F → VirtualInstant
  | injectJump t _ _ | injectGap t _ _ _ | injectHalt t _ _ | burstMode t _ _ => t

/-- `Duration::MAX`. -/
def DURATION_MAX : IbSim.Duration := 2 ^ 64 * 1000000000 - 1

/-- `saturating_add`. -/
def saturatingAdd (t : VirtualInstant) (d : IbSim.Duration) : VirtualInstant := min (t + d) DURATION_MAX

structure ActiveHalt where
  symbol : SymbolKey
  until' : VirtualInstant

structure HybridEngine (F : Type) where
  base : ReplayEngine F
  pending : List (Perturbation F)
  activeHalts : List ActiveHalt := []
  priceShift : SymbolKey → Option F := fun _ => none
  burst : Option (VirtualInstant × VirtualInstant × F) := none

/-- `emission_symbol`. -/
def emissionSymbol : MarketEmission F → SymbolKey
  | .tickPrice key _ _ _ _ | .tickSize key _ _ | .tickString key _ _ | .tickGeneric key _ _
  | .bar key _ | .historicalBatch key _ _ => key.symbol

section
variable [F64 F]

def shiftBar (shift : F) (b : Bar F) : Bar F :=
  { b with
    o := b.o + shift, h := b.h + shift, l := b.l + shift, c := b.c + shift, wap := b.wap + shift }

/-- `shift_price`. -/
def shiftPrice (em : MarketEmission F) (shift : F) : MarketEmission F :=
  match em with
  | .tickPrice key tick price size attribs => .tickPrice key tick (price + shift) size attribs
  | .bar key bar => .bar key (shiftBar shift bar)
  | .historicalBatch key bars isComplete => .historicalBatch key (bars.map (shiftBar shift)) isComplete
  | other => other

/-- A shift that is there and not zero moves the prices. -/
def movedBy (shift : Option F) (em : MarketEmission F) : MarketEmission F :=
  match shift with
  | some shift => if F64.isZero shift then em else shiftPrice em shift
  | none => em

/-- What a jump or a gap adds to the shifts. -/
def addShift (shifts : SymbolKey → Option F) (symbol : SymbolKey) (x : F) : SymbolKey → Option F :=
  Function.update shifts symbol (some ((shifts symbol).getD (F64.lit 0) + x))

namespace HybridEngine

/-- `HybridEngine::new`. -/
def new (base : ReplayEngine F) (perturbations : List (Perturbation F)) : HybridEngine F where
  base
  pending := perturbations.mergeSort fun p q => p.when ≤ q.when

/-- One perturbation that is due. -/
def applyOne (h : HybridEngine F) : Perturbation F → HybridEngine F
  | .injectJump _ symbol magnitudePct =>
    { h with priceShift := addShift h.priceShift symbol (magnitudePct / F64.lit 100) }
  | .injectGap _ symbol fromPrice toPrice =>
    { h with priceShift := addShift h.priceShift symbol (toPrice - fromPrice) }
  | .injectHalt t symbol duration =>
    { h with activeHalts := h.activeHalts ++ [⟨symbol, saturatingAdd t duration⟩] }
  | .burstMode fromAt toAt multiplier => { h with burst := some (fromAt, toAt, multiplier) }

/-- The loop over the perturbations that are due. -/
def applyPending (now : VirtualInstant) : List (Perturbation F) → HybridEngine F → HybridEngine F
  | [], h => { h with pending := [] }
  | p :: ps, h =>
    if p.when > now then { h with pending := p :: ps } else applyPending now ps (h.applyOne p)

/-- `apply_due`. -/
def applyDue (h : HybridEngine F) (now : VirtualInstant) : HybridEngine F :=
  let h := { h with activeHalts := h.activeHalts.filter fun a => a.until' > now }
  let h :=
    match h.burst with
    | some (_, to', _) => if now ≥ to' then { h with burst := none } else h
    | none => h
  applyPending now h.pending h

def halted (h : HybridEngine F) (symbol : SymbolKey) (now : VirtualInstant) : Bool :=
  h.activeHalts.any fun a => a.symbol = symbol ∧ a.until' > now

/-- `filter_and_rewrite`. -/
def filterAndRewrite (h : HybridEngine F) (now : VirtualInstant) (em : MarketEmission F) :
    Option (MarketEmission F) :=
  let symbol := emissionSymbol em
  if h.halted symbol now then none else some (movedBy (h.priceShift symbol) em)

/-- `step`, record by record. -/
def stepRecords (walk : List SubKey → List SubKey) (h : HybridEngine F) (now : VirtualInstant) :
    HybridEngine F × List (List (MarketEmission F)) :=
  let h := h.applyDue now
  let (base, outs) := h.base.stepRecords walk now
  ({ h with base := base }, outs.map (·.filterMap (h.filterAndRewrite now)))

def step (walk : List SubKey → List SubKey) (h : HybridEngine F) (now : VirtualInstant) :
    HybridEngine F × List (MarketEmission F) :=
  let h := h.applyDue now
  let (base, out) := h.base.step walk now
  ({ h with base := base }, out.filterMap (h.filterAndRewrite now))

/-- All that is emitted in a run of steps. -/
def run (walk : List SubKey → List SubKey) : HybridEngine F → List VirtualInstant →
    List (MarketEmission F)
  | _, [] => []
  | h, now :: steps =>
    let (h, out) := h.step walk now
    out ++ run walk h steps

/-- The same, with one list for each record that was read. -/
def runRecords (walk : List SubKey → List SubKey) : HybridEngine F → List VirtualInstant →
    List (List (MarketEmission F))
  | _, [] => []
  | h, now :: steps =>
    let (h, outs) := h.stepRecords walk now
    outs ++ runRecords walk h steps

end HybridEngine

end

end Midas.MarketReplay
