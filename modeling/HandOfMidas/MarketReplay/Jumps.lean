import HandOfMidas.MarketReplay.Engine
import Mathlib.Analysis.SpecialFunctions.Log.Basic

/-! Injected jumps. The hybrid engine (`market_data/hybrid.rs`) adds them to the prices of its base
    engine, which is any here; the synthetic engine (`market_data/generator/mod.rs`) adds them to the
    logarithm of its mid price. -/

namespace Midas.MarketReplay

open IbSim

variable {F : Type}

/-! ### Calls of the hybrid engine -/

structure Snapshot (F : Type) where
  bid : F
  ask : F
  last : F
  volume : Option ℤ
  ts : VirtualInstant

namespace HybridEngine

/-- What the calls that inject have in common. -/
def inject (h : HybridEngine F) (p : Perturbation F) : HybridEngine F :=
  { h with pending := (h.pending ++ [p]).mergeSort fun p q => p.when ≤ q.when }

def injectJump (h : HybridEngine F) (symbol : SymbolKey) (magnitudePct : F) (now : VirtualInstant) :
    HybridEngine F :=
  h.inject (.injectJump now symbol magnitudePct)

def injectGap (h : HybridEngine F) (symbol : SymbolKey) (fromPrice toPrice : F)
    (now : VirtualInstant) : HybridEngine F :=
  h.inject (.injectGap now symbol fromPrice toPrice)

def injectHalt (h : HybridEngine F) (symbol : SymbolKey) (duration : IbSim.Duration)
    (now : VirtualInstant) : HybridEngine F :=
  h.inject (.injectHalt now symbol duration)

def injectBurst (h : HybridEngine F) (multiplier : F) (duration : IbSim.Duration)
    (now : VirtualInstant) : HybridEngine F :=
  h.inject (.burstMode now (saturatingAdd now duration) multiplier)

/-- `snapshot`, given the one of the base engine. -/
def snapshot [F64 F] (h : HybridEngine F) (base : Option (Snapshot F)) (symbol : SymbolKey) :
    Option (Snapshot F) :=
  base.map fun s =>
    match h.priceShift symbol with
    | some shift => { s with bid := s.bid + shift, ask := s.ask + shift, last := s.last + shift }
    | none => s

end HybridEngine

inductive HybridCall (F : Type) where
  | injectJump (symbol : SymbolKey) (magnitudePct : F) (now : VirtualInstant)
  | injectGap (symbol : SymbolKey) (fromPrice toPrice : F) (now : VirtualInstant)
  | injectHalt (symbol : SymbolKey) (duration : IbSim.Duration) (now : VirtualInstant)
  | injectBurst (multiplier : F) (duration : IbSim.Duration) (now : VirtualInstant)
  | step (now : VirtualInstant)

/-- The perturbation that a call leaves. -/
def HybridCall.perturbation : HybridCall F → Option (Perturbation F)
  | injectJump symbol magnitudePct now => some (.injectJump now symbol magnitudePct)
  | injectGap symbol fromPrice toPrice now => some (.injectGap now symbol fromPrice toPrice)
  | injectHalt symbol duration now => some (.injectHalt now symbol duration)
  | injectBurst multiplier duration now =>
    some (.burstMode now (saturatingAdd now duration) multiplier)
  | step _ => none

/-- In a step, what the base engine emits is rewritten after this. -/
def HybridEngine.perform [F64 F] (h : HybridEngine F) : HybridCall F → HybridEngine F
  | .injectJump symbol magnitudePct now => h.injectJump symbol magnitudePct now
  | .injectGap symbol fromPrice toPrice now => h.injectGap symbol fromPrice toPrice now
  | .injectHalt symbol duration now => h.injectHalt symbol duration now
  | .injectBurst multiplier duration now => h.injectBurst multiplier duration now
  | .step now => h.applyDue now

/-- All perturbations of a script and of the calls after it. -/
def injected (script : List (Perturbation F)) (calls : List (HybridCall F)) : List (Perturbation F) :=
  script ++ calls.filterMap HybridCall.perturbation

/-! ### The price of the synthetic engine -/

structure SymbolState (F : Type) where
  midPrice : F
  logMid : F
  logMidAnchor : F

structure SyntheticEngine (F : Type) where
  symbols : SymbolKey → Option (SymbolState F) := fun _ => none

/-- `SymbolState::from_spec`. -/
def SymbolState.fromSpec (ln : F → F) (initialPrice : F) : SymbolState F :=
  ⟨initialPrice, ln initialPrice, ln initialPrice⟩

namespace SyntheticEngine

/-- `ensure_symbol`, with the initial price of its registration. -/
def ensureSymbol (ln : F → F) (e : SyntheticEngine F) (symbol : SymbolKey) (initialPrice : F) :
    SyntheticEngine F :=
  match e.symbols symbol with
  | some _ => e
  | none => ⟨Function.update e.symbols symbol (some (.fromSpec ln initialPrice))⟩

/-- `if let Some(state) = self.symbols.get_mut(symbol)`. -/
def modify (e : SyntheticEngine F) (symbol : SymbolKey) (f : SymbolState F → SymbolState F) :
    SyntheticEngine F :=
  ⟨Function.update e.symbols symbol ((e.symbols symbol).map f)⟩

theorem modify_symbols (e : SyntheticEngine F) (symbol : SymbolKey) (f : SymbolState F → SymbolState F) :
    (e.modify symbol f).symbols symbol = (e.symbols symbol).map f :=
  Function.update_self _ _ _

variable [F64 F]

def applyPriceJump (exp : F → F) (e : SyntheticEngine F) (symbol : SymbolKey) (magnitudePct : F) :
    SyntheticEngine F :=
  e.modify symbol fun state =>
    let logMid := state.logMid + magnitudePct / F64.lit 100
    { state with logMid := logMid, midPrice := exp logMid }

/-- `apply_gap`, which makes no use of the price that the gap is from. -/
def applyGap [LinearOrder F] (ln : F → F) (e : SyntheticEngine F) (symbol : SymbolKey) (toPrice : F) :
    SyntheticEngine F :=
  e.modify symbol fun state =>
    let midPrice := max toPrice (F64.lit (1 / 1000000))
    { state with midPrice := midPrice, logMid := ln midPrice }

/-- What a tick of `advance_symbol` does to the price; `r` is drawn at random. -/
def tick [LinearOrder F] (exp : F → F) (e : SyntheticEngine F) (symbol : SymbolKey) (r : F) :
    SyntheticEngine F :=
  e.modify symbol fun state =>
    let logMid := max (state.logMidAnchor - F64.lit 3)
      (min (state.logMid + r) (state.logMidAnchor + F64.lit 3))
    { state with logMid := logMid, midPrice := exp logMid }

/-- `inject_jump`. A symbol that is not there is the error `UnknownContract`. -/
def injectJump (exp : F → F) (e : SyntheticEngine F) (symbol : SymbolKey) (magnitudePct : F) :
    Option (SyntheticEngine F) :=
  if (e.symbols symbol).isNone then none else some (e.applyPriceJump exp symbol magnitudePct)

end SyntheticEngine

/-! ### Exact numbers -/

noncomputable instance : F64 ℝ where
  lit q := q
  isZero x := decide (x = 0)

/-- The exponential: any function that takes sums to products of positive numbers. -/
structure IsExp (exp : ℝ → ℝ) : Prop where
  add : ∀ a b, exp (a + b) = exp a * exp b
  pos : ∀ a, 0 < exp a

theorem IsExp.zero {exp : ℝ → ℝ} (hexp : IsExp exp) : exp 0 = 1 := by
  have hadd := hexp.add 0 0
  rw [add_zero] at hadd
  exact (mul_right_cancel₀ (hexp.pos 0).ne' (by rw [one_mul]; exact hadd)).symm

/-- What a sequence of jumps should multiply a price by. -/
noncomputable def factor (exp : ℝ → ℝ) (magnitudes : List ℝ) : ℝ :=
  (magnitudes.map fun m => exp (m / 100)).prod

theorem factor_eq {exp : ℝ → ℝ} (hexp : IsExp exp) (magnitudes : List ℝ) :
    factor exp magnitudes = exp (magnitudes.sum / 100) := by
  induction magnitudes with
  | nil => simp [factor, hexp.zero]
  | cons m magnitudes ih =>
    rw [factor, List.map_cons, List.prod_cons, List.sum_cons, add_div, hexp.add, ← ih, factor]

/-! ### What an emission and a snapshot become -/

namespace Bar

def mapPrices (f : F → F) (b : Bar F) : Bar F :=
  { b with o := f b.o, h := f b.h, l := f b.l, c := f b.c, wap := f b.wap }

def prices (b : Bar F) : List F := [b.o, b.h, b.l, b.c, b.wap]

end Bar

namespace MarketEmission

def mapPrices (f : F → F) : MarketEmission F → MarketEmission F
  | tickPrice key tick price size attribs => tickPrice key tick (f price) size attribs
  | bar key b => bar key (b.mapPrices f)
  | historicalBatch key bars isComplete => historicalBatch key (bars.map (Bar.mapPrices f)) isComplete
  | other => other

def prices : MarketEmission F → List F
  | tickPrice _ _ price _ _ => [price]
  | bar _ b => b.prices
  | historicalBatch _ bars _ => bars.flatMap Bar.prices
  | _ => []

theorem mapPrices_id {f : F → F} (hf : ∀ p, f p = p) (em : MarketEmission F) : em.mapPrices f = em := by
  obtain rfl : f = id := funext hf
  have hbar : (Bar.mapPrices id : Bar F → Bar F) = id := rfl
  cases em <;> simp [mapPrices, hbar]

end MarketEmission

namespace Snapshot

def mapPrices (f : F → F) (s : Snapshot F) : Snapshot F :=
  { s with bid := f s.bid, ask := f s.ask, last := f s.last }

def prices (s : Snapshot F) : List F := [s.bid, s.ask, s.last]

end Snapshot

namespace HybridEngine

/-- What is added to the prices of a symbol. -/
noncomputable def shiftOf (h : HybridEngine ℝ) (symbol : SymbolKey) : ℝ :=
  (h.priceShift symbol).getD 0

theorem filterAndRewrite_shifted (h : HybridEngine ℝ) (now : VirtualInstant) (em : MarketEmission ℝ) :
    h.filterAndRewrite now em =
      if h.halted (emissionSymbol em) now then none
      else some (em.mapPrices (· + h.shiftOf (emissionSymbol em))) := by
  have hmoved : ∀ shift : Option ℝ, movedBy shift em = em.mapPrices (· + shift.getD 0) := by
    intro shift
    rcases shift with _ | x
    · exact (MarketEmission.mapPrices_id add_zero em).symm
    · by_cases hx : x = 0
      · rw [movedBy, if_pos (by simpa [F64.isZero] using hx), Option.getD_some, hx]
        exact (MarketEmission.mapPrices_id add_zero em).symm
      · rw [movedBy, if_neg (by simpa [F64.isZero] using hx)]
        cases em <;> rfl
  rw [filterAndRewrite]
  simp only [hmoved, shiftOf]

theorem snapshot_shifted (h : HybridEngine ℝ) (base : Option (Snapshot ℝ)) (symbol : SymbolKey) :
    h.snapshot base symbol = base.map (Snapshot.mapPrices (· + h.shiftOf symbol)) := by
  rcases base with _ | s
  · rfl
  · rw [snapshot, shiftOf]
    rcases h.priceShift symbol with _ | x
    · simp [Snapshot.mapPrices]
    · rfl

end HybridEngine

/-! ### The account of the perturbations -/

namespace Perturbation

/-- What a perturbation adds to the prices of a symbol. -/
noncomputable def shift (symbol : SymbolKey) : Perturbation ℝ → ℝ
  | injectJump _ s magnitudePct => if s = symbol then magnitudePct / 100 else 0
  | injectGap _ s fromPrice toPrice => if s = symbol then toPrice - fromPrice else 0
  | _ => 0

/-- A jump or a gap of the symbol. -/
def moves (symbol : SymbolKey) : Perturbation F → Prop
  | injectJump _ s _ | injectGap _ s _ _ => s = symbol
  | _ => False

def gaps (symbol : SymbolKey) : Perturbation F → Prop
  | injectGap _ s _ _ => s = symbol
  | _ => False

theorem shift_of_not_moves {symbol : SymbolKey} {p : Perturbation ℝ} (h : ¬p.moves symbol) :
    p.shift symbol = 0 := by
  cases p with
  | injectJump _ s _ => exact if_neg h
  | injectGap _ s _ _ => exact if_neg h
  | injectHalt => rfl
  | burstMode => rfl

end Perturbation

/-- The magnitudes of the jumps of a symbol. -/
def magnitudes (symbol : SymbolKey) (ps : List (Perturbation F)) : List F :=
  ps.filterMap fun
    | .injectJump _ s magnitudePct => if s = symbol then some magnitudePct else none
    | _ => none

namespace HybridEngine

theorem shiftOf_addShift (shifts : SymbolKey → Option ℝ) (s symbol : SymbolKey) (x : ℝ) :
    (addShift shifts s x symbol).getD 0 = (shifts symbol).getD 0 + if s = symbol then x else 0 := by
  rcases eq_or_ne s symbol with rfl | hne
  · simp [addShift, F64.lit]
  · simp [addShift, hne, hne.symm]

theorem shiftOf_applyOne (h : HybridEngine ℝ) (p : Perturbation ℝ) (symbol : SymbolKey) :
    (h.applyOne p).shiftOf symbol = h.shiftOf symbol + p.shift symbol := by
  cases p with
  | injectJump t s m =>
    have h100 : m / (F64.lit 100 : ℝ) = m / 100 := by simp [F64.lit]
    rw [applyOne, shiftOf, shiftOf_addShift, h100]
    rfl
  | injectGap t s a b => exact shiftOf_addShift h.priceShift s symbol (b - a)
  | injectHalt => exact (add_zero _).symm
  | burstMode => exact (add_zero _).symm

/-- Of what was injected, some is applied and the rest is pending. -/
structure Accounts (h : HybridEngine ℝ) (injected applied : List (Perturbation ℝ)) : Prop where
  split : injected.Perm (applied ++ h.pending)
  shift : ∀ symbol, h.shiftOf symbol = (applied.map (·.shift symbol)).sum

end HybridEngine

namespace HybridEngine

theorem accounts_new (base : ReplayEngine ℝ) (script : List (Perturbation ℝ)) :
    (new base script).Accounts script [] where
  split := (List.mergeSort_perm script _).symm
  shift _ := rfl

theorem Accounts.inject {h : HybridEngine ℝ} {injected applied : List (Perturbation ℝ)}
    (ha : h.Accounts injected applied) (p : Perturbation ℝ) :
    (h.inject p).Accounts (injected ++ [p]) applied where
  split := by
    refine (ha.split.append_right [p]).trans ?_
    rw [List.append_assoc]
    exact (List.mergeSort_perm _ _).symm.append_left applied
  shift := ha.shift

/-- The loop takes perturbations from the front of what is pending. -/
theorem accounts_applyPending {now : VirtualInstant} {ps : List (Perturbation ℝ)} {h : HybridEngine ℝ}
    {injected applied : List (Perturbation ℝ)} (hsplit : injected.Perm (applied ++ ps))
    (hshift : ∀ symbol, h.shiftOf symbol = (applied.map (·.shift symbol)).sum) :
    ∃ applied', (applyPending now ps h).Accounts injected applied' := by
  induction ps generalizing h applied with
  | nil => exact ⟨applied, hsplit, hshift⟩
  | cons p ps ih =>
    rw [applyPending]
    split_ifs
    · exact ⟨applied, hsplit, hshift⟩
    · have hsplit' : injected.Perm ((applied ++ [p]) ++ ps) := by simpa using hsplit
      refine ih hsplit' fun symbol => ?_
      rw [shiftOf_applyOne, hshift symbol, List.map_append, List.sum_append, List.map_singleton,
        List.sum_singleton]

theorem Accounts.perform {h : HybridEngine ℝ} {injected applied : List (Perturbation ℝ)}
    (ha : h.Accounts injected applied) (call : HybridCall ℝ) :
    ∃ applied', (h.perform call).Accounts (injected ++ call.perturbation.toList) applied' := by
  cases call with
  | injectJump symbol m now => exact ⟨applied, ha.inject _⟩
  | injectGap symbol a b now => exact ⟨applied, ha.inject _⟩
  | injectHalt symbol d now => exact ⟨applied, ha.inject _⟩
  | injectBurst m d now => exact ⟨applied, ha.inject _⟩
  | step now =>
    simp only [HybridCall.perturbation, Option.toList_none, List.append_nil]
    rw [HybridEngine.perform, applyDue]
    -- neither the halts nor the burst that are over are in the account
    split
    · split_ifs
      · exact accounts_applyPending ha.split ha.shift
      · exact accounts_applyPending ha.split ha.shift
    · exact accounts_applyPending ha.split ha.shift

theorem accounts_foldl_perform (calls : List (HybridCall ℝ)) {h : HybridEngine ℝ}
    {before applied : List (Perturbation ℝ)} (ha : h.Accounts before applied) :
    ∃ applied', (calls.foldl perform h).Accounts (injected before calls) applied' := by
  induction calls generalizing h before applied with
  | nil => exact ⟨applied, by simpa [injected] using ha⟩
  | cons call calls ih =>
    obtain ⟨applied', ha'⟩ := ha.perform call
    obtain ⟨applied'', ha''⟩ := ih ha'
    refine ⟨applied'', ?_⟩
    rw [List.foldl_cons]
    convert ha'' using 1
    rcases hp : call.perturbation with _ | p <;> simp [injected, hp]

/-- A step leaves nothing pending that is due. -/
theorem pending_applyDue {h : HybridEngine ℝ} {now : VirtualInstant}
    (hdue : ∀ p ∈ h.pending, p.when ≤ now) : (h.applyDue now).pending = [] := by
  have hloop : ∀ (ps : List (Perturbation ℝ)) (h : HybridEngine ℝ), (∀ p ∈ ps, p.when ≤ now) →
      (applyPending now ps h).pending = [] := by
    intro ps
    induction ps with
    | nil => exact fun _ _ => rfl
    | cons p ps ih =>
      intro h hps
      obtain ⟨hp, hps⟩ := List.forall_mem_cons.mp hps
      rw [applyPending, if_neg hp.not_gt]
      exact ih _ hps
  rw [applyDue]
  split
  · split_ifs
    · exact hloop _ _ hdue
    · exact hloop _ _ hdue
  · exact hloop _ _ hdue

/-- What has taken effect on a symbol, when nothing that moves it is pending, is all of it. -/
theorem Accounts.shiftOf_eq {h : HybridEngine ℝ} {injected applied : List (Perturbation ℝ)}
    (ha : h.Accounts injected applied) (symbol : SymbolKey)
    (hdone : ∀ p ∈ h.pending, ¬p.moves symbol) :
    h.shiftOf symbol = (injected.map (·.shift symbol)).sum := by
  have hpending : (h.pending.map (·.shift symbol)).sum = 0 :=
    List.sum_eq_zero fun x hx => by
      obtain ⟨p, hp, rfl⟩ := List.mem_map.mp hx
      exact Perturbation.shift_of_not_moves (hdone p hp)
  rw [ha.shift, (ha.split.map _).sum_eq, List.map_append, List.sum_append, hpending, add_zero]

/-- A symbol that nothing moves is where the base engine has it. -/
theorem Accounts.shiftOf_eq_zero {h : HybridEngine ℝ} {injected applied : List (Perturbation ℝ)}
    (ha : h.Accounts injected applied) (symbol : SymbolKey)
    (hnone : ∀ p ∈ injected, ¬p.moves symbol) : h.shiftOf symbol = 0 := by
  rw [ha.shift]
  refine List.sum_eq_zero fun x hx => ?_
  obtain ⟨p, hp, rfl⟩ := List.mem_map.mp hx
  exact Perturbation.shift_of_not_moves
    (hnone p (ha.split.mem_iff.mpr (List.mem_append_left _ hp)))

end HybridEngine

/-- Jumps by themselves shift by the sum of their magnitudes. -/
theorem sum_shift_of_no_gap {symbol : SymbolKey} {ps : List (Perturbation ℝ)}
    (hgap : ∀ p ∈ ps, ¬p.gaps symbol) :
    (ps.map (·.shift symbol)).sum = (magnitudes symbol ps).sum / 100 := by
  induction ps with
  | nil => simp [magnitudes]
  | cons p ps ih =>
    obtain ⟨hp, hps⟩ := List.forall_mem_cons.mp hgap
    have hhead : p.shift symbol + (magnitudes symbol ps).sum / 100 =
        (magnitudes symbol (p :: ps)).sum / 100 := by
      cases p with
      | injectJump t s m =>
        by_cases hs : s = symbol
        · simp [magnitudes, Perturbation.shift, hs, add_div]
        · simp [magnitudes, Perturbation.shift, hs]
      | injectGap t s a b => simp [magnitudes, Perturbation.shift, show ¬s = symbol from hp]
      | injectHalt => simp [magnitudes, Perturbation.shift]
      | burstMode => simp [magnitudes, Perturbation.shift]
    rw [List.map_cons, List.sum_cons, ih hps, hhead]

/-! ### The factor of the synthetic engine -/

inductive Move (F : Type) where
  | ensure (symbol : SymbolKey) (initialPrice : F)
  | jump (symbol : SymbolKey) (magnitudePct : F)
  | gap (symbol : SymbolKey) (toPrice : F)
  | tick (symbol : SymbolKey) (r : F)

/-- `ln` is a logarithm of the prices that it is taken of. -/
def Move.Logged (exp ln : ℝ → ℝ) : Move ℝ → Prop
  | ensure _ initialPrice => exp (ln initialPrice) = initialPrice
  | gap _ toPrice =>
    exp (ln (max toPrice (F64.lit (1 / 1000000)))) = max toPrice (F64.lit (1 / 1000000))
  | _ => True

namespace SyntheticEngine

def move [F64 F] [LinearOrder F] (exp ln : F → F) (e : SyntheticEngine F) : Move F → SyntheticEngine F
  | .ensure symbol initialPrice => e.ensureSymbol ln symbol initialPrice
  | .jump symbol magnitudePct => e.applyPriceJump exp symbol magnitudePct
  | .gap symbol toPrice => e.applyGap ln symbol toPrice
  | .tick symbol r => e.tick exp symbol r

def Consistent (exp : ℝ → ℝ) (e : SyntheticEngine ℝ) : Prop :=
  ∀ symbol state, e.symbols symbol = some state → state.midPrice = exp state.logMid

theorem consistent_update {exp : ℝ → ℝ} {e : SyntheticEngine ℝ} (he : e.Consistent exp)
    (symbol : SymbolKey) {new : Option (SymbolState ℝ)}
    (hnew : ∀ state, new = some state → state.midPrice = exp state.logMid) :
    Consistent exp ⟨Function.update e.symbols symbol new⟩ := by
  intro symbol' state (h : Function.update e.symbols symbol new symbol' = some state)
  rcases eq_or_ne symbol' symbol with rfl | hne
  · rw [Function.update_self] at h
    exact hnew state h
  · rw [Function.update_of_ne hne] at h
    exact he symbol' state h

theorem consistent_modify {exp : ℝ → ℝ} {e : SyntheticEngine ℝ} (he : e.Consistent exp)
    (symbol : SymbolKey) {f : SymbolState ℝ → SymbolState ℝ}
    (hf : ∀ state, (f state).midPrice = exp (f state).logMid) : (e.modify symbol f).Consistent exp := by
  refine consistent_update he symbol fun state h => ?_
  obtain ⟨old, -, rfl⟩ := Option.map_eq_some_iff.mp h
  exact hf old

theorem consistent_move {exp ln : ℝ → ℝ} {e : SyntheticEngine ℝ} (he : e.Consistent exp)
    {m : Move ℝ} (hm : m.Logged exp ln) : (e.move exp ln m).Consistent exp := by
  cases m with
  | ensure symbol initialPrice =>
    rw [move, ensureSymbol]
    split
    · exact he
    · refine consistent_update he symbol fun state h => ?_
      obtain rfl := Option.some.inj h
      exact hm.symm
  | jump symbol magnitudePct => exact consistent_modify he symbol fun _ => rfl
  | gap symbol toPrice => exact consistent_modify he symbol fun _ => hm.symm
  | tick symbol r => exact consistent_modify he symbol fun _ => rfl

theorem consistent_foldl_move {exp ln : ℝ → ℝ} {moves : List (Move ℝ)} {e : SyntheticEngine ℝ}
    (he : e.Consistent exp) (hmoves : ∀ m ∈ moves, m.Logged exp ln) :
    (moves.foldl (move exp ln) e).Consistent exp := by
  induction moves generalizing e with
  | nil => exact he
  | cons m moves ih =>
    obtain ⟨hm, hmoves⟩ := List.forall_mem_cons.mp hmoves
    exact ih (consistent_move he hm) hmoves

/-- The calls of `inject_jump` for a symbol, one after the other. -/
def injectJumps [F64 F] (exp : F → F) (e : SyntheticEngine F) (symbol : SymbolKey) (ms : List F) :
    Option (SyntheticEngine F) :=
  ms.foldlM (fun e m => e.injectJump exp symbol m) e

/-- The jumps multiply the mid price of their symbol by the factor, and leave the others alone. -/
theorem injectJumps_eq {exp : ℝ → ℝ} (hexp : IsExp exp) {e : SyntheticEngine ℝ}
    (he : e.Consistent exp) {symbol : SymbolKey} {state : SymbolState ℝ}
    (hstate : e.symbols symbol = some state) (ms : List ℝ) :
    ∃ e' state', e.injectJumps exp symbol ms = some e' ∧ e'.symbols symbol = some state' ∧
      state'.midPrice = state.midPrice * factor exp ms ∧
      ∀ t, t ≠ symbol → e'.symbols t = e.symbols t := by
  induction ms generalizing e state with
  | nil => exact ⟨e, state, rfl, hstate, by simp [factor], fun _ _ => rfl⟩
  | cons m ms ih =>
    have hjump : e.injectJump exp symbol m = some (e.applyPriceJump exp symbol m) := by
      rw [injectJump, hstate]
      rfl
    obtain ⟨state₁, hstate₁, hmid⟩ : ∃ state₁,
        (e.applyPriceJump exp symbol m).symbols symbol = some state₁ ∧
        state₁.midPrice = state.midPrice * exp (m / 100) := by
      refine ⟨_, by rw [applyPriceJump, modify_symbols, hstate]; rfl, ?_⟩
      show exp (state.logMid + m / F64.lit 100) = _
      rw [hexp.add, ← he symbol state hstate]
      simp [F64.lit]
    have hothers : ∀ t, t ≠ symbol → (e.applyPriceJump exp symbol m).symbols t = e.symbols t :=
      fun t ht => Function.update_of_ne ht _ _
    obtain ⟨e', state', he', hstate', hmid', hothers'⟩ :=
      ih (consistent_modify he symbol fun _ => rfl) hstate₁
    refine ⟨e', state', ?_, hstate', ?_, fun t ht => (hothers' t ht).trans (hothers t ht)⟩
    · rw [injectJumps, List.foldlM_cons, hjump]
      exact he'
    · rw [hmid', hmid, factor, factor, List.map_cons, List.prod_cons, mul_assoc]

end SyntheticEngine

/-! ### What jumps should mean, and when they do -/

/-- Jumps mean the same in every engine. The hybrid engine multiplies every price of the symbol by the
    factor, so that prices stay positive and in order and emissions agree with snapshots; what nothing
    moves stays; and the synthetic engine multiplies its mid price by the same factor. -/
structure MeansJumps (exp ln : ℝ → ℝ) (h : HybridEngine ℝ) (s : SymbolKey)
    (ps : List (Perturbation ℝ)) : Prop where
  emits : ∀ now em, emissionSymbol em = s → h.halted s now = false → (∀ p ∈ em.prices, 0 < p) →
    h.filterAndRewrite now em = some (em.mapPrices (· * factor exp (magnitudes s ps)))
  snapshots : ∀ snap : Snapshot ℝ, (∀ p ∈ snap.prices, 0 < p) →
    h.snapshot (some snap) s = some (snap.mapPrices (· * factor exp (magnitudes s ps)))
  positive : ∀ now em em', emissionSymbol em = s → (∀ p ∈ em.prices, 0 < p) →
    h.filterAndRewrite now em = some em' → ∀ p ∈ em'.prices, 0 < p
  positiveSnapshot : ∀ snap snap' : Snapshot ℝ, (∀ p ∈ snap.prices, 0 < p) →
    h.snapshot (some snap) s = some snap' → ∀ p ∈ snap'.prices, 0 < p
  ordered : ∀ snap snap' : Snapshot ℝ, h.snapshot (some snap) s = some snap' → snap.bid ≤ snap.ask →
    snap'.bid ≤ snap'.ask
  agree : ∀ now key (snap snap' : Snapshot ℝ), key.symbol = s → h.halted s now = false →
    h.snapshot (some snap) s = some snap' →
    ∀ q ∈ [(TickType.bid, snap.bid, snap'.bid), (.ask, snap.ask, snap'.ask),
        (.last, snap.last, snap'.last)],
      h.filterAndRewrite now (.tickPrice key q.1 q.2.1 none {}) =
        some (.tickPrice key q.1 q.2.2 none {})
  others : ∀ t, t ≠ s → (∀ p ∈ ps, ¬p.moves t) →
    (∀ now em, emissionSymbol em = t → h.halted t now = false → h.filterAndRewrite now em = some em) ∧
      ∀ base, h.snapshot base t = base
  synthetic : ∀ moves : List (Move ℝ), (∀ m ∈ moves, m.Logged exp ln) →
    ∀ state, (moves.foldl (SyntheticEngine.move exp ln) {}).symbols s = some state →
      ∃ e' state', (moves.foldl (SyntheticEngine.move exp ln) {}).injectJumps exp s
          (magnitudes s ps) = some e' ∧
        e'.symbols s = some state' ∧
        state'.midPrice = state.midPrice * factor exp (magnitudes s ps) ∧
        ∀ t, t ≠ s → e'.symbols t = (moves.foldl (SyntheticEngine.move exp ln) {}).symbols t

/-- Two prices that an added shift and a factor make the same of leave no shift. -/
theorem shift_eq_zero {p q x f : ℝ} (hpq : p ≠ q) (hp : p + x = p * f) (hq : q + x = q * f) : x = 0 := by
  have hf : f = 1 := by
    have hmul : (p - q) * (f - 1) = 0 := by linarith
    rcases mul_eq_zero.mp hmul with h | h
    · exact absurd (sub_eq_zero.mp h) hpq
    · exact sub_eq_zero.mp h
  rw [hf, mul_one] at hp
  linarith

section

variable {exp ln : ℝ → ℝ} {h : HybridEngine ℝ} {s : SymbolKey} {ps : List (Perturbation ℝ)}

theorem sum_eq_zero_of_meansJumps (hshift : h.shiftOf s = (magnitudes s ps).sum / 100)
    (hmeans : MeansJumps exp ln h s ps) : (magnitudes s ps).sum = 0 := by
  have hprice : ∀ p : ℝ, 0 < p →
      p + (magnitudes s ps).sum / 100 = p * factor exp (magnitudes s ps) := by
    intro p hp
    have hsnap := hmeans.snapshots ⟨p, p, p, none, 0⟩ (by simpa [Snapshot.prices] using hp)
    rw [HybridEngine.snapshot_shifted, hshift] at hsnap
    exact congrArg Snapshot.bid (Option.some.inj hsnap)
  have hzero := shift_eq_zero (by norm_num) (hprice 1 one_pos) (hprice 2 two_pos)
  linarith

/-- Without a shift what is emitted passes unchanged. -/
theorem filterAndRewrite_unshifted {t : SymbolKey} {now : VirtualInstant} {em : MarketEmission ℝ}
    (hshift : h.shiftOf t = 0) (hem : emissionSymbol em = t) (hrun : h.halted t now = false) :
    h.filterAndRewrite now em = some em := by
  subst hem
  rw [HybridEngine.filterAndRewrite_shifted, if_neg (by simp [hrun]), hshift,
    MarketEmission.mapPrices_id add_zero]

theorem snapshot_unshifted {t : SymbolKey} (hshift : h.shiftOf t = 0) (base : Option (Snapshot ℝ)) :
    h.snapshot base t = base := by
  have hid : (Snapshot.mapPrices (· + (0 : ℝ)) : Snapshot ℝ → Snapshot ℝ) = id := by
    funext snap
    simp [Snapshot.mapPrices]
  rw [HybridEngine.snapshot_shifted, hshift, hid, Option.map_id, id]

theorem meansJumps_of_sum_eq_zero (hexp : IsExp exp)
    (hshift : h.shiftOf s = (magnitudes s ps).sum / 100)
    (hothers : ∀ t, (∀ p ∈ ps, ¬p.moves t) → h.shiftOf t = 0) (hsum : (magnitudes s ps).sum = 0) :
    MeansJumps exp ln h s ps := by
  have hfactor : factor exp (magnitudes s ps) = 1 := by
    rw [factor_eq hexp, hsum, zero_div, hexp.zero]
  rw [hsum, zero_div] at hshift
  constructor
  case emits =>
    intro now em hem hrun _
    rw [filterAndRewrite_unshifted hshift hem hrun, hfactor, MarketEmission.mapPrices_id mul_one]
  case snapshots =>
    intro snap _
    rw [snapshot_unshifted hshift, hfactor]
    simp [Snapshot.mapPrices]
  case positive =>
    rintro now em em' rfl hpos hout
    rcases hrun : h.halted (emissionSymbol em) now with _ | _
    · rw [filterAndRewrite_unshifted hshift rfl hrun] at hout
      exact Option.some.inj hout ▸ hpos
    · rw [HybridEngine.filterAndRewrite_shifted, if_pos hrun] at hout
      cases hout
  case positiveSnapshot =>
    intro snap snap' hpos hout
    rw [snapshot_unshifted hshift] at hout
    exact Option.some.inj hout ▸ hpos
  case ordered =>
    intro snap snap' hout hle
    rw [snapshot_unshifted hshift] at hout
    exact Option.some.inj hout ▸ hle
  case agree =>
    intro now key snap snap' hkey hrun hout q hq
    rw [snapshot_unshifted hshift] at hout
    obtain rfl := Option.some.inj hout
    simp only [List.mem_cons, List.not_mem_nil, or_false] at hq
    rcases hq with rfl | rfl | rfl
    all_goals
      refine filterAndRewrite_unshifted hshift ?_ hrun
      exact hkey
  case others =>
    intro t _ hnone
    exact ⟨fun now em hem hrun => filterAndRewrite_unshifted (hothers t hnone) hem hrun,
      fun base => snapshot_unshifted (hothers t hnone) base⟩
  case synthetic =>
    intro moves hmoves state hstate
    have hempty : SyntheticEngine.Consistent exp {} := by
      intro _ _ hnone
      cases hnone
    exact SyntheticEngine.injectJumps_eq hexp
      (SyntheticEngine.consistent_foldl_move hempty hmoves) hstate _

end

/-- Once its jumps have taken effect, and no gap is among them, they mean what they should for a symbol
    exactly when their magnitudes add up to nothing. -/
theorem meansJumps_iff {exp : ℝ → ℝ} (hexp : IsExp exp) (ln : ℝ → ℝ) (base : ReplayEngine ℝ)
    (script : List (Perturbation ℝ)) (calls : List (HybridCall ℝ)) (s : SymbolKey)
    (hgap : ∀ p ∈ injected script calls, ¬p.gaps s)
    (hdone : ∀ p ∈ (calls.foldl HybridEngine.perform (.new base script)).pending, ¬p.moves s) :
    MeansJumps exp ln (calls.foldl HybridEngine.perform (.new base script)) s
        (injected script calls) ↔
      (magnitudes s (injected script calls)).sum = 0 := by
  obtain ⟨applied, ha⟩ := HybridEngine.accounts_foldl_perform calls
    (HybridEngine.accounts_new base script)
  have hshift := (ha.shiftOf_eq s hdone).trans (sum_shift_of_no_gap hgap)
  exact ⟨sum_eq_zero_of_meansJumps hshift,
    meansJumps_of_sum_eq_zero hexp hshift fun t hnone => ha.shiftOf_eq_zero t hnone⟩

/-- Two jumps that cancel each other. -/
theorem meansJumps_iff_cancelling :
    MeansJumps Real.exp Real.log
      ([.injectJump ⟨1, "AAPL"⟩ 5 0, .injectJump ⟨1, "AAPL"⟩ (-5) 0, .step 0].foldl
        HybridEngine.perform (.new { reader := [] } [])) ⟨1, "AAPL"⟩
      (injected [] [.injectJump ⟨1, "AAPL"⟩ 5 0, .injectJump ⟨1, "AAPL"⟩ (-5) 0, .step 0]) := by
  have hdue : ∀ p ∈ (((HybridEngine.new { reader := [] } []).injectJump ⟨1, "AAPL"⟩ (5 : ℝ)
      0).injectJump ⟨1, "AAPL"⟩ (-5) 0).pending, p.when ≤ 0 := by
    simp [HybridEngine.injectJump, HybridEngine.inject, HybridEngine.new, Perturbation.when]
  have hnil := HybridEngine.pending_applyDue hdue
  refine (meansJumps_iff ⟨Real.exp_add, Real.exp_pos⟩ Real.log { reader := [] } [] _ ⟨1, "AAPL"⟩
    ?_ ?_).mpr ?_
  · simp [injected, HybridCall.perturbation, Perturbation.gaps]
  · exact fun p hp => absurd hp (List.eq_nil_iff_forall_not_mem.mp hnil p)
  · simp [injected, HybridCall.perturbation, magnitudes, List.filterMap_cons]

/-- A jump of 5 percent adds five hundredths to a price, whichever it is. -/
theorem jump_adds_to_price :
    ¬MeansJumps Real.exp Real.log
      ([.injectJump ⟨1, "AAPL"⟩ 5 0, .step 0].foldl HybridEngine.perform (.new { reader := [] } []))
      ⟨1, "AAPL"⟩ (injected [] [.injectJump ⟨1, "AAPL"⟩ 5 0, .step 0]) := by
  have hdue : ∀ p ∈ ((HybridEngine.new { reader := [] } []).injectJump ⟨1, "AAPL"⟩ (5 : ℝ) 0).pending,
      p.when ≤ 0 := by
    simp [HybridEngine.injectJump, HybridEngine.inject, HybridEngine.new, Perturbation.when]
  have hnil := HybridEngine.pending_applyDue hdue
  obtain ⟨applied, ha⟩ := HybridEngine.accounts_foldl_perform [.injectJump ⟨1, "AAPL"⟩ 5 0, .step 0]
    (HybridEngine.accounts_new { reader := [] } [])
  have hshift := ha.shiftOf_eq ⟨1, "AAPL"⟩
    fun p hp => absurd hp (List.eq_nil_iff_forall_not_mem.mp hnil p)
  intro hmeans
  have hsnap := hmeans.snapshots ⟨100, 100, 100, none, 0⟩ (by simp [Snapshot.prices])
  rw [HybridEngine.snapshot_shifted, hshift] at hsnap
  have hbid : (100 : ℝ) + 5 / 100 = 100 * Real.exp (5 / 100) := by
    simpa [injected, HybridCall.perturbation, magnitudes, List.filterMap_cons, Perturbation.shift,
      factor, Snapshot.mapPrices] using congrArg Snapshot.bid (Option.some.inj hsnap)
  have hexp := Real.add_one_le_exp (5 / 100)
  linarith

end Midas.MarketReplay
