import HandOfMidas.Broker.SimMoney
import HandOfMidas.IbSim.Accounts

/-! The accounts of the IB simulator over any fills: they balance, and they agree with those of the
    order simulator. The two keep their positions under other keys, the one under the symbol and the
    contract id, the other under the symbol alone. -/

namespace Midas.IbSim

open Broker Trade

/-- One call of `apply_fill`. -/
structure AccountFill where
  symbolKey : SymbolKey
  contract : ContractSpec
  side : Side
  shares : ℚ
  price : ℚ
  shares_pos : 0 < shares
  price_pos : 0 < price

def Side.action : Side → OrderAction
  | .buy => .buy
  | .sell => .sell

def AccountFill.signed (f : AccountFill) : ℚ := f.side.signed f.shares

/-- The fill as a trade. -/
def AccountFill.trade (f : AccountFill) : Trade SymbolKey ℚ := ⟨f.symbolKey, f.signed, f.price, 0⟩

namespace AccountState

def equity (a : AccountState) : ℚ := a.cash + (a.positions.items.map fun p => p.2.marketValue).sum

def unrealizedPnl (a : AccountState) : ℚ := (a.positions.items.map fun p => p.2.unrealizedPnl).sum

def fill (a : AccountState) (f : AccountFill) : AccountState :=
  (a.applyFill f.symbolKey f.contract f.side f.shares f.price).2

end AccountState

/-- The same fill in the order simulator, without a commission. -/
def fillSim (s : SimState) (f : AccountFill) : SimState :=
  (applyPositionOnFill f.symbolKey.symbol f.side.action f.shares f.price 0 s).2

/-! ### One fill -/

theorem AccountFill.abs_signed (f : AccountFill) : |f.signed| = f.shares := by
  unfold AccountFill.signed
  cases f.side with
  | buy => exact abs_of_pos f.shares_pos
  | sell => exact (abs_neg f.shares).trans (abs_of_pos f.shares_pos)

theorem AccountFill.signed_action (f : AccountFill) : f.side.action.signed f.shares = f.signed := by
  unfold AccountFill.signed
  cases f.side <;> rfl

/-- The two positions say the same. -/
structure Agrees (p : Position) (pos : PositionState) : Prop where
  shares : pos.quantity = p.shares
  avgCost : pos.avgCost = p.avgCost

/-- The profit that the two realize. -/
theorem Agrees.closingPnl {p : Position} {pos : PositionState} (h : Agrees p pos) (f : AccountFill) :
    (pos.afterFill f.signed f.shares f.price 0).2.getD 0 = p.closingPnl f.signed f.shares f.price := by
  unfold PositionState.afterFill Position.closingPnl
  rw [h.shares, h.avgCost]
  by_cases hside : p.SameSide f.signed
  · have hside' : signum p.shares = signum f.signed ∨ p.shares = 0 := hside
    rw [if_pos hside, if_pos hside']
    rfl
  · have hside' : ¬(signum p.shares = signum f.signed ∨ p.shares = 0) := hside
    rw [if_neg hside, if_neg hside']
    rcases signum_eq_or p.shares with hs | hs <;> rw [hs]
    · simp
    · norm_num
      ring

/-- Shares added to a position on its side do not close it. -/
theorem Position.SameSide.abs_add {p : Position} {f : AccountFill} (h : p.SameSide f.signed) :
    |p.shares + f.signed| = |p.shares| + f.shares := by
  rcases h with h | h
  · rw [← f.abs_signed, ← signum_mul_abs p.shares, ← signum_mul_abs f.signed, h, ← mul_add,
      abs_signum_mul,
      abs_signum_mul, abs_signum_mul, abs_abs, abs_abs]
    exact abs_of_nonneg (add_nonneg (abs_nonneg _) (abs_nonneg _))
  · rw [h, zero_add, abs_zero, zero_add, f.abs_signed]

/-- A fill on the other side leaves the side when it is smaller than the position. -/
theorem signum_add_eq_iff {p : Position} {f : AccountFill} (h : ¬p.SameSide f.signed)
    (hne : p.shares + f.signed ≠ 0) :
    signum (p.shares + f.signed) = signum p.shares ↔ ¬|p.shares| < f.shares := by
  have hsum := add_of_signum_ne (not_or.mp h).1
  rw [f.abs_signed] at hsum
  rcases lt_trichotomy f.shares |p.shares| with hless | hall | hmore
  · exact iff_of_true (hsum ▸ signum_signum_mul (sub_pos.mpr hless)) hless.not_gt
  · exact absurd (by rw [hsum, hall, sub_self, mul_zero]) hne
  · exact iff_of_false (hsum ▸ signum_signum_mul_neg (sub_neg.mpr hmore)) (not_not.mpr hmore)

theorem Agrees.afterFill {p : Position} {pos : PositionState} (h : Agrees p pos) (f : AccountFill) :
    Agrees (p.afterFill f.contract f.signed f.shares f.price)
      (pos.afterFill f.signed f.shares f.price 0).1 := by
  refine ⟨by simp [h.shares], ?_⟩
  unfold PositionState.afterFill Position.afterFill Position.costAfter
  rw [h.shares, h.avgCost]
  by_cases hside : p.SameSide f.signed
  · have hside' : signum p.shares = signum f.signed ∨ p.shares = 0 := hside
    have habs := hside.abs_add
    have hpos : 0 < |p.shares| + f.shares := add_pos_of_nonneg_of_pos (abs_nonneg _) f.shares_pos
    have hne : p.shares + f.signed ≠ 0 := by
      rw [← abs_pos, habs]
      exact hpos
    simp only [if_pos hside, if_pos hside', if_neg hne, habs, if_pos hpos]
    ring
  · have hside' : ¬(signum p.shares = signum f.signed ∨ p.shares = 0) := hside
    simp only [if_neg hside, if_neg hside']
    by_cases hzero : p.shares + f.signed = 0
    · rw [if_pos hzero, if_pos hzero]
    · rw [if_neg hzero, if_neg hzero]
      by_cases hflip : |p.shares| < f.shares
      · rw [if_pos hflip, if_pos fun hsame => (signum_add_eq_iff hside hzero).mp hsame hflip]
      · rw [if_neg hflip, if_neg (not_not.mpr ((signum_add_eq_iff hside hzero).mpr hflip))]

/-! ### Balance -/

namespace AccountState

theorem position_fill (a : AccountState) (f : AccountFill) (k : SymbolKey) :
    (a.fill f).position k = if k = f.symbolKey then
      (a.position k).afterFill f.contract f.signed f.shares f.price else a.position k := by
  split
  · rename_i hk
    subst hk
    exact position_applyFill a f.symbolKey f.contract f.side f.shares f.price
  · rename_i hk
    exact position_applyFill_of_ne a f.symbolKey f.contract f.side f.shares f.price hk

theorem cash_fill (a : AccountState) (f : AccountFill) :
    (a.fill f).cash = a.cash - f.signed * f.price := by
  unfold AccountState.fill applyFill AccountFill.signed
  cases f.side with
  | buy =>
    simp only [Side.signed]
    ring
  | sell =>
    simp only [Side.signed]
    ring

/-- A sum over the positions changes by what it is of one. -/
theorem sum_fill (a : AccountState) (f : AccountFill) {g : Position → ℚ} (hg : g {} = 0) :
    ((a.fill f).positions.items.map fun p => g p.2).sum = (a.positions.items.map fun p => g p.2).sum -
      g (a.position f.symbolKey) +
        g ((a.position f.symbolKey).afterFill f.contract f.signed f.shares f.price) := by
  have hold : ((a.positions.get? f.symbolKey).elim 0 fun p => g p.2) = g (a.position f.symbolKey) := by
    unfold position
    cases a.positions.get? f.symbolKey with
    | none => exact hg.symm
    | some p => rfl
  rw [← hold]
  exact Store.sum_put a.positions _ fun p => g p.2

/-- Cash and the cost of the positions make what there was at first and the profit since. -/
structure Balanced (a : AccountState) (startingCash : ℚ) : Prop where
  cost : a.cash + (a.positions.items.map fun p => p.2.shares * p.2.avgCost).sum =
    startingCash + a.realizedPnl
  profits : (a.positions.items.map fun p => p.2.realizedPnl).sum = a.realizedPnl

theorem balanced_new (account : String) (startingCash : ℚ) :
    (new account startingCash).Balanced startingCash :=
  ⟨rfl, rfl⟩

/-- What becomes of the cost of a position. -/
theorem afterFill_cost (p : Position) (f : AccountFill) :
    (p.afterFill f.contract f.signed f.shares f.price).shares *
        (p.afterFill f.contract f.signed f.shares f.price).avgCost =
      p.shares * p.avgCost + f.signed * f.price + p.closingPnl f.signed f.shares f.price := by
  have h : Agrees p ⟨"", p.shares, p.avgCost⟩ := ⟨rfl, rfl⟩
  have hafter := h.afterFill f
  have hcost :=
    PositionState.afterFill_cost ⟨"", p.shares, p.avgCost⟩ f.shares_pos f.abs_signed f.price 0
  rw [h.closingPnl, hafter.shares, hafter.avgCost, zero_mul, add_zero] at hcost
  exact hcost

theorem Balanced.fill {a : AccountState} {startingCash : ℚ} (h : a.Balanced startingCash)
    (f : AccountFill) :
    (a.fill f).Balanced startingCash := by
  constructor
  · have hprofit : (a.fill f).realizedPnl =
      a.realizedPnl + (a.position f.symbolKey).closingPnl f.signed f.shares f.price := rfl
    rw [sum_fill a f (g := fun p => p.shares * p.avgCost) (by simp), cash_fill, hprofit, afterFill_cost]
    linear_combination h.cost
  · have hprofit : (a.fill f).realizedPnl =
      a.realizedPnl + (a.position f.symbolKey).closingPnl f.signed f.shares f.price := rfl
    rw [sum_fill a f (g := Position.realizedPnl) rfl, hprofit, Position.afterFill, ← h.profits]
    ring

/-- The equity of balanced books. -/
theorem Balanced.equity {a : AccountState} {startingCash : ℚ} (h : a.Balanced startingCash) :
    a.equity = startingCash + a.realizedPnl + a.unrealizedPnl := by
  have hsplit (l : List (SymbolKey × Position)) : (l.map fun p => p.2.marketValue).sum =
      (l.map fun p => p.2.unrealizedPnl).sum + (l.map fun p => p.2.shares * p.2.avgCost).sum := by
    rw [← List.sum_map_add]
    refine congrArg List.sum (List.map_congr_left fun p _ => ?_)
    simp only [Position.marketValue, Position.unrealizedPnl]
    ring
  rw [AccountState.equity, AccountState.unrealizedPnl, hsplit, ← h.cost]
  ring

end AccountState

/-! ### Any fills -/

/-- The account after these fills. -/
def accountAfter (account : String) (startingCash : ℚ) (fills : List AccountFill) : AccountState :=
  fills.foldl AccountState.fill (.new account startingCash)

/-- The order simulator after the same fills. -/
def simAfter (cfg : SimOrderConfig) (fills : List AccountFill) : SimState :=
  fills.foldl fillSim (.new cfg)

/-- Nothing else with the symbol of `k` is filled. -/
def OnlyContract (fills : List AccountFill) (k : SymbolKey) : Prop :=
  ∀ f ∈ fills, f.symbolKey.symbol = k.symbol → f.symbolKey = k

theorem position_fillSim (s : SimState) (f : AccountFill) (symbol : String) :
    (fillSim s f).position symbol = if symbol = f.symbolKey.symbol then
      ((s.position symbol).afterFill f.signed f.shares f.price 0).1 else s.position symbol := by
  have hsymbol : (s.position f.symbolKey.symbol).symbol = f.symbolKey.symbol := by
    unfold SimState.position
    cases h : s.positions.get? f.symbolKey.symbol with
    | none => rfl
    | some pos => exact Store.key_of_get? h
  have hput : (fillSim s f).positions =
      s.positions.put ((s.position f.symbolKey.symbol).afterFill f.signed f.shares f.price 0).1 := by
    rw [← f.signed_action]
    rfl
  rw [SimState.position, hput, Store.get?_put, PositionState.afterFill_symbol, hsymbol]
  split
  · rename_i hk
    rw [hk]
    rfl
  · rfl

theorem cash_fillSim (s : SimState) (f : AccountFill) :
    (fillSim s f).cash = s.cash - f.signed * f.price := by
  unfold fillSim applyPositionOnFill AccountFill.signed
  cases f.side with
  | buy =>
    simp only [Side.action, Side.signed]
    ring
  | sell =>
    simp only [Side.action, Side.signed]
    ring

variable (account : String) (startingCash : ℚ) (cfg : SimOrderConfig)

theorem balanced_accountAfter (fills : List AccountFill) :
    (accountAfter account startingCash fills).Balanced startingCash := by
  induction fills using List.reverseRecOn with
  | nil => exact AccountState.balanced_new account startingCash
  | append_singleton fills f ih =>
    rw [accountAfter, List.foldl_concat]
    exact ih.fill f

/-- Each position is the signed sum of its fills. -/
theorem shares_accountAfter (k : SymbolKey) (fills : List AccountFill) :
    ((accountAfter account startingCash fills).position k).shares =
      quantityOf (fills.map AccountFill.trade) k := by
  induction fills using List.reverseRecOn with
  | nil => rfl
  | append_singleton fills f ih =>
    rw [accountAfter, List.foldl_concat, AccountState.position_fill, List.map_append,
      List.map_singleton,
      quantityOf_concat, ← ih]
    by_cases hk : k = f.symbolKey
    · simp [hk, AccountFill.trade, accountAfter]
    · simp [hk, Ne.symm hk, AccountFill.trade, accountAfter]

/-- The cash agrees. -/
theorem cash_agrees (fills : List AccountFill) :
    (simAfter cfg fills).cash = (accountAfter account cfg.initialCash fills).cash := by
  induction fills using List.reverseRecOn with
  | nil => rfl
  | append_singleton fills f ih =>
    rw [simAfter, accountAfter, List.foldl_concat, List.foldl_concat, cash_fillSim,
      AccountState.cash_fill,
      ← simAfter, ← accountAfter, ih]

/-- A position agrees whose symbol names one contract. -/
theorem position_agrees {k : SymbolKey} {fills : List AccountFill} (honly : OnlyContract fills k) :
    Agrees ((accountAfter account startingCash fills).position k)
      ((simAfter cfg fills).position k.symbol) := by
  induction fills using List.reverseRecOn with
  | nil => exact ⟨rfl, rfl⟩
  | append_singleton fills f ih =>
    have hold := ih fun g hg => honly g (List.mem_append_left _ hg)
    rw [accountAfter, simAfter, List.foldl_concat, List.foldl_concat, AccountState.position_fill,
      position_fillSim]
    by_cases hk : k = f.symbolKey
    · rw [if_pos hk, if_pos (congrArg SymbolKey.symbol hk)]
      exact hold.afterFill f
    · have hne : k.symbol ≠ f.symbolKey.symbol := fun hs => hk (honly f (by simp) hs.symm).symm
      rw [if_neg hk, if_neg hne]
      exact hold

/-- The realized profit agrees when every symbol names one contract. -/
theorem realizedPnl_agrees {fills : List AccountFill}
    (honly : ∀ f ∈ fills, OnlyContract fills f.symbolKey) :
    (simAfter cfg fills).realizedPnl = (accountAfter account startingCash fills).realizedPnl := by
  induction fills using List.reverseRecOn with
  | nil => rfl
  | append_singleton fills f ih =>
    have hold :=
      ih fun g hg g' hg' => honly g (List.mem_append_left _ hg) g' (List.mem_append_left _ hg')
    have hagrees : Agrees ((accountAfter account startingCash fills).position f.symbolKey)
        ((simAfter cfg fills).position f.symbolKey.symbol) :=
      position_agrees account startingCash cfg fun g hg =>
        honly f (by simp) g (List.mem_append_left _ hg)
    have hprofit := hagrees.closingPnl f
    have hsim : (simAfter cfg (fills ++ [f])).realizedPnl = (simAfter cfg fills).realizedPnl +
        (((simAfter cfg fills).position f.symbolKey.symbol).afterFill f.signed f.shares f.price
          0).2.getD 0 := by
      rw [simAfter, List.foldl_concat, ← f.signed_action]
      rfl
    have hib : (accountAfter account startingCash (fills ++ [f])).realizedPnl =
        (accountAfter account startingCash fills).realizedPnl +
          ((accountAfter account startingCash fills).position f.symbolKey).closingPnl f.signed f.shares
            f.price := by
      rw [accountAfter, List.foldl_concat]
      rfl
    rw [hsim, hib, hold, hprofit]

/-- After any fills the account balances: its equity is the starting cash and the profit, realized
    and not, the positions account for the profit realized, and each is the signed sum of its fills.
    The order simulator, given the same fills, has the same cash; it has the same position where a
    symbol names one contract, and the same profit when each does. -/
theorem accounts_balance_and_agree (account : String) (cfg : SimOrderConfig)
    (fills : List AccountFill) :
    let a := accountAfter account cfg.initialCash fills
    let s := simAfter cfg fills
    a.equity = cfg.initialCash + a.realizedPnl + a.unrealizedPnl ∧
      (a.positions.items.map fun p => p.2.realizedPnl).sum = a.realizedPnl ∧
      (∀ k, (a.position k).shares = quantityOf (fills.map AccountFill.trade) k) ∧
      s.cash = a.cash ∧
      (∀ k, OnlyContract fills k → (s.position k.symbol).quantity = (a.position k).shares ∧
        (s.position k.symbol).avgCost = (a.position k).avgCost) ∧
      ((∀ f ∈ fills, OnlyContract fills f.symbolKey) → s.realizedPnl = a.realizedPnl) := by
  intro a s
  have hbalanced : a.Balanced cfg.initialCash := balanced_accountAfter account cfg.initialCash fills
  refine ⟨hbalanced.equity, hbalanced.profits,
    fun k => shares_accountAfter account cfg.initialCash k fills,
    cash_agrees account cfg fills, fun k honly => ?_, fun honly => ?_⟩
  · have hagrees : Agrees (a.position k) (s.position k.symbol) :=
      position_agrees account cfg.initialCash cfg honly
    exact ⟨hagrees.shares, hagrees.avgCost⟩
  · exact realizedPnl_agrees account cfg.initialCash cfg honly

/-- Ten shares are bought, and then an option on the same stock. -/
def stockAndOption : List AccountFill :=
  let stock : ContractSpec := .stock "AAPL" "SMART" "USD"
  let option : ContractSpec := .option "AAPL" "20250117" 0 .call "SMART"
  [⟨symbolKeyFor stock, stock, .buy, 10, 100, by norm_num, by norm_num⟩,
    ⟨symbolKeyFor option, option, .buy, 1, 5, by norm_num, by norm_num⟩]

theorem one_symbol_nets_two_contracts :
    ¬ ∀ (account : String) (cfg : SimOrderConfig) (fills : List AccountFill)
    (k : SymbolKey), ((simAfter cfg fills).position k.symbol).quantity =
      ((accountAfter account cfg.initialCash fills).position k).shares := by
  intro h
  have hne : ((simAfter {} stockAndOption).position "AAPL").quantity ≠
      ((accountAfter "DU1" 100000 stockAndOption).position
        (symbolKeyFor (.stock "AAPL" "SMART" "USD"))).shares := by
    decide +kernel
  exact hne (h "DU1" {} stockAndOption (symbolKeyFor (.stock "AAPL" "SMART" "USD")))

end Midas.IbSim
