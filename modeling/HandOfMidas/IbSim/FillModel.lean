import HandOfMidas.IbSim.StateMachine
import HandOfMidas.IbSim.Types
import Mathlib.Algebra.Order.Field.Rat
import Mathlib.Algebra.BigOperators.Group.List.Basic
import Mathlib.Tactic.Ring
import Mathlib.Tactic.Linarith
import Mathlib.Data.Fintype.Basic

/-! The synthetic fill model (`orders/fill_model.rs`): when an order fills, at what price, and into
    which chunks a large fill is split. -/

namespace Midas.IbSim

structure Fill where
  orderId : OrderId
  price : ℚ
  shares : ℚ
  ts : VirtualInstant
  side : Side
  deriving DecidableEq

inductive SlippageKind where
  | none
  | fixedBps (bps : ℚ)
  deriving DecidableEq

def crossSpread (side : Side) (bid ask : ℚ) : ℚ :=
  match side with
  | .buy => ask
  | .sell => bid

def stopTriggered (side : Side) (stopPrice mid : ℚ) : Bool :=
  match side with
  | .buy => stopPrice ≤ mid
  | .sell => mid ≤ stopPrice

/-- `apply_slippage`; the draw it makes is thrown away. -/
def applySlippage (price : ℚ) (side : Side) : SlippageKind → ℚ
  | .none => price
  | .fixedBps bps =>
    let delta := price * (bps / 10000)
    match side with
    | .buy => price + delta
    | .sell => price - delta

def roundToCent (p : ℚ) : ℚ := roundHalfAway (p * 100) / 100

namespace OrderRecord

variable (o : OrderRecord)

/-- The price at which the market meets the order's limit, if it does. -/
def limitCross (bid ask : ℚ) : Option ℚ :=
  o.limitPrice.bind fun limit =>
    match o.side with
    | .buy => if ask ≤ limit then some (min limit ask) else none
    | .sell => if limit ≤ bid then some (max limit bid) else none

/-- The record with its stop triggered, if it is by now. -/
def armStop (mid : ℚ) : Option OrderRecord :=
  if o.stopTriggered then some o
  else o.auxPrice.bind fun stop =>
    if IbSim.stopTriggered o.side stop mid then some { o with stopTriggered := true } else none

/-- The price before slippage, and the record as `maybe_fill` leaves it. -/
def fillPrice (mid bid ask : ℚ) : Option ℚ × OrderRecord :=
  match o.kind with
  | .market => (some (crossSpread o.side bid ask), o)
  | .limit => (o.limitCross bid ask, o)
  | .stop =>
    match o.armStop mid with
    | none => (none, o)
    | some o => (some (crossSpread o.side bid ask), o)
  | .stopLimit =>
    match o.armStop mid with
    | none => (none, o)
    | some o => (o.limitCross bid ask, o)

end OrderRecord

def maybeFill (order : OrderRecord) (mid bid ask : ℚ) (now : VirtualInstant)
    (slippage : SlippageKind) : Option Fill × OrderRecord :=
  let priced := order.fillPrice mid bid ask
  (priced.1.map fun fillPrice =>
    let finalPrice :=
      match order.kind with
      | .market | .stop => applySlippage fillPrice order.side slippage
      | .limit | .stopLimit => fillPrice
    { orderId := order.orderId
      price := roundToCent finalPrice
      shares := order.remainingQty
      ts := now
      side := order.side },
   priced.2)

section Chunks

/-- `f64::clamp`, for bounds that are in order. -/
def clamp (x lo hi : ℚ) : ℚ := if x < lo then lo else if hi < x then hi else x

def minChunk : ℚ := 100

/-- One chunk of what remains, given the draw for its fraction. -/
def chunkOf (remaining draw : ℚ) : ℚ :=
  let frac := 2 / 10 + draw * (3 / 10)
  let raw := roundHalfAway (remaining * frac / minChunk) * minChunk
  let ceiling := max (remaining - minChunk) minChunk
  clamp raw minChunk ceiling

/-- The chunk loop from slot `i` on, with `slots` to go. -/
def chunkLoop (draw : ℕ → ℚ) : (slots : ℕ) → (i : ℕ) → ℚ → List ℚ
  | 0, _, _ => []
  | slots + 1, i, remaining =>
    if slots = 0 ∨ remaining ≤ 2 * minChunk then [remaining]
    else
      let chunk := chunkOf remaining (draw i)
      chunk :: chunkLoop draw slots (i + 1) (remaining - chunk)

variable (rng : Rng)

/-- `partial_chunks`. The number of slots is the first word of the generator, the fractions follow. -/
def partialChunks (total : ℚ) (baseSeed : UInt64) (orderId : OrderId) (partialThreshold : ℚ) :
    List ℚ :=
  if total ≤ partialThreshold then [total]
  else
    let seed := rngFor baseSeed orderId .partialChunking 0
    let n := 2 + (rng.genU32 seed 0).toNat % 3
    chunkLoop (fun i => rng.genF64 seed (1 + 2 * i)) n 0 total

/-- The chunks add up to what is split. -/
theorem sum_chunkLoop (draw : ℕ → ℚ) : ∀ (slots i : ℕ) (remaining : ℚ), slots ≠ 0 →
    (chunkLoop draw slots i remaining).sum = remaining
  | 0, _, _, h => absurd rfl h
  | slots + 1, i, remaining, _ => by
    unfold chunkLoop
    split
    · simp
    · rename_i hsplit
      have hslots : slots ≠ 0 := fun h => hsplit (Or.inl h)
      rw [List.sum_cons, sum_chunkLoop draw slots (i + 1) _ hslots]
      ring

theorem sum_partialChunks (total : ℚ) (baseSeed : UInt64) (orderId : OrderId) (threshold : ℚ) :
    (partialChunks rng total baseSeed orderId threshold).sum = total := by
  unfold partialChunks
  split
  · simp
  · exact sum_chunkLoop _ _ _ _ (by omega)

/-! What the code asserts on the way: `f64::clamp` panics when its bounds are not in order, and a
    safety belt checks the chunks at the end. `none` is a panic. -/

def clamp? (x lo hi : ℚ) : Option ℚ := if lo ≤ hi then some (clamp x lo hi) else none

def chunkOf? (remaining draw : ℚ) : Option ℚ :=
  let frac := 2 / 10 + draw * (3 / 10)
  let raw := roundHalfAway (remaining * frac / minChunk) * minChunk
  let ceiling := max (remaining - minChunk) minChunk
  clamp? raw minChunk ceiling

def chunkLoop? (draw : ℕ → ℚ) : (slots : ℕ) → (i : ℕ) → ℚ → Option (List ℚ)
  | 0, _, _ => some []
  | slots + 1, i, remaining =>
    if slots = 0 ∨ remaining ≤ 2 * minChunk then some [remaining]
    else do
      let chunk ← chunkOf? remaining (draw i)
      let chunks ← chunkLoop? draw slots (i + 1) (remaining - chunk)
      return chunk :: chunks

def partialChunks? (total : ℚ) (baseSeed : UInt64) (orderId : OrderId) (partialThreshold : ℚ) :
    Option (List ℚ) :=
  if total ≤ partialThreshold then some [total]
  else do
    let seed := rngFor baseSeed orderId .partialChunking 0
    let n := 2 + (rng.genU32 seed 0).toNat % 3
    let chunks ← chunkLoop? (fun i => rng.genF64 seed (1 + 2 * i)) n 0 total
    if (∀ c ∈ chunks, minChunk - 1 / 10 ^ 9 ≤ c) ∧ |chunks.sum - total| < 1 / 10 ^ 6 then
      return chunks
    else none

theorem chunkOf?_eq (remaining draw : ℚ) : chunkOf? remaining draw = some (chunkOf remaining draw) :=
  if_pos (le_max_right _ _)

/-- A chunk of more than two lots is a lot at least, and leaves one at least. -/
theorem chunkOf_bounds {remaining : ℚ} (h : 2 * minChunk < remaining) (draw : ℚ) :
    minChunk ≤ chunkOf remaining draw ∧ minChunk ≤ remaining - chunkOf remaining draw := by
  have hlot : minChunk ≤ remaining - minChunk := by linarith
  have hclamp : ∀ x, minChunk ≤ clamp x minChunk (remaining - minChunk) ∧
      clamp x minChunk (remaining - minChunk) ≤ remaining - minChunk := by
    intro x
    unfold clamp
    split_ifs with hlo hhi
    · exact ⟨le_refl _, hlot⟩
    · exact ⟨hlot, le_refl _⟩
    · exact ⟨not_lt.mp hlo, not_lt.mp hhi⟩
  obtain ⟨hge, hle⟩ :=
    hclamp (roundHalfAway (remaining * (2 / 10 + draw * (3 / 10)) / minChunk) * minChunk)
  rw [chunkOf, max_eq_left hlot]
  exact ⟨hge, by linarith⟩

/-- The loop splits a lot or more into at most as many chunks as there are slots. -/
theorem chunkLoop_spec (draw : ℕ → ℚ) {slots : ℕ} (hslots : slots ≠ 0) (i : ℕ) {remaining : ℚ}
    (h : minChunk ≤ remaining) :
    chunkLoop? draw slots i remaining = some (chunkLoop draw slots i remaining) ∧
      1 ≤ (chunkLoop draw slots i remaining).length ∧
      (chunkLoop draw slots i remaining).length ≤ slots ∧
      ∀ c ∈ chunkLoop draw slots i remaining, minChunk ≤ c := by
  induction slots generalizing i remaining with
  | zero => exact absurd rfl hslots
  | succ slots ih =>
    rw [chunkLoop?, chunkLoop]
    by_cases hlast : slots = 0 ∨ remaining ≤ 2 * minChunk
    · rw [if_pos hlast, if_pos hlast]
      exact ⟨rfl, le_refl _, by simp, by simpa using h⟩
    · rw [if_neg hlast, if_neg hlast]
      obtain ⟨hmore, hsplits⟩ := not_or.mp hlast
      obtain ⟨hge, hleft⟩ := chunkOf_bounds (not_le.mp hsplits) (draw i)
      obtain ⟨hloop, -, hle, hall⟩ := ih hmore (i + 1) hleft
      refine ⟨?_, by simp, by simpa using hle, List.forall_mem_cons.mpr ⟨hge, hall⟩⟩
      rw [chunkOf?_eq]
      simp only [Option.bind_eq_bind, Option.bind_some, hloop]
      rfl

/-- What `partial_chunks` returns for a lot or more is an exact partition, and nothing it asserts
    fails. -/
theorem partialChunks_partitions (total : ℚ) (baseSeed : UInt64) (orderId : OrderId)
    (partialThreshold : ℚ) (h : 100 ≤ total) :
    ∃ chunks, partialChunks? rng total baseSeed orderId partialThreshold = some chunks ∧
      chunks = partialChunks rng total baseSeed orderId partialThreshold ∧
      1 ≤ chunks.length ∧ chunks.length ≤ 4 ∧ (1 < chunks.length → ∀ c ∈ chunks, 100 ≤ c) ∧
      chunks.sum = total := by
  have hsum := sum_partialChunks rng total baseSeed orderId partialThreshold
  by_cases hsmall : total ≤ partialThreshold
  · have hone : partialChunks rng total baseSeed orderId partialThreshold = [total] := if_pos hsmall
    refine ⟨[total], if_pos hsmall, hone.symm, le_refl _, by simp, fun hmany => ?_, by simp⟩
    exact absurd hmany (lt_irrefl _)
  · let seed := rngFor baseSeed orderId .partialChunking 0
    let n := 2 + (rng.genU32 seed 0).toNat % 3
    have hn : n ≠ 0 ∧ n ≤ 4 := by omega
    have hchunks : partialChunks rng total baseSeed orderId partialThreshold =
        chunkLoop (fun i => rng.genF64 seed (1 + 2 * i)) n 0 total := if_neg hsmall
    obtain ⟨hloop, hge, hle, hall⟩ :=
      chunkLoop_spec (fun i => rng.genF64 seed (1 + 2 * i)) hn.1 0 h
    rw [← hchunks] at hloop hge hle hall
    refine ⟨_, ?_, rfl, hge, hle.trans hn.2, fun _ => hall, hsum⟩
    have hbelt : (∀ c ∈ partialChunks rng total baseSeed orderId partialThreshold,
        minChunk - 1 / 10 ^ 9 ≤ c) ∧
        |(partialChunks rng total baseSeed orderId partialThreshold).sum - total| < 1 / 10 ^ 6 := by
      refine ⟨fun c hc => ?_, ?_⟩
      · have hc := hall c hc
        linarith
      · rw [hsum, sub_self, abs_zero]
        norm_num
    rw [partialChunks?, if_neg hsmall]
    dsimp only
    rw [hloop]
    simp only [Option.bind_eq_bind, Option.bind_some]
    rw [if_pos hbelt]
    rfl

/-- 1000 shares in two chunks, with a generator that gives nothing but zeros. -/
theorem partialChunks_partitions_thousand :
    let rng : Rng := ⟨fun _ _ => 0, fun _ _ => 0⟩
    ∃ chunks, partialChunks? rng 1000 42 7 500 = some chunks ∧
      chunks = partialChunks rng 1000 42 7 500 ∧
      1 ≤ chunks.length ∧ chunks.length ≤ 4 ∧ (1 < chunks.length → ∀ c ∈ chunks, 100 ≤ c) ∧
      chunks.sum = 1000 :=
  partialChunks_partitions ⟨fun _ _ => 0, fun _ _ => 0⟩ 1000 42 7 500 (by norm_num)

end Chunks

/-! ### What a look at the market changes -/

/-- A look at the market may set the stop flag of the record, and changes nothing else. -/
theorem maybeFill_record (o : OrderRecord) (mid bid ask : ℚ) (now : VirtualInstant)
    (slippage : SlippageKind) :
    (maybeFill o mid bid ask now slippage).2 =
      { o with stopTriggered := (maybeFill o mid bid ask now slippage).2.stopTriggered } := by
  have harm : ∀ o', o.armStop mid = some o' → o' = { o with stopTriggered := true } := by
    intro o' h
    unfold OrderRecord.armStop at h
    split at h
    · rename_i ht
      cases h
      rw [← ht]
    · obtain ⟨stop, -, h⟩ := Option.bind_eq_some_iff.mp h
      split at h <;> simp_all
  simp only [maybeFill, OrderRecord.fillPrice]
  split
  · rfl
  · rfl
  all_goals
    split
    · rfl
    · rename_i o' ho'
      rw [harm o' ho']

/-- A fill is for what remains of the order. -/
theorem shares_of_maybeFill {o : OrderRecord} {mid bid ask : ℚ} {now : VirtualInstant}
    {slippage : SlippageKind} {fill : Fill}
    (h : (maybeFill o mid bid ask now slippage).1 = some fill) : fill.shares = o.remainingQty := by
  obtain ⟨price, -, rfl⟩ := Option.map_eq_some_iff.mp h
  rfl

/-- The status plays no part in whether an order fills. -/
theorem maybeFill_status (o : OrderRecord) (status : OrderStatusCode) (mid bid ask : ℚ)
    (now : VirtualInstant) (slippage : SlippageKind) :
    maybeFill { o with status := status } mid bid ask now slippage =
      ((maybeFill o mid bid ask now slippage).1,
        { (maybeFill o mid bid ask now slippage).2 with status := status }) := by
  have harm : OrderRecord.armStop { o with status := status } mid =
      (o.armStop mid).map fun o' => { o' with status := status } := by
    simp only [OrderRecord.armStop]
    split
    · rfl
    · cases o.auxPrice with
      | none => rfl
      | some stop =>
        simp only [Option.bind_some]
        split <;> rfl
  simp only [maybeFill, OrderRecord.fillPrice, harm]
  generalize o.armStop mid = armed
  obtain ⟨_, _, _, kind⟩ := o
  cases kind with
  | market => rfl
  | limit => rfl
  | stop => cases armed <;> rfl
  | stopLimit => cases armed <;> rfl

end Midas.IbSim
