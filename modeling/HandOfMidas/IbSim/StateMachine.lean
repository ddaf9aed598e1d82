import HandOfMidas.IbSim.Types
import Mathlib.Tactic.Simps.Basic
import Mathlib.Algebra.Order.Field.Rat

/-! The order state machine of the IB simulator (`orders/state_machine.rs`): the record of an order
    and the statuses it may go through, by kind. And the fill patterns (`orders/patterns.rs`): the
    scripted orders in which the messages of a fill are generated, and the jitter on their offsets. -/

namespace Midas.IbSim

structure OrderRecord where
  orderId : OrderId
  contract : ContractSpec
  side : Side
  kind : OrderKind
  limitPrice : Option ℚ
  auxPrice : Option ℚ
  totalQty : ℚ
  filledQty : ℚ
  remainingQty : ℚ
  avgFillPrice : ℚ
  status : OrderStatusCode
  stopTriggered : Bool
  tif : String
  account : String
  parentId : Option OrderId
  ocaGroup : Option String
  createdAt : VirtualInstant
  deriving DecidableEq

open OrderStatusCode in
/-- May an order of this kind go from one status to the other? -/
def transitionAllowed (kind : OrderKind) (src tgt : OrderStatusCode) : Bool :=
  if tgt = cancelled ∨ tgt = apiCancelled then
    !(src = filled ∨ src = cancelled ∨ src = apiCancelled : Bool)
  else if tgt = inactive then src = apiPending
  else if src = inactive then tgt = preSubmitted ∨ tgt = submitted
  else
    match kind with
    | .market =>
      match src, tgt with
      | apiPending, pendingSubmit
      | apiPending, preSubmitted | pendingSubmit, preSubmitted
      | preSubmitted, submitted
      | preSubmitted, partiallyFilled | submitted, partiallyFilled
      | preSubmitted, filled | submitted, filled | partiallyFilled, filled => true
      | _, _ => false
    | .limit =>
      match src, tgt with
      | apiPending, pendingSubmit
      | apiPending, preSubmitted | pendingSubmit, preSubmitted
      | preSubmitted, submitted
      | submitted, partiallyFilled
      | submitted, filled | partiallyFilled, filled
      | preSubmitted, partiallyFilled | preSubmitted, filled => true
      | _, _ => false
    | .stop | .stopLimit =>
      match src, tgt with
      | apiPending, pendingSubmit
      | apiPending, preSubmitted | pendingSubmit, preSubmitted
      | preSubmitted, submitted
      | submitted, partiallyFilled
      | submitted, filled | partiallyFilled, filled => true
      | _, _ => false

namespace OrderRecord

def fromPlaceReq (req : PlaceOrderReq) (now : VirtualInstant) : OrderRecord where
  orderId := req.orderId
  contract := req.contract
  side := req.side
  kind := req.kind
  limitPrice := req.limitPrice
  auxPrice := req.auxPrice
  totalQty := req.totalQuantity
  filledQty := 0
  remainingQty := req.totalQuantity
  avgFillPrice := 0
  status := .apiPending
  stopTriggered := false
  tif := req.tif
  account := req.account
  parentId := req.parentId
  ocaGroup := req.ocaGroup
  createdAt := now

/-- `is_terminal`, of a status. -/
def isTerminal : OrderStatusCode → Bool
  | .filled | .cancelled | .apiCancelled => true
  | _ => false

/-- `is_filled`; that the remainder is at most `f64::EPSILON` says, in exact arithmetic, that there
    is none. -/
def isFilled (o : OrderRecord) : Bool := o.status = .filled ∧ o.remainingQty ≤ 0

def isCancelled (o : OrderRecord) : Bool := o.status = .cancelled ∨ o.status = .apiCancelled

/-- The record after `transition(target)`; it stays as it is when the transition is not allowed. -/
def transition (o : OrderRecord) (target : OrderStatusCode) : OrderRecord :=
  if transitionAllowed o.kind o.status target then { o with status := target } else o

end OrderRecord

/-! ### What the table says -/

open OrderStatusCode

/-- Nothing follows a terminal status. -/
theorem transitionAllowed_of_isTerminal {kind : OrderKind} {src tgt : OrderStatusCode}
    (h : OrderRecord.isTerminal src = true) : transitionAllowed kind src tgt = false := by
  cases src <;> cases kind <;> cases tgt <;> first | rfl | cases h

/-- An order may be cancelled unless it is terminal. -/
theorem transitionAllowed_cancelled (kind : OrderKind) (src : OrderStatusCode) :
    transitionAllowed kind src cancelled = !OrderRecord.isTerminal src := by
  cases src <;> rfl

/-- A child that waits for its parent may be activated. -/
theorem transitionAllowed_inactive_submitted (kind : OrderKind) :
    transitionAllowed kind inactive submitted = true := rfl

/-- A submitted order of any kind may be filled. -/
theorem transitionAllowed_submitted_filled (kind : OrderKind) :
    transitionAllowed kind submitted filled = true := by
  cases kind <;> rfl

/-- The status after a transition is tried. -/
def statusAfter (kind : OrderKind) (src tgt : OrderStatusCode) : OrderStatusCode :=
  if transitionAllowed kind src tgt then tgt else src

/-- A fill in parts ends where a fill at once does. -/
theorem statusAfter_partiallyFilled_filled (kind : OrderKind) (src : OrderStatusCode) :
    statusAfter kind (statusAfter kind src partiallyFilled) filled = statusAfter kind src filled := by
  cases src <;> cases kind <;> rfl

theorem statusAfter_of_isTerminal {kind : OrderKind} {src tgt : OrderStatusCode}
    (h : OrderRecord.isTerminal src = true) : statusAfter kind src tgt = src := by
  simp [statusAfter, transitionAllowed_of_isTerminal h]

namespace OrderRecord

variable (o : OrderRecord) (target : OrderStatusCode)

theorem transition_of_not_allowed (h : transitionAllowed o.kind o.status target = false) :
    o.transition target = o := if_neg (by simp [h])

/-- A transition changes the status and nothing else. -/
theorem transition_eq : o.transition target = { o with status := (o.transition target).status } := by
  unfold transition
  split <;> rfl

@[simp] theorem transition_status :
    (o.transition target).status = statusAfter o.kind o.status target := by
  unfold transition statusAfter
  split <;> rfl

@[simp] theorem transition_orderId : (o.transition target).orderId = o.orderId := by
  rw [transition_eq]

@[simp] theorem transition_kind : (o.transition target).kind = o.kind := by rw [transition_eq]

@[simp] theorem transition_totalQty : (o.transition target).totalQty = o.totalQty := by
  rw [transition_eq]

@[simp] theorem transition_filledQty : (o.transition target).filledQty = o.filledQty := by
  rw [transition_eq]

@[simp] theorem transition_remainingQty : (o.transition target).remainingQty = o.remainingQty := by
  rw [transition_eq]

@[simp] theorem transition_parentId : (o.transition target).parentId = o.parentId := by
  rw [transition_eq]

end OrderRecord

end Midas.IbSim

/-! ### Fill patterns -/

namespace Midas.IbSim

def patternMaxJitterMs : ℕ := 50

inductive PatternKind where | a | b | c
  deriving DecidableEq, Repr

inductive StepKind where
  | openOrderSubmitted
  | openOrderPreSubmitted
  | executionPart (chunkIdx : ℕ)
  | commissionPart (chunkIdx : ℕ)
  | orderStatusPartiallyFilled (chunkIdx : ℕ)
  | orderStatusFilled
  deriving DecidableEq, Repr

/-- The percentages of fills by pattern C, and by B or C, for a kind of order. -/
def patternBounds : OrderKind → ℕ × ℕ
  | .market => (30, 60)
  | .limit => (10, 20)
  | .stop | .stopLimit => (15, 40)

def selectPattern (rng : Rng) (baseSeed : UInt64) (orderId : OrderId) (kind : OrderKind)
    (totalQty partialThreshold : ℚ) : PatternKind :=
  let draw := (rng.genU32 (rngFor baseSeed orderId .patternSelection 0) 0).toNat % 100
  let large := partialThreshold < totalQty
  if large ∧ draw < (patternBounds kind).1 then .c
  else if draw < (patternBounds kind).2 then .b
  else .a

def stepsFor : PatternKind → List (Duration × StepKind)
  | .a =>
    [(fromMillis 0, .openOrderSubmitted),
     (fromMillis 100, .orderStatusFilled),
     (fromMillis 180, .executionPart 0),
     (fromMillis 260, .commissionPart 0)]
  | .b =>
    [(fromMillis 0, .openOrderPreSubmitted),
     (fromMillis 80, .executionPart 0),
     (fromMillis 140, .commissionPart 0),
     (fromMillis 210, .orderStatusFilled)]
  | .c =>
    [(fromMillis 0, .openOrderPreSubmitted),
     (fromMillis 80, .executionPart 0),
     (fromMillis 140, .commissionPart 0),
     (fromMillis 210, .orderStatusPartiallyFilled 0),
     (fromMillis 400, .executionPart 1),
     (fromMillis 470, .commissionPart 1),
     (fromMillis 540, .orderStatusFilled)]

/-- A truncated exponential draw with mean 15 ms, rounded to whole milliseconds. -/
def jitterForStep (rng : Rng) (baseSeed : UInt64) (orderId : OrderId) (stepIdx : UInt32) :
    Duration :=
  let sampleMs := rng.exp (1 / 15) (rngFor baseSeed orderId .patternJitter stepIdx)
  let clamped := max (min sampleMs patternMaxJitterMs) 0
  fromMillis (asU64 (roundHalfAway clamped))

def actualOffset (rng : Rng) (baseOffset : Duration) (baseSeed : UInt64) (orderId : OrderId)
    (stepIdx : UInt32) : Duration :=
  baseOffset + jitterForStep rng baseSeed orderId stepIdx

end Midas.IbSim
