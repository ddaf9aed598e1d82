import HandOfMidas.Broker.OrderClient
import HandOfMidas.Lib.Store
import HandOfMidas.Persist.LocalOrder
import HandOfMidas.Ticker.Bracket

/-! The order blotter (`order_blotter/mod.rs`): a row for each leg of a bracket, made of the events that
    the broker sends, and an index of the legs by their parent. The clock is an argument. The index
    lists each row once and under its parent: a row that is put in under an id that is new keeps it so,
    and hydration builds it again from nothing. -/

namespace Midas.Blotter

open Broker Persist Ticker

inductive LegRole where | entry | takeProfit | stopLoss
  deriving DecidableEq

inductive OrderStatus where | working | partiallyFilled | filled | cancelled | rejected
  deriving DecidableEq

/-- `OrderStatus::from_broker_str`. -/
def OrderStatus.fromBrokerStr : String → OrderStatus
  | "Filled" => .filled
  | "PartiallyFilled" | "PartialFilled" | "Partial" => .partiallyFilled
  | "Cancelled" | "ApiCancelled" | "PendingCancel" => .cancelled
  | "Rejected" | "Inactive" => .rejected
  | _ => .working

structure OrderRow (F : Type) where
  orderId : Uuid
  parentId : Uuid
  legRole : LegRole
  symbol : String
  side : OrderAction
  kind : OrderKind
  quantity : F
  filledQty : F
  remainingQty : F
  avgFillPrice : Option F
  limitPrice : Option F
  stopPrice : Option F
  tpPrice : Option F
  slPrice : Option F
  status : OrderStatus
  timeInForce : Option TimeInForce
  ibOrderId : Option Int32
  ibPermId : Option Int64
  createdAt : UtcTime
  lastUpdateAt : UtcTime

/-- `BrokerEvent::BracketCreated`. -/
structure BracketCreated (F : Type) where
  parentId : Uuid
  takeProfitId : Option Uuid
  stopLossId : Option Uuid
  symbol : String
  action : OrderAction
  quantity : F
  tpPrice : Option F
  slPrice : Option F
  entryKind : OrderKind
  entryLimitPrice : Option F
  entryStopPrice : Option F
  slLimitPrice : Option F
  tpTif : Option TimeInForce
  slTif : Option TimeInForce

/-- `BrokerEvent`; `other` stands for the variants that the blotter has no use for. -/
inductive BrokerEvent (F : Type) where
  | bracketCreated (bracket : BracketCreated F)
  | orderSubmitted (orderId : Uuid) (ibOrderId : Int32) (ibPermId : Int64)
  | orderStatusChanged (orderId : Uuid) (newStatus : String) (filledQty remainingQty avgFillPrice : F)
  | orderFilled (orderId : Uuid)
  | orderCancelled (orderId : Uuid)
  | orderRejected (orderId : Uuid)
  | other

/-- The legs of a parent. -/
structure Siblings where
  parentId : Uuid
  ids : List Uuid

structure OrderBlotter (F : Type) where
  rows : Store (OrderRow.orderId (F := F))
  byParent : Store Siblings.parentId
  generation : UInt64

namespace OrderBlotter

variable {F : Type}

def new : OrderBlotter F := ⟨.empty, .empty, 0⟩

def row (s : OrderBlotter F) (id : Uuid) : Option (OrderRow F) := s.rows.get? id

/-- What `by_parent` lists under a parent. -/
def children (s : OrderBlotter F) (parentId : Uuid) : List Uuid :=
  ((s.byParent.get? parentId).map (·.ids)).getD []

/-- A row is put in and listed under its parent. -/
def insertLeg (s : OrderBlotter F) (row : OrderRow F) : OrderBlotter F :=
  { s with
    rows := s.rows.put row
    byParent := s.byParent.put ⟨row.parentId, s.children row.parentId ++ [row.orderId]⟩ }

/-- `hydrate`. -/
def hydrate (s : OrderBlotter F) (rows : List (OrderRow F)) : OrderBlotter F :=
  let s := rows.foldl insertLeg { s with rows := .empty, byParent := .empty }
  { s with generation := s.generation + 1 }

section
variable [F64 F]

/-- The row of a leg that nothing has happened to. -/
def legRow (b : BracketCreated F) (now : UtcTime) (orderId : Uuid) (legRole : LegRole)
    (side : OrderAction) (kind : OrderKind) (limitPrice stopPrice : Option F)
    (timeInForce : Option TimeInForce) : OrderRow F where
  orderId
  parentId := b.parentId
  legRole
  symbol := b.symbol
  side
  kind
  quantity := b.quantity
  filledQty := F64.lit 0
  remainingQty := b.quantity
  avgFillPrice := none
  limitPrice
  stopPrice
  tpPrice := b.tpPrice
  slPrice := b.slPrice
  status := .working
  timeInForce
  ibOrderId := none
  ibPermId := none
  createdAt := now
  lastUpdateAt := now

/-- Take profit and stop loss close the position. -/
def childSide : OrderAction → OrderAction
  | .buy => .sell
  | .sell => .buy

def entryRow (b : BracketCreated F) (now : UtcTime) : OrderRow F :=
  legRow b now b.parentId .entry b.action b.entryKind b.entryLimitPrice b.entryStopPrice none

def takeProfitRow (b : BracketCreated F) (now : UtcTime) : Option (OrderRow F) :=
  match b.takeProfitId, b.tpPrice with
  | some id, some price =>
    some (legRow b now id .takeProfit (childSide b.action) .limit (some price) none b.tpTif)
  | _, _ => none

def stopLossRow (b : BracketCreated F) (now : UtcTime) : Option (OrderRow F) :=
  match b.stopLossId, b.slPrice with
  | some id, some price =>
    let kind := if b.slLimitPrice.isSome then .stopLimit else .stop
    some (legRow b now id .stopLoss (childSide b.action) kind b.slLimitPrice (some price) b.slTif)
  | _, _ => none

def legRows (b : BracketCreated F) (now : UtcTime) : List (OrderRow F) :=
  entryRow b now :: ((takeProfitRow b now).toList ++ (stopLossRow b now).toList)

/-- `apply_bracket_created`. -/
def applyBracketCreated (s : OrderBlotter F) (b : BracketCreated F) (now : UtcTime) :
    OrderBlotter F × List Uuid :=
  if (s.byParent.get? b.parentId).isSome then (s, [])
  else ((legRows b now).foldl insertLeg s, (legRows b now).map (·.orderId))

/-- Write over a row, if there is one. -/
def updateRow (s : OrderBlotter F) (orderId : Uuid) (f : OrderRow F → OrderRow F) :
    OrderBlotter F × List Uuid :=
  match s.rows.get? orderId with
  | none => (s, [])
  | some row => ({ s with rows := s.rows.put (f row) }, [orderId])

/-- `apply_order_submitted`. -/
def applyOrderSubmitted (s : OrderBlotter F) (orderId : Uuid) (ibOrderId : Int32) (ibPermId : Int64)
    (now : UtcTime) : OrderBlotter F × List Uuid :=
  s.updateRow orderId fun row =>
    { row with
      ibOrderId := some ibOrderId
      ibPermId := if ibPermId ≠ 0 then some ibPermId else row.ibPermId
      lastUpdateAt := now }

/-- `apply_status_changed`. -/
def applyStatusChanged (s : OrderBlotter F) (orderId : Uuid) (newStatus : String)
    (filledQty remainingQty avgFillPrice : F) (now : UtcTime) : OrderBlotter F × List Uuid :=
  s.updateRow orderId fun row =>
    { row with
      filledQty := filledQty
      remainingQty := remainingQty
      avgFillPrice :=
        if F64.ltb (F64.lit 0) avgFillPrice then some avgFillPrice else row.avgFillPrice
      status := .fromBrokerStr newStatus
      lastUpdateAt := now }

/-- `apply_order_filled`. -/
def applyOrderFilled (s : OrderBlotter F) (orderId : Uuid) (now : UtcTime) :
    OrderBlotter F × List Uuid :=
  s.updateRow orderId fun row => { row with lastUpdateAt := now }

/-- `apply_terminal_status`. -/
def applyTerminalStatus (s : OrderBlotter F) (orderId : Uuid) (status : OrderStatus) (now : UtcTime) :
    OrderBlotter F × List Uuid :=
  s.updateRow orderId fun row => { row with status := status, lastUpdateAt := now }

/-- What an event does to rows and index. -/
def applyEvent (s : OrderBlotter F) (event : BrokerEvent F) (now : UtcTime) :
    OrderBlotter F × List Uuid :=
  match event with
  | .bracketCreated b => s.applyBracketCreated b now
  | .orderSubmitted orderId ibOrderId ibPermId => s.applyOrderSubmitted orderId ibOrderId ibPermId now
  | .orderStatusChanged orderId newStatus filledQty remainingQty avgFillPrice =>
    s.applyStatusChanged orderId newStatus filledQty remainingQty avgFillPrice now
  | .orderFilled orderId => s.applyOrderFilled orderId now
  | .orderCancelled orderId => s.applyTerminalStatus orderId .cancelled now
  | .orderRejected orderId => s.applyTerminalStatus orderId .rejected now
  | .other => (s, [])

/-- `apply`, with the ids of the rows that it touched. -/
def apply (s : OrderBlotter F) (event : BrokerEvent F) (now : UtcTime) : OrderBlotter F × List Uuid :=
  let (s, touched) := s.applyEvent event now
  if touched.isEmpty then (s, touched) else ({ s with generation := s.generation + 1 }, touched)

/-- Apply a whole sequence of events, each at its time. -/
def applyAll (s : OrderBlotter F) (events : List (BrokerEvent F × UtcTime)) : OrderBlotter F :=
  events.foldl (fun s e => (s.apply e.1 e.2).1) s

end

end OrderBlotter

end Midas.Blotter

/-! ### The index by parent -/

namespace Midas.Blotter.OrderBlotter

open Persist

variable {F : Type}

/-- `by_parent` lists each row once, under its parent, and nothing else. -/
structure Indexed (s : OrderBlotter F) : Prop where
  listed : ∀ id p, id ∈ s.children p ↔ ∃ row, s.row id = some row ∧ row.parentId = p
  once : ∀ p, (s.children p).Nodup
  inhabited : ∀ p, (s.byParent.get? p).isSome → s.children p ≠ []

variable {s : OrderBlotter F} {row : OrderRow F} {rows : List (OrderRow F)} {id : Uuid}

theorem orderId_of_row (h : s.row id = some row) : row.orderId = id := Store.key_of_get? h

theorem row_insertLeg (s : OrderBlotter F) (row : OrderRow F) (id : Uuid) :
    (s.insertLeg row).row id = if id = row.orderId then some row else s.row id :=
  Store.get?_put s.rows row id

theorem children_insertLeg (s : OrderBlotter F) (row : OrderRow F) (p : Uuid) :
    (s.insertLeg row).children p =
      if p = row.parentId then s.children row.parentId ++ [row.orderId] else s.children p := by
  unfold insertLeg
  rw [children]
  dsimp only
  rw [Store.get?_put]
  split
  · rfl
  · rfl

theorem indexed_empty {s : OrderBlotter F} (hrows : s.rows = .empty) (hparent : s.byParent = .empty) :
    s.Indexed := by
  have hrow (id : Uuid) : s.row id = none := by rw [row, hrows]; rfl
  have hchildren (p : Uuid) : s.children p = [] := by rw [children, hparent]; rfl
  constructor
  · intro id p
    simp [hrow, hchildren]
  · intro p
    rw [hchildren]
    exact List.nodup_nil
  · intro p h
    rw [hparent] at h
    cases h

/-- A parent is in the index when a row has it. -/
theorem Indexed.isSome_iff (h : s.Indexed) (p : Uuid) :
    (s.byParent.get? p).isSome ↔ ∃ id row, s.row id = some row ∧ row.parentId = p := by
  constructor
  · intro hsome
    obtain ⟨id, hid⟩ := List.exists_mem_of_ne_nil _ (h.inhabited p hsome)
    exact ⟨id, (h.listed id p).mp hid⟩
  · rintro ⟨id, hrow⟩
    have hid := (h.listed id p).mpr hrow
    cases hget : s.byParent.get? p with
    | none => simp [children, hget] at hid
    | some e => rfl

/-- A row with a new id is listed under its parent, and the lists of the others stay. -/
theorem Indexed.insertLeg (h : s.Indexed) (hnew : s.row row.orderId = none) :
    (s.insertLeg row).Indexed := by
  constructor
  · intro id p
    rw [children_insertLeg, row_insertLeg]
    by_cases hid : id = row.orderId
    · subst hid
      rw [if_pos rfl]
      have hnot (p : Uuid) : row.orderId ∉ s.children p := by
        rw [h.listed]
        rintro ⟨r, hr, -⟩
        rw [hnew] at hr
        cases hr
      split
      · rename_i hp
        exact ⟨fun _ => ⟨row, rfl, hp.symm⟩, fun _ => List.mem_append_right _ List.mem_cons_self⟩
      · rename_i hp
        refine ⟨fun hmem => absurd hmem (hnot p), ?_⟩
        rintro ⟨r, hr, hpr⟩
        exact absurd (Option.some.inj hr ▸ hpr.symm) hp
    · rw [if_neg hid]
      split
      · rename_i hp
        rw [List.mem_append, List.mem_singleton, or_iff_left hid, hp]
        exact h.listed id row.parentId
      · exact h.listed id p
  · intro p
    rw [children_insertLeg]
    split
    · refine List.nodup_append'.mpr ⟨h.once _, List.nodup_singleton _, fun id hid hmem => ?_⟩
      rw [List.mem_singleton.mp hmem] at hid
      obtain ⟨r, hr, -⟩ := (h.listed _ _).mp hid
      rw [hnew] at hr
      cases hr
    · exact h.once p
  · intro p hsome
    rw [children_insertLeg]
    split
    · exact List.append_ne_nil_of_right_ne_nil _ (List.cons_ne_nil _ _)
    · rename_i hp
      refine h.inhabited p ?_
      have hget := Store.get?_put s.byParent ⟨row.parentId, s.children row.parentId ++ [row.orderId]⟩ p
      rw [if_neg hp] at hget
      rw [← hget]
      exact hsome

/-! ### Several rows -/

theorem row_foldl_of_not_mem (rows : List (OrderRow F)) {s : OrderBlotter F}
    (h : id ∉ rows.map (·.orderId)) : (rows.foldl OrderBlotter.insertLeg s).row id = s.row id := by
  induction rows generalizing s with
  | nil => rfl
  | cons row rows ih =>
    rw [List.map_cons, List.mem_cons, not_or] at h
    rw [List.foldl_cons, ih h.2, row_insertLeg, if_neg h.1]

theorem row_foldl_of_mem {s : OrderBlotter F} (hnodup : (rows.map (·.orderId)).Nodup)
    (h : row ∈ rows) : (rows.foldl OrderBlotter.insertLeg s).row row.orderId = some row := by
  induction rows generalizing s with
  | nil => cases h
  | cons r rows ih =>
    rw [List.map_cons, List.nodup_cons] at hnodup
    rw [List.foldl_cons]
    rcases List.mem_cons.mp h with rfl | h
    · rw [row_foldl_of_not_mem rows hnodup.1, row_insertLeg, if_pos rfl]
    · exact ih hnodup.2 h

theorem generation_foldl (rows : List (OrderRow F)) (s : OrderBlotter F) :
    (rows.foldl OrderBlotter.insertLeg s).generation = s.generation := by
  induction rows generalizing s with
  | nil => rfl
  | cons row rows ih => exact ih _

theorem Indexed.foldl {s : OrderBlotter F} (h : s.Indexed) (hnodup : (rows.map (·.orderId)).Nodup)
    (hnew : ∀ row ∈ rows, s.row row.orderId = none) :
    (rows.foldl OrderBlotter.insertLeg s).Indexed := by
  induction rows generalizing s with
  | nil => exact h
  | cons r rows ih =>
    rw [List.map_cons, List.nodup_cons] at hnodup
    obtain ⟨hr, hnew⟩ := List.forall_mem_cons.mp hnew
    refine ih (h.insertLeg hr) hnodup.2 fun row hrow => ?_
    rw [row_insertLeg, if_neg, hnew row hrow]
    exact fun heq => hnodup.1 (heq ▸ List.mem_map_of_mem hrow)

/-- Hydration from the rows of a blotter, in any order. -/
theorem hydrate_spec (s : OrderBlotter F) {s' : OrderBlotter F} (hrows : rows.Perm s'.rows.items) :
    (s.hydrate rows).Indexed ∧ ∀ id, (s.hydrate rows).row id = s'.row id := by
  have hnodup : (rows.map (·.orderId)).Nodup := Store.nodup_keys_of_perm hrows
  set cleared : OrderBlotter F := { s with rows := .empty, byParent := .empty }
  have hempty (id : Uuid) : cleared.row id = none := rfl
  have hindexed : (rows.foldl OrderBlotter.insertLeg cleared).Indexed :=
    (indexed_empty rfl rfl).foldl hnodup fun row _ => hempty row.orderId
  refine ⟨⟨hindexed.listed, hindexed.once, hindexed.inhabited⟩, fun id => ?_⟩
  change (rows.foldl OrderBlotter.insertLeg cleared).row id = s'.row id
  cases hrow : s'.row id with
  | none =>
    rw [row_foldl_of_not_mem rows, hempty]
    intro hmem
    obtain ⟨row, hmem', rfl⟩ := List.mem_map.mp hmem
    have hget : s'.row row.orderId = some row := Store.get?_of_mem (hrows.mem_iff.mp hmem')
    rw [hget] at hrow
    cases hrow
  | some row =>
    rw [← orderId_of_row hrow]
    exact row_foldl_of_mem hnodup (hrows.mem_iff.mpr (Store.mem_of_get? hrow))

end Midas.Blotter.OrderBlotter
