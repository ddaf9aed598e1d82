import HandOfMidas.Blotter.Rows

/-! Replays. What the events of a leg do to its row is one patch, which writes each field that some event
    wrote last; so the events once more leave the row as it is. A bracket that was seen is not made
    again, for its parent is in the index. -/

namespace Midas.Blotter

open Broker Persist Ticker

variable {F : Type}

/-! ### Events of legs -/

/-- The ids that a bracket uses. -/
def BracketCreated.ids (b : BracketCreated F) : List Uuid :=
  b.parentId :: (b.takeProfitId.toList ++ b.stopLossId.toList)

/-- The leg that an event is about. -/
def BrokerEvent.orderId? : BrokerEvent F → Option Uuid
  | .orderSubmitted orderId _ _ => some orderId
  | .orderStatusChanged orderId _ _ _ _ => some orderId
  | .orderFilled orderId | .orderCancelled orderId | .orderRejected orderId => some orderId
  | .bracketCreated _ | .other => none

/-- The ids that an event uses. -/
def BrokerEvent.ids : BrokerEvent F → List Uuid
  | .bracketCreated b => b.ids
  | e => e.orderId?.toList

/-- A bracket uses ids that are new, unless the event is an exact replay. -/
def Follows (history : List (BrokerEvent F)) (e : BrokerEvent F) : Prop :=
  ∀ b, e = .bracketCreated b → e ∈ history ∨
    b.ids.Nodup ∧ ∀ id ∈ b.ids, ∀ x ∈ history, id ∉ x.ids

/-- Every bracket comes before the events of its legs, and uses ids not used before. -/
def Ordered : List (BrokerEvent F) → List (BrokerEvent F) → Prop
  | _, [] => True
  | history, e :: events => Follows history e ∧ Ordered (history ++ [e]) events

/-- The fields that events write, where they do. -/
structure Patch (F : Type) where
  filledQty : Option F := none
  remainingQty : Option F := none
  avgFillPrice : Option F := none
  status : Option OrderStatus := none
  ibOrderId : Option Int32 := none
  ibPermId : Option Int64 := none

namespace Patch

def apply (p : Patch F) (row : OrderRow F) : OrderRow F :=
  { row with
    filledQty := p.filledQty.getD row.filledQty
    remainingQty := p.remainingQty.getD row.remainingQty
    avgFillPrice := p.avgFillPrice.or row.avgFillPrice
    status := p.status.getD row.status
    ibOrderId := p.ibOrderId.or row.ibOrderId
    ibPermId := p.ibPermId.or row.ibPermId }

/-- Write a patch at a time. -/
def write (p : Patch F) (now : UtcTime) (row : OrderRow F) : OrderRow F :=
  { p.apply row with lastUpdateAt := now }

/-- One patch after another: the later one wins. -/
def comp (p q : Patch F) : Patch F where
  filledQty := q.filledQty.or p.filledQty
  remainingQty := q.remainingQty.or p.remainingQty
  avgFillPrice := q.avgFillPrice.or p.avgFillPrice
  status := q.status.or p.status
  ibOrderId := q.ibOrderId.or p.ibOrderId
  ibPermId := q.ibPermId.or p.ibPermId

theorem apply_comp (p q : Patch F) (row : OrderRow F) :
    (p.comp q).apply row = q.apply (p.apply row) := by
  simp only [apply, comp, Option.getD_or, Option.or_assoc]

theorem comp_self (p : Patch F) : p.comp p = p := by
  simp only [comp, Option.or_self]

/-- To write the same again changes nothing. -/
theorem apply_apply (p : Patch F) (row : OrderRow F) : p.apply (p.apply row) = p.apply row := by
  rw [← apply_comp, comp_self]

end Patch

/-- A row without the time of its last update. -/
def OrderRow.timeless (row : OrderRow F) : OrderRow F := { row with lastUpdateAt := 0 }

section
variable [F64 F]

/-- What an event writes. -/
def BrokerEvent.patch : BrokerEvent F → Patch F
  | .orderSubmitted _ ibOrderId ibPermId =>
    { ibOrderId := some ibOrderId, ibPermId := if ibPermId ≠ 0 then some ibPermId else none }
  | .orderStatusChanged _ newStatus filledQty remainingQty avgFillPrice =>
    { filledQty := some filledQty
      remainingQty := some remainingQty
      avgFillPrice := if F64.ltb (F64.lit 0) avgFillPrice then some avgFillPrice else none
      status := some (.fromBrokerStr newStatus) }
  | .orderCancelled _ => { status := some .cancelled }
  | .orderRejected _ => { status := some .rejected }
  | .bracketCreated _ | .orderFilled _ | .other => {}

/-- What an event makes of the row with an id. -/
def BrokerEvent.revise (e : BrokerEvent F) (now : UtcTime) (id : Uuid) (row : OrderRow F) : OrderRow F :=
  if e.orderId? = some id then e.patch.write now row else row

/-- All that a sequence of events writes to the row with an id. -/
def patchOf (id : Uuid) (events : List (BrokerEvent F)) : Patch F :=
  events.foldl (fun p e => if e.orderId? = some id then p.comp e.patch else p) {}

theorem patchOf_concat (id : Uuid) (events : List (BrokerEvent F)) (e : BrokerEvent F) :
    patchOf id (events ++ [e]) =
      if e.orderId? = some id then (patchOf id events).comp e.patch else patchOf id events := by
  rw [patchOf, List.foldl_append]
  rfl

theorem timeless_revise (e : BrokerEvent F) (now : UtcTime) (id : Uuid) (row : OrderRow F) :
    (e.revise now id row).timeless =
      if e.orderId? = some id then e.patch.apply row.timeless else row.timeless := by
  unfold BrokerEvent.revise
  split <;> rfl

/-- What is left of all the revisions of a row, time stamps aside, is one patch. -/
theorem timeless_foldl_revise (id : Uuid) (events : List (BrokerEvent F × UtcTime)) (row : OrderRow F) :
    (events.foldl (fun row e => e.1.revise e.2 id row) row).timeless =
      (patchOf id (events.map (·.1))).apply row.timeless := by
  induction events using List.reverseRecOn with
  | nil => rfl
  | append_singleton events e ih =>
    rw [List.foldl_append, List.foldl_cons, List.foldl_nil, timeless_revise, ih, List.map_append,
      List.map_singleton, patchOf_concat]
    split
    · exact (Patch.apply_comp _ _ _).symm
    · rfl

end

namespace OrderBlotter

/-! ### One event -/

theorem row_updateRow (s : OrderBlotter F) (orderId : Uuid) (f : OrderRow F → OrderRow F)
    (hf : ∀ row, (f row).orderId = row.orderId) (id : Uuid) :
    (s.updateRow orderId f).1.row id =
      (s.row id).map fun row => if orderId = id then f row else row := by
  unfold updateRow
  split
  · rename_i hnone
    split_ifs with h
    · rw [show s.row id = none from h ▸ hnone]
      rfl
    · rw [Option.map_id']
  · rename_i row hrow
    have hid : (f row).orderId = orderId := (hf row).trans (Store.key_of_get? hrow)
    change (s.rows.put (f row)).get? id = _
    rw [Store.get?_put, hid]
    split
    · rename_i h
      subst h
      rw [show s.row id = some row from hrow, Option.map_some, if_pos rfl]
    · rename_i h
      have hne : ¬orderId = id := fun heq => h heq.symm
      simp only [if_neg hne, Option.map_id']
      rfl

theorem updateRow_byParent (s : OrderBlotter F) (orderId : Uuid) (f : OrderRow F → OrderRow F) :
    (s.updateRow orderId f).1.byParent = s.byParent := by
  unfold updateRow
  split <;> rfl

/-- The ids returned are those of the row that was there. -/
theorem updateRow_touched (s : OrderBlotter F) (orderId : Uuid) (f : OrderRow F → OrderRow F) :
    (s.updateRow orderId f).2 = if (s.row orderId).isSome then [orderId] else [] := by
  unfold updateRow row
  split
  · rename_i h
    rw [h]
    rfl
  · rename_i row h
    rw [h]
    rfl

theorem row_updateRow_of_not_mem {s : OrderBlotter F} {orderId id : Uuid}
    {f : OrderRow F → OrderRow F} (hf : ∀ row, (f row).orderId = row.orderId)
    (h : id ∉ (s.updateRow orderId f).2) : (s.updateRow orderId f).1.row id = s.row id := by
  rw [updateRow_touched] at h
  rw [row_updateRow s orderId f hf]
  cases hrow : s.row id with
  | none => rfl
  | some row =>
    rw [Option.map_some, if_neg]
    rintro rfl
    rw [hrow] at h
    exact h List.mem_cons_self

theorem generation_updateRow (s : OrderBlotter F) (orderId : Uuid) (f : OrderRow F → OrderRow F) :
    (s.updateRow orderId f).1.generation = s.generation := by
  unfold updateRow
  split <;> rfl

section
variable [F64 F] {s : OrderBlotter F} {e : BrokerEvent F} {now : UtcTime} {id : Uuid}

/-- An event of a leg writes its patch over the row. -/
theorem applyEvent_leg {orderId : Uuid} (s : OrderBlotter F) (now : UtcTime)
    (h : e.orderId? = some orderId) :
    s.applyEvent e now = s.updateRow orderId (e.patch.write now) := by
  cases e with
  | bracketCreated b => cases h
  | orderSubmitted orderId' ibOrderId ibPermId =>
    obtain rfl := Option.some.inj h
    have hperm (row : OrderRow F) : (if ibPermId ≠ 0 then some ibPermId else row.ibPermId) =
        (if ibPermId ≠ 0 then some ibPermId else none).or row.ibPermId := by
      split <;> rfl
    simp only [applyEvent, applyOrderSubmitted, hperm]
    rfl
  | orderStatusChanged orderId' newStatus filledQty remainingQty avgFillPrice =>
    obtain rfl := Option.some.inj h
    have havg (row : OrderRow F) :
        (if F64.ltb (F64.lit 0) avgFillPrice then some avgFillPrice else row.avgFillPrice) =
          (if F64.ltb (F64.lit 0) avgFillPrice then some avgFillPrice else none).or
            row.avgFillPrice := by
      split <;> rfl
    simp only [applyEvent, applyStatusChanged, havg]
    rfl
  | orderFilled orderId' =>
    obtain rfl := Option.some.inj h
    rfl
  | orderCancelled orderId' =>
    obtain rfl := Option.some.inj h
    rfl
  | orderRejected orderId' =>
    obtain rfl := Option.some.inj h
    rfl
  | other => cases h

theorem apply_fst_row (s : OrderBlotter F) (e : BrokerEvent F) (now : UtcTime) (id : Uuid) :
    (s.apply e now).1.row id = (s.applyEvent e now).1.row id := by
  unfold apply
  dsimp only
  split <;> rfl

theorem apply_fst_byParent (s : OrderBlotter F) (e : BrokerEvent F) (now : UtcTime) :
    (s.apply e now).1.byParent = (s.applyEvent e now).1.byParent := by
  unfold apply
  dsimp only
  split <;> rfl

theorem apply_snd (s : OrderBlotter F) (e : BrokerEvent F) (now : UtcTime) :
    (s.apply e now).2 = (s.applyEvent e now).2 := by
  unfold apply
  dsimp only
  split <;> rfl

theorem row_apply_leg {orderId : Uuid} (h : e.orderId? = some orderId) (id : Uuid) :
    (s.apply e now).1.row id = (s.row id).map (e.revise now id) := by
  have hid (row : OrderRow F) : (e.patch.write now row).orderId = row.orderId := rfl
  rw [apply_fst_row, applyEvent_leg s now h, row_updateRow s orderId _ hid]
  congr 1
  funext row
  unfold BrokerEvent.revise
  rw [h]
  by_cases hid : orderId = id
  · rw [if_pos hid, if_pos (congrArg some hid)]
  · rw [if_neg hid, if_neg fun heq => hid (Option.some.inj heq)]

end

end OrderBlotter

end Midas.Blotter
