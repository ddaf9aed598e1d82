import HandOfMidas.IbSim.Types

/-! Bracket groups (`orders/brackets.rs`): a parent with one slot for its take-profit and one for its
    stop-loss. -/

namespace Midas.IbSim

inductive BracketLifecycle where
  | parentWorking | parentFilled | oneChildFilled | complete
  deriving DecidableEq, Repr

structure BracketGroup where
  parentId : OrderId
  takeProfit : Option OrderId
  stopLoss : Option OrderId
  ocaGroup : Option String
  state : BracketLifecycle
  deriving DecidableEq

namespace BracketGroup

def new (parentId : OrderId) (ocaGroup : Option String) : BracketGroup :=
  ⟨parentId, none, none, ocaGroup, .parentWorking⟩

/-- The children in the two slots. -/
def children (g : BracketGroup) : List OrderId := g.takeProfit.toList ++ g.stopLoss.toList

/-- Put a child into the slot for its kind. -/
def slot (g : BracketGroup) (kind : OrderKind) (childId : OrderId) : BracketGroup :=
  match kind with
  | .limit | .market => { g with takeProfit := some childId }
  | .stop | .stopLimit => { g with stopLoss := some childId }

/-- The child in the other slot than `orderId`. -/
def sibling (g : BracketGroup) (orderId : OrderId) : Option OrderId :=
  if g.takeProfit = some orderId then g.stopLoss
  else if g.stopLoss = some orderId then g.takeProfit
  else none

variable {g : BracketGroup} {k c : OrderId}

theorem mem_children : c ∈ g.children ↔ g.takeProfit = some c ∨ g.stopLoss = some c := by
  simp [children]

/-- A sibling is a child too. -/
theorem mem_children_of_sibling (h : g.sibling k = some c) : c ∈ g.children := by
  unfold sibling at h
  rw [mem_children]
  split at h
  · exact Or.inr h
  · split at h
    · exact Or.inl h
    · cases h

@[simp] theorem slot_state (kind : OrderKind) : (g.slot kind c).state = g.state := by
  cases kind <;> rfl

@[simp] theorem slot_parentId (kind : OrderKind) : (g.slot kind c).parentId = g.parentId := by
  cases kind <;> rfl

/-- The children after one more is put into its slot. -/
theorem mem_children_slot {kind : OrderKind} (h : k ∈ (g.slot kind c).children) :
    k = c ∨ k ∈ g.children := by
  rw [mem_children] at h ⊢
  cases kind <;> simp only [slot, Option.some.injEq] at h <;> tauto

end BracketGroup

def bracketActivationMinMs : UInt64 := 5
def bracketActivationMaxMs : UInt64 := 50

/-- How long after its parent's fill a child is activated. -/
def sampleActivationJitter (rng : Rng) (baseSeed : UInt64) (parentId childId : OrderId) : Duration :=
  let draw := rng.genU64 (rngFor baseSeed parentId .bracketActivation childId.toUInt32) 0
  fromMillis (bracketActivationMinMs
    + draw % (bracketActivationMaxMs - bracketActivationMinMs + 1)).toNat

end Midas.IbSim
