import Mathlib.Data.List.Sort
import Mathlib.Data.List.TakeWhile
import Mathlib.Order.Lattice

/-! A priority queue over a linear order, as the list of its values in the order in which they are
    popped. That the list is sorted is a field of the structure. A loop that pops as long as the
    least value meets a condition takes, when the condition is closed downwards, exactly the values
    that meet it. -/

namespace Midas

/-- Values of a linear order, the least one on top. -/
structure Heap (α : Type*) [LinearOrder α] where
  items : List α
  sorted : items.Pairwise (· ≤ ·)

namespace Heap

variable {α : Type*} [LinearOrder α]

def empty : Heap α := ⟨[], .nil⟩

/-- Put a value where its turn is, before its equals. -/
def push (a : α) (h : Heap α) : Heap α where
  items := h.items.orderedInsert (· ≤ ·) a
  sorted := h.sorted.orderedInsert a

/-- Take the top off. -/
def pop (h : Heap α) : Option (α × Heap α) :=
  match h with
  | ⟨[], _⟩ => none
  | ⟨a :: rest, sorted⟩ => some (a, ⟨rest, sorted.of_cons⟩)

/-- Pop as long as the top meets `p`: the values popped, in order, and what is left. -/
def popWhile (p : α → Bool) (h : Heap α) : List α × Heap α :=
  (h.items.takeWhile p, ⟨h.items.dropWhile p, h.sorted.sublist (List.dropWhile_sublist p)⟩)

@[simp] theorem items_empty : (empty : Heap α).items = [] := rfl

theorem mem_push {a b : α} {h : Heap α} : b ∈ (h.push a).items ↔ b = a ∨ b ∈ h.items :=
  List.mem_orderedInsert _

theorem pop_eq_none {h : Heap α} : h.pop = none ↔ h.items = [] := by
  obtain ⟨items, sorted⟩ := h
  cases items with
  | nil => simp [pop]
  | cons a rest => simp [pop]

theorem items_of_pop {h rest : Heap α} {a : α} (hp : h.pop = some (a, rest)) :
    h.items = a :: rest.items := by
  obtain ⟨items, sorted⟩ := h
  cases items with
  | nil => simp [pop] at hp
  | cons b items =>
    obtain ⟨rfl, rfl⟩ := Prod.mk.inj (Option.some.inj hp)
    rfl

/-- The top is the least value. -/
theorem le_of_pop {h rest : Heap α} {a : α} (hp : h.pop = some (a, rest)) :
    ∀ b ∈ rest.items, a ≤ b := by
  have hs := h.sorted
  rw [items_of_pop hp] at hs
  exact fun b hb => List.rel_of_pairwise_cons hs hb

theorem popWhile_append (p : α → Bool) (h : Heap α) :
    (h.popWhile p).1 ++ (h.popWhile p).2.items = h.items :=
  List.takeWhile_append_dropWhile

/-- Whatever is popped meets the condition. -/
theorem of_mem_popped {p : α → Bool} {h : Heap α} {a : α} (ha : a ∈ (h.popWhile p).1) :
    p a = true :=
  List.mem_takeWhile_imp ha

/-- Nothing that meets a downwards closed condition is left. -/
theorem not_of_mem_left {p : α → Bool} (hp : ∀ a b, a ≤ b → p b = true → p a = true) {h : Heap α}
    {a : α} (ha : a ∈ (h.popWhile p).2.items) : p a = false := by
  obtain ⟨items, sorted⟩ := h
  change a ∈ items.dropWhile p at ha
  induction items with
  | nil => simp at ha
  | cons b items ih =>
    by_cases hb : p b = true
    · rw [List.dropWhile_cons_of_pos hb] at ha
      exact ih sorted.of_cons ha
    · rw [List.dropWhile_cons_of_neg hb] at ha
      rcases List.mem_cons.mp ha with rfl | ha
      · simpa using hb
      · have hle := List.rel_of_pairwise_cons sorted ha
        by_contra hpa
        exact hb (hp b a hle (by simpa using hpa))

theorem mem_popped {p : α → Bool} (hp : ∀ a b, a ≤ b → p b = true → p a = true) {h : Heap α} {a : α} :
    a ∈ (h.popWhile p).1 ↔ a ∈ h.items ∧ p a = true := by
  refine ⟨fun ha => ⟨?_, of_mem_popped ha⟩, fun ⟨ha, hpa⟩ => ?_⟩
  · rw [← popWhile_append p h]
    exact List.mem_append_left _ ha
  · rw [← popWhile_append p h] at ha
    refine (List.mem_append.mp ha).resolve_right fun hleft => ?_
    rw [not_of_mem_left hp hleft] at hpa
    exact Bool.false_ne_true hpa

theorem mem_left {p : α → Bool} (hp : ∀ a b, a ≤ b → p b = true → p a = true) {h : Heap α} {a : α} :
    a ∈ (h.popWhile p).2.items ↔ a ∈ h.items ∧ p a = false := by
  refine ⟨fun ha => ⟨?_, not_of_mem_left hp ha⟩, fun ⟨ha, hpa⟩ => ?_⟩
  · rw [← popWhile_append p h]
    exact List.mem_append_right _ ha
  · rw [← popWhile_append p h] at ha
    refine (List.mem_append.mp ha).resolve_left fun hpop => ?_
    rw [of_mem_popped hpop] at hpa
    exact Bool.false_ne_true hpa.symm

end Heap

end Midas
