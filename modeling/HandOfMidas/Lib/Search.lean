import Mathlib.Data.List.Induction
import Mathlib.Data.List.Pairwise
import Mathlib.Data.List.TakeWhile
import Mathlib.Order.Basic

/-! Searches in a sorted row: the first index that a predicate does not hold of, found by halving a
    stretch of indices or as the length of a prefix. And the topmost of a row: what a search from the end
    finds, and what stands last in a row that has been sorted. -/

namespace Midas.Search

/-- The loop `while lo < hi`; `fuel` bounds its rounds. -/
def upperBound (p : ℕ → Bool) : ℕ → ℕ → ℕ → ℕ
  | 0, lo, _ => lo
  | fuel + 1, lo, hi =>
    if lo < hi then
      let mid := (lo + hi) / 2
      if p mid then upperBound p fuel (mid + 1) hi else upperBound p fuel lo mid
    else lo

/-- The predicate holds below the index and fails from it on, up to `n`. -/
structure Splits (p : ℕ → Bool) (n r : ℕ) : Prop where
  le : r ≤ n
  below : ∀ i < r, p i = true
  above : ∀ i, r ≤ i → i < n → p i = false

theorem Splits.unique {p : ℕ → Bool} {n r r' : ℕ} (h : Splits p n r) (h' : Splits p n r') : r = r' := by
  apply le_antisymm <;> by_contra hlt
  · have hr := h.le
    exact absurd (h.below r' (by omega)) (by simp [h'.above r' le_rfl (by omega)])
  · have hr := h'.le
    exact absurd (h'.below r (by omega)) (by simp [h.above r le_rfl (by omega)])

/-- What lies below `lo` and from `hi` on is known, and the loop closes in. -/
theorem splits_upperBound {p : ℕ → Bool} {n : ℕ}
    (hmono : ∀ i j, i ≤ j → j < n → p j = true → p i = true) :
    ∀ {fuel lo hi : ℕ}, hi - lo ≤ fuel → lo ≤ hi → hi ≤ n → (∀ i < lo, p i = true) →
      (∀ i, hi ≤ i → i < n → p i = false) → Splits p n (upperBound p fuel lo hi)
  | 0, lo, hi, hfuel, hle, hn, hbelow, habove => by
    obtain rfl : lo = hi := by omega
    exact ⟨hn, hbelow, habove⟩
  | fuel + 1, lo, hi, hfuel, hle, hn, hbelow, habove => by
    rw [upperBound]
    split
    · simp only
      split
      · rename_i hlt hmid
        refine splits_upperBound hmono (by omega) (by omega) hn (fun i hi => ?_) habove
        exact hmono i ((lo + _) / 2) (by omega) (by omega) hmid
      · rename_i hlt hmid
        refine splits_upperBound hmono (by omega) (by omega) (by omega) hbelow fun i hle hi => ?_
        by_contra hp
        exact hmid (hmono _ i hle hi (by simpa using hp))
    · obtain rfl : lo = hi := by omega
      exact ⟨hn, hbelow, habove⟩

/-- `partition_point` of a slice. -/
def partitionPoint {α : Type*} (p : α → Bool) (l : List α) : ℕ := (l.takeWhile p).length

/-- The search asks the predicate about the entries only. -/
theorem partitionPoint_congr {α : Type*} {p q : α → Bool} {l : List α} (h : ∀ x ∈ l, p x = q x) :
    partitionPoint p l = partitionPoint q l := by
  unfold partitionPoint
  induction l with
  | nil => rfl
  | cons x l ih =>
    have hrest := ih fun y hy => h y (List.mem_cons_of_mem x hy)
    rw [List.takeWhile_cons, List.takeWhile_cons, h x List.mem_cons_self]
    split
    · rw [List.length_cons, List.length_cons, hrest]
    · rfl

/-- The prefix ends at the first entry that the predicate does not hold of. -/
theorem splits_partitionPoint {α : Type*} {p : α → Bool} (d : α) : ∀ {l : List α},
    (∀ i j, i ≤ j → j < l.length → p (l.getD j d) = true → p (l.getD i d) = true) →
      Splits (fun i => p (l.getD i d)) l.length (partitionPoint p l)
  | [], _ => ⟨le_rfl, fun i hi => by simp [partitionPoint] at hi, fun i _ hi => by simp at hi⟩
  | a :: l, hmono => by
    have ih : Splits (fun i => p (l.getD i d)) l.length (partitionPoint p l) :=
      splits_partitionPoint d fun i j hij hj hp =>
        hmono (i + 1) (j + 1) (Nat.succ_le_succ hij) (Nat.succ_lt_succ hj) hp
    cases ha : p a with
    | true =>
      have hpoint : partitionPoint p (a :: l) = partitionPoint p l + 1 := by
        simp [partitionPoint, ha]
      rw [hpoint]
      refine ⟨Nat.succ_le_succ ih.le, fun i hi => ?_, fun i hle hi => ?_⟩
      · cases i with
        | zero => exact ha
        | succ i => exact ih.below i (by omega)
      · cases i with
        | zero => omega
        | succ i => exact ih.above i (by omega) (by simpa using hi)
    | false =>
      have hpoint : partitionPoint p (a :: l) = 0 := by simp [partitionPoint, ha]
      rw [hpoint]
      refine ⟨Nat.zero_le _, fun i hi => absurd hi (Nat.not_lt_zero i), fun i _ hi => ?_⟩
      by_contra hp
      have := hmono 0 i (Nat.zero_le i) hi (by simpa using hp)
      simp [ha] at this

/-- In a row in order, what comes before the point is what a predicate holds of that holds of all
    below. -/
theorem lt_partitionPoint_iff {α : Type*} [Preorder α] {l : List α} (hl : l.Pairwise (· ≤ ·))
    {p : α → Bool}
    (hp : ∀ x y, x ≤ y → p y = true → p x = true) {i : ℕ} (hi : i < l.length) :
    i < partitionPoint p l ↔ p l[i] = true := by
  have hget (j : ℕ) (hj : j < l.length) (d : α) : l.getD j d = l[j] := by simp [hj]
  have hsplits := splits_partitionPoint (p := p) (l := l) l[i] fun j k hjk hk h => by
    have hj := hjk.trans_lt hk
    rw [hget k hk] at h
    rw [hget j hj]
    exact hp _ _ (hl.rel_get_of_le (a := ⟨j, hj⟩) (b := ⟨k, hk⟩) hjk) h
  constructor
  · intro h
    exact hget i hi l[i] ▸ hsplits.below i h
  · intro h
    by_contra hle
    have habove := hsplits.above i (not_lt.mp hle) hi
    rw [hget i hi, h] at habove
    cases habove

/-- Where a predicate only holds of what others hold of too, its prefix is all that it holds of. -/
theorem takeWhile_eq_filter {α : Type*} {p : α → Bool} {l : List α}
    (hp : l.Pairwise fun x y => p y = true → p x = true) : l.takeWhile p = l.filter p := by
  induction l with
  | nil => rfl
  | cons x l ih =>
    obtain ⟨hx, hl⟩ := List.pairwise_cons.mp hp
    by_cases hpx : p x = true
    · rw [List.takeWhile_cons_of_pos hpx, List.filter_cons_of_pos hpx, ih hl]
    · rw [List.takeWhile_cons_of_neg hpx, List.filter_cons_of_neg hpx, eq_comm, List.filter_eq_nil_iff]
      exact fun y hy hpy => hpx (hx y hy hpy)

theorem dropWhile_eq_filter {α : Type*} {p : α → Bool} {l : List α}
    (hp : l.Pairwise fun x y => p y = true → p x = true) : l.dropWhile p = l.filter fun a => !p a := by
  induction l with
  | nil => rfl
  | cons x l ih =>
    obtain ⟨hx, hl⟩ := List.pairwise_cons.mp hp
    by_cases hpx : p x = true
    · rw [List.dropWhile_cons_of_pos hpx, List.filter_cons_of_neg (by simp [hpx]), ih hl]
    · have hnone : ∀ a ∈ x :: l, (!p a) = true := by
        intro a ha
        obtain rfl | ha := List.mem_cons.mp ha
        · simpa using hpx
        · simpa using fun h => hpx (hx a ha h)
      rw [List.dropWhile_cons_of_neg hpx, List.filter_eq_self.mpr hnone]

/-- What passes a test, where the values that pass a stronger one come first. -/
theorem filter_eq_append {α : Type*} {p q : α → Bool} {l : List α} (hqp : ∀ a, q a = true → p a = true)
    (hq : l.Pairwise fun x y => q y = true → q x = true) :
    l.filter p = l.filter q ++ (l.filter fun a => !q a).filter p := by
  induction l with
  | nil => rfl
  | cons x l ih =>
    obtain ⟨hx, hl⟩ := List.pairwise_cons.mp hq
    by_cases hqx : q x = true
    · rw [List.filter_cons_of_pos (hqp x hqx), List.filter_cons_of_pos hqx,
        List.filter_cons_of_neg (by simp [hqx]), List.cons_append, ← ih hl]
    · have hnone : ∀ a ∈ x :: l, ¬q a = true := by
        intro a ha
        obtain rfl | ha := List.mem_cons.mp ha
        · exact hqx
        · exact fun h => hqx (hx a ha h)
      rw [List.filter_eq_nil_iff.mpr hnone, List.nil_append,
        List.filter_eq_self (p := fun a => !q a) |>.mpr fun a ha => by simpa using hnone a ha]

/-- Of two points in a row in order, the first lies no further than the second exactly when the second
    predicate holds of all that the first one holds of. -/
theorem partitionPoint_le_iff {α : Type*} {p q : α → Bool} {l : List α}
    (hp : l.Pairwise fun x y => p y = true → p x = true)
    (hq : l.Pairwise fun x y => q y = true → q x = true) :
    partitionPoint p l ≤ partitionPoint q l ↔ ∀ x ∈ l, p x = true → q x = true := by
  unfold partitionPoint
  rw [takeWhile_eq_filter hp, takeWhile_eq_filter hq]
  constructor
  · intro hle x hx hpx
    have hinit : l.takeWhile p <+: l.takeWhile q := by
      refine List.prefix_of_prefix_length_le (List.takeWhile_prefix p) (List.takeWhile_prefix q) ?_
      rwa [takeWhile_eq_filter hp, takeWhile_eq_filter hq]
    refine List.mem_takeWhile_imp (hinit.subset ?_)
    rw [takeWhile_eq_filter hp]
    exact List.mem_filter.mpr ⟨hx, hpx⟩
  · intro h
    rw [← List.countP_eq_length_filter, ← List.countP_eq_length_filter]
    exact List.countP_mono_left h

/-- Then what lies between the two points is what the second predicate holds of and the first does
    not. -/
theorem extract_partitionPoint {α : Type*} {p q : α → Bool} {l : List α}
    (hp : l.Pairwise fun x y => p y = true → p x = true)
    (hq : l.Pairwise fun x y => q y = true → q x = true) (h : ∀ x ∈ l, p x = true → q x = true) :
    l.extract (partitionPoint p l) (partitionPoint q l) = l.filter fun x => !p x && q x := by
  induction l with
  | nil => simp
  | cons x l ih =>
    obtain ⟨hpx, hpl⟩ := List.pairwise_cons.mp hp
    obtain ⟨hqx, hql⟩ := List.pairwise_cons.mp hq
    by_cases hx : p x = true
    · have hx' := h x List.mem_cons_self hx
      have hih := ih hpl hql fun y hy => h y (List.mem_cons_of_mem x hy)
      unfold partitionPoint at hih ⊢
      rw [List.takeWhile_cons_of_pos hx, List.takeWhile_cons_of_pos hx',
        List.filter_cons_of_neg (by simp [hx])]
      simpa using hih
    · -- From here on the first predicate holds of nothing.
      have hnone : ∀ y ∈ x :: l, p y = false := by
        intro y hy
        rcases List.mem_cons.mp hy with rfl | hy
        · simpa using hx
        · by_contra hpy
          exact hx (hpx y hy (by simpa using hpy))
      have hfilter : (x :: l).filter (fun y => !p y && q y) = (x :: l).filter q := by
        refine List.filter_congr fun y hy => ?_
        rw [hnone y hy, Bool.not_false, Bool.true_and]
      have hq' : (x :: l).take ((x :: l).takeWhile q).length = (x :: l).takeWhile q :=
        (List.prefix_iff_eq_take.mp (List.takeWhile_prefix q)).symm
      unfold partitionPoint
      rw [hfilter, List.takeWhile_cons_of_neg hx, List.length_nil, List.extract_eq_take_drop,
        List.drop_zero,
        Nat.sub_zero, hq', takeWhile_eq_filter hq]

end Midas.Search

namespace Midas.Topmost

variable {α β : Type*}

/-- The last answer that the entries of a row give, each asked with its index. -/
def findLast? (f : ℕ → α → Option β) (l : List α) : Option β :=
  l.zipIdx.reverse.findSome? fun p => f p.2 p.1

theorem findLast?_concat (f : ℕ → α → Option β) (l : List α) (a : α) :
    findLast? f (l ++ [a]) = (f l.length a).or (findLast? f l) := by
  rw [findLast?, List.zipIdx_append, List.reverse_append]
  cases h : f l.length a <;> simp [findLast?, h]

/-- It is the answer of an entry after which none answers. -/
theorem findLast?_eq_some {f : ℕ → α → Option β} {l : List α} {b : β} (h : findLast? f l = some b) :
    ∃ i a, l[i]? = some a ∧ f i a = some b ∧ ∀ j c, l[j]? = some c → i < j → f j c = none := by
  induction l using List.reverseRecOn with
  | nil => cases h
  | append_singleton l a ih =>
    rw [findLast?_concat] at h
    rcases hlast : f l.length a with _ | b'
    · rw [hlast, Option.none_or] at h
      obtain ⟨i, c, hi, hc, hafter⟩ := ih h
      have hlt : i < l.length := (List.getElem?_eq_some_iff.mp hi).1
      refine ⟨i, c, by rw [List.getElem?_append_left hlt, hi], hc, ?_⟩
      intro j d hj hij
      rcases (show j < l.length ∨ j = l.length ∨ l.length < j by omega) with hlt | rfl | hgt
      · rw [List.getElem?_append_left hlt] at hj
        exact hafter j d hj hij
      · rw [List.getElem?_concat_length] at hj
        rw [← Option.some.inj hj, hlast]
      · rw [List.getElem?_eq_none (by simp; omega)] at hj
        cases hj
    · rw [hlast] at h
      refine ⟨l.length, a, List.getElem?_concat_length, by rw [hlast]; exact h, ?_⟩
      intro j d hj hlt
      rw [List.getElem?_eq_none (by simp; omega)] at hj
      cases hj

theorem findLast?_eq_none_iff {f : ℕ → α → Option β} {l : List α} :
    findLast? f l = none ↔ ∀ i a, l[i]? = some a → f i a = none := by
  simp only [findLast?, List.findSome?_eq_none_iff, List.mem_reverse, List.mem_zipIdx_iff_getElem?,
    Prod.forall]
  exact ⟨fun h i a hi => h a i hi, fun h a i hi => h i a hi⟩

/-- Nothing of its kind stands higher than the last of a sorted row. -/
theorem le_getLast?_filter {r : α → α → Prop} (hrefl : ∀ a, r a a) {p : α → Bool} {l : List α}
    (hsorted : l.Pairwise r) {x : α} (h : (l.filter p).getLast? = some x) :
    (x ∈ l ∧ p x = true) ∧ ∀ y ∈ l, p y = true → r y x := by
  obtain ⟨front, hfront⟩ := List.getLast?_eq_some_iff.mp h
  have hx : x ∈ l.filter p := by simp [hfront]
  refine ⟨List.mem_filter.mp hx, ?_⟩
  intro y hy hpy
  have hmem : y ∈ front ++ [x] := hfront ▸ List.mem_filter.mpr ⟨hy, hpy⟩
  have hpairs : (front ++ [x]).Pairwise r := hfront ▸ hsorted.filter p
  rcases List.mem_append.mp hmem with hbelow | hself
  · exact (List.pairwise_append.mp hpairs).2.2 y hbelow x (List.mem_singleton_self x)
  · exact List.mem_singleton.mp hself ▸ hrefl x

end Midas.Topmost
