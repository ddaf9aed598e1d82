import Mathlib.Algebra.Order.Field.Basic
import Mathlib.Data.Nat.Cast.Order.Field
import Mathlib.Tactic.Linarith
import Mathlib.Tactic.Ring

/-! A token bucket, in exact arithmetic: it is refilled at a steady rate up to its capacity, and each
    admission takes a token. What is in the bucket is what the tightest of all limits leaves that were
    ever set: from any time on, no more than the capacity and what has flowed in since then. -/

namespace Midas.TokenBucket

variable {K : Type} [LinearOrder K]

structure Bucket (K : Type) where
  tokens : K
  last : K

/-- The admissions from `s` on. -/
def since (log : List K) (s : K) : ℕ := log.countP fun t => s ≤ t

theorem since_concat (log : List K) (t s : K) :
    since (log ++ [t]) s = since log s + if s ≤ t then 1 else 0 := by
  simp [since, List.countP_append, List.countP_singleton]

variable [Field K]

/-- Refill up to the capacity for the time that has gone by. -/
def Bucket.refill (capacity rate : K) (b : Bucket K) (now : K) : Bucket K :=
  if now ≤ b.last then b else ⟨min (b.tokens + (now - b.last) * rate) capacity, now⟩

def Bucket.take (b : Bucket K) : Bucket K := { b with tokens := b.tokens - 1 }

/-- The admissions from `s` up to `s + d`. -/
def within (log : List K) (s d : K) : ℕ := log.countP fun t => s ≤ t ∧ t ≤ s + d

theorem within_concat (log : List K) (t s d : K) :
    within (log ++ [t]) s d = within log s d + if s ≤ t ∧ t ≤ s + d then 1 else 0 := by
  simp [within, List.countP_append, List.countP_singleton]

theorem within_le_since (log : List K) (s d : K) : within log s d ≤ since log s := by
  refine List.countP_mono_left ?_
  intro t _ ht
  simp only [decide_eq_true_eq] at ht ⊢
  exact ht.1

/-- The bucket after the admissions of `log`, when it was full at `first`. -/
structure Follows (capacity rate first : K) (log : List K) (b : Bucket K) : Prop where
  started : first ≤ b.last
  past : ∀ t ∈ log, t ≤ b.last
  le : ∀ s ≤ b.last, b.tokens + since log s ≤ capacity + rate * (b.last - s)
  attained : ∃ s, first ≤ s ∧ s ≤ b.last ∧ b.tokens + since log s = capacity + rate * (b.last - s)
  nonneg : 0 ≤ b.tokens
  windows : ∀ s d, 0 ≤ d → within log s d ≤ capacity + rate * d

variable {capacity rate first : K} {log : List K} {b : Bucket K}

/-- Nothing was admitted after the last refill. -/
theorem Follows.since_of_lt (h : Follows capacity rate first log b) {s : K} (hs : b.last < s) :
    since log s = 0 := by
  refine List.countP_eq_zero.mpr ?_
  intro t ht
  simpa using (h.past t ht).trans_lt hs

variable [IsStrictOrderedRing K]

theorem follows_full (hcap : 0 ≤ capacity) (hrate : 0 ≤ rate) (now : K) :
    Follows capacity rate now [] ⟨capacity, now⟩ where
  started := le_refl now
  past := by simp
  le := by
    intro s hs
    have := mul_nonneg hrate (sub_nonneg.mpr hs)
    simpa [since] using this
  attained := ⟨now, le_refl now, le_refl now, by simp [since]⟩
  nonneg := hcap
  windows := by
    intro s d hd
    have := mul_nonneg hrate hd
    simp only [within, List.countP_nil, Nat.cast_zero]
    linarith

theorem Follows.refill (hcap : 0 ≤ capacity) (hrate : 0 ≤ rate) (h : Follows capacity rate first log b)
    (now : K) : Follows capacity rate first log (b.refill capacity rate now) := by
  unfold Bucket.refill
  by_cases hnow : now ≤ b.last
  · rwa [if_pos hnow]
  rw [if_neg hnow]
  replace hnow := lt_of_not_ge hnow
  have hflow : 0 ≤ (now - b.last) * rate := mul_nonneg (sub_nonneg.mpr hnow.le) hrate
  have hsplit : ∀ s, rate * (now - s) = rate * (b.last - s) + (now - b.last) * rate := fun s => by ring
  constructor
  case started => exact h.started.trans hnow.le
  case past => exact fun t ht => (h.past t ht).trans hnow.le
  case nonneg => exact le_min (add_nonneg h.nonneg hflow) hcap
  case windows => exact h.windows
  case le =>
    intro s hs
    simp only at hs ⊢
    rcases le_or_gt s b.last with hold | hnew
    · have hle := h.le s hold
      have hmin := min_le_left (b.tokens + (now - b.last) * rate) capacity
      rw [hsplit]
      linarith
    · have hmin := min_le_right (b.tokens + (now - b.last) * rate) capacity
      have hrest := mul_nonneg hrate (sub_nonneg.mpr hs)
      rw [h.since_of_lt hnew, Nat.cast_zero]
      linarith
  case attained =>
    rcases le_total (b.tokens + (now - b.last) * rate) capacity with hle | hge
    · obtain ⟨s, hfirst, hs, heq⟩ := h.attained
      refine ⟨s, hfirst, hs.trans hnow.le, ?_⟩
      simp only
      rw [min_eq_left hle, hsplit]
      linarith
    · -- the bucket is full again
      refine ⟨now, h.started.trans hnow.le, le_refl now, ?_⟩
      simp only
      rw [min_eq_right hge, h.since_of_lt hnow]
      simp

theorem Follows.take (hrate : 0 ≤ rate) (h : Follows capacity rate first log b)
    (htoken : 1 ≤ b.tokens) :
    Follows capacity rate first (log ++ [b.last]) b.take := by
  constructor
  case started => exact h.started
  case past =>
    intro t ht
    rcases List.mem_append.mp ht with ht | ht
    · exact h.past t ht
    · exact (List.mem_singleton.mp ht).le
  case nonneg => exact sub_nonneg.mpr htoken
  case le =>
    intro s hs
    have hle := h.le s hs
    simp only [Bucket.take] at hs ⊢
    rw [since_concat, if_pos hs]
    push_cast
    linarith
  case attained =>
    obtain ⟨s, hfirst, hs, heq⟩ := h.attained
    refine ⟨s, hfirst, hs, ?_⟩
    simp only [Bucket.take]
    rw [since_concat, if_pos hs]
    push_cast
    linarith
  case windows =>
    intro s d hd
    rw [within_concat]
    by_cases hin : s ≤ b.last ∧ b.last ≤ s + d
    · -- the new admission is in the window, which is part of what was counted since `s`
      have hle := h.le s hin.1
      have hsince : (within log s d : K) ≤ since log s := Nat.cast_le.mpr (within_le_since log s d)
      have hflow : rate * (b.last - s) ≤ rate * d :=
        mul_le_mul_of_nonneg_left (by linarith [hin.2]) hrate
      rw [if_pos hin]
      push_cast
      linarith
    · rw [if_neg hin, Nat.add_zero]
      exact h.windows s d hd

/-- The bucket is empty just where the limit from some time on is reached. -/
theorem Follows.lt_one_iff (h : Follows capacity rate first log b) :
    b.tokens < 1 ↔
      ∃ s, first ≤ s ∧ s ≤ b.last ∧ capacity + rate * (b.last - s) - 1 < since log s := by
  constructor
  · intro hlt
    obtain ⟨s, hfirst, hs, heq⟩ := h.attained
    exact ⟨s, hfirst, hs, by linarith⟩
  · rintro ⟨s, -, hs, hlt⟩
    have := h.le s hs
    linarith

end Midas.TokenBucket
