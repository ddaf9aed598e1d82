import HandOfMidas.Candles.CandleBuffer
import HandOfMidas.Lib.Run

/-! The rows of a candle buffer stay in the order of time, but for `update_last`, which takes any time;
    and sub-bars that come in order fold into one row for each bucket. -/

namespace Midas.Candles

open Upsert

variable {F : Type}

namespace CandleBuffer

/-- All columns have the same length, time goes forward in them, and a range of time is a range of
    rows. -/
structure Sorted (b : CandleBuffer F) : Prop where
  opens : b.opens.length = b.timestamps.length
  highs : b.highs.length = b.timestamps.length
  lows : b.lows.length = b.timestamps.length
  closes : b.closes.length = b.timestamps.length
  volumes : b.volumes.length = b.timestamps.length
  sessions : b.sessions.length = b.timestamps.length
  increasing : b.timestamps.Pairwise (· < ·)
  visible : ∀ (startTs endTs : ℤ) (i : ℕ) (hi : i < b.timestamps.length),
    (b.visibleRange startTs endTs).1 ≤ i ∧ i < (b.visibleRange startTs endTs).2 ↔
      startTs ≤ b.timestamps[i] ∧ b.timestamps[i] ≤ endTs

theorem sorted_ofRows_iff (rows : List (Row F)) (version : ℕ) :
    (ofRows rows version).Sorted ↔ Ascending Row.ts rows := by
  refine ⟨fun h => h.increasing, fun h => ?_⟩
  have hle : (ofRows rows version).timestamps.Pairwise (· ≤ ·) := h.imp le_of_lt
  constructor
  case increasing => exact h
  case visible =>
    intro startTs endTs i hi
    have hge := Search.lt_partitionPoint_iff hle (p := fun ts => decide (ts < startTs))
      (fun x y hxy hy => decide_eq_true (hxy.trans_lt (of_decide_eq_true hy))) hi
    have hgt := Search.lt_partitionPoint_iff hle (p := fun ts => decide (ts ≤ endTs))
      (fun x y hxy hy => decide_eq_true (hxy.trans (of_decide_eq_true hy))) hi
    rw [decide_eq_true_iff] at hge hgt
    exact and_congr (not_lt.symm.trans ((not_congr hge).trans not_lt)) hgt
  all_goals exact (List.length_map _).trans (List.length_map _).symm

end CandleBuffer

/-- A call on a buffer. -/
inductive Op (F : Type) where
  | applyBar (bar : Row F)
  | mergeBar (bar : Row F)
  | updateLast (ts : ℤ) (o h l c : F) (v : UInt32)
  | updateLastPrice (price : F)

section
variable [F32 F]

/-- A call; after a panic there is nothing to call. -/
def step (s : Option (CandleBuffer F)) (op : Op F) : Option (CandleBuffer F) :=
  s.bind fun b =>
    match op with
    | .applyBar bar => b.applyBar bar
    | .mergeBar bar => b.mergeBar bar
    | .updateLast ts o h l c v => b.updateLast ts o h l c v
    | .updateLastPrice price => b.updateLastPrice price

/-- Each `update_last` comes later than the last row but one. -/
def UpdatesInOrder (s : Option (CandleBuffer F)) : Op F → Prop
  | .updateLast ts _ _ _ _ _ => ∀ b ∈ s, ∀ prev ∈ b.timestamps.dropLast.getLast?, prev < ts
  | _ => True

/-- The buffer has not panicked, and its columns are those of rows. -/
def HasRows (s : Option (CandleBuffer F)) : Prop := ∃ rows version, s = some (.ofRows rows version)

/-- The buffer has not panicked, and it is sorted. -/
def StaysSorted (s : Option (CandleBuffer F)) : Prop := ∃ b ∈ s, b.Sorted

omit [F32 F] in
theorem staysSorted_ofRows_iff (rows : List (Row F)) (version : ℕ) :
    StaysSorted (some (.ofRows rows version)) ↔ Ascending Row.ts rows := by
  rw [← CandleBuffer.sorted_ofRows_iff rows version]
  exact ⟨fun ⟨b, hb, hsorted⟩ => Option.some.inj hb ▸ hsorted, fun h => ⟨_, rfl, h⟩⟩

/-- No call panics, and a row stays a row. -/
theorem hasRows_step {s : Option (CandleBuffer F)} (h : HasRows s) (op : Op F) :
    HasRows (step s op) := by
  obtain ⟨rows, version, rfl⟩ := h
  cases op with
  | applyBar bar =>
    obtain ⟨version', h⟩ := CandleBuffer.applyBar_ofRows rows version bar
    exact ⟨_, version', h⟩
  | mergeBar bar =>
    obtain ⟨version', h⟩ := CandleBuffer.mergeBar_ofRows rows version bar
    exact ⟨_, version', h⟩
  | updateLast ts o h l c v =>
    rcases List.eq_nil_or_concat' rows with rfl | ⟨init, x, rfl⟩
    · exact ⟨[], version, rfl⟩
    · exact ⟨_, _, CandleBuffer.updateLast_ofRows init x version ts o h l c v⟩
  | updateLastPrice price =>
    rcases List.eq_nil_or_concat' rows with rfl | ⟨init, x, rfl⟩
    · exact ⟨[], version, CandleBuffer.updateLastPrice_nil version price⟩
    by_cases hfinite : F32.isFinite price = true
    · exact ⟨_, _, CandleBuffer.updateLastPrice_ofRows init x version hfinite⟩
    · exact ⟨_, version, by simp [step, CandleBuffer.updateLastPrice, hfinite]; rfl⟩

/-- A sorted buffer stays sorted over a call exactly when the call is in order. -/
theorem staysSorted_step_iff {s : Option (CandleBuffer F)} (hrows : HasRows s) (h : StaysSorted s)
    (op : Op F) : StaysSorted (step s op) ↔ UpdatesInOrder s op := by
  obtain ⟨rows, version, rfl⟩ := hrows
  have hasc := (staysSorted_ofRows_iff rows version).mp h
  cases op with
  | applyBar bar =>
    obtain ⟨version', hstep⟩ := CandleBuffer.applyBar_ofRows rows version bar
    refine iff_of_true ?_ trivial
    refine (congrArg StaysSorted hstep).mpr ((staysSorted_ofRows_iff _ _).mpr ?_)
    exact ascending_upsert (fun _ _ _ => rfl) hasc bar
  | mergeBar bar =>
    obtain ⟨version', hstep⟩ := CandleBuffer.mergeBar_ofRows rows version bar
    have hmerge (x a : Row F) (heq : x.ts = a.ts) : (CandleBuffer.mergeRow x a).ts = a.ts := heq
    refine iff_of_true ?_ trivial
    refine (congrArg StaysSorted hstep).mpr ((staysSorted_ofRows_iff _ _).mpr ?_)
    exact ascending_upsert hmerge hasc bar
  | updateLast ts open' high low c v =>
    rcases List.eq_nil_or_concat' rows with rfl | ⟨init, x, rfl⟩
    · refine iff_of_true h ?_
      simp [UpdatesInOrder, CandleBuffer.ofRows]
    have hstep := CandleBuffer.updateLast_ofRows init x version ts open' high low c v
    refine (iff_of_eq (congrArg StaysSorted hstep)).trans ((staysSorted_ofRows_iff _ _).trans ?_)
    rcases List.eq_nil_or_concat' init with rfl | ⟨init, prev, rfl⟩
    · simp [Ascending, UpdatesInOrder, CandleBuffer.ofRows]
    · rw [ascending_concat_concat (ascending_concat.mp hasc).1]
      simp [UpdatesInOrder, CandleBuffer.ofRows]
  | updateLastPrice price =>
    refine iff_of_true ?_ trivial
    rcases List.eq_nil_or_concat' rows with rfl | ⟨init, x, rfl⟩
    · exact (congrArg StaysSorted (CandleBuffer.updateLastPrice_nil version price)).mpr h
    by_cases hfinite : F32.isFinite price = true
    · refine (congrArg StaysSorted (CandleBuffer.updateLastPrice_ofRows init x version hfinite)).mpr ?_
      rw [staysSorted_ofRows_iff]
      rw [ascending_concat] at hasc ⊢
      exact hasc
    · simpa [step, CandleBuffer.updateLastPrice, hfinite] using h

/-! ### Buckets -/

/-- A row of the sub-bars of its bucket. Of the highs it has one that no other one is over, and of the
    lows one that no other one is under. -/
structure Folds (bars : List (Row F)) (r : Row F) : Prop where
  opens : bars.head?.map (·.o) = some r.o
  high : r.h ∈ bars.map (·.h) ∧ ∀ bar ∈ bars, ¬r.h < bar.h
  low : r.l ∈ bars.map (·.l) ∧ ∀ bar ∈ bars, ¬bar.l < r.l
  closes : bars.getLast?.map (·.c) = some r.c
  volume : r.v.toNat = min (bars.map (·.v.toNat)).sum (2 ^ 32 - 1)

theorem toNat_le (v : UInt32) : v.toNat ≤ 2 ^ 32 - 1 := Nat.le_sub_one_of_lt v.toNat_lt

theorem toNat_saturatingAdd (a b : UInt32) :
    (saturatingAdd a b).toNat = min (a.toNat + b.toNat) (2 ^ 32 - 1) :=
  UInt32.toNat_ofNat_of_lt' ((Nat.min_le_right _ _).trans_lt (by decide))

theorem folds_one (a : Row F) : Folds [a] a := by
  refine ⟨rfl, ⟨by simp, ?_⟩, ⟨by simp, ?_⟩, rfl, ?_⟩
  · simpa using F32.irrefl a.h
  · simpa using F32.irrefl a.l
  · simpa using toNat_le a.v

/-- The maximum so far, and the next value. -/
theorem raise_spec {α : Type} {f : α → F} {l : List α} {x : α} {m : F}
    (h : m ∈ l.map f ∧ ∀ a ∈ l, ¬m < f a) :
    raise (f x) m ∈ (l ++ [x]).map f ∧ ∀ a ∈ l ++ [x], ¬raise (f x) m < f a := by
  obtain ⟨hmem, hmax⟩ := h
  unfold raise
  split
  · rename_i hlt
    refine ⟨by simp, fun a ha hover => ?_⟩
    rcases List.mem_append.mp ha with ha | ha
    · exact hmax a ha (F32.trans _ _ _ hlt hover)
    · exact F32.irrefl _ (List.mem_singleton.mp ha ▸ hover)
  · rename_i hnot
    refine ⟨by simpa using .inl (by simpa using hmem), fun a ha => ?_⟩
    rcases List.mem_append.mp ha with ha | ha
    · exact hmax a ha
    · exact List.mem_singleton.mp ha ▸ hnot

/-- The minimum so far, and the next value. -/
theorem lower_spec {α : Type} {f : α → F} {l : List α} {x : α} {m : F}
    (h : m ∈ l.map f ∧ ∀ a ∈ l, ¬f a < m) :
    lower (f x) m ∈ (l ++ [x]).map f ∧ ∀ a ∈ l ++ [x], ¬f a < lower (f x) m := by
  obtain ⟨hmem, hmin⟩ := h
  unfold lower
  split
  · rename_i hlt
    refine ⟨by simp, fun a ha hunder => ?_⟩
    rcases List.mem_append.mp ha with ha | ha
    · exact hmin a ha (F32.trans _ _ _ hunder hlt)
    · exact F32.irrefl _ (List.mem_singleton.mp ha ▸ hunder)
  · rename_i hnot
    refine ⟨by simpa using .inl (by simpa using hmem), fun a ha => ?_⟩
    rcases List.mem_append.mp ha with ha | ha
    · exact hmin a ha
    · exact List.mem_singleton.mp ha ▸ hnot

theorem folds_concat {bars : List (Row F)} {x : Row F} (h : Folds bars x) (bar : Row F) :
    Folds (bars ++ [bar]) (CandleBuffer.mergeRow x bar) := by
  refine ⟨?_, raise_spec (f := Row.h) h.high,
    lower_spec (f := Row.l) h.low, by simp [CandleBuffer.mergeRow], ?_⟩
  · have hopens := h.opens
    cases bars with
    | nil => cases hopens
    | cons b bars => exact hopens
  · have hvolume := h.volume
    simp only [CandleBuffer.mergeRow, toNat_saturatingAdd, hvolume, List.map_append, List.map_cons,
      List.map_nil,
      List.sum_append, List.sum_singleton]
    omega

/-- Sub-bars one after the other. -/
theorem run_mergeBar (bars : List (Row F)) :
    ∃ version, run step (some .new) (bars.map .mergeBar) =
      some (.ofRows (bars.foldl (upsert Row.ts CandleBuffer.mergeRow) []) version) := by
  induction bars using List.reverseRecOn with
  | nil => exact ⟨0, rfl⟩
  | append_singleton bars bar ih =>
    obtain ⟨version, hrun⟩ := ih
    obtain ⟨version', hstep⟩ := CandleBuffer.mergeBar_ofRows
      (bars.foldl (upsert Row.ts CandleBuffer.mergeRow) []) version bar
    refine ⟨version', ?_⟩
    rw [List.map_append, List.map_singleton, run_concat, hrun, List.foldl_append]
    exact hstep

/-- A buffer stays sorted exactly as long as its updates are in order, and sub-bars in order of their
    buckets fold into one row for each bucket. -/
theorem sorted_iff_and_folds :
    (∀ ops : List (Op F), AllStates step StaysSorted (some .new) ops ↔
        AllSteps step UpdatesInOrder (some .new) ops) ∧
      ∀ bars : List (Row F), bars.Pairwise (·.ts ≤ ·.ts) →
        ∃ rows version, run step (some .new) (bars.map .mergeBar) = some (.ofRows rows version) ∧
          (∀ r ∈ rows, Folds (bucket Row.ts bars r.ts) r) ∧ ∀ bar ∈ bars, ∃ r ∈ rows,
            r.ts = bar.ts := by
  constructor
  · refine allStates_iff_allSteps step (fun _ op h => hasRows_step h op)
      (fun _ op hrows h => staysSorted_step_iff hrows h op) ⟨[], 0, rfl⟩ ?_
    exact (staysSorted_ofRows_iff [] 0).mpr .nil
  · intro bars hbars
    obtain ⟨version, hrun⟩ := run_mergeBar bars
    have hmerge (x a : Row F) (heq : x.ts = a.ts) : (CandleBuffer.mergeRow x a).ts = a.ts := heq
    have hreduced := reduced_foldl hmerge hbars
    refine ⟨_, version, hrun, fun r hr => ?_, hreduced.all⟩
    exact reduce_induction folds_one (fun _ _ a h => folds_concat h a) (hreduced.reduced r hr)

end

/-- A flat bar at this time. -/
def flat (ts : ℤ) (price : ℚ) (v : UInt32) : Row ℚ := ⟨ts, price, price, price, price, v, .regular⟩

/-- The last of two bars goes to a time between them and the next, and three sub-bars fold into two
    rows. -/
theorem sorted_and_folded :
    AllStates step StaysSorted (some .new)
        [.applyBar (flat 1000 10 1), .applyBar (flat 2000 11 1), .updateLast 1500 11 12 10 11 2] ∧
      ∃ rows version, run step (some .new)
          ([flat 0 10 1, flat 0 12 2, flat 60 11 3].map .mergeBar) = some (.ofRows rows version) ∧
        (∀ r ∈ rows, Folds (bucket Row.ts [flat 0 10 1, flat 0 12 2, flat 60 11 3] r.ts) r) ∧
          ∀ bar ∈ [flat 0 10 1, flat 0 12 2, flat 60 11 3], ∃ r ∈ rows, r.ts = bar.ts := by
  refine ⟨(sorted_iff_and_folds.1 _).mpr ?_, sorted_iff_and_folds.2 _ (by simp [flat])⟩
  simp only [allSteps_cons, allSteps_nil, and_true]
  refine ⟨trivial, trivial, ?_⟩
  simp [UpdatesInOrder, step, CandleBuffer.applyBar, CandleBuffer.new, CandleBuffer.pushWithSession,
    flat]

/-- An update of the last row may take it back before the row ahead of it. -/
theorem update_goes_back :
    ¬StaysSorted (run step (some (.new : CandleBuffer ℚ))
      [.applyBar (flat 1000 10 1), .applyBar (flat 2000 11 1), .updateLast 500 11 12 10 11 2]) := by
  rintro ⟨b, hb, hsorted⟩
  have htimes : b.timestamps = [1000, 500] := by
    cases hb
    rfl
  have hincreasing := htimes ▸ hsorted.increasing
  exact absurd hincreasing (by decide)

end Midas.Candles
