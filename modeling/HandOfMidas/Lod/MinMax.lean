import HandOfMidas.Candles.Binary
import HandOfMidas.Lib.Groups

/-! Candles downsampled for the screen (`downsample_minmax` in `lod/mod.rs` of `midas-data`): rows
    are put together in groups, each of which is one candle of the output. -/

namespace Midas.Lod

open Candles Calendar Groups

/-- `f32` with its infinities and its NaN, for `f32::max` and `f32::min`. The two zeros count as one. -/
class F32Ends (F : Type) extends F32 F where
  isNan : F → Bool
  negInfinity : F
  infinity : F
  negInfinity_le : ∀ x : F, ¬x < negInfinity
  le_infinity : ∀ x : F, ¬infinity < x
  isNan_negInfinity : isNan negInfinity = false
  isNan_infinity : isNan infinity = false
  not_lt_nan : ∀ x y : F, isNan y = true → ¬x < y ∧ ¬y < x
  eq_of_not_lt : ∀ x y : F, isNan x = false → isNan y = false → ¬x < y → ¬y < x → x = y

/-- Exact numbers between two infinities. -/
instance : F32Ends (WithBot (WithTop ℚ)) where
  decidableLT := inferInstance
  isFinite x := decide (x ≠ ⊥ ∧ x ≠ ⊤)
  irrefl := lt_irrefl
  trans _ _ _ := lt_trans
  isNan _ := false
  negInfinity := ⊥
  infinity := ⊤
  negInfinity_le _ := not_lt_bot
  le_infinity _ := not_top_lt
  isNan_negInfinity := rfl
  isNan_infinity := rfl
  not_lt_nan _ _ h := nomatch h
  eq_of_not_lt _ _ _ _ h h' := le_antisymm (not_lt.mp h') (not_lt.mp h)

variable {F : Type} [F32Ends F]

open F32Ends

/-- The better one of two numbers. A NaN gives way to the other. -/
def better (r : F → F → Prop) [DecidableRel r] (x y : F) : F :=
  if isNan x then y else if isNan y then x else if r x y then y else x

/-- `f32::max`. -/
def fmax : F → F → F := better (· < ·)

/-- `f32::min`. -/
def fmin : F → F → F := better fun x y => y < x

/-- The buckets from row `i` on, `i = end` being the last step. The fuel is for a loop that does not
    end. -/
def buckets (candles : CandleBuffer F) (n target bucketSize : ℕ) :
    ℕ → ℕ → CandleBuffer F → Option (CandleBuffer F)
  | 0, i, out => if i < n then none else some out
  | fuel + 1, i, out =>
    if i < n then do
      let remainingBuckets := target - out.timestamps.length
      -- the last bucket takes all rows that are left
      let stop := if remainingBuckets ≤ 1 then n else min (i + bucketSize) n
      let bucketHighs ← slice candles.highs i stop
      let bucketLows ← slice candles.lows i stop
      let high := bucketHighs.foldl fmax negInfinity
      let low := bucketLows.foldl fmin infinity
      let volume := (← slice candles.volumes i stop).foldl Candles.saturatingAdd 0
      let bar : Row F :=
        ⟨← candles.timestamps[i]?, ← candles.opens[i]?, high, low, ← candles.closes[stop - 1]?, volume,
          .regular⟩
      buckets candles n target bucketSize fuel stop (out.pushWithSession bar)
    else some out

/-- `downsample_minmax`. It panics, or goes on for ever, where this is `none`. -/
def downsampleMinmax (candles : CandleBuffer F) (targetCount : ℕ) : Option (CandleBuffer F) :=
  let n := candles.timestamps.length
  if n = 0 then some .new
  else if n ≤ targetCount then some candles
  else
    let target := max targetCount 1
    buckets candles n target (n / target) n 0 .new

/-! ### The best number of a list -/

/-- `x` is a number of the list that none of them is better than. -/
structure Best (r : F → F → Prop) (xs : List F) (x : F) : Prop where
  mem : x ∈ xs
  number : isNan x = false
  best : ∀ y ∈ xs, ¬r x y

/-- An order that a NaN takes no part in, and that `bottom` is the last of. -/
structure Ranks (r : F → F → Prop) (bottom : F) : Prop where
  trans : ∀ {x y z}, r x y → r y z → r x z
  irrefl : ∀ x, ¬r x x
  eq : ∀ {x y}, isNan x = false → isNan y = false → ¬r x y → ¬r y x → x = y
  nan : ∀ {x y}, isNan y = true → ¬r x y
  last : ∀ x, ¬r x bottom
  number : isNan bottom = false

theorem ranks_max : Ranks (fun x y : F => x < y) negInfinity where
  trans := F32.trans _ _ _
  irrefl := F32.irrefl
  eq := eq_of_not_lt _ _
  nan h := (not_lt_nan _ _ h).1
  last := negInfinity_le
  number := isNan_negInfinity

theorem ranks_min : Ranks (fun x y : F => y < x) infinity where
  trans h h' := F32.trans _ _ _ h' h
  irrefl := F32.irrefl
  eq hx hy h h' := eq_of_not_lt _ _ hx hy h' h
  nan h := (not_lt_nan _ _ h).2
  last := le_infinity
  number := isNan_infinity

section
variable {r : F → F → Prop} {bottom : F}

/-- What is at the head of a fold is a number that is not below where it began, nor below what it
    met. -/
theorem foldl_better [DecidableRel r] (hr : Ranks r bottom) : ∀ (xs : List F) (x : F), isNan x = false →
    isNan (xs.foldl (better r) x) = false ∧ ¬r (xs.foldl (better r) x) x ∧
      (∀ y ∈ xs, ¬r (xs.foldl (better r) x) y) ∧
      (xs.foldl (better r) x = x ∨ xs.foldl (better r) x ∈ xs)
  | [], x, hx => ⟨hx, hr.irrefl x, by simp, .inl rfl⟩
  | y :: xs, x, hx => by
    by_cases hy : isNan y = true
    · have hstep : better r x y = x := by simp [better, hx, hy]
      obtain ⟨hnum, hge, hall, hmem⟩ := foldl_better hr xs x hx
      rw [List.foldl_cons, hstep]
      refine ⟨hnum, hge, ?_, hmem.imp_right (List.mem_cons_of_mem y)⟩
      intro z hz
      rcases List.mem_cons.mp hz with rfl | hz
      · exact hr.nan hy
      · exact hall z hz
    · have hy' : isNan y = false := by simpa using hy
      by_cases hxy : r x y
      · have hstep : better r x y = y := by simp [better, hx, hy', hxy]
        obtain ⟨hnum, hge, hall, hmem⟩ := foldl_better hr xs y hy'
        rw [List.foldl_cons, hstep]
        refine ⟨hnum, fun h => hge (hr.trans h hxy), ?_, .inr ?_⟩
        · intro z hz
          rcases List.mem_cons.mp hz with rfl | hz
          · exact hge
          · exact hall z hz
        · rcases hmem with heq | hmem
          · rw [heq]
            exact List.mem_cons_self
          · exact List.mem_cons_of_mem y hmem
      · have hstep : better r x y = x := by simp [better, hx, hy', hxy]
        obtain ⟨hnum, hge, hall, hmem⟩ := foldl_better hr xs x hx
        rw [List.foldl_cons, hstep]
        refine ⟨hnum, hge, ?_, hmem.imp_right (List.mem_cons_of_mem y)⟩
        intro z hz
        rcases List.mem_cons.mp hz with rfl | hz
        · intro h
          -- the head is above `z`, or it is `x`, which is not below `z`
          by_cases hxh : r x (xs.foldl (better r) x)
          · exact hxy (hr.trans hxh h)
          · rw [hr.eq hnum hx hge hxh] at h
            exact hxy h
        · exact hall z hz

/-- The fold from the bottom is the best number of the list, if it has any. -/
theorem best_foldl [DecidableRel r] (hr : Ranks r bottom) {xs : List F}
    (hsome : ∃ x ∈ xs, isNan x = false) : Best r xs (xs.foldl (better r) bottom) := by
  obtain ⟨hnum, -, hall, hmem⟩ := foldl_better hr xs bottom hr.number
  rcases hmem with heq | hmem
  · obtain ⟨x, hx, hxnum⟩ := hsome
    have hxb : x = bottom := by
      refine hr.eq hxnum hr.number (hr.last x) ?_
      rw [← heq]
      exact hall x hx
    exact ⟨by rw [heq, ← hxb]; exact hx, hnum, hall⟩
  · exact ⟨hmem, hnum, hall⟩

/-- The best number of a group, or what stands for it in a group of NaNs. -/
def BestOf (r : F → F → Prop) (bottom : F) (xs : List F) (x : F) : Prop :=
  Best r xs x ∨ (∀ y ∈ xs, isNan y = true) ∧ (isNan x = true ∨ x = bottom)

theorem bestOf_foldl [DecidableRel r] (hr : Ranks r bottom) (xs : List F) :
    BestOf r bottom xs (xs.foldl (better r) bottom) := by
  by_cases hsome : ∃ x ∈ xs, isNan x = false
  · exact .inl (best_foldl hr hsome)
  · have hnan : ∀ y ∈ xs, isNan y = true := by
      intro y hy
      by_contra hy'
      exact hsome ⟨y, hy, by simpa using hy'⟩
    obtain ⟨hnum, -, -, hmem⟩ := foldl_better hr xs bottom hr.number
    refine .inr ⟨hnan, .inr ?_⟩
    rcases hmem with heq | hmem
    · exact heq
    · simp [hnan _ hmem] at hnum

theorem bestOf_singleton (hr : Ranks r bottom) (x : F) : BestOf r bottom [x] x := by
  by_cases hx : isNan x = true
  · exact .inr ⟨by simp [hx], .inl hx⟩
  · exact .inl ⟨by simp, by simpa using hx, by simp [hr.irrefl x]⟩

/-- The best number of all is the best one of those that the groups have. -/
theorem Best.of_cut (hr : Ranks r bottom) {α β : Type} {f : α → F} {f' : β → F} {l : List α}
    {groups : List (List α)} {out : List β} (hcut : Groups.Cut l groups)
    (hout : List.Forall₂ (fun g b => BestOf r bottom (g.map f) (f' b)) groups out)
    {x : F} (h : Best r (l.map f) x) : Best r (out.map f') x := by
  have habove : ∀ b ∈ out, ¬r x (f' b) := by
    intro b hb
    obtain ⟨g, hsub, hbest | ⟨-, hnan | hbottom⟩⟩ := hcut.exists_of_mem_out hout hb
    · exact h.best _ (List.map_subset f hsub hbest.mem)
    · exact hr.nan hnan
    · rw [hbottom]
      exact hr.last x
  obtain ⟨a, ha, hax⟩ := List.mem_map.mp h.mem
  obtain ⟨g, b, hag, hb, hbest | ⟨hnan, -⟩⟩ := hcut.exists_of_mem hout ha
  · have heq : x = f' b := by
      refine hr.eq h.number hbest.number (habove b hb) (hbest.best x ?_)
      exact List.mem_map.mpr ⟨a, hag, hax⟩
    refine ⟨?_, h.number, ?_⟩
    · rw [heq]
      exact List.mem_map_of_mem hb
    · intro y hy
      obtain ⟨b', hb', rfl⟩ := List.mem_map.mp hy
      exact habove b' hb'
  · have hxnan := hnan x (List.mem_map.mpr ⟨a, hag, hax⟩)
    simp [h.number] at hxnan

end

/-! ### The groups that become candles -/

/-- A candle that stands for a group: what it is in each column. -/
structure Aggregates (g : List (Row F)) (bar : Row F) : Prop where
  ts : g.head?.map Row.ts = some bar.ts
  o : g.head?.map Row.o = some bar.o
  h : BestOf (· < ·) negInfinity (g.map Row.h) bar.h
  l : BestOf (fun x y => y < x) infinity (g.map Row.l) bar.l
  c : g.getLast?.map Row.c = some bar.c
  v : bar.v.toNat = min (g.map fun x => x.v.toNat).sum (2 ^ 32 - 1)

theorem toNat_foldl_saturatingAdd (vs : List UInt32) (v : UInt32) :
    (vs.foldl Candles.saturatingAdd v).toNat = min (v.toNat + (vs.map UInt32.toNat).sum) (2 ^ 32 - 1) := by
  induction vs generalizing v with
  | nil =>
    have := v.toNat_lt
    simp
    omega
  | cons w vs ih =>
    have hadd : (Candles.saturatingAdd v w).toNat = min (v.toNat + w.toNat) (2 ^ 32 - 1) := by
      rw [Candles.saturatingAdd, UInt32.toNat_ofNat']
      omega
    rw [List.foldl_cons, ih, hadd, List.map_cons, List.sum_cons]
    omega

/-- A row stands for itself. -/
theorem aggregates_singleton (x : Row F) : Aggregates [x] x where
  ts := rfl
  o := rfl
  h := bestOf_singleton ranks_max x.h
  l := bestOf_singleton ranks_min x.l
  c := rfl
  v := by
    have := x.v.toNat_lt
    simp
    omega

/-- The candle that the loop writes for a group. -/
def superCandle (first last : Row F) (g : List (Row F)) : Row F where
  ts := first.ts
  o := first.o
  h := (g.map Row.h).foldl fmax negInfinity
  l := (g.map Row.l).foldl fmin infinity
  c := last.c
  v := (g.map Row.v).foldl Candles.saturatingAdd 0
  session := .regular

theorem aggregates_superCandle {first last : Row F} {g : List (Row F)} (hfirst : g.head? = some first)
    (hlast : g.getLast? = some last) : Aggregates g (superCandle first last g) where
  ts := by rw [hfirst]; rfl
  o := by rw [hfirst]; rfl
  h := bestOf_foldl ranks_max _
  l := bestOf_foldl ranks_min _
  c := by rw [hlast]; rfl
  v := by
    simp only [superCandle, toNat_foldl_saturatingAdd, List.map_map]
    simp only [UInt32.toNat_zero, Nat.zero_add]
    rfl

/-- The part of a column that belongs to a group. -/
theorem slice_map {α β : Type} (f : α → β) (pre g post : List α) :
    slice ((pre ++ (g ++ post)).map f) pre.length (pre.length + g.length) = some (g.map f) := by
  unfold slice
  rw [if_pos ⟨by omega, by simp⟩]
  simp [List.extract_eq_take_drop]

/-- One round of the loop, over the rows of a group. -/
theorem buckets_step (target bucketSize fuel vin version : ℕ) (pre : List (Row F)) {g : List (Row F)}
    (post out : List (Row F)) (hne : g ≠ [])
    (hstop : (if target - out.length ≤ 1 then (pre ++ (g ++ post)).length
      else min (pre.length + bucketSize) (pre ++ (g ++ post)).length) = pre.length + g.length) :
    ∃ bar, Aggregates g bar ∧
      buckets (.ofRows (pre ++ (g ++ post)) vin) (pre ++ (g ++ post)).length target bucketSize
        (fuel + 1)
          pre.length (.ofRows out version) =
        buckets (.ofRows (pre ++ (g ++ post)) vin) (pre ++ (g ++ post)).length target bucketSize fuel
          (pre.length + g.length) (.ofRows (out ++ [bar]) (version + 1)) := by
  obtain ⟨first, hfirst⟩ : ∃ first, g.head? = some first := by
    rcases g with _ | ⟨x, g⟩
    · exact absurd rfl hne
    · exact ⟨x, rfl⟩
  obtain ⟨last, hlast⟩ : ∃ last, g.getLast? = some last := by
    rcases hg : g.getLast? with _ | last
    · exact absurd (List.getLast?_eq_none_iff.mp hg) hne
    · exact ⟨last, rfl⟩
  refine ⟨superCandle first last g, aggregates_superCandle hfirst hlast, ?_⟩
  have hpos : 0 < g.length := List.length_pos_of_ne_nil hne
  have hin : pre.length < (pre ++ (g ++ post)).length := by
    simp
    omega
  have hat : (pre ++ (g ++ post))[pre.length]? = some first := by
    rw [List.getElem?_append_right (by omega), Nat.sub_self, ← List.head?_eq_getElem?,
      List.head?_append_of_ne_nil _ hne, hfirst]
  have hbefore : (pre ++ (g ++ post))[pre.length + g.length - 1]? = some last := by
    rw [List.getElem?_append_right (by omega), List.getElem?_append_left (by omega)]
    rw [List.getLast?_eq_getElem?] at hlast
    rw [← hlast]
    congr 1
    omega
  have hout : (CandleBuffer.ofRows out version).timestamps.length = out.length := by
    simp [CandleBuffer.ofRows]
  rw [← CandleBuffer.pushWithSession_ofRows, buckets, if_pos hin, hout]
  simp only [hstop, CandleBuffer.ofRows, slice_map, List.getElem?_map, hat, hbefore, Option.map_some,
    Option.bind_eq_bind, Option.bind_some]
  rfl

theorem buckets_end (candles : CandleBuffer F) (n target bucketSize fuel : ℕ) (out : CandleBuffer F) :
    buckets candles n target bucketSize fuel n out = some out := by
  cases fuel with
  | zero => rw [buckets, if_neg (lt_irrefl n)]
  | succ fuel => rw [buckets, if_neg (lt_irrefl n)]

/-- The loop, with `m + 1` candles still to be written: each but the last takes `bucketSize` rows. -/
theorem buckets_cut (target vin : ℕ) {bucketSize : ℕ} (hpos : 0 < bucketSize) :
    ∀ (m : ℕ) (pre rest out : List (Row F)) (fuel version : ℕ), out.length + (m + 1) = target →
      (m + 1) * bucketSize ≤ rest.length → m + 1 ≤ fuel →
      ∃ groups bars version', Groups.Cut rest groups ∧ List.Forall₂ Aggregates groups bars ∧
        bars.length = m + 1 ∧
        buckets (.ofRows (pre ++ rest) vin) (pre ++ rest).length target bucketSize fuel pre.length
          (.ofRows out version) = some (.ofRows (out ++ bars) version') := by
  intro m
  induction m with
  | zero =>
    intro pre rest out fuel version htarget hlen hfuel
    obtain ⟨fuel, rfl⟩ : ∃ fuel', fuel = fuel' + 1 := ⟨fuel - 1, by omega⟩
    have hne : rest ≠ [] := by
      rintro rfl
      simp at hlen
      omega
    have hstop : (if target - out.length ≤ 1 then (pre ++ (rest ++ [])).length
        else min (pre.length + bucketSize) (pre ++ (rest ++ [])).length) =
          pre.length + rest.length := by
      rw [if_pos (by omega)]
      simp
    obtain ⟨bar, hbar, hstep⟩ := buckets_step target bucketSize fuel vin version pre [] out hne hstop
    refine ⟨[rest], [bar], version + 1, cut_whole hne, .cons hbar .nil, rfl, ?_⟩
    rw [List.append_nil] at hstep
    rw [hstep, ← List.length_append, buckets_end]
  | succ m ih =>
    intro pre rest out fuel version htarget hlen hfuel
    obtain ⟨fuel, rfl⟩ : ∃ fuel', fuel = fuel' + 1 := ⟨fuel - 1, by omega⟩
    have hsize : bucketSize ≤ rest.length := by
      refine le_trans ?_ hlen
      exact Nat.le_mul_of_pos_left _ (by omega)
    obtain ⟨g, post, rfl, hg⟩ : ∃ g post, rest = g ++ post ∧ g.length = bucketSize :=
      ⟨rest.take bucketSize, rest.drop bucketSize, by simp, by simp [hsize]⟩
    have hne : g ≠ [] := by
      rintro rfl
      simp at hg
      omega
    have hstop : (if target - out.length ≤ 1 then (pre ++ (g ++ post)).length
        else min (pre.length + bucketSize) (pre ++ (g ++ post)).length) = pre.length + g.length := by
      rw [if_neg (by omega), hg]
      simp
      omega
    obtain ⟨bar, hbar, hstep⟩ := buckets_step target bucketSize fuel vin version pre post out hne hstop
    have hpost : (m + 1) * bucketSize ≤ post.length := by
      have hmul : (m + 1 + 1) * bucketSize = (m + 1) * bucketSize + bucketSize := Nat.succ_mul _ _
      rw [List.length_append, hg] at hlen
      omega
    obtain ⟨groups, bars, version', hcut, hbars, hcount, hrest⟩ :=
      ih (pre ++ g) post (out ++ [bar]) fuel (version + 1) (by simp; omega) hpost (by omega)
    refine ⟨g :: groups, bar :: bars, version', hcut.cons hne, .cons hbar hbars, by simp [hcount], ?_⟩
    rw [hstep, ← List.length_append, ← List.append_assoc, hrest]
    simp

/-- The output has `min n (max target 1)` rows: the input, cut into as many groups, each of which is
    one candle of the output. -/
theorem downsampleMinmax_cut (rows : List (Row F)) (version target : ℕ) :
    ∃ groups bars version', Groups.Cut rows groups ∧ List.Forall₂ Aggregates groups bars ∧
      bars.length = min rows.length (max target 1) ∧
      downsampleMinmax (.ofRows rows version) target = some (.ofRows bars version') := by
  have hn : (CandleBuffer.ofRows rows version).timestamps.length = rows.length := by
    simp [CandleBuffer.ofRows]
  unfold downsampleMinmax
  rw [hn]
  by_cases hnil : rows.length = 0
  · obtain rfl := List.length_eq_zero_iff.mp hnil
    exact ⟨[], [], 0, cut_nil, .nil, by simp, rfl⟩
  by_cases htarget : rows.length ≤ target
  · refine ⟨rows.map fun x => [x], rows, version, cut_singletons rows, ?_, by omega, ?_⟩
    · rw [List.forall₂_map_left_iff]
      exact List.forall₂_same.mpr fun x _ => aggregates_singleton x
    · simp only [if_neg hnil, if_pos htarget]
  · obtain ⟨m, hm⟩ : ∃ m, max target 1 = m + 1 := ⟨max target 1 - 1, by omega⟩
    have hsize : 0 < rows.length / (m + 1) := Nat.div_pos (by omega) (by omega)
    obtain ⟨groups, bars, version', hcut, hbars, hcount, heq⟩ := buckets_cut (m + 1) version hsize
      m [] rows [] rows.length 0 (by simp) (Nat.mul_div_le _ _) (by omega)
    refine ⟨groups, bars, version', hcut, hbars, by omega, ?_⟩
    simp only [if_neg hnil, if_neg htarget, hm]
    exact heq

/-- MinMax downsampling: the rows of the output stand for consecutive groups of the rows of the
    input, so time goes forward as before, and the overall high and low, the first open, the last
    close and, where no group saturates, the total volume are those of the input. -/
theorem downsampleMinmax_aggregates (rows : List (Row F)) (version target : ℕ) :
    ∃ groups bars version',
      downsampleMinmax (.ofRows rows version) target = some (.ofRows bars version') ∧
      bars.length = min rows.length (max target 1) ∧
      Groups.Cut rows groups ∧ List.Forall₂ Aggregates groups bars ∧
      ((rows.map Row.ts).Pairwise (· < ·) → (bars.map Row.ts).Pairwise (· < ·)) ∧
      (∀ x, Best (· < ·) (rows.map Row.h) x → Best (· < ·) (bars.map Row.h) x) ∧
      (∀ x, Best (fun x y => y < x) (rows.map Row.l) x →
        Best (fun x y => y < x) (bars.map Row.l) x) ∧
      bars.head?.map Row.o = rows.head?.map Row.o ∧
      bars.getLast?.map Row.c = rows.getLast?.map Row.c ∧
      ((∀ g ∈ groups, (g.map fun x => x.v.toNat).sum < 2 ^ 32) →
        (bars.map fun x => x.v.toNat).sum = (rows.map fun x => x.v.toNat).sum) := by
  obtain ⟨groups, bars, version', hcut, hbars, hcount, heq⟩ := downsampleMinmax_cut rows version target
  refine ⟨groups, bars, version', heq, hcount, hcut, hbars, ?_, ?_, ?_, ?_, ?_, ?_⟩
  · intro hsorted
    exact hsorted.sublist (hcut.sublist (hbars.imp fun _ _ h => h.ts))
  · intro x hx
    exact hx.of_cut ranks_max hcut (hbars.imp fun _ _ h => h.h)
  · intro x hx
    exact hx.of_cut ranks_min hcut (hbars.imp fun _ _ h => h.l)
  · exact hcut.head? (hbars.imp fun _ _ h => h.o)
  · exact hcut.getLast? (hbars.imp fun _ _ h => h.c)
  · intro hfits
    refine hcut.sum (((List.forall₂_and_left _ _).mpr ⟨hfits, hbars⟩).imp ?_)
    rintro g bar ⟨hfit, hbar⟩
    rw [hbar.v]
    omega

end Midas.Lod
