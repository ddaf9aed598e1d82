import HandOfMidas.Candles.Binary
import Mathlib.Algebra.Order.Field.Rat
import Mathlib.Algebra.Order.Floor.Semifield
import Mathlib.Data.Rat.Floor
import Mathlib.Data.List.Forall2

/-! Lines downsampled for the screen (`downsample_lttb` in `lod/mod.rs` of `midas-data`): the first
    and the last point, and one point from each of the buckets between them. The borders of the
    buckets are computed exactly; the points are in `f64` arithmetic, of which no more is used than
    the laws below. -/

namespace Midas.Lod

open Candles

/-- `f64`: its arithmetic, and its comparison, which a NaN takes no part in. -/
class F64 (D : Type) extends LT D, Add D, Sub D, Mul D, Div D where
  decidableLT : DecidableLT D
  ofInt : ℤ → D
  abs : D → D
  irrefl : ∀ x : D, ¬x < x
  trans : ∀ x y z : D, x < y → y < z → x < z
  lt_of_abs_lt : ∀ x y : D, abs x < y → ofInt (-1) < y

instance F64.instDecidableLT {D : Type} [F64 D] : DecidableLT D := F64.decidableLT

/-- Exact arithmetic. -/
instance : F64 ℚ where
  decidableLT := inferInstance
  ofInt n := n
  abs q := |q|
  irrefl := lt_irrefl
  trans _ _ _ := lt_trans
  lt_of_abs_lt x y h := by
    have := abs_nonneg x
    push_cast
    linarith

section
variable {F D : Type} [F64 D] (widen : F → D)

open F64

/-- A point as the arithmetic sees it: `timestamps[i] as f64` and `values[i] as f64`. -/
def point (timestamps : List ℤ) (values : List F) (i : ℕ) : Option (D × D) := do
  some (ofInt (← timestamps[i]?), widen (← values[i]?))

/-- The sum of a column over the number of its entries. -/
def average (xs : List D) : D := xs.foldl (· + ·) (ofInt 0) / ofInt xs.length

/-- The "C" point: the average of the next bucket. -/
def averagePoint (timestamps : List ℤ) (values : List F) (nextStart nextEnd : ℕ) : Option (D × D) := do
  let ts ← slice timestamps nextStart nextEnd
  let vals ← slice values nextStart nextEnd
  some (average (ts.map ofInt), average (vals.map widen))

/-- Twice the area of the triangle with the corners `a`, `b` and `c`. -/
def area (a b c : D × D) : D := abs ((a.1 - c.1) * (b.2 - a.2) - (a.1 - b.1) * (c.2 - a.2))

end

/-- `bucket_size`. -/
def bucketSize (n target : ℕ) : ℚ := (n - 2 : ℕ) / (target - 2 : ℕ)

def bucketStart (n target bucketIdx : ℕ) : ℕ := ⌊(bucketIdx - 1 : ℕ) * bucketSize n target + 1⌋₊

/-- `bucket_end`, and for the bucket after it `next_end`. -/
def bucketEnd (n target bucketIdx : ℕ) : ℕ := ⌊min (bucketIdx * bucketSize n target + 1) (n : ℚ)⌋₊

section
variable {F D : Type} [F64 D] (widen : F → D) (timestamps : List ℤ) (values : List F)

open F64

/-- The loop over the points of a bucket. -/
def scan (a c : D × D) : List ℕ → D × ℕ → Option (D × ℕ)
  | [], best => some best
  | j :: js, (maxArea, maxIdx) => do
    let area := area a (← point widen timestamps values j) c
    scan a c js (if maxArea < area then (area, j) else (maxArea, maxIdx))

/-- The index that is chosen from a bucket. -/
def select (target prevSelected bucketIdx : ℕ) : Option ℕ := do
  let n := timestamps.length
  let start := bucketStart n target bucketIdx
  let stop := bucketEnd n target bucketIdx
  let c ← averagePoint widen timestamps values stop (bucketEnd n target (bucketIdx + 1))
  let a ← point widen timestamps values prevSelected
  let best ← scan widen timestamps values a c (List.range' start (stop - start)) (ofInt (-1), start)
  some best.2

/-- `(timestamps[i], values[i])`. -/
def entry (i : ℕ) : Option (ℤ × F) := do some (← timestamps[i]?, ← values[i]?)

/-- The loop over the buckets. -/
def selectAll (target : ℕ) : List ℕ → ℕ → Option (List (ℤ × F))
  | [], _ => some []
  | bucketIdx :: rest, prevSelected => do
    let maxIdx ← select widen timestamps values target prevSelected bucketIdx
    let p ← entry timestamps values maxIdx
    let ps ← selectAll target rest maxIdx
    some (p :: ps)

/-- `downsample_lttb`. It panics where this is `none`. -/
def downsampleLttb (targetCount : ℕ) : Option (List (ℤ × F)) :=
  if timestamps.length ≠ values.length then none
  else
    let n := timestamps.length
    if n ≤ targetCount ∨ targetCount < 2 then some (timestamps.zip values)
    else do
      let first ← entry timestamps values 0
      let ps ← selectAll widen timestamps values targetCount (List.range' 1 (targetCount - 2)) 0
      let last ← entry timestamps values (n - 1)
      some (first :: (ps ++ [last]))

end

/-! ### The buckets -/

section
variable {n target : ℕ}

theorem bucketStart_eq (n target b : ℕ) :
    bucketStart n target b = (b - 1) * (n - 2) / (target - 2) + 1 := by
  rw [bucketStart, bucketSize, Nat.floor_add_one (by positivity), ← mul_div_assoc, ← Nat.cast_mul,
    Nat.floor_div_eq_div]

/-- The end of each bucket but those past the last. -/
theorem bucketEnd_eq (htarget : 2 < target) (hn : target < n) {b : ℕ} (hb : b ≤ target - 2) :
    bucketEnd n target b = b * (n - 2) / (target - 2) + 1 := by
  have hm : (0 : ℚ) < (target - 2 : ℕ) := by
    rw [Nat.cast_pos]
    omega
  have hle : (b : ℚ) * bucketSize n target + 1 ≤ n := by
    have hbm : (b : ℚ) ≤ (target - 2 : ℕ) := by exact_mod_cast hb
    have hfull : ((target - 2 : ℕ) : ℚ) * bucketSize n target = (n - 2 : ℕ) := mul_div_cancel₀ _ hm.ne'
    have hsize : 0 ≤ bucketSize n target := by
      unfold bucketSize
      positivity
    have hn2 : ((n - 2 : ℕ) : ℚ) + 1 ≤ n := by
      rw [← Nat.cast_succ, Nat.cast_le]
      omega
    have := mul_le_mul_of_nonneg_right hbm hsize
    linarith
  rw [bucketEnd, min_eq_left hle, bucketSize, Nat.floor_add_one (by positivity), ← mul_div_assoc,
    ← Nat.cast_mul, Nat.floor_div_eq_div]

/-- The bucket after the last one is the last point. -/
theorem bucketEnd_last (htarget : 2 < target) (hn : target < n) :
    bucketEnd n target (target - 1) = n := by
  have hm : (0 : ℚ) < (target - 2 : ℕ) := by
    rw [Nat.cast_pos]
    omega
  have hfull : ((target - 2 : ℕ) : ℚ) * bucketSize n target = (n - 2 : ℕ) := mul_div_cancel₀ _ hm.ne'
  have hsize : 1 ≤ bucketSize n target := by
    rw [bucketSize, le_div_iff₀ hm, one_mul, Nat.cast_le]
    omega
  have hge : (n : ℚ) ≤ (target - 1 : ℕ) * bucketSize n target + 1 := by
    have hsucc : ((target - 1 : ℕ) : ℚ) = (target - 2 : ℕ) + 1 := by
      rw [← Nat.cast_succ]
      congr 1
      omega
    have hn2 : (n : ℚ) ≤ (n - 2 : ℕ) + 2 := by
      exact_mod_cast (by omega : n ≤ n - 2 + 2)
    rw [hsucc, add_mul, hfull]
    linarith
  rw [bucketEnd, min_eq_right hge, Nat.floor_natCast]

/-- The buckets are consecutive ranges that make up all that is between the first and the last
    point, and what is averaged is never empty. -/
structure Tiles (n target : ℕ) : Prop where
  first : bucketStart n target 1 = 1
  abut : ∀ b, 1 ≤ b → b ≤ target - 2 → bucketEnd n target b = bucketStart n target (b + 1)
  nonempty : ∀ b, 1 ≤ b → b ≤ target - 2 → bucketStart n target b < bucketEnd n target b
  last : bucketEnd n target (target - 2) = n - 1
  averaged : ∀ b, 1 ≤ b → b ≤ target - 2 →
    bucketEnd n target b < bucketEnd n target (b + 1) ∧ bucketEnd n target (b + 1) ≤ n

theorem tiles (htarget : 2 < target) (hn : target < n) : Tiles n target := by
  have hm : 0 < target - 2 := by omega
  -- a bucket has at least one point, since there are more points than buckets
  have hstep : ∀ k, k * (n - 2) / (target - 2) + 1 ≤ (k + 1) * (n - 2) / (target - 2) := by
    intro k
    rw [← Nat.add_div_right _ hm, Nat.succ_mul]
    exact Nat.div_le_div_right (by omega)
  have hlast : bucketEnd n target (target - 2) = n - 1 := by
    rw [bucketEnd_eq htarget hn (le_refl _), Nat.mul_div_cancel_left _ hm]
    omega
  constructor
  case first =>
    rw [bucketStart_eq]
    simp
  case abut =>
    intro b _ hb
    rw [bucketEnd_eq htarget hn hb, bucketStart_eq, Nat.add_sub_cancel]
  case nonempty =>
    intro b hb₁ hb
    rw [bucketEnd_eq htarget hn hb, bucketStart_eq]
    have := hstep (b - 1)
    rw [Nat.sub_add_cancel hb₁] at this
    omega
  case last => exact hlast
  case averaged =>
    intro b _ hb
    rcases Nat.lt_or_eq_of_le hb with hlt | rfl
    · have hle : (b + 1) * (n - 2) / (target - 2) ≤ n - 2 := by
        refine Nat.div_le_of_le_mul ?_
        exact Nat.mul_le_mul_right _ hlt
      have hnext : bucketEnd n target (b + 1) = (b + 1) * (n - 2) / (target - 2) + 1 :=
        bucketEnd_eq htarget hn hlt
      rw [bucketEnd_eq htarget hn hb, hnext]
      have := hstep b
      omega
    · have hnext : target - 2 + 1 = target - 1 := by omega
      rw [hlast, hnext, bucketEnd_last htarget hn]
      omega

/-- The end of a bucket is before the last point, or at it. -/
theorem Tiles.bucketEnd_le (h : Tiles n target) {b : ℕ} (hb₁ : 1 ≤ b) (hb : b ≤ target - 2) :
    bucketEnd n target b ≤ n - 1 := by
  have := h.averaged b hb₁ hb
  omega

end

/-! ### The points that are chosen -/

section
variable {F D : Type} [F64 D] (widen : F → D) (timestamps : List ℤ) (values : List F)

open F64

/-- A point of the line, by its index. -/
def pointAt (i : ℕ) : D × D := (point widen timestamps values i).getD (ofInt 0, ofInt 0)

/-- The average of the bucket after bucket `b`. -/
def nextAverage (target b : ℕ) : D × D :=
  (averagePoint widen timestamps values (bucketEnd timestamps.length target b)
    (bucketEnd timestamps.length target (b + 1))).getD (ofInt 0, ofInt 0)

/-- `sel` is in bucket `b`, and none of that bucket has a larger triangle with `a`, the point chosen
    before, and the average of the next bucket. -/
structure Chosen (target b a sel : ℕ) : Prop where
  start_le : bucketStart timestamps.length target b ≤ sel
  lt_end : sel < bucketEnd timestamps.length target b
  largest : ∀ j, bucketStart timestamps.length target b ≤ j → j < bucketEnd timestamps.length target b →
    ¬area (pointAt widen timestamps values a) (pointAt widen timestamps values sel)
        (nextAverage widen timestamps values target b) <
      area (pointAt widen timestamps values a) (pointAt widen timestamps values j)
        (nextAverage widen timestamps values target b)

/-- One index from each bucket, from bucket `b` on, where `a` is the one before. -/
def ChosenFrom (target : ℕ) : ℕ → ℕ → List ℕ → Prop
  | _, _, [] => True
  | b, a, sel :: rest => Chosen widen timestamps values target b a sel ∧
    ChosenFrom target (b + 1) sel rest

/-- The points with these indices. -/
def Entries : List ℕ → List (ℤ × F) → Prop :=
  List.Forall₂ fun i p => timestamps[i]? = some p.1 ∧ values[i]? = some p.2

variable {timestamps values}

theorem exists_entry (hlen : timestamps.length = values.length) {i : ℕ} (hi : i < timestamps.length) :
    ∃ p, entry timestamps values i = some p ∧ timestamps[i]? = some p.1 ∧ values[i]? = some p.2 := by
  have hts : timestamps[i]? = some timestamps[i] := List.getElem?_eq_getElem hi
  have hi' : i < values.length := hlen ▸ hi
  have hvs : values[i]? = some values[i] := List.getElem?_eq_getElem hi'
  exact ⟨(timestamps[i], values[i]), by simp [entry, hts, hvs], hts, hvs⟩

theorem point_eq (hlen : timestamps.length = values.length) {i : ℕ} (hi : i < timestamps.length) :
    point widen timestamps values i = some (pointAt widen timestamps values i) := by
  obtain ⟨p, -, hts, hvs⟩ := exists_entry hlen hi
  simp [pointAt, point, hts, hvs]

/-- The loop over a bucket ends with `-1`, or with the area of the point that it ends with, and meets no
    larger area on its way. -/
theorem scan_spec (a c : D × D) (hlen : timestamps.length = values.length) :
    ∀ (js : List ℕ) (m : D) (i : ℕ), (∀ j ∈ js, j < timestamps.length) →
      ∃ m' i', scan widen timestamps values a c js (m, i) = some (m', i') ∧
        (∀ x, m' < x → m < x) ∧ (∀ j ∈ js, ¬m' < area a (pointAt widen timestamps values j) c) ∧
        ((m' = m ∧ i' = i) ∨ i' ∈ js ∧ m' = area a (pointAt widen timestamps values i') c)
  | [], m, i, _ => ⟨m, i, rfl, fun _ h => h, by simp, .inl ⟨rfl, rfl⟩⟩
  | j :: js, m, i, hjs => by
    have hj := point_eq widen hlen (hjs j List.mem_cons_self)
    have hrest : ∀ k ∈ js, k < timestamps.length := fun k hk => hjs k (List.mem_cons_of_mem j hk)
    by_cases hlt : m < area a (pointAt widen timestamps values j) c
    · obtain ⟨m', i', heq, hup, hmax, hsel⟩ := scan_spec a c hlen js
        (area a (pointAt widen timestamps values j) c) j hrest
      refine ⟨m', i', ?_, ?_, ?_, ?_⟩
      · simp [scan, hj, if_pos hlt, heq]
      · intro x hx
        exact F64.trans _ _ _ hlt (hup x hx)
      · intro k hk
        rcases List.mem_cons.mp hk with rfl | hk
        · intro h
          exact absurd (hup _ h) (F64.irrefl _)
        · exact hmax k hk
      · rcases hsel with ⟨rfl, rfl⟩ | ⟨hmem, heq'⟩
        · exact .inr ⟨List.mem_cons_self, rfl⟩
        · exact .inr ⟨List.mem_cons_of_mem j hmem, heq'⟩
    · obtain ⟨m', i', heq, hup, hmax, hsel⟩ := scan_spec a c hlen js m i hrest
      refine ⟨m', i', ?_, hup, ?_, ?_⟩
      · simp [scan, hj, if_neg hlt, heq]
      · intro k hk
        rcases List.mem_cons.mp hk with rfl | hk
        · exact fun h => hlt (hup _ h)
        · exact hmax k hk
      · rcases hsel with h | ⟨hmem, heq'⟩
        · exact .inl h
        · exact .inr ⟨List.mem_cons_of_mem j hmem, heq'⟩

/-- A point is chosen from each bucket, whatever point was chosen before. -/
theorem select_spec {target : ℕ} (hlen : timestamps.length = values.length)
    (htiles : Tiles timestamps.length target) {a b : ℕ} (hb₁ : 1 ≤ b) (hb : b ≤ target - 2)
    (ha : a < timestamps.length) :
    ∃ sel, select widen timestamps values target a b = some sel ∧
      Chosen widen timestamps values target b a sel := by
  obtain ⟨havg, havgn⟩ := htiles.averaged b hb₁ hb
  have hlt := htiles.nonempty b hb₁ hb
  have hts : slice timestamps (bucketEnd timestamps.length target b)
      (bucketEnd timestamps.length target (b + 1)) = some (timestamps.extract
        (bucketEnd timestamps.length target b) (bucketEnd timestamps.length target (b + 1))) :=
    if_pos ⟨by omega, havgn⟩
  have hvs : slice values (bucketEnd timestamps.length target b)
      (bucketEnd timestamps.length target (b + 1)) = some (values.extract
        (bucketEnd timestamps.length target b) (bucketEnd timestamps.length target (b + 1))) :=
    if_pos ⟨by omega, hlen ▸ havgn⟩
  have hc : averagePoint widen timestamps values (bucketEnd timestamps.length target b)
      (bucketEnd timestamps.length target (b + 1)) =
        some (nextAverage widen timestamps values target b) := by
    simp [nextAverage, averagePoint, hts, hvs]
  have hin : ∀ j ∈ List.range' (bucketStart timestamps.length target b)
      (bucketEnd timestamps.length target b - bucketStart timestamps.length target b),
      j < timestamps.length := by
    intro j hj
    rw [List.mem_range'_1] at hj
    omega
  obtain ⟨m, sel, hscan, -, hmax, hsel⟩ := scan_spec widen (pointAt widen timestamps values a)
    (nextAverage widen timestamps values target b) hlen _ (ofInt (-1))
    (bucketStart timestamps.length target b) hin
  refine ⟨sel, by simp [select, hc, point_eq widen hlen ha, hscan], ?_⟩
  have hmax' : ∀ j, bucketStart timestamps.length target b ≤ j →
      j < bucketEnd timestamps.length target b → ¬m < area (pointAt widen timestamps values a)
        (pointAt widen timestamps values j) (nextAverage widen timestamps values target b) := by
    intro j hj hj'
    exact hmax j (by rw [List.mem_range'_1]; omega)
  rcases hsel with ⟨rfl, rfl⟩ | ⟨hmem, rfl⟩
  · -- no point had an area above `-1`
    refine ⟨le_refl _, hlt, ?_⟩
    intro j hj hj' h
    exact hmax' j hj hj' (lt_of_abs_lt _ _ h)
  · rw [List.mem_range'_1] at hmem
    exact ⟨hmem.1, by omega, hmax'⟩

/-- The loop over the buckets from `b` on. -/
theorem selectAll_spec {target : ℕ} (hlen : timestamps.length = values.length)
    (htiles : Tiles timestamps.length target) :
    ∀ (m a b : ℕ), 1 ≤ b → b + m ≤ target - 1 → a < bucketStart timestamps.length target b →
      bucketStart timestamps.length target b ≤ timestamps.length - 1 →
      ∃ is ps, selectAll widen timestamps values target (List.range' b m) a = some ps ∧
        is.length = m ∧ Entries timestamps values is ps ∧
        ChosenFrom widen timestamps values target b a is ∧ (a :: is).Pairwise (· < ·) ∧
        ∀ i ∈ is, i < timestamps.length - 1 := by
  intro m
  induction m with
  | zero =>
    intro a b _ _ _ _
    exact ⟨[], [], rfl, rfl, .nil, trivial, by simp, by simp⟩
  | succ m ih =>
    intro a b hb₁ hbm ha hstart
    have hb : b ≤ target - 2 := by omega
    obtain ⟨sel, hsel, hchosen⟩ :=
      select_spec widen hlen htiles hb₁ hb (by omega : a < timestamps.length)
    have hend := htiles.bucketEnd_le hb₁ hb
    have hlt := hchosen.lt_end
    have hle := hchosen.start_le
    have hnext := htiles.abut b hb₁ hb
    obtain ⟨p, hentry, hts, hvs⟩ := exists_entry hlen (by omega : sel < timestamps.length)
    obtain ⟨is, ps, hrest, hcount, hentries, hfrom, hpair, hbelow⟩ :=
      ih sel (b + 1) (by omega) (by omega) (by omega) (by omega)
    refine ⟨sel :: is, p :: ps, ?_, by simp [hcount], .cons ⟨hts, hvs⟩ hentries, ⟨hchosen, hfrom⟩,
      ?_, ?_⟩
    · rw [List.range'_succ]
      simp [selectAll, hsel, hentry, hrest]
    · refine List.pairwise_cons.mpr ⟨?_, hpair⟩
      intro i hi
      rcases List.mem_cons.mp hi with rfl | hi
      · omega
      · have := (List.pairwise_cons.mp hpair).1 i hi
        omega
    · intro i hi
      rcases List.mem_cons.mp hi with rfl | hi
      · omega
      · exact hbelow i hi

variable (timestamps values)

/-- The indices of the output: the first point, one from each bucket, and the last point. -/
structure Picks (target : ℕ) (out : List (ℤ × F)) (interior : List ℕ) : Prop where
  count : interior.length = target - 2
  entries : Entries timestamps values (0 :: (interior ++ [timestamps.length - 1])) out
  increasing : (0 :: (interior ++ [timestamps.length - 1])).Pairwise (· < ·)
  chosen : ChosenFrom widen timestamps values target 1 0 interior

/-- What the documentation says of the output. -/
structure Documented (target : ℕ) (out : List (ℤ × F)) : Prop where
  size : out.length ≤ target
  unchanged : timestamps.length ≤ target → out = timestamps.zip values
  sampled : 2 ≤ target → target < timestamps.length →
    out.length = target ∧ (2 < target → Tiles timestamps.length target) ∧
      ∃ interior, Picks widen timestamps values target out interior

variable {timestamps values}

theorem downsampleLttb_picks {target : ℕ} (hlen : timestamps.length = values.length)
    (htarget : 2 ≤ target)
    (hn : target < timestamps.length) :
    ∃ out interior, downsampleLttb widen timestamps values target = some out ∧ out.length = target ∧
      Picks widen timestamps values target out interior := by
  obtain ⟨first, hfirst, hts₀, hvs₀⟩ := exists_entry hlen (by omega : 0 < timestamps.length)
  obtain ⟨last, hlast, hts₁, hvs₁⟩ :=
    exists_entry hlen (by omega : timestamps.length - 1 < timestamps.length)
  obtain ⟨is, ps, hall, hcount, hentries, hchosen, hpair, hbelow⟩ : ∃ is ps,
      selectAll widen timestamps values target (List.range' 1 (target - 2)) 0 = some ps ∧
        is.length = target - 2 ∧ Entries timestamps values is ps ∧
        ChosenFrom widen timestamps values target 1 0 is ∧ (0 :: is).Pairwise (· < ·) ∧
        ∀ i ∈ is, i < timestamps.length - 1 := by
    rcases Nat.lt_or_eq_of_le htarget with htarget | rfl
    · have htiles := tiles htarget hn
      have hfirst := htiles.first
      exact selectAll_spec widen hlen htiles (target - 2) 0 1 (le_refl 1) (by omega) (by omega)
        (by omega)
    · exact ⟨[], [], rfl, rfl, .nil, trivial, by simp, by simp⟩
  have hps : ps.length = target - 2 := hentries.length_eq.symm.trans hcount
  refine ⟨first :: (ps ++ [last]), is, ?_, ?_, hcount, ?_, ?_, hchosen⟩
  · have hn' : ¬(timestamps.length ≤ target ∨ target < 2) := by omega
    rw [downsampleLttb, if_neg (not_not.mpr hlen), if_neg hn']
    simp [hfirst, hall, hlast]
  · simp only [List.length_cons, List.length_append, List.length_nil]
    omega
  · exact .cons ⟨hts₀, hvs₀⟩ (List.rel_append hentries (.cons ⟨hts₁, hvs₁⟩ .nil))
  · rw [← List.cons_append, List.pairwise_append]
    refine ⟨hpair, List.pairwise_singleton _ _, ?_⟩
    intro i hi j hj
    rw [List.mem_singleton.mp hj]
    rcases List.mem_cons.mp hi with rfl | hi
    · omega
    · exact hbelow i hi

/-- The documentation holds of the output just where there is nothing to leave out, or where the target
    has room for the first and the last point: with a smaller target all points are returned. -/
theorem downsampleLttb_documented_iff {target : ℕ} (hlen : timestamps.length = values.length) :
    (∃ out, downsampleLttb widen timestamps values target = some out ∧
      Documented widen timestamps values target out) ↔ timestamps.length ≤ target ∨ 2 ≤ target := by
  by_cases hn : timestamps.length ≤ target
  · refine ⟨fun _ => .inl hn, fun _ => ⟨timestamps.zip values, ?_, ?_, fun _ => rfl, ?_⟩⟩
    · simp [downsampleLttb, hlen, hlen ▸ hn]
    · simpa [← hlen] using hn
    · intro _ hn'
      omega
  by_cases htarget : 2 ≤ target
  · obtain ⟨out, interior, heq, hcount, hpicks⟩ := downsampleLttb_picks widen hlen htarget (by omega)
    refine ⟨fun _ => .inr htarget, fun _ => ⟨out, heq, hcount.le, fun h => absurd h hn, ?_⟩⟩
    intro _ hn'
    exact ⟨hcount, fun h => tiles h hn', interior, hpicks⟩
  · refine ⟨?_, fun h => by omega⟩
    rintro ⟨out, heq, hdoc⟩
    have hout : out = timestamps.zip values := by
      simpa [downsampleLttb, hlen, (by omega : target < 2), eq_comm] using heq
    have hsize := hdoc.size
    rw [hout, List.length_zip, ← hlen, min_self] at hsize
    exact absurd hsize hn

end

/-- Five points, of which the first, the last and the peak between them are kept. -/
theorem downsampleLttb_documented_iff_five :
    (∃ out, downsampleLttb id [0, 60, 120, 180, 240] [1, 2, 9, 2, (1 : ℚ)] 3 = some out ∧
      Documented id [0, 60, 120, 180, 240] [1, 2, 9, 2, (1 : ℚ)] 3 out) ↔
      [0, 60, 120, 180, (240 : ℤ)].length ≤ 3 ∨ 2 ≤ 3 :=
  downsampleLttb_documented_iff id rfl

/-- Where one point is asked for, all three are returned. -/
theorem one_point_asked_for :
    downsampleLttb id [0, 60, 120] [1, 3, (2 : ℚ)] 1 = some [(0, 1), (60, 3), (120, 2)] ∧
      ¬∃ out, downsampleLttb id [0, 60, 120] [1, 3, (2 : ℚ)] 1 = some out ∧
        Documented id [0, 60, 120] [1, 3, (2 : ℚ)] 1 out := by
  have hrun : downsampleLttb id [0, 60, 120] [1, 3, (2 : ℚ)] 1 = some [(0, 1), (60, 3), (120, 2)] := by
    decide
  refine ⟨hrun, ?_⟩
  rintro ⟨out, heq, hdoc⟩
  obtain rfl := Option.some.inj (hrun.symm.trans heq)
  exact absurd hdoc.size (by decide)

end Midas.Lod
