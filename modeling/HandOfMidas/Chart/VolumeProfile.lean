import Mathlib.Algebra.BigOperators.Intervals
import Mathlib.Algebra.Order.Floor.Ring
import Mathlib.Algebra.Order.Archimedean.Basic
import Mathlib.Data.Rat.Floor
import Mathlib.Tactic.Linarith
import Mathlib.Tactic.FieldSimp

/-! The volume profile of a chart (`volume_profile/mod.rs`): the volume of every candle is spread over
    the price bins that its range meets. Prices are exact here. -/

namespace Midas.Chart

/-- `CandleData`, as far as it is read here. -/
structure CandleData where
  openPrice : ℕ → ℚ
  high : ℕ → ℚ
  low : ℕ → ℚ
  close : ℕ → ℚ
  volume : ℕ → UInt32

structure VolumeProfileBin where
  priceLow : ℚ
  priceHigh : ℚ
  buyVolume : ℕ
  sellVolume : ℕ
  deriving DecidableEq

def VolumeProfileBin.total (b : VolumeProfileBin) : ℕ := b.buyVolume + b.sellVolume

/-- Volume on the side of a bullish or bearish candle. -/
def VolumeProfileBin.add (isBull : Bool) (volume : ℕ) (b : VolumeProfileBin) : VolumeProfileBin :=
  if isBull then { b with buyVolume := b.buyVolume + volume }
  else { b with sellVolume := b.sellVolume + volume }

@[simp] theorem VolumeProfileBin.add_zero (isBull : Bool) (b : VolumeProfileBin) :
    b.add isBull 0 = b := by
  cases isBull <;> rfl

theorem VolumeProfileBin.add_add (isBull : Bool) (v w : ℕ) (b : VolumeProfileBin) :
    (b.add isBull v).add isBull w = b.add isBull (v + w) := by
  cases isBull <;> simp [VolumeProfileBin.add, Nat.add_assoc]

theorem VolumeProfileBin.add_ite (p : Prop) [Decidable p] (isBull : Bool) (v : ℕ)
    (b : VolumeProfileBin) : (if p then b.add isBull v else b) = b.add isBull (if p then v else 0) := by
  split
  · rfl
  · exact (b.add_zero isBull).symm

structure VolumeProfile where
  bins : List VolumeProfileBin
  pocIndex : ℕ
  totalVolume : ℕ
  deriving DecidableEq

section

variable (data : CandleData) (priceLow priceHigh : ℚ) (numBins : ℕ)

def binSize : ℚ := (priceHigh - priceLow) / numBins

def emptyBins : List VolumeProfileBin :=
  (List.range numBins).map fun i : ℕ =>
    ⟨priceLow + i * binSize priceLow priceHigh numBins,
      priceLow + (i + 1) * binSize priceLow priceHigh numBins, 0, 0⟩

/-- `bin_lo` and `bin_hi` of a candle, unless it is skipped. -/
def binsOf (i : ℕ) : Option (ℕ × ℕ) :=
  if (data.volume i).toNat = 0 ∨ data.high i ≤ data.low i then none
  else if data.high i < priceLow ∨ priceHigh < data.low i then none
  else
    let effectiveLow := max (data.low i) priceLow
    let effectiveHigh := min (data.high i) priceHigh
    let binLo := (max ⌊(effectiveLow - priceLow) / binSize priceLow priceHigh numBins⌋ 0).toNat
    let binHi :=
      (min ⌈(effectiveHigh - priceLow) / binSize priceLow priceHigh numBins⌉ numBins).toNat
    let binHi := min binHi numBins - 1
    if binHi < binLo then none else some (binLo, binHi)

/-- Spread a volume equally over the bins from `binLo` to `binHi`; what the division leaves goes to the
    one in the middle. -/
def spread (isBull : Bool) (volume binLo binHi : ℕ) (bins : List VolumeProfileBin) :
    List VolumeProfileBin :=
  let binsTouched := binHi - binLo + 1
  let volPerBin := volume / max binsTouched 1
  let remainder := volume - volPerBin * binsTouched
  let bins := bins.mapIdx fun j b => if binLo ≤ j ∧ j ≤ binHi then b.add isBull volPerBin else b
  if 0 < remainder then bins.modify ((binLo + binHi) / 2) (·.add isBull remainder) else bins

/-- One turn of the loop over the candles: the bins and `total_volume`. -/
def addCandle (st : List VolumeProfileBin × ℕ) (i : ℕ) : List VolumeProfileBin × ℕ :=
  match binsOf data priceLow priceHigh numBins i with
  | none => st
  | some (binLo, binHi) =>
    let volume := (data.volume i).toNat
    let isBull := decide (data.openPrice i ≤ data.close i)
    (spread isBull volume binLo binHi st.1, st.2 + volume)

end

/-- The last of the greatest (`max_by_key`). -/
def pocIndex (bins : List VolumeProfileBin) : ℕ :=
  let best := bins.zipIdx.foldl (fun best x =>
    match best with
    | none => some x
    | some y => if y.1.total ≤ x.1.total then some x else some y) none
  (best.map Prod.snd).getD 0

def computeVolumeProfile (data : CandleData) (visStart visEnd : ℕ) (priceLow priceHigh : ℚ)
    (numBins : ℕ) : Option VolumeProfile :=
  if visEnd ≤ visStart ∨ numBins = 0 ∨ priceHigh ≤ priceLow then none
  else
    let filled := (List.range' visStart (visEnd - visStart)).foldl
      (addCandle data priceLow priceHigh numBins) (emptyBins priceLow priceHigh numBins, 0)
    some ⟨filled.1, pocIndex filled.1, filled.2⟩

/-- The profile of one period, over the prices of its own candles. -/
def computeProfileForRange (data : CandleData) (visStart visEnd numBins : ℕ) :
    Option VolumeProfile :=
  if visEnd ≤ visStart ∨ numBins = 0 then none
  else
    let candles := List.range' visStart (visEnd - visStart)
    match (candles.map data.low).min?, (candles.map data.high).max? with
    | some minLow, some maxHigh =>
      if maxHigh ≤ minLow then none
      else computeVolumeProfile data visStart visEnd minLow maxHigh numBins
    | _, _ => none

/-- The periods, the most recent `maxProfiles` of them. -/
def periodRanges (visEnd : ℕ) (boundaries : List ℕ) (maxProfiles : ℕ) : List (ℕ × ℕ) :=
  let ranges := boundaries.zip boundaries.tail
  let ranges := match boundaries.getLast? with
    | some last => if last < visEnd then ranges ++ [(last, visEnd)] else ranges
    | none => ranges
  ranges.drop (ranges.length - maxProfiles)

def computeAnchoredVolumeProfiles (data : CandleData) (visStart visEnd : ℕ) (boundaries : List ℕ)
    (numBinsPerProfile maxProfiles : ℕ) : List (ℕ × VolumeProfile) :=
  if boundaries = [] ∨ maxProfiles = 0 ∨ numBinsPerProfile = 0 then []
  else
    (periodRanges visEnd boundaries maxProfiles).filterMap fun r =>
      if r.1 < visStart ∨ visEnd < r.2 ∨ r.2 ≤ r.1 then none
      else (computeProfileForRange data r.1 r.2 numBinsPerProfile).map fun p => (r.1, p)

/-! ### Which bins a candle gets -/

section

variable {data : CandleData} {priceLow priceHigh : ℚ} {numBins : ℕ}

theorem binSize_pos (hprice : priceLow < priceHigh) (hbins : numBins ≠ 0) :
    0 < binSize priceLow priceHigh numBins :=
  div_pos (by linarith) (by exact_mod_cast Nat.pos_of_ne_zero hbins)

theorem binSize_mul (hbins : numBins ≠ 0) :
    numBins * binSize priceLow priceHigh numBins = priceHigh - priceLow := by
  have : (numBins : ℚ) ≠ 0 := by exact_mod_cast hbins
  unfold binSize
  field_simp

/-- The candle has a range, and the range reaches below the upper price and up to the lower one. -/
def Counted (data : CandleData) (priceLow priceHigh : ℚ) (i : ℕ) : Prop :=
  data.low i < data.high i ∧ priceLow ≤ data.high i ∧ data.low i < priceHigh

instance (data : CandleData) (priceLow priceHigh : ℚ) :
    DecidablePred (Counted data priceLow priceHigh) :=
  fun _ => inferInstanceAs (Decidable (_ ∧ _ ∧ _))

/-- Bin `j` meets the range of the candle, as far as the profile shows it. -/
def BinMeets (data : CandleData) (priceLow priceHigh : ℚ) (numBins i j : ℕ) : Prop :=
  priceLow + j * binSize priceLow priceHigh numBins ≤ min (data.high i) priceHigh ∧
    max (data.low i) priceLow ≤ priceLow + (j + 1) * binSize priceLow priceHigh numBins

/-- Where a price lies, counted in bins. -/
def inBins (priceLow priceHigh : ℚ) (numBins : ℕ) (price : ℚ) : ℚ :=
  (price - priceLow) / binSize priceLow priceHigh numBins

section

variable (hprice : priceLow < priceHigh) (hbins : numBins ≠ 0)

include hprice hbins

theorem inBins_le {price : ℚ} (k : ℚ) :
    inBins priceLow priceHigh numBins price ≤ k ↔
      price ≤ priceLow + k * binSize priceLow priceHigh numBins := by
  rw [inBins, div_le_iff₀ (binSize_pos hprice hbins), sub_le_iff_le_add']

theorem le_inBins {price : ℚ} (k : ℚ) :
    k ≤ inBins priceLow priceHigh numBins price ↔
      priceLow + k * binSize priceLow priceHigh numBins ≤ price := by
  rw [inBins, le_div_iff₀ (binSize_pos hprice hbins), le_sub_iff_add_le']

theorem inBins_lt_inBins {price price' : ℚ} (h : price < price') :
    inBins priceLow priceHigh numBins price < inBins priceLow priceHigh numBins price' :=
  div_lt_div_of_pos_right (sub_lt_sub_right h _) (binSize_pos hprice hbins)

/-- The lowest bin is 0, the highest edge is `numBins`. -/
theorem inBins_bounds {price : ℚ} (hlow : priceLow ≤ price) (hhigh : price ≤ priceHigh) :
    0 ≤ inBins priceLow priceHigh numBins price ∧
      inBins priceLow priceHigh numBins price ≤ numBins := by
  rw [inBins_le hprice hbins, le_inBins hprice hbins, binSize_mul hbins]
  constructor <;> linarith

/-- A candle that is not skipped at sight gets the bins from the floor of its low to the ceiling of its
    high, unless there are none. -/
theorem binsOf_eq {i : ℕ} (hvolume : (data.volume i).toNat ≠ 0) (htall : data.low i < data.high i)
    (hhigh : priceLow ≤ data.high i) (hlow : data.low i ≤ priceHigh) :
    let binLo := ⌊inBins priceLow priceHigh numBins (max (data.low i) priceLow)⌋.toNat
    let binHi := ⌈inBins priceLow priceHigh numBins (min (data.high i) priceHigh)⌉.toNat - 1
    binHi < numBins ∧ binsOf data priceLow priceHigh numBins i =
      if binHi < binLo then none else some (binLo, binHi) := by
  have hx := (inBins_bounds hprice hbins (le_max_right (data.low i) priceLow)
    (max_le hlow hprice.le)).1
  have hy := inBins_bounds hprice hbins (le_min hhigh hprice.le) (min_le_right (data.high i) priceHigh)
  have hceil : ⌈inBins priceLow priceHigh numBins (min (data.high i) priceHigh)⌉ ≤ numBins :=
    Int.ceil_le.mpr (by exact_mod_cast hy.2)
  have hskip : ¬((data.volume i).toNat = 0 ∨ data.high i ≤ data.low i) := by
    rintro (h | h)
    · exact hvolume h
    · exact absurd htall (not_lt.mpr h)
  have houtside : ¬(data.high i < priceLow ∨ priceHigh < data.low i) := by
    rintro (h | h)
    · exact absurd hhigh (not_le.mpr h)
    · exact absurd hlow (not_le.mpr h)
  intro binLo binHi
  have hlast : min (min ⌈inBins priceLow priceHigh numBins (min (data.high i) priceHigh)⌉
      (numBins : ℤ)).toNat numBins - 1 = binHi := by omega
  have hfirst : (max ⌊inBins priceLow priceHigh numBins (max (data.low i) priceLow)⌋ 0).toNat =
      binLo := by omega
  refine ⟨by omega, ?_⟩
  unfold binsOf
  rw [if_neg hskip, if_neg houtside]
  dsimp only
  rw [← inBins, ← inBins, hlast, hfirst]

theorem binsOf_eq_some {i lo hi : ℕ}
    (h : binsOf data priceLow priceHigh numBins i = some (lo, hi)) :
    Counted data priceLow priceHigh i ∧ lo ≤ hi ∧ hi < numBins ∧
      ∀ j, lo ≤ j → j ≤ hi → BinMeets data priceLow priceHigh numBins i j := by
  have hunskipped : (data.volume i).toNat ≠ 0 ∧ data.low i < data.high i ∧
      priceLow ≤ data.high i ∧ data.low i ≤ priceHigh := by
    unfold binsOf at h
    split at h
    · cases h
    split at h
    · cases h
    rename_i hskip houtside
    simp only [not_or, not_le, not_lt] at hskip houtside
    exact ⟨hskip.1, hskip.2, houtside.1, houtside.2⟩
  obtain ⟨hvolume, htall, hhigh, hlow⟩ := hunskipped
  obtain ⟨hlt, heq⟩ := binsOf_eq hprice hbins hvolume htall hhigh hlow
  have hy := (inBins_bounds hprice hbins (le_min hhigh hprice.le)
    (min_le_right (data.high i) priceHigh)).1
  rw [heq] at h
  split at h
  · cases h
  rename_i hle
  obtain ⟨rfl, rfl⟩ := Prod.mk.inj (Option.some.inj h)
  refine ⟨⟨htall, hhigh, ?_⟩, by omega, hlt, ?_⟩
  · -- at the upper price a candle would begin behind the last bin
    by_contra hup
    have heq : data.low i = priceHigh := le_antisymm hlow (not_lt.mp hup)
    have hfloor : (numBins : ℤ) ≤
        ⌊inBins priceLow priceHigh numBins (max (data.low i) priceLow)⌋ := by
      rw [Int.le_floor, heq, le_inBins hprice hbins]
      push_cast
      rw [binSize_mul hbins]
      exact le_trans (by linarith) (le_max_left _ _)
    omega
  · intro j hlo hhi
    constructor
    · rw [← le_inBins hprice hbins]
      rcases Nat.eq_zero_or_pos j with rfl | hj
      · exact_mod_cast hy
      · have : (j : ℤ) < ⌈inBins priceLow priceHigh numBins (min (data.high i) priceHigh)⌉ := by
          omega
        exact_mod_cast (Int.lt_ceil.mp this).le
    · rw [← inBins_le hprice hbins]
      have : ⌊inBins priceLow priceHigh numBins (max (data.low i) priceLow)⌋ < (j : ℤ) + 1 := by
        omega
      exact_mod_cast (Int.floor_lt.mp this).le

theorem binsOf_eq_none {i : ℕ} (h : binsOf data priceLow priceHigh numBins i = none)
    (hcounted : Counted data priceLow priceHigh i) : (data.volume i).toNat = 0 := by
  obtain ⟨htall, hhigh, hlow⟩ := hcounted
  by_contra hvolume
  obtain ⟨-, heq⟩ := binsOf_eq hprice hbins hvolume htall hhigh hlow.le
  have hx := (inBins_bounds hprice hbins (le_max_right (data.low i) priceLow)
    (max_le hlow.le hprice.le)).1
  rw [heq] at h
  split at h
  · rename_i hlt
    rcases hhigh.lt_or_eq with hhigh | hhigh
    · have hrange : max (data.low i) priceLow < min (data.high i) priceHigh :=
        max_lt (lt_min htall hlow) (lt_min hhigh hprice)
      have hfloor : ⌊inBins priceLow priceHigh numBins (max (data.low i) priceLow)⌋ <
          ⌈inBins priceLow priceHigh numBins (min (data.high i) priceHigh)⌉ :=
        Int.lt_ceil.mpr (lt_of_le_of_lt (Int.floor_le _) (inBins_lt_inBins hprice hbins hrange))
      have := Int.floor_nonneg.mpr hx
      omega
    · -- the range touches the lower price from below
      have hzero : inBins priceLow priceHigh numBins (max (data.low i) priceLow) = 0 := by
        rw [max_eq_right (hhigh ▸ htall.le), inBins, sub_self, zero_div]
      rw [hzero] at hlt
      simp at hlt
  · cases h

end

/-! ### How the volume is spread -/

/-- What bin `j` gets of a volume that is spread over these bins. -/
def portion (volume j : ℕ) : Option (ℕ × ℕ) → ℕ
  | none => 0
  | some (lo, hi) =>
    (if lo ≤ j ∧ j ≤ hi then volume / (hi - lo + 1) else 0) +
      if j = (lo + hi) / 2 then volume % (hi - lo + 1) else 0

theorem spread_eq (isBull : Bool) (volume lo hi : ℕ) (bins : List VolumeProfileBin) :
    spread isBull volume lo hi bins =
      bins.mapIdx fun j b => b.add isBull (portion volume j (some (lo, hi))) := by
  have hrest : volume - volume / (hi - lo + 1) * (hi - lo + 1) = volume % (hi - lo + 1) :=
    Nat.mod_eq_sub_div_mul.symm
  have hbin : ∀ (j : ℕ) (b : VolumeProfileBin),
      (if (lo + hi) / 2 = j then
        (if lo ≤ j ∧ j ≤ hi then b.add isBull (volume / (hi - lo + 1)) else b).add isBull
          (volume % (hi - lo + 1))
      else (if lo ≤ j ∧ j ≤ hi then b.add isBull (volume / (hi - lo + 1)) else b)) =
        b.add isBull (portion volume j (some (lo, hi))) := by
    intro j b
    rw [VolumeProfileBin.add_ite, VolumeProfileBin.add_ite, VolumeProfileBin.add_add, portion]
    simp only [eq_comm]
  unfold spread
  simp only [max_eq_left (by omega : 1 ≤ hi - lo + 1), hrest]
  refine List.ext_getElem ?_ ?_
  · split <;> simp
  · intro j hj hj'
    rw [List.getElem_mapIdx, ← hbin]
    split
    · rw [List.getElem_modify, List.getElem_mapIdx]
    · rename_i hzero
      have : volume % (hi - lo + 1) = 0 := by omega
      simp [this]

theorem portion_eq_zero {volume j lo hi : ℕ} (hle : lo ≤ hi) (hj : ¬(lo ≤ j ∧ j ≤ hi)) :
    portion volume j (some (lo, hi)) = 0 := by
  have hmid : j ≠ (lo + hi) / 2 := by omega
  simp [portion, hj, hmid]

theorem sum_portion {volume lo hi : ℕ} (hle : lo ≤ hi) (hlt : hi < numBins) :
    ∑ j ∈ Finset.range numBins, portion volume j (some (lo, hi)) = volume := by
  have hfilter : (Finset.range numBins).filter (fun j => lo ≤ j ∧ j ≤ hi) = Finset.Icc lo hi := by
    ext j
    simp only [Finset.mem_filter, Finset.mem_range, Finset.mem_Icc]
    omega
  have hmid : (lo + hi) / 2 < numBins := by omega
  have hcard : (Finset.Icc lo hi).card = hi - lo + 1 := by
    rw [Nat.card_Icc]
    omega
  have hspread : ∑ j ∈ Finset.range numBins, (if lo ≤ j ∧ j ≤ hi then volume / (hi - lo + 1) else 0) =
      (hi - lo + 1) * (volume / (hi - lo + 1)) := by
    rw [← Finset.sum_filter, hfilter, Finset.sum_const, hcard, Nat.nsmul_eq_mul]
  have hrest : ∑ j ∈ Finset.range numBins,
      (if j = (lo + hi) / 2 then volume % (hi - lo + 1) else 0) = volume % (hi - lo + 1) := by
    simp [hmid]
  simp only [portion, Finset.sum_add_distrib, hspread, hrest]
  exact Nat.div_add_mod _ _

/-- What bin `j` gets of candle `i`. -/
def volumeIn (data : CandleData) (priceLow priceHigh : ℚ) (numBins i j : ℕ) : ℕ :=
  portion (data.volume i).toNat j (binsOf data priceLow priceHigh numBins i)

section

variable (hprice : priceLow < priceHigh) (hbins : numBins ≠ 0)

include hprice hbins

theorem sum_volumeIn (i : ℕ) :
    ∑ j ∈ Finset.range numBins, volumeIn data priceLow priceHigh numBins i j =
      if Counted data priceLow priceHigh i then (data.volume i).toNat else 0 := by
  unfold volumeIn
  rcases h : binsOf data priceLow priceHigh numBins i with _ | ⟨lo, hi⟩
  · split
    · rename_i hcounted
      rw [binsOf_eq_none hprice hbins h hcounted]
      simp [portion]
    · simp [portion]
  · obtain ⟨hcounted, hle, hlt, -⟩ := binsOf_eq_some hprice hbins h
    rw [if_pos hcounted]
    exact sum_portion hle hlt

theorem volumeIn_ne_zero {i j : ℕ} (h : volumeIn data priceLow priceHigh numBins i j ≠ 0) :
    Counted data priceLow priceHigh i ∧ j < numBins ∧
      BinMeets data priceLow priceHigh numBins i j := by
  unfold volumeIn at h
  rcases hof : binsOf data priceLow priceHigh numBins i with _ | ⟨lo, hi⟩
  · rw [hof] at h
    exact absurd rfl h
  · obtain ⟨hcounted, hle, hlt, hmeets⟩ := binsOf_eq_some hprice hbins hof
    rw [hof] at h
    have hj : lo ≤ j ∧ j ≤ hi := by
      by_contra hj
      exact h (portion_eq_zero hle hj)
    exact ⟨hcounted, by omega, hmeets j hj.1 hj.2⟩

end

/-! ### The loop over the candles -/

/-- The bins with these volumes in them. -/
def binsWith (priceLow priceHigh : ℚ) (numBins : ℕ) (buy sell : ℕ → ℕ) : List VolumeProfileBin :=
  (List.range numBins).map fun j : ℕ =>
    ⟨priceLow + j * binSize priceLow priceHigh numBins,
      priceLow + (j + 1) * binSize priceLow priceHigh numBins, buy j, sell j⟩

theorem sum_total_binsWith (buy sell : ℕ → ℕ) :
    ((binsWith priceLow priceHigh numBins buy sell).map VolumeProfileBin.total).sum =
      ∑ j ∈ Finset.range numBins, (buy j + sell j) := by
  simp [binsWith, Finset.sum, Multiset.range, Function.comp_def, VolumeProfileBin.total]

section

variable (hprice : priceLow < priceHigh) (hbins : numBins ≠ 0)

include hprice hbins

/-- A candle that is counted adds its volume to the bins of its range, on its side; another adds
    none. -/
theorem addCandle_binsWith (buy sell : ℕ → ℕ) (total i : ℕ) :
    let share := volumeIn data priceLow priceHigh numBins i
    addCandle data priceLow priceHigh numBins (binsWith priceLow priceHigh numBins buy sell, total) i =
      (binsWith priceLow priceHigh numBins
        (fun j => buy j + if data.openPrice i ≤ data.close i then share j else 0)
        (fun j => sell j + if data.openPrice i ≤ data.close i then 0 else share j),
        total + if Counted data priceLow priceHigh i then (data.volume i).toNat else 0) := by
  intro share
  unfold share volumeIn addCandle
  rcases hof : binsOf data priceLow priceHigh numBins i with _ | ⟨lo, hi⟩
  · have hnone : (if Counted data priceLow priceHigh i then (data.volume i).toNat else 0) = 0 := by
      split
      · rename_i hcounted
        exact binsOf_eq_none hprice hbins hof hcounted
      · rfl
    simp [portion, hnone]
  · obtain ⟨hcounted, -⟩ := binsOf_eq_some hprice hbins hof
    rw [if_pos hcounted]
    refine Prod.ext ?_ rfl
    dsimp only
    rw [spread_eq]
    refine List.ext_getElem (by simp [binsWith]) ?_
    intro j hj hj'
    by_cases hbull : data.openPrice i ≤ data.close i <;>
      simp [binsWith, VolumeProfileBin.add, hbull]

/-- The bins and the total after the candles from `visStart` on. -/
theorem foldl_addCandle (visStart k : ℕ) :
    (List.range' visStart k).foldl (addCandle data priceLow priceHigh numBins)
      (emptyBins priceLow priceHigh numBins, 0) =
      (binsWith priceLow priceHigh numBins
        (fun j => ∑ i ∈ Finset.Ico visStart (visStart + k) with data.openPrice i ≤ data.close i,
          volumeIn data priceLow priceHigh numBins i j)
        (fun j => ∑ i ∈ Finset.Ico visStart (visStart + k) with ¬data.openPrice i ≤ data.close i,
          volumeIn data priceLow priceHigh numBins i j),
        ∑ i ∈ Finset.Ico visStart (visStart + k) with Counted data priceLow priceHigh i,
          (data.volume i).toNat) := by
  simp only [Finset.sum_filter]
  induction k with
  | zero => simp [emptyBins, binsWith]
  | succ k ih =>
    rw [List.range'_concat, List.foldl_append, ih, List.foldl_cons, List.foldl_nil, Nat.one_mul,
      addCandle_binsWith hprice hbins, ← Nat.add_assoc]
    simp only [Finset.sum_Ico_succ_top (Nat.le_add_right visStart k), ite_not]

end

/-- The volume of the candles from `visStart` to `visEnd` is in the bins, none of it twice or in a bin
    that its candle does not meet. -/
structure Accounts (data : CandleData) (visStart visEnd : ℕ) (priceLow priceHigh : ℚ) (numBins : ℕ)
    (profile : VolumeProfile) : Prop where
  summed : (profile.bins.map VolumeProfileBin.total).sum = profile.totalVolume
  whole : profile.totalVolume =
    ∑ i ∈ Finset.Ico visStart visEnd with Counted data priceLow priceHigh i, (data.volume i).toNat
  placed : ∃ share : ℕ → ℕ → ℕ,
    (∀ i, Counted data priceLow priceHigh i →
      ∑ j ∈ Finset.range numBins, share i j = (data.volume i).toNat) ∧
    (∀ i j, share i j ≠ 0 → Counted data priceLow priceHigh i ∧ j < numBins ∧
      BinMeets data priceLow priceHigh numBins i j) ∧
    profile.bins = binsWith priceLow priceHigh numBins
      (fun j => ∑ i ∈ Finset.Ico visStart visEnd with data.openPrice i ≤ data.close i, share i j)
      (fun j => ∑ i ∈ Finset.Ico visStart visEnd with ¬data.openPrice i ≤ data.close i, share i j)

theorem accounts_of_computeVolumeProfile {visStart visEnd : ℕ} {profile : VolumeProfile}
    (h : computeVolumeProfile data visStart visEnd priceLow priceHigh numBins = some profile) :
    Accounts data visStart visEnd priceLow priceHigh numBins profile := by
  unfold computeVolumeProfile at h
  split at h
  · cases h
  rename_i hguard
  simp only [not_or, not_le] at hguard
  obtain ⟨hvis, hbins, hprice⟩ := hguard
  rw [foldl_addCandle hprice hbins, Nat.add_sub_cancel' hvis.le] at h
  obtain rfl := Option.some.inj h
  refine ⟨?_, rfl, volumeIn data priceLow priceHigh numBins, ?_, ?_, rfl⟩
  · dsimp only
    rw [sum_total_binsWith]
    simp only [Finset.sum_filter_add_sum_filter_not]
    rw [Finset.sum_comm, Finset.sum_filter]
    exact Finset.sum_congr rfl fun i _ => sum_volumeIn hprice hbins i
  · intro i hcounted
    rw [sum_volumeIn hprice hbins, if_pos hcounted]
  · intro i j hne
    exact volumeIn_ne_zero hprice hbins hne

end

/-! ### The profile of a period -/

theorem accounts_of_computeProfileForRange {data : CandleData} {visStart visEnd numBins : ℕ}
    {profile : VolumeProfile} (h : computeProfileForRange data visStart visEnd numBins = some profile) :
    ∃ priceLow priceHigh, Accounts data visStart visEnd priceLow priceHigh numBins profile ∧
      ∀ i ∈ Finset.Ico visStart visEnd,
        Counted data priceLow priceHigh i ↔ data.low i < data.high i := by
  unfold computeProfileForRange at h
  split at h
  · cases h
  dsimp only at h
  split at h
  · rename_i minLow maxHigh hmin hmax
    split at h
    · cases h
    refine ⟨minLow, maxHigh, accounts_of_computeVolumeProfile h, ?_⟩
    intro i hi
    have hmem : i ∈ List.range' visStart (visEnd - visStart) := by
      rw [Finset.mem_Ico] at hi
      rw [List.mem_range'_1]
      omega
    have hlow := (List.min?_eq_some_iff.mp hmin).2 _ (List.mem_map_of_mem hmem)
    have hhigh := (List.max?_eq_some_iff.mp hmax).2 _ (List.mem_map_of_mem hmem)
    refine ⟨fun hcounted => hcounted.1, ?_⟩
    intro htall
    exact ⟨htall, hlow.trans htall.le, htall.trans_le hhigh⟩
  · cases h

/-- What `compute_volume_profile` returns accounts for the volume of every candle that has a range and
    meets the shown prices; of a period, for every candle that has a range. -/
theorem volume_accounted_for (data : CandleData) (visStart visEnd numBins : ℕ) :
    (∀ priceLow priceHigh profile,
      computeVolumeProfile data visStart visEnd priceLow priceHigh numBins = some profile →
        Accounts data visStart visEnd priceLow priceHigh numBins profile) ∧
    ∀ boundaries maxProfiles, ∀ r ∈ computeAnchoredVolumeProfiles data visStart visEnd boundaries
      numBins maxProfiles, ∃ stop, (r.1, stop) ∈ periodRanges visEnd boundaries maxProfiles ∧
        visStart ≤ r.1 ∧ stop ≤ visEnd ∧
        (∃ priceLow priceHigh, Accounts data r.1 stop priceLow priceHigh numBins r.2) ∧
        r.2.totalVolume =
          ∑ i ∈ Finset.Ico r.1 stop with data.low i < data.high i, (data.volume i).toNat := by
  refine ⟨fun _ _ _ => accounts_of_computeVolumeProfile, ?_⟩
  rintro boundaries maxProfiles ⟨start, profile⟩ hr
  unfold computeAnchoredVolumeProfiles at hr
  split at hr
  · cases hr
  obtain ⟨⟨start', stop⟩, hrange, hprofile⟩ := List.mem_filterMap.mp hr
  split at hprofile
  · cases hprofile
  rename_i hguard
  simp only [not_or, not_lt] at hguard
  obtain ⟨p, hp, heq⟩ := Option.map_eq_some_iff.mp hprofile
  obtain ⟨rfl, rfl⟩ := Prod.mk.inj heq
  obtain ⟨priceLow, priceHigh, haccounts, hcounted⟩ := accounts_of_computeProfileForRange hp
  refine ⟨stop, hrange, hguard.1, hguard.2.1, ⟨priceLow, priceHigh, haccounts⟩, ?_⟩
  rw [haccounts.whole]
  exact Finset.sum_congr (Finset.filter_congr hcounted) fun _ _ => rfl

/-- Three candles: one from 1 to 2, one that stays at 3/2, and one from 2 up to 3. -/
def threeCandles : CandleData where
  openPrice i := if i = 0 then 1 else if i = 1 then 3 / 2 else 2
  high i := if i = 0 then 2 else if i = 1 then 3 / 2 else 3
  low i := if i = 0 then 1 else if i = 1 then 3 / 2 else 2
  close i := if i = 0 then 2 else if i = 1 then 3 / 2 else 3
  volume i := if i = 0 then 10 else if i = 1 then 7 else 5

theorem volume_accounted_for_threeCandles :
    ∃ profile, computeVolumeProfile threeCandles 0 3 1 3 4 = some profile ∧
      Accounts threeCandles 0 3 1 3 4 profile := by
  have hsome : (computeVolumeProfile threeCandles 0 3 1 3 4).isSome = true := by decide +kernel
  obtain ⟨profile, hprofile⟩ := Option.isSome_iff_exists.mp hsome
  exact ⟨profile, hprofile, (volume_accounted_for threeCandles 0 3 4).1 1 3 profile hprofile⟩

/-- A candle without a range is left out, of a period as of the whole chart, and so is one that
    touches the shown prices from above. -/
theorem flat_and_touching_left_out :
    ((computeVolumeProfile threeCandles 0 3 1 2 4).map VolumeProfile.totalVolume = some 10 ∧
      ∑ i ∈ Finset.Ico 0 3 with 1 ≤ threeCandles.high i ∧ threeCandles.low i ≤ 2,
        (threeCandles.volume i).toNat = 22) ∧
    ((computeAnchoredVolumeProfiles threeCandles 0 3 [0] 4 1).map fun r => (r.1, r.2.totalVolume)) =
        [(0, 15)] ∧
      ∑ i ∈ Finset.Ico 0 3, (threeCandles.volume i).toNat = 22 := by
  decide +kernel

end Midas.Chart
