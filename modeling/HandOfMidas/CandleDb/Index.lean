import HandOfMidas.CandleDb.Tables
import Mathlib.Data.List.Sort
import Mathlib.Order.Defs.LinearOrder
import Mathlib.Algebra.Order.Ring.Int

/-! The index agrees with the candles when it has a row for each symbol and timeframe that has any, with
    their count, first and last. What an insertion and a deletion do to both tables. -/

namespace Midas.CandleDb

variable {F : Type}

def DataRange.bounds (r : DataRange) : ℤ × ℤ × ℤ := (r.candleCount, r.firstTs, r.lastTs)

/-- Where `timeframe_to_i32` leads, for it never fails. -/
def DataKey.tableKey (key : DataKey) : String × ℤ := (key.symbol, key.timeframe.asSecs)

theorem timeframeToI32_eq (tf : Timeframe) : timeframeToI32 tf = .ok tf.asSecs := by
  cases tf <;> rfl

theorem timeframeFromSecs_asSecs (tf : Timeframe) : timeframeFromSecs tf.asSecs = some tf := by
  cases tf <;> rfl

/-- Timeframes differ in their seconds, so keys do not meet in the tables. -/
theorem DataKey.tableKey_injective : Function.Injective DataKey.tableKey := by
  rintro ⟨symbol, tf⟩ ⟨symbol', tf'⟩ h
  obtain ⟨hsymbol, htf⟩ := Prod.mk.inj h
  have hsecs : timeframeFromSecs tf.asSecs = timeframeFromSecs tf'.asSecs :=
    congrArg timeframeFromSecs (Int.natCast_inj.mp htf)
  rw [timeframeFromSecs_asSecs, timeframeFromSecs_asSecs] at hsecs
  obtain rfl : symbol = symbol' := hsymbol
  obtain rfl := Option.some.inj hsecs
  rfl

/-- The candles of a buffer follow one another in time. -/
def Increasing (buf : List (Candle F)) : Prop := buf.Pairwise fun a b => a.timestamp < b.timestamp

namespace Tables

def Agrees (t : Tables F) : Prop :=
  ∀ k, (t.dataRanges.get? k).map DataRange.bounds = summary ((t.candlesOf k).map (·.timestamp))

/-! ### The candles -/

variable {t t' : Tables F} {k : String × ℤ} {rows : List (CandleRow F)} {buf : List (Candle F)}

theorem mem_candlesOf {c : Candle F} :
    c ∈ t.candlesOf k ↔ ∃ r ∈ t.candles.items, (r.symbol, r.timeframeSecs) = k ∧ r.candle = c := by
  simp [candlesOf, and_assoc]

theorem candlesOf_deleteCandles (t : Tables F) (k k' : String × ℤ) :
    (t.deleteCandles k).candlesOf k' = if k' = k then [] else t.candlesOf k' := by
  unfold candlesOf deleteCandles Store.retain
  rw [List.filter_filter]
  split
  · rename_i h
    subst h
    rw [List.filter_eq_nil_iff.mpr, List.map_nil]
    intro r _
    simp
  · rename_i h
    congr 1
    refine List.filter_congr fun r _ => ?_
    by_cases hk : (r.symbol, r.timeframeSecs) = k'
    · simp [hk, h]
    · simp [hk]

def putCandles (t : Tables F) (rows : List (CandleRow F)) : Tables F :=
  { t with candles := rows.foldl Store.put t.candles }

theorem flush_ok {u : Unit} (h : flush rows t = .ok (u, t')) : t.putCandles rows = t' := by
  induction rows generalizing t with
  | nil => exact congrArg Prod.snd (Except.ok.inj h)
  | cons r rows ih =>
    unfold flush at h
    split at h
    · cases h
    · exact ih h

/-- Rows with new keys are written, the last one first. -/
theorem items_putCandles (hnodup : (rows.map CandleRow.primaryKey).Nodup)
    (hnew : ∀ r ∈ rows, t.candles.get? r.primaryKey = none) :
    (t.putCandles rows).candles.items = rows.reverse ++ t.candles.items := by
  induction rows generalizing t with
  | nil => rfl
  | cons r rows ih =>
    rw [List.map_cons, List.nodup_cons] at hnodup
    obtain ⟨hr, hnew⟩ := List.forall_mem_cons.mp hnew
    have hrest : ∀ x ∈ rows, (t.candles.put r).get? x.primaryKey = none := by
      intro x hx
      rw [Store.get?_put, if_neg, hnew x hx]
      exact fun heq => hnodup.1 (heq ▸ List.mem_map_of_mem hx)
    have hput := ih (t := { t with candles := t.candles.put r }) hnodup.2 hrest
    rw [Store.items_put, Store.others_of_get? hr] at hput
    rw [List.reverse_cons, List.append_assoc]
    exact hput

theorem flush_eq (hnodup : (rows.map CandleRow.primaryKey).Nodup)
    (hnew : ∀ r ∈ rows, t.candles.get? r.primaryKey = none) :
    flush rows t = .ok ((), t.putCandles rows) := by
  induction rows generalizing t with
  | nil => rfl
  | cons r rows ih =>
    rw [List.map_cons, List.nodup_cons] at hnodup
    obtain ⟨hr, hnew⟩ := List.forall_mem_cons.mp hnew
    unfold flush
    rw [hr, Option.isSome_none, if_neg Bool.false_ne_true]
    refine ih hnodup.2 fun x hx => ?_
    change (t.candles.put r).get? x.primaryKey = none
    rw [Store.get?_put, if_neg, hnew x hx]
    exact fun heq => hnodup.1 (heq ▸ List.mem_map_of_mem hx)

/-! ### A buffer -/

/-- The rows of a buffer. -/
def rowsOf (k : String × ℤ) (buf : List (Candle F)) : List (CandleRow F) :=
  buf.map fun candle => ⟨k.1, k.2, candle⟩

theorem nodup_rowsOf (k : String × ℤ) (h : Increasing buf) :
    ((rowsOf k buf).map CandleRow.primaryKey).Nodup := by
  unfold rowsOf
  rw [List.map_map, List.Nodup, List.pairwise_map]
  refine h.imp fun hlt heq => ?_
  exact hlt.ne (congrArg (·.2.2) heq)

theorem new_rowsOf (hempty : t.candlesOf k = []) :
    ∀ r ∈ rowsOf k buf, t.candles.get? r.primaryKey = none := by
  intro r hr
  obtain ⟨c, -, rfl⟩ := List.mem_map.mp hr
  cases hget : t.candles.get? (CandleRow.primaryKey ⟨k.1, k.2, c⟩) with
  | none => rfl
  | some r' =>
    have hkey := Store.key_of_get? hget
    have hmem : r'.candle ∈ t.candlesOf k := mem_candlesOf.mpr
      ⟨r', Store.mem_of_get? hget, congrArg (fun x => (x.1, x.2.1)) hkey, rfl⟩
    rw [hempty] at hmem
    cases hmem

theorem candlesOf_putCandles (h : Increasing buf) (hempty : t.candlesOf k = []) (k' : String × ℤ) :
    (t.putCandles (rowsOf k buf)).candlesOf k' = if k' = k then buf.reverse else t.candlesOf k' := by
  have hnew : ∀ r ∈ rowsOf k buf, t.candles.get? r.primaryKey = none := new_rowsOf hempty
  have hitems := items_putCandles (nodup_rowsOf k h) hnew
  unfold candlesOf at hempty ⊢
  rw [hitems, List.filter_append, List.map_append, rowsOf, ← List.map_reverse, List.filter_map]
  split
  · rename_i heq
    subst heq
    rw [hempty, List.append_nil, List.filter_eq_self.mpr fun c _ => by simp]
    simp [Function.comp_def]
  · rename_i hne
    rw [List.filter_eq_nil_iff.mpr fun c _ => by simpa using fun heq => hne heq.symm]
    rfl

/-- A buffer comes back in the order in which it was. -/
theorem orderByTimestamp_of_perm {l : List (Candle F)} (h : Increasing buf) (hperm : l.Perm buf) :
    orderByTimestamp l = buf := by
  have hsorted : (orderByTimestamp l).Pairwise fun a b => decide (a.timestamp ≤ b.timestamp) = true := by
    refine List.pairwise_mergeSort (fun a b c => ?_) (fun a b => ?_) l
    · simp only [decide_eq_true_eq]
      exact le_trans
    · simpa using le_total a.timestamp b.timestamp
  have hperm' : (orderByTimestamp l).Perm buf := (List.mergeSort_perm l _).trans hperm
  refine hperm'.eq_of_pairwise (fun a b ha hb hab hba => ?_) hsorted
    (h.imp fun hlt => decide_eq_true hlt.le)
  -- Two candles of a buffer at one time are the same.
  have heq : a.timestamp = b.timestamp := le_antisymm (of_decide_eq_true hab) (of_decide_eq_true hba)
  have hnodup : (buf.map (·.timestamp)).Nodup :=
    List.pairwise_map.mpr (h.imp fun hlt => hlt.ne)
  exact List.inj_on_of_nodup_map hnodup (hperm'.mem_iff.mp ha) hb heq

/-! ### The index -/

theorem summary_perm {l l' : List ℤ} (h : l.Perm l') : summary l = summary l' := by
  unfold summary
  have hmin : l.min? = l'.min? := by
    cases hl : l.min? with
    | none =>
      rw [List.min?_eq_none_iff] at hl
      subst hl
      rw [← h.nil_eq]
      rfl
    | some a =>
      rw [List.min?_eq_some_iff] at hl
      rw [eq_comm, List.min?_eq_some_iff]
      exact ⟨h.mem_iff.mp hl.1, fun b hb => hl.2 b (h.mem_iff.mpr hb)⟩
  have hmax : l.max? = l'.max? := by
    cases hl : l.max? with
    | none =>
      rw [List.max?_eq_none_iff] at hl
      subst hl
      rw [← h.nil_eq]
      rfl
    | some a =>
      rw [List.max?_eq_some_iff] at hl
      rw [eq_comm, List.max?_eq_some_iff]
      exact ⟨h.mem_iff.mp hl.1, fun b hb => hl.2 b (h.mem_iff.mpr hb)⟩
  rw [hmin, hmax, h.length_eq]

/-- What is first and last in a buffer is smallest and largest. -/
theorem summary_of_increasing {first : Candle F} {rest : List (Candle F)}
    (h : Increasing (first :: rest)) : summary ((first :: rest).map (·.timestamp)) =
      some (((rest.length + 1 : ℕ) : ℤ), first.timestamp, (rest.getLastD first).timestamp) := by
  obtain ⟨hfirst, hrest⟩ := List.pairwise_cons.mp h
  have hmin : ((first :: rest).map (·.timestamp)).min? = some first.timestamp := by
    rw [List.min?_eq_some_iff]
    refine ⟨List.mem_cons_self, fun b hb => ?_⟩
    obtain ⟨c, hc, rfl⟩ := List.mem_map.mp hb
    rcases List.mem_cons.mp hc with rfl | hc
    · exact le_rfl
    · exact (hfirst c hc).le
  have hmax : ((first :: rest).map (·.timestamp)).max? = some (rest.getLastD first).timestamp := by
    rw [List.max?_eq_some_iff]
    rcases List.eq_nil_or_concat rest with rfl | ⟨init, last, rfl⟩
    · exact ⟨List.mem_cons_self, fun b hb => (List.mem_singleton.mp hb).le⟩
    · rw [List.concat_eq_append] at hfirst hrest ⊢
      rw [List.getLastD_concat]
      refine ⟨List.mem_map_of_mem (List.mem_cons_of_mem _ List.mem_append_cons_self), fun b hb => ?_⟩
      obtain ⟨c, hc, rfl⟩ := List.mem_map.mp hb
      have hlast : last ∈ init ++ [last] := List.mem_append_right _ List.mem_cons_self
      rcases List.mem_cons.mp hc with rfl | hc
      · exact (hfirst last hlast).le
      · rcases List.mem_append.mp hc with hc | hc
        · exact ((List.pairwise_append.mp hrest).2.2 c hc last List.mem_cons_self).le
        · rw [List.mem_singleton.mp hc]
  unfold summary
  rw [hmin, hmax, List.length_map, List.length_cons]

end Tables

end Midas.CandleDb
