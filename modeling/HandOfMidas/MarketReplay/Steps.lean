import HandOfMidas.Lib.Search
import HandOfMidas.MarketReplay.Records

/-! Which perturbations a record meets. They are applied once in each step, before the records that the
    step reads, so a record meets those that are due at its step and not those that are due at its own
    time. -/

namespace Midas.MarketReplay

open IbSim ReplayEngine

variable {F : Type}

/-! ### The script by itself -/

/-- The perturbations in the order of their times. -/
def timeline (script : List (Perturbation F)) : List (Perturbation F) :=
  script.mergeSort fun p q => p.when ≤ q.when

theorem timeline_sorted (script : List (Perturbation F)) :
    (timeline script).Pairwise fun p q => p.when ≤ q.when := by
  have h : (timeline script).Pairwise fun p q => decide (p.when ≤ q.when) = true :=
    List.pairwise_mergeSort
      (fun a b c hab hbc => by
        rw [decide_eq_true_eq] at hab hbc ⊢
        exact hab.trans hbc)
      (fun a b => by
        rw [Bool.or_eq_true, decide_eq_true_eq, decide_eq_true_eq]
        exact Nat.le_total _ _) script
  exact h.imp of_decide_eq_true

/-- A halt of the symbol that the engine lets end after a time. -/
def Perturbation.halts (symbol : SymbolKey) (now : VirtualInstant) : Perturbation F → Bool
  | injectHalt t s duration => s = symbol ∧ now < saturatingAdd t duration
  | _ => false

/-- Halted for a step at this time. -/
def haltedAt (script : List (Perturbation F)) (symbol : SymbolKey) (now : VirtualInstant) : Bool :=
  (timeline script).any fun p => p.when ≤ now && p.halts symbol now

/-- The time lies in a halt window of the symbol. -/
def inWindow (script : List (Perturbation F)) (symbol : SymbolKey) (t : VirtualInstant) : Bool :=
  script.any fun
    | .injectHalt start s duration => s = symbol ∧ start ≤ t ∧ t < start + duration
    | _ => false

/-- At or before the last step, if there was one. -/
def reached (last : Option VirtualInstant) (t : VirtualInstant) : Bool := last.any fun s => t ≤ s

theorem filter_reached_none (ps : List (Perturbation F)) :
    ps.filter (fun p => reached none p.when) = [] :=
  List.filter_eq_nil_iff.mpr fun _ _ => Bool.false_ne_true

/-- The halts that a step drops were over. -/
theorem HybridEngine.halted_retain (h : HybridEngine F) {now t : VirtualInstant} (ht : now ≤ t)
    (symbol : SymbolKey) :
    (h.activeHalts.filter fun a => a.until' > now).any (fun a => a.symbol = symbol ∧ a.until' > t) =
      h.halted symbol t := by
  rw [HybridEngine.halted, List.any_filter]
  congr 1
  funext a
  rw [← Bool.decide_and]
  exact decide_eq_decide.mpr ⟨fun hd => hd.2, fun hd => ⟨lt_of_le_of_lt ht hd.2, hd⟩⟩

section
variable [F64 F]

/-- What a perturbation adds to the prices of a symbol. -/
def Perturbation.amount (symbol : SymbolKey) : Perturbation F → Option F
  | injectJump _ s magnitudePct => if s = symbol then some (magnitudePct / F64.lit 100) else none
  | injectGap _ s fromPrice toPrice => if s = symbol then some (toPrice - fromPrice) else none
  | _ => none

/-- One amount after another. -/
def total (amounts : List F) (shift : Option F) : Option F :=
  amounts.foldl (fun s x => some (s.getD (F64.lit 0) + x)) shift

theorem total_append (xs ys : List F) (shift : Option F) :
    total (xs ++ ys) shift = total ys (total xs shift) := List.foldl_append

/-- The shift of the jumps and gaps of a symbol at or before a time. -/
def shiftAt (script : List (Perturbation F)) (symbol : SymbolKey) (t : VirtualInstant) : Option F :=
  total (((timeline script).filter fun p => p.when ≤ t).filterMap (·.amount symbol)) none

/-- What becomes of an emission in a step at this time. -/
def seenAt (script : List (Perturbation F)) (now : VirtualInstant) (em : MarketEmission F) :
    Option (MarketEmission F) :=
  if haltedAt script (emissionSymbol em) now then none
  else some (movedBy (shiftAt script (emissionSymbol em) now) em)

/-- What is to become of an emission of a record of this time. -/
def wantedAt (script : List (Perturbation F)) (ts : VirtualInstant) (em : MarketEmission F) :
    Option (MarketEmission F) :=
  if inWindow script (emissionSymbol em) ts then none
  else some (movedBy (shiftAt script (emissionSymbol em) ts) em)

/-! ### What one step applies -/

namespace HybridEngine

theorem applyPending_eq (now : VirtualInstant) (ps : List (Perturbation F)) (h : HybridEngine F) :
    applyPending now ps h =
      { (ps.takeWhile fun p => p.when ≤ now).foldl applyOne h with
        pending := ps.dropWhile fun p => p.when ≤ now } := by
  induction ps generalizing h with
  | nil => rfl
  | cons p ps ih =>
    rw [applyPending]
    by_cases hp : p.when > now
    · rw [if_pos hp, List.takeWhile_cons_of_neg (by simpa using hp),
        List.dropWhile_cons_of_neg (by simpa using hp)]
      rfl
    · rw [if_neg hp, ih, List.takeWhile_cons_of_pos (by simpa using hp),
        List.dropWhile_cons_of_pos (by simpa using hp), List.foldl_cons]

theorem base_foldl_applyOne (ps : List (Perturbation F)) (h : HybridEngine F) :
    (ps.foldl applyOne h).base = h.base := by
  induction ps generalizing h with
  | nil => rfl
  | cons p ps ih => rw [List.foldl_cons, ih]; cases p <;> rfl

theorem addShift_apply (shifts : SymbolKey → Option F) (s symbol : SymbolKey) (x : F) :
    addShift shifts s x symbol = total (if s = symbol then some x else none).toList
      (shifts symbol) := by
  rw [addShift]
  by_cases hs : s = symbol
  · subst hs; rw [Function.update_self, if_pos rfl]; rfl
  · rw [Function.update_of_ne (Ne.symm hs), if_neg hs]; rfl

theorem priceShift_applyOne (h : HybridEngine F) (p : Perturbation F) (symbol : SymbolKey) :
    (h.applyOne p).priceShift symbol = total (p.amount symbol).toList (h.priceShift symbol) := by
  cases p with
  | injectJump t s magnitudePct => exact addShift_apply _ _ _ _
  | injectGap t s fromPrice toPrice => exact addShift_apply _ _ _ _
  | injectHalt t s duration => rfl
  | burstMode fromAt toAt multiplier => rfl

theorem priceShift_foldl_applyOne (ps : List (Perturbation F)) (h : HybridEngine F)
    (symbol : SymbolKey) :
    (ps.foldl applyOne h).priceShift symbol =
      total (ps.filterMap (·.amount symbol)) (h.priceShift symbol) := by
  induction ps generalizing h with
  | nil => rfl
  | cons p ps ih =>
    rw [List.foldl_cons, ih, priceShift_applyOne]
    cases hp : p.amount symbol with
    | none => rw [List.filterMap_cons_none hp]; rfl
    | some x => rw [List.filterMap_cons_some hp]; rfl

theorem halted_applyOne (h : HybridEngine F) (p : Perturbation F) (symbol : SymbolKey)
    (now : VirtualInstant) :
    (h.applyOne p).halted symbol now = (h.halted symbol now || p.halts symbol now) := by
  cases p with
  | injectHalt t s duration =>
    rw [applyOne, halted, List.any_append, ← halted, List.any_cons, List.any_nil, Bool.or_false,
      Perturbation.halts]
  | _ => exact (Bool.or_false _).symm

theorem halted_foldl_applyOne (ps : List (Perturbation F)) (h : HybridEngine F) (symbol : SymbolKey)
    (now : VirtualInstant) :
    (ps.foldl applyOne h).halted symbol now = (h.halted symbol now || ps.any (·.halts symbol now)) := by
  induction ps generalizing h with
  | nil => exact (Bool.or_false _).symm
  | cons p ps ih => rw [List.foldl_cons, ih, halted_applyOne, List.any_cons, Bool.or_assoc]

/-- All that was due at the last step is applied, and nothing else. Of the halts, what they say from
    then on is what counts: those that have ended may be gone. -/
structure Applied (script : List (Perturbation F)) (last : Option VirtualInstant) (h : HybridEngine F) :
    Prop where
  pending : h.pending = (timeline script).filter fun p => !reached last p.when
  shifts : ∀ symbol, h.priceShift symbol =
    total (((timeline script).filter fun p => reached last p.when).filterMap (·.amount symbol)) none
  halts : ∀ symbol now, (∀ t ∈ last, t ≤ now) →
    h.halted symbol now = ((timeline script).filter fun p => reached last p.when).any
      (·.halts symbol now)

theorem applied_new (base : ReplayEngine F) (script : List (Perturbation F)) :
    Applied script none (new base script) where
  pending := (List.filter_eq_self.mpr fun _ _ => rfl).symm
  shifts symbol := by rw [filter_reached_none]; rfl
  halts symbol now _ := by rw [filter_reached_none]; rfl

/-- The burst says nothing of what is emitted. -/
theorem applyDue_eq (h : HybridEngine F) (now : VirtualInstant) :
    ∃ burst, h.applyDue now = applyPending now h.pending
      { h with activeHalts := h.activeHalts.filter fun a => a.until' > now, burst := burst } := by
  rw [applyDue]
  cases hb : h.burst with
  | none => exact ⟨none, rfl⟩
  | some b =>
    obtain ⟨from', to', multiplier⟩ := b
    by_cases hto : now ≥ to'
    · exact ⟨none, by simp only [if_pos hto]⟩
    · exact ⟨some (from', to', multiplier), by simp only [if_neg hto]⟩

theorem base_applyDue (h : HybridEngine F) (now : VirtualInstant) : (h.applyDue now).base = h.base := by
  obtain ⟨burst, hd⟩ := applyDue_eq h now
  rw [hd, applyPending_eq]
  exact base_foldl_applyOne _ _

/-- What a step applies is what is due at it. -/
theorem Applied.applyDue {script : List (Perturbation F)} {last : Option VirtualInstant}
    {h : HybridEngine F} (happ : Applied script last h) {now : VirtualInstant}
    (hlast : ∀ t ∈ last, t ≤ now) : Applied script (some now) (h.applyDue now) := by
  have hreach : ∀ p : Perturbation F, reached last p.when = true → decide (p.when ≤ now) = true := by
    intro p hp
    cases last with
    | none => exact absurd hp Bool.false_ne_true
    | some t => exact decide_eq_true ((of_decide_eq_true hp).trans (hlast t rfl))
  have hsorted := timeline_sorted script
  have hlow : (timeline script).Pairwise fun p q : Perturbation F =>
      reached last q.when = true → reached last p.when = true := by
    refine hsorted.imp fun {p q} hpq hq => ?_
    cases last with
    | none => exact absurd hq Bool.false_ne_true
    | some t => exact decide_eq_true (hpq.trans (of_decide_eq_true hq))
  -- what the loop takes is what is due and was not applied before
  have hdue : ((timeline script).filter fun p => !reached last p.when).Pairwise
      fun p q => decide (q.when ≤ now) = true → decide (p.when ≤ now) = true :=
    (hsorted.filter _).imp fun hpq hq => decide_eq_true (hpq.trans (of_decide_eq_true hq))
  have hsplit : ((timeline script).filter fun p => reached (some now) p.when) =
      ((timeline script).filter fun p => reached last p.when) ++
        h.pending.takeWhile fun p => p.when ≤ now := by
    rw [happ.pending, Search.takeWhile_eq_filter hdue]
    exact Search.filter_eq_append hreach hlow
  obtain ⟨burst, hd⟩ := applyDue_eq h now
  rw [hd, applyPending_eq]
  refine ⟨?_, fun symbol => ?_, fun symbol t ht => ?_⟩
  · change h.pending.dropWhile _ = _
    rw [happ.pending, Search.dropWhile_eq_filter hdue, List.filter_filter]
    congr 1
    funext p
    cases hp : reached last p.when with
    | false => exact Bool.and_true _
    | true =>
      rw [hreach p hp]
      exact (congrArg not (hreach p hp)).symm
  · rw [hsplit, List.filterMap_append, total_append, ← happ.shifts]
    exact priceShift_foldl_applyOne _ _ _
  · rw [hsplit, List.any_append]
    change (List.foldl applyOne _ _).halted symbol t = _
    rw [halted_foldl_applyOne, ← happ.halts symbol t fun s hs => (hlast s hs).trans (ht now rfl),
      ← halted_retain h (ht now rfl)]
    rfl

end HybridEngine

end

end Midas.MarketReplay
