import HandOfMidas.MarketReplay.Steps

/-! Whether the size of the steps shows in what is emitted. A record meets the perturbations that
    are due at the first step that reaches it, so a run says what the script says just where, for
    each record, the script is the same at that step as at the time of the record. -/

namespace Midas.MarketReplay

open IbSim ReplayEngine HybridEngine

variable {F : Type} [F64 F]

/-! ### A whole run -/

namespace HybridEngine

theorem filterAndRewrite_eq {script : List (Perturbation F)} {h : HybridEngine F} {now : VirtualInstant}
    (happ : Applied script (some now) h) : h.filterAndRewrite now = seenAt script now := by
  funext em
  have hhalt : h.halted (emissionSymbol em) now = haltedAt script (emissionSymbol em) now := by
    rw [happ.halts _ now (by simp), haltedAt, List.any_filter]
    rfl
  rw [filterAndRewrite, seenAt, hhalt, happ.shifts]
  rfl

/-- A step reads what is due in it and rewrites that by what is due at it. -/
theorem stepRecords_spec {script : List (Perturbation F)} {last : Option VirtualInstant}
    {h : HybridEngine F} (happ : Applied script last h) {now : VirtualInstant}
    (hlast : ∀ t ∈ last, t ≤ now) (walk : List SubKey → List SubKey) :
    let base := h.base.refreshSubsOrder walk
    let due := h.base.reader.takeWhile fun r => r.ts ≤ now
    let next := (h.stepRecords walk now).1
    (h.stepRecords walk now).2 = (outputs due base).map (fun p => p.2.filterMap (seenAt script now)) ∧
      next.base.reader = h.base.reader.dropWhile (fun r => r.ts ≤ now) ∧
      (∀ rs, outputs rs (next.base.refreshSubsOrder walk) = outputs rs (past due base)) ∧
      Applied script (some now) next := by
  intro base due next
  have hreader : base.reader = h.base.reader := (refreshSubsOrder_fields walk h.base).1
  have hnext := happ.applyDue hlast
  have hstep : h.stepRecords walk now =
      ({ h.applyDue now with
          base := { past due base with reader := h.base.reader.dropWhile fun r => r.ts ≤ now } },
        (outputs due base).map fun p => p.2.filterMap (seenAt script now)) := by
    rw [stepRecords, ReplayEngine.stepRecords, base_applyDue, drain_eq, filterAndRewrite_eq hnext]
    simp only [← hreader, List.map_map, due, base]
    rfl
  have hclean : next.base.subsDirty = false := by
    simp only [next, hstep]
    exact (past_fields due base).2.2.2.trans (refreshSubsOrder_fields walk h.base).2.2.2.2
  rw [refreshSubsOrder_of_clean walk hclean]
  simp only [next, hstep]
  exact ⟨trivial, trivial, fun rs => outputs_reader rs _ _, hnext.pending, hnext.shifts, hnext.halts⟩

theorem runRecords_cons (walk : List SubKey → List SubKey) (h : HybridEngine F) (now : VirtualInstant)
    (steps : List VirtualInstant) :
    h.runRecords walk (now :: steps) =
      (h.stepRecords walk now).2 ++ (h.stepRecords walk now).1.runRecords walk steps := rfl

/-- In a run each record is read at the first step that is not before it. -/
theorem runRecords_eq {script : List (Perturbation F)} {walk : List SubKey → List SubKey}
    {steps : List VirtualInstant} {last : Option VirtualInstant} {h : HybridEngine F}
    (happ : Applied script last h) (hsteps : steps.Pairwise (· ≤ ·))
    (hlast : ∀ t ∈ last, ∀ s ∈ steps, t ≤ s) (hfile : h.base.reader.Pairwise fun r r' => r.ts ≤ r'.ts) :
    h.runRecords walk steps =
      (outputs (h.base.reader.filter fun r => steps.any (r.ts ≤ ·)) (h.base.refreshSubsOrder walk)).map
        fun p => p.2.filterMap (seenAt script ((steps.find? (p.1.ts ≤ ·)).getD 0)) := by
  induction steps generalizing last h with
  | nil =>
    have hnone : (h.base.reader.filter fun r => [].any (r.ts ≤ ·)) = [] :=
      List.filter_eq_nil_iff.mpr fun _ _ => Bool.false_ne_true
    rw [hnone]
    rfl
  | cons now rest ih =>
    obtain ⟨hnow, hrest⟩ := List.pairwise_cons.mp hsteps
    obtain ⟨hout, hreader, hrs, happ'⟩ :=
      stepRecords_spec happ (fun t ht => hlast t ht now List.mem_cons_self) walk
    have hlow : h.base.reader.Pairwise fun r r' =>
        decide (r'.ts ≤ now) = true → decide (r.ts ≤ now) = true :=
      hfile.imp fun hrr h' => decide_eq_true (hrr.trans (of_decide_eq_true h'))
    have hfile' : (h.stepRecords walk now).1.base.reader.Pairwise fun r r' => r.ts ≤ r'.ts := by
      rw [hreader]
      exact hfile.sublist (List.dropWhile_sublist _)
    -- the records of this step, then those of the steps to come
    have hsplit := Search.filter_eq_append (p := fun r : DbnEmission F => (now :: rest).any (r.ts ≤ ·))
      (q := fun r => decide (r.ts ≤ now)) (fun r hr => by rw [List.any_cons, hr, Bool.true_or]) hlow
    have hlater : ((h.base.reader.filter fun r => !decide (r.ts ≤ now)).filter fun r =>
        (now :: rest).any (r.ts ≤ ·)) =
        (h.base.reader.dropWhile fun r => r.ts ≤ now).filter fun r => rest.any (r.ts ≤ ·) := by
      rw [Search.dropWhile_eq_filter hlow]
      refine List.filter_congr fun r hr => ?_
      have hr' : decide (r.ts ≤ now) = false := by simpa using (List.mem_filter.mp hr).2
      rw [List.any_cons, hr', Bool.false_or]
    rw [runRecords_cons, hout, ih happ' hrest (fun t ht s hs => by cases ht; exact hnow s hs) hfile',
      hreader, hrs, hsplit, hlater, ← Search.takeWhile_eq_filter hlow, outputs_append, List.map_append]
    congr 1
    · refine List.map_congr_left fun p hp => ?_
      have hdue := List.mem_takeWhile_imp (fst_mem_of_mem_outputs hp)
      have hfind : (now :: rest).find? (p.1.ts ≤ ·) = some now := List.find?_cons_of_pos hdue
      rw [hfind, Option.getD_some]
    · refine List.map_congr_left fun p hp => ?_
      have hin := fst_mem_of_mem_outputs hp
      rw [Search.dropWhile_eq_filter hlow, List.mem_filter, List.mem_filter] at hin
      have hfind : (now :: rest).find? (p.1.ts ≤ ·) = rest.find? (p.1.ts ≤ ·) :=
        List.find?_cons_of_neg (by simpa using hin.1.2)
      rw [hfind]

theorem run_eq_flatten (walk : List SubKey → List SubKey) (steps : List VirtualInstant)
    (h : HybridEngine F) : h.run walk steps = (h.runRecords walk steps).flatten := by
  induction steps generalizing h with
  | nil => rfl
  | cons now rest ih =>
    have hstep : h.step walk now =
        ((h.stepRecords walk now).1, (h.stepRecords walk now).2.flatten) := by
      rw [step, stepRecords, ReplayEngine.step]
      simp only [List.filterMap_flatten]
    rw [run, hstep, runRecords_cons, List.flatten_append, ← ih]

end HybridEngine

/-! ### What the script asks for -/

/-- The records up to a time, each with its emissions as the script has them at the time of the
    record. -/
def intended (e : ReplayEngine F) (script : List (Perturbation F)) (T : VirtualInstant) :
    List (List (MarketEmission F)) :=
  (outputs (e.reader.filter fun r => r.ts ≤ T) (e.refreshSubsOrder id)).map fun p =>
    p.2.filterMap (wantedAt script p.1.ts)

/-- To the subscriptions that take a record, the script is the same in a step at `s` as at the time
    of the record: the symbol is halted there just where the record lies in a window, and outside of
    the windows the shift there moves the record as the shift of its own time does. -/
def SameAt (e : ReplayEngine F) (script : List (Perturbation F)) (r : DbnEmission F)
    (s : VirtualInstant) : Prop :=
  ∀ sub ∈ e.subs.items, e.idToSymbol r.instrumentId = some sub.key.symbol →
    ∀ em ∈ ticks r 0 sub.key sub.mode,
      haltedAt script sub.key.symbol s = inWindow script sub.key.symbol r.ts ∧
        (inWindow script sub.key.symbol r.ts = false →
          movedBy (shiftAt script sub.key.symbol s) em =
            movedBy (shiftAt script sub.key.symbol r.ts) em)

/-- For each record the script is the same at the first step that is not before it. -/
def Timely (e : ReplayEngine F) (script : List (Perturbation F)) (steps : List VirtualInstant) : Prop :=
  ∀ r ∈ e.reader, ∀ s, steps.find? (r.ts ≤ ·) = some s → SameAt e script r s

/-- Two ways to filter and move emissions come to the same just where they agree on each. -/
theorem filterMap_eq_iff {α : Type} {out : List α} (a b : Bool) (f g : α → α) :
    out.filterMap (fun x => if a then none else some (f x)) =
        out.filterMap (fun x => if b then none else some (g x)) ↔
      ∀ x ∈ out, a = b ∧ (b = false → f x = g x) := by
  cases a with
  | false =>
    cases b with
    | false => simp
    | true => simp [List.eq_nil_iff_forall_not_mem]
  | true =>
    cases b with
    | false =>
      cases out with
      | nil => simp
      | cons x out =>
        constructor
        · intro h
          have hlen := congrArg List.length h
          simp at hlen
        · intro h
          exact Bool.noConfusion (h x List.mem_cons_self).1
    | true => simp

theorem any_le_of_getLast {steps : List VirtualInstant} (hsteps : steps.Pairwise (· ≤ ·))
    {T : VirtualInstant} (hT : steps.getLast? = some T) (t : VirtualInstant) :
    steps.any (t ≤ ·) = decide (t ≤ T) := by
  obtain ⟨early, rfl⟩ := List.getLast?_eq_some_iff.mp hT
  obtain ⟨-, -, hle⟩ := List.pairwise_append.mp hsteps
  rw [Bool.eq_iff_iff, List.any_eq_true, decide_eq_true_eq]
  constructor
  · rintro ⟨s, hs, hts⟩
    obtain hs | hs := List.mem_append.mp hs
    · exact (of_decide_eq_true hts).trans (hle s hs T List.mem_cons_self)
    · rw [List.mem_singleton] at hs
      exact hs ▸ of_decide_eq_true hts
  · exact fun h => ⟨T, by simp, decide_eq_true h⟩

/-- One record is emitted as the script has it just where the script is the same. -/
theorem seen_eq_wanted_iff {e : ReplayEngine F} (he : e.Unordered) (script : List (Perturbation F))
    {rs : List (DbnEmission F)} {r : DbnEmission F} {out : List (MarketEmission F)}
    (hr : (r, out) ∈ outputs rs (e.refreshSubsOrder id)) (s : VirtualInstant) :
    out.filterMap (seenAt script s) = out.filterMap (wantedAt script r.ts) ↔ SameAt e script r s := by
  obtain ⟨-, hids, hsubs, -, -⟩ := refreshSubsOrder_fields id e
  obtain ⟨cum, hout⟩ := mem_outputs (by rw [hsubs]; exact mem_subsOrder he) hr
  rw [hids, hsubs] at hout
  cases hid : e.idToSymbol r.instrumentId with
  | none =>
    have hempty : out = [] := List.eq_nil_iff_forall_not_mem.mpr fun em hem => by
      obtain ⟨sub, -, hsub, -⟩ := (hout em).mp hem
      rw [hid] at hsub
      cases hsub
    rw [hempty]
    refine ⟨fun _ sub _ hsub => ?_, fun _ => rfl⟩
    rw [hid] at hsub
    cases hsub
  | some symbol =>
    have hsym : ∀ em ∈ out, emissionSymbol em = symbol := by
      intro em hem
      obtain ⟨sub, -, hsub, hem⟩ := (hout em).mp hem
      rw [hid] at hsub
      rw [emissionSymbol_ticks hem, Option.some.inj hsub]
    have hseen : out.filterMap (seenAt script s) = out.filterMap fun em =>
        if haltedAt script symbol s then none else some (movedBy (shiftAt script symbol s) em) :=
      List.filterMap_congr fun em hem => by rw [seenAt, hsym em hem]
    have hwanted : out.filterMap (wantedAt script r.ts) = out.filterMap fun em =>
        if inWindow script symbol r.ts then none
        else some (movedBy (shiftAt script symbol r.ts) em) :=
      List.filterMap_congr fun em hem => by rw [wantedAt, hsym em hem]
    rw [hseen, hwanted, filterMap_eq_iff]
    constructor
    · intro h sub hsub hs
      obtain rfl : symbol = sub.key.symbol := Option.some.inj (hid.symm.trans hs)
      rw [← movedBy_ticks _ _ r cum]
      exact fun em hem => h em ((hout em).mpr ⟨sub, hsub, hs, hem⟩)
    · intro h em hem
      obtain ⟨sub, hsub, hs, hem⟩ := (hout em).mp hem
      obtain rfl : symbol = sub.key.symbol := Option.some.inj (hid.symm.trans hs)
      exact (movedBy_ticks _ _ r cum _ _ _ _).mpr (h sub hsub hs) em hem

/-- A run says what the script says just where its steps are timely. -/
theorem runRecords_eq_intended_iff {file : List (DbnEmission F)}
    (hfile : file.Pairwise fun r r' => r.ts ≤ r'.ts) (calls : List Call)
    (script : List (Perturbation F))
    {walk : List SubKey → List SubKey} (hw : ∀ l, (walk l).Perm l) {steps : List VirtualInstant}
    (hsteps : steps.Pairwise (· ≤ ·)) {T : VirtualInstant} (hT : steps.getLast? = some T) :
    (new (setUp file calls) script).runRecords walk steps = intended (setUp file calls) script T ↔
      Timely (setUp file calls) script steps := by
  obtain ⟨hreader, hun⟩ := setUp_spec file calls
  rw [← hreader] at hfile
  have hdue : ((setUp file calls).reader.filter fun r => steps.any (r.ts ≤ ·)) =
      (setUp file calls).reader.filter fun r => r.ts ≤ T :=
    List.filter_congr fun r _ => any_le_of_getLast hsteps hT r.ts
  have halike : Alike ((setUp file calls).refreshSubsOrder walk)
      ((setUp file calls).refreshSubsOrder id) :=
    alike_refreshSubsOrder hw List.Perm.refl hun
  have hrun : (new (setUp file calls) script).runRecords walk steps =
      (outputs ((setUp file calls).reader.filter fun r => r.ts ≤ T)
        ((setUp file calls).refreshSubsOrder id)).map
        fun p => p.2.filterMap (seenAt script ((steps.find? (p.1.ts ≤ ·)).getD 0)) := by
    rw [← halike.outputs, ← hdue]
    exact runRecords_eq (applied_new _ script) hsteps (fun t ht => nomatch ht) hfile
  rw [hrun, intended, List.map_inj_left]
  constructor
  · intro h r hr s hs
    have hle : r.ts ≤ T := by
      have hany := List.any_eq_true.mpr ⟨s, List.mem_of_find?_eq_some hs, List.find?_some hs⟩
      rw [any_le_of_getLast hsteps hT] at hany
      exact of_decide_eq_true hany
    have hin : r ∈ (setUp file calls).reader.filter fun r => r.ts ≤ T :=
      List.mem_filter.mpr ⟨hr, decide_eq_true hle⟩
    rw [← outputs_fst ((setUp file calls).reader.filter fun r => r.ts ≤ T)
      ((setUp file calls).refreshSubsOrder id), List.mem_map] at hin
    obtain ⟨⟨r', out⟩, hout, rfl⟩ := hin
    have hone := h _ hout
    rw [hs, Option.getD_some] at hone
    exact (seen_eq_wanted_iff hun script hout s).mp hone
  · rintro h ⟨r, out⟩ hout
    obtain ⟨hr, hle⟩ := List.mem_filter.mp (fst_mem_of_mem_outputs hout)
    rw [← any_le_of_getLast hsteps hT, List.any_eq_true] at hle
    obtain ⟨s, hs⟩ := Option.isSome_iff_exists.mp (List.find?_isSome.mpr hle)
    rw [hs, Option.getD_some]
    exact (seen_eq_wanted_iff hun script hout s).mpr (h r hr s hs)

/-- Two ways to step to one time. The runs are the same, and each says what the script says, just where
    both are timely. -/
theorem steps_unseen_iff {file : List (DbnEmission F)}
    (hfile : file.Pairwise fun r r' => r.ts ≤ r'.ts) (calls : List Call)
    (script : List (Perturbation F))
    {walk walk' : List SubKey → List SubKey} (hw : ∀ l, (walk l).Perm l) (hw' : ∀ l, (walk' l).Perm l)
    {steps steps' : List VirtualInstant} (hsteps : steps.Pairwise (· ≤ ·))
    (hsteps' : steps'.Pairwise (· ≤ ·)) {T : VirtualInstant} (hT : steps.getLast? = some T)
    (hT' : steps'.getLast? = some T) :
    ((new (setUp file calls) script).run walk steps = (new (setUp file calls) script).run walk' steps' ∧
      (new (setUp file calls) script).runRecords walk steps = intended (setUp file calls) script T ∧
      (new (setUp file calls) script).runRecords walk' steps' = intended (setUp file calls) script T) ↔
      Timely (setUp file calls) script steps ∧ Timely (setUp file calls) script steps' := by
  rw [← runRecords_eq_intended_iff hfile calls script hw hsteps hT,
    ← runRecords_eq_intended_iff hfile calls script hw' hsteps' hT']
  constructor
  · exact fun h => h.2
  · rintro ⟨h, h'⟩
    rw [run_eq_flatten, run_eq_flatten, h, h']
    exact ⟨rfl, rfl, rfl⟩

/-! ### One record and one perturbation -/

/-- One instrument, one trade at time 5. -/
def oneTrade : List (DbnEmission ℚ) := [.trade 5 7 100 10]

def aapl : SymbolKey := ⟨265598, "AAPL"⟩

/-- Its trades are followed tick by tick. -/
def oneFollower : List Call :=
  [.registerInstrument 7 aapl, .subscribe ⟨1, 1, aapl⟩ (.tickByTick .last)]

/-- The trade at another price. -/
def tradeAt (price : ℚ) : MarketEmission ℚ := .tickPrice ⟨1, 1, aapl⟩ .last price (some 10) {}

/-- A halt that begins after the trade takes the trade away where one step reaches both; a halt that
    the trade lies in is not seen where the step comes after its end; and a jump after the trade
    moves it. -/
theorem step_size_shows :
    (new (setUp oneTrade oneFollower) [.injectHalt 10 aapl 10]).run id [5, 15] = [tradeAt 100] ∧
    (new (setUp oneTrade oneFollower) [.injectHalt 10 aapl 10]).run id [15] = [] ∧
    (new (setUp oneTrade oneFollower) [.injectHalt 2 aapl 5]).run id [5, 15] = [] ∧
    (new (setUp oneTrade oneFollower) [.injectHalt 2 aapl 5]).run id [15] = [tradeAt 100] ∧
    (new (setUp oneTrade oneFollower) [.injectJump 10 aapl 200]).run id [5, 15] = [tradeAt 100] ∧
    (new (setUp oneTrade oneFollower) [.injectJump 10 aapl 200]).run id [15] = [tradeAt 102] := by
  decide +kernel

/-- Two ways to step that both stop at the trade. -/
theorem steps_unseen_iff_oneTrade :
    ((new (setUp oneTrade oneFollower) [.injectHalt 10 aapl 10]).run id [5, 15] =
        (new (setUp oneTrade oneFollower) [.injectHalt 10 aapl 10]).run List.reverse [3, 5, 11, 15] ∧
      (new (setUp oneTrade oneFollower) [.injectHalt 10 aapl 10]).runRecords id [5, 15] =
        intended (setUp oneTrade oneFollower) [.injectHalt 10 aapl 10] 15 ∧
      (new (setUp oneTrade oneFollower) [.injectHalt 10 aapl 10]).runRecords List.reverse [3, 5, 11,
        15] =
        intended (setUp oneTrade oneFollower) [.injectHalt 10 aapl 10] 15) ↔
      Timely (setUp oneTrade oneFollower) [.injectHalt 10 aapl 10] [5, 15] ∧
        Timely (setUp oneTrade oneFollower) [.injectHalt 10 aapl 10] [3, 5, 11, 15] :=
  steps_unseen_iff (List.pairwise_singleton _ _) oneFollower [.injectHalt 10 aapl 10]
    (fun l => List.Perm.refl l) List.reverse_perm (by decide) (by decide) rfl rfl

end Midas.MarketReplay
