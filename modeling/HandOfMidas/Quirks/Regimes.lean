import HandOfMidas.Lib.Run
import HandOfMidas.Quirks.HistoricalPacing
import Mathlib.Algebra.BigOperators.Group.List.Basic
import Mathlib.Data.List.Induction

/-! The pacing of historical requests against its three regimes. What the pacing remembers of a session,
    pruned at some instant, is a function of the session's earlier admitted requests. -/

namespace Midas.IbSim.Quirks

open Engine

/-- One call of `check`. -/
structure Call where
  now : VirtualInstant
  session : SessionId
  req : HistoricalReq

def Call.key (c : Call) : RequestKey := RequestKey.of c.req

variable (params : PacingParams)

/-- What a call counts for. -/
def Call.cost (c : Call) : ℕ := (HistoricalPacing.withParams params).costFor c.req

/-- The three regimes, over the earlier admitted requests of the session. -/
structure Admits (earlier : List Call) (c : Call) : Prop where
  window : ((earlier.filter fun e => c.now - e.now ≤ params.window).map (Call.cost params)).sum +
    c.cost params ≤ params.windowLimit
  burst : (earlier.countP fun e => e.key = c.key ∧ c.now - e.now < params.burstWindow) <
    params.burstLimit
  cooldown : ∀ e ∈ earlier, e.key = c.key → ¬c.now - e.now < params.identicalCooldown

/-! ### The calls -/

/-- The pacing, and the requests it has admitted so far. -/
structure Log where
  pacing : HistoricalPacing
  admitted : List Call

def Log.new : Log := ⟨.withParams params, []⟩

/-- The answer to a call. -/
def Log.answer (l : Log) (c : Call) : Option QuirkViolation := (l.pacing.check c.now c.session c.req).1

def Log.check (l : Log) (c : Call) : Log :=
  ⟨(l.pacing.check c.now c.session c.req).2,
    if (l.answer c).isNone then l.admitted ++ [c] else l.admitted⟩

def logOf (calls : List Call) : Log := run Log.check (.new params) calls

/-- The admitted requests of one session. -/
def Log.of (l : Log) (session : SessionId) : List Call := l.admitted.filter (·.session = session)

/-! ### Evictions -/

/-- From a row in the order of time the old entries go, and no others. -/
theorem evict_eq (now : VirtualInstant) (window : Duration) {l : List WindowEntry}
    (h : l.Pairwise (·.ts ≤ ·.ts)) (cost : ℕ) (hcost : (l.map (·.cost)).sum = cost) :
    evict now window l cost = (l.filter fun e => now - e.ts ≤ window,
      ((l.filter fun e => now - e.ts ≤ window).map (·.cost)).sum) := by
  induction l generalizing cost with
  | nil => simp [evict, ← hcost]
  | cons e l ih =>
    obtain ⟨hle, hl⟩ := List.pairwise_cons.mp h
    rw [List.map_cons, List.sum_cons] at hcost
    unfold evict
    split
    · rename_i hold
      have hgone : ¬now - e.ts ≤ window := not_le.mpr hold
      rw [ih hl _ (by omega), List.filter_cons_of_neg (by simpa using hgone)]
    · rename_i hyoung
      have hall : (e :: l).filter (fun e => now - e.ts ≤ window) = e :: l := by
        refine List.filter_eq_self.mpr fun e' he' => ?_
        have hle' : e.ts ≤ e'.ts := by
          rcases List.mem_cons.mp he' with rfl | he'
          · exact le_rfl
          · exact hle e' he'
        exact decide_eq_true ((Nat.sub_le_sub_left hle' now).trans (not_lt.mp hyoung))
      rw [hall, List.map_cons, List.sum_cons, hcost]

/-! ### What is remembered -/

/-- The calls come in the order of time. -/
def Ordered (calls : List Call) : Prop := calls.Pairwise (·.now ≤ ·.now)

def Call.entry (c : Call) : WindowEntry := ⟨c.now, c.key, c.cost params⟩

/-- When the last of these requests was made that is identical to `key`. -/
def lastOf (mine : List Call) (key : RequestKey) : Option VirtualInstant :=
  (mine.filter (·.key = key)).getLast?.map Call.now

/-- What the pacing remembers at `now` of a session with the admitted requests `mine`. -/
def recalled (mine : List Call) (now : VirtualInstant) (violations : ℕ) : PacingState where
  window := (mine.map (Call.entry params)).filter fun e => now - e.ts ≤ params.window
  windowCost :=
    (((mine.map (Call.entry params)).filter fun e => now - e.ts ≤ params.window).map (·.cost)).sum
  identicalCooldown key := (lastOf mine key).filter fun ts => now - ts ≤ params.identicalCooldown
  violations := violations

theorem lastOf_concat (mine : List Call) (c : Call) (key : RequestKey) :
    lastOf (mine ++ [c]) key = if c.key = key then some c.now else lastOf mine key := by
  unfold lastOf
  by_cases h : c.key = key <;> simp [h]

/-- Of requests in the order of time the last one is the latest. -/
theorem le_lastOf {mine : List Call} (h : Ordered mine) {e : Call} (he : e ∈ mine) :
    ∃ ts, lastOf mine e.key = some ts ∧ e.now ≤ ts := by
  induction mine using List.reverseRecOn with
  | nil => cases he
  | append_singleton mine c ih =>
    obtain ⟨hmine, -, hlast⟩ := List.pairwise_append.mp h
    rw [lastOf_concat]
    rcases List.mem_append.mp he with he | he
    · split
      · exact ⟨c.now, rfl, hlast e he c List.mem_cons_self⟩
      · exact ih hmine he
    · obtain rfl := List.mem_singleton.mp he
      exact ⟨e.now, if_pos rfl, le_rfl⟩

theorem mem_of_lastOf {mine : List Call} {key : RequestKey} {ts : VirtualInstant}
    (h : lastOf mine key = some ts) : ∃ e ∈ mine, e.key = key ∧ e.now = ts := by
  obtain ⟨e, he, hts⟩ := Option.map_eq_some_iff.mp h
  obtain ⟨hmem, hkey⟩ := List.mem_filter.mp (List.mem_of_getLast? he)
  exact ⟨e, hmem, by simpa using hkey, hts⟩

/-- What was too old once is too old later. -/
theorem filter_young {α : Type} (ts : α → VirtualInstant) {now now' : VirtualInstant} (h : now ≤ now')
    (d : Duration) (l : List α) : (l.filter fun e => now - ts e ≤ d).filter (fun e => now' - ts e ≤ d) =
      l.filter fun e => now' - ts e ≤ d := by
  rw [List.filter_filter]
  refine List.filter_congr fun e _ => ?_
  have hle : now - ts e ≤ now' - ts e := Nat.sub_le_sub_right h (ts e)
  by_cases hd : now' - ts e ≤ d
  · simp [hd, hle.trans hd]
  · simp [hd]

theorem prune_recalled {mine : List Call} (h : Ordered mine) {now now' : VirtualInstant}
    (hle : now ≤ now')
    (violations : ℕ) : (recalled params mine now violations).pruneWindow now' params.window
      params.identicalCooldown = recalled params mine now' violations := by
  have hsorted : ((mine.map (Call.entry params)).filter fun e => now - e.ts ≤ params.window).Pairwise
      (·.ts ≤ ·.ts) := by
    refine List.Pairwise.filter _ (List.pairwise_map.mpr ?_)
    exact h
  have hevict := evict_eq now' params.window hsorted _ rfl
  rw [filter_young WindowEntry.ts hle] at hevict
  have hcooldown :
    (fun key => ((lastOf mine key).filter fun ts => now - ts ≤ params.identicalCooldown).filter
      fun ts => now' - ts ≤ params.identicalCooldown) =
        fun key => (lastOf mine key).filter fun ts => now' - ts ≤ params.identicalCooldown := by
    funext key
    cases lastOf mine key with
    | none => rfl
    | some ts =>
      have hle' : now - ts ≤ now' - ts := Nat.sub_le_sub_right hle ts
      by_cases hold : now' - ts ≤ params.identicalCooldown
      · simp [Option.filter, hold, hle'.trans hold]
      · by_cases hold' : now - ts ≤ params.identicalCooldown <;> simp [Option.filter, hold, hold']
  simp only [PacingState.pruneWindow, recalled, hevict, hcooldown]

/-- An admitted request is remembered. -/
theorem recalled_concat (mine : List Call) (c : Call) (violations : ℕ) :
    { recalled params mine c.now violations with
      window := (recalled params mine c.now violations).window ++ [⟨c.now, c.key, c.cost params⟩]
      windowCost := (recalled params mine c.now violations).windowCost + c.cost params
      identicalCooldown :=
        Function.update (recalled params mine c.now violations).identicalCooldown c.key (some c.now) } =
      recalled params (mine ++ [c]) c.now violations := by
  have hcooldown : Function.update (recalled params mine c.now violations).identicalCooldown c.key
      (some c.now) = (recalled params (mine ++ [c]) c.now violations).identicalCooldown := by
    funext key
    simp only [recalled, lastOf_concat]
    by_cases hk : c.key = key
    · simp [hk, Option.filter]
    · simp [hk, Ne.symm hk]
  rw [hcooldown]
  simp [recalled, Call.entry]

/-! ### The decision -/

theorem recalled_windowCost (mine : List Call) (now : VirtualInstant) (violations : ℕ) :
    (recalled params mine now violations).windowCost =
      ((mine.filter fun e => now - e.now ≤ params.window).map (Call.cost params)).sum := by
  simp only [recalled, List.filter_map, List.map_map]
  rfl

theorem cooldown_recalled {mine : List Call} (h : Ordered mine) (now : VirtualInstant)
    (key : RequestKey)
    (violations : ℕ) :
    (∀ last, (recalled params mine now violations).identicalCooldown key = some last →
      ¬now - last < params.identicalCooldown) ↔
        ∀ e ∈ mine, e.key = key → ¬now - e.now < params.identicalCooldown := by
  constructor
  · rintro hlast e he rfl hlt
    obtain ⟨ts, hts, hle⟩ := le_lastOf h he
    have hlt' : now - ts < params.identicalCooldown := (Nat.sub_le_sub_left hle now).trans_lt hlt
    refine hlast ts ?_ hlt'
    exact Option.filter_eq_some_iff.mpr ⟨hts, decide_eq_true hlt'.le⟩
  · intro hall last hlast hlt
    obtain ⟨hlast, -⟩ := Option.filter_eq_some_iff.mp hlast
    obtain ⟨e, he, hkey, rfl⟩ := mem_of_lastOf hlast
    exact hall e he hkey hlt

variable {params}

theorem burst_recalled {p : HistoricalPacing} (hp : p.toPacingParams = params)
    (hburst : params.burstWindow ≤ params.window) (mine : List Call) (now : VirtualInstant)
    (key : RequestKey)
    (violations : ℕ) : p.burst now key (recalled params mine now violations) =
      mine.countP fun e => e.key = key ∧ now - e.now < params.burstWindow := by
  simp only [HistoricalPacing.burst, recalled, List.countP_filter, List.countP_map]
  refine List.countP_congr fun e _ => ?_
  subst hp
  change ((decide (e.key = key) && decide (now - e.now < p.burstWindow)) &&
    decide (now - e.now ≤ p.window)) = true ↔ decide (e.key = key ∧ now - e.now < p.burstWindow) = true
  rw [Bool.and_eq_true, Bool.and_eq_true, decide_eq_true_iff, decide_eq_true_iff, decide_eq_true_iff,
    decide_eq_true_iff]
  exact ⟨fun h => h.1, fun h => ⟨h, h.2.le.trans hburst⟩⟩

/-- The three limits object to a request exactly when a regime does not admit it. -/
theorem objection_eq_none_iff {p : HistoricalPacing} (hp : p.toPacingParams = params)
    (hburst : params.burstWindow ≤ params.window) {mine : List Call} (h : Ordered mine) (c : Call)
    (violations : ℕ) :
    p.objection c.now c.req (recalled params mine c.now violations) = none ↔ Admits params mine c := by
  have hcost : p.costFor c.req = c.cost params := by subst hp; rfl
  have hwindow := recalled_windowCost params mine c.now violations
  have hcount := burst_recalled hp hburst mine c.now c.key violations
  have hcooldown := cooldown_recalled params h c.now c.key violations
  have hregimes : Admits params mine c ↔
      ¬p.windowLimit < (recalled params mine c.now violations).windowCost + p.costFor c.req ∧
        ¬p.burstLimit ≤ p.burst c.now c.key (recalled params mine c.now violations) ∧
          ∀ last, (recalled params mine c.now violations).identicalCooldown c.key = some last →
            ¬c.now - last < p.identicalCooldown := by
    subst hp
    rw [hwindow, hcount, hcost, hcooldown, not_lt, not_le]
    exact ⟨fun h => ⟨h.window, h.burst, h.cooldown⟩, fun h => ⟨h.1, h.2.1, h.2.2⟩⟩
  rw [hregimes]
  unfold HistoricalPacing.objection
  rw [← Call.key]
  dsimp only
  split
  · rename_i hover
    simp [hover]
  rename_i hover
  split
  · rename_i hover'
    simp [hover']
  rename_i hover'
  cases hlast : (recalled params mine c.now violations).identicalCooldown c.key with
  | none => simp [hover, hover']
  | some last =>
    dsimp only
    split
    · rename_i hearly
      simp [hearly]
    · rename_i hlate
      simpa [hover, hover'] using not_lt.mp hlate

/-! ### Every run -/

variable (params)

/-- What the log knows after calls up to `now`. -/
structure Log.Remembers (l : Log) (now : VirtualInstant) : Prop where
  fixed : l.pacing.toPacingParams = params
  ordered : Ordered l.admitted
  past : ∀ e ∈ l.admitted, e.now ≤ now
  sessions : ∀ session, ∃ t violations, t ≤ now ∧
    (l.pacing.perSession session).getD {} = recalled params (l.of session) t violations

variable {params}

theorem Log.Remembers.ordered_of {l : Log} {now : VirtualInstant} (h : l.Remembers params now)
    (session : SessionId) : Ordered (l.of session) :=
  h.ordered.filter _

/-- The state that a call consults. -/
theorem Log.Remembers.pruned {l : Log} {t : VirtualInstant} (h : l.Remembers params t)
    {now : VirtualInstant}
    (hle : t ≤ now) (session : SessionId) : ∃ violations,
      ((l.pacing.perSession session).getD {}).pruneWindow now l.pacing.window
        l.pacing.identicalCooldown =
        recalled params (l.of session) now violations := by
  obtain ⟨t', violations, hle', hstate⟩ := h.sessions session
  obtain rfl := h.fixed
  exact ⟨violations, by rw [hstate, prune_recalled _ (h.ordered_of session) (hle'.trans hle)]⟩

/-- The pacing with what it remembers of one session replaced. -/
def put (p : HistoricalPacing) (session : SessionId) (state : PacingState) : HistoricalPacing :=
  { p with perSession := Function.update p.perSession session (some state) }

@[simp] theorem put_perSession (p : HistoricalPacing) (session : SessionId) (state : PacingState) :
    (put p session state).perSession = Function.update p.perSession session (some state) := rfl

/-- What a call answers, and what the session remembers after it. -/
theorem Log.Remembers.check_eq {l : Log} {t : VirtualInstant} (h : l.Remembers params t) {c : Call}
    (hle : t ≤ c.now) : ∃ violations, l.pacing.check c.now c.session c.req =
      match l.pacing.objection c.now c.req (recalled params (l.of c.session) c.now violations) with
      | some v =>
        (some v, put l.pacing c.session (recalled params (l.of c.session) c.now (violations + 1)))
      | none =>
        (none, put l.pacing c.session (recalled params (l.of c.session ++ [c]) c.now violations)) := by
  obtain ⟨violations, hpruned⟩ := h.pruned hle c.session
  refine ⟨violations, ?_⟩
  have hcost : l.pacing.costFor c.req = c.cost params := by
    obtain rfl := h.fixed
    rfl
  unfold HistoricalPacing.check
  dsimp only
  rw [hpruned, hcost, ← recalled_concat]
  cases l.pacing.objection c.now c.req (recalled params (l.of c.session) c.now violations) <;> rfl

/-- The answer to a call is the objection of the three limits to what is remembered. -/
theorem Log.Remembers.answer {l : Log} {t : VirtualInstant} (h : l.Remembers params t) {c : Call}
    (hle : t ≤ c.now) :
    l.answer c = l.pacing.objection c.now c.req (recalled params (l.of c.session) c.now 0) := by
  obtain ⟨violations, hcheck⟩ := h.check_eq hle
  have hsame : l.pacing.objection c.now c.req (recalled params (l.of c.session) c.now violations) =
    l.pacing.objection c.now c.req (recalled params (l.of c.session) c.now 0) := rfl
  rw [Log.answer, hcheck, hsame]
  cases l.pacing.objection c.now c.req (recalled params (l.of c.session) c.now 0) <;> rfl

theorem Log.of_check (l : Log) (c : Call) (session : SessionId) : (l.check c).of session =
    if (l.answer c).isNone ∧ c.session = session then l.of session ++ [c] else l.of session := by
  unfold Log.of Log.check
  by_cases hanswer : (l.answer c).isNone = true <;>
    by_cases hs : c.session = session <;> simp [hanswer, hs]

theorem Log.mem_check {l : Log} {c e : Call} (h : e ∈ (l.check c).admitted) :
    e ∈ l.admitted ∨ e = c := by
  unfold Log.check at h
  split at h
  · simpa using h
  · exact .inl h

theorem Log.Remembers.check {l : Log} {t : VirtualInstant} (h : l.Remembers params t) {c : Call}
    (hle : t ≤ c.now) : (l.check c).Remembers params c.now := by
  obtain ⟨violations, hcheck⟩ := h.check_eq hle
  have hpast (e : Call) (he : e ∈ l.admitted) : e.now ≤ c.now := (h.past e he).trans hle
  constructor
  case fixed =>
    rw [Log.check, hcheck]
    split <;> exact h.fixed
  case ordered =>
    unfold Log.check
    split
    · exact List.pairwise_append.mpr ⟨h.ordered, List.pairwise_singleton _ _, by simpa using hpast⟩
    · exact h.ordered
  case past =>
    intro e he
    rcases Log.mem_check he with he | rfl
    · exact hpast e he
    · exact le_rfl
  case sessions =>
    intro session
    rw [Log.of_check, Log.answer, Log.check, hcheck]
    by_cases hs : c.session = session
    · subst hs
      split
      · exact ⟨c.now, violations + 1, le_rfl, by simp⟩
      · exact ⟨c.now, violations, le_rfl, by simp⟩
    · obtain ⟨t', violations', hle', hstate⟩ := h.sessions session
      refine ⟨t', violations', hle'.trans hle, ?_⟩
      split <;> simpa [hs, Ne.symm hs] using hstate

theorem remembers_new (now : VirtualInstant) : (Log.new params).Remembers params now :=
  ⟨rfl, .nil, fun _ he => absurd he List.not_mem_nil, fun _ => ⟨0, 0, Nat.zero_le _, rfl⟩⟩

theorem Log.Remembers.mono {l : Log} {t now : VirtualInstant} (h : l.Remembers params t)
    (hle : t ≤ now) :
    l.Remembers params now where
  fixed := h.fixed
  ordered := h.ordered
  past e he := (h.past e he).trans hle
  sessions session := by
    obtain ⟨t', violations, hle', hstate⟩ := h.sessions session
    exact ⟨t', violations, hle'.trans hle, hstate⟩

theorem logOf_concat (calls : List Call) (c : Call) :
    logOf params (calls ++ [c]) = (logOf params calls).check c := run_concat ..

theorem Ordered.of_concat {calls : List Call} {c : Call} (h : Ordered (calls ++ [c])) : Ordered calls :=
  (List.pairwise_append.mp h).1

/-- After calls in the order of time the log remembers what it needs for the next one. -/
theorem remembers_logOf {calls : List Call} {c : Call} (h : Ordered (calls ++ [c])) :
    (logOf params calls).Remembers params c.now := by
  induction calls using List.reverseRecOn generalizing c with
  | nil => exact remembers_new c.now
  | append_singleton calls d ih =>
    obtain ⟨hcalls, -, hlast⟩ := List.pairwise_append.mp h
    rw [logOf_concat]
    have hle : d.now ≤ c.now := hlast d (by simp) c (by simp)
    exact ((ih hcalls).check le_rfl).mono hle

/-- A request is admitted exactly when the three regimes admit it after what the session was
    admitted before. -/
theorem answer_eq_none_iff (hburst : params.burstWindow ≤ params.window) {calls : List Call} {c : Call}
    (h : Ordered (calls ++ [c])) :
    (logOf params calls).answer c = none ↔ Admits params ((logOf params calls).of c.session) c := by
  have hremembers : (logOf params calls).Remembers params c.now := remembers_logOf h
  rw [hremembers.answer le_rfl]
  exact objection_eq_none_iff hremembers.fixed hburst (hremembers.ordered_of _) c 0

theorem of_logOf_concat (calls : List Call) (c : Call) (session : SessionId) :
    (logOf params (calls ++ [c])).of session =
      if ((logOf params calls).answer c).isNone ∧ c.session = session then
        (logOf params calls).of session ++ [c] else (logOf params calls).of session := by
  rw [logOf_concat, Log.of_check]

/-- The admitted requests of a session come from the calls, in their order. -/
theorem of_sublist (calls : List Call) (session : SessionId) :
    ((logOf params calls).of session).Sublist calls := by
  induction calls using List.reverseRecOn with
  | nil => exact List.Sublist.refl _
  | append_singleton calls c ih =>
    rw [of_logOf_concat]
    split
    · exact ih.append (List.Sublist.refl _)
    · exact ih.trans (List.sublist_append_left calls [c])

/-- Made alone, the admitted requests of a session are all admitted again. -/
theorem of_logOf_of (hburst : params.burstWindow ≤ params.window) {calls : List Call}
    (h : Ordered calls)
    (session : SessionId) :
    (logOf params ((logOf params calls).of session)).of session = (logOf params calls).of session := by
  induction calls using List.reverseRecOn with
  | nil => rfl
  | append_singleton calls c ih =>
    rw [of_logOf_concat]
    split
    · rename_i hadmitted
      obtain ⟨hnone, rfl⟩ := hadmitted
      have hadmits := (answer_eq_none_iff hburst h).mp (Option.isNone_iff_eq_none.mp hnone)
      have hordered : Ordered ((logOf params calls).of c.session ++ [c]) :=
        h.sublist ((of_sublist calls c.session).append (List.Sublist.refl _))
      have hagain : (logOf params ((logOf params calls).of c.session)).answer c = none := by
        rw [answer_eq_none_iff hburst hordered, ih h.of_concat]
        exact hadmits
      rw [of_logOf_concat, if_pos ⟨by rw [hagain]; rfl, rfl⟩, ih h.of_concat]
    · exact ih h.of_concat

/-- Every call is answered by the three regimes over the requests that its session was admitted
    before. Rejected calls and the other sessions do not matter: without them the answer is the
    same. -/
theorem answered_by_regimes (hburst : params.burstWindow ≤ params.window) {calls : List Call} {c : Call}
    (h : Ordered (calls ++ [c])) :
    ((logOf params calls).answer c = none ↔ Admits params ((logOf params calls).of c.session) c) ∧
      (logOf params calls).answer c = (logOf params ((logOf params calls).of c.session)).answer c := by
  refine ⟨answer_eq_none_iff hburst h, ?_⟩
  have hmine : Ordered ((logOf params calls).of c.session ++ [c]) :=
    h.sublist ((of_sublist calls c.session).append (List.Sublist.refl _))
  have hremembers : (logOf params calls).Remembers params c.now := remembers_logOf h
  have halone : (logOf params ((logOf params calls).of c.session)).Remembers params c.now :=
    remembers_logOf hmine
  rw [hremembers.answer le_rfl, halone.answer le_rfl, of_logOf_of hburst h.of_concat]
  unfold HistoricalPacing.objection HistoricalPacing.burst HistoricalPacing.costFor
  rw [hremembers.fixed, halone.fixed]

/-- A minute of trades, asked for by two sessions in turn. -/
theorem answered_by_regimes_of_default :
    let req : HistoricalReq :=
  ⟨.stock "AAPL" "SMART" "USD", "", "1 D", "1 min", "TRADES", true, 1, false⟩
    let calls : List Call := [⟨0, 7, req⟩, ⟨1, 7, req⟩, ⟨2, 8, req⟩]
    (logOf {} calls).answer ⟨3, 7, req⟩ = (logOf {} ((logOf {} calls).of 7)).answer ⟨3, 7, req⟩ :=
  (answered_by_regimes (by decide) (by simp [Ordered])).2

end Midas.IbSim.Quirks
