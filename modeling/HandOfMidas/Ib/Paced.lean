import HandOfMidas.Ib.Pacing
import HandOfMidas.Lib.Run

/-! The documented limits of the governor, over whole runs. A request counts from the moment it is let
    through, and it holds its place from the moment the total bucket gives it a token. The limits hold
    as long as the bucket gives no token away while all places are taken, which refilling alone does
    not ensure, and as long as nobody overtakes a call between its cooldown check and its admission. -/

namespace Midas.Ib

variable (cfg : PacingConfig) (hash : IdenticalKey → UInt64)

/-- The ten minutes of the window. -/
def window : ℕ := fromSecs 600

/-- The documented limits: at most so many admissions in any ten minutes, and two with one key at
    least the cooldown apart. -/
structure Paced (s : Governor) : Prop where
  window : ∀ t, (s.admitted.countP fun a => t ≤ a.time ∧ a.time < t + window) ≤
    cfg.historicalMaxIn10min
  cooldown : s.admitted.Pairwise fun a b => a.key = b.key → a.time + cfg.identicalCooldown ≤ b.time

namespace Stage

/-- The call has a token of the total bucket and waits for one of its key's. -/
def holds : Stage → Bool
  | .consuming .perKey _ => true
  | _ => false

/-- The bucket that the call tries when it is polled. -/
def tries (now : ℕ) : Stage → Option Which
  | .consuming which none => some which
  | .consuming which (some wake) => if wake ≤ now then some which else none
  | _ => none

end Stage

namespace Governor

/-- The calls that hold a place without being through. -/
def held (s : Governor) : ℕ := s.callers.countP fun c => c.stage.holds

/-- The requests let through in the last ten minutes. -/
def recent (s : Governor) : ℕ := s.admitted.countP fun a => s.now < a.time + window

/-- The last consumption of the bucket with hash `k`. -/
def last (s : Governor) (k : UInt64) : Option ℕ :=
  (s.historicalPerKey k).bind TokenBucket.lastConsume

/-- What the call `c` may take: a token of the total bucket only while fewer requests than allowed hold
    a place or were let through in the last ten minutes, and one of its key's bucket only if nobody has
    taken one since the call's cooldown check. -/
def MayTake (s : Governor) (c : Caller) : Option Which → Prop
  | none => True
  | some .total => s.historicalTotal.Grants s.now → s.held + s.recent < cfg.historicalMaxIn10min
  | some .perKey =>
    ∀ b ∈ s.historicalPerKey (hash c.key), b.Grants s.now → b.lastConsume = c.seen

/-- A poll takes no token that the call may not take. -/
def Sound (s : Governor) : Op → Prop
  | .poll i => ∀ c ∈ s.callers[i]?, s.MayTake cfg hash c (c.stage.tries s.now)
  | _ => True

instance (s : Governor) (c : Caller) : (which : Option Which) → Decidable (s.MayTake cfg hash c which)
  | none => isTrue trivial
  | some .total => inferInstanceAs (Decidable (_ → _ < _))
  | some .perKey =>
    inferInstanceAs (Decidable (∀ b ∈ s.historicalPerKey (hash c.key), b.Grants s.now → _ = _))

instance (s : Governor) : (op : Op) → Decidable (s.Sound cfg hash op)
  | .poll i => inferInstanceAs (Decidable (∀ c ∈ s.callers[i]?, s.MayTake cfg hash c _))
  | .call _ | .advance _ => isTrue trivial

/-- A call that has passed its cooldown check has waited the cooldown out. -/
def Cooled (now : ℕ) (c : Caller) : Prop :=
  match c.stage with
  | .cooling wake => ∀ ts ∈ c.seen, ts + cfg.identicalCooldown ≤ wake
  | .consuming _ _ => ∀ ts ∈ c.seen, ts + cfg.identicalCooldown ≤ now
  | _ => True

/-- The invariant of sound runs: the places are enough, and the buckets remember who came through. -/
structure Governed (s : Governor) : Prop where
  places : s.held + s.recent ≤ cfg.historicalMaxIn10min
  paced : Paced cfg s
  past : ∀ a ∈ s.admitted, a.time ≤ s.now
  clock : ∀ k, ∀ ts ∈ s.last k, ts ≤ s.now
  remembered : ∀ a ∈ s.admitted, ∃ ts ∈ s.last (hash a.key), a.time ≤ ts
  cooled : ∀ c ∈ s.callers, Cooled cfg s.now c

variable {cfg hash}

/-- Moving one call on changes the number of held places by what that call does. -/
theorem countP_holds_set {callers : List Caller} {i : ℕ} {c : Caller} (hi : callers[i]? = some c)
    (c' : Caller) :
    ((callers.set i c').countP fun c => c.stage.holds) + (if c.stage.holds then 1 else 0) =
      (callers.countP fun c => c.stage.holds) + (if c'.stage.holds then 1 else 0) := by
  obtain ⟨hlt, hget⟩ := List.getElem?_eq_some_iff.mp hi
  have hset := List.countP_set (p := fun c : Caller => c.stage.holds) (a := c') hlt
  rw [hget] at hset
  rw [hset]
  cases hc : c.stage.holds with
  | false => simp
  | true =>
    have hpos : 0 < callers.countP fun c => c.stage.holds :=
      List.countP_pos_iff.mpr ⟨c, List.mem_of_getElem? hi, hc⟩
    simp only [if_true]
    omega

/-- Time passing frees places and cools calls down. -/
theorem Governed.advance {s : Governor} (h : s.Governed cfg hash) (d : ℕ) :
    Governed cfg hash { s with now := s.now + d } := by
  refine ⟨?_, ⟨h.paced.window, h.paced.cooldown⟩, fun a ha => ?_, fun k ts hts => ?_, h.remembered,
    fun c hc => ?_⟩
  · have hle : recent { s with now := s.now + d } ≤ s.recent := by
      refine List.countP_mono_left fun a _ ha => ?_
      simp only [decide_eq_true_eq] at ha ⊢
      omega
    exact le_trans (Nat.add_le_add_left hle _) h.places
  · have := h.past a ha
    show a.time ≤ s.now + d
    omega
  · have := h.clock k ts hts
    show ts ≤ s.now + d
    omega
  · have hcool := h.cooled c hc
    unfold Cooled at hcool ⊢
    split
    · rename_i wake hstage
      rw [hstage] at hcool
      exact hcool
    · rename_i which wake hstage
      rw [hstage] at hcool
      intro ts hts
      have := hcool ts hts
      show ts + cfg.identicalCooldown ≤ s.now + d
      omega
    · trivial

/-- A new call opens its key's bucket if there is none yet, and waits for its check. -/
theorem Governed.call {s : Governor} (h : s.Governed cfg hash) (key : IdenticalKey) :
    Governed cfg hash (s.call cfg hash key) := by
  have hlast : ∀ k, (s.call cfg hash key).last k = s.last k := by
    intro k
    by_cases hk : k = hash key
    · subst hk
      cases hb : s.historicalPerKey (hash key) with
      | none => simp [last, Governor.call, hb, TokenBucket.new]
      | some b => simp [last, Governor.call, hb]
    · simp [last, Governor.call, hk]
  refine ⟨?_, ⟨h.paced.window, h.paced.cooldown⟩, h.past, fun k ts hts => ?_, fun a ha => ?_,
    fun c hc => ?_⟩
  · have hheld : (s.call cfg hash key).held = s.held := by
      simp [held, Governor.call, Stage.holds]
    have := h.places
    rw [hheld]
    exact this
  · rw [hlast] at hts
    exact h.clock k ts hts
  · rw [hlast]
    exact h.remembered a ha
  · rcases List.mem_append.mp hc with hc | hc
    · exact h.cooled c hc
    · obtain rfl := List.mem_singleton.mp hc
      trivial

/-- A poll that lets nobody through: it moves one call on, and no bucket of a key is consumed. -/
theorem Governed.move {s s' : Governor} (h : s.Governed cfg hash) {i : ℕ} {c c' : Caller}
    (hi : s.callers[i]? = some c) (hnow : s'.now = s.now)
    (hcallers : s'.callers = s.callers.set i c') (hadmitted : s'.admitted = s.admitted)
    (hlast : ∀ k, s'.last k = s.last k)
    (hplaces : c.stage.holds = true ∨ c'.stage.holds = false ∨
      s.held + s.recent < cfg.historicalMaxIn10min)
    (hcooled : Cooled cfg s.now c') : Governed cfg hash s' := by
  have hrecent : s'.recent = s.recent := by rw [recent, recent, hnow, hadmitted]
  refine ⟨?_, ⟨?_, ?_⟩, ?_, ?_, ?_, ?_⟩
  · have hset := countP_holds_set hi c'
    have hheld : s'.held = (s.callers.set i c').countP fun c => c.stage.holds := by
      rw [held, hcallers]
    have hold : s.held = s.callers.countP fun c => c.stage.holds := rfl
    have := h.places
    rcases hplaces with hc | hc' | hlt
    · rw [hc, if_pos rfl] at hset
      split at hset <;> omega
    · rw [hc', if_neg Bool.false_ne_true] at hset
      split at hset <;> omega
    · split at hset <;> split at hset <;> omega
  · rw [hadmitted]
    exact h.paced.window
  · rw [hadmitted]
    exact h.paced.cooldown
  · rw [hadmitted, hnow]
    exact h.past
  · intro k ts hts
    rw [hnow]
    rw [hlast] at hts
    exact h.clock k ts hts
  · intro a ha
    rw [hlast]
    rw [hadmitted] at ha
    exact h.remembered a ha
  · intro d hd
    rw [hnow]
    rw [hcallers] at hd
    rcases List.mem_or_eq_of_mem_set hd with hd | rfl
    · exact h.cooled d hd
    · exact hcooled

/-- A poll that lets a request through, whose key's bucket nobody has consumed since its check. -/
theorem Governed.admit_next {s s' : Governor} (h : s.Governed cfg hash) {i : ℕ} {c c' : Caller}
    (hi : s.callers[i]? = some c) (hholds : c.stage.holds = true) (hnow : s'.now = s.now)
    (hcallers : s'.callers = s.callers.set i c') (hc' : ∃ r, c'.stage = .returned r)
    (hadmitted : s'.admitted = s.admitted ++ [⟨c.key, s.now⟩])
    (hlast : ∀ k, s'.last k = if k = hash c.key then some s.now else s.last k)
    (hseen : s.last (hash c.key) = c.seen) : Governed cfg hash s' := by
  obtain ⟨r, hr⟩ := hc'
  have hcool : ∀ ts ∈ c.seen, ts + cfg.identicalCooldown ≤ s.now := by
    have hcooled := h.cooled c (List.mem_of_getElem? hi)
    unfold Cooled at hcooled
    cases hstage : c.stage with
    | consuming which wake => rw [hstage] at hcooled; exact hcooled
    | checking => rw [hstage] at hholds; cases hholds
    | cooling wake => rw [hstage] at hholds; cases hholds
    | returned r => rw [hstage] at hholds; cases hholds
  have hrecent : s'.recent = s.recent + 1 := by
    have hpos : 0 < window := by decide
    simp only [recent, hnow, hadmitted, List.countP_append, List.countP_singleton]
    simp [hpos]
  have hplaces : s'.held + s'.recent ≤ cfg.historicalMaxIn10min := by
    have hset := countP_holds_set hi c'
    have hheld : s'.held = (s.callers.set i c').countP fun c => c.stage.holds := by
      rw [held, hcallers]
    have hold : s.held = s.callers.countP fun c => c.stage.holds := rfl
    have := h.places
    have hfree : c'.stage.holds = false := by rw [hr]; rfl
    rw [hholds, hfree] at hset
    simp only [if_true, Bool.false_eq_true, if_false] at hset
    omega
  have hpast : ∀ a ∈ s'.admitted, a.time ≤ s'.now := by
    intro a ha
    rw [hnow]
    rw [hadmitted] at ha
    rcases List.mem_append.mp ha with ha | ha
    · exact h.past a ha
    · obtain rfl := List.mem_singleton.mp ha
      exact le_rfl
  refine ⟨hplaces, ⟨fun t => ?_, ?_⟩, hpast, ?_, ?_, ?_⟩
  · -- A window without the new admission has not changed; one with it lies in the last ten minutes.
    by_cases hin : t ≤ s.now ∧ s.now < t + window
    · refine le_trans (List.countP_mono_left (q := fun a => s'.now < a.time + window) fun a _ ha => ?_)
        (le_trans (Nat.le_add_left s'.recent s'.held) hplaces)
      simp only [decide_eq_true_eq] at ha ⊢
      rw [hnow]
      omega
    · rw [hadmitted, List.countP_append, List.countP_singleton]
      simpa [hin] using h.paced.window t
  · rw [hadmitted, List.pairwise_append]
    refine ⟨h.paced.cooldown, List.pairwise_singleton _ _, fun a ha b hb hkey => ?_⟩
    obtain rfl := List.mem_singleton.mp hb
    obtain ⟨ts, hts, hle⟩ := h.remembered a ha
    have hkey' : a.key = c.key := hkey
    rw [hkey', hseen] at hts
    have := hcool ts hts
    show a.time + cfg.identicalCooldown ≤ s.now
    omega
  · intro k ts hts
    rw [hnow]
    rw [hlast] at hts
    split at hts
    · obtain rfl := Option.some.inj hts
      exact le_rfl
    · exact h.clock k ts hts
  · intro a ha
    rw [hlast]
    split
    · exact ⟨s.now, rfl, by have := hpast a ha; rwa [hnow] at this⟩
    · rename_i hne
      rw [hadmitted] at ha
      rcases List.mem_append.mp ha with ha | ha
      · exact h.remembered a ha
      · obtain rfl := List.mem_singleton.mp ha
        exact absurd rfl hne
  · intro d hd
    rw [hnow]
    rw [hcallers] at hd
    rcases List.mem_or_eq_of_mem_set hd with hd | rfl
    · exact h.cooled d hd
    · unfold Cooled
      rw [hr]
      trivial

/-- Refilling a bucket consumes nothing. -/
theorem last_setBucket_refill {s : Governor} {key : IdenticalKey} {which : Which} {b b' : TokenBucket}
    (hb : s.bucket hash key which = some b) (hb' : b'.lastConsume = b.lastConsume) (k : UInt64) :
    (s.setBucket hash key b' which).last k = s.last k := by
  cases which with
  | total => rfl
  | perKey =>
    by_cases hk : k = hash key
    · subst hk
      have hb : s.historicalPerKey (hash key) = some b := hb
      simp [last, setBucket, hb, hb']
    · simp [last, setBucket, hk]

variable (cfg) in
/-- A call that finds no token returns an error or tries the same bucket again. -/
theorem onExhausted_spec (now : ℕ) (which : Which) (second : Bool) (hint : ℕ) :
    (∃ r, onExhausted cfg now which second hint = .returned r) ∨
      ∃ wake, onExhausted cfg now which second hint = .consuming which wake := by
  unfold onExhausted
  split
  · exact Or.inl ⟨_, rfl⟩
  · split
    · exact Or.inl ⟨_, rfl⟩
    · split
      · exact Or.inl ⟨_, rfl⟩
      · exact Or.inr ⟨_, rfl⟩

/-- Trying a bucket keeps the invariant if what is taken is sound. -/
theorem Governed.consume {s : Governor} (h : s.Governed cfg hash) {i : ℕ} {c : Caller}
    (hi : s.callers[i]? = some c) {which : Which} {wake : Option ℕ}
    (hstage : c.stage = .consuming which wake) (htries : c.stage.tries s.now = some which)
    (hsound : s.Sound cfg hash (.poll i)) (second : Bool) :
    Governed cfg hash (s.consume cfg hash i c which second) := by
  have hcool : ∀ ts ∈ c.seen, ts + cfg.identicalCooldown ≤ s.now := by
    have hcooled := h.cooled c (List.mem_of_getElem? hi)
    unfold Cooled at hcooled
    rwa [hstage] at hcooled
  unfold Governor.consume
  cases hb : s.bucket hash c.key which with
  | none => exact h
  | some b =>
    by_cases hg : b.Grants s.now
    · simp only [TokenBucket.tryAcquire_of_grants hg]
      cases which with
      | total =>
        have hfree : s.held + s.recent < cfg.historicalMaxIn10min := by
          obtain rfl : s.historicalTotal = b := Option.some.inj hb
          have hmay := hsound c hi
          rw [htries] at hmay
          exact hmay hg
        exact h.move hi rfl rfl rfl (fun _ => rfl) (Or.inr (Or.inr hfree)) hcool
      | perKey =>
        have hseen : s.last (hash c.key) = c.seen := by
          have hb : s.historicalPerKey (hash c.key) = some b := hb
          have hmay := hsound c hi
          rw [htries] at hmay
          rw [last, hb]
          exact hmay b hb hg
        refine h.admit_next hi (by rw [hstage]; rfl) rfl rfl ⟨_, rfl⟩ rfl (fun k => ?_) hseen
        by_cases hk : k = hash c.key <;> simp [last, setBucket, setCaller, hk]
    · simp only [TokenBucket.tryAcquire_of_not_grants hg]
      have hkept : (b.refill s.now).lastConsume = b.lastConsume := rfl
      have hcallers : ((s.setBucket hash c.key (b.refill s.now) which).setCaller i
          { c with stage := onExhausted cfg s.now which second (b.refill s.now).waitHint }).callers =
          s.callers.set i
            { c with stage := onExhausted cfg s.now which second (b.refill s.now).waitHint } := by
        cases which <;> rfl
      refine h.move hi ?_ hcallers ?_ (fun k => last_setBucket_refill hb hkept k) ?_ ?_
      · cases which <;> rfl
      · cases which <;> rfl
      · rcases onExhausted_spec cfg s.now which second (b.refill s.now).waitHint with
          ⟨r, hr⟩ | ⟨wake', hr⟩
        · exact Or.inr (Or.inl (by rw [hr]; rfl))
        · cases which with
          | total => exact Or.inr (Or.inl (by rw [hr]; rfl))
          | perKey => exact Or.inl (by rw [hstage]; rfl)
      · rcases onExhausted_spec cfg s.now which second (b.refill s.now).waitHint with
          ⟨r, hr⟩ | ⟨wake', hr⟩
        · simp only [Cooled, hr]
        · simp only [Cooled, hr]
          exact hcool

/-- The cooldown check lets a call go on once the cooldown is over, or makes it sleep until then. -/
theorem cooled_cooldownCheck {now : ℕ} (key : IdenticalKey) {seen : Option ℕ}
    (hclock : ∀ ts ∈ seen, ts ≤ now) :
    Cooled cfg now ⟨key, cooldownCheck cfg now seen, seen⟩ ∧
      (cooldownCheck cfg now seen).holds = false := by
  cases seen with
  | none => exact ⟨nofun, rfl⟩
  | some ts =>
    have hts := hclock ts rfl
    unfold cooldownCheck
    dsimp only
    split
    · split
      · exact ⟨trivial, rfl⟩
      · refine ⟨?_, rfl⟩
        rintro _ ⟨⟩
        show ts + cfg.identicalCooldown ≤ now + (cfg.identicalCooldown - (now - ts))
        omega
    · refine ⟨?_, rfl⟩
      rintro _ ⟨⟩
      show ts + cfg.identicalCooldown ≤ now
      omega

theorem Governed.poll {s : Governor} (h : s.Governed cfg hash) (i : ℕ)
    (hsound : s.Sound cfg hash (.poll i)) : Governed cfg hash (s.poll cfg hash i) := by
  unfold Governor.poll
  cases hi : s.callers[i]? with
  | none => exact h
  | some c =>
    dsimp only
    split
    · rename_i hstage
      obtain ⟨hcooled, hholds⟩ := cooled_cooldownCheck c.key (h.clock (hash c.key))
      exact h.move hi rfl rfl rfl (fun _ => rfl) (Or.inr (Or.inl hholds)) hcooled
    · rename_i wake hstage
      split
      · rename_i hwake
        refine h.move hi rfl rfl rfl (fun _ => rfl) (Or.inr (Or.inl rfl)) ?_
        have hcooled := h.cooled c (List.mem_of_getElem? hi)
        unfold Cooled at hcooled
        rw [hstage] at hcooled
        intro ts hts
        have := hcooled ts hts
        omega
      · exact h
    · rename_i which hstage
      exact h.consume hi hstage (by rw [hstage]; rfl) hsound false
    · rename_i which wake hstage
      split
      · rename_i hwake
        exact h.consume hi hstage (by rw [hstage]; simp [Stage.tries, hwake]) hsound true
      · exact h
    · exact h

theorem Governed.step {s : Governor} (h : s.Governed cfg hash) (op : Op)
    (hsound : s.Sound cfg hash op) : Governed cfg hash (step cfg hash s op) := by
  cases op with
  | call key => exact h.call key
  | poll i => exact h.poll i hsound
  | advance d => exact h.advance d

theorem governed_new (now : ℕ) : Governed cfg hash (Governor.new cfg now) := by
  refine ⟨Nat.zero_le _, ⟨fun t => Nat.zero_le _, List.Pairwise.nil⟩, ?_, nofun, ?_, ?_⟩
  · exact fun a ha => absurd ha List.not_mem_nil
  · exact fun a ha => absurd ha List.not_mem_nil
  · exact fun c hc => absurd hc List.not_mem_nil

end Governor

/-- The key of a request for one-minute trades of a contract. -/
def tradesOf (conId : Int32) : IdenticalKey := ⟨conId, 60, .trades, true⟩

/-- A hash that tells the keys of different contracts apart. -/
def hashOf (key : IdenticalKey) : UInt64 := key.conId.toInt64.toUInt64

/-- A call and the polls that take it through when nothing stops it. -/
def through (i : ℕ) (key : IdenticalKey) : List Op := [.call key, .poll i, .poll i, .poll i]

end Midas.Ib
