import HandOfMidas.Ib.Paced

/-! What a rejected historical request costs. A run of the governor is compared with the same run
    without the calls that were rejected: a refusal at the cooldown check or at the total bucket
    leaves no trace but a refill, while a refusal at the bucket of the key comes after a token of
    the total bucket was taken, and nobody gives it back. -/

namespace Midas.Ib

variable (cfg : PacingConfig) (hash : IdenticalKey → UInt64)

namespace Stage

def failed : Stage → Bool
  | .returned (.error _) => true
  | _ => false

/-- A call that has taken its token of the total bucket. -/
def paid : Stage → Bool
  | .consuming .perKey _ => true
  | .returned (.ok ()) => true
  | _ => false

/-- A call that finds its bucket empty may sleep: it has not slept yet, and the policy and the hint
    allow it. -/
def mayWait (hint : ℕ) : Stage → Prop
  | .consuming _ none => cfg.onViolation = .queue ∧ hint ≤ cfg.maxQueueWait
  | _ => False

instance (hint : ℕ) : (stage : Stage) → Decidable (stage.mayWait cfg hint)
  | .consuming _ none => inferInstanceAs (Decidable (_ ∧ _))
  | .consuming _ (some _) => isFalse not_false
  | .checking => isFalse not_false
  | .cooling _ => isFalse not_false
  | .returned _ => isFalse not_false

end Stage

namespace Governor

/-- The call at position `i` was rejected. -/
def rejects (s : Governor) (i : ℕ) : Bool := s.callers[i]?.any fun c => c.stage.failed

/-- The bucket of a key, which starts full when it is first asked for. -/
def keyBucket (s : Governor) (k : UInt64) : TokenBucket :=
  (s.historicalPerKey k).getD (.new cfg.identicalBurst (fromSecs 2) s.now)

/-- A call that has taken its token of the total bucket is not turned away at the bucket of its key:
    that has a token, or the call may sleep. -/
def Spares (s : Governor) : Op → Prop
  | .poll i => ∀ c ∈ s.callers[i]?, c.stage.tries s.now = some .perKey →
    ∀ b ∈ s.historicalPerKey (hash c.key),
      b.Grants s.now ∨ c.stage.mayWait cfg (b.refill s.now).waitHint
  | _ => True

instance (s : Governor) : (op : Op) → Decidable (s.Spares cfg hash op)
  | .poll i => inferInstanceAs (Decidable (∀ c ∈ s.callers[i]?, _ → ∀ b ∈ _, _ ∨ _))
  | .call _ | .advance _ => isTrue trivial

/-- Two governors whose buckets are the same up to refill, and which have let through the same
    requests. -/
structure Untouched (s t : Governor) : Prop where
  total : s.historicalTotal.refill s.now = t.historicalTotal.refill s.now
  perKey : ∀ k, (s.keyBucket cfg k).refill s.now = (t.keyBucket cfg k).refill s.now
  lastConsume : ∀ k, s.last k = t.last k
  admitted : s.admitted = t.admitted

end Governor

/-- A step of the run without the calls in `R`: those are not made, and their positions are left
    empty. -/
def stepWithout (R : ℕ → Bool) (s : Governor) : Op → Governor
  | .call key =>
    if R s.callers.length then
      { s with callers := s.callers ++ [⟨key, .returned (.error (.pacingViolation "not made")), none⟩] }
    else s.call cfg hash key
  | op => step cfg hash s op

/-! ### Buckets up to refill -/

namespace TokenBucket

theorem refill_refill {b : TokenBucket} {t t' : ℕ} (hcap : 0 ≤ b.capacity) (hpast : b.lastRefill ≤ t)
    (hle : t ≤ t') : (b.refill t).refill t' = b.refill t' := by
  have hrate : 0 ≤ b.refillRatePerSecs :=
    div_nonneg hcap (le_max_of_le_right (by norm_num))
  have hsecs : asSecs (t - b.lastRefill) + asSecs (t' - t) = asSecs (t' - b.lastRefill) := by
    unfold asSecs
    rw [← add_div, ← Nat.cast_add]
    congr 2
    omega
  have hmore : 0 ≤ asSecs (t' - t) * b.refillRatePerSecs :=
    mul_nonneg (div_nonneg (Nat.cast_nonneg _) (by norm_num)) hrate
  have htokens : min (min (b.tokens + asSecs (t - b.lastRefill) * b.refillRatePerSecs) b.capacity +
      asSecs (t' - t) * b.refillRatePerSecs) b.capacity =
      min (b.tokens + asSecs (t' - b.lastRefill) * b.refillRatePerSecs) b.capacity := by
    rw [← hsecs, add_mul, ← add_assoc, min_add, min_assoc, min_eq_right (le_add_of_nonneg_right hmore)]
  unfold refill
  exact congrArg (fun x => { b with tokens := x, lastRefill := t' }) htokens

/-- Two buckets that are the same from now on: what was not refilled yet does not tell them apart. -/
structure Alike (now : ℕ) (b b' : TokenBucket) : Prop where
  refilled : b.refill now = b'.refill now
  capacity : 0 ≤ b.capacity
  past : b.lastRefill ≤ now
  past' : b'.lastRefill ≤ now

variable {now : ℕ} {b b' : TokenBucket}

theorem Alike.capacity' (h : Alike now b b') : 0 ≤ b'.capacity := by
  have heq : (b.refill now).capacity = (b'.refill now).capacity := by rw [h.refilled]
  have hsame : b.capacity = b'.capacity := heq
  exact hsame ▸ h.capacity

theorem Alike.later (h : Alike now b b') {now' : ℕ} (hle : now ≤ now') : Alike now' b b' := by
  refine ⟨?_, h.capacity, h.past.trans hle, h.past'.trans hle⟩
  rw [← refill_refill h.capacity h.past hle, h.refilled, refill_refill h.capacity' h.past' hle]

theorem Alike.refill_left (h : Alike now b b') : Alike now (b.refill now) b' :=
  ⟨(refill_refill h.capacity h.past le_rfl).trans h.refilled, h.capacity, le_rfl, h.past'⟩

theorem Alike.grants (h : Alike now b b') : b.Grants now ↔ b'.Grants now := by
  unfold Grants
  rw [h.refilled]

theorem Alike.tryAcquire (h : Alike now b b') : b.tryAcquire now = b'.tryAcquire now := by
  unfold TokenBucket.tryAcquire
  simp only [h.grants, h.refilled]

/-- What an attempt leaves is like itself. -/
theorem alike_tryAcquire (hcap : 0 ≤ b.capacity) :
    Alike now (b.tryAcquire now).2 (b.tryAcquire now).2 := by
  by_cases hg : b.Grants now
  · rw [tryAcquire_of_grants hg]
    exact ⟨rfl, hcap, le_rfl, le_rfl⟩
  · rw [tryAcquire_of_not_grants hg]
    exact ⟨rfl, hcap, le_rfl, le_rfl⟩

theorem refill_new (capacity period t now : ℕ) :
    (new capacity period t).refill now = new capacity period now := by
  have hsecs : 0 ≤ asSecs (now - t) * (new capacity period t).refillRatePerSecs :=
    mul_nonneg (div_nonneg (Nat.cast_nonneg _) (by norm_num))
      (div_nonneg (Nat.cast_nonneg _) (le_max_of_le_right (by norm_num)))
  have htokens : min ((capacity : ℚ) + asSecs (now - t) * (new capacity period t).refillRatePerSecs)
      capacity = capacity := min_eq_right (le_add_of_nonneg_right hsecs)
  exact congrArg (fun x : ℚ => (⟨capacity, period, x, now, none⟩ : TokenBucket)) htokens

/-- A bucket that nobody has consumed is full, whenever it was made. -/
theorem alike_new (capacity period : ℕ) {t t' : ℕ} (ht : t ≤ now) (ht' : t' ≤ now) :
    Alike now (new capacity period t) (new capacity period t') :=
  ⟨by rw [refill_new, refill_new], Nat.cast_nonneg _, ht, ht'⟩

end TokenBucket

/-! ### The two runs side by side -/

namespace Governor

variable {cfg hash}

/-- The run and the run without the calls in `R`. -/
structure Tracks (cfg : PacingConfig) (hash : IdenticalKey → UInt64) (R : ℕ → Bool) (s t : Governor) :
    Prop where
  now : t.now = s.now
  length : t.callers.length = s.callers.length
  callers : ∀ i, R i = false → t.callers[i]? = s.callers[i]?
  gone : ∀ i c, R i = true → t.callers[i]? = some c → ∃ r, c.stage = .returned r
  opened : ∀ i c, R i = false → s.callers[i]? = some c →
    (s.historicalPerKey (hash c.key)).isSome = true ∧ (t.historicalPerKey (hash c.key)).isSome = true
  total : s.historicalTotal.Alike s.now t.historicalTotal
  perKey : ∀ k, (s.keyBucket cfg k).Alike s.now (t.keyBucket cfg k)
  lastConsume : ∀ k, s.last k = t.last k
  admitted : t.admitted = s.admitted

variable {R : ℕ → Bool} {s t : Governor}

theorem Tracks.untouched (h : Tracks cfg hash R s t) : Untouched cfg s t :=
  ⟨h.total.refilled, fun k => (h.perKey k).refilled, h.lastConsume, h.admitted.symm⟩

theorem keyBucket_of_some {k : UInt64} {b : TokenBucket} (h : s.historicalPerKey k = some b) :
    s.keyBucket cfg k = b := by
  unfold keyBucket
  rw [h]
  rfl

/-- The bucket that a call consumes is there in both runs, the same up to refill. -/
theorem Tracks.bucket (h : Tracks cfg hash R s t) {i : ℕ} {c : Caller} (hR : R i = false)
    (hi : s.callers[i]? = some c) (which : Which) :
    ∃ x y, s.bucket hash c.key which = some x ∧ t.bucket hash c.key which = some y ∧
      x.Alike s.now y := by
  cases which with
  | total => exact ⟨s.historicalTotal, t.historicalTotal, rfl, rfl, h.total⟩
  | perKey =>
    obtain ⟨hs, ht⟩ := h.opened i c hR hi
    obtain ⟨x, hx⟩ := Option.isSome_iff_exists.mp hs
    obtain ⟨y, hy⟩ := Option.isSome_iff_exists.mp ht
    refine ⟨x, y, hx, hy, ?_⟩
    have := h.perKey (hash c.key)
    rwa [keyBucket_of_some hx, keyBucket_of_some hy] at this

/-- Moving one call on in both runs. -/
theorem Tracks.move (h : Tracks cfg hash R s t) {i : ℕ} {c : Caller} (c' : Caller)
    (hi : s.callers[i]? = some c) (hkey : c'.key = c.key) (hR : R i = false) :
    Tracks cfg hash R (s.setCaller i c') (t.setCaller i c') := by
  refine ⟨h.now, ?_, fun j hj => ?_, fun j d hj hd => ?_, fun j d hj hd => ?_, h.total, h.perKey,
    h.lastConsume, h.admitted⟩
  · simp only [setCaller, List.length_set]
    exact h.length
  · simp only [setCaller, List.getElem?_set, h.length, h.callers j hj]
  · have hij : i ≠ j := fun hij => Bool.false_ne_true (hR.symm.trans (hij ▸ hj))
    rw [setCaller, List.getElem?_set_ne hij] at hd
    exact h.gone j d hj hd
  · by_cases hij : i = j
    · subst hij
      have hlt := (List.getElem?_eq_some_iff.mp hi).1
      rw [setCaller, List.getElem?_set_self hlt] at hd
      obtain rfl := Option.some.inj hd
      rw [hkey]
      exact h.opened i c hR hi
    · rw [setCaller, List.getElem?_set_ne hij] at hd
      exact h.opened j d hj hd

/-- Moving a call on that the second run does not make. -/
theorem Tracks.own (h : Tracks cfg hash R s t) {i : ℕ} (c' : Caller) (hR : R i = true) :
    Tracks cfg hash R (s.setCaller i c') t := by
  have hne : ∀ {j}, R j = false → i ≠ j := fun hj hij => Bool.false_ne_true (hj.symm.trans (hij ▸ hR))
  refine ⟨h.now, ?_, fun j hj => ?_, h.gone, fun j d hj hd => ?_, h.total, h.perKey, h.lastConsume,
    h.admitted⟩
  · simp only [setCaller, List.length_set]
    exact h.length
  · rw [setCaller, List.getElem?_set_ne (hne hj)]
    exact h.callers j hj
  · rw [setCaller, List.getElem?_set_ne (hne hj)] at hd
    exact h.opened j d hj hd

theorem isSome_setBucket {key : IdenticalKey} {b : TokenBucket} {which : Which} {k : UInt64}
    (h : (s.historicalPerKey k).isSome = true) :
    ((s.setBucket hash key b which).historicalPerKey k).isSome = true := by
  cases which with
  | total => exact h
  | perKey =>
    by_cases hk : k = hash key
    · simp [setBucket, hk]
    · simpa [setBucket, hk] using h

theorem keyBucket_setBucket (key : IdenticalKey) (b : TokenBucket) (k : UInt64) :
    (s.setBucket hash key b .perKey).keyBucket cfg k = if k = hash key then b
      else s.keyBucket cfg k := by
  by_cases hk : k = hash key
  · simp [keyBucket, setBucket, hk]
  · simp [keyBucket, setBucket, hk]

theorem last_setBucket (key : IdenticalKey) (b : TokenBucket) (k : UInt64) :
    (s.setBucket hash key b .perKey).last k = if k = hash key then b.lastConsume else s.last k := by
  by_cases hk : k = hash key
  · simp [last, setBucket, hk]
  · simp [last, setBucket, hk]

/-- Both runs put a bucket back that is the same up to refill. -/
theorem Tracks.put (h : Tracks cfg hash R s t) {x y : TokenBucket} (hxy : x.Alike s.now y)
    (key : IdenticalKey) (which : Which) :
    Tracks cfg hash R (s.setBucket hash key x which) (t.setBucket hash key y which) := by
  have hopened : ∀ i c, R i = false → (s.setBucket hash key x which).callers[i]? = some c →
      ((s.setBucket hash key x which).historicalPerKey (hash c.key)).isSome = true ∧
        ((t.setBucket hash key y which).historicalPerKey (hash c.key)).isSome = true := by
    intro i c hR hi
    have hi : s.callers[i]? = some c := by cases which <;> exact hi
    obtain ⟨hs, ht⟩ := h.opened i c hR hi
    exact ⟨isSome_setBucket hs, isSome_setBucket ht⟩
  cases which with
  | total =>
    exact ⟨h.now, h.length, h.callers, h.gone, hopened, hxy, h.perKey, h.lastConsume, h.admitted⟩
  | perKey =>
    refine ⟨h.now, h.length, h.callers, h.gone, hopened, h.total, fun k => ?_, fun k => ?_, h.admitted⟩
    · rw [keyBucket_setBucket, keyBucket_setBucket]
      split
      · exact hxy
      · exact h.perKey k
    · have hlast : x.lastConsume = y.lastConsume := congrArg (fun b => b.lastConsume) hxy.refilled
      rw [last_setBucket, last_setBucket, hlast, h.lastConsume]

/-- Refilling a bucket in the first run only. -/
theorem Tracks.refill (h : Tracks cfg hash R s t) {key : IdenticalKey} {which : Which} {x : TokenBucket}
    (hx : s.bucket hash key which = some x) :
    Tracks cfg hash R (s.setBucket hash key (x.refill s.now) which) t := by
  have hkept : (x.refill s.now).lastConsume = x.lastConsume := rfl
  have hlast : ∀ k, (s.setBucket hash key (x.refill s.now) which).last k = s.last k :=
    fun k => last_setBucket_refill hx hkept k
  cases which with
  | total =>
    obtain rfl : s.historicalTotal = x := Option.some.inj hx
    exact ⟨h.now, h.length, h.callers, h.gone, h.opened, h.total.refill_left, h.perKey, h.lastConsume,
      h.admitted⟩
  | perKey =>
    refine ⟨h.now, h.length, h.callers, h.gone, fun i c hR hi => ?_, h.total, fun k => ?_, fun k => ?_,
      h.admitted⟩
    · obtain ⟨hs, ht⟩ := h.opened i c hR hi
      exact ⟨isSome_setBucket hs, ht⟩
    · rw [keyBucket_setBucket]
      split
      · rename_i hk
        have := h.perKey (hash key)
        rw [keyBucket_of_some hx] at this
        exact hk ▸ this.refill_left
      · exact h.perKey k
    · rw [hlast, h.lastConsume]

theorem Tracks.letThrough (h : Tracks cfg hash R s t) (a : Admission) :
    Tracks cfg hash R { s with admitted := s.admitted ++ [a] }
      { t with admitted := t.admitted ++ [a] } :=
  ⟨h.now, h.length, h.callers, h.gone, h.opened, h.total, h.perKey, h.lastConsume,
    congrArg (· ++ [a]) h.admitted⟩

/-! ### Polls -/

/-- A call that finds a token takes it. -/
theorem consume_of_grants {i : ℕ} {c : Caller} {which : Which} {second : Bool} {x : TokenBucket}
    (hx : s.bucket hash c.key which = some x) (hg : x.Grants s.now) :
    s.consume cfg hash i c which second =
      match which with
      | .total => (s.setBucket hash c.key (x.tryAcquire s.now).2 .total).setCaller i
          { c with stage := .consuming .perKey none }
      | .perKey =>
        { (s.setBucket hash c.key (x.tryAcquire s.now).2 .perKey).setCaller i
            { c with stage := .returned (.ok ()) } with
          admitted := s.admitted ++ [⟨c.key, s.now⟩] } := by
  unfold consume
  rw [hx]
  simp only [TokenBucket.tryAcquire_of_grants hg]
  cases which <;> rfl

/-- A call that finds none refills the bucket, and is turned away or sleeps. -/
theorem consume_of_not_grants {i : ℕ} {c : Caller} {which : Which} {second : Bool} {x : TokenBucket}
    (hx : s.bucket hash c.key which = some x) (hg : ¬ x.Grants s.now) :
    s.consume cfg hash i c which second =
      (s.setBucket hash c.key (x.refill s.now) which).setCaller i
        { c with stage := onExhausted cfg s.now which second (x.refill s.now).waitHint } := by
  unfold consume
  rw [hx]
  simp only [TokenBucket.tryAcquire_of_not_grants hg]

theorem callers_consume_of_ne {i j : ℕ} (hij : i ≠ j) {c : Caller} {which : Which} {second : Bool} :
    (s.consume cfg hash i c which second).callers[j]? = s.callers[j]? := by
  cases hx : s.bucket hash c.key which with
  | none =>
    unfold consume
    rw [hx]
  | some x =>
    by_cases hg : x.Grants s.now
    · rw [consume_of_grants hx hg]
      cases which <;> exact List.getElem?_set_ne hij
    · rw [consume_of_not_grants hx hg]
      cases which <;> exact List.getElem?_set_ne hij

theorem callers_poll_of_ne {i j : ℕ} (hij : i ≠ j) :
    (s.poll cfg hash i).callers[j]? = s.callers[j]? := by
  unfold poll
  split
  · rfl
  · split
    · exact List.getElem?_set_ne hij
    · split
      · exact List.getElem?_set_ne hij
      · rfl
    · exact callers_consume_of_ne hij
    · split
      · exact callers_consume_of_ne hij
      · rfl
    · rfl

/-- The caller at a position after a call was moved on there. -/
theorem getElem?_setBucket_setCaller {i : ℕ} {c : Caller} (hi : s.callers[i]? = some c) (c' : Caller)
    (key : IdenticalKey) (b : TokenBucket) (which : Which) :
    ((s.setBucket hash key b which).setCaller i c').callers[i]? = some c' := by
  have hlt := (List.getElem?_eq_some_iff.mp hi).1
  cases which <;> exact List.getElem?_set_self hlt

/-- The call has taken its token of the total bucket. -/
def Paid (s : Governor) (i : ℕ) : Prop := ∃ c, s.callers[i]? = some c ∧ c.stage.paid = true

/-- A call that has paid and tries its key's bucket stays paid, unless it is turned away there. -/
theorem paid_consume {i : ℕ} {c : Caller} {wake : Option ℕ} (hi : s.callers[i]? = some c)
    (hstage : c.stage = .consuming .perKey wake) (second : Bool) (hsecond : second = wake.isSome)
    (hspares : ∀ b ∈ s.historicalPerKey (hash c.key),
      b.Grants s.now ∨ c.stage.mayWait cfg (b.refill s.now).waitHint) :
    Paid (s.consume cfg hash i c .perKey second) i := by
  cases hx : s.historicalPerKey (hash c.key) with
  | none =>
    have hnone : s.bucket hash c.key .perKey = none := hx
    unfold consume
    rw [hnone]
    exact ⟨c, hi, by rw [hstage]; rfl⟩
  | some x =>
    have hsome : s.bucket hash c.key .perKey = some x := hx
    by_cases hg : x.Grants s.now
    · rw [consume_of_grants hsome hg]
      exact ⟨_, getElem?_setBucket_setCaller hi _ _ _ _, rfl⟩
    · rw [consume_of_not_grants hsome hg]
      refine ⟨_, getElem?_setBucket_setCaller hi _ _ _ _, ?_⟩
      have hmay := (hspares x hx).resolve_left hg
      rw [hstage] at hmay
      cases wake with
      | some w => exact hmay.elim
      | none =>
        obtain ⟨hpolicy, hhint⟩ := hmay
        subst hsecond
        simp [onExhausted, hpolicy, not_lt.mpr hhint, Stage.paid]

theorem paid_step {i : ℕ} (op : Op) (hspares : s.Spares cfg hash op) (h : Paid s i) :
    Paid (step cfg hash s op) i := by
  obtain ⟨c, hi, hpaid⟩ := h
  cases op with
  | call key =>
    have hlt := (List.getElem?_eq_some_iff.mp hi).1
    exact ⟨c, (List.getElem?_append_left hlt).trans hi, hpaid⟩
  | advance d => exact ⟨c, hi, hpaid⟩
  | poll j =>
    by_cases hij : j = i
    · subst hij
      have hspares := hspares c hi
      unfold step poll
      simp only [hi]
      cases hstage : c.stage with
      | checking => rw [hstage] at hpaid; cases hpaid
      | cooling wake => rw [hstage] at hpaid; cases hpaid
      | returned r => exact ⟨c, hi, hpaid⟩
      | consuming which wake =>
        cases which with
        | total => rw [hstage] at hpaid; cases hpaid
        | perKey =>
          cases wake with
          | none => exact paid_consume hi hstage false rfl (hspares (by rw [hstage]; rfl))
          | some w =>
            dsimp only
            split
            · rename_i hwake
              exact paid_consume hi hstage true rfl
                (hspares (by rw [hstage]; simp [Stage.tries, hwake]))
            · exact ⟨c, hi, hpaid⟩
    · exact ⟨c, (callers_poll_of_ne hij).trans hi, hpaid⟩

/-- A call that has paid is not rejected any more. -/
theorem not_rejects_of_paid {ops : List Op} (hspares : AllSteps (step cfg hash) (Spares cfg hash) s ops)
    {i : ℕ} (h : Paid s i) : (run (step cfg hash) s ops).rejects i = false := by
  induction ops generalizing s with
  | nil =>
    obtain ⟨c, hi, hpaid⟩ := h
    unfold rejects
    rw [run_nil, hi, Option.any_some]
    revert hpaid
    cases c.stage with
    | returned r => cases r <;> simp [Stage.paid, Stage.failed]
    | _ => simp [Stage.failed]
  | cons op ops ih =>
    obtain ⟨hop, hrest⟩ := (allSteps_cons _).mp hspares
    exact ih hrest (paid_step op hop h)

/-- The two runs poll a call that both make. -/
theorem Tracks.consume (h : Tracks cfg hash R s t) {i : ℕ} {c : Caller} (hR : R i = false)
    (hi : s.callers[i]? = some c) (which : Which) (second : Bool) :
    Tracks cfg hash R (s.consume cfg hash i c which second) (t.consume cfg hash i c which second) := by
  obtain ⟨x, y, hx, hy, hxy⟩ := h.bucket hR hi which
  have hcallers : ∀ b, (s.setBucket hash c.key b which).callers[i]? = some c := by
    intro b
    cases which <;> exact hi
  by_cases hg : x.Grants s.now
  · have hg' : y.Grants t.now := h.now ▸ hxy.grants.mp hg
    have hsame : y.tryAcquire t.now = x.tryAcquire s.now := by rw [h.now, hxy.tryAcquire]
    rw [consume_of_grants hx hg, consume_of_grants hy hg', hsame]
    have hput := h.put (TokenBucket.alike_tryAcquire hxy.capacity) c.key which
    cases which with
    | total => exact hput.move _ (hcallers _) rfl hR
    | perKey =>
      have hmoved := (hput.move { c with stage := .returned (.ok ()) } (hcallers _) rfl hR).letThrough
        ⟨c.key, s.now⟩
      rw [h.now]
      exact hmoved
  · have hg' : ¬ y.Grants t.now := fun hgy => hg (hxy.grants.mpr (h.now ▸ hgy))
    have hsame : y.refill t.now = x.refill s.now := by rw [h.now, hxy.refilled]
    rw [consume_of_not_grants hx hg, consume_of_not_grants hy hg', hsame, h.now]
    have hrefilled : (x.refill s.now).Alike s.now (x.refill s.now) :=
      ⟨rfl, hxy.capacity, le_rfl, le_rfl⟩
    exact (h.put hrefilled c.key which).move _ (hcallers _) rfl hR

theorem Tracks.poll (h : Tracks cfg hash R s t) {i : ℕ} (hR : R i = false) :
    Tracks cfg hash R (s.poll cfg hash i) (t.poll cfg hash i) := by
  unfold Governor.poll
  rw [h.callers i hR, h.now]
  cases hi : s.callers[i]? with
  | none => exact h
  | some c =>
    dsimp only
    cases hstage : c.stage with
    | checking =>
      have hseen : (t.historicalPerKey (hash c.key)).bind TokenBucket.lastConsume =
          (s.historicalPerKey (hash c.key)).bind TokenBucket.lastConsume :=
        (h.lastConsume (hash c.key)).symm
      simp only [hseen]
      exact h.move _ hi rfl hR
    | cooling wake =>
      dsimp only
      split
      · exact h.move _ hi rfl hR
      · exact h
    | consuming which wake =>
      cases wake with
      | none => exact h.consume hR hi which false
      | some w =>
        dsimp only
        split
        · exact h.consume hR hi which true
        · exact h
    | returned r => exact h

/-- The first run polls a call that the second does not make, and the call does not pay. -/
theorem Tracks.poll_own (h : Tracks cfg hash R s t) {i : ℕ} (hR : R i = true)
    (hspares : s.Spares cfg hash (.poll i)) (hpaid : ¬ Paid (s.poll cfg hash i) i) :
    Tracks cfg hash R (s.poll cfg hash i) (t.poll cfg hash i) := by
  have hidle : t.poll cfg hash i = t := by
    unfold Governor.poll
    cases hi : t.callers[i]? with
    | none => rfl
    | some c =>
      obtain ⟨r, hr⟩ := h.gone i c hR hi
      simp only [hr]
  rw [hidle]
  have hnot : ∀ c, s.callers[i]? = some c → c.stage.paid = false := by
    intro c hi
    by_contra hc
    exact hpaid (paid_step (.poll i) hspares ⟨c, hi, by simpa using hc⟩)
  have hconsume : ∀ c second, s.callers[i]? = some c →
    s.poll cfg hash i = s.consume cfg hash i c .total second →
      Tracks cfg hash R (s.consume cfg hash i c .total second) t := by
    intro c second hi heq
    by_cases hg : s.historicalTotal.Grants s.now
    · rw [heq, consume_of_grants (x := s.historicalTotal) rfl hg] at hpaid
      exact absurd ⟨_, getElem?_setBucket_setCaller hi _ _ _ _, rfl⟩ hpaid
    · rw [consume_of_not_grants (x := s.historicalTotal) rfl hg]
      exact (h.refill rfl).own _ hR
  cases hi : s.callers[i]? with
  | none =>
    have heq : s.poll cfg hash i = s := by
      unfold Governor.poll
      rw [hi]
    rw [heq]
    exact h
  | some c =>
    have hunpaid := hnot c hi
    have hpoll : s.poll cfg hash i = s.poll cfg hash i := rfl
    conv at hpoll => rhs; unfold Governor.poll
    simp only [hi] at hpoll
    cases hstage : c.stage with
    | checking =>
      simp only [hstage] at hpoll
      rw [hpoll]
      exact h.own _ hR
    | cooling wake =>
      simp only [hstage] at hpoll
      rw [hpoll]
      split
      · exact h.own _ hR
      · exact h
    | consuming which wake =>
      cases which with
      | perKey => rw [hstage] at hunpaid; cases hunpaid
      | total =>
        cases wake with
        | none =>
          simp only [hstage] at hpoll
          rw [hpoll]
          exact hconsume c false hi hpoll
        | some w =>
          simp only [hstage] at hpoll
          by_cases hwake : w ≤ s.now
          · rw [if_pos hwake] at hpoll
            rw [hpoll]
            exact hconsume c true hi hpoll
          · rw [if_neg hwake] at hpoll
            rw [hpoll]
            exact h
    | returned r =>
      simp only [hstage] at hpoll
      rw [hpoll]
      exact h

/-! ### Calls and time -/

theorem Tracks.advance (h : Tracks cfg hash R s t) (d : ℕ) :
    Tracks cfg hash R { s with now := s.now + d } { t with now := t.now + d } := by
  have hle : s.now ≤ s.now + d := Nat.le_add_right _ _
  refine ⟨congrArg (· + d) h.now, h.length, h.callers, h.gone, h.opened, h.total.later hle, fun k => ?_,
    h.lastConsume, h.admitted⟩
  have hk := (h.perKey k).later hle
  unfold keyBucket at hk ⊢
  dsimp only
  -- A bucket that is not there yet would start full at any time.
  cases hs : s.historicalPerKey k with
  | none =>
    cases ht : t.historicalPerKey k with
    | none => exact TokenBucket.alike_new _ _ le_rfl (by rw [h.now])
    | some y =>
      rw [hs, ht] at hk
      refine ⟨?_, Nat.cast_nonneg _, le_rfl, hk.past'⟩
      exact (TokenBucket.refill_new _ _ _ _).trans
        ((TokenBucket.refill_new _ _ _ _).symm.trans hk.refilled)
  | some x =>
    cases ht : t.historicalPerKey k with
    | none =>
      rw [hs, ht] at hk
      refine ⟨?_, hk.capacity, hk.past, by rw [Option.getD_none, TokenBucket.new, h.now]⟩
      exact hk.refilled.trans ((TokenBucket.refill_new _ _ _ _).trans
        (TokenBucket.refill_new _ _ _ _).symm)
    | some y =>
      rw [hs, ht] at hk
      exact hk

/-- Opening the bucket of a key changes no bucket, for it would start full anyway. -/
theorem keyBucket_call (key : IdenticalKey) (k : UInt64) :
    (s.call cfg hash key).keyBucket cfg k = s.keyBucket cfg k := by
  by_cases hk : k = hash key
  · subst hk
    simp [keyBucket, Governor.call]
  · simp [keyBucket, Governor.call, hk]

theorem last_call (key : IdenticalKey) (k : UInt64) : (s.call cfg hash key).last k = s.last k := by
  by_cases hk : k = hash key
  · subst hk
    cases hb : s.historicalPerKey (hash key) with
    | none => simp [last, Governor.call, hb, TokenBucket.new]
    | some b => simp [last, Governor.call, hb]
  · simp [last, Governor.call, hk]

theorem isSome_call (key : IdenticalKey) {k : UInt64}
    (h : k = hash key ∨ (s.historicalPerKey k).isSome = true) :
    ((s.call cfg hash key).historicalPerKey k).isSome = true := by
  by_cases hk : k = hash key
  · simp [Governor.call, hk]
  · simpa [Governor.call, hk] using h.resolve_left hk

theorem Tracks.call (h : Tracks cfg hash R s t) (key : IdenticalKey)
    (hR : R s.callers.length = false) :
    Tracks cfg hash R (s.call cfg hash key) (t.call cfg hash key) := by
  refine ⟨h.now, ?_, fun i hi => ?_, fun i c hi hc => ?_, fun i c hi hc => ?_, h.total, fun k => ?_,
    fun k => ?_, h.admitted⟩
  · simp only [Governor.call, List.length_append, h.length]
  · simp only [Governor.call, List.getElem?_append, h.length, h.callers i hi]
  · have hne : i ≠ s.callers.length := fun heq => Bool.false_ne_true (hR.symm.trans (heq ▸ hi))
    have hold : t.callers[i]? = some c := by
      simp only [Governor.call, List.getElem?_append] at hc
      split at hc
      · exact hc
      · rename_i hlt
        have hpos : i - t.callers.length ≠ 0 := by
          rw [h.length] at hlt ⊢
          omega
        rw [List.getElem?_eq_none (by simpa using Nat.one_le_iff_ne_zero.mpr hpos)] at hc
        cases hc
    exact h.gone i c hi hold
  · have hcase : (s.callers[i]? = some c) ∨ c.key = key := by
      simp only [Governor.call, List.getElem?_append] at hc
      split at hc
      · exact Or.inl hc
      · have hmem := List.mem_of_getElem? hc
        rw [List.mem_singleton.mp hmem]
        exact Or.inr rfl
    rcases hcase with hold | hkey
    · obtain ⟨hs, ht⟩ := h.opened i c hi hold
      exact ⟨isSome_call key (Or.inr hs), isSome_call key (Or.inr ht)⟩
    · rw [hkey]
      exact ⟨isSome_call key (Or.inl rfl), isSome_call key (Or.inl rfl)⟩
  · rw [keyBucket_call, keyBucket_call]
    exact h.perKey k
  · rw [last_call, last_call]
    exact h.lastConsume k

/-- The first run makes a call that the second does not make. -/
theorem Tracks.call_own (h : Tracks cfg hash R s t) (key : IdenticalKey)
    {r : Except MarketDataError Unit}
    (hR : R s.callers.length = true) :
    Tracks cfg hash R (s.call cfg hash key)
      { t with callers := t.callers ++ [⟨key, .returned r, none⟩] } := by
  have hne : ∀ {i}, R i = false → i ≠ s.callers.length :=
    fun hi heq => Bool.false_ne_true (hi.symm.trans (heq ▸ hR))
  have hpast : ∀ {i} (u v : Caller), i ≠ s.callers.length →
      (s.callers ++ [u])[i]? = s.callers[i]? ∧ (t.callers ++ [v])[i]? = t.callers[i]? := by
    intro i u v hi
    rcases Nat.lt_or_gt_of_ne hi with hlt | hgt
    · exact ⟨List.getElem?_append_left hlt, List.getElem?_append_left (h.length ▸ hlt)⟩
    · have hlen := h.length
      constructor
      · rw [List.getElem?_eq_none (by simp; omega), List.getElem?_eq_none (by omega)]
      · rw [List.getElem?_eq_none (by simp; omega), List.getElem?_eq_none (by omega)]
  refine ⟨h.now, ?_, fun i hi => ?_, fun i c hi hc => ?_, fun i c hi hc => ?_, h.total, fun k => ?_,
    fun k => ?_, h.admitted⟩
  · simp only [Governor.call, List.length_append, h.length, List.length_singleton]
  · obtain ⟨hs, ht⟩ := hpast ⟨key, .checking, none⟩ ⟨key, .returned r, none⟩ (hne hi)
    exact ht.trans ((h.callers i hi).trans hs.symm)
  · simp only [List.getElem?_append] at hc
    split at hc
    · exact h.gone i c hi hc
    · have hmem := List.mem_of_getElem? hc
      rw [List.mem_singleton.mp hmem]
      exact ⟨r, rfl⟩
  · have hs := (hpast ⟨key, .checking, none⟩ ⟨key, .returned r, none⟩ (hne hi)).1
    obtain ⟨hopen, hopen'⟩ := h.opened i c hi (hs.symm.trans hc)
    exact ⟨isSome_call key (Or.inr hopen), hopen'⟩
  · rw [keyBucket_call]
    exact h.perKey k
  · rw [last_call]
    exact h.lastConsume k

theorem tracks_new (R : ℕ → Bool) (now : ℕ) :
    Tracks cfg hash R (Governor.new cfg now) (Governor.new cfg now) := by
  refine ⟨rfl, rfl, fun _ _ => rfl, ?_, ?_, ?_, fun k => ?_, fun _ => rfl, rfl⟩
  · exact fun i c _ hc => absurd hc (by simp [Governor.new])
  · exact fun i c _ hc => absurd hc (by simp [Governor.new])
  · exact TokenBucket.alike_new _ _ le_rfl le_rfl
  · exact TokenBucket.alike_new _ _ le_rfl le_rfl

/-- The two runs stay side by side as long as no call that pays is rejected in the end. -/
theorem Tracks.run {ops : List Op} (h : Tracks cfg hash R s t)
    (hspares : AllSteps (step cfg hash) (Spares cfg hash) s ops)
    (hR : ∀ i, R i = true → (run (step cfg hash) s ops).rejects i = true) :
    Tracks cfg hash R (run (step cfg hash) s ops) (run (stepWithout cfg hash R) t ops) := by
  induction ops generalizing s t with
  | nil => exact h
  | cons op ops ih =>
    obtain ⟨hop, hrest⟩ := (allSteps_cons _).mp hspares
    refine ih ?_ hrest hR
    cases op with
    | call key =>
      unfold stepWithout
      rw [h.length]
      cases hcase : R s.callers.length with
      | true => exact h.call_own key hcase
      | false => exact h.call key hcase
    | poll i =>
      cases hcase : R i with
      | true =>
        refine h.poll_own hcase hop fun hpaid => ?_
        have hkept := not_rejects_of_paid (s := step cfg hash s (.poll i)) hrest hpaid
        exact Bool.false_ne_true (hkept.symm.trans (hR i hcase))
      | false => exact h.poll hcase
    | advance d => exact h.advance d

end Governor

/-- Two requests with one key in one second: the second is rejected inside the cooldown. -/
def inCooldown : List Op := through 0 (tradesOf 1) ++ [.call (tradesOf 1), .poll 1]

end Midas.Ib
