import Mathlib.Data.List.Basic

/-! Positional codecs. A writer pushes tokens one after another, a reader takes them from a cursor;
    nothing on the wire says which token is which. `Undoes r w a` relates the two programs: whatever
    surrounds the tokens that `w` pushes, `r` takes exactly these and returns `a`. Its rules follow
    the two programs in step, one rule for each way of building them. -/

namespace Midas

/-- A position in a list of tokens. -/
structure Cursor (τ : Type) where
  all : List τ
  idx : ℕ
  deriving DecidableEq

namespace Cursor

variable {τ : Type}

/-- The tokens not taken yet. -/
def rest (c : Cursor τ) : List τ := c.all.drop c.idx

def advance (c : Cursor τ) (n : ℕ) : Cursor τ := { c with idx := c.idx + n }

def isEmpty (c : Cursor τ) : Bool := c.rest.isEmpty

theorem rest_advance (c : Cursor τ) (n : ℕ) : (c.advance n).rest = c.rest.drop n := by
  rw [rest, rest, advance, List.drop_drop]

theorem advance_advance (c : Cursor τ) (m n : ℕ) :
    (c.advance m).advance n = c.advance (m + n) := by
  rw [advance, advance, advance, Nat.add_assoc]

end Cursor

/-- A program that takes tokens from a cursor, or fails. -/
abbrev Reading (ε τ : Type) := StateT (Cursor τ) (Except ε)

/-- A program that pushes tokens. -/
abbrev Writing (τ : Type) := StateM (List τ)

/-- `w` pushes `ts`, whatever has been pushed before. -/
def Writing.Pushes {τ : Type} (w : Writing τ Unit) (ts : List τ) : Prop :=
  ∀ pushed, w pushed = ((), pushed ++ ts)

/-- `r` takes the tokens `ts` and returns `a`, whatever comes after them. -/
def Reading.Takes {ε τ α : Type} (r : Reading ε τ α) (ts : List τ) (a : α) : Prop :=
  ∀ c : Cursor τ, ts <+: c.rest → r c = .ok (a, c.advance ts.length)

theorem Writing.Pushes.bind {τ : Type} {w w' : Writing τ Unit} {ts us : List τ} (h : w.Pushes ts)
    (h' : w'.Pushes us) : Writing.Pushes (w >>= fun _ => w') (ts ++ us) := by
  intro pushed
  show w' (w pushed).2 = _
  rw [h, h', List.append_assoc]

/-- After the tokens that the first reader takes, the second reader runs on what follows them. -/
theorem Reading.Takes.andThen {ε τ α β : Type} {r : Reading ε τ α} {k : α → Reading ε τ β}
    {ts us : List τ} {a : α} (h : r.Takes ts a) {c : Cursor τ} (hc : ts ++ us <+: c.rest) :
    (r >>= k) c = k a (c.advance ts.length) ∧ us <+: (c.advance ts.length).rest := by
  refine ⟨?_, ?_⟩
  · show (r c >>= fun p => k p.1 p.2) = _
    rw [h c ((List.prefix_append ts us).trans hc)]
    rfl
  · rw [Cursor.rest_advance]
    obtain ⟨tail, htail⟩ := hc
    exact ⟨tail, by rw [← htail, List.append_assoc, List.drop_left]⟩

/-- `r` reads back as `a` what `w` pushes. -/
def Undoes {ε τ α : Type} (r : Reading ε τ α) (w : Writing τ Unit) (a : α) : Prop :=
  ∃ ts, w.Pushes ts ∧ r.Takes ts a

/-- Run a reader `n` times. -/
def Reading.repeat {ε τ α : Type} (r : Reading ε τ α) : ℕ → Reading ε τ (List α)
  | 0 => pure []
  | n + 1 => do
    let a ← r
    let as ← r.repeat n
    pure (a :: as)

/-- Write the elements of a list one after another. -/
def Writing.each {τ α : Type} (w : α → Writing τ Unit) : List α → Writing τ Unit
  | [] => pure ()
  | a :: as => do
    w a
    Writing.each w as

namespace Undoes

variable {ε τ α β : Type} {r : Reading ε τ α} {w w' : Writing τ Unit} {a : α}

/-- Nothing is written, nothing is read. -/
protected theorem pure (a : α) : Undoes (pure a : Reading ε τ α) (pure ()) a := by
  refine ⟨[], fun pushed => ?_, fun c _ => ?_⟩
  · rw [List.append_nil]
    rfl
  · rfl

/-- Two readers in turn undo two writers in turn. -/
protected theorem bind {k : α → Reading ε τ β} {b : β} (h : Undoes r w a)
    (hk : Undoes (k a) w' b) : Undoes (r >>= k) (w >>= fun _ => w') b := by
  obtain ⟨ts, hpush, htake⟩ := h
  obtain ⟨us, hpush', htake'⟩ := hk
  refine ⟨ts ++ us, hpush.bind hpush', fun c hc => ?_⟩
  obtain ⟨hrun, hrest⟩ := htake.andThen hc
  rw [hrun, htake' _ hrest, Cursor.advance_advance, List.length_append]

/-- The last read of a block, whose result is made from what was read. -/
theorem last {k : α → Reading ε τ β} {b : β} (h : Undoes r w a) (hk : k a = pure b) :
    Undoes (r >>= k) w b := by
  obtain ⟨ts, hpush, htake⟩ := h
  refine ⟨ts, hpush, fun c hc => ?_⟩
  have hc' : ts ++ [] <+: c.rest := by rwa [List.append_nil]
  rw [(htake.andThen hc').1, hk]
  rfl

theorem map {f : α → β} (h : Undoes r w a) : Undoes (r >>= fun x => pure (f x)) w (f a) :=
  h.last rfl

/-- A branch that reader and writer take together. -/
theorem cond {c : Prop} [Decidable c] {r' : Reading ε τ α} {a' : α} (h : c → Undoes r w a)
    (h' : ¬ c → Undoes r' w' a') :
    Undoes (if c then r else r') (if c then w else w') (if c then a else a') := by
  by_cases hc : c
  · rw [if_pos hc, if_pos hc, if_pos hc]
    exact h hc
  · rw [if_neg hc, if_neg hc, if_neg hc]
    exact h' hc

/-- Reading as many elements as were written undoes writing them, element by element. -/
theorem each {f : β → α} {w : β → Writing τ Unit} {bs : List β}
    (h : ∀ b ∈ bs, Undoes r (w b) (f b)) :
    Undoes (r.repeat bs.length) (Writing.each w bs) (bs.map f) := by
  induction bs with
  | nil => exact Undoes.pure []
  | cons b bs ih =>
    have hrest := ih fun b' hb' => h b' (List.mem_cons_of_mem b hb')
    exact (h b List.mem_cons_self).bind hrest.map

end Undoes

/-- Reading from the start what a writer pushed onto nothing takes all of it. -/
theorem Undoes.run {ε τ α : Type} {r : Reading ε τ α} {w : Writing τ Unit} {a : α}
    (h : Undoes r w a) :
    r ⟨(w []).2, 0⟩ = .ok (a, ⟨(w []).2, (w []).2.length⟩) := by
  obtain ⟨ts, hpush, htake⟩ := h
  have hts : (w []).2 = ts := by rw [hpush, List.nil_append]
  rw [hts, htake ⟨ts, 0⟩ (List.prefix_refl ts), Cursor.advance, Nat.zero_add]

/-! ### What is pushed -/

/-- Every token that `w` pushes satisfies `P`. -/
def Writing.All {τ : Type} (P : τ → Prop) (w : Writing τ Unit) : Prop :=
  ∃ ts, w.Pushes ts ∧ ∀ t ∈ ts, P t

namespace Writing.All

variable {τ α : Type} {P : τ → Prop} {w w' : Writing τ Unit}

protected theorem bind (h : w.All P) (h' : w'.All P) : Writing.All P (w >>= fun _ => w') := by
  obtain ⟨ts, hpush, hts⟩ := h
  obtain ⟨us, hpush', hus⟩ := h'
  refine ⟨ts ++ us, hpush.bind hpush', fun t ht => ?_⟩
  rcases List.mem_append.mp ht with h | h
  · exact hts t h
  · exact hus t h

theorem each {w : α → Writing τ Unit} {as : List α} (h : ∀ a ∈ as, (w a).All P) :
    (Writing.each w as).All P := by
  induction as with
  | nil => exact ⟨[], fun pushed => by rw [List.append_nil]; rfl, fun t ht => by cases ht⟩
  | cons a as ih =>
    exact (h a List.mem_cons_self).bind (ih fun b hb => h b (List.mem_cons_of_mem a hb))

theorem run (h : w.All P) : ∀ t ∈ (w []).2, P t := by
  obtain ⟨ts, hpush, hts⟩ := h
  rw [hpush, List.nil_append]
  exact hts

end Writing.All

/-! ### Where a reader stops -/

/-- `r` fails with `e` on what `w` pushes. -/
def Stops {ε τ α : Type} (r : Reading ε τ α) (w : Writing τ Unit) (e : ε) : Prop :=
  ∃ ts, w.Pushes ts ∧ ∀ c : Cursor τ, ts <+: c.rest → r c = .error e

section Stops

variable {ε τ α β : Type} {r : Reading ε τ α} {w w' : Writing τ Unit} {e : ε}

/-- The first reader succeeds and the second fails. -/
theorem Undoes.stops {a : α} {k : α → Reading ε τ β} (h : Undoes r w a) (hk : Stops (k a) w' e) :
    Stops (r >>= k) (w >>= fun _ => w') e := by
  obtain ⟨ts, hpush, htake⟩ := h
  obtain ⟨us, hpush', hstop⟩ := hk
  refine ⟨ts ++ us, hpush.bind hpush', fun c hc => ?_⟩
  obtain ⟨hrun, hrest⟩ := htake.andThen hc
  rw [hrun, hstop _ hrest]

/-- What is read makes the rest fail. -/
theorem Undoes.refused {a : α} {k : α → Reading ε τ β} (h : Undoes r w a) (hk : k a = throw e) :
    Stops (r >>= k) w e := by
  obtain ⟨ts, hpush, htake⟩ := h
  refine ⟨ts, hpush, fun c hc => ?_⟩
  have hc' : ts ++ [] <+: c.rest := by rwa [List.append_nil]
  rw [(htake.andThen hc').1, hk]
  rfl

/-- The first reader fails; what is pushed after that is not read. -/
theorem Stops.bind {P : τ → Prop} {k : α → Reading ε τ β} (h : Stops r w e) (h' : w'.All P) :
    Stops (r >>= k) (w >>= fun _ => w') e := by
  obtain ⟨ts, hpush, hstop⟩ := h
  obtain ⟨us, hpush', -⟩ := h'
  refine ⟨ts ++ us, hpush.bind hpush', fun c hc => ?_⟩
  show (r c >>= fun p => k p.1 p.2) = _
  rw [hstop c ((List.prefix_append ts us).trans hc)]
  rfl

theorem Stops.run (h : Stops r w e) : r ⟨(w []).2, 0⟩ = .error e := by
  obtain ⟨ts, hpush, hstop⟩ := h
  rw [hpush, List.nil_append]
  exact hstop ⟨ts, 0⟩ (List.prefix_refl ts)

end Stops

end Midas
