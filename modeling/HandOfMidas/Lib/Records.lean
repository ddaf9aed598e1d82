import Mathlib.Data.List.Infix
import Mathlib.Data.Nat.Notation

/-! Rows of records. A record is read off the front of what is left, until nothing is; a row that is
    cut anywhere falls apart into its first records and a piece of the next one. -/

namespace Midas

variable {ε τ α : Type*}

/-- A program that reads one record, if there is one. Each record makes what is left shorter. -/
structure RecordReader (ε τ α : Type*) where
  next : List τ → Except ε (Option (α × List τ))
  shorter : ∀ {s a s'}, next s = .ok (some (a, s')) → s'.length < s.length

namespace RecordReader

/-- Read records until there are none. -/
def drain (r : RecordReader ε τ α) (s : List τ) : Except ε (List α) :=
  match _h : r.next s with
  | .error e => .error e
  | .ok none => .ok []
  | .ok (some (a, s')) => (r.drain s').map (a :: ·)
  termination_by s.length
  decreasing_by exact r.shorter _h

variable {r : RecordReader ε τ α} {s s' : List τ} {a : α}

theorem drain_of_error {e : ε} (h : r.next s = .error e) : r.drain s = .error e := by
  rw [drain]
  split <;> simp_all

theorem drain_of_none (h : r.next s = .ok none) : r.drain s = .ok [] := by
  rw [drain]
  split <;> simp_all

theorem drain_of_some (h : r.next s = .ok (some (a, s'))) : r.drain s = (r.drain s').map (a :: ·) := by
  rw [drain]
  split <;> simp_all

/-- `encode a` is read as `a`, whatever comes after it. -/
def Reads (r : RecordReader ε τ α) (encode : α → List τ) (a : α) : Prop :=
  ∀ rest, r.next (encode a ++ rest) = .ok (some (a, rest))

variable {encode : α → List τ}

/-- From a row of records these are read first. -/
theorem drain_flatMap_append {as : List α} (h : ∀ a ∈ as, r.Reads encode a) (rest : List τ) :
    r.drain (as.flatMap encode ++ rest) = (r.drain rest).map (as ++ ·) := by
  induction as with
  | nil =>
    cases hrest : r.drain rest <;> simp [hrest, Except.map]
  | cons a as ih =>
    have hnext := h a List.mem_cons_self (as.flatMap encode ++ rest)
    rw [List.flatMap_cons, List.append_assoc, drain_of_some hnext,
      ih fun b hb => h b (List.mem_cons_of_mem a hb)]
    cases r.drain rest <;> rfl

end RecordReader

/-! ### Cuts -/

/-- The row of the records `as` cut after its records `done` and the piece `part` of the next one. -/
structure Cut (encode : α → List τ) (as : List α) (cut : List τ) (done : List α) (part : List τ) :
    Prop where
  initial : done <+: as
  eq : cut = done.flatMap encode ++ part
  next : part ≠ [] → ∃ a, done ++ [a] <+: as ∧ part <+: encode a ∧ part.length < (encode a).length

variable {encode : α → List τ} {as : List α} {cut : List τ}

/-- A row may be cut anywhere. -/
theorem exists_cut (h : cut <+: as.flatMap encode) : ∃ done part, Cut encode as cut done part := by
  induction as generalizing cut with
  | nil =>
    obtain rfl := List.prefix_nil.mp h
    exact ⟨[], [], List.prefix_rfl, rfl, fun hne => absurd rfl hne⟩
  | cons a as ih =>
    rw [List.flatMap_cons] at h
    rcases lt_or_ge cut.length (encode a).length with hlt | hge
    · have hpart : cut <+: encode a := List.prefix_of_prefix_length_le h (List.prefix_append _ _) hlt.le
      exact ⟨[], cut, List.nil_prefix, rfl, fun _ => ⟨a, ⟨as, rfl⟩, hpart, hlt⟩⟩
    · obtain ⟨rest, rfl⟩ : encode a <+: cut :=
        List.prefix_of_prefix_length_le (List.prefix_append _ _) h hge
      obtain ⟨done, part, hcut⟩ := ih ((List.prefix_append_right_inj _).mp h)
      refine ⟨a :: done, part, List.cons_prefix_cons.mpr ⟨rfl, hcut.initial⟩, ?_, fun hne => ?_⟩
      · rw [List.flatMap_cons, List.append_assoc, ← hcut.eq]
      · obtain ⟨b, hb, hpart⟩ := hcut.next hne
        exact ⟨b, List.cons_prefix_cons.mpr ⟨rfl, hb⟩, hpart⟩

/-- The next record is not all there. -/
theorem Cut.lt {done : List α} {part : List τ} (h : Cut encode as cut done part)
    (hne : ∀ a ∈ as, encode a ≠ []) {a : α} (ha : done ++ [a] <+: as) :
    cut.length < ((done ++ [a]).flatMap encode).length := by
  rw [h.eq, List.flatMap_append, List.length_append, List.length_append, List.flatMap_singleton]
  refine Nat.add_lt_add_left ?_ _
  by_cases hpart : part = []
  · rw [hpart]
    exact List.length_pos_iff.mpr (hne a (ha.subset (by simp)))
  · obtain ⟨b, hb, -, hlt⟩ := h.next hpart
    obtain rfl : a = b := by
      have hsame := List.prefix_of_prefix_length_le ha hb (by simp)
      simpa using (List.prefix_append_right_inj done).mp hsame
    exact hlt

theorem length_flatMap_le (encode : α → List τ) {done done' : List α} (h : done <+: done') :
    (done.flatMap encode).length ≤ (done'.flatMap encode).length := by
  obtain ⟨rest, rfl⟩ := h
  rw [List.flatMap_append, List.length_append]
  exact Nat.le_add_right _ _

/-- Of two cuts of a row that leave the same, neither leaves fewer whole records. -/
theorem Cut.length_le {done done' : List α} {part part' : List τ} (h : Cut encode as cut done part)
    (h' : Cut encode as cut done' part') (hne : ∀ a ∈ as, encode a ≠ []) :
    done'.length ≤ done.length := by
  by_contra hlt
  obtain ⟨rest, rfl⟩ := List.prefix_of_prefix_length_le h.initial h'.initial (by omega)
  cases rest with
  | nil => simp at hlt
  | cons a rest =>
    have hnext : done ++ [a] <+: done ++ a :: rest := ⟨rest, by simp⟩
    have hcut := h.lt hne (hnext.trans h'.initial)
    have hle := length_flatMap_le encode hnext
    rw [h'.eq, List.length_append] at hcut
    omega

/-- A cut falls in one place. -/
theorem Cut.unique {done done' : List α} {part part' : List τ} (h : Cut encode as cut done part)
    (h' : Cut encode as cut done' part') (hne : ∀ a ∈ as, encode a ≠ []) :
    done = done' ∧ part = part' := by
  have hdone : done = done' :=
    (List.prefix_of_prefix_length_le h.initial h'.initial (h'.length_le h hne)).eq_of_length_le
      (h.length_le h' hne)
  subst hdone
  have heq := h'.eq
  rw [h.eq] at heq
  exact ⟨rfl, List.append_cancel_left heq⟩

end Midas
